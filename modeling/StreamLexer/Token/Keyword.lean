/-!
Reserved words with a token of their own. Other reserved words spell operators: `fixedKeyword?`.
-/
namespace StreamLexer

/-- A reserved word. -/
inductive Keyword where
  | kwAnd
  | kwAs
  | kwAssert
  | kwBegin
  | kwClass
  | kwConstraint
  | kwDo
  | kwDone
  | kwDownto
  | kwElse
  | kwEnd
  | kwException
  | kwExternal
  | kwFalse
  | kwFor
  | kwFun
  | kwFunction
  | kwFunctor
  | kwIf
  | kwIn
  | kwInclude
  | kwInherit
  | kwInitializer
  | kwLazy
  | kwLet
  | kwMatch
  | kwMethod
  | kwModule
  | kwMutable
  | kwNew
  | kwNonrec
  | kwObject
  | kwOf
  | kwOpen
  | kwOr
  | kwPrivate
  | kwRec
  | kwSig
  | kwStruct
  | kwThen
  | kwTo
  | kwTrue
  | kwTry
  | kwType
  | kwVal
  | kwVirtual
  | kwWhen
  | kwWhile
  | kwWith
  deriving DecidableEq

namespace Keyword

/-- Every word, in alphabetical order. -/
def all : List Keyword :=
  [.kwAnd, .kwAs, .kwAssert, .kwBegin, .kwClass, .kwConstraint, .kwDo, .kwDone, .kwDownto,
   .kwElse, .kwEnd, .kwException, .kwExternal, .kwFalse, .kwFor, .kwFun, .kwFunction, .kwFunctor,
   .kwIf, .kwIn, .kwInclude, .kwInherit, .kwInitializer, .kwLazy, .kwLet, .kwMatch, .kwMethod,
   .kwModule, .kwMutable, .kwNew, .kwNonrec, .kwObject, .kwOf, .kwOpen, .kwOr, .kwPrivate, .kwRec,
   .kwSig, .kwStruct, .kwThen, .kwTo, .kwTrue, .kwTry, .kwType, .kwVal, .kwVirtual, .kwWhen,
   .kwWhile, .kwWith]

/-- The word as written. -/
def spelling : Keyword → String
  | .kwAnd => "and"
  | .kwAs => "as"
  | .kwAssert => "assert"
  | .kwBegin => "begin"
  | .kwClass => "class"
  | .kwConstraint => "constraint"
  | .kwDo => "do"
  | .kwDone => "done"
  | .kwDownto => "downto"
  | .kwElse => "else"
  | .kwEnd => "end"
  | .kwException => "exception"
  | .kwExternal => "external"
  | .kwFalse => "false"
  | .kwFor => "for"
  | .kwFun => "fun"
  | .kwFunction => "function"
  | .kwFunctor => "functor"
  | .kwIf => "if"
  | .kwIn => "in"
  | .kwInclude => "include"
  | .kwInherit => "inherit"
  | .kwInitializer => "initializer"
  | .kwLazy => "lazy"
  | .kwLet => "let"
  | .kwMatch => "match"
  | .kwMethod => "method"
  | .kwModule => "module"
  | .kwMutable => "mutable"
  | .kwNew => "new"
  | .kwNonrec => "nonrec"
  | .kwObject => "object"
  | .kwOf => "of"
  | .kwOpen => "open"
  | .kwOr => "or"
  | .kwPrivate => "private"
  | .kwRec => "rec"
  | .kwSig => "sig"
  | .kwStruct => "struct"
  | .kwThen => "then"
  | .kwTo => "to"
  | .kwTrue => "true"
  | .kwTry => "try"
  | .kwType => "type"
  | .kwVal => "val"
  | .kwVirtual => "virtual"
  | .kwWhen => "when"
  | .kwWhile => "while"
  | .kwWith => "with"

/-- The name of the word in debug output. -/
def name : Keyword → String
  | .kwAnd => "And"
  | .kwAs => "As"
  | .kwAssert => "Assert"
  | .kwBegin => "Begin"
  | .kwClass => "Class"
  | .kwConstraint => "Constraint"
  | .kwDo => "Do"
  | .kwDone => "Done"
  | .kwDownto => "Downto"
  | .kwElse => "Else"
  | .kwEnd => "End"
  | .kwException => "Exception"
  | .kwExternal => "External"
  | .kwFalse => "False"
  | .kwFor => "For"
  | .kwFun => "Fun"
  | .kwFunction => "Function"
  | .kwFunctor => "Functor"
  | .kwIf => "If"
  | .kwIn => "In"
  | .kwInclude => "Include"
  | .kwInherit => "Inherit"
  | .kwInitializer => "Initializer"
  | .kwLazy => "Lazy"
  | .kwLet => "Let"
  | .kwMatch => "Match"
  | .kwMethod => "Method"
  | .kwModule => "Module"
  | .kwMutable => "Mutable"
  | .kwNew => "New"
  | .kwNonrec => "Nonrec"
  | .kwObject => "Object"
  | .kwOf => "Of"
  | .kwOpen => "Open"
  | .kwOr => "Or"
  | .kwPrivate => "Private"
  | .kwRec => "Rec"
  | .kwSig => "Sig"
  | .kwStruct => "Struct"
  | .kwThen => "Then"
  | .kwTo => "To"
  | .kwTrue => "True"
  | .kwTry => "Try"
  | .kwType => "Type"
  | .kwVal => "Val"
  | .kwVirtual => "Virtual"
  | .kwWhen => "When"
  | .kwWhile => "While"
  | .kwWith => "With"

end Keyword

end StreamLexer
