/-
  Primer/Diagnostic.lean
  ======================
  **What can be wrong with a source text.**

  A `Problem` is a cause; `Problem.message` is the only place that words it.  A
  `Diagnostic` is a problem at the token where it was noticed.  A strict reading that
  meets diagnostics ends in a `Rejection`, which carries them all.
-/
import Primer.Token

namespace Primer

/-- The place in a construct where a token of a certain kind was expected. -/
inductive Place where
  | declaredName (isConst : Bool)
  | declaredValue
  | declarationEnd
  | groupEnd
  | objectKey
  | objectEnd
  | conditionStart
  | conditionEnd
  | consequence
  | alternative
  | parametersStart
  | parameterName
  | parametersEnd
  | functionBody
  | indexEnd
  | listEnd
deriving DecidableEq, Repr

def Place.text : Place → String
  | .declaredName true => "following 'const'"
  | .declaredName false => "following 'let'"
  | .declaredValue => "or ';' following variable name"
  | .declarationEnd => "at end of variable declaration"
  | .groupEnd => "to close grouped expression"
  | .objectKey => "as object literal key"
  | .objectEnd => "to close object literal"
  | .conditionStart => "following 'if'"
  | .conditionEnd => "after if condition"
  | .consequence => "to open if body"
  | .alternative => "following 'else'"
  | .parametersStart => "before function parameters"
  | .parameterName => "as parameter name"
  | .parametersEnd => "after function parameters"
  | .functionBody => "to open function body"
  | .indexEnd => "to close index expression"
  | .listEnd => "to close list"

/-- What is wrong. -/
inductive Problem where
  /-- another token stands where one of a certain kind belongs -/
  | expected (kind : TokenKind) (place : Place) (found : TokenKind) (literal : String)
  | illegalCharacter (literal : String)
  /-- no expression starts with such a token -/
  | noExpression (found : TokenKind) (literal : String)
  | uninitializedConstant (name : String)
  | missingReturnValue
  | unclosedBlock
  | integerTooLarge (digits : String)
  | unterminatedString
  | nestedTooDeeply (limit : Nat)
deriving DecidableEq, Repr

def Problem.message : Problem → String
  | .expected kind place found literal =>
    "Expected " ++ kind.name ++ " " ++ place.text ++ ", found " ++ found.name ++ " '" ++ literal
      ++ "'"
  | .illegalCharacter literal => "Illegal character '" ++ literal ++ "'"
  | .noExpression found literal =>
    "No prefix parse rule for " ++ found.name ++ " '" ++ literal ++ "'"
  | .uninitializedConstant name => "Constant '" ++ name ++ "' must be initialized"
  | .missingReturnValue => "Expected expression following 'return'"
  | .unclosedBlock => "Block is missing its closing '\x7d'"
  | .integerTooLarge digits => "Could not parse " ++ digits ++ " as integer"
  | .unterminatedString => "Unterminated string literal"
  | .nestedTooDeeply limit => "Expression nested too deeply (limit " ++ toString limit ++ ")"

/-- A problem, and the span of the token where it was noticed. -/
structure Diagnostic where
  problem : Problem
  span : Span
deriving DecidableEq, Repr

namespace Diagnostic

def message (d : Diagnostic) : String := d.problem.message

/-- The form `[start..stop] message`. -/
def text (d : Diagnostic) : String := "[" ++ d.span.text ++ "] " ++ d.message

end Diagnostic

/-- The end of a strict reading: all its diagnostics. -/
structure Rejection where
  diagnostics : List Diagnostic
deriving DecidableEq, Repr

namespace Rejection

def count (r : Rejection) : Nat := r.diagnostics.length

/-- A heading with the number of diagnostics, and a line for each. -/
def message (r : Rejection) : String :=
  "Parser has " ++ toString r.count ++ " errors\n\n"
    ++ String.join (r.diagnostics.map fun d => "ERROR: " ++ d.message ++ "\n")

end Rejection

end Primer
