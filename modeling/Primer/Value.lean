/-
  Primer/Value.lean
  =================
  **Values of a running program.**

  A function value is a function with the frame that was current where it was made.  An
  object or array value is the literal itself: its entries are evaluated when they are
  read, and what has been assigned to them is kept in the heap under its label.  A
  `returned` value is the signal that a `return` sends to the nearest call.
-/
import Primer.Text.Quoted
import Primer.Tree.Label
import Primer.Tree.Sexpr

namespace Primer

/-- The identity of a frame of variables. -/
abbrev FrameId := Nat

/-- A value. -/
inductive Value where
  | integer (value : Int)
  | string (text : String)
  | boolean (value : Bool)
  /-- the value of an `if` that takes no branch, and of operators without meaning -/
  | null
  /-- the value of what was never given one -/
  | undefined
  | returned (value : Value)
  | closure (fn : Function Label) (frame : FrameId)
  | object (label : Label) (properties : List (Property (Option (Expr Label))))
  | array (label : Label) (elements : List (Expr Label))

namespace Value

/-- The name of a value's kind. -/
def kindName : Value → String
  | integer _ => "integer"
  | string _ => "string"
  | boolean _ => "boolean"
  | null => "null"
  | undefined => "undefined"
  | returned _ => "return value"
  | closure .. => "function"
  | object .. => "object"
  | array .. => "array"

/-- Does a condition hold? Every value but `false` and `null` counts as true. -/
def isTruthy : Value → Bool
  | boolean false => false
  | null => false
  | _ => true

def isReturned : Value → Bool
  | returned _ => true
  | _ => false

/-- The value without the signal of a `return` around it. -/
def unwrap : Value → Value
  | returned v => v
  | v => v

/-- Equality as the operator `==` sees it: functions and literals are equal only to
themselves, all else by value. -/
def equal : Value → Value → Bool
  | integer a, integer b => a == b
  | string a, string b => a == b
  | boolean a, boolean b => a == b
  | null, null => true
  | undefined, undefined => true
  | returned a, returned b => a.equal b
  | closure f i, closure g j => f.label == g.label && i == j
  | object a _, object b _ => a == b
  | array a _, array b _ => a == b
  | _, _ => false

/-- The text of a value, with its kind behind it where that is not plain. -/
def text : Value → String
  | integer n => toString n ++ " : integer"
  | string s => s ++ " : string"
  | boolean b => (if b then "true" else "false") ++ " : boolean"
  | null => "null"
  | undefined => "undefined"
  | returned v => v.text
  | closure .. => "[Function]"
  | object .. => "[Object]"
  | array .. => "[Array]"

end Value

/-- Names in a list, each in quotes. -/
def quotedNames (names : List String) : String :=
  "[" ++ ", ".intercalate (names.map Quoted.quote) ++ "]"

/-- The name and the parameters of a function. -/
def Function.describe {ι : Type} (fn : Function ι) : String :=
  let name := match fn.name with
    | some x => "Some(" ++ Quoted.quote x.name ++ ")"
    | none => "None"
  "Closure \x7b name: " ++ name ++ ", params: " ++ quotedNames (fn.params.map (·.name))
    ++ ", .. \x7d"

/-- What a function, object or array looks like from inside; other values have no inside. -/
def Value.describe? (o : Overlay Label) : Value → Option String
  | .closure fn _ => some fn.describe
  | .object label properties => some ((Expr.object .zero label properties).sexpr o)
  | .array label elements => some ((Expr.array .zero label elements).sexpr o)
  | _ => none

end Primer
