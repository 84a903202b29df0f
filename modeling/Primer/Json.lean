/-
  Primer/Json.lean
  ================
  **JSON values and their indented text.**

  Objects keep their fields in order.  The text form puts every item of a list and every
  field on a line of its own, two spaces deeper than the list or object it belongs to; an
  empty list or object stays on one line.
-/
import Primer.Text.Quoted

namespace Primer

/-- A JSON value; numbers are integers. -/
inductive Json where
  | null
  | bool (value : Bool)
  | num (value : Int)
  | str (text : String)
  | arr (items : List Json)
  | obj (fields : List (String × Json))

namespace Json

/-- One character of a JSON string. -/
def escape (c : Char) : String :=
  if c = '"' then "\\\""
  else if c = '\\' then "\\\\"
  else if c = '\n' then "\\n"
  else if c = '\r' then "\\r"
  else if c = '\t' then "\\t"
  else if c = '\x08' then "\\b"
  else if c = '\x0c' then "\\f"
  else if c.toNat < 0x10 then "\\u000" ++ Quoted.hex c.toNat
  else if c.toNat < 0x20 then "\\u00" ++ Quoted.hex c.toNat
  else c.toString

/-- A JSON string. -/
def quote (s : String) : String := "\"" ++ String.join (s.toList.map escape) ++ "\""

/-- A new line, indented by two spaces for each of `depth` levels. -/
def newline (depth : Nat) : String := "\n" ++ String.ofList (List.replicate (2 * depth) ' ')

mutual

/-- The text of a value that stands `depth` levels deep. -/
def textAt (depth : Nat) : Json → String
  | .null => "null"
  | .bool true => "true"
  | .bool false => "false"
  | .num n => toString n
  | .str s => quote s
  | .arr [] => "[]"
  | .arr (x :: xs) =>
    "[" ++ ",".intercalate (itemTexts (depth + 1) (x :: xs)) ++ newline depth ++ "]"
  | .obj [] => "\x7b\x7d"
  | .obj (f :: fs) =>
    "\x7b" ++ ",".intercalate (fieldTexts (depth + 1) (f :: fs)) ++ newline depth ++ "\x7d"

def itemTexts (depth : Nat) : List Json → List String
  | [] => []
  | x :: xs => (newline depth ++ x.textAt depth) :: itemTexts depth xs

def fieldTexts (depth : Nat) : List (String × Json) → List String
  | [] => []
  | (name, x) :: fs => (newline depth ++ quote name ++ ": " ++ x.textAt depth) :: fieldTexts depth fs

end

/-- The indented text of a value. -/
def pretty (x : Json) : String := x.textAt 0

end Json

end Primer
