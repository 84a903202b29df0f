/-
  Primer/Tree/Sexpr.lean
  ======================
  **Trees as S-expressions.**

  Every compound node is a parenthesised list that starts with its operator or a word for
  its kind, as in `(+ a (* b c))`.  Spans are not shown.  A value that was assigned to an
  entry of a literal is shown between angle brackets in the place of that entry.
-/
import Primer.Text.Quoted
import Primer.Tree.Overlay

namespace Primer

variable {ι : Type}

namespace Sexpr

/-- Each of the texts behind a space. -/
def spaced (texts : List String) : String := String.join (texts.map (" " ++ ·))

/-- The names of parameters in parentheses. -/
def params (ps : List Ident) : String := "(" ++ " ".intercalate (ps.map (·.name)) ++ ")"

/-- An entry of an object; one without value is its key alone. -/
def property (p : Property (Option String)) : String :=
  match p.value with
  | some value => "(" ++ p.key.name ++ " " ++ value ++ ")"
  | none => "(" ++ p.key.name ++ ")"

/-- An assigned value. -/
def embedded (e : Embedded) : String := "<" ++ e.text ++ ">"

end Sexpr

open Sexpr

mutual

def Expr.sexpr (o : Overlay ι) : Expr ι → String
  | .ident _ name => name
  | .str _ text => Quoted.quote text
  | .int _ value => toString value
  | .bool _ value => if value then "true" else "false"
  | .unary _ op operand => "(" ++ op.symbol ++ " " ++ operand.sexpr o ++ ")"
  | .binary _ op left right =>
    "(" ++ op.symbol ++ " " ++ left.sexpr o ++ " " ++ right.sexpr o ++ ")"
  | .cond _ condition consequence none =>
    "(if " ++ condition.sexpr o ++ " " ++ consequence.sexpr o ++ ")"
  | .cond _ condition consequence (some alternative) =>
    "(if " ++ condition.sexpr o ++ " " ++ consequence.sexpr o ++ " " ++ alternative.sexpr o ++ ")"
  | .function _ fn => fn.sexpr o
  | .call _ callee args => "(call " ++ callee.sexpr o ++ spaced (sexprExprs o args) ++ ")"
  | .index _ container key => "(index " ++ container.sexpr o ++ " " ++ key.sexpr o ++ ")"
  | .assign _ target value => "(= " ++ target.sexpr o ++ " " ++ value.sexpr o ++ ")"
  | .object _ label properties =>
    let edits := (o.properties label).map (·.map (some ∘ embedded))
    "(object" ++ spaced ((Property.overwrite (sexprProperties o properties) edits).map property)
      ++ ")"
  | .array _ label elements =>
    let edits := (o.slots label).map (·.map embedded)
    "(array" ++ spaced (overwriteSlots (sexprExprs o elements) edits) ++ ")"

def Stmt.sexpr (o : Overlay ι) : Stmt ι → String
  | .declare _ isConst name none => "(" ++ keyword isConst ++ " " ++ name.name ++ ")"
  | .declare _ isConst name (some value) =>
    "(" ++ keyword isConst ++ " " ++ name.name ++ " " ++ value.sexpr o ++ ")"
  | .function _ name fn => fn.declarationSexpr o name
  | .ret _ value => "(return " ++ value.sexpr o ++ ")"
  | .expr _ value => value.sexpr o
where
  keyword (isConst : Bool) : String := if isConst then "const" else "let"

def Block.sexpr (o : Overlay ι) : Block ι → String
  | ⟨_, statements⟩ => "(block" ++ spaced (sexprStmts o statements) ++ ")"

/-- A function that stands as an expression. -/
def Function.sexpr (o : Overlay ι) : Function ι → String
  | ⟨_, _, name, ps, body⟩ =>
    "(fn" ++ spaced (name.toList.map (·.name)) ++ " " ++ params ps ++ " " ++ body.sexpr o ++ ")"

/-- A function that stands as a declaration. -/
def Function.declarationSexpr (o : Overlay ι) (name : Ident) : Function ι → String
  | ⟨_, _, _, ps, body⟩ =>
    "(function " ++ name.name ++ " " ++ params ps ++ " " ++ body.sexpr o ++ ")"

def sexprExprs (o : Overlay ι) : List (Expr ι) → List String
  | [] => []
  | e :: es => e.sexpr o :: sexprExprs o es

def sexprStmts (o : Overlay ι) : List (Stmt ι) → List String
  | [] => []
  | s :: ss => s.sexpr o :: sexprStmts o ss

def sexprProperties (o : Overlay ι) :
    List (Property (Option (Expr ι))) → List (Property (Option String))
  | [] => []
  | ⟨span, key, none⟩ :: ps => ⟨span, key, none⟩ :: sexprProperties o ps
  | ⟨span, key, some value⟩ :: ps => ⟨span, key, some (value.sexpr o)⟩ :: sexprProperties o ps

end

/-- A program under an overlay: one line for each statement. -/
def Program.sexprWith (o : Overlay ι) (p : Program ι) : String :=
  "\n".intercalate (sexprStmts o p.statements)

/-- A program as it was read: one line for each statement. -/
def Program.sexpr (p : Program ι) : String := p.sexprWith .none

end Primer
