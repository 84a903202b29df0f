/-
  Primer/Tree/Json.lean
  =====================
  **Tokens and trees as JSON.**

  A node is an object of its `kind` and its `span`; the kind is an object with a single
  field named for what the node is.  A value that was assigned to an entry of a literal
  is a node of kind `Embedded` in the place of that entry.
-/
import Primer.Json
import Primer.Token
import Primer.Tree.Overlay

namespace Primer

variable {ι : Type}

def Span.json (s : Span) : Json := .obj [("start", .num s.start), ("end", .num s.stop)]

def Token.json (t : Token) : Json :=
  .obj [("kind", .str t.kind.name), ("literal", .str t.literal), ("span", t.span.json)]

def Ident.json (x : Ident) : Json := .obj [("name", .str x.name), ("span", x.span.json)]

/-- An object with a single field. -/
def Json.tagged (tag : String) (x : Json) : Json := .obj [(tag, x)]

/-- A node: what it is, and where. -/
def Json.node (kind : Json) (span : Span) : Json := .obj [("kind", kind), ("span", span.json)]

def Embedded.json (e : Embedded) : Json := .node (.tagged "Embedded" (.str e.text)) e.span

def Property.json (p : Property Json) : Json :=
  .obj [("key", p.key.json), ("value", p.value), ("span", p.span.json)]

mutual

def Expr.json (o : Overlay ι) : Expr ι → Json
  | .ident span name => .node (.tagged "Identifier" (.str name)) span
  | .str span text => .node (.tagged "StringLiteral" (.str text)) span
  | .int span value => .node (.tagged "IntegerLiteral" (.num value)) span
  | .bool span value => .node (.tagged "BooleanLiteral" (.bool value)) span
  | .unary span op operand =>
    .node (.tagged "Prefix" (.obj [("operator", .str op.symbol), ("operand", operand.json o)])) span
  | .binary span op left right =>
    .node (.tagged "Infix" (.obj
      [("left", left.json o), ("operator", .str op.symbol), ("right", right.json o)])) span
  | .cond span condition consequence none =>
    .node (.tagged "If" (.obj [("condition", condition.json o),
      ("consequence", consequence.json o), ("alternative", .null)])) span
  | .cond span condition consequence (some alternative) =>
    .node (.tagged "If" (.obj [("condition", condition.json o),
      ("consequence", consequence.json o), ("alternative", alternative.json o)])) span
  | .function span fn => .node (.tagged "Function" (fn.json o)) span
  | .call span callee args =>
    .node (.tagged "Call" (.obj [("callee", callee.json o), ("args", .arr (jsonExprs o args))])) span
  | .index span container key =>
    .node (.tagged "Member" (.obj [("object", container.json o), ("index", key.json o)])) span
  | .assign span target value =>
    .node (.tagged "Assignment" (.obj [("target", target.json o), ("value", value.json o)])) span
  | .object span label properties =>
    let edits := (o.properties label).map (·.map Embedded.json)
    let entries := Property.overwrite (jsonProperties o properties) edits
    .node (.tagged "Object" (.obj [("properties", .arr (entries.map Property.json))])) span
  | .array span label elements =>
    let edits := (o.slots label).map (·.map Embedded.json)
    .node (.tagged "Array" (.obj
      [("elements", .arr (overwriteSlots (jsonExprs o elements) edits))])) span

def Stmt.json (o : Overlay ι) : Stmt ι → Json
  | .declare span isConst name none => declaration span isConst name .null
  | .declare span isConst name (some value) => declaration span isConst name (value.json o)
  | .function span name fn =>
    .node (.tagged "FunctionDeclaration"
      (.obj [("name", name.json), ("function", fn.json o)])) span
  | .ret span value => .node (.tagged "Return" (.obj [("value", value.json o)])) span
  | .expr span value => .node (.tagged "Expression" (.obj [("expr", value.json o)])) span
where
  declaration (span : Span) (isConst : Bool) (name : Ident) (value : Json) : Json :=
    .node (.tagged "VariableDeclaration" (.obj
      [("is_constant", .bool isConst), ("name", name.json), ("value", value)])) span

def Block.json (o : Overlay ι) : Block ι → Json
  | ⟨span, statements⟩ => .obj [("statements", .arr (jsonStmts o statements)), ("span", span.json)]

def Function.json (o : Overlay ι) : Function ι → Json
  | ⟨span, _, name, params, body⟩ =>
    .obj [("name", (name.map Ident.json).getD .null), ("params", .arr (params.map Ident.json)),
      ("body", body.json o), ("span", span.json)]

def jsonExprs (o : Overlay ι) : List (Expr ι) → List Json
  | [] => []
  | e :: es => e.json o :: jsonExprs o es

def jsonStmts (o : Overlay ι) : List (Stmt ι) → List Json
  | [] => []
  | s :: ss => s.json o :: jsonStmts o ss

def jsonProperties (o : Overlay ι) : List (Property (Option (Expr ι))) → List (Property Json)
  | [] => []
  | ⟨span, key, none⟩ :: ps => ⟨span, key, .null⟩ :: jsonProperties o ps
  | ⟨span, key, some value⟩ :: ps => ⟨span, key, value.json o⟩ :: jsonProperties o ps

end

/-- A program under an overlay. -/
def Program.jsonWith (o : Overlay ι) (p : Program ι) : Json :=
  .obj [("statements", .arr (jsonStmts o p.statements)), ("span", p.span.json)]

/-- A program as it was read. -/
def Program.json (p : Program ι) : Json := p.jsonWith .none

end Primer
