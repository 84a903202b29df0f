/-
  Primer/Proofs/Tree/Sexpr.lean
  =============================
  **Trees read back from their S-expressions.**

  An S-expression is the text of a nested list (`Expr.datum`), and the list can be read as a tree
  again (`Datum.stmt?`).  A list is read by its first word and its length, and a word that is not
  the first of a list is a number, a truth value or a name.  So all that a name has to be for this
  is a name (`WellNamed`), even if it is one of the words that lists start with.

  Spans are not shown and read back as `0..0`.  The name of a declared function is shown once and
  stands for both the statement's name and the function's own, which have to be the same.
-/
import Primer.Proofs.Token.Words
import Primer.Proofs.Tree.Datum
import Primer.Tree.Sexpr
import Primer.Tree.Spans

namespace Primer

variable {ι : Type}

/-! ### Trees as nested lists -/

/-- The names of parameters. -/
def paramsDatum (xs : List Ident) : Datum := .list (xs.map (.word ·.name))

mutual

def Expr.datum : Expr ι → Datum
  | .ident _ name => .word name
  | .str _ text => .quoted text
  | .int _ value => .word (toString value)
  | .bool _ value => .word (if value then "true" else "false")
  | .unary _ op operand => .list [.word op.symbol, operand.datum]
  | .binary _ op left right => .list [.word op.symbol, left.datum, right.datum]
  | .cond _ condition consequence none =>
    .list [.word "if", condition.datum, consequence.datum]
  | .cond _ condition consequence (some alternative) =>
    .list [.word "if", condition.datum, consequence.datum, alternative.datum]
  | .function _ fn => fn.datum
  | .call _ callee args => .list (.word "call" :: callee.datum :: dataExprs args)
  | .index _ container key => .list [.word "index", container.datum, key.datum]
  | .assign _ target value => .list [.word "=", target.datum, value.datum]
  | .object _ _ properties => .list (.word "object" :: dataProperties properties)
  | .array _ _ elements => .list (.word "array" :: dataExprs elements)

def Stmt.datum : Stmt ι → Datum
  | .declare _ isConst name none => .list [.word (Stmt.sexpr.keyword isConst), .word name.name]
  | .declare _ isConst name (some value) =>
    .list [.word (Stmt.sexpr.keyword isConst), .word name.name, value.datum]
  | .function _ name fn => fn.declarationDatum name
  | .ret _ value => .list [.word "return", value.datum]
  | .expr _ value => value.datum

def Block.datum : Block ι → Datum
  | ⟨_, statements⟩ => .list (.word "block" :: dataStmts statements)

def Function.datum : Function ι → Datum
  | ⟨_, _, none, params, body⟩ => .list [.word "fn", paramsDatum params, body.datum]
  | ⟨_, _, some name, params, body⟩ =>
    .list [.word "fn", .word name.name, paramsDatum params, body.datum]

def Function.declarationDatum (name : Ident) : Function ι → Datum
  | ⟨_, _, _, params, body⟩ =>
    .list [.word "function", .word name.name, paramsDatum params, body.datum]

def dataExprs : List (Expr ι) → List Datum
  | [] => []
  | e :: es => e.datum :: dataExprs es

def dataStmts : List (Stmt ι) → List Datum
  | [] => []
  | s :: ss => s.datum :: dataStmts ss

def dataProperties : List (Property (Option (Expr ι))) → List Datum
  | [] => []
  | ⟨_, key, none⟩ :: ps => .list [.word key.name] :: dataProperties ps
  | ⟨_, key, some value⟩ :: ps => .list [.word key.name, value.datum] :: dataProperties ps

end

/-! ### The S-expression is the text of the list -/

open Datum (charsBehind charsOf chars_list)

theorem toList_spaced_cons (t : String) (ts : List String) :
    (Sexpr.spaced (t :: ts)).toList = ' ' :: (t.toList ++ (Sexpr.spaced ts).toList) := by
  simp [Sexpr.spaced]

theorem toList_params (xs : List Ident) :
    (Sexpr.params xs).toList = (paramsDatum xs).chars := by
  unfold Sexpr.params paramsDatum
  rw [chars_list, Datum.charsOf_eq_intercalate]
  simp [String.toList_intercalate, Function.comp_def, Datum.chars]

theorem Overlay.none_properties (label : ι) : (none : Overlay ι).properties label = [] := rfl

theorem Overlay.none_slots (label : ι) : (none : Overlay ι).slots label = [] := rfl

mutual

theorem Expr.toList_sexpr : ∀ e : Expr ι, (e.sexpr .none).toList = e.datum.chars
  | .ident .. | .str .. | .int .. => rfl
  | .bool _ value => by cases value <;> rfl
  | .unary _ op e => by
    simp [Expr.sexpr, Expr.datum, Datum.chars, charsBehind, e.toList_sexpr]
  | .binary _ op l r => by
    simp [Expr.sexpr, Expr.datum, Datum.chars, charsBehind, l.toList_sexpr, r.toList_sexpr]
  | .cond _ c b none => by
    simp [Expr.sexpr, Expr.datum, Datum.chars, charsBehind, c.toList_sexpr, b.toList_sexpr]
  | .cond _ c b (some a) => by
    simp [Expr.sexpr, Expr.datum, Datum.chars, charsBehind, c.toList_sexpr, b.toList_sexpr,
      a.toList_sexpr]
  | .function _ fn => fn.toList_sexpr
  | .call _ c es => by
    simp [Expr.sexpr, Expr.datum, Datum.chars, charsBehind, c.toList_sexpr, toList_sexprExprs es]
  | .index _ c k => by
    simp [Expr.sexpr, Expr.datum, Datum.chars, charsBehind, c.toList_sexpr, k.toList_sexpr]
  | .assign _ t v => by
    simp [Expr.sexpr, Expr.datum, Datum.chars, charsBehind, t.toList_sexpr, v.toList_sexpr]
  | .object _ label ps => by
    simp [Expr.sexpr, Expr.datum, Datum.chars, Overlay.none_properties,
      toList_sexprProperties ps]
  | .array _ label es => by
    simp [Expr.sexpr, Expr.datum, Datum.chars, Overlay.none_slots, toList_sexprExprs es]

theorem Stmt.toList_sexpr : ∀ s : Stmt ι, (s.sexpr .none).toList = s.datum.chars
  | .declare _ isConst name none => by
    simp [Stmt.sexpr, Stmt.datum, Datum.chars, charsBehind]
  | .declare _ isConst name (some v) => by
    simp [Stmt.sexpr, Stmt.datum, Datum.chars, charsBehind, v.toList_sexpr]
  | .function _ name fn => fn.toList_declarationSexpr name
  | .ret _ v => by
    simp [Stmt.sexpr, Stmt.datum, Datum.chars, charsBehind, v.toList_sexpr]
  | .expr _ v => v.toList_sexpr

theorem Block.toList_sexpr : ∀ b : Block ι, (b.sexpr .none).toList = b.datum.chars
  | ⟨_, ss⟩ => by
    simp [Block.sexpr, Block.datum, Datum.chars, toList_sexprStmts ss]

theorem Function.toList_sexpr : ∀ fn : Function ι, (fn.sexpr .none).toList = fn.datum.chars
  | ⟨_, _, none, xs, b⟩ => by
    simp [Function.sexpr, Function.datum, Datum.chars, charsBehind, toList_params, b.toList_sexpr,
      Sexpr.spaced]
  | ⟨_, _, some x, xs, b⟩ => by
    simp [Function.sexpr, Function.datum, Datum.chars, charsBehind, toList_params, b.toList_sexpr,
      Sexpr.spaced]

theorem Function.toList_declarationSexpr (name : Ident) : ∀ fn : Function ι,
    (fn.declarationSexpr .none name).toList = (fn.declarationDatum name).chars
  | ⟨_, _, _, xs, b⟩ => by
    simp [Function.declarationSexpr, Function.declarationDatum, Datum.chars, charsBehind,
      toList_params, b.toList_sexpr]

theorem toList_sexprExprs : ∀ es : List (Expr ι),
    (Sexpr.spaced (sexprExprs .none es)).toList = charsBehind ' ' (dataExprs es)
  | [] => rfl
  | e :: es => by
    rw [sexprExprs, toList_spaced_cons, e.toList_sexpr, toList_sexprExprs es, dataExprs,
      charsBehind]

theorem toList_sexprStmts : ∀ ss : List (Stmt ι),
    (Sexpr.spaced (sexprStmts .none ss)).toList = charsBehind ' ' (dataStmts ss)
  | [] => rfl
  | s :: ss => by
    rw [sexprStmts, toList_spaced_cons, s.toList_sexpr, toList_sexprStmts ss, dataStmts,
      charsBehind]

theorem toList_sexprProperties : ∀ ps : List (Property (Option (Expr ι))),
    (Sexpr.spaced ((sexprProperties .none ps).map Sexpr.property)).toList =
      charsBehind ' ' (dataProperties ps)
  | [] => rfl
  | ⟨_, key, none⟩ :: ps => by
    rw [sexprProperties, List.map_cons, toList_spaced_cons, toList_sexprProperties ps,
      dataProperties, charsBehind]
    simp [Sexpr.property, Datum.chars, charsBehind]
  | ⟨_, key, some v⟩ :: ps => by
    rw [sexprProperties, List.map_cons, toList_spaced_cons, toList_sexprProperties ps,
      dataProperties, charsBehind]
    simp [Sexpr.property, Datum.chars, charsBehind, v.toList_sexpr]

end

theorem Program.toList_sexpr (p : Program ι) :
    p.sexpr.toList = charsOf '\n' (dataStmts p.statements) := by
  have hmap (ss : List (Stmt ι)) :
      (sexprStmts .none ss).map String.toList = (dataStmts ss).map Datum.chars := by
    induction ss with
    | nil => rfl
    | cons s ss ih => rw [sexprStmts, dataStmts, List.map_cons, List.map_cons, s.toList_sexpr, ih]
  unfold Program.sexpr Program.sexprWith
  rw [String.toList_intercalate, hmap, Datum.charsOf_eq_intercalate]
  rfl

/-! ### Names -/

/-- The text is the name. -/
def Ident.WellNamed (x : Ident) : Prop := isName x.name = true

mutual

/-- All names in the expression are names. -/
def Expr.WellNamed : Expr ι → Prop
  | .ident _ name => isName name = true
  | .str .. | .int .. | .bool .. => True
  | .unary _ _ operand => operand.WellNamed
  | .binary _ _ left right => left.WellNamed ∧ right.WellNamed
  | .cond _ condition consequence none => condition.WellNamed ∧ consequence.WellNamed
  | .cond _ condition consequence (some alternative) =>
    condition.WellNamed ∧ consequence.WellNamed ∧ alternative.WellNamed
  | .function _ fn => fn.WellNamed
  | .call _ callee args => callee.WellNamed ∧ WellNamedExprs args
  | .index _ container key => container.WellNamed ∧ key.WellNamed
  | .assign _ target value => target.WellNamed ∧ value.WellNamed
  | .object _ _ properties => WellNamedProperties properties
  | .array _ _ elements => WellNamedExprs elements

/-- The same of a statement, and a declared function goes by the name it is declared under. -/
def Stmt.WellNamed : Stmt ι → Prop
  | .declare _ _ name none => name.WellNamed
  | .declare _ _ name (some value) => name.WellNamed ∧ value.WellNamed
  | .function _ name fn => fn.name.map (·.name) = some name.name ∧ fn.WellNamed
  | .ret _ value => value.WellNamed
  | .expr _ value => value.WellNamed

def Block.WellNamed : Block ι → Prop
  | ⟨_, statements⟩ => WellNamedStmts statements

def Function.WellNamed : Function ι → Prop
  | ⟨_, _, name, params, body⟩ =>
    (∀ x ∈ name, x.WellNamed) ∧ (∀ x ∈ params, x.WellNamed) ∧ body.WellNamed

def WellNamedExprs : List (Expr ι) → Prop
  | [] => True
  | e :: es => e.WellNamed ∧ WellNamedExprs es

def WellNamedStmts : List (Stmt ι) → Prop
  | [] => True
  | s :: ss => s.WellNamed ∧ WellNamedStmts ss

def WellNamedProperties : List (Property (Option (Expr ι))) → Prop
  | [] => True
  | ⟨_, key, none⟩ :: ps => key.WellNamed ∧ WellNamedProperties ps
  | ⟨_, key, some value⟩ :: ps => key.WellNamed ∧ value.WellNamed ∧ WellNamedProperties ps

end

/-! ### Reading lists as trees -/

/-- A word that is not the first of a list. -/
def Expr.ofWord (w : String) : Expr Unit :=
  if w.toList.all isDigit then .int .zero (Nat.ofDigitChars 10 w.toList 0)
  else if w = "true" then .bool .zero true
  else if w = "false" then .bool .zero false
  else .ident .zero w

def UnaryOp.ofSymbol? : String → Option UnaryOp
  | "!" => some .not
  | "-" => some .neg
  | _ => none

def BinaryOp.ofSymbol? : String → Option BinaryOp
  | "+" => some .add
  | "-" => some .sub
  | "*" => some .mul
  | "/" => some .div
  | "<" => some .lt
  | "<=" => some .le
  | ">" => some .gt
  | ">=" => some .ge
  | "==" => some .eq
  | "!=" => some .ne
  | _ => none

/-- The expression that the statement consists of. -/
def Stmt.expr? : Stmt Unit → Option (Expr Unit)
  | .expr _ e => some e
  | _ => none

namespace Datum

/-- The names that are written so. -/
def names? : List Datum → Option (List Ident)
  | [] => some []
  | .word x :: ds => do return ⟨.zero, x⟩ :: (← names? ds)
  | _ :: _ => none

mutual

/-- The statement that is written so; an expression is one by itself. -/
def stmt? : Datum → Option (Stmt Unit)
  | .word w => some (.expr .zero (.ofWord w))
  | .quoted text => some (.expr .zero (.str .zero text))
  | .list [.word "let", .word x] => some (.declare .zero false ⟨.zero, x⟩ none)
  | .list [.word "let", .word x, v] => do
    return .declare .zero false ⟨.zero, x⟩ (← (← v.stmt?).expr?)
  | .list [.word "const", .word x] => some (.declare .zero true ⟨.zero, x⟩ none)
  | .list [.word "const", .word x, v] => do
    return .declare .zero true ⟨.zero, x⟩ (← (← v.stmt?).expr?)
  | .list [.word "function", .word x, .list xs, b] => do
    return .function .zero ⟨.zero, x⟩ ⟨.zero, (), some ⟨.zero, x⟩, ← names? xs, ← b.block?⟩
  | .list [.word "return", v] => do return .ret .zero (← (← v.stmt?).expr?)
  | .list [.word "fn", .list xs, b] => do
    return .expr .zero (.function .zero ⟨.zero, (), none, ← names? xs, ← b.block?⟩)
  | .list [.word "fn", .word x, .list xs, b] => do
    return .expr .zero
      (.function .zero ⟨.zero, (), some ⟨.zero, x⟩, ← names? xs, ← b.block?⟩)
  | .list [.word "if", c, b] => do
    return .expr .zero (.cond .zero (← (← c.stmt?).expr?) (← b.block?) none)
  | .list [.word "if", c, b, a] => do
    return .expr .zero (.cond .zero (← (← c.stmt?).expr?) (← b.block?) (some (← a.block?)))
  | .list (.word "call" :: c :: es) => do
    return .expr .zero (.call .zero (← (← c.stmt?).expr?) (← exprs? es))
  | .list [.word "index", c, k] => do
    return .expr .zero (.index .zero (← (← c.stmt?).expr?) (← (← k.stmt?).expr?))
  | .list [.word "=", t, v] => do
    return .expr .zero (.assign .zero (← (← t.stmt?).expr?) (← (← v.stmt?).expr?))
  | .list (.word "object" :: ps) => do return .expr .zero (.object .zero () (← properties? ps))
  | .list (.word "array" :: es) => do return .expr .zero (.array .zero () (← exprs? es))
  | .list [.word op, e] => do
    return .expr .zero (.unary .zero (← UnaryOp.ofSymbol? op) (← (← e.stmt?).expr?))
  | .list [.word op, l, r] => do
    return .expr .zero
      (.binary .zero (← BinaryOp.ofSymbol? op) (← (← l.stmt?).expr?) (← (← r.stmt?).expr?))
  | .list _ => none

def block? : Datum → Option (Block Unit)
  | .list (.word "block" :: ss) => do return ⟨.zero, ← stmts? ss⟩
  | _ => none

def exprs? : List Datum → Option (List (Expr Unit))
  | [] => some []
  | d :: ds => do return (← (← d.stmt?).expr?) :: (← exprs? ds)

def stmts? : List Datum → Option (List (Stmt Unit))
  | [] => some []
  | d :: ds => do return (← d.stmt?) :: (← stmts? ds)

def properties? : List Datum → Option (List (Property (Option (Expr Unit))))
  | [] => some []
  | .list [.word key] :: ds => do return ⟨.zero, ⟨.zero, key⟩, none⟩ :: (← properties? ds)
  | .list [.word key, v] :: ds => do
    return ⟨.zero, ⟨.zero, key⟩, some (← (← v.stmt?).expr?)⟩ :: (← properties? ds)
  | _ :: _ => none

end

end Datum

/-! ### A tree is read back from its list -/

theorem Expr.ofWord_name {x : String} (h : isName x = true) : Expr.ofWord x = .ident .zero x := by
  unfold isName at h
  simp only [Bool.and_eq_true, Bool.not_eq_true', List.isEmpty_eq_false_iff, List.all_eq_true,
    beq_iff_eq] at h
  obtain ⟨⟨hne, hletters⟩, hkind⟩ := h
  have hdigits : x.toList.all isDigit ≠ true := by
    obtain ⟨c, cs, hcs⟩ := List.exists_cons_of_ne_nil hne
    have hc := hletters c (by rw [hcs]; exact List.mem_cons_self)
    rw [hcs, List.all_cons, isDigit_of_isLetter hc, Bool.false_and]
    decide
  unfold ofWord
  rw [if_neg hdigits, if_neg, if_neg]
  · rintro rfl
    exact absurd hkind (by decide)
  · rintro rfl
    exact absurd hkind (by decide)

theorem Expr.ofWord_toString (n : Nat) : Expr.ofWord (toString n) = .int .zero n := by
  have hdigits : (toString n).toList = Nat.toDigits 10 n := by
    rw [Nat.toString_eq_ofList_toDigits, String.toList_ofList]
  have hall : (toString n).toList.all isDigit = true := by
    rw [List.all_eq_true, hdigits]
    exact fun c hc => Nat.isDigit_of_mem_toDigits (by decide) (by decide) hc
  unfold ofWord
  rw [if_pos hall, hdigits, Nat.ofDigitChars_ten_toDigits]

open Datum (names? stmt? block? exprs? stmts? properties?)

theorem names?_words (xs : List Ident) :
    names? (xs.map (.word ·.name)) = some (xs.map (·.mapSpans fun _ => .zero)) := by
  induction xs with
  | nil => rfl
  | cons x xs ih => simp [names?, ih, Ident.mapSpans]

mutual

theorem Expr.stmt?_datum : ∀ e : Expr Unit, e.WellNamed →
    e.datum.stmt? = some (.expr .zero (e.mapSpans fun _ => .zero))
  | .ident _ x, h => by rw [Expr.datum, stmt?, Expr.ofWord_name h, Expr.mapSpans]
  | .str .., _ => by rw [Expr.datum, stmt?, Expr.mapSpans]
  | .int _ n, _ => by rw [Expr.datum, stmt?, Expr.ofWord_toString, Expr.mapSpans]
  | .bool _ v, _ => by cases v <;> rfl
  | .unary _ op e, h => by
    cases op <;> simp [Expr.datum, stmt?, UnaryOp.symbol, UnaryOp.ofSymbol?, e.stmt?_datum h,
      Stmt.expr?, Expr.mapSpans]
  | .binary _ op l r, h => by
    cases op <;> simp [Expr.datum, stmt?, BinaryOp.symbol, BinaryOp.ofSymbol?, l.stmt?_datum h.1,
      r.stmt?_datum h.2, Stmt.expr?, Expr.mapSpans]
  | .cond _ c b none, h => by
    simp [Expr.datum, stmt?, c.stmt?_datum h.1, b.block?_datum h.2, Stmt.expr?, Expr.mapSpans]
  | .cond _ c b (some a), h => by
    simp [Expr.datum, stmt?, c.stmt?_datum h.1, b.block?_datum h.2.1, a.block?_datum h.2.2,
      Stmt.expr?, Expr.mapSpans]
  | .function _ fn, h => fn.stmt?_datum h
  | .call _ c es, h => by
    simp [Expr.datum, stmt?, c.stmt?_datum h.1, exprs?_dataExprs es h.2, Stmt.expr?, Expr.mapSpans]
  | .index _ c k, h => by
    simp [Expr.datum, stmt?, c.stmt?_datum h.1, k.stmt?_datum h.2, Stmt.expr?, Expr.mapSpans]
  | .assign _ t v, h => by
    simp [Expr.datum, stmt?, t.stmt?_datum h.1, v.stmt?_datum h.2, Stmt.expr?, Expr.mapSpans]
  | .object _ _ ps, h => by
    simp [Expr.datum, stmt?, properties?_dataProperties ps h, Expr.mapSpans]
  | .array _ _ es, h => by
    simp [Expr.datum, stmt?, exprs?_dataExprs es h, Expr.mapSpans]

theorem Stmt.stmt?_datum : ∀ s : Stmt Unit, s.WellNamed →
    s.datum.stmt? = some (s.mapSpans fun _ => .zero)
  | .declare _ isConst x none, h => by
    cases isConst <;> simp [Stmt.datum, stmt?, Stmt.sexpr.keyword, Stmt.mapSpans, Ident.mapSpans]
  | .declare _ isConst x (some v), h => by
    cases isConst <;> simp [Stmt.datum, stmt?, Stmt.sexpr.keyword, v.stmt?_datum h.2, Stmt.expr?,
      Stmt.mapSpans, Ident.mapSpans]
  | .function _ x fn, h => by
    rw [Stmt.datum, fn.stmt?_declarationDatum h.1 h.2, Stmt.mapSpans]
    rfl
  | .ret _ v, h => by simp [Stmt.datum, stmt?, v.stmt?_datum h, Stmt.expr?, Stmt.mapSpans]
  | .expr _ v, h => by rw [Stmt.datum, v.stmt?_datum h, Stmt.mapSpans]

theorem Block.block?_datum : ∀ b : Block Unit, b.WellNamed →
    b.datum.block? = some (b.mapSpans fun _ => .zero)
  | ⟨_, ss⟩, h => by simp [Block.datum, block?, stmts?_dataStmts ss h, Block.mapSpans]

theorem Function.stmt?_datum : ∀ fn : Function Unit, fn.WellNamed →
    fn.datum.stmt? = some (.expr .zero (.function .zero (fn.mapSpans fun _ => .zero)))
  | ⟨_, _, none, xs, b⟩, h => by
    simp [Function.datum, paramsDatum, stmt?, names?_words, b.block?_datum h.2.2, Function.mapSpans]
  | ⟨_, _, some x, xs, b⟩, h => by
    simp [Function.datum, paramsDatum, stmt?, names?_words, b.block?_datum h.2.2, Function.mapSpans,
      Ident.mapSpans]

theorem Function.stmt?_declarationDatum {name : Ident} : ∀ fn : Function Unit,
    fn.name.map (·.name) = some name.name → fn.WellNamed →
    (fn.declarationDatum name).stmt? =
      some (.function .zero ⟨.zero, name.name⟩ (fn.mapSpans fun _ => .zero))
  | ⟨_, _, x, xs, b⟩, hname, h => by
    obtain ⟨y, rfl, hy⟩ := Option.map_eq_some_iff.1 hname
    simp [Function.declarationDatum, paramsDatum, stmt?, names?_words, b.block?_datum h.2.2,
      Function.mapSpans, Ident.mapSpans, hy]

theorem exprs?_dataExprs : ∀ es : List (Expr Unit), WellNamedExprs es →
    exprs? (dataExprs es) = some (mapSpansExprs (fun _ => .zero) es)
  | [], _ => rfl
  | e :: es, h => by
    simp [dataExprs, exprs?, e.stmt?_datum h.1, exprs?_dataExprs es h.2, Stmt.expr?, mapSpansExprs]

theorem stmts?_dataStmts : ∀ ss : List (Stmt Unit), WellNamedStmts ss →
    stmts? (dataStmts ss) = some (mapSpansStmts (fun _ => .zero) ss)
  | [], _ => rfl
  | s :: ss, h => by
    simp [dataStmts, stmts?, s.stmt?_datum h.1, stmts?_dataStmts ss h.2, mapSpansStmts]

theorem properties?_dataProperties : ∀ ps : List (Property (Option (Expr Unit))),
    WellNamedProperties ps →
    properties? (dataProperties ps) = some (mapSpansProperties (fun _ => .zero) ps)
  | [], _ => rfl
  | ⟨_, key, none⟩ :: ps, h => by
    simp [dataProperties, properties?, properties?_dataProperties ps h.2, mapSpansProperties,
      Ident.mapSpans]
  | ⟨_, key, some v⟩ :: ps, h => by
    simp [dataProperties, properties?, v.stmt?_datum h.2.1, properties?_dataProperties ps h.2.2,
      Stmt.expr?, mapSpansProperties, Ident.mapSpans]

end

/-! ### The words of a tree are words -/

open Datum (isWord Plain AllPlain)

theorem isWord_of_isName {x : String} (h : isName x = true) : isWord x = true := by
  unfold isName at h
  rw [Bool.and_eq_true, Bool.and_eq_true, Bool.not_eq_true', List.isEmpty_eq_false_iff,
    List.all_eq_true] at h
  exact Datum.isWord_of_all isLetter (by decide) h.1.1 h.1.2

theorem isWord_toString (n : Nat) : isWord (toString n) = true := by
  refine Datum.isWord_of_all isDigit (by decide) ?_ ?_
  all_goals rw [Nat.toString_eq_ofList_toDigits, String.toList_ofList]
  · exact Nat.toDigits_ne_nil
  · exact fun c hc => Nat.isDigit_of_mem_toDigits (by decide) (by decide) hc

theorem UnaryOp.isWord_symbol (op : UnaryOp) : isWord op.symbol = true := by cases op <;> decide

theorem BinaryOp.isWord_symbol (op : BinaryOp) : isWord op.symbol = true := by cases op <;> decide

theorem plain_paramsDatum {xs : List Ident} (h : ∀ x ∈ xs, x.WellNamed) :
    (paramsDatum xs).Plain := by
  show AllPlain (xs.map (.word ·.name))
  induction xs with
  | nil => trivial
  | cons x xs ih =>
    obtain ⟨hx, hxs⟩ := List.forall_mem_cons.1 h
    exact ⟨isWord_of_isName hx, ih hxs⟩

mutual

theorem Expr.plain_datum : ∀ e : Expr ι, e.WellNamed → e.datum.Plain
  | .ident .., h => isWord_of_isName h
  | .str .., _ => trivial
  | .int _ n, _ => isWord_toString n
  | .bool _ v, _ => by cases v <;> rfl
  | .unary _ op e, h => ⟨op.isWord_symbol, e.plain_datum h, trivial⟩
  | .binary _ op l r, h => ⟨op.isWord_symbol, l.plain_datum h.1, r.plain_datum h.2, trivial⟩
  | .cond _ c b none, h => ⟨rfl, c.plain_datum h.1, b.plain_datum h.2, trivial⟩
  | .cond _ c b (some a), h =>
    ⟨rfl, c.plain_datum h.1, b.plain_datum h.2.1, a.plain_datum h.2.2, trivial⟩
  | .function _ fn, h => fn.plain_datum h
  | .call _ c es, h => ⟨rfl, c.plain_datum h.1, allPlain_dataExprs es h.2⟩
  | .index _ c k, h => ⟨rfl, c.plain_datum h.1, k.plain_datum h.2, trivial⟩
  | .assign _ t v, h => ⟨rfl, t.plain_datum h.1, v.plain_datum h.2, trivial⟩
  | .object _ _ ps, h => ⟨rfl, allPlain_dataProperties ps h⟩
  | .array _ _ es, h => ⟨rfl, allPlain_dataExprs es h⟩

theorem Stmt.plain_datum : ∀ s : Stmt ι, s.WellNamed → s.datum.Plain
  | .declare _ isConst x none, h => ⟨by cases isConst <;> rfl, isWord_of_isName h, trivial⟩
  | .declare _ isConst x (some v), h =>
    ⟨by cases isConst <;> rfl, isWord_of_isName h.1, v.plain_datum h.2, trivial⟩
  | .function _ x fn, h => fn.plain_declarationDatum h.1 h.2
  | .ret _ v, h => ⟨rfl, v.plain_datum h, trivial⟩
  | .expr _ v, h => v.plain_datum h

theorem Block.plain_datum : ∀ b : Block ι, b.WellNamed → b.datum.Plain
  | ⟨_, ss⟩, h => ⟨rfl, allPlain_dataStmts ss h⟩

theorem Function.plain_datum : ∀ fn : Function ι, fn.WellNamed → fn.datum.Plain
  | ⟨_, _, none, _, b⟩, h => ⟨rfl, plain_paramsDatum h.2.1, b.plain_datum h.2.2, trivial⟩
  | ⟨_, _, some x, _, b⟩, h =>
    ⟨rfl, isWord_of_isName (h.1 x rfl), plain_paramsDatum h.2.1, b.plain_datum h.2.2, trivial⟩

theorem Function.plain_declarationDatum {name : Ident} : ∀ fn : Function ι,
    fn.name.map (·.name) = some name.name → fn.WellNamed → (fn.declarationDatum name).Plain
  | ⟨_, _, x, xs, b⟩, hname, h => by
    obtain ⟨y, rfl, hy⟩ := Option.map_eq_some_iff.1 hname
    have hword : isWord name.name = true := by
      rw [← hy]
      exact isWord_of_isName (h.1 y rfl)
    exact ⟨rfl, hword, plain_paramsDatum h.2.1, b.plain_datum h.2.2, trivial⟩

theorem allPlain_dataExprs : ∀ es : List (Expr ι), WellNamedExprs es → AllPlain (dataExprs es)
  | [], _ => trivial
  | e :: es, h => ⟨e.plain_datum h.1, allPlain_dataExprs es h.2⟩

theorem allPlain_dataStmts : ∀ ss : List (Stmt ι), WellNamedStmts ss → AllPlain (dataStmts ss)
  | [], _ => trivial
  | s :: ss, h => ⟨s.plain_datum h.1, allPlain_dataStmts ss h.2⟩

theorem allPlain_dataProperties : ∀ ps : List (Property (Option (Expr ι))),
    WellNamedProperties ps → AllPlain (dataProperties ps)
  | [], _ => trivial
  | ⟨_, _, none⟩ :: ps, h => ⟨⟨isWord_of_isName h.1, trivial⟩, allPlain_dataProperties ps h.2⟩
  | ⟨_, _, some v⟩ :: ps, h =>
    ⟨⟨isWord_of_isName h.1, v.plain_datum h.2.1, trivial⟩, allPlain_dataProperties ps h.2.2⟩

end

/-- Of programs in which names are names, the S-expression shows all but the spans. -/
theorem Program.eraseSpans_eq_of_sexpr_eq {p q : Program Unit} (hp : WellNamedStmts p.statements)
    (hq : WellNamedStmts q.statements) (h : p.sexpr = q.sexpr) : p.eraseSpans = q.eraseSpans := by
  have hchars := congrArg String.toList h
  rw [p.toList_sexpr, q.toList_sexpr, ← List.append_nil (charsOf _ _),
    ← List.append_nil (charsOf _ (dataStmts q.statements))] at hchars
  have hdata := Datum.charsOf_inj (.inr rfl) (allPlain_dataStmts _ hp) (allPlain_dataStmts _ hq)
    Datum.closes_nil Datum.closes_nil hchars
  have hread := congrArg stmts? hdata.1
  rw [stmts?_dataStmts _ hp, stmts?_dataStmts _ hq, Option.some.injEq] at hread
  unfold Program.eraseSpans Program.mapSpans
  rw [hread]

end Primer
