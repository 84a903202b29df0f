/-
  Primer/Proofs/Parser/Render.lean
  ================================
  **Writing programs down.**

  A tree is written as words with one space between them.  Every statement ends in `;`, an
  alternative stands between braces, a function with a name that is used as an expression
  stands in parentheses, and so does every operand whose level is too low for its place: on
  the left of an operator one below the operator's level, on its right one that is not above
  it, behind an operator one below such operators, before a call or an index one below calls,
  and on the left of an assignment another assignment.

  `isWritable` says which trees have a text: those whose names are names, whose integers are
  not too large, whose strings leave one of the quotes out, whose constants have values and
  whose function statements go by the name of their function.  `nesting` counts how deep the
  statements, expressions and parentheses of the text nest in one another; the left operand of
  an operator is not nested, as the operator goes on behind it.
-/
import Primer.Proofs.Parser.Grammar
import Primer.Proofs.Token.Words

namespace Primer

variable {ι : Type}

/-- The level of an expression: that of its outermost operator. -/
def Expr.level : Expr ι → Precedence
  | .unary .. => .unary
  | .binary _ op .. => op.level
  | .call .. => .call
  | .assign .. => .assign
  | _ => .index

/-! ### Words -/

/-- The words in parentheses, if these are needed. -/
def parens (needed : Bool) (ws : List Word) : List Word :=
  if needed then .symbol .lparen :: (ws ++ [.symbol .rparen]) else ws

/-- Commas between the parts of a list. -/
def commas : List (List Word) → List Word
  | [] => []
  | ws :: wss => ws ++ wss.flatMap (.symbol .comma :: ·)

mutual

def Expr.words : Expr ι → List Word
  | .ident _ name => [.name name]
  | .str _ text => [.quoted text]
  | .int _ value => [.number value]
  | .bool _ value => [.symbol (if value then .trueKw else .falseKw)]
  | .unary _ op operand => .symbol op.kind :: parens (operand.level < .unary) operand.words
  | .binary _ op left right =>
    parens (left.level < op.level) left.words ++
      .symbol op.kind :: parens (right.level ≤ op.level) right.words
  | .cond _ condition consequence none =>
    .symbol .ifKw :: .symbol .lparen :: (condition.words ++ .symbol .rparen :: consequence.words)
  | .cond _ condition consequence (some alternative) =>
    .symbol .ifKw :: .symbol .lparen :: (condition.words ++ .symbol .rparen ::
      (consequence.words ++ .symbol .elseKw :: alternative.words))
  | .function _ fn => parens fn.name.isSome fn.words
  | .call _ callee args =>
    parens (callee.level < .call) callee.words ++
      .symbol .lparen :: (commas (wordsExprs args) ++ [.symbol .rparen])
  | .index _ container key =>
    parens (container.level < .call) container.words ++
      .symbol .lbracket :: (key.words ++ [.symbol .rbracket])
  | .assign _ target value =>
    parens (target.level ≤ .assign) target.words ++ .symbol .assign :: value.words
  | .object _ _ properties =>
    .symbol .lbrace :: (commas (wordsProperties properties) ++ [.symbol .rbrace])
  | .array _ _ elements =>
    .symbol .lbracket :: (commas (wordsExprs elements) ++ [.symbol .rbracket])

def Stmt.words : Stmt ι → List Word
  | .declare _ isConst name none =>
    [.symbol (if isConst then .constKw else .letKw), .name name.name, .symbol .semicolon]
  | .declare _ isConst name (some value) =>
    .symbol (if isConst then .constKw else .letKw) :: .name name.name :: .symbol .assign ::
      (value.words ++ [.symbol .semicolon])
  | .function _ _ fn => fn.words ++ [.symbol .semicolon]
  | .ret _ value => .symbol .returnKw :: (value.words ++ [.symbol .semicolon])
  | .expr _ value => value.words ++ [.symbol .semicolon]

def Block.words : Block ι → List Word
  | ⟨_, statements⟩ => .symbol .lbrace :: ((wordsStmts statements).flatten ++ [.symbol .rbrace])

def Function.words : Function ι → List Word
  | ⟨_, _, name, params, body⟩ =>
    .symbol .functionKw :: (name.toList.map (.name ·.name) ++ .symbol .lparen ::
      (commas (params.map fun x => [.name x.name]) ++ .symbol .rparen :: body.words))

def wordsExprs : List (Expr ι) → List (List Word)
  | [] => []
  | e :: es => e.words :: wordsExprs es

def wordsStmts : List (Stmt ι) → List (List Word)
  | [] => []
  | s :: ss => s.words :: wordsStmts ss

def wordsProperties : List (Property (Option (Expr ι))) → List (List Word)
  | [] => []
  | ⟨_, key, none⟩ :: ps => [.name key.name] :: wordsProperties ps
  | ⟨_, key, some value⟩ :: ps =>
    (.name key.name :: .symbol .colon :: value.words) :: wordsProperties ps

end

/-- The text of a program. -/
def Program.render (p : Program ι) : String :=
  String.ofList (Word.spaced (wordsStmts p.statements).flatten)

/-! ### Trees that have a text -/

mutual

def Expr.isWritable : Expr ι → Bool
  | .ident _ name => isName name
  | .str _ text => !('"' ∈ text.toList && '\'' ∈ text.toList)
  | .int _ value => value ≤ Parser.maxInteger
  | .bool .. => true
  | .unary _ _ operand => operand.isWritable
  | .binary _ _ left right => left.isWritable && right.isWritable
  | .cond _ condition consequence none => condition.isWritable && consequence.isWritable
  | .cond _ condition consequence (some alternative) =>
    condition.isWritable && consequence.isWritable && alternative.isWritable
  | .function _ fn => fn.isWritable
  | .call _ callee args => callee.isWritable && areWritableExprs args
  | .index _ container key => container.isWritable && key.isWritable
  | .assign _ target value => target.isWritable && value.isWritable
  | .object _ _ properties => areWritableProperties properties
  | .array _ _ elements => areWritableExprs elements

def Stmt.isWritable : Stmt ι → Bool
  | .declare _ isConst name none => isName name.name && !isConst
  | .declare _ _ name (some value) => isName name.name && value.isWritable
  | .function _ name fn => fn.name.map (·.name) == some name.name && fn.isWritable
  | .ret _ value => value.isWritable
  | .expr _ value => value.isWritable

def Block.isWritable : Block ι → Bool
  | ⟨_, statements⟩ => areWritableStmts statements

def Function.isWritable : Function ι → Bool
  | ⟨_, _, name, params, body⟩ =>
    name.all (isName ·.name) && params.all (isName ·.name) && body.isWritable

def areWritableExprs : List (Expr ι) → Bool
  | [] => true
  | e :: es => e.isWritable && areWritableExprs es

def areWritableStmts : List (Stmt ι) → Bool
  | [] => true
  | s :: ss => s.isWritable && areWritableStmts ss

def areWritableProperties : List (Property (Option (Expr ι))) → Bool
  | [] => true
  | ⟨_, key, none⟩ :: ps => isName key.name && areWritableProperties ps
  | ⟨_, key, some value⟩ :: ps =>
    isName key.name && value.isWritable && areWritableProperties ps

end

def Program.isWritable (p : Program ι) : Bool := areWritableStmts p.statements

/-! ### Nesting -/

/-- Parentheses nest what stands between them. -/
def within (parenthesized : Bool) (n : Nat) : Nat := if parenthesized then n + 1 else n

mutual

def Expr.nesting : Expr ι → Nat
  | .ident .. | .str .. | .int .. | .bool .. => 1
  | .unary _ _ operand => within (operand.level < .unary) operand.nesting + 1
  | .binary _ op left right =>
    max (within (left.level < op.level) left.nesting)
      (within (right.level ≤ op.level) right.nesting + 1)
  | .cond _ condition consequence none => max condition.nesting consequence.nesting + 1
  | .cond _ condition consequence (some alternative) =>
    max condition.nesting (max consequence.nesting alternative.nesting) + 1
  | .function _ fn => within fn.name.isSome (fn.nesting + 1)
  | .call _ callee args =>
    max (within (callee.level < .call) callee.nesting) (nestingExprs args + 1)
  | .index _ container key =>
    max (within (container.level < .call) container.nesting) (key.nesting + 1)
  | .assign _ target value =>
    max (within (target.level ≤ .assign) target.nesting) (value.nesting + 1)
  | .object _ _ properties => nestingProperties properties + 1
  | .array _ _ elements => nestingExprs elements + 1

def Stmt.nesting : Stmt ι → Nat
  | .declare _ _ _ none => 1
  | .declare _ _ _ (some value) => value.nesting + 1
  | .function _ _ fn => fn.nesting + 1
  | .ret _ value => value.nesting + 1
  | .expr _ value => value.nesting + 1

def Block.nesting : Block ι → Nat
  | ⟨_, statements⟩ => nestingStmts statements

def Function.nesting : Function ι → Nat
  | ⟨_, _, _, _, body⟩ => body.nesting

def nestingExprs : List (Expr ι) → Nat
  | [] => 0
  | e :: es => max e.nesting (nestingExprs es)

def nestingStmts : List (Stmt ι) → Nat
  | [] => 0
  | s :: ss => max s.nesting (nestingStmts ss)

def nestingProperties : List (Property (Option (Expr ι))) → Nat
  | [] => 0
  | ⟨_, _, none⟩ :: ps => nestingProperties ps
  | ⟨_, _, some value⟩ :: ps => max value.nesting (nestingProperties ps)

end

/-- How deep the statements, expressions and parentheses of the program's text nest. -/
def Program.nesting (p : Program ι) : Nat := nestingStmts p.statements

/-! ### Every word of a text is read as itself -/

/-- All the words are read as themselves. -/
def AllLex (ws : List Word) : Prop := ∀ w ∈ ws, w.Lexes

variable {w : Word} {ws vs : List Word}

@[simp] theorem allLex_nil : AllLex [] := nofun

@[simp] theorem allLex_cons : AllLex (w :: ws) ↔ w.Lexes ∧ AllLex ws := List.forall_mem_cons

@[simp] theorem allLex_append : AllLex (ws ++ vs) ↔ AllLex ws ∧ AllLex vs :=
  List.forall_mem_append

@[simp] theorem allLex_parens {b : Bool} : AllLex (parens b ws) ↔ AllLex ws := by
  cases b with
  | false => exact Iff.rfl
  | true => simp (disch := decide) [parens, Word.lexes_symbol]

theorem allLex_flatten {wss : List (List Word)} (h : ∀ ws ∈ wss, AllLex ws) :
    AllLex wss.flatten := by
  intro w hw
  obtain ⟨ws, hws, hw⟩ := List.mem_flatten.1 hw
  exact h ws hws w hw

theorem allLex_commas {wss : List (List Word)} (h : ∀ ws ∈ wss, AllLex ws) :
    AllLex (commas wss) := by
  cases wss with
  | nil => exact allLex_nil
  | cons ws wss =>
    refine allLex_append.2 ⟨h ws (List.mem_cons_self ..), allLex_flatten ?_⟩
    intro vs hvs
    obtain ⟨us, hus, rfl⟩ := List.mem_map.1 hvs
    exact allLex_cons.2 ⟨Word.lexes_symbol (by decide), h us (List.mem_cons_of_mem _ hus)⟩

theorem lexes_op (op : BinaryOp) : (Word.symbol op.kind).Lexes :=
  Word.lexes_symbol (by cases op <;> decide)

theorem lexes_unaryOp (op : UnaryOp) : (Word.symbol op.kind).Lexes :=
  Word.lexes_symbol (by cases op <;> decide)

mutual

theorem allLex_expr : ∀ e : Expr ι, e.isWritable → AllLex e.words
  | .ident _ name, h => by simpa [Expr.words] using Word.lexes_name h
  | .str _ text, h => by
    simp only [Expr.isWritable, Bool.not_eq_true', Bool.and_eq_false_iff,
      decide_eq_false_iff_not] at h
    simpa [Expr.words] using Word.lexes_quoted (not_and_or.2 h)
  | .int _ value, _ => by simpa [Expr.words] using Word.lexes_number value
  | .bool _ value, _ => by
    cases value <;> simp (disch := decide) [Expr.words, Word.lexes_symbol]
  | .unary _ op operand, h => by
    simp only [Expr.words, allLex_cons, allLex_parens]
    exact ⟨lexes_unaryOp op, allLex_expr operand h⟩
  | .binary _ op left right, h => by
    simp only [Expr.isWritable, Bool.and_eq_true] at h
    simp only [Expr.words, allLex_append, allLex_cons, allLex_parens]
    exact ⟨allLex_expr left h.1, lexes_op op, allLex_expr right h.2⟩
  | .cond _ condition consequence none, h => by
    simp only [Expr.isWritable, Bool.and_eq_true] at h
    simp (disch := decide) [Expr.words, Word.lexes_symbol, allLex_expr condition h.1,
      allLex_block consequence h.2]
  | .cond _ condition consequence (some alternative), h => by
    simp only [Expr.isWritable, Bool.and_eq_true] at h
    simp (disch := decide) [Expr.words, Word.lexes_symbol, allLex_expr condition h.1.1,
      allLex_block consequence h.1.2, allLex_block alternative h.2]
  | .function _ fn, h => by
    simp only [Expr.words, allLex_parens]
    exact allLex_function fn h
  | .call _ callee args, h => by
    simp only [Expr.isWritable, Bool.and_eq_true] at h
    simp (disch := decide) [Expr.words, Word.lexes_symbol, allLex_expr callee h.1,
      allLex_commas (allLex_exprs args h.2)]
  | .index _ container key, h => by
    simp only [Expr.isWritable, Bool.and_eq_true] at h
    simp (disch := decide) [Expr.words, Word.lexes_symbol, allLex_expr container h.1,
      allLex_expr key h.2]
  | .assign _ target value, h => by
    simp only [Expr.isWritable, Bool.and_eq_true] at h
    simp (disch := decide) [Expr.words, Word.lexes_symbol, allLex_expr target h.1,
      allLex_expr value h.2]
  | .object _ _ properties, h => by
    simp (disch := decide) [Expr.words, Word.lexes_symbol,
      allLex_commas (allLex_properties properties h)]
  | .array _ _ elements, h => by
    simp (disch := decide) [Expr.words, Word.lexes_symbol,
      allLex_commas (allLex_exprs elements h)]

theorem allLex_stmt : ∀ x : Stmt ι, x.isWritable → AllLex x.words
  | .declare _ isConst name none, h => by
    simp only [Stmt.isWritable, Bool.and_eq_true] at h
    cases isConst <;>
      simp (disch := decide) [Stmt.words, Word.lexes_symbol, Word.lexes_name h.1]
  | .declare _ isConst name (some value), h => by
    simp only [Stmt.isWritable, Bool.and_eq_true] at h
    cases isConst <;>
      simp (disch := decide) [Stmt.words, Word.lexes_symbol, Word.lexes_name h.1,
        allLex_expr value h.2]
  | .function _ _ fn, h => by
    simp only [Stmt.isWritable, Bool.and_eq_true] at h
    simp (disch := decide) [Stmt.words, Word.lexes_symbol, allLex_function fn h.2]
  | .ret _ value, h => by
    simp (disch := decide) [Stmt.words, Word.lexes_symbol, allLex_expr value h]
  | .expr _ value, h => by
    simp (disch := decide) [Stmt.words, Word.lexes_symbol, allLex_expr value h]

theorem allLex_block : ∀ b : Block ι, b.isWritable → AllLex b.words
  | ⟨_, statements⟩, h => by
    simp (disch := decide) [Block.words, Word.lexes_symbol,
      allLex_flatten (allLex_stmts statements h)]

theorem allLex_function : ∀ fn : Function ι, fn.isWritable → AllLex fn.words
  | ⟨_, _, name, params, body⟩, h => by
    simp only [Function.isWritable, Bool.and_eq_true, List.all_eq_true] at h
    obtain ⟨⟨hname, hparams⟩, hbody⟩ := h
    have hn : AllLex (name.toList.map (.name ·.name)) := by
      cases name with
      | none => exact allLex_nil
      | some x => exact allLex_cons.2 ⟨Word.lexes_name hname, allLex_nil⟩
    have hps : AllLex (commas (params.map fun x => [.name x.name])) := by
      refine allLex_commas fun ws hws => ?_
      obtain ⟨x, hx, rfl⟩ := List.mem_map.1 hws
      exact allLex_cons.2 ⟨Word.lexes_name (hparams x hx), allLex_nil⟩
    simp (disch := decide) [Function.words, Word.lexes_symbol, hn, hps, allLex_block body hbody]

theorem allLex_exprs : ∀ es : List (Expr ι), areWritableExprs es → ∀ ws ∈ wordsExprs es, AllLex ws
  | [], _ => nofun
  | e :: es, h => by
    simp only [areWritableExprs, Bool.and_eq_true] at h
    exact List.forall_mem_cons.2 ⟨allLex_expr e h.1, allLex_exprs es h.2⟩

theorem allLex_stmts : ∀ xs : List (Stmt ι), areWritableStmts xs → ∀ ws ∈ wordsStmts xs, AllLex ws
  | [], _ => nofun
  | x :: xs, h => by
    simp only [areWritableStmts, Bool.and_eq_true] at h
    exact List.forall_mem_cons.2 ⟨allLex_stmt x h.1, allLex_stmts xs h.2⟩

theorem allLex_properties : ∀ ps : List (Property (Option (Expr ι))), areWritableProperties ps →
    ∀ ws ∈ wordsProperties ps, AllLex ws
  | [], _ => nofun
  | ⟨_, key, none⟩ :: ps, h => by
    simp only [areWritableProperties, Bool.and_eq_true] at h
    refine List.forall_mem_cons.2 ⟨?_, allLex_properties ps h.2⟩
    exact allLex_cons.2 ⟨Word.lexes_name h.1, allLex_nil⟩
  | ⟨_, key, some value⟩ :: ps, h => by
    simp only [areWritableProperties, Bool.and_eq_true] at h
    refine List.forall_mem_cons.2 ⟨?_, allLex_properties ps h.2⟩
    simp (disch := decide) [Word.lexes_symbol, Word.lexes_name h.1.1, allLex_expr value h.1.2]

end

end Primer
