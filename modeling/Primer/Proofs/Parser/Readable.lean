/-
  Primer/Proofs/Parser/Readable.lean
  ==================================
  **Following the words of an expression through the rules.**

  A reading that has the words of a construct ahead of it comes behind them with the construct
  as its result, spans aside.  For an expression more is needed, because it may be the left
  operand of what goes on behind it: reading its words leads into the loop over operators with
  the expression on the left (`Opens`), whatever the loop does then.  What the next token may
  be is said by the same two relations between levels that say which trees are read.

  `Readable` collects what is known of such words, and each way to build an expression from
  others is a lemma about it.
-/
import Primer.Proofs.Parser.Render
import Primer.Proofs.Parser.Soundness

namespace Primer

variable {ι : Type}

abbrev Expr.eraseSpans (e : Expr ι) : Expr ι := e.mapSpans fun _ => .zero

abbrev Stmt.eraseSpans (x : Stmt ι) : Stmt ι := x.mapSpans fun _ => .zero

abbrev Block.eraseSpans (b : Block ι) : Block ι := b.mapSpans fun _ => .zero

abbrev Function.eraseSpans (fn : Function ι) : Function ι := fn.mapSpans fun _ => .zero

abbrev Ident.eraseSpans (x : Ident) : Ident := x.mapSpans fun _ => .zero

theorem Expr.eraseSpans_withSpan (s : Span) (e : Expr ι) :
    (e.withSpan s).eraseSpans = e.eraseSpans := by
  cases e with
  | cond _ c b a => cases a <;> rfl
  | _ => rfl

theorem Expr.eraseSpans_cond (s : Span) (c : Expr ι) (b : Block ι) (a : Option (Block ι)) :
    (Expr.cond s c b a).eraseSpans =
      .cond .zero c.eraseSpans b.eraseSpans (a.map Block.eraseSpans) := by
  cases a <;> rfl

abbrev Property.eraseSpans (p : Property (Option (Expr ι))) : Property (Option (Expr ι)) :=
  ⟨.zero, p.key.eraseSpans, p.value.map (·.eraseSpans)⟩

theorem mapSpansProperties_zero (ps : List (Property (Option (Expr ι)))) :
    mapSpansProperties (fun _ => .zero) ps = ps.map (·.eraseSpans) := by
  induction ps with
  | nil => rfl
  | cons p ps ih =>
    obtain ⟨_, _, _ | _⟩ := p <;> rw [mapSpansProperties, ih] <;> rfl

/-! ### Levels -/

namespace Precedence

variable {floor p q : Precedence}

theorem not_lt_of_le (h : q ≤ p) : ¬p < q := Nat.not_lt.2 h

theorem follows_of_le (hq : q ≤ floor) (ha : floor.Admits p) : p.Follows q := by
  revert hq ha
  cases floor <;> cases q <;> cases p <;> decide

theorem admits_of_level_le {op : BinaryOp} (ha : floor.Admits op.level) (h : op.level ≤ p) :
    floor.Admits p := by
  revert ha h
  cases floor <;> cases op <;> cases p <;> decide

theorem lt_level_of_admits {op : BinaryOp} (ha : floor.Admits op.level) : floor < op.level := by
  revert ha
  cases floor <;> cases op <;> decide

theorem unary_admits (h : unary ≤ p) : unary.Admits p := by
  revert h
  cases p <;> decide

theorem le_unary_of_follows (h : unary.Follows q) : q ≤ unary := by
  revert h
  cases q <;> decide

theorem follows_op {op : BinaryOp} (h : op.level ≤ p) : p.Follows op.level := by
  revert h
  cases op <;> cases p <;> decide

theorem le_level_of_follows {op : BinaryOp} (h : op.level.Follows q) : q ≤ op.level := by
  revert h
  cases op <;> cases q <;> decide

theorem follows_assign_of_lt (h : assign < p) : p.Follows assign := by
  revert h
  cases p <;> decide

theorem admits_of_assign_lt (ha : floor.Admits assign) (h : assign < p) :
    floor.Admits p ∧ floor < assign := by
  revert ha h
  cases floor <;> cases p <;> decide

theorem eq_lowest_of_follows (h : assign.Follows q) : q = lowest := by
  revert h
  cases q <;> decide

theorem admits_of_call_le (hf : floor ≤ unary) (h : call ≤ p) : floor.Admits p := by
  revert hf h
  cases floor <;> cases p <;> decide

theorem lt_index_of_le (hf : floor ≤ unary) : floor < index := by
  revert hf
  cases floor <;> decide

theorem lt_call_of_le (hf : floor ≤ unary) : floor < call := by
  revert hf
  cases floor <;> decide

/-- In parentheses where it would be too low, an operand is high enough. -/
theorem le_parens (p q : Precedence) : q ≤ if decide (p < q) then index else p := by
  cases p <;> cases q <;> decide

theorem lt_parens (p : Precedence) {q : Precedence} (h : q < index) :
    q < if decide (p ≤ q) then index else p := by
  revert h
  cases p <;> cases q <;> decide

end Precedence

namespace Parser

variable {α : Type} {s t u : State} {w : Word} {ws vs : List Word} {n d : Nat} {p q : Precedence}
variable {e l r : Expr Unit} {inner : Rules}

/-! ### Passing over words -/

namespace State

/-- The next token is the word `w`. -/
structure Meets (s : State) (w : Word) : Prop where
  ahead : s.ahead ≠ []
  names : w.Names s.peek

/-- The words `ws` come next, and behind the last of them the state is `t`. -/
def Passes (s : State) : List Word → State → Prop
  | [], t => s = t
  | w :: ws, t => s.Meets w ∧ s.advance.Passes ws t

theorem passes_append : s.Passes (ws ++ vs) u ↔ ∃ t, s.Passes ws t ∧ t.Passes vs u := by
  induction ws generalizing s with
  | nil => exact ⟨fun h => ⟨s, rfl, h⟩, fun ⟨_, h, h'⟩ => h ▸ h'⟩
  | cons w ws ih =>
    constructor
    · rintro ⟨hw, h⟩
      obtain ⟨t, hws, hvs⟩ := ih.1 h
      exact ⟨t, ⟨hw, hws⟩, hvs⟩
    · rintro ⟨t, ⟨hw, hws⟩, hvs⟩
      exact ⟨hw, ih.2 ⟨t, hws, hvs⟩⟩

theorem length_le_advance (s : State) : s.ahead.length ≤ s.advance.ahead.length + 1 := by
  unfold advance
  cases ha : s.ahead with
  | nil => exact Nat.zero_le _
  | cons b ts => exact Nat.le_refl _

namespace Meets

theorem kind (h : s.Meets w) : s.peek.kind = w.kind := h.names.kind

theorem symbol {k : TokenKind} (h : s.Meets (.symbol k)) : s.peek.kind = k := h.kind

theorem current (h : s.Meets w) : s.advance.current = s.peek := by
  unfold advance peek
  cases ha : s.ahead with
  | nil => exact absurd ha h.ahead
  | cons b ts => rfl

theorem current_kind (h : s.Meets w) : s.advance.current.kind = w.kind := by
  rw [h.current, h.kind]

theorem current_literal (h : s.Meets w) : s.advance.current.literal = w.literal := by
  rw [h.current, h.names.literal]

theorem length (h : s.Meets w) : s.ahead.length = s.advance.ahead.length + 1 := by
  unfold advance
  cases ha : s.ahead with
  | nil => exact absurd ha h.ahead
  | cons b ts => rfl

theorem eraseSpans_name {x : Ident} (h : s.Meets (.name x.name)) :
    s.advance.name.eraseSpans = x.eraseSpans := by
  show Ident.mk .zero s.advance.current.literal = Ident.mk .zero x.name
  rw [h.current_literal]
  rfl

end Meets

theorem Passes.length (h : s.Passes ws t) : s.ahead.length = ws.length + t.ahead.length := by
  induction ws generalizing s with
  | nil =>
    cases h
    exact (Nat.zero_add _).symm
  | cons w ws ih =>
    rw [h.1.length, ih h.2, List.length_cons]
    omega

end State

/-- From the state `s` the rule leads to `t` and yields `a`, spans aside. -/
def Yields (r : Rule α) (erase : α → α) (s : State) (a : α) (t : State) : Prop :=
  ∃ b, r s = .ok b t ∧ erase b = erase a

/-! ### Expressions that words open -/

/-- Behind the words `ws` the reading stands in the loop over operators with `e`, of level `p`,
on the left. -/
def Opens (n : Nat) (ws : List Word) (p : Precedence) (e : Expr Unit) : Prop :=
  ∀ (floor : Precedence) (s t : State), floor ≤ .unary → floor.Admits p → s.Passes ws t →
    p.Follows (.of t.peek.kind) → t.peek.kind ≠ .elseKw →
    ∃ e' m, e'.eraseSpans = e.eraseSpans ∧ t.ahead.length ≤ m ∧
      expression (level n) floor s.advance = operations (level n) floor m e' t

/-- The loop ends at a token that does not bind tighter than what stands before. -/
theorem operations_stop {floor : Precedence} (h : .of s.peek.kind ≤ floor) (m : Nat)
    (e : Expr Unit) : operations inner floor m e s = .ok e s := by
  cases m with
  | zero => rfl
  | succ m => 
    rw [operations_ok, if_neg (Precedence.not_lt_of_le h)]
    exact ⟨rfl, rfl⟩

theorem Opens.yields {floor : Precedence} (h : Opens n ws p e) (hf : floor ≤ .unary)
    (ha : floor.Admits p) (hp : s.Passes ws t) (hnext : .of t.peek.kind ≤ floor)
    (helse : t.peek.kind ≠ .elseKw) :
    Yields ((level (n + 1)).expression floor) Expr.eraseSpans s.advance e t := by
  obtain ⟨e', m, he, -, hrun⟩ := h floor s t hf ha hp (Precedence.follows_of_le hnext ha) helse
  refine ⟨e', ?_, he⟩
  show expression (level n) floor s.advance = _
  rw [hrun]
  exact operations_stop hnext m e'

/-- One round of the loop. -/
theorem operations_step {floor : Precedence} {m : Nat} {x : Expr Unit}
    (h : floor < .of s.peek.kind) (ho : operation inner e s.advance = .ok x t) :
    operations inner floor (m + 1) e s = operations inner floor m x t := by
  show (if floor < .of s.peek.kind then
      (advance >>= fun _ => operation inner e >>= operations inner floor m)
    else pure e : Rule _) s = _
  rw [if_pos h, advance_bind]
  show EStateM.bind (operation inner e) _ s.advance = _
  unfold EStateM.bind
  rw [ho]

theorem expression_of_operand {floor : Precedence} {x : Expr Unit}
    (h : operand inner s = .ok x t) :
    expression inner floor s = operations inner floor t.ahead.length x t := by
  show EStateM.bind (operand inner) _ s = _
  unfold EStateM.bind
  rw [h]
  rfl

/-- May an expression start with a token of this kind? -/
def startsExpression : TokenKind → Bool
  | .ident | .int | .string | .trueKw | .falseKw | .bang | .minus | .lparen | .lbrace | .lbracket
  | .ifKw | .functionKw => true
  | _ => false

/-- The words start as an expression does, and not with a function and its name, as a function
statement does. -/
def Starts : List Word → Prop
  | [] => False
  | [w] => startsExpression w.kind ∧ w.kind ≠ .functionKw
  | w :: v :: _ => startsExpression w.kind ∧ (w.kind = .functionKw → v.kind ≠ .ident)

namespace Starts

theorem append (h : Starts ws) (vs : List Word) : Starts (ws ++ vs) := by
  match ws, vs with
  | [_], [] => exact h
  | [_], _ :: _ => exact ⟨h.1, fun hk => absurd hk h.2⟩
  | _ :: _ :: _, _ => exact h

theorem cons (h : startsExpression w.kind ∧ w.kind ≠ .functionKw) (ws : List Word) :
    Starts (w :: ws) := by
  cases ws with
  | nil => exact h
  | cons v ws => exact ⟨h.1, fun hk => absurd hk h.2⟩

theorem peek (h : Starts ws) (hp : s.Passes ws t) : startsExpression s.peek.kind := by
  match ws with
  | [_] => rw [hp.1.kind]; exact h.1
  | _ :: _ :: _ => rw [hp.1.kind]; exact h.1

theorem peek_ne {k : TokenKind} (h : Starts ws) (hp : s.Passes ws t)
    (hk : startsExpression k = false) : s.peek.kind ≠ k := by
  rintro rfl
  rw [h.peek hp] at hk
  exact absurd hk.symm Bool.false_ne_true

theorem anonymous (h : Starts ws) (hp : s.Passes ws t)
    (hk : s.advance.current.kind = .functionKw) : s.advance.peek.kind ≠ .ident := by
  match ws with
  | [_] =>
    rw [hp.1.current_kind] at hk
    exact absurd hk h.2
  | _ :: _ :: _ =>
    rw [hp.1.current_kind] at hk
    rw [hp.2.1.kind]
    exact h.2 hk

end Starts

/-- The words are read as the expression `e` of level `p` where `d` levels may be nested. -/
structure Legible (ws : List Word) (p : Precedence) (d : Nat) (e : Expr Unit) : Prop where
  tight : .lowest < p
  deep : 0 < d
  opens : ∀ n, d ≤ n + 1 → Opens n ws p e

namespace Legible

theorem mono {d' : Nat} (h : Legible ws p d e) (hd : d ≤ d') : Legible ws p d' e where
  tight := h.tight
  deep := Nat.lt_of_lt_of_le h.deep hd
  opens n hn := h.opens n (Nat.le_trans hd hn)

theorem yields_at {floor : Precedence} (h : Legible ws p d e) (hd : d ≤ n)
    (hf : floor ≤ .unary) (ha : floor.Admits p) (hp : s.Passes ws t)
    (hnext : .of t.peek.kind ≤ floor) (helse : t.peek.kind ≠ .elseKw) :
    Yields ((level n).expression floor) Expr.eraseSpans s.advance e t := by
  have hpos := Nat.lt_of_lt_of_le h.deep hd
  obtain ⟨m, rfl⟩ := Nat.exists_eq_succ_of_ne_zero (Nat.pos_iff_ne_zero.1 hpos)
  exact Opens.yields (h.opens m hd) hf ha hp hnext helse

/-- Where any level is accepted, an expression ends before a token without a level. -/
theorem yields (h : Legible ws p d e) (hd : d ≤ n) (hp : s.Passes ws t)
    (hnext : Precedence.of t.peek.kind = .lowest) (helse : t.peek.kind ≠ .elseKw) :
    Yields ((level n).expression .lowest) Expr.eraseSpans s.advance e t :=
  h.yields_at hd (by decide) (.inl h.tight) hp (hnext ▸ Nat.le_refl _) helse

theorem of_operand (hd : 0 < d)
    (h : ∀ n, d ≤ n + 1 → ∀ s t : State, s.Passes ws t → t.peek.kind ≠ .elseKw →
      Yields (operand (level n)) Expr.eraseSpans s.advance e t) :
    Legible ws .index d e where
  tight := by decide
  deep := hd
  opens := by
    intro n hn floor s t _ _ hp _ helse
    obtain ⟨e', hrun, he⟩ := h n hn s t hp helse
    exact ⟨e', t.ahead.length, he, Nat.le_refl _, expression_of_operand hrun⟩

end Legible

/-- Such words that also start as an expression does. -/
structure Readable (ws : List Word) (p : Precedence) (d : Nat) (e : Expr Unit) : Prop
    extends Legible ws p d e where
  starts : Starts ws

namespace Readable

theorem mono {d' : Nat} (h : Readable ws p d e) (hd : d ≤ d') : Readable ws p d' e :=
  ⟨h.toLegible.mono hd, h.starts⟩

theorem of_operand (hs : Starts ws) (hd : 0 < d)
    (h : ∀ n, d ≤ n + 1 → ∀ s t : State, s.Passes ws t → t.peek.kind ≠ .elseKw →
      Yields (operand (level n)) Expr.eraseSpans s.advance e t) :
    Readable ws .index d e :=
  ⟨.of_operand hd h, hs⟩

/-! #### Names and literals -/

theorem ident (span : Span) (x : String) : Readable [.name x] .index 1 (.ident span x) := by
  refine of_operand ⟨rfl, nofun⟩ Nat.one_pos fun n _ s t hp _ => ?_
  obtain ⟨hw, rfl⟩ := hp
  refine ⟨.ident s.advance.current.span s.advance.current.literal, operand_ok.2 ?_, ?_⟩
  · rw [hw.current_kind]
    exact ⟨rfl, rfl⟩
  · rw [hw.current_literal]
    rfl

theorem int (span : Span) {k : Nat} (hk : k ≤ maxInteger) :
    Readable [.number k] .index 1 (.int span k) := by
  refine of_operand ⟨rfl, nofun⟩ Nat.one_pos fun n _ s t hp _ => ?_
  obtain ⟨hw, rfl⟩ := hp
  have hdigits : Nat.ofDigitChars 10 s.advance.current.literal.toList 0 = k := by
    rw [hw.current_literal, Word.ofDigitChars_number]
  refine ⟨.int s.advance.current.span k, operand_ok.2 ?_, rfl⟩
  rw [hw.current_kind]
  exact integer_ok.2 (by rw [hdigits]; exact ⟨hk, rfl, rfl⟩)

theorem str (span : Span) (x : String) : Readable [.quoted x] .index 1 (.str span x) := by
  refine of_operand ⟨rfl, nofun⟩ Nat.one_pos fun n _ s t hp _ => ?_
  obtain ⟨hw, rfl⟩ := hp
  refine ⟨.str s.advance.current.span s.advance.current.literal, operand_ok.2 ?_, ?_⟩
  · rw [hw.current_kind]
    refine string_ok.2 ⟨if_neg ?_, rfl⟩
    have hlen : s.advance.current.span.length = x.utf8ByteSize + 2 := by
      rw [hw.current, hw.names.length, Word.width_quoted]
    rw [hlen, hw.current_literal]
    show ¬x.utf8ByteSize + 2 = x.utf8ByteSize + 1
    omega
  · rw [hw.current_literal]
    rfl

theorem bool (span : Span) (b : Bool) :
    Readable [.symbol (if b then .trueKw else .falseKw)] .index 1 (.bool span b) := by
  refine of_operand (by cases b <;> exact ⟨rfl, nofun⟩) Nat.one_pos fun n _ s t hp _ => ?_
  obtain ⟨hw, rfl⟩ := hp
  refine ⟨.bool s.advance.current.span b, operand_ok.2 ?_, rfl⟩
  rw [hw.current_kind]
  cases b <;> exact ⟨rfl, rfl⟩

/-! #### Parentheses -/

theorem group (h : Legible ws p d e) :
    Readable (.symbol .lparen :: (ws ++ [.symbol .rparen])) .index (d + 1) e := by
  refine of_operand (.cons (by decide) _) (Nat.succ_pos d) fun n hn s t hp _ => ?_
  obtain ⟨hopen, hp⟩ := hp
  obtain ⟨v, hws, hclose, rfl⟩ := State.passes_append.1 hp
  obtain ⟨e', hrun, he⟩ := h.yields (Nat.le_of_succ_le_succ hn) hws (by rw [hclose.kind]; rfl)
    (by rw [hclose.kind]; decide)
  refine ⟨e'.withSpan (s.advance.spanTo v.advance), operand_ok.2 ?_, ?_⟩
  · rw [hopen.current_kind]
    exact group_ok.2 ⟨e', v, hrun, hclose.kind, rfl, rfl⟩
  · rw [Expr.eraseSpans_withSpan, he]

theorem parens (h : Readable ws p d e) (b : Bool) :
    Readable (parens b ws) (if b then .index else p) (within b d) e := by
  cases b with
  | false => exact h
  | true => exact group h.toLegible

/-! #### Operators -/

theorem unary (span : Span) (op : UnaryOp) (h : Readable ws p d e) (hp : .unary ≤ p) :
    Readable (.symbol op.kind :: ws) .unary (d + 1) (.unary span op e) where
  starts := .cons (by cases op <;> decide) _
  tight := by decide
  deep := Nat.succ_pos d
  opens := by
    intro n hn floor s t hf ha hpass hfollows helse
    obtain ⟨hop, hws⟩ := hpass
    obtain ⟨e', hrun, he⟩ := h.yields_at (Nat.le_of_succ_le_succ hn) (Nat.le_refl _)
      (Precedence.unary_admits hp) hws (Precedence.le_unary_of_follows hfollows) helse
    have hrun' : operand (level n) s.advance = .ok (.unary (s.advance.spanTo t) op e') t := by
      rw [operand_ok, hop.current_kind]
      cases op <;> exact unary_ok.2 ⟨e', hrun, rfl⟩
    refine ⟨_, _, ?_, Nat.le_refl _, expression_of_operand hrun'⟩
    show Expr.unary Span.zero op e'.eraseSpans = .unary Span.zero op e.eraseSpans
    rw [he]

/-- What every operator, call and index behind an expression has in common: the loop reaches
its token `w` with `l` on the left, and goes on behind it. -/
theorem behind {x : Expr Unit} (hl : Readable vs q d l) (hw : w.kind ≠ .elseKw)
    (hq : q.Follows (.of w.kind)) (htight : .lowest < p)
    (hadmits : ∀ floor : Precedence, floor ≤ .unary → floor.Admits p →
      floor.Admits q ∧ floor < .of w.kind)
    (h : ∀ n, d ≤ n + 1 → ∀ (s t : State) (l' : Expr Unit), s.Passes (w :: ws) t →
      p.Follows (.of t.peek.kind) → t.peek.kind ≠ .elseKw → l'.eraseSpans = l.eraseSpans →
      Yields (operation (level n) l') Expr.eraseSpans s.advance x t) :
    Readable (vs ++ w :: ws) p d x where
  starts := hl.starts.append _
  tight := htight
  deep := hl.deep
  opens := by
    intro n hn floor s t hf ha hpass hfollows helse
    obtain ⟨v, hvs, hws⟩ := State.passes_append.1 hpass
    obtain ⟨hq', hfloor⟩ := hadmits floor hf ha
    have hmeets := hws.1
    obtain ⟨l', m, hl', hm, hrun⟩ := hl.opens n hn floor s v hf hq' hvs
      (by rw [hmeets.kind]; exact hq) (by rw [hmeets.kind]; exact hw)
    obtain ⟨x', hx', hx⟩ := h n hn v t l' hws hfollows helse hl'
    have hlen := hws.length
    have hlen' := hmeets.length
    obtain ⟨m, rfl⟩ : ∃ k, m = k + 1 := Nat.exists_eq_succ_of_ne_zero (by omega)
    refine ⟨x', m, hx, ?_, ?_⟩
    · rw [List.length_cons] at hlen
      omega
    · rw [hrun, operations_step (by rw [hmeets.kind]; exact hfloor) hx']

theorem binary (span : Span) (op : BinaryOp) {d' : Nat} (hl : Readable vs q d l)
    (hr : Readable ws p d' r) (hq : op.level ≤ q) (hp : op.level < p) :
    Readable (vs ++ .symbol op.kind :: ws) op.level (max d (d' + 1)) (.binary span op l r) := by
  have hkind : op.kind ≠ .elseKw := by cases op <;> decide
  have htight : .lowest < op.level := by cases op <;> decide
  refine behind (hl.mono (Nat.le_max_left ..)) hkind ?_ htight ?_ ?_
  · show q.Follows (.of op.kind)
    rw [op.of_kind]
    exact Precedence.follows_op hq
  · intro floor _ ha
    refine ⟨Precedence.admits_of_level_le ha hq, ?_⟩
    show floor < .of op.kind
    rw [op.of_kind]
    exact Precedence.lt_level_of_admits ha
  · intro n hn s t l' hpass hfollows helse hl'
    obtain ⟨hop, hws⟩ := hpass
    have hfloor : op.level ≤ .unary := by cases op <;> decide
    obtain ⟨r', hrun, hr'⟩ := hr.yields_at (n := n) (by omega) hfloor (.inl hp) hws
      (Precedence.le_level_of_follows hfollows) helse
    refine ⟨.binary ⟨l'.span.start, t.current.span.stop⟩ op l' r', operation_ok.2 ?_, ?_⟩
    · rw [hop.current_kind]
      cases op <;> exact ⟨r', hrun, rfl⟩
    · show Expr.binary Span.zero op l'.eraseSpans r'.eraseSpans = _
      rw [hl', hr']
      rfl

theorem assign (span : Span) {d' : Nat} (hl : Readable vs q d l) (hr : Readable ws p d' r)
    (hq : .assign < q) :
    Readable (vs ++ .symbol .assign :: ws) .assign (max d (d' + 1)) (.assign span l r) := by
  have hassign := Precedence.follows_assign_of_lt hq
  refine behind (hl.mono (Nat.le_max_left ..)) (by decide) hassign (by decide) ?_ ?_
  · intro floor _ ha
    exact Precedence.admits_of_assign_lt ha hq
  · intro n hn s t l' hpass hfollows helse hl'
    obtain ⟨hop, hws⟩ := hpass
    obtain ⟨r', hrun, hr'⟩ := hr.yields (n := n) (by omega) hws
      (Precedence.eq_lowest_of_follows hfollows) helse
    refine ⟨.assign ⟨l'.span.start, t.current.span.stop⟩ l' r', operation_ok.2 ?_, ?_⟩
    · rw [hop.current_kind]
      exact ⟨r', hrun, rfl⟩
    · show Expr.assign Span.zero l'.eraseSpans r'.eraseSpans = _
      rw [hl', hr']
      rfl

theorem index (span : Span) {d' : Nat} (hl : Readable vs q d l) (hr : Readable ws p d' r)
    (hq : .call ≤ q) :
    Readable (vs ++ .symbol .lbracket :: (ws ++ [.symbol .rbracket])) .index (max d (d' + 1))
      (.index span l r) := by
  refine behind (hl.mono (Nat.le_max_left ..)) (by decide) hq (by decide) ?_ ?_
  · intro floor hf _
    exact ⟨Precedence.admits_of_call_le hf hq, Precedence.lt_index_of_le hf⟩
  · intro n hn s t l' hpass hfollows helse hl'
    obtain ⟨hopen, hpass⟩ := hpass
    obtain ⟨v, hws, hclose, rfl⟩ := State.passes_append.1 hpass
    obtain ⟨r', hrun, hr'⟩ := hr.yields (n := n) (by omega) hws (by rw [hclose.kind]; rfl)
      (by rw [hclose.kind]; decide)
    refine ⟨.index ⟨l'.span.start, v.advance.current.span.stop⟩ l' r', operation_ok.2 ?_, ?_⟩
    · rw [hopen.current_kind]
      exact ⟨r', v, hrun, hclose.kind, rfl, rfl⟩
    · show Expr.index Span.zero l'.eraseSpans r'.eraseSpans = _
      rw [hl', hr']
      rfl

end Readable

end Parser

end Primer
