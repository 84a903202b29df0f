/-
  Primer/Proofs/Parser/Steps.lean
  ===============================
  **What the steps of a reading do to its state.**

  Two kinds of facts are collected here.  The first are equations: what a step does when
  another computation follows it.  Only `expect` and `fail` can give up, so all other steps
  are rewritten away, and `bind_ok` takes apart what is left of a successful run.

  The second is a relation between states that every rule respects, whether it succeeds or
  fails.  A reading only moves forward over its tokens and only adds diagnostics (`Leads`),
  and a rule that fails has added one (`Moves`).  So a reading without diagnostics has had
  no failure in it anywhere.
-/
import Primer.Parser.Parse

namespace Primer.Parser

variable {α β : Type} {s t u : State}

/-! ### Steps that always succeed -/

@[simp] theorem is_eq_true (t : Token) (k : TokenKind) : t.is k = true ↔ t.kind = k := by
  simp [Token.is]

@[simp] theorem not_is_eq_true (t : Token) (k : TokenKind) :
    (!t.is k) = true ↔ t.kind ≠ k := by
  simp [Token.is]

theorem get_bind (f : State → Rule β) : ((get : Rule State) >>= f) s = f s s := rfl

theorem current_bind (f : Token → Rule β) : (current >>= f) s = f s.current s := rfl

theorem advance_bind (f : Unit → Rule β) : (advance >>= f) s = f () s.advance := rfl

theorem peekIs_bind (k : TokenKind) (f : Bool → Rule β) :
    (peekIs k >>= f) s = f (s.peek.is k) s := rfl

/-- Asking for a kind is looking at the next token. -/
theorem peekIs_ite (k : TokenKind) (x y : Rule α) :
    (peekIs k >>= fun b => if b then x else y) =
      (get >>= fun s => if s.peek.kind = k then x else y) := by
  funext s
  rw [peekIs_bind, get_bind]
  by_cases h : s.peek.kind = k
  · rw [if_pos h, if_pos ((is_eq_true _ _).2 h)]
  · rw [if_neg h, if_neg (mt (is_eq_true _ _).1 h)]

theorem report_bind (span : Span) (p : Problem) (f : Unit → Rule β) :
    (report span p >>= f) s = f () (s.report span p) := rfl

theorem synchronize_bind (f : Unit → Rule β) : (synchronize >>= f) s = f () s.synchronize := rfl

theorem spanFrom_bind (n : Nat) (f : Span → Rule β) :
    (spanFrom n >>= f) s = f ⟨n, s.current.span.stop⟩ s := rfl

theorem identifier_bind (f : Ident → Rule β) :
    (identifier >>= f) s = f ⟨s.current.span, s.current.literal⟩ s := rfl

theorem roundsLeft_bind (f : Nat → Rule β) : (roundsLeft >>= f) s = f s.ahead.length s := rfl

theorem skip_bind (k : TokenKind) (f : Unit → Rule β) :
    (skip k >>= f) s = f () (if s.peek.kind = k then s.advance else s) := by
  show ((if s.peek.is k then advance else pure ()) >>= f) s = _
  by_cases h : s.peek.kind = k
  · rw [if_pos ((is_eq_true _ _).2 h), if_pos h]
    rfl
  · rw [if_neg (mt (is_eq_true _ _).1 h), if_neg h]
    rfl

theorem attempt_bind (x : Rule α) (f : Option α → Rule β) :
    (attempt x >>= f) s =
      match x s with
      | .ok a t => f (some a) t
      | .error _ t => f none t := by
  show EStateM.bind (attempt x) f s = _
  unfold EStateM.bind attempt
  cases x s <;> rfl

/-! ### Successful runs -/

theorem pure_ok {a b : α} : (pure a : Rule α) s = .ok b u ↔ a = b ∧ s = u := by
  show EStateM.Result.ok a s = _ ↔ _
  rw [EStateM.Result.ok.injEq]

theorem ite_ok {c : Prop} [Decidable c] {x y : Rule α} {a : α} :
    (if c then x else y) s = .ok a u ↔ if c then x s = .ok a u else y s = .ok a u := by
  split <;> rfl

theorem bind_ok {x : Rule α} {f : α → Rule β} {b : β} :
    (x >>= f) s = .ok b u ↔ ∃ a t, x s = .ok a t ∧ f a t = .ok b u := by
  show EStateM.bind x f s = _ ↔ _
  unfold EStateM.bind
  cases x s with
  | ok a t =>
    constructor
    · intro h
      exact ⟨a, t, rfl, h⟩
    · rintro ⟨_, _, ⟨⟩, h⟩
      exact h
  | error e t => simp

theorem advance_ok {a : Unit} : advance s = .ok a u ↔ s.advance = u := by
  show EStateM.Result.ok () s.advance = _ ↔ _
  rw [EStateM.Result.ok.injEq]
  exact and_iff_right rfl

theorem fail_ok {span : Span} {p : Problem} {a : α} : ¬fail span p s = .ok a u := by
  show ¬EStateM.Result.error Failed.failed (s.report span p) = _
  exact nofun

theorem expect_ok {k : TokenKind} {place : Place} {a : Unit} :
    expect k place s = .ok a u ↔ s.peek.kind = k ∧ s.advance = u := by
  show (if s.peek.is k then advance else fail _ _ : Rule Unit) s = _ ↔ _
  rw [ite_ok]
  simp only [is_eq_true, fail_ok, advance_ok]
  split
  next h => exact (and_iff_right h).symm
  next h => exact iff_of_false id fun hk => h hk.1

/-! ### Lists of tokens that end in the end of the source -/

/-- The last token, and no other, is the end of the source. -/
def Ended : List Token → Prop
  | [] => False
  | [t] => t.kind = .eof
  | t :: u :: ts => t.kind ≠ .eof ∧ Ended (u :: ts)

theorem Ended.of_append {ts us : List Token} (h : Ended (ts ++ us)) (hu : us ≠ []) :
    Ended us := by
  induction ts with
  | nil => exact h
  | cons a ts ih =>
    apply ih
    cases hts : ts ++ us with
    | nil => exact absurd (List.append_eq_nil_iff.1 hts).2 hu
    | cons b l =>
      rw [List.cons_append, hts] at h
      exact h.2

/-- The tokens of a source are such a list. -/
theorem tokens_ended (c : Cursor) : Ended c.tokens := by
  induction c using Cursor.tokens.induct with
  | case1 c h =>
    rw [Cursor.tokens, dif_pos h]
    exact h
  | case2 c h ih =>
    rw [Cursor.tokens, dif_neg h]
    cases htok : c.next.2.tokens with
    | nil => rw [htok] at ih; exact absurd ih id
    | cons t ts => rw [htok] at ih; exact ⟨h, ih⟩

namespace State

/-- The tokens from the current one on. -/
def tokens (s : State) : List Token := s.current :: s.ahead

/-- The tokens from the current one on end in the end of the source. -/
def Ended (s : State) : Prop := Parser.Ended s.tokens

theorem ofString_ended (source : String) : (ofString source).Ended := by
  have h : Parser.Ended (lex source) := Parser.tokens_ended _
  unfold ofString ofTokens
  cases hl : lex source with
  | nil => rw [hl] at h; exact absurd h id
  | cons t ts => rw [hl] at h; exact h

/-- Passing from `s` to `t` moves over the tokens `ts`, the last of which is then current. -/
structure Reads (s : State) (ts : List Token) (t : State) : Prop where
  ahead : s.ahead = ts ++ t.ahead
  current : t.current = ts.getLastD s.current

theorem Reads.refl (s : State) : s.Reads [] s := ⟨rfl, rfl⟩

theorem Reads.trans {ts us : List Token} (h : s.Reads ts t) (h' : t.Reads us u) :
    s.Reads (ts ++ us) u where
  ahead := by rw [h.ahead, h'.ahead, List.append_assoc]
  current := by
    rw [h'.current, h.current]
    cases us with
    | nil => simp
    | cons b us => simp [List.getLastD_eq_getLast?]

/-- Nothing but the current token and the tokens ahead matters. -/
theorem Reads.ended {ts : List Token} (h : s.Reads ts t) (hs : s.Ended) : t.Ended := by
  unfold Ended tokens at hs ⊢
  rw [h.ahead] at hs
  rw [h.current]
  rcases List.eq_nil_or_concat ts with rfl | ⟨ts, b, rfl⟩
  · exact hs
  · rw [List.concat_eq_append] at hs ⊢
    rw [List.getLastD_concat]
    have heq : s.current :: (ts ++ [b] ++ t.ahead) = (s.current :: ts) ++ b :: t.ahead := by simp
    rw [heq] at hs
    exact hs.of_append (List.cons_ne_nil _ _)

/-! #### One token on -/

theorem reads_advance (hs : s.Ended) (h : s.current.kind ≠ .eof) :
    s.Reads [s.advance.current] s.advance := by
  unfold advance
  cases ha : s.ahead with
  | nil =>
    unfold Ended tokens at hs
    rw [ha] at hs
    exact absurd hs h
  | cons b ts => exact ⟨ha, rfl⟩

theorem peek_eq_advance_current (hs : s.Ended) (h : s.peek.kind ≠ .eof) :
    s.advance.current = s.peek := by
  unfold advance peek at *
  cases ha : s.ahead with
  | nil =>
    rw [ha] at h
    unfold Ended tokens at hs
    rw [ha] at hs
    exact absurd hs h
  | cons b ts => rfl

theorem reads_peek (hs : s.Ended) (h : s.peek.kind ≠ .eof) : s.Reads [s.peek] s.advance := by
  unfold advance peek at *
  cases ha : s.ahead with
  | nil =>
    rw [ha] at h
    unfold Ended tokens at hs
    rw [ha] at hs
    exact absurd hs h
  | cons b ts => exact ⟨ha, rfl⟩

theorem ahead_eq_nil (hs : s.Ended) (h : s.current.kind = .eof) : s.ahead = [] := by
  unfold Ended tokens at hs
  cases ha : s.ahead with
  | nil => rfl
  | cons b ts => rw [ha] at hs; exact absurd h hs.1

theorem ahead_ne_nil (hs : s.Ended) (h : s.current.kind ≠ .eof) : s.ahead ≠ [] := by
  intro ha
  unfold Ended tokens at hs
  rw [ha] at hs
  exact h hs

/-! ### Where a rule can lead -/

/-- A reading in state `s` may come to state `t`: it has moved forward and has kept its
diagnostics. -/
structure Leads (s t : State) : Prop where
  reads : ∃ ts, s.Reads ts t
  keeps : s.diagnostics <+: t.diagnostics

theorem Leads.refl (s : State) : s.Leads s := ⟨⟨[], .refl s⟩, List.prefix_refl _⟩

theorem Leads.trans (h : s.Leads t) (h' : t.Leads u) : s.Leads u := by
  obtain ⟨ts, hts⟩ := h.reads
  obtain ⟨us, hus⟩ := h'.reads
  exact ⟨⟨ts ++ us, hts.trans hus⟩, h.keeps.trans h'.keeps⟩

theorem Leads.ended (h : s.Leads t) (hs : s.Ended) : t.Ended := by
  obtain ⟨ts, hts⟩ := h.reads
  exact hts.ended hs

/-- Without diagnostics at the end there were none before. -/
theorem Leads.clean (h : s.Leads t) (ht : t.diagnostics = []) : s.diagnostics = [] := by
  have hp := h.keeps
  rw [ht] at hp
  exact List.prefix_nil.1 hp

theorem leads_advance (s : State) : s.Leads s.advance := by
  unfold advance
  cases ha : s.ahead with
  | nil => exact .refl s
  | cons b ts => exact ⟨⟨[b], ha, rfl⟩, List.prefix_refl _⟩

theorem leads_report (s : State) (span : Span) (p : Problem) : s.Leads (s.report span p) :=
  ⟨⟨[], rfl, rfl⟩, List.prefix_append _ _⟩

theorem skipStatement_reads (c : Token) (ts : List Token) (ds : List Diagnostic) :
    ∃ us, Reads ⟨c, ts, ds⟩ us ⟨(skipStatement c ts).1, (skipStatement c ts).2, ds⟩ := by
  induction ts generalizing c with
  | nil => exact ⟨[], rfl, rfl⟩
  | cons b ts ih =>
    unfold skipStatement
    split
    · exact ⟨[], rfl, rfl⟩
    · obtain ⟨us, h⟩ := ih b
      have hb : Reads ⟨c, b :: ts, ds⟩ [b] ⟨b, ts, ds⟩ := ⟨rfl, rfl⟩
      exact ⟨[b] ++ us, hb.trans h⟩

theorem leads_synchronize (s : State) : s.Leads s.synchronize :=
  ⟨skipStatement_reads s.current s.ahead s.diagnostics, List.prefix_refl _⟩

end State

/-- Wherever the rule starts, it leads on, and when it fails it has reported something. -/
def Moves (r : Rule α) : Prop :=
  ∀ s, match r s with
    | .ok _ t => s.Leads t
    | .error _ t => s.Leads t ∧ t.diagnostics ≠ []

namespace Moves

theorem ok {r : Rule α} {a : α} (h : Moves r) (hr : r s = .ok a t) : s.Leads t := by
  have hs := h s
  rw [hr] at hs
  exact hs

theorem error {r : Rule α} {e : Failed} (h : Moves r) (hr : r s = .error e t) :
    s.Leads t ∧ t.diagnostics ≠ [] := by
  have hs := h s
  rw [hr] at hs
  exact hs

theorem pure (a : α) : Moves (pure a : Rule α) := fun s => .refl s

theorem bind {x : Rule α} {f : α → Rule β} (hx : Moves x) (hf : ∀ a, Moves (f a)) :
    Moves (x >>= f) := by
  intro s
  show match EStateM.bind x f s with
    | .ok _ t => s.Leads t
    | .error _ t => s.Leads t ∧ t.diagnostics ≠ []
  unfold EStateM.bind
  cases h : x s with
  | error e t => exact hx.error h
  | ok a t =>
    have hst := hx.ok h
    show match f a t with
      | .ok _ u => s.Leads u
      | .error _ u => s.Leads u ∧ u.diagnostics ≠ []
    cases h' : f a t with
    | ok b u => exact hst.trans ((hf a).ok h')
    | error e u => exact ⟨hst.trans ((hf a).error h').1, ((hf a).error h').2⟩

theorem ite {c : Prop} [Decidable c] {x y : Rule α} (hx : Moves x) (hy : Moves y) :
    Moves (if c then x else y) := by
  split
  · exact hx
  · exact hy

theorem get : Moves (get : Rule State) := fun s => .refl s

theorem current : Moves current := fun s => .refl s

theorem advance : Moves advance := fun s => s.leads_advance

theorem peekIs (k : TokenKind) : Moves (peekIs k) := fun s => .refl s

theorem report (span : Span) (p : Problem) : Moves (report span p) := fun s => s.leads_report span p

theorem synchronize : Moves synchronize := fun s => s.leads_synchronize

theorem spanFrom (n : Nat) : Moves (spanFrom n) := fun s => .refl s

theorem identifier : Moves identifier := fun s => .refl s

theorem roundsLeft : Moves roundsLeft := fun s => .refl s

theorem fail (span : Span) (p : Problem) : Moves (fail span p : Rule α) :=
  fun s => ⟨s.leads_report span p, by simp [State.report]⟩

theorem expect (k : TokenKind) (place : Place) : Moves (expect k place) :=
  bind get fun _ => ite advance (fail _ _)

theorem skip (k : TokenKind) : Moves (skip k) :=
  bind (peekIs k) fun _ => ite advance (pure ())

theorem attempt {x : Rule α} (hx : Moves x) : Moves (attempt x) := by
  intro s
  unfold Parser.attempt
  cases h : x s with
  | ok a t => exact hx.ok h
  | error e t => exact (hx.error h).1

end Moves

end Primer.Parser
