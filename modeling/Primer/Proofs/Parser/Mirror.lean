/-
  Primer/Proofs/Parser/Mirror.lean
  ================================
  **Two readings in step.**

  A rule sees of a token its kind and its literal, and whether the token is a string that is not
  closed; what it makes of a span is put into the tree and into diagnostics and never looked at
  again.  So two readings over tokens that differ in their place only go through the same rules
  with the same results, up to that place (`Mirrors`).

  The second reading may also go on where the first comes to the end of its source, behind a last
  semicolon.  No rule looks at a token behind a semicolon it stands on, so the readings are in
  step up to there.  There is one exception: a block goes on behind a semicolon.  If it is not
  closed before the end of the first source, the first reading has strayed (`Strays`) and reports
  so, and nothing is said of the second one.
-/
import Primer.Proofs.Parser.Progress
import Primer.Proofs.Tree.Spans

namespace Primer

variable {ι : Type}

/-! ### Things with a place -/

/-- Both ends of the span seen through `f`. -/
def Span.map (f : Nat → Nat) (a : Span) : Span := ⟨f a.start, f a.stop⟩

/-- What is made of spans and things without a place. -/
class Placed (α : Type) where
  mapSpans : (Span → Span) → α → α

instance : Placed Unit := ⟨fun _ a => a⟩
instance : Placed Bool := ⟨fun _ a => a⟩
instance : Placed Span := ⟨fun f a => f a⟩
instance : Placed Ident := ⟨Ident.mapSpans⟩
instance : Placed (Expr ι) := ⟨Expr.mapSpans⟩
instance : Placed (Stmt ι) := ⟨Stmt.mapSpans⟩
instance : Placed (Block ι) := ⟨Block.mapSpans⟩
instance : Placed (Function ι) := ⟨Function.mapSpans⟩
instance : Placed (Property (Option (Expr ι))) := ⟨Property.mapSpans⟩
instance : Placed Diagnostic := ⟨fun f d => ⟨d.problem, f d.span⟩⟩
instance {α : Type} [Placed α] : Placed (Option α) := ⟨fun f => Option.map (Placed.mapSpans f)⟩
instance {α : Type} [Placed α] : Placed (List α) := ⟨fun f => List.map (Placed.mapSpans f)⟩

namespace Parser

/-- How a second reading is compared with a first one. -/
structure Mirror where
  /-- how far to the right the second reading finds what the first finds -/
  shift : Nat
  /-- what is compared of a place -/
  view : Nat → Nat
  /-- the diagnostics that the second reading had before -/
  before : List Diagnostic
  /-- the tokens behind the last semicolon, if the first reading ends there -/
  rest : Option (List Token)

variable {α β σ : Type} [Placed α] [Placed β] {M : Mirror} {s s' t t' : State}

namespace Mirror

/-- The same, seen from either reading. -/
def Like (M : Mirror) (a a' : α) : Prop :=
  Placed.mapSpans (Span.map M.view) (Placed.mapSpans (Span.shift M.shift) a) =
    Placed.mapSpans (Span.map M.view) a'

/-- The same place, seen from either reading. -/
def At (M : Mirror) (n n' : Nat) : Prop := M.view (n + M.shift) = M.view n'

/-- All that a rule can see of the tokens is the same. -/
structure LikeToken (M : Mirror) (a a' : Token) : Prop where
  kind : a.kind = a'.kind
  literal : a.literal = a'.literal
  start : M.At a.span.start a'.span.start
  stop : M.At a.span.stop a'.span.stop
  length : a.span.length = a'.span.length

/-- The tokens of the first reading and those of the second, as far as they are in step. -/
inductive Abreast (M : Mirror) : List Token → List Token → Prop
  | cons {a a' : Token} {ts ts' : List Token} : a.kind ≠ .eof → M.LikeToken a a' →
      M.Abreast ts ts' → M.Abreast (a :: ts) (a' :: ts')
  /-- both come to the end of their source -/
  | stop {a a' : Token} : M.rest = none → a.kind = .eof → M.LikeToken a a' → M.Abreast [a] [a']
  /-- the first comes to the end of its source behind a semicolon -/
  | last {a a' b : Token} {ts' : List Token} : M.rest = some ts' → a.kind = .semicolon →
      M.LikeToken a a' → b.kind = .eof → M.Abreast [a, b] (a' :: ts')

/-- The states of two readings in step. -/
structure Twin (M : Mirror) (s s' : State) : Prop where
  tokens : M.Abreast s.tokens s'.tokens
  ended : s.Ended
  ended_right : s'.Ended
  diagnostics : ∃ ds, s'.diagnostics = M.before ++ ds ∧ M.Like s.diagnostics ds

/-- The next token can be looked at where the current one is of that kind. -/
def Clear (M : Mirror) (k : TokenKind) : Prop := M.rest = none ∨ k ≠ .semicolon

/-- On the way from `s` to `t` the first reading was in a block that is not closed. -/
def Strays (M : Mirror) (s t : State) : Prop :=
  M.rest ≠ none ∧ t.diagnostics ≠ [] ∧ ∃ b ∈ s.tokens, b.kind = .lbrace

/-! ### Like things -/

theorem like_mapSpans (M : Mirror) (a : α) :
    M.Like a (Placed.mapSpans (Span.shift M.shift) a) := rfl

theorem like_bool {b b' : Bool} : M.Like b b' ↔ b = b' := Iff.rfl

theorem like_span {a a' : Span} : M.Like a a' ↔ M.At a.start a'.start ∧ M.At a.stop a'.stop := by
  show Span.mk _ _ = Span.mk _ _ ↔ _
  rw [Span.mk.injEq]
  rfl

theorem like_nil : M.Like ([] : List α) [] := rfl

theorem like_cons {a a' : α} {as as' : List α} :
    M.Like (a :: as) (a' :: as') ↔ M.Like a a' ∧ M.Like as as' := by
  show List.cons _ _ = List.cons _ _ ↔ _
  rw [List.cons.injEq]
  rfl

theorem like_append {as as' bs bs' : List α} (ha : M.Like as as') (hb : M.Like bs bs') :
    M.Like (as ++ bs) (as' ++ bs') := by
  unfold Like at ha hb ⊢
  show List.map _ (List.map _ (as ++ bs)) = List.map _ (as' ++ bs')
  rw [List.map_append, List.map_append, List.map_append]
  exact congr (congrArg _ ha) hb

theorem like_some {a a' : α} : M.Like (some a) (some a') ↔ M.Like a a' := by
  show some _ = some _ ↔ _
  rw [Option.some.injEq]
  rfl

theorem like_name {span span' : Span} (name : String) (h : M.Like span span') :
    M.Like (Ident.mk span name) (Ident.mk span' name) := by
  simp only [Like, Placed.mapSpans, Ident.mapSpans] at *
  rw [h]

theorem like_property {span span' : Span} {key key' : Ident} {v v' : Option (Expr Unit)}
    (hs : M.Like span span') (hk : M.Like key key') (hv : M.Like v v') :
    M.Like (Property.mk span key v) (Property.mk span' key' v') := by
  simp only [Like, Placed.mapSpans, Property.mapSpans] at *
  rw [hs, hk, hv]

theorem like_block {span span' : Span} {ss ss' : List (Stmt Unit)} (hs : M.Like span span')
    (h : M.Like ss ss') : M.Like (Block.mk span ss) (Block.mk span' ss') := by
  simp only [Like, Placed.mapSpans, Block.mapSpans, mapSpansStmts_eq_map] at *
  rw [hs, h]

theorem like_function {span span' : Span} {x x' : Option Ident} {xs xs' : List Ident}
    {b b' : Block Unit} (hs : M.Like span span') (hx : M.Like x x') (hxs : M.Like xs xs')
    (hb : M.Like b b') :
    M.Like (Function.mk span () x xs b) (Function.mk span' () x' xs' b') := by
  simp only [Like, Placed.mapSpans, Function.mapSpans] at *
  rw [hs, hx, hxs, hb]

namespace Like

/-- The same expressions have the same span. -/
theorem span {e e' : Expr Unit} (h : M.Like e e') : M.Like e.span e'.span := by
  have hspan := congrArg Expr.span h
  simp only [Placed.mapSpans, Expr.span_mapSpans] at hspan
  exact hspan

theorem functionSpan {fn fn' : Function Unit} (h : M.Like fn fn') : M.Like fn.span fn'.span := by
  cases fn
  cases fn'
  have hspan := congrArg Function.span h
  simp only [Placed.mapSpans, Function.mapSpans] at hspan
  exact hspan

theorem nameSpan {x x' : Ident} (h : M.Like x x') : M.Like x.span x'.span :=
  congrArg Ident.span h

theorem name {x x' : Ident} (h : M.Like x x') : x.name = x'.name := by
  have hname := congrArg Ident.name h
  exact hname

theorem withSpan {e e' : Expr Unit} {span span' : Span} (h : M.Like e e')
    (hs : M.Like span span') : M.Like (e.withSpan span) (e'.withSpan span') := by
  simp only [Like, Placed.mapSpans, Expr.mapSpans_withSpan] at *
  rw [h, hs]

section

variable {span span' : Span} (hs : M.Like span span') {e e' f f' : Expr Unit} (he : M.Like e e')
  (hf : M.Like f f') {es es' : List (Expr Unit)} (hes : M.Like es es')
  {ps ps' : List (Property (Option (Expr Unit)))} (hps : M.Like ps ps')
include hs

theorem ident (name : String) : M.Like (Expr.ident span name : Expr Unit) (.ident span' name) := by
  simp only [Like, Placed.mapSpans, Expr.mapSpans] at *
  rw [hs]

theorem str (text : String) : M.Like (Expr.str span text : Expr Unit) (.str span' text) := by
  simp only [Like, Placed.mapSpans, Expr.mapSpans] at *
  rw [hs]

theorem int (n : Nat) : M.Like (Expr.int span n : Expr Unit) (.int span' n) := by
  simp only [Like, Placed.mapSpans, Expr.mapSpans] at *
  rw [hs]

theorem bool (b : Bool) : M.Like (Expr.bool span b : Expr Unit) (.bool span' b) := by
  simp only [Like, Placed.mapSpans, Expr.mapSpans] at *
  rw [hs]

include he in
theorem unary (op : UnaryOp) : M.Like (Expr.unary span op e) (.unary span' op e') := by
  simp only [Like, Placed.mapSpans, Expr.mapSpans] at *
  rw [hs, he]

include he hf in
theorem binary (op : BinaryOp) : M.Like (Expr.binary span op e f) (.binary span' op e' f') := by
  simp only [Like, Placed.mapSpans, Expr.mapSpans] at *
  rw [hs, he, hf]

include he in
theorem cond {b b' : Block Unit} {a a' : Option (Block Unit)} (hb : M.Like b b')
    (ha : M.Like a a') : M.Like (Expr.cond span e b a) (.cond span' e' b' a') := by
  simp only [Like, Placed.mapSpans, Expr.mapSpans_cond] at *
  rw [hs, he, hb, ha]

theorem function {fn fn' : Function Unit} (hfn : M.Like fn fn') :
    M.Like (Expr.function span fn) (.function span' fn') := by
  simp only [Like, Placed.mapSpans, Expr.mapSpans] at *
  rw [hs, hfn]

include he hes in
theorem call : M.Like (Expr.call span e es) (.call span' e' es') := by
  simp only [Like, Placed.mapSpans, Expr.mapSpans, mapSpansExprs_eq_map] at *
  rw [hs, he, hes]

include he hf in
theorem index : M.Like (Expr.index span e f) (.index span' e' f') := by
  simp only [Like, Placed.mapSpans, Expr.mapSpans] at *
  rw [hs, he, hf]

include he hf in
theorem assign : M.Like (Expr.assign span e f) (.assign span' e' f') := by
  simp only [Like, Placed.mapSpans, Expr.mapSpans] at *
  rw [hs, he, hf]

include hps in
theorem object : M.Like (Expr.object span () ps) (.object span' () ps') := by
  simp only [Like, Placed.mapSpans, Expr.mapSpans, mapSpansProperties_eq_map] at *
  rw [hs, hps]

include hes in
theorem array : M.Like (Expr.array span () es) (.array span' () es') := by
  simp only [Like, Placed.mapSpans, Expr.mapSpans, mapSpansExprs_eq_map] at *
  rw [hs, hes]

theorem declare {x x' : Ident} {v v' : Option (Expr Unit)} (isConst : Bool) (hx : M.Like x x')
    (hv : M.Like v v') :
    M.Like (Stmt.declare span isConst x v) (.declare span' isConst x' v') := by
  simp only [Like, Placed.mapSpans, Stmt.mapSpans_declare] at *
  rw [hs, hx, hv]

theorem functionStmt {x x' : Ident} {fn fn' : Function Unit} (hx : M.Like x x')
    (hfn : M.Like fn fn') : M.Like (Stmt.function span x fn) (.function span' x' fn') := by
  simp only [Like, Placed.mapSpans, Stmt.mapSpans] at *
  rw [hs, hx, hfn]

include he in
theorem ret : M.Like (Stmt.ret span e) (.ret span' e') := by
  simp only [Like, Placed.mapSpans, Stmt.mapSpans] at *
  rw [hs, he]

include he in
theorem expr : M.Like (Stmt.expr span e) (.expr span' e') := by
  simp only [Like, Placed.mapSpans, Stmt.mapSpans] at *
  rw [hs, he]

end

end Like

/-! ### States in step -/

theorem LikeToken.span {a a' : Token} (h : M.LikeToken a a') : M.Like a.span a'.span :=
  like_span.2 ⟨h.start, h.stop⟩

theorem LikeToken.is {a a' : Token} (h : M.LikeToken a a') (k : TokenKind) : a.is k = a'.is k := by
  unfold Token.is
  rw [h.kind]

/-- Each token is like itself moved over. -/
theorem likeToken_shift (M : Mirror) (a : Token) :
    M.LikeToken a { a with span := a.span.shift M.shift } where
  kind := rfl
  literal := rfl
  start := rfl
  stop := rfl
  length := by
    unfold Span.length Span.shift
    dsimp only
    omega

theorem Abreast.head {a a' : Token} {ts ts' : List Token} (h : M.Abreast (a :: ts) (a' :: ts')) :
    M.LikeToken a a' := by
  cases h with
  | cons _ h _ => exact h
  | stop _ _ h => exact h
  | last _ _ h _ => exact h

theorem Abreast.exists_cons {ts ts' : List Token} (h : M.Abreast ts ts') :
    ∃ a us a' us', ts = a :: us ∧ ts' = a' :: us' := by
  cases h with
  | cons => exact ⟨_, _, _, _, rfl, rfl⟩
  | stop => exact ⟨_, _, _, _, rfl, rfl⟩
  | last => exact ⟨_, _, _, _, rfl, rfl⟩

namespace Twin

theorem current (h : M.Twin s s') : M.LikeToken s.current s'.current := h.tokens.head

/-- Moving on keeps step, or leads behind the last semicolon. -/
theorem advance (h : M.Twin s s') : M.Twin s.advance s'.advance ∨
    M.rest = some s'.ahead ∧ s.advance.current.kind = .eof ∧ s.current.kind = .semicolon := by
  obtain ⟨c, ts, ds⟩ := s
  obtain ⟨c', ts', ds'⟩ := s'
  have htokens : M.Abreast (c :: ts) (c' :: ts') := h.tokens
  cases htokens with
  | cons _ _ hrest =>
    obtain ⟨a, us, a', us', rfl, rfl⟩ := hrest.exists_cons
    have hended := (State.leads_advance _).ended h.ended
    have hended' := (State.leads_advance _).ended h.ended_right
    exact .inl ⟨hrest, hended, hended', h.diagnostics⟩
  | stop => exact .inl h
  | last hrest hkind _ hb => exact .inr ⟨hrest, hb, hkind⟩

/-- Where the next token can be looked at, it is the same, and moving on keeps step. -/
theorem next (h : M.Twin s s') (hc : M.Clear s.current.kind) :
    M.LikeToken s.peek s'.peek ∧ M.Twin s.advance s'.advance := by
  rcases h.advance with hadvance | ⟨hrest, -, hkind⟩
  · have hcurrent := hadvance.current
    rw [s.advance_current, s'.advance_current] at hcurrent
    exact ⟨hcurrent, hadvance⟩
  · rcases hc with hc | hc
    · exact absurd (hrest.symm.trans hc) nofun
    · exact absurd hkind hc

theorem report (h : M.Twin s s') {span span' : Span} (hspan : M.Like span span') (p : Problem) :
    M.Twin (s.report span p) (s'.report span' p) := by
  obtain ⟨ds, hds, hlike⟩ := h.diagnostics
  refine ⟨h.tokens, h.ended, h.ended_right, ds ++ [⟨p, span'⟩], ?_, ?_⟩
  · show s'.diagnostics ++ _ = _
    rw [hds, List.append_assoc]
  · refine like_append hlike (like_cons.2 ⟨?_, like_nil⟩)
    exact congrArg (Diagnostic.mk p) hspan

theorem synchronize (h : M.Twin s s') : M.Twin s.synchronize s'.synchronize := by
  obtain ⟨c, ts, ds⟩ := s
  induction ts generalizing c s' with
  | nil =>
    obtain ⟨c', ts', ds'⟩ := s'
    have htokens : M.Abreast [c] (c' :: ts') := h.tokens
    cases htokens with
    | cons _ _ hrest => cases hrest
    | stop => exact h
  | cons a ts ih =>
    obtain ⟨c', ts', ds'⟩ := s'
    have htokens : M.Abreast (c :: a :: ts) (c' :: ts') := h.tokens
    cases htokens with
    | last hrest hkind hlike hb =>
      have hends : State.endsStatement c.kind = true := by rw [hkind]; rfl
      have hends' : State.endsStatement c'.kind = true := by rw [← hlike.kind]; exact hends
      have hstop : State.synchronize (⟨c', ts', ds'⟩ : State) = ⟨c', ts', ds'⟩ := by
        unfold State.synchronize State.skipStatement
        cases ts' with
        | nil => rfl
        | cons b ts' =>
          dsimp only
          rw [hends', Bool.true_or, if_pos rfl]
      rw [hstop]
      unfold State.synchronize State.skipStatement
      rw [hends, Bool.true_or, if_pos rfl]
      exact h
    | cons hne hlike hrest =>
      obtain ⟨b, us, a', us', hb, rfl⟩ := hrest.exists_cons
      cases hb
      have hkind := hrest.head.kind
      unfold State.synchronize State.skipStatement
      dsimp only
      rw [← hlike.kind, ← hkind]
      split
      · exact h
      · have hended := (State.leads_advance _).ended h.ended
        have hended' := (State.leads_advance _).ended h.ended_right
        have htwin : M.Twin ⟨a, ts, ds⟩ ⟨a', us', ds'⟩ := ⟨hrest, hended, hended', h.diagnostics⟩
        exact ih a htwin

end Twin

/-! ### Rules in step -/

/-- The result of a rule in the first reading, which started in `s`, and that in the second. -/
def Meets (M : Mirror) (Q : TokenKind → Prop) (s : State) (r r' : EStateM.Result Failed State α) :
    Prop :=
  match r with
  | .ok a t => M.Strays s t ∨
      ∃ a' t', r' = .ok a' t' ∧ M.Like a a' ∧ M.Twin t t' ∧ Q t.current.kind
  | .error _ t => M.Strays s t ∨ ∃ e t', r' = .error e t' ∧ M.Twin t t'

/-- Started in step on a token of a kind in `P`, the rules stay in step, and end on a token of a
kind in `Q` if they succeed. -/
structure Mirrors (M : Mirror) (P Q : TokenKind → Prop) (x x' : Rule α) : Prop where
  moves : Moves x
  step : ∀ {s s'}, M.Twin s s' → P s.current.kind → M.Meets Q s (x s) (x' s')

theorem Strays.trans_leads (h : M.Strays s t) {u : State} (hl : t.Leads u) : M.Strays s u :=
  ⟨h.1, mt hl.clean h.2.1, h.2.2⟩

theorem Strays.of_leads {u : State} (hl : s.Leads t) (h : M.Strays t u) : M.Strays s u := by
  obtain ⟨b, hb, hk⟩ := h.2.2
  exact ⟨h.1, h.2.1, b, hl.suffix.mem hb, hk⟩

/-- What comes before the start of a rule does not matter to its result. -/
theorem Meets.of_leads {Q : TokenKind → Prop} {r r' : EStateM.Result Failed State α}
    (hl : s.Leads t) (h : M.Meets Q t r r') : M.Meets Q s r r' := by
  unfold Meets at h ⊢
  split at h
  · exact h.imp_left (.of_leads hl)
  · exact h.imp_left (.of_leads hl)

namespace Mirrors

variable {P P' Q Q' U : TokenKind → Prop} {x x' : Rule α} {f f' : α → Rule β}

theorem imp (h : M.Mirrors P Q x x') (hP : ∀ k, P' k → P k) (hQ : ∀ k, Q k → Q' k) :
    M.Mirrors P' Q' x x' where
  moves := h.moves
  step ht hp := by
    have hstep := h.step ht (hP _ hp)
    unfold Meets at hstep ⊢
    split at hstep
    · rcases hstep with hstep | ⟨a', t', hr, hlike, htwin, hq⟩
      · exact .inl hstep
      · exact .inr ⟨a', t', hr, hlike, htwin, hQ _ hq⟩
    · exact hstep

theorem pre (h : M.Mirrors P Q x x') (hP : ∀ k, P' k → P k) : M.Mirrors P' Q x x' :=
  h.imp hP fun _ => id

theorem post (h : M.Mirrors P Q x x') (hQ : ∀ k, Q k → Q' k) : M.Mirrors P Q' x x' :=
  h.imp (fun _ => id) hQ

theorem pure {a a' : α} (h : M.Like a a') : M.Mirrors P P (pure a : Rule α) (Pure.pure a') where
  moves := .pure a
  step ht hp := .inr ⟨a', _, rfl, h, ht, hp⟩

/-- If the second part strays so does the whole; and where the first has strayed, the second part
keeps what was reported. -/
theorem bind (hx : M.Mirrors P Q x x') (hf : ∀ a a', M.Like a a' → M.Mirrors Q U (f a) (f' a')) :
    M.Mirrors P U (x >>= f) (x' >>= f') where
  moves := .bind hx.moves fun a => (hf a _ (like_mapSpans M a)).moves
  step {s s'} ht hp := by
    have hmoves (a : α) : Moves (f a) := (hf a _ (like_mapSpans M a)).moves
    have hstep := hx.step ht hp
    cases hr : x s with
    | error e t =>
      rw [hr] at hstep
      rw [bind_of_error hr]
      rcases hstep with hstray | ⟨e', t', hr', htwin⟩
      · exact .inl hstray
      · exact .inr ⟨e', t', bind_of_error hr', htwin⟩
    | ok a t =>
      rw [hr] at hstep
      rw [bind_of_ok hr]
      rcases hstep with hstray | ⟨a', t', hr', hlike, htwin, hq⟩
      · unfold Meets
        split
        next hu => exact .inl (hstray.trans_leads ((hmoves a).ok hu))
        next hu => exact .inl (hstray.trans_leads ((hmoves a).error hu).1)
      · rw [bind_of_ok hr']
        exact ((hf a a' hlike).step htwin hq).of_leads (hx.moves.ok hr)

theorem ite {c : Prop} [Decidable c] {y y' : Rule α} (hx : M.Mirrors P Q x x')
    (hy : M.Mirrors P Q y y') : M.Mirrors P Q (if c then x else y) (if c then x' else y') := by
  split
  · exact hx
  · exact hy

/-- The current token is the same, and its kind is known from there on. -/
theorem currentKind {f f' : Token → Rule α}
    (hf : ∀ a a', M.LikeToken a a' →
      M.Mirrors (fun k => k = a.kind ∧ P k) Q (f a) (f' a')) :
    M.Mirrors P Q (current >>= f) (current >>= f') where
  moves := .bind .current fun a => (hf a _ (likeToken_shift M a)).moves
  step ht hp := by
    rw [current_bind, current_bind]
    exact (hf _ _ ht.current).step ht ⟨rfl, hp⟩

theorem current {f f' : Token → Rule α}
    (hf : ∀ a a', M.LikeToken a a' → M.Mirrors P Q (f a) (f' a')) :
    M.Mirrors P Q (Parser.current >>= f) (Parser.current >>= f') :=
  currentKind fun a a' h => (hf a a' h).pre fun _ hp => hp.2

theorem report {span span' : Span} (h : M.Like span span') (p : Problem) :
    M.Mirrors P P (report span p) (Parser.report span' p) where
  moves := .report span p
  step ht hp := .inr ⟨(), _, rfl, rfl, ht.report h p, hp⟩

theorem fail {span span' : Span} (h : M.Like span span') (p : Problem) :
    M.Mirrors P Q (fail span p : Rule α) (Parser.fail span' p) where
  moves := .fail span p
  step ht _ := .inr ⟨.failed, _, rfl, ht.report h p⟩

theorem spanFrom {n n' : Nat} (h : M.At n n') :
    M.Mirrors P P (spanFrom n) (Parser.spanFrom n') where
  moves := .spanFrom n
  step ht hp := .inr ⟨_, _, rfl, like_span.2 ⟨h, ht.current.stop⟩, ht, hp⟩

theorem identifier : M.Mirrors P P identifier Parser.identifier where
  moves := .identifier
  step ht hp := by
    refine .inr ⟨_, _, rfl, ?_, ht, hp⟩
    rw [ht.current.literal]
    exact like_name _ ht.current.span

/-! #### Steps that look at the next token -/

section

variable (hP : ∀ k, P k → M.Clear k)
include hP

theorem advance : M.Mirrors P (fun _ => True) advance Parser.advance where
  moves := .advance
  step ht hp := .inr ⟨(), _, rfl, rfl, (ht.next (hP _ hp)).2, trivial⟩

theorem expect (k : TokenKind) (place : Place) :
    M.Mirrors P (· = k) (expect k place) (Parser.expect k place) where
  moves := .expect k place
  step {s s'} ht hp := by
    obtain ⟨hpeek, hadvance⟩ := ht.next (hP _ hp)
    by_cases hk : s.peek.kind = k
    · rw [expect_of_peek hk, expect_of_peek (hpeek.kind.symm.trans hk)]
      refine .inr ⟨(), _, rfl, rfl, hadvance, ?_⟩
      rw [s.advance_current]
      exact hk
    · rw [expect_of_not_peek hk, expect_of_not_peek (fun h => hk (hpeek.kind.trans h)),
        ← hpeek.kind, ← hpeek.literal]
      exact .inr ⟨.failed, _, rfl, ht.report hpeek.span _⟩

theorem peekIs (k : TokenKind) : M.Mirrors P P (peekIs k) (Parser.peekIs k) where
  moves := .peekIs k
  step ht hp := .inr ⟨_, _, rfl, (ht.next (hP _ hp)).1.is k, ht, hp⟩

/-- A choice by the kind of the next token, which is then current. -/
theorem next {C : TokenKind → Prop} [DecidablePred C] {y y' : Rule α}
    (hx : M.Mirrors C Q x x') (hy : M.Mirrors P Q y y') :
    M.Mirrors P Q
      (get >>= fun s => if C s.peek.kind then Parser.advance >>= fun _ => x else y)
      (get >>= fun s => if C s.peek.kind then Parser.advance >>= fun _ => x' else y') where
  moves := .bind .get fun _ => .ite (.bind .advance fun _ => hx.moves) hy.moves
  step {s s'} ht hp := by
    obtain ⟨hpeek, hadvance⟩ := ht.next (hP _ hp)
    rw [get_bind, get_bind, ← hpeek.kind]
    split
    next hc =>
      rw [advance_bind, advance_bind]
      have hkind : C s.advance.current.kind := by rwa [s.advance_current]
      exact (hx.step hadvance hkind).of_leads s.leads_advance
    next => exact hy.step ht hp

/-- The same where the next token must be of one kind. -/
theorem ifNext (k : TokenKind) {y y' : Rule α} (hx : M.Mirrors (· = k) Q x x')
    (hy : M.Mirrors P Q y y') :
    M.Mirrors P Q
      (Parser.peekIs k >>= fun b => if b then Parser.advance >>= fun _ => x else y)
      (Parser.peekIs k >>= fun b => if b then Parser.advance >>= fun _ => x' else y') := by
  rw [peekIs_ite, peekIs_ite]
  exact next hP hx hy

theorem skip (k : TokenKind) : M.Mirrors P (fun _ => True) (skip k) (Parser.skip k) := by
  refine .bind (.peekIs hP k) fun b b' hb => ?_
  obtain rfl := like_bool.1 hb
  exact .ite (.advance hP) ((pure rfl).post fun _ _ => trivial)

end

/-- The readings have different numbers of rounds for a loop, but both numbers are enough. -/
theorem rounds {A : State → Prop} {body : (σ → Rule α) → σ → Rule α} {loop : σ → Nat → Rule α}
    (hloop : Advances A body loop) {y z : σ}
    (hA : ∀ s : State, P s.current.kind → A s)
    (h : ∀ n, M.Mirrors P Q (loop y n) (loop z n)) :
    M.Mirrors P Q (roundsLeft >>= loop y) (roundsLeft >>= loop z) where
  moves := .bind .roundsLeft fun n => (h n).moves
  step {s s'} ht hp := by
    have hp' : P s'.current.kind := by rwa [← ht.current.kind]
    have hstep := (h (max s.ahead.length s'.ahead.length)).step ht hp
    rw [hloop.settles ht.ended (hA s hp) (Nat.le_max_left _ _),
      hloop.settles ht.ended_right (hA s' hp') (Nat.le_max_right _ _)] at hstep
    exact hstep

theorem roundsThen {A : State → Prop} {body : (σ → Rule α) → σ → Rule α} {loop : σ → Nat → Rule α}
    (hloop : Advances A body loop) {y z : σ}
    (hA : ∀ s : State, P s.current.kind → A s)
    (h : ∀ n, M.Mirrors P Q (loop y n) (loop z n))
    (hf : ∀ a a', M.Like a a' → M.Mirrors Q U (f a) (f' a')) :
    M.Mirrors P U (roundsLeft >>= fun n => loop y n >>= f)
      (roundsLeft >>= fun n => loop z n >>= f') := by
  rw [← bind_assoc, ← bind_assoc]
  exact bind (rounds hloop hA h) hf

end Mirrors

theorem clear_of_eq {k : TokenKind} (hk : k ≠ .semicolon) : ∀ j, j = k → M.Clear j := by
  rintro _ rfl
  exact .inr hk

theorem clear_of_opening : ∀ k, k = .lbrace ∨ k = .comma → M.Clear k := by
  rintro k (rfl | rfl)
  · exact .inr (by decide)
  · exact .inr (by decide)

theorem clear_clear : ∀ k, M.Clear k → M.Clear k := fun _ => id

end Mirror

end Parser

end Primer
