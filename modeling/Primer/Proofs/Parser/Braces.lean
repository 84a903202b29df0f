/-
  Primer/Proofs/Parser/Braces.lean
  ================================
  **Counting braces.**

  A rule of the grammar closes the braces that it opens, but a reading that goes on behind a failed
  statement does not count braces, so what was skipped may leave some of them open.  Here it is said
  what there is to count: the braces among tokens (`openBraces`, `BracesNest`), the blocks of a tree
  with the tokens that were skipped in them (`Block.skipped`), and the braces that these tokens
  leave open (`leftOpen`).

  `Counts` is a triple for rules.  On whatever way a rule ends, it has passed over tokens that close
  no brace but their own; and if it yields a tree, then the braces that are open behind it are those
  that were open before it, and those that were left open in the blocks of that tree.
-/
import Mathlib.Algebra.Ring.Int.Defs
import Mathlib.Data.List.Infix
import Primer.Proofs.Parser.Lockstep
import Primer.Proofs.Parser.Spans

namespace Primer

/-! ### Braces among tokens -/

/-- What a token of this kind adds to the number of open braces. -/
def TokenKind.braces : TokenKind → Int
  | .lbrace => 1
  | .rbrace => -1
  | _ => 0

theorem TokenKind.braces_nonneg {k : TokenKind} (hk : k ≠ .rbrace) : 0 ≤ k.braces := by
  cases k with
  | rbrace => exact absurd rfl hk
  | _ => decide

/-- The number of braces that the tokens open, less the number of those that they close. -/
def openBraces (ts : List Token) : Int := (ts.map (·.kind.braces)).sum

/-- The tokens close no brace but those that they open. -/
def BracesNest (ts : List Token) : Prop := ∀ us ∈ ts.inits, 0 ≤ openBraces us

/-- The tokens close the braces that they open, and no others. -/
structure BracesBalance (ts : List Token) : Prop where
  nest : BracesNest ts
  closed : openBraces ts = 0

instance (ts : List Token) : Decidable (BracesNest ts) :=
  inferInstanceAs (Decidable (∀ us ∈ ts.inits, _))

instance (ts : List Token) : Decidable (BracesBalance ts) :=
  decidable_of_iff (BracesNest ts ∧ openBraces ts = 0)
    ⟨fun h => ⟨h.1, h.2⟩, fun h => ⟨h.nest, h.closed⟩⟩

@[simp] theorem openBraces_nil : openBraces [] = 0 := rfl

@[simp] theorem openBraces_cons (t : Token) (ts : List Token) :
    openBraces (t :: ts) = t.kind.braces + openBraces ts := by
  simp [openBraces]

@[simp] theorem openBraces_append (ts us : List Token) :
    openBraces (ts ++ us) = openBraces ts + openBraces us := by
  simp [openBraces]

namespace BracesNest

variable {ts us : List Token}

theorem iff_initial : BracesNest ts ↔ ∀ us, us <+: ts → 0 ≤ openBraces us := by
  simp only [BracesNest, List.mem_inits]

theorem nil : BracesNest [] := by
  rw [iff_initial]
  intro us hus
  obtain rfl := List.prefix_nil.1 hus
  exact Int.le_refl 0

theorem nonneg (h : BracesNest ts) : 0 ≤ openBraces ts :=
  iff_initial.1 h ts (List.prefix_refl ts)

theorem of_append (h : BracesNest (ts ++ us)) : BracesNest ts := by
  rw [iff_initial] at h ⊢
  intro vs hvs
  exact h vs (hvs.trans (List.prefix_append ts us))

/-- Behind tokens that leave braces open there may be more closing braces. -/
theorem append_of (h : BracesNest ts)
    (hus : ∀ vs, vs <+: us → 0 ≤ openBraces ts + openBraces vs) : BracesNest (ts ++ us) := by
  rw [iff_initial] at h ⊢
  intro vs hvs
  rcases List.prefix_or_prefix_of_prefix hvs (List.prefix_append ts us) with hvs' | ⟨ws, rfl⟩
  · exact h vs hvs'
  · rw [openBraces_append]
    exact hus ws ((List.prefix_append_right_inj ts).1 hvs)

theorem append (h : BracesNest ts) (h' : BracesNest us) : BracesNest (ts ++ us) := by
  refine h.append_of fun vs hvs => ?_
  have hts := h.nonneg
  have hvs := iff_initial.1 h' vs hvs
  omega

theorem concat (h : BracesNest ts) {t : Token} (ht : 0 ≤ openBraces ts + t.kind.braces) :
    BracesNest (ts ++ [t]) := by
  refine h.append_of fun vs hvs => ?_
  rcases List.prefix_cons_iff.1 hvs with rfl | ⟨ws, rfl, hws⟩
  · simpa using h.nonneg
  · rw [List.prefix_nil.1 hws]
    simpa using ht

end BracesNest

/-- Where the braces balance, what follows an opening brace closes more braces than it opens. -/
theorem BracesBalance.openBraces_neg {ts us : List Token} {t : Token}
    (h : BracesBalance (ts ++ t :: us)) (ht : t.kind = .lbrace) : openBraces us < 0 := by
  have hts := h.nest.of_append.nonneg
  have hclosed := h.closed
  rw [openBraces_append, openBraces_cons, ht, TokenKind.braces] at hclosed
  omega

/-! ### The blocks of a tree -/

variable {ι : Type}

mutual

def Expr.blocks : Expr ι → List (Block ι)
  | .ident .. => []
  | .str .. => []
  | .int .. => []
  | .bool .. => []
  | .unary _ _ operand => operand.blocks
  | .binary _ _ left right => left.blocks ++ right.blocks
  | .cond _ condition consequence none => condition.blocks ++ consequence.blocks
  | .cond _ condition consequence (some alternative) =>
    condition.blocks ++ (consequence.blocks ++ alternative.blocks)
  | .function _ fn => fn.blocks
  | .call _ callee args => callee.blocks ++ blocksExprs args
  | .index _ container key => container.blocks ++ key.blocks
  | .assign _ target value => target.blocks ++ value.blocks
  | .object _ _ properties => blocksProperties properties
  | .array _ _ elements => blocksExprs elements

def Stmt.blocks : Stmt ι → List (Block ι)
  | .declare _ _ _ none => []
  | .declare _ _ _ (some value) => value.blocks
  | .function _ _ fn => fn.blocks
  | .ret _ value => value.blocks
  | .expr _ value => value.blocks

/-- The block itself, and the blocks in it. -/
def Block.blocks : Block ι → List (Block ι)
  | ⟨span, statements⟩ => ⟨span, statements⟩ :: blocksStmts statements

def Function.blocks : Function ι → List (Block ι)
  | ⟨_, _, _, _, body⟩ => body.blocks

def blocksExprs : List (Expr ι) → List (Block ι)
  | [] => []
  | e :: es => e.blocks ++ blocksExprs es

def blocksStmts : List (Stmt ι) → List (Block ι)
  | [] => []
  | s :: ss => s.blocks ++ blocksStmts ss

def blocksProperties : List (Property (Option (Expr ι))) → List (Block ι)
  | [] => []
  | ⟨_, _, none⟩ :: ps => blocksProperties ps
  | ⟨_, _, some value⟩ :: ps => value.blocks ++ blocksProperties ps

end

/-- All blocks of the program. -/
def Program.blocks (p : Program ι) : List (Block ι) := blocksStmts p.statements

theorem Expr.blocks_withSpan (span : Span) (e : Expr ι) : (e.withSpan span).blocks = e.blocks := by
  cases e with
  | cond _ _ _ a => cases a <;> rfl
  | _ => rfl

theorem Expr.blocks_cond (span : Span) (c : Expr ι) (b : Block ι) (a : Option (Block ι)) :
    (Expr.cond span c b a).blocks = c.blocks ++ (b.blocks ++ a.toList.flatMap Block.blocks) := by
  cases a <;> simp [Expr.blocks]

theorem blocksProperties_cons (span : Span) (key : Ident) (value : Option (Expr ι))
    (ps : List (Property (Option (Expr ι)))) :
    blocksProperties (⟨span, key, value⟩ :: ps) =
      blocksExprs value.toList ++ blocksProperties ps := by
  cases value with
  | none => rfl
  | some e => simp [blocksProperties, blocksExprs]

/-- The token is part of none of the statements. -/
def Token.isOutside (statements : List (Stmt ι)) (t : Token) : Bool :=
  statements.all fun x => !x.span.contains t.span

theorem Token.isOutside_iff {statements : List (Stmt ι)} {t : Token} :
    t.isOutside statements = true ↔
      ∀ x ∈ statements, x.span.start ≤ t.span.start → x.span.stop < t.span.stop := by
  simp only [isOutside, Span.contains, List.all_eq_true, Bool.not_eq_true', Bool.and_eq_false_iff,
    decide_eq_false_iff_not, Nat.not_le]
  refine forall₂_congr fun x _ => ?_
  omega

/-- The tokens between the first and the last of a block that are part of none of its statements:
those of statements that failed. -/
def Block.skipped (tokens : List Token) (b : Block ι) : List Token :=
  tokens.filter fun t =>
    t.isOutside b.statements && decide (b.span.start < t.span.start ∧ t.span.stop < b.span.stop)

/-- The braces that failed statements of the blocks have left open. -/
def leftOpen (tokens : List Token) (bs : List (Block ι)) : Int :=
  (bs.map fun b => openBraces (b.skipped tokens)).sum

@[simp] theorem leftOpen_cons (tokens : List Token) (b : Block ι) (bs : List (Block ι)) :
    leftOpen tokens (b :: bs) = openBraces (b.skipped tokens) + leftOpen tokens bs := by
  simp [leftOpen]

@[simp] theorem leftOpen_append (tokens : List Token) (bs cs : List (Block ι)) :
    leftOpen tokens (bs ++ cs) = leftOpen tokens bs + leftOpen tokens cs := by
  simp [leftOpen]

theorem leftOpen_nonneg {tokens : List Token} {bs : List (Block ι)}
    (h : ∀ b ∈ bs, 0 ≤ openBraces (b.skipped tokens)) : 0 ≤ leftOpen tokens bs := by
  induction bs with
  | nil => exact Int.le_refl 0
  | cons b bs ih =>
    obtain ⟨hb, hbs⟩ := List.forall_mem_cons.1 h
    have hrest := ih hbs
    rw [leftOpen_cons]
    omega

/-- Where no number is negative, the sum vanishes only if each of them does. -/
theorem leftOpen_eq_zero_iff {tokens : List Token} {bs : List (Block ι)}
    (h : ∀ b ∈ bs, 0 ≤ openBraces (b.skipped tokens)) :
    leftOpen tokens bs = 0 ↔ ∀ b ∈ bs, openBraces (b.skipped tokens) = 0 := by
  induction bs with
  | nil => simp [leftOpen]
  | cons b bs ih =>
    obtain ⟨hb, hbs⟩ := List.forall_mem_cons.1 h
    have hrest := leftOpen_nonneg hbs
    rw [List.forall_mem_cons, ← ih hbs, leftOpen_cons]
    omega

/-! ### Where blocks stand -/

/-- The block stands between an opening and a closing brace.  What is in between closes no brace but
its own, and leaves those open that failed statements have left open. -/
structure Block.Braced (source : String) (b : Block Unit) (before : List Token) (first : Token)
    (inside : List Token) (last : Token) (after : List Token) : Prop where
  tokens : lex source = before ++ first :: (inside ++ last :: after)
  opens : first.kind = .lbrace
  closes : last.kind = .rbrace
  span_eq : b.span = ⟨first.span.start, last.span.stop⟩
  nest : BracesNest inside
  left : openBraces inside = leftOpen (lex source) b.blocks

/-- The block stands between braces, or is an `if` behind `else`. -/
structure Block.Placed (source : String) (b : Block Unit) : Prop where
  nonneg : ∀ c ∈ b.blocks, 0 ≤ openBraces (c.skipped (lex source))
  place : (∃ before first inside last after, b.Braced source before first inside last after) ∨
    ∃ t ∈ lex source, t.kind = .ifKw ∧ t.span.start = b.span.start

theorem Block.self_mem_blocks (b : Block ι) : b ∈ b.blocks := by
  obtain ⟨span, statements⟩ := b
  exact List.mem_cons_self

theorem leftOpen_nonneg_of_placed {source : String} {bs : List (Block Unit)}
    (h : ∀ b ∈ bs, b.Placed source) : 0 ≤ leftOpen (lex source) bs :=
  leftOpen_nonneg fun b hb => (h b hb).nonneg b b.self_mem_blocks

namespace Parser

variable {α β : Type} {source : String} {b : List Token} {o : Nat} {bs : List (Block Unit)}
  {s t u : State}

/-! ### Where a reading stands among the braces -/

namespace State

/-- On the way from the beginning of `b` no brace has been closed that was not opened.  The current
token has not been passed yet. -/
structure Reached (source : String) (b : List Token) (s : State) : Prop where
  on : s.On source
  passed : ∃ us, b = us ++ s.tokens ∧ BracesNest us

/-- On the way from the beginning of `b` the blocks `bs` were read; `z` braces are open besides
those that failed statements in these blocks have left open.  The current token has not been passed
yet. -/
structure Passed (source : String) (b : List Token) (bs : List (Block Unit)) (z : Int) (s : State) :
    Prop where
  on : s.On source
  passed : ∃ us, b = us ++ s.tokens ∧ BracesNest us ∧
    openBraces us = z + leftOpen (lex source) bs
  placed : ∀ c ∈ bs, c.Placed source

/-- The reading stands before the current token, with `o` braces to be closed. -/
def Before (source : String) (b : List Token) (o : Nat) (bs : List (Block Unit)) (s : State) :
    Prop :=
  s.Passed source b bs o

/-- The same, where the current token counts as passed. -/
def Behind (source : String) (b : List Token) (o : Nat) (bs : List (Block Unit)) (s : State) :
    Prop :=
  s.Passed source b bs (o - s.current.kind.braces)

theorem Passed.reached {z : Int} (h : s.Passed source b bs z) : s.Reached source b := by
  obtain ⟨us, heq, hnest, -⟩ := h.passed
  exact ⟨h.on, us, heq, hnest⟩

theorem Before.reached (h : s.Before source b o bs) : s.Reached source b := Passed.reached h

theorem Behind.reached (h : s.Behind source b o bs) : s.Reached source b := Passed.reached h

/-- The beginning. -/
theorem before_self (hs : s.On source) : s.Before source s.tokens 0 [] where
  on := hs
  passed := ⟨[], rfl, .nil, rfl⟩
  placed := nofun

/-- A token that is no brace makes no difference. -/
theorem Before.behind (h : s.Before source b o bs) (hk : s.current.kind.braces = 0) :
    s.Behind source b o bs := by
  unfold Behind
  rw [hk, Int.sub_zero]
  exact h

theorem Before.behind_lbrace (h : s.Before source b o bs) (hk : s.current.kind = .lbrace) :
    s.Behind source b (o + 1) bs := by
  have heq : ((o + 1 : Nat) : Int) - s.current.kind.braces = o := by
    rw [hk]
    show ((o + 1 : Nat) : Int) - 1 = o
    omega
  unfold Behind
  rw [heq]
  exact h

theorem Before.behind_rbrace (h : s.Before source b (o + 1) bs) (hk : s.current.kind = .rbrace) :
    s.Behind source b o bs := by
  have heq : (o : Int) - s.current.kind.braces = (o + 1 : Nat) := by
    rw [hk]
    show (o : Int) - -1 = (o + 1 : Nat)
    omega
  unfold Behind
  rw [heq]
  exact h

/-- The reading stands before a token of kind `k`. -/
def At (source : String) (b : List Token) (o : Nat) (bs : List (Block Unit)) (k : TokenKind)
    (s : State) : Prop :=
  s.Before source b o bs ∧ s.current.kind = k

theorem At.behind {k : TokenKind} (h : s.At source b o bs k) (hk : k.braces = 0) :
    s.Behind source b o bs :=
  h.1.behind (by rw [h.2, hk])

/-- The current token is passed by moving on, unless it is the end of the source. -/
theorem tokens_advance (hs : s.Ended) :
    (s.current.kind = .eof ∧ s.advance = s) ∨ s.tokens = s.current :: s.advance.tokens := by
  unfold tokens advance
  cases ha : s.ahead with
  | nil => exact .inl ⟨current_eof hs ha, rfl⟩
  | cons t ts => exact .inr rfl

theorem Behind.advance (h : s.Behind source b o bs) : s.advance.Before source b o bs := by
  obtain ⟨us, heq, hnest, hopen⟩ := h.passed
  rcases tokens_advance h.on.ended with ⟨hc, hadvance⟩ | htokens
  · rw [hadvance]
    rw [hc] at hopen
    refine ⟨h.on, ⟨us, heq, hnest, ?_⟩, h.placed⟩
    simpa [TokenKind.braces] using hopen
  · have hnonneg := leftOpen_nonneg_of_placed h.placed
    refine ⟨h.on.advance, ⟨us ++ [s.current], ?_, hnest.concat (by omega), ?_⟩, h.placed⟩
    · rw [heq, htokens, List.append_assoc, List.singleton_append]
    · rw [openBraces_append, openBraces_cons, openBraces_nil]
      omega

theorem Reached.advance (h : s.Reached source b) (hk : s.current.kind ≠ .rbrace) :
    s.advance.Reached source b := by
  obtain ⟨us, heq, hnest⟩ := h.passed
  rcases tokens_advance h.on.ended with ⟨-, hadvance⟩ | htokens
  · rw [hadvance]
    exact h
  · have hbraces := TokenKind.braces_nonneg hk
    have hus := hnest.nonneg
    refine ⟨h.on.advance, us ++ [s.current], ?_, hnest.concat (by omega)⟩
    rw [heq, htokens, List.append_assoc, List.singleton_append]

/-- What is skipped of a failed statement closes no brace. -/
theorem Reached.synchronize (h : s.Reached source b) : s.synchronize.Reached source b := by
  obtain ⟨current, ahead, diagnostics⟩ := s
  induction ahead generalizing current with
  | nil => exact h
  | cons t ts ih =>
    unfold State.synchronize skipStatement
    dsimp only
    split
    next => exact h
    next hgo =>
      -- a closing brace would have ended the skipping
      have hk : current.kind ≠ .rbrace := by
        intro hk
        rw [hk] at hgo
        exact hgo rfl
      exact ih t (h.advance hk)

end State

open State (Before Behind At Reached)

/-! ### Rules that keep count -/

/-- Where `P` holds, the rule leads to where `Q` holds of what it yields; or it fails, and has
closed no brace that was not opened since the beginning of `b`. -/
def Counts (source : String) (b : List Token) (P : State → Prop) (x : Rule α)
    (Q : α → State → Prop) : Prop :=
  ∀ s, P s → match x s with
    | .ok a t => Q a t
    | .error _ t => t.Reached source b

namespace Counts

variable {P P' : State → Prop} {Q Q' : α → State → Prop} {R : β → State → Prop} {x : Rule α}
  {f : α → Rule β} {k : TokenKind} {place : Place}

theorem ok (h : Counts source b P x Q) {a : α} (hs : P s) (hx : x s = .ok a t) : Q a t := by
  have hs := h s hs
  rw [hx] at hs
  exact hs

theorem error (h : Counts source b P x Q) {e : Failed} (hs : P s) (hx : x s = .error e t) :
    t.Reached source b := by
  have hs := h s hs
  rw [hx] at hs
  exact hs

theorem pure {a : α} (h : ∀ s, P s → Q a s) : Counts source b P (pure a) Q := h

theorem bind (hx : Counts source b P x Q) (hf : ∀ a, Counts source b (Q a) (f a) R) :
    Counts source b P (x >>= f) R := by
  intro s hs
  show match EStateM.bind x f s with
    | .ok a t => R a t
    | .error _ t => t.Reached source b
  unfold EStateM.bind
  cases hr : x s with
  | ok a t => exact hf a t (hx.ok hs hr)
  | error e t => exact hx.error hs hr

theorem pre (h : Counts source b P x Q) (hp : ∀ s, P' s → P s) : Counts source b P' x Q :=
  fun s hs => h s (hp s hs)

theorem post (h : Counts source b P x Q) (hq : ∀ a s, Q a s → Q' a s) : Counts source b P x Q' := by
  intro s hs
  cases hr : x s with
  | ok a t => exact hq a t (h.ok hs hr)
  | error e t => exact h.error hs hr

theorem ite {c : Prop} [Decidable c] {y : Rule α} (hx : Counts source b P x Q)
    (hy : Counts source b P y Q) : Counts source b P (if c then x else y) Q := by
  split
  · exact hx
  · exact hy

/-- What can be said before of the state can be said behind it, if a rule cannot make it wrong. -/
theorem frame {I : State → Prop} (h : Counts source b P x Q) (hx : Moves x)
    (hI : ∀ s t, s.Leads t → I s → I t) :
    Counts source b (fun s => P s ∧ I s) x (fun a s => Q a s ∧ I s) := by
  intro s hs
  cases hr : x s with
  | ok a t => exact ⟨h.ok hs.1 hr, hI s t (hx.ok hr) hs.2⟩
  | error e t => exact h.error hs.1 hr

/-- A fact that follows from where the rule starts. -/
theorem assume {c : Prop} (hc : ∀ s, P s → c) (h : c → Counts source b P x Q) :
    Counts source b P x Q :=
  fun s hs => h (hc s hs) s hs

/-! #### Steps -/

theorem current {f : Token → Rule β}
    (hf : ∀ t, Counts source b (fun s => P s ∧ s.current = t) (f t) R) :
    Counts source b P (current >>= f) R :=
  fun s hs => hf s.current s ⟨hs, rfl⟩

theorem spanFrom {n : Nat} {f : Span → Rule β} (hf : ∀ stop, Counts source b P (f ⟨n, stop⟩) R) :
    Counts source b P (spanFrom n >>= f) R :=
  fun s hs => hf s.current.span.stop s hs

theorem identifier {f : Ident → Rule β} (hf : ∀ name, Counts source b P (f name) R) :
    Counts source b P (identifier >>= f) R :=
  fun s hs => hf s.name s hs

theorem roundsLeft {f : Nat → Rule β}
    (hf : ∀ n, Counts source b (fun s => P s ∧ s.ahead.length ≤ n) (f n) R) :
    Counts source b P (roundsLeft >>= f) R :=
  fun s hs => hf s.ahead.length s ⟨hs, Nat.le_refl _⟩

theorem report (span : Span) (p : Problem) :
    Counts source b (Behind source b o bs) (report span p) fun _ => Behind source b o bs :=
  fun _ hs => ⟨hs.on, hs.passed, hs.placed⟩

theorem fail {span : Span} {p : Problem} (h : ∀ s, P s → s.Reached source b) :
    Counts source b P (fail span p : Rule α) Q :=
  fun s hs => ⟨(h s hs).on, (h s hs).passed⟩

theorem advance :
    Counts source b (Behind source b o bs) advance fun _ => Before source b o bs :=
  fun _ hs => hs.advance

/-- The reading moves on to a token that has to be there. -/
theorem arrive :
    Counts source b (Behind source b o bs) (expect k place) fun _ => At source b o bs k := by
  intro s hs
  by_cases hk : s.peek.kind = k
  · rw [expect_of_peek hk]
    exact ⟨hs.advance, by rw [s.advance_current, hk]⟩
  · rw [expect_of_not_peek hk]
    exact ⟨hs.on, hs.reached.passed⟩

theorem expect (hk : k.braces = 0) :
    Counts source b (Behind source b o bs) (expect k place) fun _ => Behind source b o bs :=
  arrive.post fun _ _ hs => hs.behind hk

theorem peekIs {f : Bool → Rule β} (hf : ∀ is, Counts source b P (f is) R) :
    Counts source b P (peekIs k >>= f) R :=
  fun s hs => hf (s.peek.is k) s hs

/-- The rule depends on whether the next token is of kind `k`; if it is, it moves on to it. -/
theorem branch {I : State → Prop} {y : Rule α} (hx : Counts source b I x Q)
    (hy : Counts source b P y Q) (hstep : ∀ s, P s → s.peek.kind = k → I s.advance) :
    Counts source b P
      (Parser.peekIs k >>= fun is => if is then Parser.advance >>= fun _ => x else y) Q := by
  intro s hs
  rw [peekIs_bind]
  by_cases hk : s.peek.kind = k
  · rw [if_pos ((is_eq_true _ _).2 hk), advance_bind]
    exact hx s.advance (hstep s hs hk)
  · rw [if_neg (mt (is_eq_true _ _).1 hk)]
    exact hy s hs

theorem ifNext {y : Rule α} (hx : Counts source b (At source b o bs k) x Q)
    (hy : Counts source b (Behind source b o bs) y Q) :
    Counts source b (Behind source b o bs)
      (Parser.peekIs k >>= fun is => if is then Parser.advance >>= fun _ => x else y) Q :=
  branch hx hy fun s hs hk => ⟨hs.advance, by rw [s.advance_current, hk]⟩

/-- The same for a condition on the kind of the next token. -/
theorem next {C : TokenKind → Prop} [DecidablePred C] {y : Rule α}
    (hx : Counts source b (fun s => s.Before source b o bs ∧ C s.current.kind) x Q)
    (hy : Counts source b (Behind source b o bs) y Q) :
    Counts source b (Behind source b o bs) ((get : Rule State) >>= fun s =>
      if C s.peek.kind then Parser.advance >>= fun _ => x else y) Q := by
  intro s hs
  rw [get_bind]
  by_cases hk : C s.peek.kind
  · rw [if_pos hk, advance_bind]
    exact hx s.advance ⟨hs.advance, by rw [s.advance_current]; exact hk⟩
  · rw [if_neg hk]
    exact hy s hs

/-- What has been read is all that the rule yields. -/
theorem done {a : α} {blocks : α → List (Block Unit)} {cs : List (Block Unit)}
    (h : cs = bs ++ blocks a) :
    Counts source b (Behind source b o cs) (Pure.pure a) fun a =>
      Behind source b o (bs ++ blocks a) :=
  .pure fun _ hs => h ▸ hs

theorem skip (hk : k.braces = 0) :
    Counts source b (Behind source b o bs) (skip k) fun _ => Behind source b o bs :=
  ifNext (.pure fun _ hs => hs.behind hk) (.pure fun _ hs => hs)

end Counts

/-- The rules count the braces of what they read, whatever was read before. -/
structure Rules.Count (source : String) (r : Rules) : Prop where
  statement : ∀ b o bs, Counts source b (Before source b o bs) r.statement fun x =>
    Behind source b o (bs ++ x.blocks)
  expression : ∀ floor b o bs, Counts source b (Before source b o bs) (r.expression floor) fun e =>
    Behind source b o (bs ++ e.blocks)
  conditional : ∀ b o bs, Counts source b (At source b o bs .ifKw) r.conditional fun e s =>
    s.Behind source b o (bs ++ e.blocks) ∧
      ∃ t ∈ lex source, t.kind = .ifKw ∧ t.span.start = e.span.start

end Parser

end Primer
