/-
  Primer/Proofs/Heap/Resolution.lean
  ==================================
  **Which frame decides what a name stands for.**

  A name is resolved in the nearest frame that owns it, going outward from the frame at hand.  This
  is said here without the functions that compute it: `Passes` leads outward past frames that do not
  own the name, and `Resolves` ends at one that does.  In a heap that was made by creating frames,
  declaring names and assigning to them (`Built`), each frame stands inside an older one, so the
  chain that is computed is the whole chain (`chain_eq`) and the owner that is found is the nearest
  (`owner?_eq_some_iff`).

  From there the laws of scopes follow: an assignment is seen from exactly the frames that resolve
  the name to the same owner, a declaration from exactly those that come to its frame before they
  come to an owner, and an operation that fails changes nothing (`scope_laws`).
-/
import Mathlib.Logic.Relation
import Primer.Eval.Basic
import Primer.Proofs.Heap.Changes

namespace Primer

namespace Heap

variable {h h' : Heap} {f g p : FrameId} {x y : String} {v w : Value}

/-! ### Going outward -/

/-- The second frame is the first, or stands around it. -/
def OnChain (h : Heap) : FrameId → FrameId → Prop :=
  Relation.ReflTransGen fun a b => h.parent? a = some b

/-- From the first frame one comes outward to the second, past frames that do not own the name. -/
def Passes (h : Heap) (x : String) : FrameId → FrameId → Prop :=
  Relation.ReflTransGen fun a b => h.owns a x = false ∧ h.parent? a = some b

/-- The second frame is the nearest on the chain of the first that owns the name. -/
def Resolves (h : Heap) (x : String) (f g : FrameId) : Prop :=
  h.Passes x f g ∧ h.owns g x = true

/-! ### Heaps that are made by operations on frames -/

/-- One operation on the frames of a heap. -/
inductive ScopeStep : Heap → Heap → Prop where
  | root (h : Heap) : ScopeStep h { h with frames := h.frames.push ⟨[], none⟩ }
  | newFrame {h : Heap} {p : FrameId} (hp : p < h.frames.size) : ScopeStep h (h.newFrame p).2
  | declare {h h' : Heap} {f : FrameId} {x : String} {v : Value} (hf : f < h.frames.size)
      (heq : h.declare f x v = .ok h') : ScopeStep h h'
  | assign {h h' : Heap} {f : FrameId} {x : String} {v : Value} (hf : f < h.frames.size)
      (heq : h.assign f x v = .ok h') : ScopeStep h h'

/-- The frames of the heap were made by such operations, from none at all. -/
def Built (h : Heap) : Prop :=
  ∃ start : Heap, start.frames = #[] ∧ Relation.ReflTransGen ScopeStep start h

/-- Every frame stands inside an older one, or inside none. -/
def Older (h : Heap) : Prop := ∀ f p, h.parent? f = some p → p < f

theorem Older.congr (hold : h.Older) (hparent : ∀ f, h'.parent? f = h.parent? f) : h'.Older := by
  intro f p hp
  rw [hparent] at hp
  exact hold f p hp

theorem ScopeStep.older (hstep : ScopeStep h h') (hold : h.Older) : h'.Older := by
  cases hstep with
  | root =>
    intro f p hp
    refine hold f p ?_
    unfold parent? at hp ⊢
    rw [Array.getElem?_push] at hp
    split at hp
    · exact absurd hp nofun
    · exact hp
  | newFrame hlt =>
    intro f p hp
    rw [parent?_newFrame] at hp
    split at hp
    next hf =>
      obtain rfl := Option.some.inj hp
      rw [hf]
      exact hlt
    next => exact hold f p hp
  | declare _ heq =>
    obtain ⟨-, rfl⟩ := declare_ok heq
    exact hold.congr fun _ => parent?_bindIn
  | assign _ heq =>
    obtain ⟨g, -, -, rfl⟩ := assign_ok heq
    exact hold.congr fun _ => parent?_bindIn

theorem Built.older (hbuilt : h.Built) : h.Older := by
  obtain ⟨start, hstart, hsteps⟩ := hbuilt
  induction hsteps with
  | refl =>
    intro f p hp
    simp [parent?, hstart] at hp
  | tail _ hstep ih => exact hstep.older ih

/-! ### The owner that is found is the nearest -/

theorem chain_eq (hold : h.Older) (f : FrameId) :
    h.chain f = f :: ((h.parent? f).map h.chain).getD [] := by
  rw [chain]
  split
  next p hp => rw [if_pos (hold f p hp), hp, Option.map_some, Option.getD_some]
  next hp => rw [hp, Option.map_none, Option.getD_none]

theorem owner?_eq (hold : h.Older) (f : FrameId) (x : String) :
    h.owner? f x = if h.owns f x then some f else (h.parent? f).bind (h.owner? · x) := by
  unfold owner?
  rw [chain_eq hold, List.find?_cons]
  cases h.owns f x with
  | true => rfl
  | false => cases h.parent? f <;> rfl

theorem owner?_eq_some_iff (hold : h.Older) : h.owner? f x = some g ↔ h.Resolves x f g := by
  constructor
  · intro hg
    -- by induction on the number of the frame: its parent has a smaller one
    induction f using Nat.strongRecOn with
    | ind f ih =>
      rw [owner?_eq hold] at hg
      split at hg
      next howns =>
        obtain rfl := Option.some.inj hg
        exact ⟨.refl, howns⟩
      next hnot =>
        obtain ⟨p, hp, hg⟩ := Option.bind_eq_some_iff.1 hg
        obtain ⟨hpasses, howns⟩ := ih p (hold f p hp) hg
        exact ⟨.head ⟨Bool.eq_false_iff.2 hnot, hp⟩ hpasses, howns⟩
  · rintro ⟨hpasses, howns⟩
    induction hpasses using Relation.ReflTransGen.head_induction_on with
    | refl => rw [owner?_eq hold, if_pos howns]
    | @head a b hstep _ ih =>
      rw [owner?_eq hold, if_neg (Bool.eq_false_iff.1 hstep.1), hstep.2, Option.bind_some, ih]

/-- An owner anywhere on the chain means that there is a nearest one. -/
theorem exists_resolves_iff :
    (∃ g, h.Resolves x f g) ↔ ∃ g, h.OnChain f g ∧ h.owns g x = true := by
  constructor
  · rintro ⟨g, hpasses, howns⟩
    exact ⟨g, Relation.ReflTransGen.mono (fun _ _ hstep => hstep.2) _ _ hpasses, howns⟩
  · rintro ⟨g, hchain, howns⟩
    induction hchain using Relation.ReflTransGen.head_induction_on with
    | refl => exact ⟨g, .refl, howns⟩
    | @head a b hstep _ ih =>
      -- the nearest owner is `a` itself, or the one that is nearest from its parent
      obtain ⟨k, hpasses, hk⟩ := ih
      cases ha : h.owns a x with
      | true => exact ⟨a, .refl, ha⟩
      | false => exact ⟨k, .head ⟨ha, hstep⟩ hpasses, hk⟩

theorem owner?_eq_none_iff (hold : h.Older) :
    h.owner? f x = none ↔ ¬∃ g, h.OnChain f g ∧ h.owns g x = true := by
  rw [← exists_resolves_iff, Option.eq_none_iff_forall_not_mem]
  simp only [Option.mem_def, owner?_eq_some_iff hold, not_exists]

theorem Resolves.unique (hold : h.Older) (hg : h.Resolves x f g) (hp : h.Resolves x f p) :
    g = p := by
  rw [← owner?_eq_some_iff hold] at hg hp
  exact Option.some.inj (hg.symm.trans hp)

/-! ### Looking up, assigning and declaring -/

theorem lookup_of_owner (hown : h.owner? f x = some g) (hvalue : h.own? g x = some w) :
    h.lookup f x = .ok w := by
  unfold lookup
  rw [hown, Option.bind_some, hvalue]

theorem lookup_of_no_owner (hown : h.owner? f x = none) :
    h.lookup f x = .error (.unresolved x) := by
  unfold lookup
  rw [hown]
  rfl

/-- What is found depends on the owner and on its value only. -/
theorem lookup_congr (howner : h'.owner? f x = h.owner? f x)
    (hvalue : ∀ g, h.owner? f x = some g → h'.own? g x = h.own? g x) :
    h'.lookup f x = h.lookup f x := by
  unfold lookup
  rw [howner]
  cases hg : h.owner? f x with
  | none => rfl
  | some g => rw [Option.bind_some, Option.bind_some, hvalue g hg]

theorem lt_size_of_owns (howns : h.owns f x = true) : f < h.frames.size := by
  refine Nat.lt_of_not_le fun hf => ?_
  unfold owns at howns
  rw [own?_of_size_le hf] at howns
  exact Bool.false_ne_true howns

theorem owns_bindIn_iff (hf : f < h.frames.size) :
    (h.bindIn f x v).owns g y = true ↔ (g = f ∧ y = x) ∨ h.owns g y = true := by
  unfold owns
  rw [own?_bindIn hf]
  split
  next heq => simp [heq]
  next hne => simp [hne]

/-- The chain is the same where the frames on it stand inside the same frames. -/
theorem chain_congr (hparent : ∀ g, g ≤ f → h'.parent? g = h.parent? g) :
    h'.chain f = h.chain f := by
  induction f using Nat.strongRecOn with
  | ind f ih =>
    rw [chain, chain, hparent f (Nat.le_refl f)]
    split
    next p hp =>
      split
      next hlt => rw [ih p hlt fun g hg => hparent g (Nat.le_trans hg (Nat.le_of_lt hlt))]
      next => rfl
    next => rfl

/-- A name of which the frames on the way are the same owners is resolved as before. -/
theorem owner?_congr (hparent : ∀ f, h'.parent? f = h.parent? f)
    (howns : ∀ f, h'.owns f x = h.owns f x) : h'.owner? f x = h.owner? f x := by
  unfold owner?
  rw [chain_congr fun g _ => hparent g, funext howns]

/-- Giving one name a value has no effect on others. -/
theorem lookup_bindIn_of_ne (hf : f < h.frames.size) (hne : y ≠ x) (g : FrameId) :
    (h.bindIn f x v).lookup g y = h.lookup g y := by
  have hown (k : FrameId) : (h.bindIn f x v).own? k y = h.own? k y := by
    rw [own?_bindIn hf, if_neg fun heq => hne heq.2]
  refine lookup_congr (owner?_congr (fun _ => parent?_bindIn) fun k => ?_) fun k _ => hown k
  unfold owns
  rw [hown]

/-- A frame that owns the name already gives it another value: owners stay as they are. -/
theorem owns_bindIn_of_owns (howns : h.owns f x = true) :
    (h.bindIn f x v).owns g y = h.owns g y := by
  rw [Bool.eq_iff_iff, owns_bindIn_iff (lt_size_of_owns howns), or_iff_right_iff_imp]
  rintro ⟨rfl, rfl⟩
  exact howns

theorem owner?_bindIn_of_owns (howns : h.owns f x = true) :
    (h.bindIn f x v).owner? g y = h.owner? g y :=
  owner?_congr (fun _ => parent?_bindIn) fun _ => owns_bindIn_of_owns howns

theorem lookup_bindIn_of_owns (hold : h.Older) (howns : h.owns f x = true) (g : FrameId) :
    (h.Resolves x g f → (h.bindIn f x v).lookup g x = .ok v) ∧
      (¬h.Resolves x g f → (h.bindIn f x v).lookup g x = h.lookup g x) := by
  have hf := lt_size_of_owns howns
  constructor
  · intro hg
    have howner := (owner?_bindIn_of_owns (v := v) howns).trans ((owner?_eq_some_iff hold).2 hg)
    refine lookup_of_owner howner ?_
    rw [own?_bindIn hf, if_pos ⟨rfl, rfl⟩]
  · intro hg
    refine lookup_congr (owner?_bindIn_of_owns howns) fun k hk => ?_
    rw [own?_bindIn hf, if_neg]
    rintro ⟨rfl, -⟩
    exact hg ((owner?_eq_some_iff hold).1 hk)

/-- A frame that did not own the name becomes an owner: for those who come to it before they come
to another. -/
theorem resolves_bindIn (hf : f < h.frames.size) (hpasses : h.Passes x g f) :
    (h.bindIn f x v).Resolves x g f := by
  have hnew : (h.bindIn f x v).owns f x = true := (owns_bindIn_iff hf).2 (.inl ⟨rfl, rfl⟩)
  induction hpasses using Relation.ReflTransGen.head_induction_on with
  | refl => exact ⟨.refl, hnew⟩
  | @head a b hstep _ ih =>
    by_cases ha : a = f
    · subst ha
      exact ⟨.refl, hnew⟩
    · have hnot : (h.bindIn f x v).owns a x = false := by
        rw [← Bool.not_eq_true, owns_bindIn_iff hf, hstep.1]
        exact fun hor => hor.elim (fun heq => ha heq.1) Bool.false_ne_true
      exact ⟨.head ⟨hnot, parent?_bindIn.trans hstep.2⟩ ih.1, ih.2⟩

theorem owner?_bindIn_of_not_passes (hold : h.Older) (hf : f < h.frames.size)
    (hpasses : ¬h.Passes x g f) : (h.bindIn f x v).owner? g x = h.owner? g x := by
  have hold' : (h.bindIn f x v).Older := hold.congr fun _ => parent?_bindIn
  induction g using Nat.strongRecOn with
  | ind g ih =>
    have hne : g ≠ f := fun heq => hpasses (heq ▸ .refl)
    have howns : (h.bindIn f x v).owns g x = h.owns g x := by
      rw [Bool.eq_iff_iff, owns_bindIn_iff hf, or_iff_right fun heq => hne heq.1]
    rw [owner?_eq hold', owner?_eq hold, howns, parent?_bindIn]
    split
    next => rfl
    next hnot =>
      cases hp : h.parent? g with
      | none => rfl
      | some p =>
        rw [Option.bind_some, Option.bind_some]
        exact ih p (hold g p hp) fun hrest => hpasses (.head ⟨Bool.eq_false_iff.2 hnot, hp⟩ hrest)

theorem lookup_bindIn_of_not_owns (hold : h.Older) (hf : f < h.frames.size)
    (hnot : h.owns f x = false) (g : FrameId) :
    (h.Passes x g f → (h.bindIn f x v).lookup g x = .ok v) ∧
      (¬h.Passes x g f → (h.bindIn f x v).lookup g x = h.lookup g x) := by
  have hold' : (h.bindIn f x v).Older := hold.congr fun _ => parent?_bindIn
  constructor
  · intro hg
    refine lookup_of_owner ((owner?_eq_some_iff hold').2 (resolves_bindIn hf hg)) ?_
    rw [own?_bindIn hf, if_pos ⟨rfl, rfl⟩]
  · intro hg
    refine lookup_congr (owner?_bindIn_of_not_passes hold hf hg) fun k hk => ?_
    rw [own?_bindIn hf, if_neg]
    rintro ⟨rfl, -⟩
    have howns := ((owner?_eq_some_iff hold).1 hk).2
    rw [hnot] at howns
    exact Bool.false_ne_true howns

/-- Assigning to a name that some frame on the chain owns gives it a value in the nearest one. -/
theorem assign_of_resolves (hold : h.Older) (hg : h.Resolves x f g) :
    h.assign f x v = .ok (h.bindIn g x v) := by
  unfold assign
  rw [(owner?_eq_some_iff hold).2 hg]

theorem assign_of_no_owner (hnone : h.owner? f x = none) :
    h.assign f x v = .error (.unresolved x) := by
  unfold assign
  rw [hnone]

theorem exists_lookup_of_resolves (hold : h.Older) (hg : h.Resolves x f g) :
    ∃ w, h.own? g x = some w ∧ h.lookup f x = .ok w := by
  obtain ⟨w, hw⟩ := Option.isSome_iff_exists.1 hg.2
  exact ⟨w, hw, lookup_of_owner ((owner?_eq_some_iff hold).2 hg) hw⟩

end Heap

/-! ### The same as computations -/

namespace Eval

variable {s : Eval.State} {g : Heap → Except RuntimeError Heap} {cause : RuntimeError}

theorem look_of_ok {α : Type} {find : Heap → Except RuntimeError α} {a : α}
    (heq : find s.heap = .ok a) : look find s = .ok a s := by
  unfold look
  rw [heq]

theorem look_of_error {α : Type} {find : Heap → Except RuntimeError α}
    (heq : find s.heap = .error cause) : look find s = .error (.error cause) s := by
  unfold look
  rw [heq]

theorem change_of_ok {heap : Heap} (heq : g s.heap = .ok heap) :
    change g s = .ok () { s with heap } := by
  unfold change
  dsimp only
  rw [heq]

theorem change_of_error (heq : g s.heap = .error cause) :
    change g s = .error (.error cause) s := by
  unfold change
  dsimp only
  rw [heq]

/-- A change and the value that is its result, as in `declare` and `assign`. -/
theorem change_pure_of_ok {heap : Heap} {v : Value} (heq : g s.heap = .ok heap) :
    (change g >>= fun _ => pure v) s = .ok v { s with heap } := by
  show EStateM.bind (change g) _ s = _
  unfold EStateM.bind
  rw [change_of_ok heq]
  rfl

theorem change_pure_of_error {v : Value} (heq : g s.heap = .error cause) :
    (change g >>= fun _ => pure v) s = .error (.error cause) s := by
  show EStateM.bind (change g) _ s = _
  unfold EStateM.bind
  rw [change_of_error heq]

end Eval

/-! ### The laws of scopes -/

open Heap

/-- **The laws of scopes.**  Let the frames of a heap be made by creating frames, declaring names
and assigning to them, in any order.

Looking a name up from a frame, and assigning to it, succeed if and only if some frame on the chain
owns the name; both then act on the nearest such frame, and on nothing else.  After an assignment
the name has the new value for every frame that resolves it to that owner, and its old one for every
other frame; other names, and the names that frames own, are as before.

Declaring a name in a frame succeeds if and only if that frame itself does not own the name.  It
then has the new value for every frame that comes outward to this one before it comes to an owner,
and its old one for every other frame; other names are as before, and the one frame has one name
more.

An operation that fails changes nothing. -/
theorem scope_laws {s : Eval.State} (hbuilt : s.heap.Built) {f : FrameId}
    (hf : f < s.heap.frames.size) (x : String) (v : Value) :
    -- looking up
    ((∃ g, s.heap.OnChain f g ∧ s.heap.owns g x = true) →
      ∃ g w, s.heap.Resolves x f g ∧ s.heap.own? g x = some w ∧ Eval.lookup f x s = .ok w s) ∧
    ((¬∃ g, s.heap.OnChain f g ∧ s.heap.owns g x = true) →
      Eval.lookup f x s = .error (.error (.unresolved x)) s) ∧
    -- assigning
    ((∃ g, s.heap.OnChain f g ∧ s.heap.owns g x = true) →
      ∃ g t, s.heap.Resolves x f g ∧ Eval.assign f x v s = .ok v t ∧
        (∀ k y, t.heap.own? k y = if k = g ∧ y = x then some v else s.heap.own? k y) ∧
        (∀ k, s.heap.Resolves x k g → t.heap.lookup k x = .ok v) ∧
        (∀ k, ¬s.heap.Resolves x k g → t.heap.lookup k x = s.heap.lookup k x) ∧
        (∀ k y, y ≠ x → t.heap.lookup k y = s.heap.lookup k y) ∧
        ∀ k y, t.heap.owns k y = s.heap.owns k y) ∧
    ((¬∃ g, s.heap.OnChain f g ∧ s.heap.owns g x = true) →
      Eval.assign f x v s = .error (.error (.unresolved x)) s) ∧
    -- declaring
    (s.heap.owns f x = false →
      ∃ t, Eval.declare f x v s = .ok v t ∧
        (∀ k, s.heap.Passes x k f → t.heap.lookup k x = .ok v) ∧
        (∀ k, ¬s.heap.Passes x k f → t.heap.lookup k x = s.heap.lookup k x) ∧
        (∀ k y, y ≠ x → t.heap.lookup k y = s.heap.lookup k y) ∧
        ∀ k y, t.heap.owns k y = true ↔ (k = f ∧ y = x) ∨ s.heap.owns k y = true) ∧
    (s.heap.owns f x = true → Eval.declare f x v s = .error (.error (.redeclared x)) s) := by
  have hold := hbuilt.older
  refine ⟨fun hex => ?_, fun hnone => ?_, fun hex => ?_, fun hnone => ?_, fun hnot => ?_,
    fun howns => ?_⟩
  · obtain ⟨g, hg⟩ := exists_resolves_iff.2 hex
    obtain ⟨w, hw, hlookup⟩ := exists_lookup_of_resolves hold hg
    exact ⟨g, w, hg, hw, Eval.look_of_ok hlookup⟩
  · rw [← owner?_eq_none_iff hold] at hnone
    exact Eval.look_of_error (lookup_of_no_owner hnone)
  · obtain ⟨g, hg⟩ := exists_resolves_iff.2 hex
    have hlt := lt_size_of_owns hg.2
    exact ⟨g, _, hg, Eval.change_pure_of_ok (assign_of_resolves hold hg),
      fun k y => own?_bindIn hlt,
      fun k => (lookup_bindIn_of_owns hold hg.2 k).1,
      fun k => (lookup_bindIn_of_owns hold hg.2 k).2,
      fun k y hne => lookup_bindIn_of_ne hlt hne k,
      fun k y => owns_bindIn_of_owns hg.2⟩
  · rw [← owner?_eq_none_iff hold] at hnone
    exact Eval.change_pure_of_error (assign_of_no_owner hnone)
  · have hdeclare : s.heap.declare f x v = .ok (s.heap.bindIn f x v) :=
      if_neg (Bool.eq_false_iff.1 hnot)
    exact ⟨_, Eval.change_pure_of_ok hdeclare,
      fun k => (lookup_bindIn_of_not_owns hold hf hnot k).1,
      fun k => (lookup_bindIn_of_not_owns hold hf hnot k).2,
      fun k y hne => lookup_bindIn_of_ne hf hne k,
      fun k y => owns_bindIn_iff hf⟩
  · have hdeclare : s.heap.declare f x v = .error (.redeclared x) := if_pos howns
    exact Eval.change_pure_of_error hdeclare

/-- Three frames inside one another, of which the outermost and the middle one own `x`. -/
def shadowed : Heap :=
  ⟨#[⟨[("x", .integer 1)], none⟩, ⟨[("x", .integer 2)], some 0⟩, ⟨[], some 1⟩], [], [], 0⟩

theorem shadowed_built : shadowed.Built := by
  have hroot := ScopeStep.root ⟨#[], [], [], 0⟩
  have houter : ScopeStep ⟨#[⟨[], none⟩], [], [], 0⟩
      ⟨#[⟨[("x", .integer 1)], none⟩], [], [], 0⟩ :=
    .declare (f := 0) (x := "x") (v := .integer 1) Nat.zero_lt_one rfl
  have hmiddle : ScopeStep ⟨#[⟨[("x", .integer 1)], none⟩, ⟨[], some 0⟩], [], [], 0⟩
      ⟨#[⟨[("x", .integer 1)], none⟩, ⟨[("x", .integer 2)], some 0⟩], [], [], 0⟩ :=
    .declare (f := 1) (x := "x") (v := .integer 2) Nat.one_lt_two rfl
  have hframe := (Relation.ReflTransGen.single hroot).tail houter
  have hinner := (hframe.tail (.newFrame (p := 0) Nat.zero_lt_one)).tail hmiddle
  exact ⟨_, rfl, hinner.tail (.newFrame (p := 1) Nat.one_lt_two)⟩

/-- An assignment from the innermost frame is seen there, and not from the outermost. -/
theorem scope_laws_shadowed :
    shadowed.Built ∧ 2 < shadowed.frames.size ∧ shadowed.Resolves "x" 2 1 ∧
    ∃ t, Eval.assign 2 "x" (.integer 5) ⟨shadowed, 0⟩ = .ok (.integer 5) t ∧
      t.heap.lookup 2 "x" = .ok (.integer 5) ∧
      t.heap.lookup 0 "x" = shadowed.lookup 0 "x" := by
  have hold := shadowed_built.older
  have hinner : shadowed.Resolves "x" 2 1 := ⟨.single ⟨rfl, rfl⟩, rfl⟩
  have houter : ¬shadowed.Resolves "x" 0 1 := fun hg =>
    absurd (hg.unique hold ⟨.refl, rfl⟩) Nat.one_ne_zero
  obtain ⟨-, -, hassign, -⟩ := scope_laws (s := ⟨shadowed, 0⟩) shadowed_built (f := 2)
    (by decide) "x" (.integer 5)
  obtain ⟨g, t, hg, heq, -, hseen, hother, -⟩ := hassign (exists_resolves_iff.1 ⟨1, hinner⟩)
  obtain rfl := hg.unique hold hinner
  exact ⟨shadowed_built, by decide, hinner, t, heq, hseen 2 hinner, hother 0 houter⟩

end Primer
