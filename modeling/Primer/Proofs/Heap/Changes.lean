/-
  Primer/Proofs/Heap/Changes.lean
  ===============================
  **What looking at a heap finds, and what changing it does.**

  Each operation on a heap is described once: what it can have done when it succeeds, with the
  guards that it passed (`declare_ok`, `assign_ok`, `write_ok`), where the value that it finds
  stands (`lookup_ok`, `read_written`, `read_assigned`), and what each elementary change leaves of
  the frames and of the entries that have been assigned.  Later proofs do not open the operations.
-/
import Mathlib.Logic.Relation
import Primer.Heap.Literal
import Primer.Heap.Scope

namespace Primer

/-! ### Tables and lists of entries -/

variable {α β : Type} {κ : Type} [DecidableEq κ]

namespace Table

theorem mem_of_get? {k : κ} {a : α} {t : Table κ α} (h : t.get? k = some a) : (k, a) ∈ t := by
  induction t with
  | nil => exact absurd h nofun
  | cons b t ih =>
    obtain ⟨j, b⟩ := b
    rw [get?] at h
    split at h
    next hj =>
      cases h
      rw [hj]
      exact List.mem_cons_self ..
    next => exact List.mem_cons_of_mem _ (ih h)

theorem mem_of_mem_set {k : κ} {a : α} {t : Table κ α} {b : κ × α} (h : b ∈ t.set k a) :
    b = (k, a) ∨ b ∈ t := by
  induction t with
  | nil => exact .inl (List.mem_singleton.1 h)
  | cons c t ih =>
    obtain ⟨j, c⟩ := c
    rw [set] at h
    split at h
    · rcases List.mem_cons.1 h with rfl | h
      · exact .inl rfl
      · exact .inr (List.mem_cons_of_mem _ h)
    · rcases List.mem_cons.1 h with rfl | h
      · exact .inr (List.mem_cons_self ..)
      · exact (ih h).imp_right (List.mem_cons_of_mem _)

end Table

theorem Property.mem_of_mem_put {ps : List (Property β)} {p q : Property β} (h : q ∈ put ps p) :
    q.value = p.value ∨ q ∈ ps := by
  induction ps with
  | nil =>
    rw [put, List.mem_singleton] at h
    exact .inl (h ▸ rfl)
  | cons r ps ih =>
    rw [put] at h
    split at h
    · rcases List.mem_cons.1 h with rfl | h
      · exact .inl rfl
      · exact .inr (List.mem_cons_of_mem _ h)
    · rcases List.mem_cons.1 h with rfl | h
      · exact .inr (List.mem_cons_self ..)
      · exact (ih h).imp_right (List.mem_cons_of_mem _)

theorem mem_of_mem_putSlot {slots : List (Option β)} {i : Nat} {fill x y : β}
    (h : some y ∈ putSlot slots i fill x) : y = x ∨ y = fill ∨ some y ∈ slots := by
  unfold putSlot at h
  split at h
  · rcases List.mem_or_eq_of_mem_set h with h | h
    · exact .inr (.inr h)
    · exact .inl (Option.some.inj h)
  · rcases List.mem_append.1 h with h | h
    · rcases List.mem_append.1 h with h | h
      · exact .inr (.inr h)
      · exact .inr (.inl (Option.some.inj (List.eq_of_mem_replicate h)))
    · exact .inl (Option.some.inj (List.mem_singleton.1 h))

theorem putSlot_map (φ : α → β) (slots : List (Option α)) (i : Nat) (fill x : α) :
    putSlot (slots.map (Option.map φ)) i (φ fill) (φ x) =
      (putSlot slots i fill x).map (Option.map φ) := by
  unfold putSlot
  rw [List.length_map]
  split
  · rw [List.map_set]
    rfl
  · simp only [List.map_append, List.map_replicate, List.map_cons, List.map_nil, Option.map_some]

/-! ### Frames -/

namespace Heap

variable {h h' : Heap} {f g : FrameId} {name n : String} {v : Value}

/-- What a frame owns after a name was given a value was there before, or is that name. -/
theorem mem_bindings_bindIn {f g : FrameId} {name : String} {v : Value} {b : String × Value}
    (hb : b ∈ (h.bindIn f name v).bindings g) : b = (name, v) ∨ b ∈ h.bindings g := by
  unfold bindIn bindings at hb
  rw [Array.getElem?_modify] at hb
  unfold bindings
  split at hb
  next hfg =>
    cases hfr : h.frames[g]? with
    | none =>
      rw [hfr] at hb
      exact .inr hb
    | some fr =>
      rw [hfr] at hb
      exact Table.mem_of_mem_set hb
  next => exact .inr hb

@[simp] theorem parent?_bindIn : (h.bindIn f name v).parent? g = h.parent? g := by
  unfold bindIn parent?
  rw [Array.getElem?_modify]
  split
  · cases h.frames[g]? <;> rfl
  · rfl

@[simp] theorem size_bindIn : (h.bindIn f name v).frames.size = h.frames.size := by
  simp [bindIn]

theorem frames_bindIn_of_ne (hne : f ≠ g) : (h.bindIn f name v).frames[g]? = h.frames[g]? := by
  simp [bindIn, Array.getElem?_modify, hne]

@[simp] theorem size_newFrame (parent : FrameId) :
    (h.newFrame parent).2.frames.size = h.frames.size + 1 := by
  simp [newFrame]

theorem frames_newFrame_of_lt {parent : FrameId} (hlt : g < h.frames.size) :
    (h.newFrame parent).2.frames[g]? = h.frames[g]? := by
  simp [newFrame, Array.getElem?_push, Nat.ne_of_lt hlt]

/-- A new frame owns nothing, as it did when it was not there. -/
@[simp] theorem bindings_newFrame (parent : FrameId) :
    (h.newFrame parent).2.bindings g = h.bindings g := by
  unfold newFrame bindings
  rw [Array.getElem?_push]
  split
  next hg => simp [hg]
  next => rfl

theorem parent?_newFrame (parent : FrameId) :
    (h.newFrame parent).2.parent? g = if g = h.frames.size then some parent else h.parent? g := by
  unfold newFrame parent?
  rw [Array.getElem?_push]
  split <;> rfl

theorem own?_bindIn (hf : f < h.frames.size) : (h.bindIn f name v).own? g n =
    if g = f ∧ n = name then some v else h.own? g n := by
  by_cases hg : g = f
  · subst hg
    have hframe : h.frames[g]? = some h.frames[g] := Array.getElem?_eq_getElem hf
    unfold own? bindings bindIn
    rw [Array.getElem?_modify, if_pos rfl, hframe]
    dsimp only [Option.map_some, Option.getD_some]
    by_cases hn : n = name
    · rw [if_pos ⟨rfl, hn⟩, hn, Table.get?_set_self]
    · rw [if_neg fun hand => hn hand.2, Table.get?_set_of_ne hn]
  · rw [if_neg fun hand => hg hand.1]
    unfold own? bindings
    rw [frames_bindIn_of_ne (Ne.symm hg)]

theorem own?_newFrame (parent : FrameId) : (h.newFrame parent).2.own? g n = h.own? g n := by
  unfold own?
  rw [bindings_newFrame]

theorem own?_of_size_le (hg : h.frames.size ≤ g) : h.own? g n = none := by
  unfold own? bindings
  rw [Array.getElem?_eq_none hg]
  rfl

/-- The chain of a frame leads outward from it. -/
theorem mem_chain (hg : g ∈ h.chain f) :
    Relation.ReflTransGen (fun a b => h.parent? a = some b) f g := by
  induction f using Nat.strongRecOn with
  | ind f ih =>
    rw [chain] at hg
    split at hg
    next p hp =>
      split at hg
      next hlt =>
        rcases List.mem_cons.1 hg with rfl | hg
        · exact .refl
        · exact .head hp (ih p hlt hg)
      next => exact List.mem_singleton.1 hg ▸ .refl
    next => exact List.mem_singleton.1 hg ▸ .refl

theorem declare_ok (heq : h.declare f name v = .ok h') :
    h.owns f name = false ∧ h' = h.bindIn f name v := by
  unfold declare at heq
  split at heq
  next => cases heq
  next howns =>
    cases heq
    exact ⟨Bool.eq_false_iff.2 howns, rfl⟩

theorem assign_ok (heq : h.assign f name v = .ok h') :
    ∃ g ∈ h.chain f, h.owns g name = true ∧ h' = h.bindIn g name v := by
  unfold assign at heq
  split at heq
  next g hg =>
    cases heq
    have howns := List.find?_some (p := fun g => h.owns g name) hg
    exact ⟨g, List.mem_of_find?_eq_some hg, howns, rfl⟩
  next => cases heq

theorem lookup_ok (heq : h.lookup f name = .ok v) :
    ∃ g ∈ h.chain f, (name, v) ∈ h.bindings g := by
  unfold lookup at heq
  split at heq
  next w hw =>
    cases heq
    obtain ⟨g, hg, hown⟩ := Option.bind_eq_some_iff.1 hw
    exact ⟨g, List.mem_of_find?_eq_some hg, Table.mem_of_get? hown⟩
  next => cases heq

/-! ### Entries of literals -/

variable {c k : Value} {a : Assigned} {span keySpan : Span}

theorem write_ok (heq : h.write c k a span keySpan = .ok h') :
    (∃ label written key, c = .object label written ∧ k = .string key ∧
      h' = h.setProperty label ⟨span, ⟨keySpan, key⟩, a⟩) ∨
    ∃ label written i, c = .array label written ∧ k = .integer i ∧ 0 ≤ i ∧
      i.toNat ≤ (h.arraySlots label written).length + maxPadding ∧
      h' = h.setElement label written i.toNat a := by
  unfold write at heq
  dsimp only at heq
  split at heq
  next label written key =>
    cases heq
    exact .inl ⟨label, written, key, rfl, rfl, rfl⟩
  next => cases heq
  next label written i =>
    split at heq
    next => cases heq
    next hi =>
      split at heq
      next => cases heq
      next hlength =>
        cases heq
        exact .inr ⟨label, written, i, rfl, rfl, Int.not_lt.1 hi, Nat.not_lt.1 hlength, rfl⟩
  next => cases heq
  next => cases heq

/-- An entry that is read as it was written has not been assigned. -/
theorem read_written {e : Expr Label} (heq : h.read c k = .ok (some (.written e))) :
    (∃ label written key p, c = .object label written ∧
      Property.find? written key = some p ∧ p.expr = e ∧
      Property.find? (h.assignedProperties label) key = none) ∨
    ∃ (label : Label) (written : List (Expr Label)) (i : Nat), c = .array label written ∧
      written[i]? = some e ∧ (h.arraySlots label written)[i]? = some none := by
  unfold read at heq
  split at heq
  next label written key =>
    unfold property? at heq
    split at heq
    next => cases heq
    next hassigned =>
      obtain ⟨p, hp, he⟩ := Option.map_eq_some_iff.1 (Except.ok.inj heq)
      cases he
      exact .inl ⟨label, written, key, p, rfl, hp, rfl, hassigned⟩
  next => cases heq
  next label written i =>
    split at heq
    next =>
      unfold element? at heq
      split at heq
      next => cases heq
      next hslot =>
        obtain ⟨e', he', he⟩ := Option.map_eq_some_iff.1 (Except.ok.inj heq)
        cases he
        exact .inr ⟨label, written, i.toNat, rfl, he', hslot⟩
      next => cases heq
    next => cases heq
  next => cases heq
  next => cases heq

theorem read_assigned (heq : h.read c k = .ok (some (.assigned v))) :
    (∃ label written p, c = .object label written ∧ p ∈ h.assignedProperties label ∧
      p.value.value = v) ∨
    ∃ label written a, c = .array label written ∧ some a ∈ h.arraySlots label written ∧
      a.value = v := by
  unfold read at heq
  split at heq
  next label written key =>
    unfold property? at heq
    split at heq
    next p hp =>
      cases heq
      exact .inl ⟨label, written, p, rfl, List.mem_of_find?_eq_some hp, rfl⟩
    next =>
      obtain ⟨p, -, hp⟩ := Option.map_eq_some_iff.1 (Except.ok.inj heq)
      cases hp
  next => cases heq
  next label written i =>
    split at heq
    next =>
      unfold element? at heq
      split at heq
      next a ha =>
        cases heq
        exact .inr ⟨label, written, a, rfl, List.mem_of_getElem? ha, rfl⟩
      next =>
        obtain ⟨e, -, he⟩ := Option.map_eq_some_iff.1 (Except.ok.inj heq)
        cases he
      next => cases heq
    next => cases heq
  next => cases heq
  next => cases heq

variable {label : Label}

theorem properties_setProperty_of_ne {l : Label} (hne : l ≠ label) (p : Property Assigned) :
    (h.setProperty label p).properties.get? l = h.properties.get? l := by
  simp [setProperty, Table.get?_set_of_ne hne]

theorem assignedProperties_setProperty (p : Property Assigned) :
    (h.setProperty label p).assignedProperties label =
      Property.put (h.assignedProperties label) p := by
  simp [setProperty, assignedProperties]

theorem slots_setElement_of_ne {l : Label} (hne : l ≠ label) (written : List (Expr Label))
    (i : Nat) :
    (h.setElement label written i a).slots.get? l = h.slots.get? l := by
  simp [setElement, Table.get?_set_of_ne hne]

theorem slots_setElement (written : List (Expr Label)) (i : Nat) :
    (h.setElement label written i a).slots.get? label =
      some (putSlot (h.arraySlots label written) i ⟨a.span, .undefined⟩ a) := by
  simp [setElement]

end Heap

end Primer
