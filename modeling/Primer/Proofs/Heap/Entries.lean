/-
  Primer/Proofs/Heap/Entries.lean
  ===============================
  **The entries of a literal as they are now.**

  What was written in a literal and what has been assigned to it are kept apart.  Together they are
  one list, in which every assigned entry stands in the place of the written one of the same key or
  index, or behind all others (`Heap.objectCells`, `Heap.arrayCells`).  An assignment changes this
  list in one way only (`Grown`): entries keep their places and their keys, one that is no longer as
  it was has been assigned, and so has every new one.
-/
import Mathlib.Data.List.Forall2
import Primer.Proofs.Heap.Changes

namespace Primer

variable {α β : Type}

/-- What stands at an entry: what was written there, or what has been assigned to it. -/
inductive Cell (β : Type) where
  | written (entry : β)
  | assigned (a : Assigned)

namespace Cell

def IsAssigned : Cell β → Prop
  | .written _ => False
  | .assigned _ => True

/-- The entry is as it was, or has been assigned. -/
def Kept (c d : Cell β) : Prop := d = c ∨ d.IsAssigned

theorem Kept.refl (c : Cell β) : c.Kept c := .inl rfl

theorem Kept.trans {c d e : Cell β} (h : c.Kept d) (h' : d.Kept e) : c.Kept e := by
  rcases h' with rfl | h'
  · exact h
  · exact .inr h'

theorem Kept.isAssigned {c d : Cell β} (h : c.Kept d) (hc : c.IsAssigned) : d.IsAssigned := by
  rcases h with rfl | h
  · exact hc
  · exact h

end Cell

/-- The entry has its key, and its value is as it was or has been assigned. -/
structure Property.Kept (p q : Property (Cell β)) : Prop where
  span : q.span = p.span
  key : q.key = p.key
  value : p.value.Kept q.value

theorem Property.Kept.refl (p : Property (Cell β)) : p.Kept p := ⟨rfl, rfl, .refl _⟩

theorem Property.Kept.trans {p q r : Property (Cell β)} (h : p.Kept q) (h' : q.Kept r) :
    p.Kept r :=
  ⟨h'.span.trans h.span, h'.key.trans h.key, h.value.trans h'.value⟩

/-! ### Lists that grow -/

/-- The second list has every element of the first in its place, related by `kept`, and behind
these only elements that are as `new` says. -/
structure Grown (kept : α → α → Prop) (new : α → Prop) (xs ys : List α) : Prop where
  old : ∀ (i : Nat) a, xs[i]? = some a → ∃ b, ys[i]? = some b ∧ kept a b
  fresh : ∀ (i : Nat) b, xs[i]? = none → ys[i]? = some b → new b

namespace Grown

variable {kept : α → α → Prop} {new : α → Prop} {xs ys zs : List α}

theorem nil (h : ∀ b ∈ ys, new b) : Grown kept new [] ys := by
  constructor
  · intro i a ha
    simp at ha
  · intro i b _ hb
    exact h b (List.mem_of_getElem? hb)

theorem cons {a b : α} (hab : kept a b) (h : Grown kept new xs ys) :
    Grown kept new (a :: xs) (b :: ys) := by
  constructor
  · intro i c hc
    cases i with
    | zero =>
      simp only [List.getElem?_cons_zero, Option.some.injEq] at hc
      subst hc
      exact ⟨b, rfl, hab⟩
    | succ i => exact h.old i c hc
  · intro i c hc hc'
    cases i with
    | zero => simp at hc
    | succ i => exact h.fresh i c hc hc'

theorem of_forall₂ (h : List.Forall₂ kept xs ys) : Grown kept new xs ys := by
  induction h with
  | nil => exact nil nofun
  | cons hab _ ih => exact ih.cons hab

theorem refl (hrefl : ∀ a, kept a a) (xs : List α) : Grown kept new xs xs :=
  of_forall₂ (List.forall₂_same.2 fun a _ => hrefl a)

theorem mono {new' : α → Prop} (h : Grown kept new xs ys) (hnew : ∀ b ∈ ys, new b → new' b) :
    Grown kept new' xs ys :=
  ⟨h.old, fun i b hi hb => hnew b (List.mem_of_getElem? hb) (h.fresh i b hi hb)⟩

theorem trans {new' : α → Prop} (h : Grown kept new xs ys) (h' : Grown kept new' ys zs)
    (hkept : ∀ {a b c}, kept a b → kept b c → kept a c)
    (hold : ∀ {b c}, new b → kept b c → new c) (hnew : ∀ {c}, new' c → new c) :
    Grown kept new xs zs := by
  constructor
  · intro i a ha
    obtain ⟨b, hb, hab⟩ := h.old i a ha
    obtain ⟨c, hc, hbc⟩ := h'.old i b hb
    exact ⟨c, hc, hkept hab hbc⟩
  · intro i c hi hc
    cases hb : ys[i]? with
    | none => exact hnew (h'.fresh i c hb hc)
    | some b =>
      obtain ⟨c', hc', hbc⟩ := h'.old i b hb
      rw [hc] at hc'
      cases hc'
      exact hold (h.fresh i b hi hb) hbc

/-- Where everything has been assigned, only the length matters. -/
theorem of_length_le {xs ys : List (Cell β)} (hlength : xs.length ≤ ys.length)
    (hys : ∀ b ∈ ys, b.IsAssigned) : Grown Cell.Kept Cell.IsAssigned xs ys := by
  constructor
  · intro i a ha
    have hi : i < ys.length :=
      Nat.lt_of_lt_of_le (List.getElem?_eq_some_iff.1 ha).1 hlength
    exact ⟨ys[i], List.getElem?_eq_getElem hi, .inr (hys _ (List.getElem_mem hi))⟩
  · intro i b _ hb
    exact hys b (List.mem_of_getElem? hb)

/-- What is still as it was written stood there before. -/
theorem mem_written {xs ys : List (Cell β)} (h : Grown Cell.Kept Cell.IsAssigned xs ys) {b : β}
    (hb : .written b ∈ ys) : .written b ∈ xs := by
  obtain ⟨i, hi⟩ := List.getElem?_of_mem hb
  cases hx : xs[i]? with
  | none => exact absurd (h.fresh i _ hx hi) id
  | some a =>
    obtain ⟨c, hc, hac⟩ := h.old i a hx
    rw [hi] at hc
    cases hc
    rcases hac with hac | hac
    · exact hac ▸ List.mem_of_getElem? hx
    · exact absurd hac id

end Grown

/-! ### Objects -/

namespace Property

/-- A list of entries after assignments: the old entries are in their places, and behind them are
new ones of other keys. -/
def GrownTo (ps qs : List (Property (Cell β))) : Prop :=
  Grown Kept (fun q => q.value.IsAssigned ∧ ∀ p ∈ ps, p.key.name ≠ q.key.name) ps qs

theorem GrownTo.refl (ps : List (Property (Cell β))) : GrownTo ps ps := Grown.refl Kept.refl ps

theorem GrownTo.trans {ps qs rs : List (Property (Cell β))} (h : GrownTo ps qs)
    (h' : GrownTo qs rs) : GrownTo ps rs := by
  apply Grown.trans h h' Kept.trans
  · rintro q r ⟨hq, hkeys⟩ hqr
    exact ⟨hqr.value.isAssigned hq, fun p hp => hqr.key ▸ hkeys p hp⟩
  · rintro r ⟨hr, hkeys⟩
    refine ⟨hr, ?_⟩
    intro p hp
    obtain ⟨i, hi⟩ := List.getElem?_of_mem hp
    obtain ⟨q, hq, hpq⟩ := h.old i p hi
    have hkey := hkeys q (List.mem_of_getElem? hq)
    rwa [hpq.key] at hkey

theorem GrownTo.exists_written {ps qs : List (Property (Cell β))} (h : GrownTo ps qs)
    {q : Property (Cell β)} {b : β} (hq : q ∈ qs) (hb : q.value = .written b) :
    ∃ p ∈ ps, p.value = .written b := by
  obtain ⟨i, hi⟩ := List.getElem?_of_mem hq
  cases hp : ps[i]? with
  | none =>
    have hassigned := (h.fresh i q hp hi).1
    rw [hb] at hassigned
    exact absurd hassigned id
  | some p =>
    obtain ⟨r, hr, hpr⟩ := h.old i p hp
    rw [hi] at hr
    cases hr
    rcases hpr.value with hvalue | hassigned
    · exact ⟨p, List.mem_of_getElem? hp, hvalue.symm.trans hb⟩
    · rw [hb] at hassigned
      exact absurd hassigned id

theorem put_grownTo (ps : List (Property (Cell β))) {p : Property (Cell β)}
    (hp : p.value.IsAssigned) : GrownTo ps (put ps p) := by
  -- the only entry that may be new is `p` itself
  have hput : Grown Kept (fun q => q = p ∧ ∀ r ∈ ps, r.key.name ≠ p.key.name) ps (put ps p) := by
    induction ps with
    | nil => exact .nil fun q hq => ⟨List.mem_singleton.1 hq, nofun⟩
    | cons r ps ih =>
      rw [put]
      split
      next => exact .cons ⟨rfl, rfl, .inr hp⟩ (.refl Kept.refl ps)
      next hkey =>
        refine .cons (.refl r) (ih.mono ?_)
        rintro q - ⟨hq, hkeys⟩
        exact ⟨hq, List.forall_mem_cons.2 ⟨hkey, hkeys⟩⟩
  apply hput.mono
  rintro q - ⟨rfl, hkeys⟩
  exact ⟨hp, hkeys⟩

theorem put_forall₂ {ps qs : List (Property (Cell β))} (h : List.Forall₂ Kept ps qs)
    (r : Property (Cell β)) : List.Forall₂ Kept (put ps r) (put qs r) := by
  induction h with
  | nil => exact .cons (.refl r) .nil
  | @cons p q ps qs hpq h ih =>
    simp only [put, hpq.key]
    split
    · exact .cons ⟨hpq.span, rfl, .refl _⟩ h
    · exact .cons hpq ih

theorem overwrite_forall₂ {ps qs : List (Property (Cell β))} (h : List.Forall₂ Kept ps qs)
    (edits : List (Property (Cell β))) :
    List.Forall₂ Kept (overwrite ps edits) (overwrite qs edits) := by
  induction edits generalizing ps qs with
  | nil => exact h
  | cons r edits ih => exact ih (put_forall₂ h r)

/-- Putting another value at the same key. -/
theorem put_value_forall₂ (ps : List (Property (Cell β))) (p : Property (Cell β)) {c : Cell β}
    (hc : c.IsAssigned) : List.Forall₂ Kept (put ps p) (put ps { p with value := c }) := by
  induction ps with
  | nil => exact .cons ⟨rfl, rfl, .inr hc⟩ .nil
  | cons q ps ih =>
    simp only [put]
    split
    · exact .cons ⟨rfl, rfl, .inr hc⟩ (List.forall₂_same.2 fun a _ => .refl a)
    · exact .cons (.refl q) ih

/-- One more assignment to an object makes the list of its entries grow. -/
theorem overwrite_put_grownTo (ps edits : List (Property (Cell β))) {p : Property (Cell β)}
    (hp : p.value.IsAssigned) : GrownTo (overwrite ps edits) (overwrite ps (put edits p)) := by
  induction edits generalizing ps with
  | nil => exact put_grownTo ps hp
  | cons q edits ih =>
    rw [put]
    split
    next => exact .of_forall₂ (overwrite_forall₂ (put_value_forall₂ ps q hp) edits)
    next => exact ih (put ps q)

theorem map_put {γ : Type} (f : β → γ) (ps : List (Property β)) (p : Property β) :
    (put ps p).map (Property.map f) = put (ps.map (Property.map f)) (p.map f) := by
  induction ps with
  | nil => rfl
  | cons q ps ih =>
    simp only [put, List.map_cons]
    have hkey (r : Property β) : (r.map f).key = r.key := rfl
    rw [hkey, hkey]
    split
    · rfl
    · rw [← ih]
      rfl

/-- An entry that is found first, and whose key is not put, stands after any number of puts. -/
theorem mem_overwrite {ps edits : List (Property β)} {p : Property β} (hp : p ∈ ps)
    (hkey : ∀ q ∈ edits, p.key.name ≠ q.key.name) : p ∈ overwrite ps edits := by
  induction edits generalizing ps with
  | nil => exact hp
  | cons q edits ih =>
    have hput : p ∈ put ps q := by
      clear ih
      induction ps with
      | nil => exact absurd hp List.not_mem_nil
      | cons r ps ih =>
        rw [put]
        rcases List.mem_cons.1 hp with rfl | hp
        · rw [if_neg (hkey q (List.mem_cons_self ..))]
          exact List.mem_cons_self ..
        · split
          · exact List.mem_cons_of_mem _ hp
          · exact List.mem_cons_of_mem _ (ih hp)
    exact ih hput fun r hr => hkey r (List.mem_cons_of_mem _ hr)

end Property

/-! ### Arrays -/

/-- Slots after an assignment: one that is no longer as it was holds something. -/
def SlotsGrown (slots slots' : List (Option (Cell β))) : Prop :=
  Grown (fun s s' => s' = s ∨ s'.isSome) (fun _ => True) slots slots'

theorem putSlot_grown (slots : List (Option (Cell β))) (i : Nat) (fill x : Cell β) :
    SlotsGrown slots (putSlot slots i fill x) := by
  unfold putSlot
  split
  next hi =>
    constructor
    · intro j s hs
      rw [List.getElem?_set]
      split
      next hij =>
        subst hij
        exact ⟨some x, by simp, .inr rfl⟩
      next => exact ⟨s, hs, .inl rfl⟩
    · intros
      trivial
  next =>
    constructor
    · intro j s hs
      have hj : j < slots.length := (List.getElem?_eq_some_iff.1 hs).1
      refine ⟨s, ?_, .inl rfl⟩
      rw [List.append_assoc, List.getElem?_append_left hj]
      exact hs
    · intros
      trivial

theorem mem_overwriteSlots_nil {slots : List (Option β)} {c : β}
    (hc : c ∈ overwriteSlots [] slots) : some c ∈ slots := by
  induction slots with
  | nil => exact absurd hc List.not_mem_nil
  | cons s slots ih =>
    cases s with
    | none => exact List.mem_cons_of_mem _ (ih hc)
    | some y =>
      rw [overwriteSlots] at hc
      rcases List.mem_cons.1 hc with rfl | hc
      · exact List.mem_cons_self ..
      · exact List.mem_cons_of_mem _ (ih hc)

/-- An element under an empty slot is still there. -/
theorem mem_overwriteSlots {xs : List β} {slots : List (Option β)} {i : Nat} {x : β}
    (hx : xs[i]? = some x) (hslot : slots[i]? = none ∨ slots[i]? = some none) :
    x ∈ overwriteSlots xs slots := by
  induction xs generalizing slots i with
  | nil => simp at hx
  | cons y xs ih =>
    cases slots with
    | nil => simpa using List.mem_of_getElem? hx
    | cons s slots =>
      cases i with
      | zero =>
        cases hx
        rcases hslot with hslot | hslot
        · simp at hslot
        · cases hslot
          exact List.mem_cons_self ..
      | succ i =>
        have htail := ih hx hslot
        cases s <;> exact List.mem_cons_of_mem _ htail

/-- Laying slots over a list makes it grow. -/
theorem overwriteSlots_grown (xs : List (Cell β)) {slots : List (Option (Cell β))}
    (hslots : ∀ c, some c ∈ slots → c.IsAssigned) :
    Grown Cell.Kept Cell.IsAssigned xs (overwriteSlots xs slots) := by
  induction xs generalizing slots with
  | nil => exact .nil fun c hc => hslots c (mem_overwriteSlots_nil hc)
  | cons x xs ih =>
    cases slots with
    | nil => simpa using Grown.refl Cell.Kept.refl (x :: xs)
    | cons s slots =>
      have htail := ih fun c hc => hslots c (List.mem_cons_of_mem s hc)
      cases s with
      | none => exact .cons (.refl x) htail
      | some y => exact .cons (.inr (hslots y (List.mem_cons_self ..))) htail

theorem SlotsGrown.tail {s s' : Option (Cell β)} {slots slots' : List (Option (Cell β))}
    (h : SlotsGrown (s :: slots) (s' :: slots')) :
    (s' = s ∨ s'.isSome) ∧ SlotsGrown slots slots' := by
  constructor
  · obtain ⟨b, hb, hkept⟩ := h.old 0 s rfl
    cases hb
    exact hkept
  · exact ⟨fun i a ha => h.old (i + 1) a ha, fun _ _ _ _ => trivial⟩

theorem SlotsGrown.ne_nil {s : Option (Cell β)} {slots slots' : List (Option (Cell β))}
    (h : SlotsGrown (s :: slots) slots') : ∃ s' rest, slots' = s' :: rest := by
  obtain ⟨b, hb, -⟩ := h.old 0 s rfl
  cases slots' with
  | nil => cases hb
  | cons s' rest => exact ⟨s', rest, rfl⟩

theorem SlotsGrown.length_le {slots slots' : List (Option (Cell β))} (h : SlotsGrown slots slots') :
    (overwriteSlots [] slots).length ≤ (overwriteSlots [] slots').length := by
  induction slots generalizing slots' with
  | nil => exact Nat.zero_le _
  | cons s slots ih =>
    obtain ⟨s', rest, rfl⟩ := h.ne_nil
    obtain ⟨hkept, htail⟩ := h.tail
    have hle := ih htail
    rcases hkept with rfl | hsome
    · cases s' with
      | none => exact hle
      | some y => exact Nat.succ_le_succ hle
    · obtain ⟨y, rfl⟩ := Option.isSome_iff_exists.1 hsome
      cases s with
      | none => exact Nat.le_succ_of_le hle
      | some z => exact Nat.succ_le_succ hle

/-- One more assignment to an array makes the list of its elements grow. -/
theorem SlotsGrown.overwrite {slots slots' : List (Option (Cell β))} (h : SlotsGrown slots slots')
    (hslots : ∀ c, some c ∈ slots' → c.IsAssigned) (xs : List (Cell β)) :
    Grown Cell.Kept Cell.IsAssigned (overwriteSlots xs slots) (overwriteSlots xs slots') := by
  induction xs generalizing slots slots' with
  | nil => exact .of_length_le h.length_le fun c hc => hslots c (mem_overwriteSlots_nil hc)
  | cons x xs ih =>
    cases slots with
    | nil => simpa using overwriteSlots_grown (x :: xs) hslots
    | cons s slots =>
      obtain ⟨s', rest, rfl⟩ := h.ne_nil
      obtain ⟨hkept, htail⟩ := h.tail
      have hrest := ih htail fun c hc => hslots c (List.mem_cons_of_mem s' hc)
      rcases hkept with rfl | hsome
      · cases s' with
        | none => exact .cons (.refl x) hrest
        | some y => exact .cons (.refl y) hrest
      · obtain ⟨y, rfl⟩ := Option.isSome_iff_exists.1 hsome
        have hy : y.IsAssigned := hslots y (List.mem_cons_self ..)
        cases s with
        | none => exact .cons (.inr hy) hrest
        | some z => exact .cons (.inr hy) hrest

/-! ### Lists of a heap -/

namespace Heap

/-- The entries of an object as they are now. -/
def objectCells (h : Heap) (label : Label) (written : List (Property (Option (Expr Label)))) :
    List (Property (Cell (Option (Expr Label)))) :=
  Property.overwrite (written.map (Property.map .written))
    ((h.assignedProperties label).map (Property.map .assigned))

/-- What has been assigned to an array. -/
def assignedSlots (h : Heap) (label : Label) : List (Option Assigned) :=
  (h.slots.get? label).getD []

/-- The elements of an array as they are now. -/
def arrayCells (h : Heap) (label : Label) (written : List (Expr Label)) :
    List (Cell (Expr Label)) :=
  overwriteSlots (written.map .written) ((h.assignedSlots label).map (Option.map .assigned))

variable {h : Heap} {label : Label} {a : Assigned}

theorem objectCells_setProperty (l : Label) (p : Property Assigned)
    (written : List (Property (Option (Expr Label)))) :
    Property.GrownTo (h.objectCells l written) ((h.setProperty label p).objectCells l written) := by
  unfold objectCells
  by_cases hl : l = label
  · subst hl
    rw [assignedProperties_setProperty, Property.map_put]
    exact Property.overwrite_put_grownTo _ _ trivial
  · unfold assignedProperties
    rw [properties_setProperty_of_ne hl]
    exact .refl _

theorem arrayCells_setElement (l : Label) (written : List (Expr Label)) (i : Nat)
    (ws : List (Expr Label)) :
    Grown Cell.Kept Cell.IsAssigned (h.arrayCells l ws)
      ((h.setElement label written i a).arrayCells l ws) := by
  unfold arrayCells assignedSlots
  by_cases hl : l = label
  · subst hl
    rw [slots_setElement]
    have hassigned : ∀ (slots : List (Option Assigned)) (c : Cell (Expr Label)),
        some c ∈ slots.map (Option.map .assigned) → c.IsAssigned := by
      intro slots c hc
      obtain ⟨s, -, hs⟩ := List.mem_map.1 hc
      obtain ⟨b, -, rfl⟩ := Option.map_eq_some_iff.1 hs
      trivial
    refine SlotsGrown.overwrite ?_ (hassigned _) _
    unfold arraySlots
    cases h.slots.get? l with
    | none => exact .nil fun _ _ => trivial
    | some slots =>
      simp only [Option.getD_some, ← putSlot_map]
      exact putSlot_grown _ _ _ _
  · rw [slots_setElement_of_ne hl]
    exact .refl Cell.Kept.refl _

/-- An entry that is found as it was written is in the list as it is now. -/
theorem written_mem_objectCells {written : List (Property (Option (Expr Label)))} {key : String}
    {p : Property (Option (Expr Label))} (hp : Property.find? written key = some p)
    (hnone : Property.find? (h.assignedProperties label) key = none) :
    p.map .written ∈ h.objectCells label written := by
  have hkey := List.find?_some (p := fun q : Property _ => decide (q.key.name = key)) hp
  refine Property.mem_overwrite (List.mem_map_of_mem (List.mem_of_find?_eq_some hp)) ?_
  intro r hr heq
  obtain ⟨r', hr', rfl⟩ := List.mem_map.1 hr
  have hne := List.find?_eq_none.1 hnone r' hr'
  exact hne (decide_eq_true (heq.symm.trans (of_decide_eq_true hkey)))

theorem written_mem_arrayCells {written : List (Expr Label)} {i : Nat} {e : Expr Label}
    (he : written[i]? = some e) (hslot : (h.arraySlots label written)[i]? = some none) :
    .written e ∈ h.arrayCells label written := by
  refine mem_overwriteSlots (i := i) (by simp [he]) ?_
  unfold arraySlots at hslot
  unfold assignedSlots
  cases hslots : h.slots.get? label with
  | none => exact .inl rfl
  | some slots =>
    rw [hslots] at hslot
    exact .inr (by simpa using hslot)

theorem mem_assignedSlots {written : List (Expr Label)} {b : Assigned}
    (hb : some b ∈ h.arraySlots label written) : some b ∈ h.assignedSlots label := by
  unfold arraySlots at hb
  unfold assignedSlots
  cases hslots : h.slots.get? label with
  | none =>
    rw [hslots] at hb
    simp at hb
  | some slots =>
    rw [hslots] at hb
    exact hb

end Heap

end Primer
