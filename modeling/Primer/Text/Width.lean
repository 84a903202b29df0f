/-
  Primer/Text/Width.lean
  ======================
  **How many bytes a text takes in UTF-8.**
-/

namespace Primer

/-- The number of bytes of a text in UTF-8. -/
def width : List Char → Nat
  | [] => 0
  | c :: cs => c.utf8Size + width cs

@[simp] theorem width_append (a b : List Char) : width (a ++ b) = width a + width b := by
  induction a with
  | nil => simp [width]
  | cons c a ih => simp [width, ih, Nat.add_assoc]

theorem length_le_width (cs : List Char) : cs.length ≤ width cs := by
  induction cs with
  | nil => exact Nat.zero_le _
  | cons c cs ih =>
    have h := c.utf8Size_pos
    simp only [List.length_cons, width]
    omega

end Primer
