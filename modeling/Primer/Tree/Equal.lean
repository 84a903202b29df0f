/-
  Primer/Tree/Equal.lean
  ======================
  **Deciding whether two trees are equal**, spans and labels included.

  `same` walks two trees side by side; `same_iff` says that it answers `true` exactly
  on equal trees, which makes equality of trees decidable.
-/
import Primer.Tree

namespace Primer

variable {ι : Type} [DecidableEq ι]

mutual

def Expr.same : Expr ι → Expr ι → Bool
  | .ident s x, .ident t y => s = t && x = y
  | .str s x, .str t y => s = t && x = y
  | .int s x, .int t y => s = t && x = y
  | .bool s x, .bool t y => s = t && x = y
  | .unary s o a, .unary t p b => s = t && o = p && a.same b
  | .binary s o a b, .binary t p c d => s = t && o = p && a.same c && b.same d
  | .cond s c a none, .cond t d b none => s = t && c.same d && a.same b
  | .cond s c a (some x), .cond t d b (some y) => s = t && c.same d && a.same b && x.same y
  | .function s f, .function t g => s = t && f.same g
  | .call s f xs, .call t g ys => s = t && f.same g && sameExprs xs ys
  | .index s a k, .index t b l => s = t && a.same b && k.same l
  | .assign s a v, .assign t b w => s = t && a.same b && v.same w
  | .object s l ps, .object t m qs => s = t && l = m && sameProperties ps qs
  | .array s l xs, .array t m ys => s = t && l = m && sameExprs xs ys
  | _, _ => false

def Stmt.same : Stmt ι → Stmt ι → Bool
  | .declare s c x none, .declare t d y none => s = t && c = d && x = y
  | .declare s c x (some v), .declare t d y (some w) => s = t && c = d && x = y && v.same w
  | .function s x f, .function t y g => s = t && x = y && f.same g
  | .ret s v, .ret t w => s = t && v.same w
  | .expr s v, .expr t w => s = t && v.same w
  | _, _ => false

def Block.same : Block ι → Block ι → Bool
  | ⟨s, xs⟩, ⟨t, ys⟩ => s = t && sameStmts xs ys

def Function.same : Function ι → Function ι → Bool
  | ⟨s, l, x, ps, a⟩, ⟨t, m, y, qs, b⟩ => s = t && l = m && x = y && ps = qs && a.same b

def sameExprs : List (Expr ι) → List (Expr ι) → Bool
  | [], [] => true
  | x :: xs, y :: ys => x.same y && sameExprs xs ys
  | _, _ => false

def sameStmts : List (Stmt ι) → List (Stmt ι) → Bool
  | [], [] => true
  | x :: xs, y :: ys => x.same y && sameStmts xs ys
  | _, _ => false

def sameProperties :
    List (Property (Option (Expr ι))) → List (Property (Option (Expr ι))) → Bool
  | [], [] => true
  | ⟨s, j, none⟩ :: ps, ⟨t, k, none⟩ :: qs => s = t && j = k && sameProperties ps qs
  | ⟨s, j, some v⟩ :: ps, ⟨t, k, some w⟩ :: qs =>
    s = t && j = k && v.same w && sameProperties ps qs
  | _, _ => false

end

/-! ### The comparison decides equality -/

mutual

theorem Expr.same_iff : ∀ a b : Expr ι, a.same b = true ↔ a = b
  | .ident .., b => by cases b <;> simp [Expr.same]
  | .str .., b => by cases b <;> simp [Expr.same]
  | .int .., b => by cases b <;> simp [Expr.same]
  | .bool .., b => by cases b <;> simp [Expr.same]
  | .unary _ _ x, b => by cases b <;> simp [Expr.same, x.same_iff, and_assoc]
  | .binary _ _ x y, b => by cases b <;> simp [Expr.same, x.same_iff, y.same_iff, and_assoc]
  | .cond _ c x none, b => by
    rcases b with _ | _ | _ | _ | _ | _ | ⟨_, _, _, _ | _⟩ <;>
      simp [Expr.same, c.same_iff, x.same_iff, and_assoc]
  | .cond _ c x (some y), b => by
    rcases b with _ | _ | _ | _ | _ | _ | ⟨_, _, _, _ | _⟩ <;>
      simp [Expr.same, c.same_iff, x.same_iff, y.same_iff, and_assoc]
  | .function _ f, b => by cases b <;> simp [Expr.same, f.same_iff]
  | .call _ f xs, b => by cases b <;> simp [Expr.same, f.same_iff, sameExprs_iff xs, and_assoc]
  | .index _ x k, b => by cases b <;> simp [Expr.same, x.same_iff, k.same_iff, and_assoc]
  | .assign _ x v, b => by cases b <;> simp [Expr.same, x.same_iff, v.same_iff, and_assoc]
  | .object _ _ ps, b => by cases b <;> simp [Expr.same, sameProperties_iff ps, and_assoc]
  | .array _ _ xs, b => by cases b <;> simp [Expr.same, sameExprs_iff xs, and_assoc]

theorem Stmt.same_iff : ∀ a b : Stmt ι, a.same b = true ↔ a = b
  | .declare _ _ _ none, b => by
    rcases b with ⟨_, _, _, _ | _⟩ | _ <;> simp [Stmt.same, and_assoc]
  | .declare _ _ _ (some v), b => by
    rcases b with ⟨_, _, _, _ | _⟩ | _ <;> simp [Stmt.same, v.same_iff, and_assoc]
  | .function _ _ f, b => by cases b <;> simp [Stmt.same, f.same_iff, and_assoc]
  | .ret _ v, b => by cases b <;> simp [Stmt.same, v.same_iff]
  | .expr _ v, b => by cases b <;> simp [Stmt.same, v.same_iff]

theorem Block.same_iff : ∀ a b : Block ι, a.same b = true ↔ a = b
  | ⟨_, xs⟩, ⟨_, _⟩ => by simp [Block.same, sameStmts_iff xs]

theorem Function.same_iff : ∀ a b : Function ι, a.same b = true ↔ a = b
  | ⟨_, _, _, _, x⟩, ⟨_, _, _, _, _⟩ => by simp [Function.same, x.same_iff, and_assoc]

theorem sameExprs_iff : ∀ xs ys : List (Expr ι), sameExprs xs ys = true ↔ xs = ys
  | [], ys => by cases ys <;> simp [sameExprs]
  | x :: xs, ys => by cases ys <;> simp [sameExprs, x.same_iff, sameExprs_iff xs]

theorem sameStmts_iff : ∀ xs ys : List (Stmt ι), sameStmts xs ys = true ↔ xs = ys
  | [], ys => by cases ys <;> simp [sameStmts]
  | x :: xs, ys => by cases ys <;> simp [sameStmts, x.same_iff, sameStmts_iff xs]

theorem sameProperties_iff :
    ∀ ps qs : List (Property (Option (Expr ι))), sameProperties ps qs = true ↔ ps = qs
  | [], qs => by cases qs <;> simp [sameProperties]
  | ⟨_, _, none⟩ :: ps, qs => by
    rcases qs with _ | ⟨⟨_, _, _ | _⟩, _⟩ <;>
      simp [sameProperties, sameProperties_iff ps, and_assoc]
  | ⟨_, _, some v⟩ :: ps, qs => by
    rcases qs with _ | ⟨⟨_, _, _ | _⟩, _⟩ <;>
      simp [sameProperties, v.same_iff, sameProperties_iff ps, and_assoc]

end

instance : DecidableEq (Expr ι) := fun a b => decidable_of_iff _ (a.same_iff b)

instance : DecidableEq (Stmt ι) := fun a b => decidable_of_iff _ (a.same_iff b)

instance : DecidableEq (Block ι) := fun a b => decidable_of_iff _ (a.same_iff b)

instance : DecidableEq (Function ι) := fun a b => decidable_of_iff _ (a.same_iff b)

deriving instance DecidableEq for Program

end Primer
