/-
  Primer/Proofs/Eval/Termination.lean
  ===================================
  **When a run comes to an end.**

  Evaluation jumps for two reasons: into the body of a function that is called, and into an entry of
  a literal that is read.  The number of nested calls is limited, but an entry may read itself again
  without end.  It cannot do so if it is quiet (`Expr.isQuiet`): if nothing is called or read in it,
  outside of functions and literals that it makes.  As long as only quiet entries can be
  reached, a jump into an entry makes no other jump, and jumps are nested no deeper than calls, and
  one for an entry.  What is assigned while a program runs is a value, and a value is not evaluated
  again; so all that has to be known is that the entries of the literals in the program are quiet.
-/
import Primer.Proofs.Eval.Confined
import Primer.Proofs.Eval.Limits

namespace Primer

/-! ### Quiet code -/

mutual

/-- Is nothing called and no entry read in the expression, outside of bodies of functions and
entries of literals?  An entry that is assigned to is not read. -/
def Expr.isQuiet : Expr Label → Bool
  | .ident .. => true
  | .str .. => true
  | .int .. => true
  | .bool .. => true
  | .unary _ _ e => e.isQuiet
  | .binary _ _ left right => left.isQuiet && right.isQuiet
  | .cond _ condition consequence none => condition.isQuiet && consequence.isQuiet
  | .cond _ condition consequence (some alternative) =>
    condition.isQuiet && consequence.isQuiet && alternative.isQuiet
  | .function .. => true
  | .call .. => false
  | .index .. => false
  | .assign _ (.index _ container key) value =>
    container.isQuiet && key.isQuiet && value.isQuiet
  | .assign _ target value => target.isQuiet && value.isQuiet
  | .object .. => true
  | .array .. => true

def Stmt.isQuiet : Stmt Label → Bool
  | .declare _ _ _ none => true
  | .declare _ _ _ (some value) => value.isQuiet
  | .function .. => true
  | .ret _ value => value.isQuiet
  | .expr _ value => value.isQuiet

def Block.isQuiet : Block Label → Bool
  | ⟨_, statements⟩ => areQuiet statements

def areQuiet : List (Stmt Label) → Bool
  | [] => true
  | x :: xs => x.isQuiet && areQuiet xs

end

section

variable (limit : Nat) (jump jump' : Jump) (frame : FrameId)

mutual

/-- Quiet code makes no jump: it does not matter what a jump would do. -/
theorem Expr.eval_of_isQuiet (e : Expr Label) (h : e.isQuiet) :
    e.eval limit jump frame = e.eval limit jump' frame := by
  cases e with
  | ident | str | int | bool | function | object | array => rw [Expr.eval, Expr.eval]
  | unary _ op e =>
    rw [Expr.isQuiet] at h
    rw [Expr.eval, Expr.eval, e.eval_of_isQuiet h]
  | binary _ op left right =>
    simp only [Expr.isQuiet, Bool.and_eq_true] at h
    rw [Expr.eval, Expr.eval, left.eval_of_isQuiet h.1, right.eval_of_isQuiet h.2]
  | cond _ condition consequence alternative =>
    cases alternative with
    | none =>
      simp only [Expr.isQuiet, Bool.and_eq_true] at h
      rw [Expr.eval, Expr.eval, condition.eval_of_isQuiet h.1, consequence.exec_of_isQuiet h.2]
    | some alternative =>
      simp only [Expr.isQuiet, Bool.and_eq_true] at h
      rw [Expr.eval, Expr.eval, condition.eval_of_isQuiet h.1.1,
        consequence.exec_of_isQuiet h.1.2, alternative.exec_of_isQuiet h.2]
  | call | index => exact absurd h Bool.false_ne_true
  | assign _ target value =>
    cases target with
    | ident _ name =>
      simp only [Expr.isQuiet, Bool.and_eq_true] at h
      rw [Expr.eval, Expr.eval, value.eval_of_isQuiet h.2]
    | index _ container key =>
      simp only [Expr.isQuiet, Bool.and_eq_true] at h
      cases container with
      | ident _ name =>
        rw [Expr.eval, Expr.eval, key.eval_of_isQuiet h.1.2, value.eval_of_isQuiet h.2]
      | _ => rfl
    | _ => rfl

theorem Stmt.exec_of_isQuiet (x : Stmt Label) (h : x.isQuiet) :
    x.exec limit jump frame = x.exec limit jump' frame := by
  cases x with
  | declare _ _ name value =>
    cases value with
    | none => rw [Stmt.exec, Stmt.exec]
    | some value =>
      rw [Stmt.isQuiet] at h
      rw [Stmt.exec, Stmt.exec, value.eval_of_isQuiet h]
  | function => rw [Stmt.exec, Stmt.exec]
  | ret _ value =>
    rw [Stmt.isQuiet] at h
    rw [Stmt.exec, Stmt.exec, value.eval_of_isQuiet h]
  | expr _ value =>
    rw [Stmt.isQuiet] at h
    rw [Stmt.exec, Stmt.exec, value.eval_of_isQuiet h]

theorem Block.exec_of_isQuiet (b : Block Label) (h : b.isQuiet) :
    b.exec limit jump frame = b.exec limit jump' frame := by
  cases b with
  | mk _ statements =>
    rw [Block.isQuiet] at h
    rw [Block.exec, Block.exec, execAll_of_areQuiet .undefined statements h]

theorem execAll_of_areQuiet (last : Value) (xs : List (Stmt Label)) (h : areQuiet xs) :
    execAll limit jump frame last xs = execAll limit jump' frame last xs := by
  cases xs with
  | nil => rw [execAll, execAll]
  | cons x xs =>
    simp only [areQuiet, Bool.and_eq_true] at h
    rw [execAll, execAll, x.exec_of_isQuiet h.1]
    have hrest (v : Value) := execAll_of_areQuiet v xs h.2
    simp only [hrest]

end

end

/-! ### Enough fuel -/

/-- With fuel for every call that may still be made, and one unit more, jumps within a region of
quiet entries do not run out of it. -/
theorem jump_confined_of_fuel {N : Region} (hquiet : ∀ p ∈ N.locations, ∀ e ∈ p.written, e.isQuiet)
    {limit fuel depth : Nat} (hfuel : limit - depth < fuel) :
    (jump limit fuel).Confined N (· ≠ .exhausted) limit depth := by
  induction fuel generalizing depth with
  | zero => exact absurd hfuel (Nat.not_lt_zero _)
  | succ fuel ih =>
    refine ⟨nofun, ?_, ?_⟩
    · intro frame b s hdepth hs
      have hbody : limit - (depth + 1) < fuel := by omega
      exact (ih hbody).block b hs
    · rintro frame e s ⟨p, hp, he⟩ hs
      -- the entry makes no jump, so a jump that is refused at once serves as well
      let refuse : Jump := fun _ _ => Eval.fail .divisionByZero
      have hrefuse : refuse.Confined N (· ≠ .exhausted) limit depth :=
        ⟨nofun, fun _ hs => .throw hs.closed nofun, fun _ hs => .throw hs.closed nofun⟩
      have heval := e.eval_of_isQuiet limit (jump limit fuel) refuse frame (hquiet p hp e he)
      show Confined N (· ≠ .exhausted) (e.eval limit (jump limit fuel) frame) N.Holds s
      rw [heval]
      exact hrefuse.eval e hs

/-- A program comes to an end if it can reach quiet entries only. -/
theorem ended_of_quiet_reach {limit fuel : Nat} (hfuel : limit < fuel) (frame : FrameId)
    (p : Program Label) (s : Eval.State)
    (hquiet : ∀ q ∈ s.heap.Reaches {q | q = .frame frame ∨ q ∈ literalsOfStmts p.statements},
      ∀ e ∈ q.written, e.isQuiet) :
    ended ((Work.program p).run ⟨limit, fuel⟩ frame s) := by
  let N := Region.reachable s.heap {q | q = .frame frame ∨ q ∈ literalsOfStmts p.statements}
  have hready : N.Ready 0 frame (literalsOfStmts p.statements) { s with depth := 0 } :=
    ⟨Region.reachable_closed _ _, .inl (Heap.subset_reaches (.inl rfl)),
      fun q hq => .inl (Heap.subset_reaches (.inr hq)), rfl⟩
  have hj : (jump limit fuel).Confined N (· ≠ .exhausted) limit 0 :=
    jump_confined_of_fuel hquiet (by omega)
  have hrun := Confined.operand (hj.execAll (Region.holds_undefined _) p.statements hready)
  cases hresult : (Work.program p).run ⟨limit, fuel⟩ frame s with
  | ok v t => rfl
  | error halt t =>
    have hhalt := (hrun.error hresult).2
    cases halt with
    | error cause => rfl
    | exhausted => exact absurd rfl hhalt

/-! ### Tests of all literals in a program -/

mutual

/-- Do all literals in the expression pass the test, those in bodies of functions and in entries of
other literals too? -/
def Expr.everyLiteral (test : Location → Bool) : Expr Label → Bool
  | .ident .. => true
  | .str .. => true
  | .int .. => true
  | .bool .. => true
  | .unary _ _ e => e.everyLiteral test
  | .binary _ _ left right => left.everyLiteral test && right.everyLiteral test
  | .cond _ condition consequence none =>
    condition.everyLiteral test && consequence.everyLiteral test
  | .cond _ condition consequence (some alternative) =>
    condition.everyLiteral test && consequence.everyLiteral test && alternative.everyLiteral test
  | .function _ fn => fn.everyLiteral test
  | .call _ callee args => callee.everyLiteral test && everyLiteralOfExprs test args
  | .index _ container key => container.everyLiteral test && key.everyLiteral test
  | .assign _ target value => target.everyLiteral test && value.everyLiteral test
  | .object _ label properties =>
    test (.object label properties) && everyLiteralOfProperties test properties
  | .array _ label elements => test (.array label elements) && everyLiteralOfExprs test elements

def Stmt.everyLiteral (test : Location → Bool) : Stmt Label → Bool
  | .declare _ _ _ none => true
  | .declare _ _ _ (some value) => value.everyLiteral test
  | .function _ _ fn => fn.everyLiteral test
  | .ret _ value => value.everyLiteral test
  | .expr _ value => value.everyLiteral test

def Block.everyLiteral (test : Location → Bool) : Block Label → Bool
  | ⟨_, statements⟩ => everyLiteralOfStmts test statements

def Function.everyLiteral (test : Location → Bool) : Function Label → Bool
  | ⟨_, _, _, _, body⟩ => body.everyLiteral test

def everyLiteralOfExprs (test : Location → Bool) : List (Expr Label) → Bool
  | [] => true
  | e :: es => e.everyLiteral test && everyLiteralOfExprs test es

def everyLiteralOfStmts (test : Location → Bool) : List (Stmt Label) → Bool
  | [] => true
  | x :: xs => x.everyLiteral test && everyLiteralOfStmts test xs

def everyLiteralOfProperties (test : Location → Bool) :
    List (Property (Option (Expr Label))) → Bool
  | [] => true
  | ⟨_, _, none⟩ :: ps => everyLiteralOfProperties test ps
  | ⟨_, _, some e⟩ :: ps => e.everyLiteral test && everyLiteralOfProperties test ps

end

/-- The list passes the test, and so do the literals in its entries. -/
def Location.Passes (test : Location → Bool) (q : Location) : Prop :=
  test q ∧ ∀ e ∈ q.written, e.everyLiteral test

section

variable {test : Location → Bool}

theorem everyLiteral_of_mem_exprs {es : List (Expr Label)} (h : everyLiteralOfExprs test es) :
    ∀ e ∈ es, e.everyLiteral test := by
  induction es with
  | nil => exact nofun
  | cons e es ih =>
    rw [everyLiteralOfExprs, Bool.and_eq_true] at h
    exact List.forall_mem_cons.2 ⟨h.1, ih h.2⟩

theorem everyLiteral_of_mem_properties {ps : List (Property (Option (Expr Label)))}
    (h : everyLiteralOfProperties test ps) : ∀ e ∈ ps.map Property.expr, e.everyLiteral test := by
  induction ps with
  | nil => exact nofun
  | cons p ps ih =>
    obtain ⟨span, key, value⟩ := p
    rw [List.map_cons, List.forall_mem_cons]
    cases value with
    | none =>
      rw [everyLiteralOfProperties] at h
      -- a key alone stands for a name
      exact ⟨rfl, ih h⟩
    | some e =>
      rw [everyLiteralOfProperties, Bool.and_eq_true] at h
      exact ⟨h.1, ih h.2⟩

mutual

/-- Where all literals pass a test, those that code has at hand pass it with all that is in them. -/
theorem Expr.passes_of_everyLiteral (e : Expr Label) (h : e.everyLiteral test) :
    ∀ q ∈ e.literals, q.Passes test := by
  cases e with
  | ident | str | int | bool => exact nofun
  | unary _ op e =>
    rw [Expr.everyLiteral] at h
    rw [Expr.literals]
    exact e.passes_of_everyLiteral h
  | binary _ op left right =>
    rw [Expr.everyLiteral, Bool.and_eq_true] at h
    rw [Expr.literals]
    exact List.forall_mem_append.2
      ⟨left.passes_of_everyLiteral h.1, right.passes_of_everyLiteral h.2⟩
  | cond _ condition consequence alternative =>
    cases alternative with
    | none =>
      rw [Expr.everyLiteral, Bool.and_eq_true] at h
      rw [Expr.literals]
      exact List.forall_mem_append.2
        ⟨condition.passes_of_everyLiteral h.1, consequence.passes_of_everyLiteral h.2⟩
    | some alternative =>
      rw [Expr.everyLiteral, Bool.and_eq_true, Bool.and_eq_true] at h
      rw [Expr.literals]
      refine List.forall_mem_append.2 ⟨List.forall_mem_append.2 ⟨?_, ?_⟩, ?_⟩
      · exact condition.passes_of_everyLiteral h.1.1
      · exact consequence.passes_of_everyLiteral h.1.2
      · exact alternative.passes_of_everyLiteral h.2
  | function _ fn =>
    rw [Expr.everyLiteral] at h
    rw [Expr.literals]
    exact fn.passes_of_everyLiteral h
  | call _ callee args =>
    rw [Expr.everyLiteral, Bool.and_eq_true] at h
    rw [Expr.literals]
    exact List.forall_mem_append.2
      ⟨callee.passes_of_everyLiteral h.1, passes_of_everyLiteralOfExprs args h.2⟩
  | index _ container key =>
    rw [Expr.everyLiteral, Bool.and_eq_true] at h
    rw [Expr.literals]
    exact List.forall_mem_append.2
      ⟨container.passes_of_everyLiteral h.1, key.passes_of_everyLiteral h.2⟩
  | assign _ target value =>
    rw [Expr.everyLiteral, Bool.and_eq_true] at h
    rw [Expr.literals]
    exact List.forall_mem_append.2
      ⟨target.passes_of_everyLiteral h.1, value.passes_of_everyLiteral h.2⟩
  | object _ label properties =>
    rw [Expr.everyLiteral, Bool.and_eq_true] at h
    rw [Expr.literals]
    exact List.forall_mem_singleton.2 ⟨h.1, everyLiteral_of_mem_properties h.2⟩
  | array _ label elements =>
    rw [Expr.everyLiteral, Bool.and_eq_true] at h
    rw [Expr.literals]
    exact List.forall_mem_singleton.2 ⟨h.1, everyLiteral_of_mem_exprs h.2⟩

theorem Stmt.passes_of_everyLiteral (x : Stmt Label) (h : x.everyLiteral test) :
    ∀ q ∈ x.literals, q.Passes test := by
  cases x with
  | declare _ _ name value =>
    cases value with
    | none => exact nofun
    | some value =>
      rw [Stmt.everyLiteral] at h
      rw [Stmt.literals]
      exact value.passes_of_everyLiteral h
  | function _ name fn =>
    rw [Stmt.everyLiteral] at h
    rw [Stmt.literals]
    exact fn.passes_of_everyLiteral h
  | ret _ value =>
    rw [Stmt.everyLiteral] at h
    rw [Stmt.literals]
    exact value.passes_of_everyLiteral h
  | expr _ value =>
    rw [Stmt.everyLiteral] at h
    rw [Stmt.literals]
    exact value.passes_of_everyLiteral h

theorem Block.passes_of_everyLiteral (b : Block Label) (h : b.everyLiteral test) :
    ∀ q ∈ b.literals, q.Passes test := by
  cases b with
  | mk _ statements =>
    rw [Block.everyLiteral] at h
    rw [Block.literals]
    exact passes_of_everyLiteralOfStmts statements h

theorem Function.passes_of_everyLiteral (fn : Function Label) (h : fn.everyLiteral test) :
    ∀ q ∈ fn.literals, q.Passes test := by
  cases fn with
  | mk _ _ _ _ body =>
    rw [Function.everyLiteral] at h
    rw [Function.literals]
    exact body.passes_of_everyLiteral h

theorem passes_of_everyLiteralOfExprs (es : List (Expr Label)) (h : everyLiteralOfExprs test es) :
    ∀ q ∈ literalsOfExprs es, q.Passes test := by
  cases es with
  | nil => exact nofun
  | cons e es =>
    rw [everyLiteralOfExprs, Bool.and_eq_true] at h
    rw [literalsOfExprs]
    exact List.forall_mem_append.2
      ⟨e.passes_of_everyLiteral h.1, passes_of_everyLiteralOfExprs es h.2⟩

theorem passes_of_everyLiteralOfStmts (xs : List (Stmt Label)) (h : everyLiteralOfStmts test xs) :
    ∀ q ∈ literalsOfStmts xs, q.Passes test := by
  cases xs with
  | nil => exact nofun
  | cons x xs =>
    rw [everyLiteralOfStmts, Bool.and_eq_true] at h
    rw [literalsOfStmts]
    exact List.forall_mem_append.2
      ⟨x.passes_of_everyLiteral h.1, passes_of_everyLiteralOfStmts xs h.2⟩

end

end

/-! ### Programs with plain entries -/

/-- Are all entries of the list quiet? -/
def Location.isPlain (q : Location) : Bool := q.written.all Expr.isQuiet

/-- Is this a list, to which nothing has been assigned? -/
def Heap.isUntouched (h : Heap) : Location → Bool
  | .frame _ => false
  | .object label _ => (h.properties.get? label).isNone
  | .array label _ => (h.slots.get? label).isNone

/-- A list to which nothing has been assigned leads to the literals in its entries. -/
theorem Heap.leads_of_isUntouched {h : Heap} {p q : Location} (hp : h.isUntouched p)
    (hstep : h.Leads p q) : ∃ e ∈ p.written, q ∈ e.literals := by
  cases hstep with
  | enclosing => exact absurd hp Bool.false_ne_true
  | binding => exact absurd hp Bool.false_ne_true
  | @entry label written c e _ hc he hq =>
    have hnone : h.properties.get? label = none := Option.isNone_iff_eq_none.1 hp
    have hcells : h.objectCells label written = written.map (Property.map .written) := by
      simp [Heap.objectCells, Heap.assignedProperties, hnone, Property.overwrite]
    rw [hcells] at hc
    obtain ⟨r, hr, rfl⟩ := List.mem_map.1 hc
    have hvalue : r.value = some e := Cell.written.inj he
    refine ⟨r.expr, List.mem_map_of_mem hr, ?_⟩
    rw [Property.expr, hvalue]
    exact hq
  | @assignedEntry label _ r _ hr _ =>
    have hnone : h.properties.get? label = none := Option.isNone_iff_eq_none.1 hp
    simp [Heap.assignedProperties, hnone] at hr
  | @element label written e _ he hq =>
    have hnone : h.slots.get? label = none := Option.isNone_iff_eq_none.1 hp
    have hcells : h.arrayCells label written = written.map .written := by
      simp [Heap.arrayCells, Heap.assignedSlots, hnone]
    rw [hcells] at he
    obtain ⟨e', he', heq⟩ := List.mem_map.1 he
    cases heq
    exact ⟨e, he', hq⟩
  | @assignedElement label _ b _ hb _ =>
    have hnone : h.slots.get? label = none := Option.isNone_iff_eq_none.1 hp
    simp [Heap.assignedSlots, hnone] at hb

/-- An empty frame and a program to whose literals nothing has been assigned reach nothing but the
literals in the program. -/
theorem Heap.passes_of_reaches {h : Heap} {frame : FrameId} {xs : List (Stmt Label)}
    {test : Location → Bool} (hframe : h.frames[frame]? = some ⟨[], none⟩)
    (hxs : everyLiteralOfStmts test xs) (huntouched : everyLiteralOfStmts h.isUntouched xs)
    {q : Location} (hq : q ∈ h.Reaches {q | q = .frame frame ∨ q ∈ literalsOfStmts xs}) :
    q = .frame frame ∨ q.Passes test ∧ q.Passes h.isUntouched := by
  show q ∈ {q | q = .frame frame ∨ q.Passes test ∧ q.Passes h.isUntouched}
  refine Heap.Reaches.of_closed ?_ ?_ hq
  · rintro p (rfl | hp)
    · exact .inl rfl
    · exact .inr ⟨passes_of_everyLiteralOfStmts xs hxs p hp,
        passes_of_everyLiteralOfStmts xs huntouched p hp⟩
  · rintro p q (rfl | ⟨htest, hfree⟩) hstep
    · -- an empty frame leads nowhere
      cases hstep with
      | enclosing hparent => simp [Heap.parent?, hframe] at hparent
      | binding hb => simp [Heap.bindings, hframe] at hb
    · obtain ⟨e, he, hq⟩ := Heap.leads_of_isUntouched hfree.1 hstep
      exact .inr ⟨e.passes_of_everyLiteral (htest.2 e he) q hq,
        e.passes_of_everyLiteral (hfree.2 e he) q hq⟩

/-- **A program whose literals have plain entries comes to an end.**  Let no entry of a literal in
the program call or read anything, and let the program be run in a frame that is empty, when nothing
has been assigned to its literals.  Whatever the limit of calls is, the run ends in a value or in an
error, and the outcome is the same for all fuel beyond the limit.  It is an error because of too
many calls, or else it is the outcome for every larger limit too: a recursion that does not end of
itself is ended by the limit. -/
theorem evaluate_ends_of_plain_entries (p : Program Label) (frame : FrameId) (s : Eval.State)
    (hplain : everyLiteralOfStmts Location.isPlain p.statements)
    (hframe : s.heap.frames[frame]? = some ⟨[], none⟩)
    (hfresh : everyLiteralOfStmts s.heap.isUntouched p.statements) (limit : Nat) :
    ∃ outcome, (∀ fuel, limit < fuel → Bounds.evaluate ⟨limit, fuel⟩ frame p s = outcome) ∧
      ((∃ v t, outcome = .ok v t) ∨ ∃ cause t, outcome = .error (.error cause) t) ∧
      ((∃ t, outcome = .error (.error (.callDepthExceeded limit)) t) ∨
        ∀ limit' fuel, limit ≤ limit' → limit' < fuel →
          Bounds.evaluate ⟨limit', fuel⟩ frame p s = outcome) := by
  have hquiet : ∀ q ∈ s.heap.Reaches {q | q = .frame frame ∨ q ∈ literalsOfStmts p.statements},
      ∀ e ∈ q.written, e.isQuiet := by
    intro q hq
    rcases Heap.passes_of_reaches hframe hplain hfresh hq with rfl | ⟨hpasses, -⟩
    · exact nofun
    · exact List.all_eq_true.1 hpasses.1
  have hends (limit : Nat) : ended ((Work.program p).run ⟨limit, limit + 1⟩ frame s) :=
    ended_of_quiet_reach (Nat.lt_succ_self limit) frame p s hquiet
  have hsame (limit fuel : Nat) (hfuel : limit < fuel) :
      (Work.program p).run ⟨limit, fuel⟩ frame s =
        (Work.program p).run ⟨limit, limit + 1⟩ frame s :=
    run_of_more_fuel _ frame s (hends limit) hfuel
  refine ⟨(Work.program p).run ⟨limit, limit + 1⟩ frame s, hsame limit, ?_, ?_⟩
  · have hended := hends limit
    cases hrun : (Work.program p).run ⟨limit, limit + 1⟩ frame s with
    | ok v t => exact .inl ⟨v, t, rfl⟩
    | error halt t =>
      rw [hrun] at hended
      cases halt with
      | error cause => exact .inr ⟨cause, t, rfl⟩
      | exhausted => exact absurd hended Bool.false_ne_true
  · cases hover : overrun ((Work.program p).run ⟨limit, limit + 1⟩ frame s) with
    | true =>
      left
      unfold overrun at hover
      split at hover
      next n t hrun => exact run_of_smaller_limit _ frame s hrun (Nat.le_refl limit)
      next => cases hover
    | false =>
      right
      intro limit' fuel hle hfuel
      have hlarge := hsame limit fuel (Nat.lt_of_le_of_lt hle hfuel)
      rw [← hlarge] at hover ⊢
      exact run_of_larger_limit _ frame s hover hle

/-- A recursion without end, through an array that it reads and writes; a function in the array
calls another. -/
def runaway : Program Label :=
  (Heap.empty.load (parse ("let a = [1, function(n) { return f(n); }];" ++
    "function f(n) { a[0] = n + 1; return f(a[0]); } f(a[0]);")).1).1

/-- With two calls, as with any number of them, the recursion is ended by the limit. -/
theorem evaluate_ends_of_plain_entries_runaway :
    everyLiteralOfStmts Location.isPlain runaway.statements ∧
    everyLiteralOfStmts Heap.empty.isUntouched runaway.statements ∧
    ∃ outcome, (∀ fuel, 2 < fuel →
        Bounds.evaluate ⟨2, fuel⟩ Heap.root runaway .empty = outcome) ∧
      ∃ t, outcome = .error (.error (.callDepthExceeded 2)) t := by
  have hplain : everyLiteralOfStmts Location.isPlain runaway.statements := by decide +kernel
  have hfresh : everyLiteralOfStmts Heap.empty.isUntouched runaway.statements := by decide +kernel
  obtain ⟨outcome, hsame, -⟩ :=
    evaluate_ends_of_plain_entries runaway Heap.root .empty hplain rfl hfresh 2
  have hrun : (match Bounds.evaluate ⟨2, 3⟩ Heap.root runaway .empty with
      | .error halt _ => decide (halt = .error (.callDepthExceeded 2))
      | .ok _ _ => false) = true := by decide +kernel
  rw [hsame 3 (by decide)] at hrun
  refine ⟨hplain, hfresh, outcome, hsame, ?_⟩
  cases outcome with
  | ok v t => cases hrun
  | error halt t => exact ⟨t, by rw [of_decide_eq_true hrun]⟩

end Primer
