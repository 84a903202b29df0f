/-
  Primer/Proofs/Eval/Loading.lean
  ===============================
  **What is known of a program that was just loaded.**

  Loading hands out labels in the order in which literals and functions are met, from the next free
  label on and below the one that is free next (`Labels`).  So no literal of the program has a label
  to which anything has been assigned yet, and what the program does is what it did before it got
  labels.  Of the latter only one thing is needed: whether the program assigns to entries
  (`Expr.assignsNoEntry`).
-/
import Primer.Proofs.Eval.Termination

namespace Primer

variable {α β ι : Type}

/-! ### Code that assigns to no entry -/

/-- Is the expression `container[key]`? -/
def Expr.isIndex : Expr ι → Bool
  | .index .. => true
  | _ => false

mutual

/-- Is no entry assigned to in the expression, nor in bodies of functions and entries of literals
in it? -/
def Expr.assignsNoEntry : Expr ι → Bool
  | .ident .. => true
  | .str .. => true
  | .int .. => true
  | .bool .. => true
  | .unary _ _ e => e.assignsNoEntry
  | .binary _ _ left right => left.assignsNoEntry && right.assignsNoEntry
  | .cond _ condition consequence none =>
    condition.assignsNoEntry && consequence.assignsNoEntry
  | .cond _ condition consequence (some alternative) =>
    condition.assignsNoEntry && consequence.assignsNoEntry && alternative.assignsNoEntry
  | .function _ fn => fn.assignsNoEntry
  | .call _ callee args => callee.assignsNoEntry && assignsNoEntryInExprs args
  | .index _ container key => container.assignsNoEntry && key.assignsNoEntry
  | .assign _ target value =>
    !target.isIndex && target.assignsNoEntry && value.assignsNoEntry
  | .object _ _ properties => assignsNoEntryInProperties properties
  | .array _ _ elements => assignsNoEntryInExprs elements

def Stmt.assignsNoEntry : Stmt ι → Bool
  | .declare _ _ _ none => true
  | .declare _ _ _ (some value) => value.assignsNoEntry
  | .function _ _ fn => fn.assignsNoEntry
  | .ret _ value => value.assignsNoEntry
  | .expr _ value => value.assignsNoEntry

def Block.assignsNoEntry : Block ι → Bool
  | ⟨_, statements⟩ => assignsNoEntryInStmts statements

def Function.assignsNoEntry : Function ι → Bool
  | ⟨_, _, _, _, body⟩ => body.assignsNoEntry

def assignsNoEntryInExprs : List (Expr ι) → Bool
  | [] => true
  | e :: es => e.assignsNoEntry && assignsNoEntryInExprs es

def assignsNoEntryInStmts : List (Stmt ι) → Bool
  | [] => true
  | x :: xs => x.assignsNoEntry && assignsNoEntryInStmts xs

def assignsNoEntryInProperties : List (Property (Option (Expr ι))) → Bool
  | [] => true
  | ⟨_, _, none⟩ :: ps => assignsNoEntryInProperties ps
  | ⟨_, _, some e⟩ :: ps => e.assignsNoEntry && assignsNoEntryInProperties ps

end

theorem assignsNoEntry_of_mem_exprs {es : List (Expr ι)} (h : assignsNoEntryInExprs es) :
    ∀ e ∈ es, e.assignsNoEntry := by
  induction es with
  | nil => exact nofun
  | cons e es ih =>
    rw [assignsNoEntryInExprs, Bool.and_eq_true] at h
    exact List.forall_mem_cons.2 ⟨h.1, ih h.2⟩

theorem assignsNoEntry_of_mem_properties {ps : List (Property (Option (Expr ι)))}
    (h : assignsNoEntryInProperties ps) : ∀ p ∈ ps, p.expr.assignsNoEntry := by
  induction ps with
  | nil => exact nofun
  | cons p ps ih =>
    obtain ⟨span, key, value⟩ := p
    rw [List.forall_mem_cons]
    cases value with
    | none =>
      rw [assignsNoEntryInProperties] at h
      -- a key alone stands for a name
      exact ⟨rfl, ih h⟩
    | some e =>
      rw [assignsNoEntryInProperties, Bool.and_eq_true] at h
      exact ⟨h.1, ih h.2⟩

/-! ### Labels of a program that was just loaded -/

/-- Labels are handed out in order; if they are from `n` on and below `k`, what is labelled is as
`Q` says. -/
structure Labels (n k : Label) (x : Labelling α) (Q : α → Prop) : Prop where
  mono : ∀ m, m ≤ (x.run m).2
  holds : ∀ m, n ≤ m → (x.run m).2 ≤ k → Q (x.run m).1

namespace Labels

variable {n k : Label} {x : Labelling α} {P : α → Prop} {Q : β → Prop}

theorem pure {a : α} (h : P a) : Labels n k (pure a) P where
  mono _ := Nat.le_refl _
  holds _ _ _ := h

theorem bind {f : α → Labelling β} (hx : Labels n k x P)
    (hf : ∀ a, Labels n k (f a) fun b => P a → Q b) : Labels n k (x >>= f) Q where
  mono m := Nat.le_trans (hx.mono m) ((hf _).mono _)
  holds m hn hk :=
    (hf _).holds _ (Nat.le_trans hn (hx.mono m)) hk
      (hx.holds m hn (Nat.le_trans ((hf _).mono _) hk))

theorem freshLabel : Labels n k freshLabel fun label => n ≤ label ∧ label < k where
  mono m := Nat.le_succ m
  holds _ hn hk := ⟨hn, hk⟩

end Labels

/-- All lists with labels from `n` on and below `k` pass the test. -/
structure PassesBetween (n k : Label) (test : Location → Bool) : Prop where
  object : ∀ label properties, n ≤ label → label < k → test (.object label properties)
  array : ∀ label elements, n ≤ label → label < k → test (.array label elements)

section

variable {n k : Label} {test : Location → Bool}

mutual

/-- Literals pass a test that is passed with whatever label they may get, and code stays what it
is. -/
theorem Expr.label_labels (htest : PassesBetween n k test) (e : Expr ι) :
    Labels n k e.label fun e' =>
      e'.isIndex = e.isIndex ∧ e'.assignsNoEntry = e.assignsNoEntry ∧ e'.everyLiteral test := by
  cases e with
  | ident | str | int | bool =>
    rw [Expr.label]
    exact .pure ⟨rfl, rfl, rfl⟩
  | unary _ op e =>
    rw [Expr.label]
    apply Labels.bind (e.label_labels htest)
    intro e'
    apply Labels.pure
    intro he
    simp [Expr.isIndex, Expr.assignsNoEntry, Expr.everyLiteral, he]
  | binary _ op left right =>
    rw [Expr.label]
    apply Labels.bind (left.label_labels htest)
    intro l
    apply Labels.bind (right.label_labels htest)
    intro r
    apply Labels.pure
    intro hr hl
    simp [Expr.isIndex, Expr.assignsNoEntry, Expr.everyLiteral, hl, hr]
  | cond _ condition consequence alternative =>
    cases alternative with
    | none =>
      rw [Expr.label]
      apply Labels.bind (condition.label_labels htest)
      intro c
      apply Labels.bind (consequence.label_labels htest)
      intro b
      apply Labels.pure
      intro hb hc
      simp [Expr.isIndex, Expr.assignsNoEntry, Expr.everyLiteral, hc, hb]
    | some alternative =>
      rw [Expr.label]
      apply Labels.bind (condition.label_labels htest)
      intro c
      apply Labels.bind (consequence.label_labels htest)
      intro b
      apply Labels.bind (alternative.label_labels htest)
      intro a
      apply Labels.pure
      intro ha hb hc
      simp [Expr.isIndex, Expr.assignsNoEntry, Expr.everyLiteral, hc, hb, ha]
  | function _ fn =>
    rw [Expr.label]
    apply Labels.bind (fn.relabel_labels htest)
    intro fn'
    apply Labels.pure
    intro hfn
    simp [Expr.isIndex, Expr.assignsNoEntry, Expr.everyLiteral, hfn]
  | call _ callee args =>
    rw [Expr.label]
    apply Labels.bind (callee.label_labels htest)
    intro c
    apply Labels.bind (labelExprs_labels htest args)
    intro es
    apply Labels.pure
    intro hes hc
    simp [Expr.isIndex, Expr.assignsNoEntry, Expr.everyLiteral, hc, hes]
  | index _ container key =>
    rw [Expr.label]
    apply Labels.bind (container.label_labels htest)
    intro c
    apply Labels.bind (key.label_labels htest)
    intro i
    apply Labels.pure
    intro hi hc
    simp [Expr.isIndex, Expr.assignsNoEntry, Expr.everyLiteral, hc, hi]
  | assign _ target value =>
    rw [Expr.label]
    apply Labels.bind (target.label_labels htest)
    intro t
    apply Labels.bind (value.label_labels htest)
    intro v
    apply Labels.pure
    intro hv ht
    refine ⟨rfl, ?_⟩
    simp [Expr.assignsNoEntry, Expr.everyLiteral, ht, hv]
  | object _ _ properties =>
    rw [Expr.label]
    apply Labels.bind .freshLabel
    intro label
    apply Labels.bind (labelProperties_labels htest properties)
    intro ps
    apply Labels.pure
    intro hps hlabel
    have hpasses := htest.object label ps hlabel.1 hlabel.2
    simp [Expr.isIndex, Expr.assignsNoEntry, Expr.everyLiteral, hps, hpasses]
  | array _ _ elements =>
    rw [Expr.label]
    apply Labels.bind .freshLabel
    intro label
    apply Labels.bind (labelExprs_labels htest elements)
    intro es
    apply Labels.pure
    intro hes hlabel
    have hpasses := htest.array label es hlabel.1 hlabel.2
    simp [Expr.isIndex, Expr.assignsNoEntry, Expr.everyLiteral, hes, hpasses]

theorem Stmt.label_labels (htest : PassesBetween n k test) (x : Stmt ι) :
    Labels n k x.label fun x' =>
      x'.assignsNoEntry = x.assignsNoEntry ∧ x'.everyLiteral test := by
  cases x with
  | declare _ _ name value =>
    cases value with
    | none =>
      rw [Stmt.label]
      exact .pure ⟨rfl, rfl⟩
    | some value =>
      rw [Stmt.label]
      apply Labels.bind (value.label_labels htest)
      intro v
      apply Labels.pure
      intro hv
      simp [Stmt.assignsNoEntry, Stmt.everyLiteral, hv]
  | function _ name fn =>
    rw [Stmt.label]
    apply Labels.bind (fn.relabel_labels htest)
    intro fn'
    apply Labels.pure
    intro hfn
    simp [Stmt.assignsNoEntry, Stmt.everyLiteral, hfn]
  | ret _ value | expr _ value =>
    rw [Stmt.label]
    apply Labels.bind (value.label_labels htest)
    intro v
    apply Labels.pure
    intro hv
    simp [Stmt.assignsNoEntry, Stmt.everyLiteral, hv]

theorem Block.label_labels (htest : PassesBetween n k test) (b : Block ι) :
    Labels n k b.label fun b' =>
      b'.assignsNoEntry = b.assignsNoEntry ∧ b'.everyLiteral test := by
  cases b with
  | mk _ statements =>
    rw [Block.label]
    apply Labels.bind (labelStmts_labels htest statements)
    intro xs
    apply Labels.pure
    intro hxs
    simp [Block.assignsNoEntry, Block.everyLiteral, hxs]

theorem Function.relabel_labels (htest : PassesBetween n k test) (fn : Function ι) :
    Labels n k fn.relabel fun fn' =>
      fn'.assignsNoEntry = fn.assignsNoEntry ∧ fn'.everyLiteral test := by
  cases fn with
  | mk _ _ _ _ body =>
    rw [Function.relabel]
    apply Labels.bind .freshLabel
    intro label
    apply Labels.bind (body.label_labels htest)
    intro b
    apply Labels.pure
    intro hb _
    simp [Function.assignsNoEntry, Function.everyLiteral, hb]

theorem labelExprs_labels (htest : PassesBetween n k test) (es : List (Expr ι)) :
    Labels n k (labelExprs es) fun es' =>
      assignsNoEntryInExprs es' = assignsNoEntryInExprs es ∧ everyLiteralOfExprs test es' := by
  cases es with
  | nil =>
    rw [labelExprs]
    exact .pure ⟨rfl, rfl⟩
  | cons e es =>
    rw [labelExprs]
    apply Labels.bind (e.label_labels htest)
    intro e'
    apply Labels.bind (labelExprs_labels htest es)
    intro es'
    apply Labels.pure
    intro hes he
    simp [assignsNoEntryInExprs, everyLiteralOfExprs, he, hes]

theorem labelStmts_labels (htest : PassesBetween n k test) (xs : List (Stmt ι)) :
    Labels n k (labelStmts xs) fun xs' =>
      assignsNoEntryInStmts xs' = assignsNoEntryInStmts xs ∧ everyLiteralOfStmts test xs' := by
  cases xs with
  | nil =>
    rw [labelStmts]
    exact .pure ⟨rfl, rfl⟩
  | cons x xs =>
    rw [labelStmts]
    apply Labels.bind (x.label_labels htest)
    intro x'
    apply Labels.bind (labelStmts_labels htest xs)
    intro xs'
    apply Labels.pure
    intro hxs hx
    simp [assignsNoEntryInStmts, everyLiteralOfStmts, hx, hxs]

theorem labelProperties_labels (htest : PassesBetween n k test)
    (ps : List (Property (Option (Expr ι)))) :
    Labels n k (labelProperties ps) fun ps' =>
      assignsNoEntryInProperties ps' = assignsNoEntryInProperties ps ∧
        everyLiteralOfProperties test ps' := by
  cases ps with
  | nil =>
    rw [labelProperties]
    exact .pure ⟨rfl, rfl⟩
  | cons p ps =>
    obtain ⟨span, key, value⟩ := p
    cases value with
    | none =>
      rw [labelProperties]
      apply Labels.bind (labelProperties_labels htest ps)
      intro ps'
      apply Labels.pure
      intro hps
      simp [assignsNoEntryInProperties, everyLiteralOfProperties, hps]
    | some value =>
      rw [labelProperties]
      apply Labels.bind (value.label_labels htest)
      intro v
      apply Labels.bind (labelProperties_labels htest ps)
      intro ps'
      apply Labels.pure
      intro hps hv
      simp [assignsNoEntryInProperties, everyLiteralOfProperties, hv, hps]

end

end

/-! ### Loading -/

namespace Heap

/-- Nothing has been assigned to literals with labels that are yet to be handed out.  It is so in
every state that comes about when sources are run. -/
def LabelsAreFree (h : Heap) : Prop :=
  ∀ label, h.nextLabel ≤ label → h.properties.get? label = none ∧ h.slots.get? label = none

theorem empty_labelsAreFree : empty.LabelsAreFree := fun _ _ => ⟨rfl, rfl⟩

variable {h : Heap}

theorem LabelsAreFree.passesBetween (hfree : h.LabelsAreFree) (k : Label) :
    PassesBetween h.nextLabel k h.isUntouched where
  object label _ hlabel _ := Option.isNone_iff_eq_none.2 (hfree label hlabel).1
  array label _ hlabel _ := Option.isNone_iff_eq_none.2 (hfree label hlabel).2

/-- Nothing has been assigned to the literals of a program that was just loaded, and the program
assigns to entries if it did so before. -/
theorem LabelsAreFree.load (hfree : h.LabelsAreFree) (p : Program ι) :
    everyLiteralOfStmts h.isUntouched (h.load p).1.statements ∧
      assignsNoEntryInStmts (h.load p).1.statements = assignsNoEntryInStmts p.statements := by
  have hlabels := (labelStmts_labels (hfree.passesBetween (h.load p).2.nextLabel)
    p.statements).holds h.nextLabel (Nat.le_refl _) (Nat.le_refl _)
  exact ⟨hlabels.2, hlabels.1⟩

end Heap

end Primer
