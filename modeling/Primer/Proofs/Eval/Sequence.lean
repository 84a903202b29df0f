/-
  Primer/Proofs/Eval/Sequence.lean
  ================================
  **A run splits between statements.**

  Running a source behind another in one text, or running both one after the other on the same
  heap, comes to the same.  Four things have to fit together: the second part is read as it would
  be alone (`parse_append_of_clean`), it gets the labels that it would get in a run of its own
  (`Eval.State.statements_append`), the first part is not disturbed by labels that are handed out
  for the second (`executeAll_alike`), and no call is left under way when the first part is done
  (`Eval.State.steady`).  What differs is where in the text the second part stands; so runs are
  compared without spans.
-/
import Primer.Proofs.Eval.Evolution
import Primer.Proofs.Eval.Spans
import Primer.Proofs.Parser.Append

namespace Primer

variable (bounds : Bounds) (frame : FrameId)

/-! ### Statements one after the other -/

/-- The statements behind are executed unless those before have given a signal. -/
theorem executeAll_append {last : Value} (hlast : last.isReturned = false)
    (xs ys : List (Stmt Label)) :
    bounds.executeAll frame last (xs ++ ys) =
      bounds.executeAll frame last xs >>= fun v =>
        if v.isReturned then pure v else bounds.executeAll frame v ys := by
  unfold Bounds.executeAll
  induction xs generalizing last with
  | nil =>
    rw [List.nil_append, execAll, pure_bind, hlast]
    rfl
  | cons x xs ih =>
    rw [List.cons_append, execAll, execAll, bind_assoc]
    congr
    funext v
    cases hv : v.isReturned with
    | true => rw [if_pos rfl, if_pos rfl, pure_bind, hv, if_pos rfl]
    | false =>
      rw [if_neg Bool.false_ne_true, if_neg Bool.false_ne_true]
      exact ih hv

/-- Where there are statements, the value before them does not matter. -/
theorem executeAll_last (v w : Value) {xs : List (Stmt Label)} (hxs : xs ≠ []) :
    bounds.executeAll frame v xs = bounds.executeAll frame w xs := by
  unfold Bounds.executeAll
  cases xs with
  | nil => exact absurd rfl hxs
  | cons x xs => rw [execAll, execAll]

/-! ### Loading a source -/

namespace Eval.State

variable (s : Eval.State) {p q : String}

/-- The statements of a source, labelled for a run from this state. -/
def statements (source : String) : List (Stmt Label) :=
  ((labelStmts (parse source).1.statements).run s.heap.nextLabel).1

/-- The state in which these statements are executed. -/
def loaded (source : String) : Eval.State where
  heap := { s.heap with
    nextLabel := ((labelStmts (parse source).1.statements).run s.heap.nextLabel).2 }
  depth := 0

/-- Labels are handed out to both parts of a source as to two sources. -/
theorem statements_append
    (hend : ∃ t ∈ lex p, t.kind = .semicolon ∧ t.span.stop = p.utf8ByteSize)
    (hp : (parse p).2 = []) (hq : (parse q).2 = []) :
    s.statements (p ++ q) = s.statements p ++
        mapSpansStmts (.shift p.utf8ByteSize) ((s.loaded p).statements q) ∧
      s.loaded (p ++ q) = (s.loaded p).loaded q := by
  have hparse := (parse_append_of_clean hend hp hq).2
  unfold statements loaded
  rw [hparse, labelStmts_append, labelStmts_mapSpans]
  exact ⟨rfl, rfl⟩

/-- Only the next label of a state matters for labels. -/
theorem statements_congr {t : Eval.State} (h : t.heap.nextLabel = s.heap.nextLabel) :
    t.statements q = s.statements q ∧
      (t.loaded q).heap.nextLabel = (s.loaded q).heap.nextLabel := by
  unfold statements loaded
  rw [h]
  exact ⟨rfl, rfl⟩

theorem statements_ne_nil (h : (parse q).1.statements ≠ []) : s.statements q ≠ [] := by
  unfold statements
  cases hq : (parse q).1.statements with
  | nil => exact absurd hq h
  | cons x xs => exact List.cons_ne_nil _ _

end Eval.State

/-! ### Executing the statements of a source -/

/-- Executes the statements of a source as `runSource` does; the signal of a `return` at the top is
kept. -/
def Bounds.executeSource (source : String) : Eval Value := do
  let p ← load (parse source).1
  modify ({ · with depth := 0 })
  bounds.executeBlock frame ⟨p.span, p.statements⟩

theorem executeSource_run (source : String) (s : Eval.State) :
    bounds.executeSource frame source s =
      bounds.executeAll frame .undefined (s.statements source) (s.loaded source) := rfl

/-- A source without diagnostics is run by executing its statements. -/
theorem runSource_of_clean {source : String} (h : (parse source).2 = []) :
    runSource bounds frame source =
      bounds.executeSource frame source >>= fun v => pure (.ok v.unwrap) := by
  have hparse : parseWith { strict := true } source = .ok ((parse source).1, []) := by
    have hsource : parseAs .kept source = ((parse source).1, []) := Prod.ext rfl h
    unfold parseWith ParseOptions.layout
    rw [if_neg Bool.false_ne_true, hsource]
    rfl
  unfold runSource Bounds.evaluate Eval.operand Bounds.executeSource Bounds.executeBlock
  rw [hparse]
  simp only [bind_assoc, pure_bind, Block.exec]

/-! ### Outcomes -/

/-- How a run ends, and what it leaves. -/
abbrev Outcome := EStateM.Result Halt Eval.State (Except Rejection Value)

namespace Outcome

/-- The outcome seen through a translation. -/
def through (T : Translation) : Outcome → Outcome := T.result (Except.map T.value)

/-- The outcome without the spans of all that it holds. -/
def eraseSpans : Outcome → Outcome := through (.ofSpans (fun _ => .zero) id)

/-- The outcome without spans, and without the number of the next label, which counts labels that
were handed out to literals in statements that were never executed. -/
def eraseSpansAndNext : Outcome → Outcome := through (.ofSpans (fun _ => .zero) fun _ => 0)

end Outcome

namespace Translation

variable {T : Translation} {α : Type} {φ : α → α} {r r' : EStateM.Result Halt Eval.State α}
  {t : Eval.State}

theorem result_ok (h : T.result φ r = T.result φ r') {a : α} (hr : r = .ok a t) :
    ∃ a' t', r' = .ok a' t' ∧ φ a = φ a' ∧ T.state t = T.state t' := by
  subst hr
  cases r' with
  | ok a' t' =>
    injection h with ha ht
    exact ⟨a', t', rfl, ha, ht⟩
  | error e t' => cases h

theorem result_error (h : T.result φ r = T.result φ r') {e : Halt} (hr : r = .error e t) :
    ∃ t', r' = .error e t' ∧ T.state t = T.state t' := by
  subst hr
  cases r' with
  | ok a' t' => cases h
  | error e' t' =>
    injection h with he ht
    subst he
    exact ⟨t', rfl, ht⟩

theorem state_loaded {f : Span → Span} {n : Label} {source : String} (h : t.depth = 0) :
    (ofSpans f fun _ => n).state t = (ofSpans f fun _ => n).state (t.loaded source) := by
  unfold state
  rw [h]
  rfl

end Translation

/-- Sources whose statements end alike have like outcomes. -/
theorem runSource_alike {T : Translation} {p q : String} {s t : Eval.State}
    (hp : (parse p).2 = []) (hq : (parse q).2 = [])
    (h : T.result T.value (bounds.executeSource frame p s) =
      T.result T.value (bounds.executeSource frame q t)) :
    Outcome.through T (runSource bounds frame p s) =
      Outcome.through T (runSource bounds frame q t) := by
  rw [runSource_of_clean bounds frame hp, runSource_of_clean bounds frame hq]
  cases hs : bounds.executeSource frame p s with
  | ok v u =>
    obtain ⟨w, u', ht, hvalue, hstate⟩ := Translation.result_ok h hs
    rw [bind_of_ok hs, bind_of_ok ht]
    show EStateM.Result.ok (Except.ok (T.value v.unwrap)) (T.state u) =
      EStateM.Result.ok (Except.ok (T.value w.unwrap)) (T.state u')
    rw [← T.unwrap_value, ← T.unwrap_value, hvalue, hstate]
  | error e u =>
    obtain ⟨u', ht, hstate⟩ := Translation.result_error h hs
    rw [bind_of_error hs, bind_of_error ht]
    exact congrArg (EStateM.Result.error e) hstate

/-! ### Runs of two sources -/

section

variable {p q : String} (s : Eval.State) (hp : (parse p).2 = []) (hq : (parse q).2 = [])
  (hend : ∃ t ∈ lex p, t.kind = .semicolon ∧ t.span.stop = p.utf8ByteSize)
include hp hq hend

/-- The first part of a source is executed as it is alone, but for the next label. -/
theorem executeSource_first (n : Label) :
    let T := Translation.ofSpans (fun _ => .zero) fun _ => n
    T.result T.value (bounds.executeSource frame p s) =
      T.result T.value
        (bounds.executeAll frame .undefined (s.statements p) (s.loaded (p ++ q))) := by
  intro T
  rw [executeSource_run, (s.statements_append hend hp hq).2]
  exact executeAll_alike bounds frame rfl rfl rfl

/-- What is left to do in a run of both parts once the first part is done. -/
theorem executeSource_append :
    bounds.executeSource frame (p ++ q) s =
      (bounds.executeAll frame .undefined (s.statements p) >>= fun v =>
        if v.isReturned then pure v
        else bounds.executeAll frame v
          (mapSpansStmts (.shift p.utf8ByteSize) ((s.loaded p).statements q)))
        (s.loaded (p ++ q)) := by
  rw [executeSource_run, (s.statements_append hend hp hq).1, executeAll_append _ _ rfl]

/-- Where the second part starts, the states of both runs differ in spans only. -/
theorem executeSource_between {v w : Value} {t t' : Eval.State}
    (hs : bounds.executeSource frame p s = .ok v t)
    (hs' : bounds.executeAll frame .undefined (s.statements p) (s.loaded (p ++ q)) = .ok w t') :
    t.statements q = (s.loaded p).statements q ∧
      let T := Translation.ofSpans (fun _ => .zero) id
      T.state t' = T.state (t.loaded q) := by
  have hevolves : Evolves Eval.State.Steady (bounds.executeAll frame .undefined (s.statements p)) :=
    Eval.State.steady.execAll (Eval.State.steady.jump _ _) frame _ _
  have hsteady : (s.loaded p).Steady t := hevolves.ok hs
  have hsteady' : (s.loaded (p ++ q)).Steady t' := hevolves.ok hs'
  obtain ⟨hstatements, hnext⟩ := (s.loaded p).statements_congr (q := q) hsteady.nextLabel
  refine ⟨hstatements, ?_⟩
  intro T
  let n := t'.heap.nextLabel
  let N := Translation.ofSpans (fun _ => .zero) fun _ => n
  have hn : (t.loaded q).heap.nextLabel = n := by
    rw [hnext, ← (s.statements_append hend hp hq).2]
    exact hsteady'.nextLabel.symm
  have hstate : N.state t = N.state t' := by
    obtain ⟨_, _, ht', -, hstate⟩ :=
      Translation.result_ok (executeSource_first bounds frame s hp hq hend n) hs
    cases hs'.symm.trans ht'
    exact hstate
  calc
    T.state t' = N.state t' := Translation.state_ofSpans rfl
    _ = N.state t := hstate.symm
    _ = N.state (t.loaded q) := Translation.state_loaded hsteady.depth
    _ = T.state (t.loaded q) := (Translation.state_ofSpans hn).symm

/-- Behind the first part of a source the second is executed as it is alone. -/
theorem executeSource_second (hne : (parse q).1.statements ≠ []) {v w : Value} {t t' : Eval.State}
    (hs : bounds.executeSource frame p s = .ok v t)
    (hs' : bounds.executeAll frame .undefined (s.statements p) (s.loaded (p ++ q)) = .ok w t') :
    let T := Translation.ofSpans (fun _ => .zero) id
    T.result T.value (bounds.executeAll frame w
        (mapSpansStmts (.shift p.utf8ByteSize) ((s.loaded p).statements q)) t') =
      T.result T.value (bounds.executeSource frame q t) := by
  obtain ⟨hstatements, hstate⟩ := executeSource_between bounds frame s hp hq hend hs hs'
  intro T
  rw [executeSource_run, hstatements,
    executeAll_last bounds frame .undefined w ((s.loaded p).statements_ne_nil hne)]
  exact executeAll_alike bounds frame rfl (mapSpansStmts_mapSpans (fun _ => rfl) _) hstate

end

/-- **A run splits between statements.**  Let both sources be read without diagnostics, and let the
first end in a semicolon and the second have a statement.  If the statements of the first end in a
value that is no signal, then running both as one text comes to the same as running one after the
other.  If they halt or end in the signal of a `return`, it comes to the same as running the first
alone. -/
theorem runSource_append (s : Eval.State) {p q : String} (hp : (parse p).2 = [])
    (hq : (parse q).2 = [])
    (hend : ∃ t ∈ lex p, t.kind = .semicolon ∧ t.span.stop = p.utf8ByteSize)
    (hne : (parse q).1.statements ≠ []) :
    match bounds.executeSource frame p s with
    | .ok v _ =>
      if v.isReturned then
        Outcome.eraseSpansAndNext (runSource bounds frame (p ++ q) s) =
          Outcome.eraseSpansAndNext (runSource bounds frame p s)
      else
        Outcome.eraseSpans (runSource bounds frame (p ++ q) s) =
          Outcome.eraseSpans ((do
            let _ ← runSource bounds frame p
            runSource bounds frame q) s)
    | .error _ _ =>
      Outcome.eraseSpansAndNext (runSource bounds frame (p ++ q) s) =
        Outcome.eraseSpansAndNext (runSource bounds frame p s) := by
  have hpq := (parse_append_of_clean hend hp hq).1
  have happend := executeSource_append bounds frame s hp hq hend
  have hfirst := executeSource_first bounds frame s hp hq hend 0
  cases hs : bounds.executeSource frame p s with
  | error e t =>
    obtain ⟨t', ht, hstate⟩ := Translation.result_error hfirst hs
    rw [bind_of_error ht] at happend
    apply runSource_alike bounds frame hpq hp
    rw [happend, hs]
    exact congrArg (EStateM.Result.error e) hstate.symm
  | ok v t =>
    obtain ⟨w, t', ht, hvalue, hstate⟩ := Translation.result_ok hfirst hs
    have hw : w.isReturned = v.isReturned := by
      rw [← Translation.isReturned_value, ← hvalue, Translation.isReturned_value]
    rw [bind_of_ok ht, hw] at happend
    dsimp only
    cases hv : v.isReturned with
    | true =>
      rw [hv, if_pos rfl] at happend
      apply runSource_alike bounds frame hpq hp
      rw [happend, hs]
      exact congrArg₂ EStateM.Result.ok hvalue.symm hstate.symm
    | false =>
      rw [hv, if_neg Bool.false_ne_true] at happend
      have hrun : runSource bounds frame p s = .ok (.ok v.unwrap) t := by
        rw [runSource_of_clean bounds frame hp, bind_of_ok hs]
        rfl
      rw [if_neg Bool.false_ne_true, bind_of_ok hrun]
      apply runSource_alike bounds frame hpq hq
      rw [happend]
      exact executeSource_second bounds frame s hp hq hend hne hs ht

/-- A source that makes an array and assigns to one of its entries. -/
def arraySource : String := "let a = [1, 2]; a[0] = 3;"

theorem runSource_append_arraySource :
    (match runSource ⟨128, 8⟩ Heap.root (arraySource ++ "a[0] + a[1]") .empty with
      | .ok (.ok v) _ => v.text
      | _ => "") = "5 : integer" ∧
    Outcome.eraseSpans (runSource ⟨128, 8⟩ Heap.root (arraySource ++ "a[0] + a[1]") .empty) =
      Outcome.eraseSpans ((do
        let _ ← runSource ⟨128, 8⟩ Heap.root arraySource
        runSource ⟨128, 8⟩ Heap.root "a[0] + a[1]") .empty) := by
  have hclean : (parse arraySource).2 = [] := by decide +kernel
  have hclean' : (parse "a[0] + a[1]").2 = [] := by decide +kernel
  have hend : ∃ t ∈ lex arraySource,
      t.kind = .semicolon ∧ t.span.stop = arraySource.utf8ByteSize := by decide +kernel
  have hsome : (parse "a[0] + a[1]").1.statements.isEmpty = false := by decide +kernel
  have hne : (parse "a[0] + a[1]").1.statements ≠ [] := by
    intro hnil
    rw [hnil] at hsome
    exact absurd hsome nofun
  have hplain : (match Bounds.executeSource ⟨128, 8⟩ Heap.root arraySource .empty with
      | .ok v _ => v.isReturned
      | .error _ _ => true) = false := by decide +kernel
  refine ⟨by decide +kernel, ?_⟩
  have hsplit := runSource_append ⟨128, 8⟩ Heap.root .empty hclean hclean' hend hne
  split at hsplit
  next v t hrun =>
    rw [hrun] at hplain
    rw [if_neg (Bool.eq_false_iff.1 hplain)] at hsplit
    exact hsplit
  next hrun =>
    rw [hrun] at hplain
    exact absurd hplain nofun

end Primer
