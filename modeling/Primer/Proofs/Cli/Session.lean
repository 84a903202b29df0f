/-
  Primer/Proofs/Cli/Session.lean
  ==============================
  **Lines are answered one by one, and only variables pass from one to the next.**

  `Reply` says what the answer to a line is and which heap it leaves: a blank line has no answer, a
  line with diagnostics is turned down and leaves the heap alone, and any other line is run by an
  interpreter that has no call under way, whatever was under way when an earlier line failed.
  A `Transcript` puts the answers one behind the other, each after a prompt.

  A line is always replied to, and never stops the reading (`respond_reply`).  By induction, lines
  give their transcript and then whatever the lines behind them give in the heap that was left
  (`readLines_transcript`).
-/
import Primer.Cli.Run
import Mathlib.Data.List.Forall2

namespace Primer.Cli

/-! ### Outputs one after another -/

namespace Output

theorem append_assoc (a b c : Output) : a ++ b ++ c = a ++ (b ++ c) := by
  show Output.mk _ _ = Output.mk _ _
  rw [Output.mk.injEq]
  exact ⟨String.append_assoc .., String.append_assoc ..⟩

@[simp]
theorem empty_append (a : Output) : ({} : Output) ++ a = a := by
  show Output.mk _ _ = a
  simp

end Output

namespace Outcome

@[simp]
theorem after_empty (o : Outcome) : o.after {} = o := by
  simp [after]

theorem after_after (o : Outcome) (a b : Output) : (o.after b).after a = o.after (a ++ b) := by
  simp [after, Output.append_assoc]

end Outcome

/-! ### Diagnostics -/

/-- Only a strict reading rejects a source, and only one that has diagnostics. -/
theorem parseWith_parseOptions (o : Options) (source : String) :
    parseWith o.parseOptions source =
      if o.strict ∧ (parse source).2 ≠ [] then .error ⟨(parse source).2⟩
      else .ok (parse source) := by
  have hsource : parseAs .kept source = parse source := rfl
  simp [parseWith, ParseOptions.layout, Options.parseOptions, hsource]

/-- What is written about a source that has diagnostics. -/
def complaint (o : Options) (diagnostics : List Diagnostic) : Output :=
  if o.strict then .errorLine (Rejection.message ⟨diagnostics⟩)
  else .errorLines (diagnostics.map (·.text))

/-! ### One line -/

/-- How a brand-new interpreter, with no call under way, runs the program of a line in a heap. -/
def evaluateAfresh (o : Options) (heap : Heap) (line : String) :
    EStateM.Result Halt Eval.State Value :=
  (load (parse line).1 >>= o.bounds.evaluate Heap.root) { heap, depth := 0 }

/-- What is written in answer to a line, and the heap that is left. -/
inductive Reply (o : Options) (heap : Heap) (line : String) : Output → Heap → Prop
  | blank : isBlankText line = true → Reply o heap line {} heap
  | unreadable : isBlankText line = false → (parse line).2 ≠ [] →
      Reply o heap line (complaint o (parse line).2) heap
  | value {v : Value} {left : Eval.State} : isBlankText line = false → (parse line).2 = [] →
      evaluateAfresh o heap line = .ok v left → Reply o heap line (.line v.text) left.heap
  | halted {halt : Halt} {left : Eval.State} : isBlankText line = false → (parse line).2 = [] →
      evaluateAfresh o heap line = .error halt left →
      Reply o heap line (.errorLine (haltMessage halt)) left.heap

variable {o : Options}

theorem answer_of_diagnostics {line : String} (s : Eval.State) (hline : (parse line).2 ≠ []) :
    answer o s line = (.unreadable (complaint o (parse line).2), s) := by
  obtain ⟨d, ds, hds⟩ := List.exists_cons_of_ne_nil hline
  have hparse : parse line = ((parse line).1, d :: ds) := Prod.ext rfl hds
  unfold answer complaint
  rw [parseWith_parseOptions, hparse]
  cases o.strict <;> rfl

/-- The calls that an earlier line has left under way do not matter. -/
theorem answer_of_clean {line : String} (s : Eval.State) (hline : (parse line).2 = []) :
    answer o s line = match evaluateAfresh o s.heap line with
      | .ok v left => (.value v, left)
      | .error halt left => (.halted halt, left) := by
  have hparse : parse line = ((parse line).1, []) := Prod.ext rfl hline
  unfold answer evaluateAfresh
  rw [parseWith_parseOptions, hparse, if_neg (by simp)]
  rfl

/-- Without a form in which lines are to be shown, each has its reply. -/
theorem respond_reply (ho : o.inspecting = false) (s : Eval.State) (line : String) :
    ∃ output left, Reply o s.heap line output left.heap ∧
      respond o s line = (output, .ok left) := by
  cases hblank : isBlankText line with
  | true => exact ⟨{}, s, .blank hblank, by simp [respond, hblank]⟩
  | false =>
    have hrespond : respond o s line =
        ((answer o s line).1.output, .ok (answer o s line).2) := by simp [respond, hblank, ho]
    by_cases hline : (parse line).2 = []
    · rw [hrespond, answer_of_clean s hline]
      cases hrun : evaluateAfresh o s.heap line with
      | ok v left => exact ⟨.line v.text, left, .value hblank hline hrun, rfl⟩
      | error halt left =>
        exact ⟨.errorLine (haltMessage halt), left, .halted hblank hline hrun, rfl⟩
    · rw [hrespond, answer_of_diagnostics s hline]
      exact ⟨complaint o (parse line).2, s, .unreadable hblank hline, rfl⟩

/-- Two states that differ at most in the calls under way are answered alike. -/
theorem respond_congr {s t : Eval.State} (h : s.heap = t.heap) (line : String) :
    (respond o s line).1 = (respond o t line).1 ∧
      (respond o s line).2.map (·.heap) = (respond o t line).2.map (·.heap) := by
  unfold respond
  cases isBlankText line with
  | true => simp [h, Except.map]
  | false =>
    cases o.inspecting with
    | true => cases hshown : (inspect o line).2 <;> simp [hshown, h, Except.map]
    | false =>
      by_cases hline : (parse line).2 = []
      · simp [answer_of_clean _ hline, h]
      · simp [answer_of_diagnostics _ hline, h, Except.map]

/-! ### Many lines -/

/-- The answers to lines, each behind a prompt, and the heap that is left. -/
inductive Transcript (o : Options) : Heap → List String → Output → Heap → Prop
  | nil {heap : Heap} : Transcript o heap [] {} heap
  | cons {heap between left : Heap} {line : String} {lines : List String} {output rest : Output} :
      Reply o heap line output between → Transcript o between lines rest left →
      Transcript o heap (line :: lines) (prompt ++ output ++ rest) left

/-! #### Reading on, or not -/

theorem readLines_of_ok {s left : Eval.State} {bytes : List UInt8} {line : String} {output : Output}
    (hbytes : Utf8.decode bytes = .ok line) (hline : respond o s line = (output, .ok left))
    (lines : List (List UInt8)) :
    readLines o s (bytes :: lines) = (readLines o left lines).after (prompt ++ output) := by
  simp [readLines, readLine, hbytes, hline]

theorem readLines_of_error {s : Eval.State} {bytes : List UInt8} {line : String} {output : Output}
    {rejection : Rejection} (hbytes : Utf8.decode bytes = .ok line)
    (hline : respond o s line = (output, .error rejection)) (lines : List (List UInt8)) :
    readLines o s (bytes :: lines) =
      (Outcome.fatal rejection.message).after (prompt ++ output) := by
  simp [readLines, readLine, hbytes, hline]

/-- The calls that are under way do not matter for any of the lines to come. -/
theorem readLines_congr {s t : Eval.State} (h : s.heap = t.heap) (lines : List (List UInt8)) :
    readLines o s lines = readLines o t lines := by
  induction lines generalizing s t with
  | nil => rfl
  | cons bytes lines ih =>
    cases hbytes : Utf8.decode bytes with
    | error fault => simp [readLines, readLine, hbytes]
    | ok line =>
      obtain ⟨houtput, hnext⟩ := respond_congr (o := o) h line
      rcases hs : respond o s line with ⟨output, rejection | s'⟩
      · rcases ht : respond o t line with ⟨output', rejection' | t'⟩
        · rw [hs, ht] at houtput hnext
          cases houtput
          cases hnext
          rw [readLines_of_error hbytes hs, readLines_of_error hbytes ht]
        · rw [hs, ht] at hnext
          cases hnext
      · rcases ht : respond o t line with ⟨output', rejection' | t'⟩
        · rw [hs, ht] at hnext
          cases hnext
        · rw [hs, ht] at houtput hnext
          cases houtput
          rw [readLines_of_ok hbytes hs, readLines_of_ok hbytes ht, ih (Except.ok.inj hnext)]

/-- The bytes of lines stand for these texts. -/
abbrev Decodes (lines : List (List UInt8)) (texts : List String) : Prop :=
  List.Forall₂ (fun bytes text => Utf8.decode bytes = .ok text) lines texts

/-- Lines give their transcript, and then what the lines behind them give in the heap left. -/
theorem readLines_transcript (ho : o.inspecting = false) {lines : List (List UInt8)}
    {texts : List String} (hlines : Decodes lines texts) (s : Eval.State) :
    ∃ output left, Transcript o s.heap texts output left.heap ∧
      ∀ more, readLines o s (lines ++ more) = (readLines o left more).after output := by
  induction hlines generalizing s with
  | nil => exact ⟨{}, s, .nil, fun more => by simp⟩
  | @cons bytes text lines texts hbytes _ ih =>
    obtain ⟨output, between, hreply, hrespond⟩ := respond_reply ho s text
    obtain ⟨rest, left, htranscript, hrest⟩ := ih between
    refine ⟨prompt ++ output ++ rest, left, .cons hreply htranscript, ?_⟩
    intro more
    rw [List.cons_append, readLines_of_ok hbytes hrespond, hrest, Outcome.after_after]

/-- **Lines are isolated from each other.**  Where nothing is to be shown, lines are read up to the
end of the input and answered one by one, each behind a prompt: a line that is blank or has
diagnostics leaves the heap as it is, and every other line is run as by a brand-new interpreter in
the heap that the lines before it have left.  What lines further on give depends on that heap only,
whatever calls were under way when a line before them failed. -/
theorem lines_are_isolated {o : Options} (ho : o.inspecting = false) {lines : List (List UInt8)}
    {texts : List String} (hlines : Decodes lines texts) (s : Eval.State) :
    ∃ output heap, Transcript o s.heap texts output heap ∧
      readLines o s lines = ⟨0, output ++ (prompt ++ .line "")⟩ ∧
      ∀ more depth, readLines o s (lines ++ more) =
        (readLines o { heap, depth } more).after output := by
  obtain ⟨output, left, htranscript, hmore⟩ := readLines_transcript ho hlines s
  refine ⟨output, left.heap, htranscript, ?_, ?_⟩
  · have hend := hmore []
    rwa [List.append_nil] at hend
  · intro more depth
    have hheap : left.heap = (Eval.State.mk left.heap depth).heap := rfl
    rw [hmore more, readLines_congr hheap more]

/-- Lines that fail inside nested calls, as a source and as a name, and one that does not. -/
theorem lines_are_isolated_behind_failures :
    let o : Options := { maxDepth := some 2, strict := true }
    let texts := ["function f(n) { f(n) }\n", "let x = f(1);\n", "let\n", "x\n", "f\n"]
    let lines := texts.map (·.toUTF8.toList)
    o.inspecting = false ∧ Decodes lines texts ∧
      ∃ output heap, Transcript o Heap.empty texts output heap ∧
        readLines o .empty lines = ⟨0, output ++ (prompt ++ .line "")⟩ ∧
        ∀ more depth, readLines o .empty (lines ++ more) =
          (readLines o { heap, depth } more).after output := by
  intro o texts lines
  have hlines : Decodes lines texts := by
    refine .cons ?_ (.cons ?_ (.cons ?_ (.cons ?_ (.cons ?_ .nil)))) <;> decide +kernel
  exact ⟨rfl, hlines, lines_are_isolated rfl hlines .empty⟩

end Primer.Cli
