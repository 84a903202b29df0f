/-
  Primer/Proofs/Cli/Strict.lean
  =============================
  **When a strict reading changes more than how diagnostics are written.**

  A strict reading is meant to change the form of diagnostics only, and where a source is run it
  does: the exit code is the same, and lines are read to their end.  Where the tree of a source is
  shown, a rejection ends the whole run instead (`inspect_of_rejected`): a file with diagnostics
  gives exit code 1 in place of 65, and the first such line is the last one read.

  The main statement gives the exact condition for both ways of running the program
  (`strict_changes_exit_iff`).
-/
import Primer.Proofs.Cli.Session

namespace Primer.Cli

namespace Options

/-- The same options, to read strictly or not. -/
def reading (o : Options) (strict : Bool) : Options := { o with strict }

/-- Is the tree of a source to be shown? -/
def showsTree (o : Options) : Bool := o.ast || o.sexpr

/-- Is a source read into a tree at all? Otherwise only its tokens are shown. -/
def parses (o : Options) : Bool := o.showsTree || !o.tokens

end Options

/-- The tree of the source is to be shown, but the source has diagnostics. -/
def ShowsFaulty (o : Options) (source : String) : Prop :=
  o.showsTree = true ∧ (parse source).2 ≠ []

/-! ### Sources -/

variable {o : Options} {source : String}

/-- A rejection goes through to the caller. -/
theorem inspect_of_rejected (hstrict : o.strict = true) (h : ShowsFaulty o source) :
    (inspect o source).2 = .error ⟨(parse source).2⟩ := by
  obtain ⟨htree, hsource⟩ := h
  have htree : (o.ast || o.sexpr) = true := htree
  simp [inspect, htree, parseWith_parseOptions, hstrict, hsource]

/-- Otherwise it is told whether the source has diagnostics, if it was read at all. -/
theorem inspect_of_accepted (h : ¬(o.strict = true ∧ ShowsFaulty o source)) :
    (inspect o source).2 = .ok (!o.showsTree || (parse source).2.isEmpty) := by
  unfold inspect ShowsFaulty Options.showsTree at *
  rw [parseWith_parseOptions]
  by_cases htree : (o.ast || o.sexpr) = true
  · have hparse : ¬(o.strict = true ∧ (parse source).2 ≠ []) := fun h' => h ⟨h'.1, htree, h'.2⟩
    rw [if_pos htree, if_neg hparse, htree]
    rfl
  · rw [Bool.not_eq_true] at htree
    rw [htree]
    rfl

theorem runSourceText_of_inspecting (ho : o.inspecting = true) : (runSourceText o source).exit =
    match (inspect o source).2 with
    | .ok true => 0
    | .ok false => 65
    | .error _ => 1 := by
  unfold runSourceText
  rw [if_pos ho]
  rcases inspect o source with ⟨output, rejection | clean⟩
  · rfl
  · cases clean <;> rfl

theorem runSourceText_of_not_inspecting (ho : o.inspecting = false) :
    (runSourceText o source).exit = (answer o .empty source).1.exit := by
  simp [runSourceText, ho]

theorem inspecting_of_showsTree (h : o.showsTree = true) : o.inspecting = true := by
  have htree : (o.ast || o.sexpr) = true := h
  simp [Options.inspecting, Bool.or_assoc, htree]

/-- A source is read to show its tree or to be run. -/
theorem parses_iff : o.parses = true ↔ o.showsTree = true ∨ o.inspecting = false := by
  unfold Options.parses Options.inspecting Options.showsTree
  cases o.tokens <;> cases o.ast <;> cases o.sexpr <;> decide

theorem exit_of_rejected (hstrict : o.strict = true) (h : ShowsFaulty o source) :
    (runSourceText o source).exit = 1 := by
  rw [runSourceText_of_inspecting (inspecting_of_showsTree h.1), inspect_of_rejected hstrict h]

/-- A source that is read and has diagnostics is turned down with the exit code for that. -/
theorem exit_of_faulty (hparses : o.parses = true) (hsource : (parse source).2 ≠ [])
    (h : ¬(o.strict = true ∧ ShowsFaulty o source)) : (runSourceText o source).exit = 65 := by
  rcases parses_iff.1 hparses with htree | ho
  · rw [runSourceText_of_inspecting (inspecting_of_showsTree htree), inspect_of_accepted h, htree,
      List.isEmpty_eq_false_iff.2 hsource]
    rfl
  · rw [runSourceText_of_not_inspecting ho, answer_of_diagnostics _ hsource]
    rfl

/-- The exit code of a source that is not read, or has no diagnostics, does not depend on how
diagnostics are taken. -/
theorem exit_of_not_faulty (h : o.parses = true → (parse source).2 = []) (strict : Bool) :
    (runSourceText (o.reading strict) source).exit = (runSourceText o source).exit := by
  cases ho : o.inspecting with
  | true =>
    have hshown (o' : Options) (ho' : o'.showsTree = o.showsTree) :
        (inspect o' source).2 = .ok true := by
      have hclean : o.showsTree = true → (parse source).2 = [] :=
        fun htree => h (parses_iff.2 (.inl htree))
      rw [inspect_of_accepted, ho', Except.ok.injEq]
      · cases htree : o.showsTree with
        | true => simp [hclean htree]
        | false => rfl
      · rintro ⟨-, htree, hfaulty⟩
        exact hfaulty (hclean (ho' ▸ htree))
    rw [runSourceText_of_inspecting ho, runSourceText_of_inspecting (o := o.reading strict) ho,
      hshown o rfl, hshown (o.reading strict) rfl]
  | false =>
    have hclean := h (parses_iff.2 (.inr ho))
    rw [runSourceText_of_not_inspecting ho,
      runSourceText_of_not_inspecting (o := o.reading strict) ho, answer_of_clean _ hclean,
      answer_of_clean _ hclean]
    rfl

/-- A file has the same exit code either way, unless its tree is shown and it has diagnostics. -/
theorem exit_reading_iff (o : Options) (source : String) :
    (runSourceText (o.reading true) source).exit = (runSourceText (o.reading false) source).exit ↔
      ¬ShowsFaulty o source := by
  have hlenient : ¬((o.reading false).strict = true ∧ ShowsFaulty (o.reading false) source) :=
    fun h => nomatch h.1
  constructor
  · intro heq hfaulty
    have hparses : (o.reading false).parses = true := parses_iff.2 (.inl hfaulty.1)
    rw [exit_of_rejected (o := o.reading true) rfl hfaulty,
      exit_of_faulty hparses hfaulty.2 hlenient] at heq
    cases heq
  · intro hshown
    by_cases hfaulty : o.parses = true ∧ (parse source).2 ≠ []
    · rw [exit_of_faulty (o := o.reading false) hfaulty.1 hfaulty.2 hlenient,
        exit_of_faulty (o := o.reading true) hfaulty.1 hfaulty.2 fun h => hshown h.2]
    · have hclean : o.parses = true → (parse source).2 = [] :=
        fun hparses => by_contra fun hsource => hfaulty ⟨hparses, hsource⟩
      rw [exit_of_not_faulty hclean, exit_of_not_faulty hclean]

/-! ### Lines -/

/-- All the lines are read, and reading then goes on with what is behind them. -/
def ReadsThrough (o : Options) (s : Eval.State) (lines : List (List UInt8)) : Prop :=
  ∃ output left, ∀ more, readLines o s (lines ++ more) = (readLines o left more).after output

/-- At the end of the input the exit code is that of success. -/
theorem ReadsThrough.exit {s : Eval.State} {lines : List (List UInt8)}
    (h : ReadsThrough o s lines) : (readLines o s lines).exit = 0 := by
  obtain ⟨output, left, hmore⟩ := h
  rw [← List.append_nil lines, hmore []]
  rfl

/-- Is the line answered with a rejection that ends the reading? -/
def Stops (o : Options) (line : String) : Prop :=
  o.strict = true ∧ isBlankText line = false ∧ ShowsFaulty o line

theorem respond_of_stops {line : String} (h : Stops o line) (s : Eval.State) :
    ∃ output, respond o s line = (output, .error ⟨(parse line).2⟩) := by
  obtain ⟨hstrict, hblank, hfaulty⟩ := h
  have hresult := inspect_of_rejected hstrict hfaulty
  refine ⟨(inspect o line).1, ?_⟩
  simp [respond, hblank, inspecting_of_showsTree hfaulty.1, hresult, Except.map]

theorem respond_of_not_stops {line : String} (h : ¬Stops o line) (s : Eval.State) :
    ∃ output left, respond o s line = (output, .ok left) := by
  cases ho : o.inspecting with
  | false =>
    obtain ⟨output, left, -, hrespond⟩ := respond_reply ho s line
    exact ⟨output, left, hrespond⟩
  | true =>
    cases hblank : isBlankText line with
    | true => exact ⟨{}, s, by simp [respond, hblank]⟩
    | false =>
      have hresult := inspect_of_accepted fun hrejected => h ⟨hrejected.1, hblank, hrejected.2⟩
      exact ⟨(inspect o line).1, s, by simp [respond, hblank, ho, hresult, Except.map]⟩

theorem readsThrough_of_not_stops {lines : List (List UInt8)} {texts : List String}
    (hlines : Decodes lines texts) (h : ∀ text ∈ texts, ¬Stops o text) (s : Eval.State) :
    ReadsThrough o s lines := by
  induction hlines generalizing s with
  | nil => exact ⟨{}, s, fun more => by simp⟩
  | @cons bytes text lines texts hbytes _ ih =>
    rw [List.forall_mem_cons] at h
    obtain ⟨output, next, hrespond⟩ := respond_of_not_stops h.1 s
    obtain ⟨rest, left, hmore⟩ := ih h.2 next
    refine ⟨prompt ++ output ++ rest, left, ?_⟩
    intro more
    rw [List.cons_append, readLines_of_ok hbytes hrespond, hmore, Outcome.after_after]

/-- The first rejected line ends the reading, with the exit code of a run that cannot go on. -/
theorem exit_of_stops {lines : List (List UInt8)} {texts : List String}
    (hlines : Decodes lines texts) (h : ∃ text ∈ texts, Stops o text) (s : Eval.State) :
    (readLines o s lines).exit = 1 := by
  induction hlines generalizing s with
  | nil =>
    obtain ⟨_, hmem, -⟩ := h
    cases hmem
  | @cons bytes text lines texts hbytes _ ih =>
    by_cases hstops : Stops o text
    · obtain ⟨output, hrespond⟩ := respond_of_stops hstops s
      rw [readLines_of_error hbytes hrespond]
      rfl
    · rw [List.exists_mem_cons_iff] at h
      obtain ⟨output, left, hrespond⟩ := respond_of_not_stops hstops s
      rw [readLines_of_ok hbytes hrespond]
      exact ih (h.resolve_left hstops) left

/-- Lines are read to their end unless one of them stops the reading. -/
theorem readsThrough_iff {lines : List (List UInt8)} {texts : List String}
    (hlines : Decodes lines texts) (s : Eval.State) :
    ReadsThrough o s lines ↔ ∀ text ∈ texts, ¬Stops o text := by
  constructor
  · intro hthrough text htext hstops
    have hexit := exit_of_stops hlines ⟨text, htext, hstops⟩ s
    rw [hthrough.exit] at hexit
    cases hexit
  · exact fun h => readsThrough_of_not_stops hlines h s

theorem exit_eq_zero_iff {lines : List (List UInt8)} {texts : List String}
    (hlines : Decodes lines texts) (s : Eval.State) :
    (readLines o s lines).exit = 0 ↔ ReadsThrough o s lines := by
  constructor
  · intro hexit
    rw [readsThrough_iff hlines]
    intro text htext hstops
    rw [exit_of_stops hlines ⟨text, htext, hstops⟩] at hexit
    cases hexit
  · exact ReadsThrough.exit

/-! ### The whole program -/

theorem run_of_file {args : List String} {o : Options} (hargs : Request.ofArgs args = .run o)
    {files : String → Except FileFault (List UInt8)} {name : String} (hname : o.file = some name)
    {bytes : List UInt8} (hbytes : files name = .ok bytes)
    {source : String} (hsource : Utf8.decode bytes = .ok source) (input : List UInt8) :
    run args files input = runSourceText o source := by
  simp [run, hargs, hname, runFile, hbytes, hsource]

theorem run_of_lines {args : List String} {o : Options} (hargs : Request.ofArgs args = .run o)
    (hname : o.file = none) (files : String → Except FileFault (List UInt8))
    (input : List UInt8) : run args files input = readLines o .empty (splitLines input) := by
  simp [run, hargs, hname]

/-- **A strict reading changes the course of a run exactly if it shows the tree of a source that has
diagnostics.**  Let two runs differ in nothing but that one of them reads strictly.  On a file, they
have the same exit code unless the tree is shown and the file has diagnostics: then the strict run
ends with code 1.  In all other cases a file that is read and has diagnostics gives code 65.  On
lines, both runs go on to the end of the input with code 0, unless the tree is shown and a line that
is not blank has diagnostics: then the strict run ends there, with code 1. -/
theorem strict_changes_exit_iff {o : Options} {lenient strict : List String}
    (hlenient : Request.ofArgs lenient = .run (o.reading false))
    (hstrict : Request.ofArgs strict = .run (o.reading true))
    (files : String → Except FileFault (List UInt8)) (input : List UInt8) :
    (∀ name bytes source, o.file = some name → files name = .ok bytes →
      Utf8.decode bytes = .ok source →
        ((run strict files input).exit = (run lenient files input).exit ↔
          ¬ShowsFaulty o source) ∧
        (ShowsFaulty o source → (run strict files input).exit = 1) ∧
        (o.parses = true → (parse source).2 ≠ [] → (run lenient files input).exit = 65)) ∧
    (∀ texts, o.file = none → Decodes (splitLines input) texts →
      ReadsThrough (o.reading false) .empty (splitLines input) ∧
      (run lenient files input).exit = 0 ∧
      (ReadsThrough (o.reading true) .empty (splitLines input) ↔
        ∀ text ∈ texts, isBlankText text = false → ¬ShowsFaulty o text) ∧
      ((run strict files input).exit = (run lenient files input).exit ↔
        ∀ text ∈ texts, isBlankText text = false → ¬ShowsFaulty o text)) := by
  constructor
  · intro name bytes source hname hbytes hsource
    rw [run_of_file hstrict hname hbytes hsource, run_of_file hlenient hname hbytes hsource]
    refine ⟨exit_reading_iff o source, ?_, ?_⟩
    · exact exit_of_rejected (o := o.reading true) rfl
    · intro hparses hfaulty
      exact exit_of_faulty (o := o.reading false) hparses hfaulty fun h => nomatch h.1
  · intro texts hname htexts
    rw [run_of_lines hstrict hname, run_of_lines hlenient hname]
    have hthrough : ReadsThrough (o.reading false) .empty (splitLines input) :=
      (readsThrough_iff htexts _).2 fun _ _ h => nomatch h.1
    have hiff : ReadsThrough (o.reading true) .empty (splitLines input) ↔
        ∀ text ∈ texts, isBlankText text = false → ¬ShowsFaulty o text := by
      rw [readsThrough_iff htexts]
      constructor
      · exact fun h text htext hblank hfaulty => h text htext ⟨rfl, hblank, hfaulty⟩
      · exact fun h text htext hstops => h text htext hstops.2.1 hstops.2.2
    refine ⟨hthrough, hthrough.exit, hiff, ?_⟩
    rw [hthrough.exit, exit_eq_zero_iff htexts, hiff]

/-- The tree of a source that breaks off is shown. -/
theorem strict_changes_exit_iff_let :
    let o : Options := { file := some "f", sexpr := true }
    let files := fun _ : String => (Except.ok "let".toUTF8.toList : Except FileFault (List UInt8))
    Request.ofArgs ["--sexpr", "f"] = .run (o.reading false) ∧
      Request.ofArgs ["--sexpr", "--strict", "f"] = .run (o.reading true) ∧
      o.file = some "f" ∧ Utf8.decode "let".toUTF8.toList = .ok "let" ∧ ShowsFaulty o "let" ∧
      (run ["--sexpr", "--strict", "f"] files []).exit = 1 ∧
      (run ["--sexpr", "f"] files []).exit = 65 := by
  intro o files
  have hlenient : Request.ofArgs ["--sexpr", "f"] = .run (o.reading false) := by decide +kernel
  have hstrict : Request.ofArgs ["--sexpr", "--strict", "f"] = .run (o.reading true) := by
    decide +kernel
  have hsource : Utf8.decode "let".toUTF8.toList = .ok "let" := by decide +kernel
  have hfaulty : ShowsFaulty o "let" := ⟨rfl, by decide +kernel⟩
  obtain ⟨-, hone, hlet⟩ :=
    (strict_changes_exit_iff hlenient hstrict files []).1 "f" _ "let" rfl rfl hsource
  exact ⟨hlenient, hstrict, rfl, hsource, hfaulty, hone hfaulty, hlet rfl hfaulty.2⟩

/-- Two runs that differ in nothing but the strict reading end with different codes, on a file and
on lines. -/
theorem strict_changes_exit :
    let files := fun _ : String => (Except.ok "let".toUTF8.toList : Except FileFault (List UInt8))
    let input := "let\n1\n".toUTF8.toList
    (run ["--sexpr", "f"] files []).exit = 65 ∧
      (run ["--sexpr", "--strict", "f"] files []).exit = 1 ∧
      (run ["--sexpr"] files input).exit = 0 ∧
      (run ["--sexpr", "--strict"] files input).exit = 1 := by
  decide +kernel

end Primer.Cli
