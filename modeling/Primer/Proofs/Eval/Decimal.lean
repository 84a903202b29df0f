/-
  Primer/Proofs/Eval/Decimal.lean
  ===============================
  **Integers are read back from their decimal text.**

  The text of an integer is a token of digits, behind a minus sign if the integer is negative
  (`lex_digits`, `lex_minus_digits`).  The sign is an operator: the digits are read without it, their
  value has to be that of an integer, and only then it is negated.  So the text of every integer is
  read back whose digits alone are in range, and otherwise the source is rejected at the digits
  (`runSource_toString_of_le`, `runSource_toString_of_lt`).

  Integers of 64 bits go one further below zero than above it.  The lowest of them is the one that
  cannot be written as its text (`runSource_toString`).
-/
import Primer.Proofs.Eval.Sequence
import Primer.Proofs.Parser.Readable

namespace Primer

/-! ### The tokens of an integer -/

namespace Token

/-- The digits of `m` at the offset `o`. -/
def digits (o m : Nat) : Token := ⟨.int, toString m, ⟨o, o + (toString m).utf8ByteSize⟩⟩

/-- The end of a source of `o` bytes. -/
def endAt (o : Nat) : Token := ⟨.eof, "", ⟨o, o⟩⟩

def minus : Token := ⟨.minus, "-", ⟨0, 1⟩⟩

theorem value_digits (o m : Nat) : Nat.ofDigitChars 10 (digits o m).literal.toList 0 = m :=
  Word.ofDigitChars_number m

end Token

open Token

theorem Cursor.tokens_digits (o m : Nat) :
    Cursor.tokens ⟨o, (toString m).toList⟩ = [digits o m, endAt (digits o m).span.stop] := by
  have hword := Word.lexes_number m
  have htext : (Word.number m).text = (toString m).toList := Word.text_of_ne_string nofun
  have hwidth : width (toString m).toList = (toString m).utf8ByteSize := by
    rw [← utf8ByteSize_ofList, String.ofList_toList]
  have hnext := hword.2 o [] gap_nil
  rw [List.append_nil, htext, hwidth] at hnext
  rw [Cursor.tokens, hnext, dif_neg hword.1, tokens_nil]
  rfl

theorem lex_digits (m : Nat) : lex (toString m) = [digits 0 m, endAt (digits 0 m).span.stop] :=
  Cursor.tokens_digits 0 m

theorem lex_minus_digits (m : Nat) :
    lex ("-" ++ toString m) = [minus, digits 1 m, endAt (digits 1 m).span.stop] := by
  have hsource : Cursor.ofString ("-" ++ toString m) = ⟨0, '-' :: (toString m).toList⟩ := by
    unfold Cursor.ofString
    rw [String.toList_append]
    rfl
  -- whatever stands behind a minus sign, the sign is a token of its own
  have hnext : Cursor.next ⟨0, '-' :: (toString m).toList⟩ = (minus, ⟨1, (toString m).toList⟩) :=
    Cursor.next_of_split 0 (Trivia.split_of_not_blank rfl (by decide))
  have hkind : minus.kind ≠ .eof := by decide
  unfold lex
  rw [hsource, Cursor.tokens, hnext, dif_neg hkind, Cursor.tokens_digits]

/-! ### Reading them -/

namespace Parser

variable {s t : State} {inner : Rules} {floor : Precedence} {o m : Nat} {e : Expr Unit}
  {source : String}

/-- A reading that stands on the digits of `m`, behind which the source ends. -/
def State.numeral (o m : Nat) : State := ⟨digits o m, [endAt (digits o m).span.stop], []⟩

theorem operand_numeral (h : m ≤ maxInteger) :
    operand inner (.numeral o m) = .ok (.int (digits o m).span m) (.numeral o m) := by
  apply operand_ok.2
  show integer (.numeral o m) = _
  refine integer_ok.2 ⟨?_, rfl, ?_⟩
  · show Nat.ofDigitChars 10 (digits o m).literal.toList 0 ≤ maxInteger
    rwa [value_digits]
  · show Expr.int (digits o m).span (Nat.ofDigitChars 10 (digits o m).literal.toList 0) = _
    rw [value_digits]

theorem operand_numeral_of_lt (h : maxInteger < m) :
    operand inner (.numeral o m) = .error .failed
      ((State.numeral o m).report (digits o m).span (.integerTooLarge (toString m))) := by
  show (if Nat.ofDigitChars 10 (digits o m).literal.toList 0 ≤ maxInteger then _
    else fail (digits o m).span (.integerTooLarge (toString m)) : Rule (Expr Unit)) _ = _
  rw [value_digits, if_neg (Nat.not_le.2 h)]
  rfl

/-- Nothing goes on behind an operand at the end of the source. -/
theorem expression_of_last (h : operand inner s = .ok e t) (ht : t.peek.kind = .eof) :
    expression inner floor s = .ok e t := by
  rw [expression_of_operand h]
  apply operations_stop
  rw [ht]
  exact Nat.zero_le _

theorem expression_numeral (n : Nat) (floor : Precedence) (h : m ≤ maxInteger) :
    (level (n + 1)).expression floor (.numeral o m) =
      .ok (.int (digits o m).span m) (.numeral o m) :=
  expression_of_last (operand_numeral h) rfl

theorem expression_numeral_of_lt (n : Nat) (floor : Precedence) (h : maxInteger < m) :
    (level (n + 1)).expression floor (.numeral o m) = .error .failed
      ((State.numeral o m).report (digits o m).span (.integerTooLarge (toString m))) :=
  bind_of_error (operand_numeral_of_lt h)

/-- A reading that stands on a minus sign before the digits of `m`. -/
def State.negated (m : Nat) : State := ⟨minus, [digits 1 m, endAt (digits 1 m).span.stop], []⟩

theorem expression_negated (n : Nat) (floor : Precedence) (h : m ≤ maxInteger) :
    (level (n + 2)).expression floor (.negated m) =
      .ok (.unary ((State.negated m).spanTo (.numeral 1 m)) .neg (.int (digits 1 m).span m))
        (.numeral 1 m) := by
  refine expression_of_last (operand_ok.2 ?_) rfl
  exact unary_ok.2 ⟨_, expression_numeral n .unary h, rfl⟩

theorem expression_negated_of_lt (n : Nat) (floor : Precedence) (h : maxInteger < m) :
    (level (n + 2)).expression floor (.negated m) = .error .failed
      ((State.numeral 1 m).report (digits 1 m).span (.integerTooLarge (toString m))) := by
  apply bind_of_error
  show unary (level (n + 1)) .neg (.negated m) = _
  unfold unary
  rw [current_bind, advance_bind]
  exact bind_of_error (expression_numeral_of_lt n .unary h)

/-! ### Sources of one expression -/

/-- No other kind of statement starts so. -/
theorem statement_of_sign (h : s.current.kind = .int ∨ s.current.kind = .minus) :
    statement inner s = expressionStatement inner s := by
  rw [statement_run]
  rcases h with h | h <;> rw [h]

theorem programStatements_eof (n : Nat) (h : s.current.kind = .eof) :
    programStatements inner n s = .ok [] s := by
  cases n with
  | zero => rfl
  | succ n =>
    rw [programStatements_ok, if_pos h]
    exact ⟨rfl, rfl⟩

theorem parse_of_programStatements {xs : List (Stmt Unit)} (hs : .ofString source = s)
    (h : programStatements (level maxNesting) s.ahead.length s = .ok xs t) :
    parse source = (⟨⟨0, t.current.span.stop⟩, xs⟩, t.diagnostics) := by
  unfold parse parseAs State.readProgram
  rw [hs, program_ok.2 ⟨xs, h, rfl⟩]

section

variable (hs : .ofString source = s) (hkind : s.current.kind = .int ∨ s.current.kind = .minus)

include hs hkind

theorem exists_rounds : s.current.kind ≠ .eof ∧ ∃ rounds, s.ahead.length = rounds + 1 := by
  have hstart : s.current.kind ≠ .eof := by
    rcases hkind with h | h <;> rw [h] <;> exact nofun
  have hahead := State.ahead_ne_nil (hs ▸ State.ofString_ended source) hstart
  exact ⟨hstart, Nat.exists_eq_succ_of_ne_zero (mt List.length_eq_zero_iff.1 hahead)⟩

theorem parse_of_expression
    (h : (level (maxNesting - 1)).expression .lowest s = .ok e (.numeral o m)) :
    ∃ span span', parse source = (⟨span, [.expr span' e]⟩, []) := by
  obtain ⟨hstart, rounds, hrounds⟩ := exists_rounds hs hkind
  have hstatement : (level maxNesting).statement s =
      .ok (.expr (s.spanTo (.numeral o m)) e) (.numeral o m) :=
    (statement_of_sign hkind).trans (expressionStatement_ok.2 ⟨e, _, h, rfl, rfl⟩)
  have hstatements : programStatements (level maxNesting) s.ahead.length s =
      .ok [.expr (s.spanTo (.numeral o m)) e] (State.numeral o m).advance := by
    rw [hrounds, programStatements_ok, if_neg hstart, hstatement]
    exact ⟨[], programStatements_eof rounds rfl, rfl⟩
  exact ⟨_, _, parse_of_programStatements hs hstatements⟩

/-- What is left of the statement is skipped, and that is all there is. -/
theorem diagnostics_of_expression_error {span : Span} {problem : Problem}
    (h : (level (maxNesting - 1)).expression .lowest s =
      .error .failed ((State.numeral o m).report span problem)) :
    (parse source).2 = [⟨problem, span⟩] := by
  obtain ⟨hstart, rounds, hrounds⟩ := exists_rounds hs hkind
  have hstatement : (level maxNesting).statement s =
      .error .failed ((State.numeral o m).report span problem) := by
    refine (statement_of_sign hkind).trans ?_
    unfold expressionStatement
    rw [current_bind]
    exact bind_of_error h
  have hstatements : programStatements (level maxNesting) s.ahead.length s =
      .ok [] ((State.numeral o m).report span problem).synchronize.advance := by
    rw [hrounds, programStatements_ok, if_neg hstart, hstatement]
    exact programStatements_eof rounds rfl
  rw [parse_of_programStatements hs hstatements]
  rfl

end

end Parser

open Primer.Parser

/-! ### Texts of integers -/

/-- The expression that the text of an integer is read as. -/
inductive Expr.IsNumeral {ι : Type} : Int → Expr ι → Prop where
  | int (span : Span) (m : Nat) : IsNumeral m (.int span m)
  | neg (span span' : Span) (m : Nat) : IsNumeral (-m) (.unary span .neg (.int span' m))

/-- Where the digits start in the text of an integer. -/
def digitsStart : Int → Nat
  | .ofNat _ => 0
  | .negSucc _ => 1

/-- The text of an integer starts a reading on digits or on a minus sign, and as an expression it is
read up to the digits, or fails there. -/
theorem exists_reading (n : Int) : ∃ s : State, .ofString (toString n) = s ∧
    (s.current.kind = .int ∨ s.current.kind = .minus) ∧
    (n.natAbs ≤ maxInteger → ∃ e, Expr.IsNumeral n e ∧
      (level (maxNesting - 1)).expression .lowest s =
        .ok e (.numeral (digitsStart n) n.natAbs)) ∧
    (maxInteger < n.natAbs → (level (maxNesting - 1)).expression .lowest s =
      .error .failed ((State.numeral (digitsStart n) n.natAbs).report
        (digits (digitsStart n) n.natAbs).span (.integerTooLarge (toString n.natAbs)))) := by
  cases n with
  | ofNat m =>
    refine ⟨.numeral 0 m, congrArg State.ofTokens (lex_digits m), .inl rfl, ?_, ?_⟩
    · intro h
      exact ⟨_, .int _ m, expression_numeral 126 .lowest h⟩
    · exact expression_numeral_of_lt 126 .lowest
  | negSucc m =>
    refine ⟨.negated (m + 1), congrArg State.ofTokens (lex_minus_digits (m + 1)), .inr rfl, ?_, ?_⟩
    · intro h
      exact ⟨_, .neg _ _ (m + 1), expression_negated 125 .lowest h⟩
    · exact expression_negated_of_lt 125 .lowest

theorem parse_toString_of_le {n : Int} (h : n.natAbs ≤ maxInteger) :
    ∃ span span' e, Expr.IsNumeral n e ∧
      parse (toString n) = (⟨span, [.expr span' e]⟩, []) := by
  obtain ⟨s, hs, hkind, hok, -⟩ := exists_reading n
  obtain ⟨e, he, hexpr⟩ := hok h
  obtain ⟨span, span', hparse⟩ := parse_of_expression hs hkind hexpr
  exact ⟨span, span', e, he, hparse⟩

theorem diagnostics_toString_of_lt {n : Int} (h : maxInteger < n.natAbs) :
    (parse (toString n)).2 = [⟨.integerTooLarge (toString n.natAbs),
      (digits (digitsStart n) n.natAbs).span⟩] := by
  obtain ⟨s, hs, hkind, -, herror⟩ := exists_reading n
  exact diagnostics_of_expression_error hs hkind (herror h)

/-! ### Running them -/

namespace Expr.IsNumeral

variable {ι : Type} {n : Int}

/-- There is nothing in the expression that gets a label. -/
theorem label {e : Expr ι} (h : e.IsNumeral n) :
    ∃ e' : Expr Label, e'.IsNumeral n ∧ e.label = pure e' := by
  cases h with
  | int span m => exact ⟨_, .int span m, by rw [Expr.label]⟩
  | neg span span' m => exact ⟨_, .neg span span' m, by rw [Expr.label, Expr.label, pure_bind]⟩

theorem eval {e : Expr Label} (h : e.IsNumeral n) (hn : fits n = true) (limit : Nat) (jump : Jump)
    (frame : FrameId) : e.eval limit jump frame = pure (.integer n) := by
  cases h with
  | int => rw [Expr.eval]
  | neg span span' m =>
    rw [Expr.eval, Expr.eval]
    show Eval.ofExcept (checked 0 .sub m (-m)) = _
    rw [checked, if_pos hn]
    rfl

end Expr.IsNumeral

section

variable (bounds : Bounds) (frame : FrameId) (s : Eval.State) {n : Int}

theorem runSource_toString_of_le (h : n.natAbs ≤ maxInteger) :
    runSource bounds frame (toString n) s = .ok (.ok (.integer n)) { s with depth := 0 } := by
  obtain ⟨span, span', e, he, hparse⟩ := parse_toString_of_le h
  obtain ⟨e', he', hlabel⟩ := he.label
  have hfits : fits n = true := by
    have hmax : maxInteger = 9223372036854775807 := rfl
    simp only [fits, Bool.and_eq_true, decide_eq_true_eq]
    omega
  have hlabels : labelStmts (parse (toString n)).1.statements = pure [.expr span' e'] := by
    rw [hparse]
    simp only [labelStmts, Stmt.label, hlabel, pure_bind]
  have hstatements : s.statements (toString n) = [.expr span' e'] := by
    unfold Eval.State.statements
    rw [hlabels]
    rfl
  have hloaded : s.loaded (toString n) = { s with depth := 0 } := by
    unfold Eval.State.loaded
    rw [hlabels]
    rfl
  rw [runSource_of_clean bounds frame (by rw [hparse])]
  refine (bind_of_ok (a := Value.integer n) (t := { s with depth := 0 }) ?_).trans rfl
  rw [executeSource_run, hstatements, hloaded]
  unfold Bounds.executeAll
  simp only [execAll, Stmt.exec, he'.eval hfits]
  rfl

theorem runSource_of_rejected {source : String} (h : (parse source).2 ≠ []) :
    runSource bounds frame source s = .ok (.error ⟨(parse source).2⟩) s := by
  have hparse : parseWith { strict := true } source = .error ⟨(parse source).2⟩ := by
    have hsource : parseAs .kept source = parse source := rfl
    simp [parseWith, ParseOptions.layout, hsource, h]
  unfold runSource
  rw [hparse]
  rfl

theorem runSource_toString_of_lt (h : maxInteger < n.natAbs) :
    runSource bounds frame (toString n) s = .ok (.error ⟨[⟨.integerTooLarge (toString n.natAbs),
      (digits (digitsStart n) n.natAbs).span⟩]⟩) s := by
  have hdiagnostics := diagnostics_toString_of_lt h
  rw [runSource_of_rejected bounds frame s (by rw [hdiagnostics]; exact List.cons_ne_nil _ _),
    hdiagnostics]

/-- **Every 64-bit integer but the lowest is read back from its text.**  The text is the one that the
value is shown with.  Running it gives the integer, in any state and frame; the text of the lowest
integer is rejected, because its digits without the sign are out of range. -/
theorem runSource_toString (hn : fits n = true) :
    (Value.integer n).text = toString n ++ " : integer" ∧
    (n ≠ -9223372036854775808 →
      runSource bounds frame (toString n) s = .ok (.ok (.integer n)) { s with depth := 0 }) ∧
    (n = -9223372036854775808 →
      runSource bounds frame (toString n) s =
        .ok (.error ⟨[⟨.integerTooLarge "9223372036854775808", ⟨1, 20⟩⟩]⟩) s) := by
  have hmax : maxInteger = 9223372036854775807 := rfl
  simp only [fits, Bool.and_eq_true, decide_eq_true_eq] at hn
  refine ⟨rfl, ?_, ?_⟩
  · intro hlowest
    apply runSource_toString_of_le
    omega
  · rintro rfl
    rw [runSource_toString_of_lt bounds frame s (by decide)]
    rfl

end

/-- The lowest integer that is read back. -/
theorem runSource_toString_aboveLowest :
    fits (-9223372036854775807) = true ∧
    toString (-9223372036854775807 : Int) = "-9223372036854775807" ∧
    runSource ⟨0, 0⟩ Heap.root "-9223372036854775807" .empty =
      .ok (.ok (.integer (-9223372036854775807))) .empty := by
  have htext : toString (-9223372036854775807 : Int) = "-9223372036854775807" := by decide +kernel
  obtain ⟨-, hrun, -⟩ :=
    runSource_toString ⟨0, 0⟩ Heap.root .empty (n := -9223372036854775807) rfl
  rw [htext] at hrun
  exact ⟨rfl, htext, hrun (by decide)⟩

/-- There is an integer whose text does not give it back. -/
theorem runSource_toString_lowest :
    ¬∀ (bounds : Bounds) (frame : FrameId) (s : Eval.State) (n : Int), fits n = true →
      ∃ s', runSource bounds frame (toString n) s = .ok (.ok (.integer n)) s' := by
  intro hclaim
  obtain ⟨s', hrun⟩ := hclaim ⟨0, 0⟩ Heap.root .empty (-9223372036854775808) rfl
  rw [runSource_toString_of_lt _ _ _ (by decide)] at hrun
  cases hrun

end Primer
