/-
  Primer/Proofs/Parser/Nesting.lean
  =================================
  **The levels of nesting are a counter that is always put back.**

  The rules carry no counter: how many levels are left is the argument of `level`.  Here the
  same reading is described with a counter in its state, which a rule raises by one for the
  time it runs and which refuses to be raised past `maxNesting` (`nested`).  To run a rule both
  ways, what it does has to be told apart from the rules it uses: that is a `Script`, and every
  rule is one (`Scripted`).

  The two readings agree wherever they start: the counter stands for the level, no matter
  whether a rule succeeds or fails it leaves the counter as it was, and the greatest value the
  counter takes is at most `maxNesting` (`Script.run_keeps`).
-/
import Primer.Proofs.Parser.Progress

namespace Primer.Parser

/-- A computation in which the uses of the rules that nest are left open. -/
inductive Script : Type → Type 1 where
  | step {α : Type} (x : Rule α) : Script α
  | bind {α β : Type} (p : Script α) (k : α → Script β) : Script β
  | attempt {α : Type} (p : Script α) : Script (Option α)
  | statement : Script (Stmt Unit)
  | expression (floor : Precedence) : Script (Expr Unit)
  | conditional : Script (Expr Unit)

/-- Runs a script with the rules `r` where a rule that nests is used. -/
def Script.run (r : Rules) : {α : Type} → Script α → Rule α
  | _, step x => x
  | _, bind p k => p.run r >>= fun a => (k a).run r
  | _, attempt p => Parser.attempt (p.run r)
  | _, statement => r.statement
  | _, expression floor => r.expression floor
  | _, conditional => r.conditional

/-! ### Every rule is a script -/

/-- A script for the rule `F`, which is made from other rules. -/
structure Scripted {α : Type} (F : Rules → Rule α) where
  script : Script α
  run_eq : ∀ r, script.run r = F r

namespace Scripted

variable {α β : Type} {F : Rules → Rule α} {G : α → Rules → Rule β}

def step (x : Rule α) : Scripted fun _ => x := ⟨.step x, fun _ => rfl⟩

def bind (p : Scripted F) (k : ∀ a, Scripted (G a)) : Scripted fun r => F r >>= fun a => G a r where
  script := .bind p.script fun a => (k a).script
  run_eq r := by
    have hk : (fun a => (k a).script.run r) = fun a => G a r := funext fun a => (k a).run_eq r
    show (p.script.run r >>= fun a => (k a).script.run r) = _
    rw [p.run_eq, hk]

def ite {c : Prop} [Decidable c] {F' : Rules → Rule α} (p : Scripted F) (q : Scripted F') :
    Scripted fun r => if c then F r else F' r where
  script := if c then p.script else q.script
  run_eq r := by
    by_cases h : c
    · rw [if_pos h, if_pos h, p.run_eq]
    · rw [if_neg h, if_neg h, q.run_eq]

def attempt (p : Scripted F) : Scripted fun r => Parser.attempt (F r) where
  script := .attempt p.script
  run_eq r := congrArg Parser.attempt (p.run_eq r)

def statement : Scripted (·.statement) := ⟨.statement, fun _ => rfl⟩

def expression (floor : Precedence) : Scripted (·.expression floor) :=
  ⟨.expression floor, fun _ => rfl⟩

def conditional : Scripted (·.conditional) := ⟨.conditional, fun _ => rfl⟩

end Scripted

def blockStatements.scripted : ∀ n, Scripted fun r => blockStatements r n
  | 0 => .step _
  | n + 1 => .bind (.step current) fun _ => .ite (.step _)
      (.bind (.attempt .statement) fun x =>
        match x with
        | some _ => .bind (.step advance) fun _ => .bind (scripted n) fun _ => .step _
        | none => .bind (.step synchronize) fun _ => .bind (.step current) fun _ =>
            .ite (.step _) (.bind (.step advance) fun _ => scripted n))

def block.scripted : Scripted block :=
  .bind (.step current) fun _ => .bind (.step advance) fun _ => .bind (.step roundsLeft) fun n =>
    .bind (blockStatements.scripted n) fun _ => .step _

def function.scripted : Scripted function :=
  .bind (.step current) fun _ => .bind (.step functionName) fun _ => .bind (.step _) fun _ =>
    .bind (.step parameters) fun _ => .bind (.step _) fun _ => .bind block.scripted fun _ =>
      .step _

def moreExpressions.scripted (close : TokenKind) :
    ∀ n, Scripted fun r => moreExpressions r close n
  | 0 => .step _
  | n + 1 => .bind (.step (peekIs .comma)) fun _ => .ite
      (.bind (.step advance) fun _ => .bind (.step (peekIs close)) fun _ => .ite (.step _)
        (.bind (.step advance) fun _ => .bind (.expression _) fun _ =>
          .bind (scripted close n) fun _ => .step _))
      (.step _)

def expressions.scripted (close : TokenKind) : Scripted fun r => expressions r close :=
  .bind (.step (peekIs close)) fun _ => .ite (.step _)
    (.bind (.step advance) fun _ => .bind (.expression _) fun _ => .bind (.step roundsLeft) fun n =>
      .bind (moreExpressions.scripted close n) fun _ => .step _)

def propertyValue.scripted : Scripted propertyValue :=
  .bind (.step (peekIs .colon)) fun _ => .ite
    (.bind (.step advance) fun _ => .bind (.step advance) fun _ =>
      .bind (.expression _) fun _ => .step _)
    (.step _)

def properties.scripted : ∀ n, Scripted fun r => properties r n
  | 0 => .step _
  | n + 1 => .bind (.step (peekIs .rbrace)) fun _ => .ite (.step _)
      (.bind (.step (expect .ident .objectKey)) fun _ => .bind (.step identifier) fun _ =>
        .bind propertyValue.scripted fun _ => .bind (.step (spanFrom _)) fun _ =>
        .bind (.step (peekIs .comma)) fun _ => .ite
          (.bind (.step advance) fun _ => .bind (scripted n) fun _ => .step _)
          (.step _))

def alternative.scripted : Scripted alternative :=
  .bind (.step (peekIs .elseKw)) fun _ => .ite
    (.bind (.step advance) fun _ => .bind (.step (peekIs .ifKw)) fun _ => .ite
      (.bind (.step advance) fun _ => .bind .conditional fun _ => .step _)
      (.bind (.step (expect .lbrace .alternative)) fun _ => .bind block.scripted fun _ => .step _))
    (.step _)

def conditional.scripted : Scripted conditional :=
  .bind (.step current) fun _ => .bind (.step (expect .lparen .conditionStart)) fun _ =>
    .bind (.step advance) fun _ => .bind (.expression _) fun _ =>
    .bind (.step (expect .rparen .conditionEnd)) fun _ =>
    .bind (.step (expect .lbrace .consequence)) fun _ => .bind block.scripted fun _ =>
    .bind alternative.scripted fun _ => .step _

def unary.scripted (op : UnaryOp) : Scripted fun r => unary r op :=
  .bind (.step current) fun _ => .bind (.step advance) fun _ => .bind (.expression _) fun _ =>
    .step _

def group.scripted : Scripted group :=
  .bind (.step current) fun _ => .bind (.step advance) fun _ => .bind (.expression _) fun _ =>
    .step _

def object.scripted : Scripted object :=
  .bind (.step current) fun _ => .bind (.step roundsLeft) fun n =>
    .bind (properties.scripted n) fun _ => .step _

def array.scripted : Scripted array :=
  .bind (.step current) fun _ => .bind (expressions.scripted .rbracket) fun _ => .step _

def operand.scripted : Scripted operand := by
  refine .bind (.step current) fun t => ?_
  cases t.kind with
  | bang => exact unary.scripted .not
  | minus => exact unary.scripted .neg
  | lparen => exact group.scripted
  | lbrace => exact object.scripted
  | lbracket => exact array.scripted
  | ifKw => exact conditional.scripted
  | functionKw => exact .bind function.scripted fun _ => .step _
  | _ => exact .step _

def operation.scripted (left : Expr Unit) : Scripted fun r => operation r left := by
  refine .bind (.step current) fun t => ?_
  cases t.kind with
  | lparen => exact .bind (expressions.scripted .rparen) fun _ => .step _
  | lbracket => exact .bind (.step advance) fun _ => .bind (.expression .lowest) fun _ => .step _
  | assign => exact .bind (.step advance) fun _ => .bind (.expression .lowest) fun _ => .step _
  | plus | minus | asterisk | slash | lt | lte | gt | gte | eq | notEq =>
    exact .bind (.step advance) fun _ => .bind (.expression _) fun _ => .step _
  | _ => exact .step _

def operations.scripted (floor : Precedence) :
    ∀ n left, Scripted fun r => operations r floor n left
  | 0, _ => .step _
  | n + 1, left => .bind (.step get) fun _ => .ite
      (.bind (.step advance) fun _ => .bind (operation.scripted left) fun x => scripted floor n x)
      (.step _)

def expression.scripted (floor : Precedence) : Scripted fun r => expression r floor :=
  .bind operand.scripted fun x => .bind (.step roundsLeft) fun n => operations.scripted floor n x

def declaration.scripted : Scripted declaration :=
  .bind (.step current) fun _ => .bind (.step (expect .ident _)) fun _ =>
    .bind (.step identifier) fun _ => .bind (.step (peekIs .semicolon)) fun _ => .ite (.step _)
      (.bind (.step (expect .assign .declaredValue)) fun _ => .bind (.step advance) fun _ =>
        .bind (.expression .lowest) fun _ => .step _)

def returnStatement.scripted : Scripted returnStatement :=
  .bind (.step current) fun _ => .bind (.step advance) fun _ => .bind (.step current) fun _ =>
    .ite (.step _) (.bind (.expression .lowest) fun _ => .step _)

def functionStatement.scripted (name : Ident) : Scripted fun r => functionStatement r name :=
  .bind (.step current) fun _ => .bind function.scripted fun _ => .step _

def expressionStatement.scripted : Scripted expressionStatement :=
  .bind (.step current) fun _ => .bind (.expression .lowest) fun _ => .step _

def statement.scripted : Scripted statement := by
  refine .bind (.step get) fun s => ?_
  cases s.current.kind with
  | letKw | constKw => exact declaration.scripted
  | returnKw => exact returnStatement.scripted
  | functionKw => exact .ite (functionStatement.scripted _) expressionStatement.scripted
  | _ => exact expressionStatement.scripted

def programStatements.scripted : ∀ n, Scripted fun r => programStatements r n
  | 0 => .step _
  | n + 1 => .bind (.step current) fun _ => .ite (.step _)
      (.bind (.attempt .statement) fun x =>
        match x with
        | some _ => .bind (.step advance) fun _ => .bind (scripted n) fun _ => .step _
        | none => .bind (.step synchronize) fun _ => .bind (.step advance) fun _ => scripted n)

/-- A program, read with any rules in the place of the outermost ones. -/
def programWith (r : Rules) : Rule (Program Unit) := do
  let statements ← programStatements r (← roundsLeft)
  return ⟨← spanFrom 0, statements⟩

theorem program_eq_programWith : program = programWith (level maxNesting) := rfl

def programWith.scripted : Scripted programWith :=
  .bind (.step roundsLeft) fun n => .bind (programStatements.scripted n) fun _ => .step _

/-! ### A reading that counts -/

/-- The state of a reading that counts how deep it is nested. -/
structure Counted where
  reading : State
  depth : Nat
  /-- the greatest value that `depth` has had -/
  deepest : Nat

abbrev CountedRule := EStateM Failed Counted

structure CountedRules where
  statement : CountedRule (Stmt Unit)
  expression : Precedence → CountedRule (Expr Unit)
  conditional : CountedRule (Expr Unit)

namespace Counted

variable {α : Type}

def enter (c : Counted) : Counted :=
  { c with depth := c.depth + 1, deepest := max c.deepest (c.depth + 1) }

def leave (c : Counted) : Counted := { c with depth := c.depth - 1 }

/-- Runs a step that has nothing to do with the counter. -/
def lift (x : Rule α) : CountedRule α := fun c =>
  match x c.reading with
  | .ok a s => .ok a { c with reading := s }
  | .error e s => .error e { c with reading := s }

/-- Runs a rule one level deeper, unless that is too deep. -/
def nested (x : CountedRule α) : CountedRule α := fun c =>
  if maxNesting ≤ c.depth then lift refuse c
  else match x c.enter with
    | .ok a c => .ok a c.leave
    | .error e c => .error e c.leave

def attempt (x : CountedRule α) : CountedRule (Option α) := fun c =>
  match x c with
  | .ok a c => .ok (some a) c
  | .error _ c => .ok none c

end Counted

def Script.count (r : CountedRules) : {α : Type} → Script α → CountedRule α
  | _, step x => Counted.lift x
  | _, bind p k => p.count r >>= fun a => (k a).count r
  | _, attempt p => Counted.attempt (p.count r)
  | _, statement => r.statement
  | _, expression floor => r.expression floor
  | _, conditional => r.conditional

/-- The rules that count, where rules can be entered `n` times in one another before this
description ends. -/
def counted : Nat → CountedRules
  | 0 => ⟨throw .failed, fun _ => throw .failed, throw .failed⟩
  | n + 1 => {
      statement := Counted.nested (statement.scripted.script.count (counted n))
      expression := fun floor =>
        Counted.nested ((expression.scripted floor).script.count (counted n))
      conditional := Counted.nested (conditional.scripted.script.count (counted n)) }

/-! ### The counter keeps step with the level -/

/-- A rule that counts, started in `c`, does what a rule does that does not: it comes to the
same result in the same state of the reading, puts the counter back, and has not raised it past
`maxNesting` meanwhile. -/
def Keeps {α : Type} (c : Counted) (x : Rule α) (y : CountedRule α) : Prop :=
  ∃ m ≤ max c.deepest maxNesting, y c = match x c.reading with
    | .ok a s => .ok a ⟨s, c.depth, m⟩
    | .error e s => .error e ⟨s, c.depth, m⟩

namespace Keeps

variable {α β : Type} {c : Counted}

theorem lift (c : Counted) (x : Rule α) : Keeps c x (Counted.lift x) := by
  refine ⟨c.deepest, Nat.le_max_left _ _, ?_⟩
  unfold Counted.lift
  cases x c.reading <;> rfl

theorem bind {x : Rule α} {y : CountedRule α} {f : α → Rule β} {g : α → CountedRule β}
    (h : Keeps c x y) (hf : ∀ a c', c'.depth = c.depth → Keeps c' (f a) (g a)) :
    Keeps c (x >>= f) (y >>= g) := by
  obtain ⟨m, hm, hy⟩ := h
  show ∃ m ≤ _, EStateM.bind y g c = match EStateM.bind x f c.reading with
    | .ok a s => .ok a ⟨s, c.depth, m⟩
    | .error e s => .error e ⟨s, c.depth, m⟩
  unfold EStateM.bind
  rw [hy]
  cases x c.reading with
  | error e s => exact ⟨m, hm, rfl⟩
  | ok a s =>
    obtain ⟨m', hm', hg⟩ := hf a ⟨s, c.depth, m⟩ rfl
    exact ⟨m', by dsimp only at hm'; omega, hg⟩

theorem attempt {x : Rule α} {y : CountedRule α} (h : Keeps c x y) :
    Keeps c (Parser.attempt x) (Counted.attempt y) := by
  obtain ⟨m, hm, hy⟩ := h
  refine ⟨m, hm, ?_⟩
  unfold Counted.attempt Parser.attempt
  rw [hy]
  cases x c.reading <;> rfl

/-- One level deeper the counter is one higher, and one level is gone. -/
theorem nested {x : Rule α} {y : CountedRule α} (hd : c.depth < maxNesting)
    (h : Keeps c.enter x y) : Keeps c x (Counted.nested y) := by
  obtain ⟨m, hm, hy⟩ := h
  have hle : m ≤ max c.deepest maxNesting := by
    have : c.enter.deepest = max c.deepest (c.depth + 1) := rfl
    omega
  refine ⟨m, hle, ?_⟩
  unfold Counted.nested
  rw [if_neg (Nat.not_le.2 hd), hy]
  show (match (match x c.reading with
    | .ok a s => .ok a ⟨s, c.depth + 1, m⟩
    | .error e s => .error e ⟨s, c.depth + 1, m⟩ : EStateM.Result Failed Counted α) with
    | .ok a c => EStateM.Result.ok a c.leave
    | .error e c => .error e c.leave) = _
  cases x c.reading <;> rfl

/-- On the last level there is no room for another. -/
theorem refused {y : CountedRule α} (hd : c.depth = maxNesting) :
    Keeps c refuse (Counted.nested y) := by
  unfold Keeps Counted.nested
  rw [if_pos (Nat.le_of_eq hd.symm)]
  exact lift c refuse

end Keeps

/-- From `c` on, the rules `r'` that count do what the rules `r` do. -/
structure Rules.Keep (c : Counted) (r : Rules) (r' : CountedRules) : Prop where
  statement : Keeps c r.statement r'.statement
  expression : ∀ floor, Keeps c (r.expression floor) (r'.expression floor)
  conditional : Keeps c r.conditional r'.conditional

theorem Script.run_keeps {r : Rules} {r' : CountedRules} {d : Nat}
    (h : ∀ c : Counted, c.depth = d → r.Keep c r') {α : Type} (p : Script α) :
    ∀ c : Counted, c.depth = d → Keeps c (p.run r) (p.count r') := by
  induction p with
  | step x =>
    intro c _
    exact .lift c x
  | bind p k ihp ihk =>
    intro c hc
    refine .bind (ihp c hc) fun a c' hc' => ?_
    exact ihk a c' (hc'.trans hc)
  | attempt p ih =>
    intro c hc
    exact (ih c hc).attempt
  | statement => exact fun c hc => (h c hc).statement
  | expression floor => exact fun c hc => (h c hc).expression floor
  | conditional => exact fun c hc => (h c hc).conditional

/-- The counter stands for the level.  It is at most `maxNesting`, so the description that is
entered more often than that does not end before. -/
theorem level_keep (n : Nat) : ∀ c : Counted, c.depth ≤ maxNesting → maxNesting < n + c.depth →
    (level (maxNesting - c.depth)).Keep c (counted n) := by
  induction n with
  | zero =>
    intro c hd hn
    omega
  | succ n ih =>
    intro c hd hn
    rcases Nat.eq_or_lt_of_le hd with hmost | hless
    · rw [hmost, Nat.sub_self]
      exact ⟨.refused hmost, fun _ => .refused hmost, .refused hmost⟩
    · have hlevel : maxNesting - c.depth = maxNesting - (c.depth + 1) + 1 := by omega
      have hinner (c' : Counted) (hc : c'.depth = c.depth + 1) :
          (level (maxNesting - (c.depth + 1))).Keep c' (counted n) := by
        rw [← hc]
        exact ih c' (by omega) (by omega)
      have hrun {α : Type} {F : Rules → Rule α} (f : Scripted F) :
          Keeps c (F (level (maxNesting - (c.depth + 1))))
            (Counted.nested (f.script.count (counted n))) := by
        rw [← f.run_eq]
        exact .nested hless (f.script.run_keeps hinner c.enter rfl)
      rw [hlevel]
      exact ⟨hrun statement.scripted, fun floor => hrun (expression.scripted floor),
        hrun conditional.scripted⟩

/-- Every rule, at every depth, leaves the counter as it was and below its bound. -/
theorem Scripted.keeps {α : Type} {F : Rules → Rule α} (f : Scripted F) {c : Counted} {n : Nat}
    (hd : c.depth ≤ maxNesting) (hn : maxNesting < n + c.depth) :
    Keeps c (F (level (maxNesting - c.depth))) (f.script.count (counted n)) := by
  rw [← f.run_eq]
  refine f.script.run_keeps (d := c.depth) (fun c' hc => ?_) c rfl
  rw [← hc]
  exact level_keep n c' (by omega) (by omega)

/-! ### The whole reading -/

/-- Every source is read to its end.  A round of a loop, in each rule and at every level, ends the
loop whatever would come behind it, or goes on from at least one token further; so no loop comes to
the end of its rounds.  Failed statements are skipped token by token, up to one that ends them or
before one that starts another.  A reading that counts agrees with the reading, rule by rule and as
a whole, with the counter put back and never above its bound.  The reading comes to the end of the
source, where reading again finds nothing. -/
theorem reading_drains (source : String) :
    (∀ n, (level n).LoopsDrain) ∧
    (∀ s : State, s.Ended →
      if State.endsStatement s.current.kind || State.startsAnother s.peek.kind then
        s.synchronize = s
      else
        s.advance.ahead.length < s.ahead.length ∧ s.synchronize = s.advance.synchronize) ∧
    (∀ {α : Type} {F : Rules → Rule α} (f : Scripted F) (c : Counted) (n : Nat),
      c.depth ≤ maxNesting → maxNesting < n + c.depth →
        Keeps c (F (level (maxNesting - c.depth))) (f.script.count (counted n))) ∧
    ∃ p u, program (.ofString source) = .ok p u ∧
      (∀ n, maxNesting < n → ∃ m ≤ maxNesting,
        programWith.scripted.script.count (counted n) ⟨.ofString source, 0, 0⟩ =
          .ok p ⟨u, 0, m⟩) ∧
      (State.ofString source).readProgram = (p, u) ∧
      u.current.kind = .eof ∧
      u.readProgram = (⟨⟨0, u.current.span.stop⟩, []⟩, u) := by
  have hended := State.ofString_ended source
  obtain ⟨p, u, hrun, hu⟩ := program_ends hended
  refine ⟨fun n => (level_moves n).loopsDrain, fun s hs => State.synchronize_round hs,
    fun f c n hd hn => f.keeps hd hn, p, u, hrun, fun n hn => ?_, ?_, hu, ?_⟩
  · obtain ⟨m, hm, hcount⟩ := programWith.scripted.keeps
      (c := ⟨.ofString source, 0, 0⟩) (Nat.zero_le _) (by simpa using hn)
    rw [Nat.sub_zero, ← program_eq_programWith, hrun] at hcount
    exact ⟨m, by simpa using hm, hcount⟩
  · unfold State.readProgram
    rw [hrun]
  · have hlead := (Moves.bind .roundsLeft fun _ =>
      .bind (programStatements_moves (level_moves maxNesting) _) fun _ =>
        .bind (.spanFrom _) fun _ => .pure _ : Moves program).ok hrun
    unfold State.readProgram
    rw [program_at_end (hlead.ended hended) hu]

end Primer.Parser
