/-
  Primer/Proofs/Parser/Spans.lean
  ===============================
  **The spans of a tree nest and are in order.**

  A tree is looked at as the list of its nodes, each with the spans of its children (`Node`).
  A node fits into a source (`Node.Fits`) if its span runs from the start of a token to the end
  of a token, is not empty, and has its children side by side in it (`InRow`).

  What a rule reads begins at the token on which the rule starts and ends at the token on which
  it stops, whether or not something was skipped in between; so the spans of nodes are known
  from the states between rules (`Spanned`), and that children are side by side is what is known
  of the tokens: each ends before the next one starts.
-/
import Primer.Proofs.Parser.Progress
import Primer.Proofs.Token.Tiling

namespace Primer

variable {ι : Type}

/-! ### Nodes -/

/-- A node of a tree, as far as positions go. -/
structure Node where
  span : Span
  /-- the spans of the children, from left to right -/
  children : List Span

def Ident.node (x : Ident) : Node := ⟨x.span, []⟩

mutual

def Expr.nodes : Expr ι → List Node
  | .ident span _ => [⟨span, []⟩]
  | .str span _ => [⟨span, []⟩]
  | .int span _ => [⟨span, []⟩]
  | .bool span _ => [⟨span, []⟩]
  | .unary span _ operand => ⟨span, [operand.span]⟩ :: operand.nodes
  | .binary span _ left right => ⟨span, [left.span, right.span]⟩ :: (left.nodes ++ right.nodes)
  | .cond span condition consequence none =>
    ⟨span, [condition.span, consequence.span]⟩ :: (condition.nodes ++ consequence.nodes)
  | .cond span condition consequence (some alternative) =>
    ⟨span, [condition.span, consequence.span, alternative.span]⟩ ::
      (condition.nodes ++ (consequence.nodes ++ alternative.nodes))
  | .function span fn => ⟨span, [fn.span]⟩ :: fn.nodes
  | .call span callee args =>
    ⟨span, callee.span :: args.map Expr.span⟩ :: (callee.nodes ++ nodesExprs args)
  | .index span container key =>
    ⟨span, [container.span, key.span]⟩ :: (container.nodes ++ key.nodes)
  | .assign span target value => ⟨span, [target.span, value.span]⟩ :: (target.nodes ++ value.nodes)
  | .object span _ properties => ⟨span, properties.map (·.span)⟩ :: nodesProperties properties
  | .array span _ elements => ⟨span, elements.map Expr.span⟩ :: nodesExprs elements

/-- The name of a function that is a statement stands inside the function, so the statement is
there once with the name and once with the function as its child. -/
def Stmt.nodes : Stmt ι → List Node
  | .declare span _ name none => [⟨span, [name.span]⟩, name.node]
  | .declare span _ name (some value) => ⟨span, [name.span, value.span]⟩ :: name.node :: value.nodes
  | .function span name fn => ⟨span, [name.span]⟩ :: ⟨span, [fn.span]⟩ :: name.node :: fn.nodes
  | .ret span value => ⟨span, [value.span]⟩ :: value.nodes
  | .expr span value => ⟨span, [value.span]⟩ :: value.nodes

def Block.nodes : Block ι → List Node
  | ⟨span, statements⟩ => ⟨span, statements.map Stmt.span⟩ :: nodesStmts statements

def Function.nodes : Function ι → List Node
  | ⟨span, _, name, params, body⟩ =>
    ⟨span, (name.toList ++ params).map (·.span) ++ [body.span]⟩ ::
      ((name.toList ++ params).map (·.node) ++ body.nodes)

def nodesExprs : List (Expr ι) → List Node
  | [] => []
  | e :: es => e.nodes ++ nodesExprs es

def nodesStmts : List (Stmt ι) → List Node
  | [] => []
  | s :: ss => s.nodes ++ nodesStmts ss

def nodesProperties : List (Property (Option (Expr ι))) → List Node
  | [] => []
  | ⟨span, key, none⟩ :: ps => ⟨span, [key.span]⟩ :: key.node :: nodesProperties ps
  | ⟨span, key, some value⟩ :: ps =>
    ⟨span, [key.span, value.span]⟩ :: key.node :: (value.nodes ++ nodesProperties ps)

end

/-- All nodes below the program itself. -/
def Program.nodes (p : Program ι) : List Node := nodesStmts p.statements

/-- Parentheses change the span of the outermost node only. -/
theorem Expr.mem_nodes_withSpan {span : Span} {e : Expr ι} {node : Node}
    (h : node ∈ (e.withSpan span).nodes) :
    node ∈ e.nodes ∨ ∃ children, ⟨e.span, children⟩ ∈ e.nodes ∧ node = ⟨span, children⟩ := by
  have hcons {children : List Span} {below : List Node}
      (h : node ∈ (⟨span, children⟩ : Node) :: below) :
      node ∈ (⟨e.span, children⟩ : Node) :: below ∨
        ∃ cs, ⟨e.span, cs⟩ ∈ (⟨e.span, children⟩ : Node) :: below ∧ node = ⟨span, cs⟩ := by
    rcases List.mem_cons.1 h with rfl | h
    · exact .inr ⟨children, List.mem_cons_self, rfl⟩
    · exact .inl (List.mem_cons_of_mem _ h)
  cases e with
  | cond _ c b a => cases a <;> exact hcons h
  | _ => exact hcons h

/-! ### Spans side by side -/

/-- The spans follow one another between `lo` and `hi`. -/
def InRow (lo : Nat) : List Span → Nat → Prop
  | [], hi => lo ≤ hi
  | a :: as, hi => lo ≤ a.start ∧ a.start ≤ a.stop ∧ InRow a.stop as hi

namespace InRow

variable {lo mid hi : Nat} {as bs : List Span}

theorem nil (h : lo ≤ hi) : InRow lo [] hi := h

theorem le (h : InRow lo as hi) : lo ≤ hi := by
  induction as generalizing lo with
  | nil => exact h
  | cons a as ih => exact Nat.le_trans h.1 (Nat.le_trans h.2.1 (ih h.2.2))

theorem of_le {lo' : Nat} (hlo : lo' ≤ lo) (h : InRow lo as hi) : InRow lo' as hi := by
  cases as with
  | nil => exact Nat.le_trans hlo h
  | cons a as => exact ⟨Nat.le_trans hlo h.1, h.2⟩

theorem append (ha : InRow lo as mid) (hb : InRow mid bs hi) : InRow lo (as ++ bs) hi := by
  induction as generalizing lo with
  | nil => exact of_le ha hb
  | cons a as ih => exact ⟨ha.1, ha.2.1, ih ha.2.2⟩

theorem widen {hi' : Nat} (h : InRow lo as hi) (hhi : hi ≤ hi') : InRow lo as hi' := by
  have happend : InRow lo (as ++ []) hi' := h.append hhi
  rwa [List.append_nil] at happend

theorem mem (h : InRow lo as hi) : ∀ a ∈ as, lo ≤ a.start ∧ a.stop ≤ hi := by
  induction as generalizing lo with
  | nil => exact nofun
  | cons b as ih =>
    obtain ⟨hlo, hb, hrest⟩ := h
    intro a ha
    rcases List.mem_cons.1 ha with rfl | ha
    · exact ⟨hlo, hrest.le⟩
    · obtain ⟨hstart, hstop⟩ := ih hrest a ha
      exact ⟨by omega, hstop⟩

theorem ordered (h : InRow lo as hi) : as.Pairwise fun a b => a.stop ≤ b.start := by
  induction as generalizing lo with
  | nil => exact .nil
  | cons a as ih => exact .cons (fun b hb => (h.2.2.mem b hb).1) (ih h.2.2)

end InRow

/-- The node runs from the start of a token to the end of a token, and its children stand side
by side in it. -/
structure Node.Fits (tokens : List Token) (node : Node) : Prop where
  starts : ∃ t ∈ tokens, t.span.start = node.span.start
  stops : ∃ t ∈ tokens, t.span.stop = node.span.stop
  nonempty : node.span.start < node.span.stop
  row : InRow node.span.start node.children node.span.stop

namespace Parser

variable {source : String} {s t u : State} {inner : Rules} {n : Nat}

/-! ### Where a reading stands in its source -/

namespace State

/-- The reading stands on a token of the source, with the others ahead. -/
def On (source : String) (s : State) : Prop := s.tokens <:+ lex source

theorem ofString_on (source : String) : (ofString source).On source := by
  exact ⟨[], ofString_tokens source⟩

namespace On

theorem leads (hs : s.On source) (h : s.Leads t) : t.On source := h.suffix.trans hs

theorem advance (hs : s.On source) : s.advance.On source := hs.leads s.leads_advance

theorem mem (hs : s.On source) : s.current ∈ lex source :=
  List.IsSuffix.mem List.mem_cons_self hs

theorem ended (hs : s.On source) : s.Ended := by
  obtain ⟨ts, hts⟩ := hs
  have hend : Parser.Ended (lex source) := tokens_ended _
  rw [← hts] at hend
  exact hend.of_append (List.cons_ne_nil _ _)

theorem start_le_stop (hs : s.On source) : s.current.span.start ≤ s.current.span.stop :=
  (lex_tiling source).start_le_stop _ hs.mem

theorem start_lt_stop (hs : s.On source) (hne : s.current.kind ≠ .eof) :
    s.current.span.start < s.current.span.stop :=
  (lex_tiling source).start_lt_stop _ hs.mem hne

theorem stop_le_of_mem (hs : s.On source) {b : Token} (h : b ∈ s.ahead) :
    s.current.span.stop ≤ b.span.start := by
  have hordered := (lex_tiling source).ordered.sublist hs.sublist
  exact List.rel_of_pairwise_cons hordered h

/-- The end of the source is the only token that takes no room. -/
theorem span_of_eof (hs : s.On source) (hc : s.current.kind = .eof) :
    s.current.span = ⟨source.utf8ByteSize, source.utf8ByteSize⟩ := by
  obtain ⟨init, hlex, hinit⟩ := (lex_tiling source).ending
  have hmem := hs.mem
  rw [hlex, List.mem_append, List.mem_singleton] at hmem
  rcases hmem with hmem | hmem
  · exact absurd hc (hinit _ hmem)
  · rw [hmem]

theorem stop_le_advance (hs : s.On source) :
    s.current.span.stop ≤ s.advance.current.span.start := by
  cases ha : s.ahead with
  | nil =>
    have hspan := hs.span_of_eof (current_eof hs.ended ha)
    have hadvance : s.advance = s := by
      unfold State.advance
      rw [ha]
    simp only [hadvance, hspan, Nat.le_refl]
  | cons b ts =>
    have hb : s.advance.current = b := by
      unfold State.advance
      rw [ha]
    rw [hb]
    exact hs.stop_le_of_mem (by rw [ha]; exact List.mem_cons_self)

/-- Wherever a reading comes to, it has not gone back. -/
theorem le_of_leads (hs : s.On source) (h : s.Leads t) :
    s.current.span.start ≤ t.current.span.start ∧ s.current.span.stop ≤ t.current.span.stop := by
  have hmem : t.current ∈ s.tokens := List.IsSuffix.mem List.mem_cons_self h.suffix
  rcases List.mem_cons.1 hmem with heq | hmem
  · rw [heq]
    exact ⟨Nat.le_refl _, Nat.le_refl _⟩
  · have hstop := hs.stop_le_of_mem hmem
    have hle := hs.start_le_stop
    have hle' := (hs.leads h).start_le_stop
    omega

theorem stop_le_of_advance (hs : s.On source) (h : s.advance.Leads t) :
    s.current.span.stop ≤ t.current.span.start :=
  Nat.le_trans hs.stop_le_advance (hs.advance.le_of_leads h).1

end On

end State

/-! ### What a rule has read -/

/-- The part of a tree with that span and those nodes was read from `s` to `u`. -/
structure Spanned (source : String) (s u : State) (span : Span) (nodes : List Node) : Prop where
  on : s.On source
  leads : s.Leads u
  starts : s.current.kind ≠ .eof
  span_eq : span = s.spanTo u
  fit : ∀ node ∈ nodes, node.Fits (lex source)

namespace Spanned

variable {span : Span} {nodes : List Node}

/-- A node is put on top of nodes that fit and stand side by side. -/
theorem mk_node (hs : s.On source) (hne : s.current.kind ≠ .eof) (hl : s.Leads u)
    {children : List Span} (hrow : InRow s.current.span.start children u.current.span.stop)
    (hnodes : ∀ node ∈ nodes, node.Fits (lex source)) :
    Spanned source s u (s.spanTo u) (⟨s.spanTo u, children⟩ :: nodes) := by
  have hlt := hs.start_lt_stop hne
  have hle := (hs.le_of_leads hl).2
  refine ⟨hs, hl, hne, rfl, List.forall_mem_cons.2 ⟨?_, hnodes⟩⟩
  exact ⟨⟨_, hs.mem, rfl⟩, ⟨_, (hs.leads hl).mem, rfl⟩, Nat.lt_of_lt_of_le hlt hle, hrow⟩

theorem mk_leaf (hs : s.On source) (hne : s.current.kind ≠ .eof) (hl : s.Leads u)
    (hu : u.current = s.current) :
    Spanned source s u s.current.span [⟨s.current.span, []⟩] := by
  have hspan : s.current.span = s.spanTo u := by
    unfold State.spanTo
    rw [hu]
  have hrow : InRow s.current.span.start [] u.current.span.stop := by
    rw [hu]
    exact hs.start_le_stop
  have hnode := mk_node hs hne hl hrow (List.forall_mem_nil _)
  rwa [← hspan] at hnode

theorem on_end (h : Spanned source s u span nodes) : u.On source := h.on.leads h.leads

theorem start_eq (h : Spanned source s u span nodes) : span.start = s.current.span.start := by
  rw [h.span_eq]
  rfl

theorem cons_row (h : Spanned source s u span nodes) {lo hi : Nat} {as : List Span}
    (hlo : lo ≤ s.current.span.start) (hrow : InRow u.current.span.stop as hi) :
    InRow lo (span :: as) hi := by
  have hle := (h.on.le_of_leads h.leads).2
  have hle' := h.on.start_le_stop
  rw [h.span_eq]
  exact ⟨hlo, Nat.le_trans hle' hle, hrow⟩

/-- Parentheses around what was read: a token on either side. -/
theorem withSpan {e : Expr Unit} (hs : s.On source) (hne : s.current.kind ≠ .eof)
    (h : Spanned source s.advance t e.span e.nodes) :
    Spanned source s t.advance (e.withSpan (s.spanTo t.advance)).span
      (e.withSpan (s.spanTo t.advance)).nodes := by
  have hl := (s.leads_advance.trans h.leads).trans t.leads_advance
  refine ⟨hs, hl, hne, Expr.span_withSpan _ _, fun node hnode => ?_⟩
  rcases Expr.mem_nodes_withSpan hnode with hnode | ⟨children, hmem, rfl⟩
  · exact h.fit node hnode
  · have hrow := (h.fit _ hmem).row
    rw [h.span_eq] at hrow
    have hstart := Nat.le_trans hs.start_le_stop hs.stop_le_advance
    have hstop := (h.on_end.le_of_leads t.leads_advance).2
    have hwide :=
      mk_node hs hne hl ((hrow.of_le hstart).widen hstop) (List.forall_mem_nil _)
    exact hwide.fit _ List.mem_cons_self

end Spanned

/-- What the rules read has spans that nest. -/
structure Rules.Span (source : String) (r : Rules) : Prop where
  statement : ∀ {s u x}, s.On source → r.statement s = .ok x u → Spanned source s u x.span x.nodes
  expression : ∀ {floor s u e}, s.On source → r.expression floor s = .ok e u →
    Spanned source s u e.span e.nodes
  conditional : ∀ {s u e}, s.On source → s.current.kind ≠ .eof → r.conditional s = .ok e u →
    Spanned source s u e.span e.nodes

/-- The parts of a list were read on the way from `s` to `u`, behind the token of `s`. -/
structure ListSpanned (source : String) (s u : State) (spans : List Span) (nodes : List Node) :
    Prop where
  row : InRow s.current.span.stop spans u.current.span.stop
  fit : ∀ node ∈ nodes, node.Fits (lex source)

namespace ListSpanned

variable {span : Span} {nodes nodes' : List Node} {spans : List Span}

theorem nil (hs : s.On source) (h : s.Leads u) : ListSpanned source s u [] [] :=
  ⟨(hs.le_of_leads h).2, nofun⟩

/-- Behind the token of `s` something was read, and behind its last token a list. -/
theorem cons (hs : s.On source) (hl : s.advance.Leads t)
    (h : Spanned source t u span nodes) {v : State} (hrest : ListSpanned source u v spans nodes') :
    ListSpanned source s v (span :: spans) (nodes ++ nodes') where
  row := h.cons_row (hs.stop_le_of_advance hl) hrest.row
  fit := List.forall_mem_append.2 ⟨h.fit, hrest.fit⟩

theorem of_leads (hs : s.On source) (hl : s.Leads t) (h : ListSpanned source t u spans nodes) :
    ListSpanned source s u spans nodes :=
  ⟨h.row.of_le (hs.le_of_leads hl).2, h.fit⟩

theorem widen {v : State} (h : ListSpanned source s u spans nodes) (hu : u.On source)
    (hl : u.Leads v) : ListSpanned source s v spans nodes :=
  ⟨h.row.widen (hu.le_of_leads hl).2, h.fit⟩

end ListSpanned

theorem name_spanned (hs : s.On source) (hc : s.current.kind = .ident) :
    Spanned source s s s.name.span [s.name.node] :=
  .mk_leaf hs (by rw [hc]; nofun) (.refl s) rfl

/-! ### Parameters -/

theorem moreParameters_spanned {xs : List Ident} (hs : s.On source)
    (hr : moreParameters n s = .ok xs u) :
    ListSpanned source s u (xs.map (·.span)) (xs.map (·.node)) := by
  induction n generalizing s xs with
  | zero =>
    obtain ⟨rfl, rfl⟩ := pure_ok.1 hr
    exact .nil hs (.refl s)
  | succ n ih =>
    rw [moreParameters_ok] at hr
    split at hr
    next =>
      obtain ⟨hi, ys, hr, rfl⟩ := hr
      have hname := name_spanned hs.advance.advance
        (State.advance_kind hs.advance.ended hi nofun)
      exact .cons hs s.advance.leads_advance hname (ih hs.advance.advance hr)
    next =>
      obtain ⟨rfl, rfl⟩ := hr
      exact .nil hs (.refl s)

theorem parameters_spanned {xs : List Ident} (hs : s.On source)
    (hr : parameters s = .ok xs u) :
    ListSpanned source s u (xs.map (·.span)) (xs.map (·.node)) := by
  rw [parameters_ok] at hr
  split at hr
  next =>
    obtain ⟨rfl, rfl⟩ := hr
    exact .nil hs s.leads_advance
  next =>
    obtain ⟨hi, ys, t, hr, -, rfl, rfl⟩ := hr
    have hname := name_spanned hs.advance (State.advance_kind hs.ended hi nofun)
    have hlead := (moreParameters_moves _).ok hr
    have hrest := (moreParameters_spanned hs.advance hr).widen (hs.advance.leads hlead)
      t.leads_advance
    exact .cons hs (.refl _) hname hrest

theorem functionName_spanned {x : Option Ident} (hs : s.On source)
    (hr : functionName s = .ok x u) :
    ListSpanned source s u (x.toList.map (·.span)) (x.toList.map (·.node)) := by
  rw [functionName_ok] at hr
  split at hr
  next hi =>
    obtain ⟨rfl, rfl⟩ := hr
    have hname := name_spanned hs.advance (State.advance_kind hs.ended hi nofun)
    exact .cons hs (.refl _) hname (.nil hs.advance (.refl _))
  next =>
    obtain ⟨rfl, rfl⟩ := hr
    exact .nil hs (.refl s)

section

variable (h : inner.Span source) (hm : inner.Move)
include h hm

/-! ### Blocks and functions -/

/-- Statements start at the token of `s` and not behind it; whatever is skipped between them,
the next one starts behind the last. -/
theorem blockStatements_spanned {ss : List (Stmt Unit)} {lo : Nat} (hs : s.On source)
    (hlo : lo ≤ s.current.span.start) (hr : blockStatements inner n s = .ok ss u) :
    InRow lo (ss.map Stmt.span) u.current.span.stop ∧
      ∀ node ∈ nodesStmts ss, node.Fits (lex source) := by
  induction n generalizing s ss lo with
  | zero =>
    obtain ⟨rfl, rfl⟩ := pure_ok.1 hr
    exact ⟨.nil (Nat.le_trans hlo hs.start_le_stop), nofun⟩
  | succ n ih =>
    rw [blockStatements_ok] at hr
    split at hr
    next =>
      obtain ⟨rfl, rfl⟩ := hr
      exact ⟨.nil (Nat.le_trans hlo hs.start_le_stop), nofun⟩
    next =>
      split at hr
      next x t hx =>
        obtain ⟨xs, hr, rfl⟩ := hr
        have hx := h.statement hs hx
        have hxs := ih hx.on_end.advance hx.on_end.stop_le_advance hr
        exact ⟨hx.cons_row hlo hxs.1, List.forall_mem_append.2 ⟨hx.fit, hxs.2⟩⟩
      next e t hx =>
        have hl := (hm.statement.error hx).1.trans t.leads_synchronize
        have hv := hs.leads hl
        have hlo := Nat.le_trans hlo (hs.le_of_leads hl).1
        split at hr
        next =>
          obtain ⟨rfl, rfl⟩ := hr
          exact ⟨.nil (Nat.le_trans hlo hv.start_le_stop), nofun⟩
        next =>
          exact ih hv.advance
            (Nat.le_trans hlo (hv.le_of_leads t.synchronize.leads_advance).1) hr

theorem block_spanned {b : Block Unit} (hs : s.On source) (hne : s.current.kind ≠ .eof)
    (hr : block inner s = .ok b u) : Spanned source s u b.span b.nodes := by
  have hl := (block_moves hm).ok hr
  obtain ⟨ss, t, hss, hu, rfl⟩ := block_ok.1 hr
  have hcurrent : u.current = t.current := by
    rw [← hu]
    split <;> rfl
  have hspan : s.spanTo t = s.spanTo u := by
    unfold State.spanTo
    rw [hcurrent]
  have hstart := Nat.le_trans hs.start_le_stop hs.stop_le_advance
  obtain ⟨hrow, hfit⟩ := blockStatements_spanned h hm hs.advance hstart hss
  rw [← hcurrent] at hrow
  show Spanned source s u (s.spanTo t) (⟨s.spanTo t, ss.map Stmt.span⟩ :: nodesStmts ss)
  rw [hspan]
  exact .mk_node hs hne hl hrow hfit

theorem function_spanned {fn : Function Unit} (hs : s.On source) (hne : s.current.kind ≠ .eof)
    (hr : function inner s = .ok fn u) : Spanned source s u fn.span fn.nodes := by
  have hl := (function_moves hm).ok hr
  obtain ⟨x, t, xs, v, b, hx, -, hxs, hbrace, hb, rfl⟩ := function_ok.1 hr
  have hx' := functionName_spanned hs hx
  have ht := hs.leads (functionName_moves.ok hx)
  have hxs' := parameters_spanned ht.advance hxs
  have hv := ht.advance.leads (parameters_moves.ok hxs)
  have hbody := block_spanned h hm hv.advance
    (by rw [State.advance_kind hv.ended hbrace nofun]; nofun) hb
  have hnames := hx'.row.append (hxs'.of_leads ht t.leads_advance).row
  have hrow := hnames.append (hbody.cons_row hv.stop_le_advance (.nil (Nat.le_refl _)))
  rw [← List.map_append] at hrow
  refine .mk_node hs hne hl (hrow.of_le hs.start_le_stop) ?_
  rw [List.map_append]
  exact List.forall_mem_append.2 ⟨List.forall_mem_append.2 ⟨hx'.fit, hxs'.fit⟩, hbody.fit⟩

/-! ### Lists and entries -/

omit hm in
theorem moreExpressions_spanned {close : TokenKind} {es : List (Expr Unit)} (hs : s.On source)
    (hr : moreExpressions inner close n s = .ok es u) :
    ListSpanned source s u (es.map Expr.span) (nodesExprs es) := by
  induction n generalizing s es with
  | zero =>
    obtain ⟨rfl, rfl⟩ := pure_ok.1 hr
    exact .nil hs (.refl s)
  | succ n ih =>
    rw [moreExpressions_ok] at hr
    split at hr
    next =>
      split at hr
      next =>
        obtain ⟨rfl, rfl⟩ := hr
        exact .nil hs s.leads_advance
      next =>
        obtain ⟨e, t, fs, he, hfs, rfl⟩ := hr
        have he := h.expression hs.advance.advance he
        exact .cons hs s.advance.leads_advance he (ih he.on_end hfs)
    next =>
      obtain ⟨rfl, rfl⟩ := hr
      exact .nil hs (.refl s)

theorem expressions_spanned {close : TokenKind} {es : List (Expr Unit)} (hs : s.On source)
    (hr : expressions inner close s = .ok es u) :
    ListSpanned source s u (es.map Expr.span) (nodesExprs es) := by
  rw [expressions_ok] at hr
  split at hr
  next =>
    obtain ⟨rfl, rfl⟩ := hr
    exact .nil hs s.leads_advance
  next =>
    obtain ⟨e, t, fs, v, he, hfs, -, rfl, rfl⟩ := hr
    have he := h.expression hs.advance he
    have hl := (moreExpressions_moves hm close _).ok hfs
    have hrest := (moreExpressions_spanned h he.on_end hfs).widen (he.on_end.leads hl)
      v.leads_advance
    exact .cons hs (.refl _) he hrest

/-- An entry stands on its key, and its value, if there is one, behind the colon. -/
theorem property_spanned {v : Option (Expr Unit)} (hs : s.On source)
    (hc : s.current.kind = .ident) (hr : propertyValue inner s = .ok v u) :
    Spanned source s u (s.spanTo u)
      (⟨s.spanTo u, s.name.span :: v.toList.map Expr.span⟩ :: s.name.node ::
        nodesExprs v.toList) := by
  have hne : s.current.kind ≠ .eof := by rw [hc]; nofun
  have hl := (propertyValue_moves hm).ok hr
  have hname := name_spanned hs hc
  have hvalue : ListSpanned source s u (v.toList.map Expr.span) (nodesExprs v.toList) := by
    rw [propertyValue_ok] at hr
    split at hr
    next =>
      obtain ⟨e, he, rfl⟩ := hr
      have he := h.expression hs.advance.advance he
      exact .cons hs s.advance.leads_advance he (.nil he.on_end (.refl u))
    next =>
      obtain ⟨rfl, rfl⟩ := hr
      exact .nil hs (.refl s)
  have hnodes := List.forall_mem_append.2 ⟨hname.fit, hvalue.fit⟩
  exact .mk_node hs hne hl (hname.cons_row (Nat.le_refl _) hvalue.row) hnodes

omit h hm in
theorem nodesProperties_cons {ι : Type} (span : Span) (key : Ident) (value : Option (Expr ι))
    (ps : List (Property (Option (Expr ι)))) :
    nodesProperties (⟨span, key, value⟩ :: ps) =
      (⟨span, key.span :: value.toList.map Expr.span⟩ :: key.node :: nodesExprs value.toList) ++
        nodesProperties ps := by
  cases value with
  | none => rfl
  | some e => simp [nodesProperties, nodesExprs]

theorem properties_spanned {ps : List (Property (Option (Expr Unit)))} (hs : s.On source)
    (hr : properties inner n s = .ok ps u) :
    ListSpanned source s u (ps.map (·.span)) (nodesProperties ps) := by
  induction n generalizing s ps with
  | zero =>
    obtain ⟨rfl, rfl⟩ := pure_ok.1 hr
    exact .nil hs (.refl s)
  | succ n ih =>
    rw [properties_ok] at hr
    split at hr
    next =>
      obtain ⟨rfl, rfl⟩ := hr
      exact .nil hs s.leads_advance
    next =>
      obtain ⟨hi, v, t, hv, hr⟩ := hr
      have hp := property_spanned h hm hs.advance (State.advance_kind hs.ended hi nofun) hv
      split at hr
      next =>
        obtain ⟨qs, hqs, rfl⟩ := hr
        rw [nodesProperties_cons]
        exact .cons hs (.refl _) hp
          ((ih hp.on_end.advance hqs).of_leads hp.on_end t.leads_advance)
      next =>
        obtain ⟨-, rfl, rfl⟩ := hr
        rw [nodesProperties_cons]
        exact .cons hs (.refl _) hp (.nil hp.on_end t.leads_advance)

/-! ### What starts an expression -/

/-- An `if` behind `else` is the only statement of a block, and the three have one span. -/
theorem alternative_spanned {a : Option (Block Unit)} (hs : s.On source)
    (hr : alternative inner s = .ok a u) :
    ListSpanned source s u (a.toList.map (·.span)) (a.toList.flatMap (·.nodes)) := by
  have hl := (alternative_moves hm).ok hr
  have hsingle {b : Block Unit} (hb : Spanned source s.advance.advance u b.span b.nodes) :
      ListSpanned source s u [b.span] (b.nodes ++ []) :=
    .cons hs s.advance.leads_advance hb (.nil hb.on_end (.refl u))
  rw [alternative_ok] at hr
  split at hr
  next =>
    have hne {k : TokenKind} (hp : s.advance.peek.kind = k) (hk : k ≠ .eof) :
        s.advance.advance.current.kind ≠ .eof := by
      rw [State.advance_kind hs.advance.ended hp hk]
      exact hk
    split at hr
    next hif =>
      obtain ⟨e, he, rfl⟩ := hr
      have he := h.conditional hs.advance.advance (hne hif nofun) he
      refine hsingle (b := ⟨e.span, [.expr e.span e]⟩) ⟨he.on, he.leads, he.starts, he.span_eq, ?_⟩
      have hrow := he.cons_row (Nat.le_refl _) (.nil (Nat.le_refl _))
      have hstmt := (Spanned.mk_node he.on he.starts he.leads hrow he.fit).fit
      have hblock := (Spanned.mk_node he.on he.starts he.leads hrow hstmt).fit
      rw [← he.span_eq] at hblock
      simpa [Block.nodes, nodesStmts, Stmt.nodes, Stmt.span] using hblock
    next =>
      obtain ⟨hbrace, b, hb, rfl⟩ := hr
      exact hsingle (block_spanned h hm hs.advance.advance (hne hbrace nofun) hb)
  next =>
    obtain ⟨rfl, rfl⟩ := hr
    exact .nil hs (.refl s)

omit h hm in
theorem nodes_cond {ι : Type} (span : Span) (c : Expr ι) (b : Block ι) (a : Option (Block ι)) :
    (Expr.cond span c b a).nodes =
      ⟨span, c.span :: b.span :: a.toList.map (·.span)⟩ ::
        (c.nodes ++ (b.nodes ++ a.toList.flatMap (·.nodes))) := by
  cases a <;> simp [Expr.nodes]

theorem conditional_spanned {e : Expr Unit} (hs : s.On source) (hne : s.current.kind ≠ .eof)
    (hr : conditional inner s = .ok e u) : Spanned source s u e.span e.nodes := by
  have hl := (conditional_moves hm).ok hr
  obtain ⟨c, t, b, v, a, -, hc, -, hbrace, hb, ha, rfl⟩ := conditional_ok.1 hr
  have hc := h.expression hs.advance.advance hc
  have ht := hc.on_end
  have hb := block_spanned h hm ht.advance.advance
    (by rw [State.advance_kind ht.advance.ended hbrace nofun]; nofun) hb
  have ha := alternative_spanned h hm hb.on_end ha
  have hrow := hc.cons_row (hs.stop_le_of_advance s.advance.leads_advance)
    (hb.cons_row (ht.stop_le_of_advance t.advance.leads_advance) ha.row)
  rw [nodes_cond]
  exact .mk_node hs hne hl (hrow.of_le hs.start_le_stop) (List.forall_mem_append.2
    ⟨hc.fit, List.forall_mem_append.2 ⟨hb.fit, ha.fit⟩⟩)

theorem unary_spanned {op : UnaryOp} {e : Expr Unit} (hs : s.On source)
    (hne : s.current.kind ≠ .eof) (hr : unary inner op s = .ok e u) :
    Spanned source s u e.span e.nodes := by
  have hl := (unary_moves hm op).ok hr
  obtain ⟨x, hx, rfl⟩ := unary_ok.1 hr
  have hx := h.expression hs.advance hx
  have hrow := hx.cons_row hs.stop_le_advance (.nil (Nat.le_refl _))
  exact .mk_node hs hne hl (hrow.of_le hs.start_le_stop) hx.fit

theorem object_spanned {e : Expr Unit} (hs : s.On source) (hne : s.current.kind ≠ .eof)
    (hr : object inner s = .ok e u) : Spanned source s u e.span e.nodes := by
  have hl := (object_moves hm).ok hr
  obtain ⟨ps, hps, rfl⟩ := object_ok.1 hr
  have hps := properties_spanned h hm hs hps
  exact .mk_node hs hne hl (hps.row.of_le hs.start_le_stop) hps.fit

theorem array_spanned {e : Expr Unit} (hs : s.On source) (hne : s.current.kind ≠ .eof)
    (hr : array inner s = .ok e u) : Spanned source s u e.span e.nodes := by
  have hl := (array_moves hm).ok hr
  obtain ⟨es, hes, rfl⟩ := array_ok.1 hr
  have hes := expressions_spanned h hm hs hes
  exact .mk_node hs hne hl (hes.row.of_le hs.start_le_stop) hes.fit

theorem operand_spanned {e : Expr Unit} (hs : s.On source) (hr : operand inner s = .ok e u) :
    Spanned source s u e.span e.nodes := by
  have hne : s.current.kind ≠ .eof := by
    intro heof
    rw [operand_ok, heof] at hr
    exact hr
  rw [operand_ok] at hr
  split at hr
  case h_1 | h_4 | h_5 =>
    obtain ⟨rfl, rfl⟩ := hr
    exact .mk_leaf hs hne (.refl s) rfl
  case h_2 =>
    obtain ⟨-, rfl, rfl⟩ := integer_ok.1 hr
    exact .mk_leaf hs hne (.refl s) rfl
  case h_3 =>
    have hl := string_moves.ok hr
    obtain ⟨hu, rfl⟩ := string_ok.1 hr
    refine .mk_leaf hs hne hl ?_
    rw [← hu]
    split <;> rfl
  case h_6 | h_7 => exact unary_spanned h hm hs hne hr
  case h_8 =>
    obtain ⟨x, t, hx, -, rfl, rfl⟩ := group_ok.1 hr
    exact .withSpan hs hne (h.expression hs.advance hx)
  case h_9 => exact object_spanned h hm hs hne hr
  case h_10 => exact array_spanned h hm hs hne hr
  case h_11 => exact conditional_spanned h hm hs hne hr
  case h_12 =>
    obtain ⟨fn, hfn, rfl⟩ := hr
    have hfn := function_spanned h hm hs hne hfn
    have hrow := hfn.cons_row (Nat.le_refl _) (.nil (Nat.le_refl _))
    have hnode := Spanned.mk_node hs hne hfn.leads hrow hfn.fit
    rwa [← hfn.span_eq] at hnode
  case h_13 => exact absurd hr id

/-! ### What goes on behind an expression -/

/-- What stands before the operator began at `s₀` and ended at `s`, so the whole begins there. -/
theorem operation_spanned {s₀ : State} {left e : Expr Unit}
    (hleft : Spanned source s₀ s left.span left.nodes)
    (hlow : Precedence.of s.peek.kind ≠ .lowest)
    (hr : operation inner left s.advance = .ok e u) : Spanned source s₀ u e.span e.nodes := by
  have hs := hleft.on_end
  have hne : s.peek.kind ≠ .eof := by
    intro heq
    rw [heq] at hlow
    exact hlow rfl
  have hk := State.advance_kind hs.ended rfl hne
  have hl := hleft.leads.trans (s.leads_advance.trans ((operation_moves hm left).ok hr))
  -- the operand on the right stands behind the operator
  have hpair {right : Expr Unit} {v : State} (hl' : v.Leads u)
      (hright : Spanned source s.advance.advance v right.span right.nodes) :
      Spanned source s₀ u (s₀.spanTo u)
        (⟨s₀.spanTo u, [left.span, right.span]⟩ :: (left.nodes ++ right.nodes)) := by
    have hrow := hleft.cons_row (Nat.le_refl _)
      (hright.cons_row (hs.stop_le_of_advance s.advance.leads_advance)
        (.nil (hright.on_end.le_of_leads hl').2))
    exact .mk_node hleft.on hleft.starts hl hrow
      (List.forall_mem_append.2 ⟨hleft.fit, hright.fit⟩)
  rw [operation_ok, hleft.start_eq] at hr
  rw [← hk] at hlow
  split at hr
  next =>
    obtain ⟨args, hargs, rfl⟩ := hr
    have hargs := expressions_spanned h hm hs.advance hargs
    have hrow := hleft.cons_row (Nat.le_refl _) (hargs.of_leads hs s.leads_advance).row
    exact .mk_node hleft.on hleft.starts hl hrow (List.forall_mem_append.2 ⟨hleft.fit, hargs.fit⟩)
  next =>
    obtain ⟨key, t, hkey, -, rfl, rfl⟩ := hr
    exact hpair t.leads_advance (h.expression hs.advance.advance hkey)
  next =>
    obtain ⟨v, hv, rfl⟩ := hr
    exact hpair (.refl u) (h.expression hs.advance.advance hv)
  next hparen hbracket hassign =>
    split at hr
    next op hop =>
      obtain ⟨r, hr, rfl⟩ := hr
      exact hpair (.refl u) (h.expression hs.advance.advance hr)
    next hop =>
      exact absurd (Precedence.of_eq_lowest hparen hbracket hassign hop) hlow

theorem operations_spanned {s₀ : State} {floor : Precedence} {left e : Expr Unit}
    (hleft : Spanned source s₀ s left.span left.nodes)
    (hr : operations inner floor n left s = .ok e u) : Spanned source s₀ u e.span e.nodes := by
  induction n generalizing s left with
  | zero =>
    obtain ⟨rfl, rfl⟩ := pure_ok.1 hr
    exact hleft
  | succ n ih =>
    rw [operations_ok] at hr
    split at hr
    next hfloor =>
      obtain ⟨x, t, hx, hr⟩ := hr
      have hlow : Precedence.of s.peek.kind ≠ .lowest := by
        intro heq
        rw [heq] at hfloor
        exact absurd hfloor (Nat.not_lt_zero _)
      exact ih (operation_spanned h hm hleft hlow hx) hr
    next =>
      obtain ⟨rfl, rfl⟩ := hr
      exact hleft

theorem expression_spanned {floor : Precedence} {e : Expr Unit} (hs : s.On source)
    (hr : expression inner floor s = .ok e u) : Spanned source s u e.span e.nodes := by
  obtain ⟨x, t, hx, hr⟩ := expression_ok.1 hr
  exact operations_spanned h hm (operand_spanned h hm hs hx) hr

/-! ### Statements -/

omit h hm in
/-- What was read before a semicolon that may be there. -/
theorem semicolon_row (hs : s.On source) (hl : s.Leads u)
    {span : Span} {nodes : List Node} {v : State} (hx : Spanned source u v span nodes) :
    InRow s.current.span.start [span]
      (if v.peek.kind = .semicolon then v.advance else v).current.span.stop :=
  hx.cons_row (hs.le_of_leads hl).1 (.nil (hx.on_end.le_of_leads v.leads_semicolon).2)

theorem declaration_spanned {x : Stmt Unit} (hs : s.On source) (hne : s.current.kind ≠ .eof)
    (hr : declaration inner s = .ok x u) : Spanned source s u x.span x.nodes := by
  have hl := (declaration_moves hm).ok hr
  rw [declaration_ok] at hr
  obtain ⟨hi, hr⟩ := hr
  have hname := name_spanned hs.advance (State.advance_kind hs.ended hi nofun)
  have hstart := Nat.le_trans hs.start_le_stop hs.stop_le_advance
  split at hr
  next =>
    obtain ⟨hu, rfl⟩ := hr
    have hstop : s.advance.current.span.stop ≤ u.current.span.stop := by
      have hle := (hs.advance.le_of_leads s.advance.leads_advance).2
      rw [← hu]
      split <;> exact hle
    exact .mk_node hs hne hl (hname.cons_row hstart (.nil hstop)) hname.fit
  next =>
    obtain ⟨-, v, t, hv, -, rfl, rfl⟩ := hr
    have hv := h.expression hs.advance.advance.advance hv
    have hgap := hs.advance.stop_le_of_advance s.advance.advance.leads_advance
    have hrow := hv.cons_row hgap (.nil (hv.on_end.le_of_leads t.leads_advance).2)
    exact .mk_node hs hne hl (hname.cons_row hstart hrow)
      (List.forall_mem_cons.2 ⟨hname.fit _ List.mem_cons_self, hv.fit⟩)

theorem returnStatement_spanned {x : Stmt Unit} (hs : s.On source) (hne : s.current.kind ≠ .eof)
    (hr : returnStatement inner s = .ok x u) : Spanned source s u x.span x.nodes := by
  have hl := (returnStatement_moves hm).ok hr
  obtain ⟨-, v, t, hv, rfl, rfl⟩ := returnStatement_ok.1 hr
  have hv := h.expression hs.advance hv
  exact .mk_node hs hne hl (semicolon_row hs s.leads_advance hv) hv.fit

omit h in
/-- The name of a function is read before the rest of it. -/
theorem named_function_leads {fn : Function Unit} (hi : s.peek.kind = .ident)
    (hr : function inner s = .ok fn u) : s.advance.Leads u := by
  obtain ⟨x, t, xs, v, b, hx, -, hxs, -, hb, -⟩ := function_ok.1 hr
  rw [functionName_ok, if_pos hi] at hx
  obtain ⟨-, rfl⟩ := hx
  have hparams := (State.leads_advance _).trans (parameters_moves.ok hxs)
  exact hparams.trans (v.leads_advance.trans ((block_moves hm).ok hb))

theorem functionStatement_spanned {x : Stmt Unit} (hs : s.On source) (hne : s.current.kind ≠ .eof)
    (hi : s.peek.kind = .ident)
    (hr : functionStatement inner ⟨s.peek.span, s.peek.literal⟩ s = .ok x u) :
    Spanned source s u x.span x.nodes := by
  have hl := (functionStatement_moves hm _).ok hr
  obtain ⟨fn, t, hfn, rfl, rfl⟩ := functionStatement_ok.1 hr
  have hlead := (named_function_leads hm hi hfn).trans t.leads_semicolon
  have hfn := function_spanned h hm hs hne hfn
  have hname := name_spanned hs.advance (State.advance_kind hs.ended hi nofun)
  have hstart := Nat.le_trans hs.start_le_stop hs.stop_le_advance
  have hrow := hname.cons_row hstart (.nil (hs.advance.le_of_leads hlead).2)
  have hnodes := List.forall_mem_cons.2 ⟨hname.fit _ List.mem_cons_self, hfn.fit⟩
  have hfunction := Spanned.mk_node hs hne hl (semicolon_row hs (.refl s) hfn) hnodes
  rw [← s.advance_current]
  exact .mk_node hs hne hl hrow hfunction.fit

theorem expressionStatement_spanned {x : Stmt Unit} (hs : s.On source)
    (hr : expressionStatement inner s = .ok x u) : Spanned source s u x.span x.nodes := by
  have hl := (expressionStatement_moves hm).ok hr
  obtain ⟨v, t, hv, rfl, rfl⟩ := expressionStatement_ok.1 hr
  have hv := h.expression hs hv
  exact .mk_node hs hv.starts hl (semicolon_row hs (.refl s) hv) hv.fit

theorem statement_spanned {x : Stmt Unit} (hs : s.On source)
    (hr : statement inner s = .ok x u) : Spanned source s u x.span x.nodes := by
  rw [statement_run] at hr
  split at hr
  next hk => exact declaration_spanned h hm hs (by rw [hk]; nofun) hr
  next hk => exact declaration_spanned h hm hs (by rw [hk]; nofun) hr
  next hk => exact returnStatement_spanned h hm hs (by rw [hk]; nofun) hr
  next hk =>
    split at hr
    next hi => exact functionStatement_spanned h hm hs (by rw [hk]; nofun) hi hr
    next => exact expressionStatement_spanned h hm hs hr
  next => exact expressionStatement_spanned h hm hs hr

end

theorem level_span (source : String) (n : Nat) : (level n).Span source := by
  induction n with
  | zero =>
    exact ⟨fun _ hr => absurd hr fail_ok, fun _ hr => absurd hr fail_ok,
      fun _ _ hr => absurd hr fail_ok⟩
  | succ n ih =>
    have hm := level_moves n
    exact ⟨statement_spanned ih hm, expression_spanned ih hm, conditional_spanned ih hm⟩

/-! ### Programs -/

theorem programStatements_spanned {ss : List (Stmt Unit)} {lo : Nat} (h : inner.Span source)
    (hm : inner.Move) (hs : s.On source) (hlo : lo ≤ s.current.span.start)
    (hr : programStatements inner n s = .ok ss u) :
    InRow lo (ss.map Stmt.span) u.current.span.stop ∧
      ∀ node ∈ nodesStmts ss, node.Fits (lex source) := by
  induction n generalizing s ss lo with
  | zero =>
    obtain ⟨rfl, rfl⟩ := pure_ok.1 hr
    exact ⟨.nil (Nat.le_trans hlo hs.start_le_stop), nofun⟩
  | succ n ih =>
    rw [programStatements_ok] at hr
    split at hr
    next =>
      obtain ⟨rfl, rfl⟩ := hr
      exact ⟨.nil (Nat.le_trans hlo hs.start_le_stop), nofun⟩
    next =>
      split at hr
      next x t hx =>
        obtain ⟨xs, hr, rfl⟩ := hr
        have hx := h.statement hs hx
        have hxs := ih hx.on_end.advance hx.on_end.stop_le_advance hr
        exact ⟨hx.cons_row hlo hxs.1, List.forall_mem_append.2 ⟨hx.fit, hxs.2⟩⟩
      next e t hx =>
        have hl := ((hm.statement.error hx).1.trans t.leads_synchronize).trans
          t.synchronize.leads_advance
        exact ih (hs.leads hl) (Nat.le_trans hlo (hs.le_of_leads hl).1) hr

end Parser

open Primer.Parser

/-- **The spans of a tree nest and are in order**, whatever diagnostics there are.  The program
covers the source, and its statements are side by side in it.  Every other node starts where a
token starts and ends where a token ends, is not empty and lies within the source; it contains
its children, and these are side by side. -/
theorem parse_spans_nest (source : String) :
    (parse source).1.span = ⟨0, source.utf8ByteSize⟩ ∧
    (∀ x ∈ (parse source).1.statements, (parse source).1.span.contains x.span = true) ∧
    (parse source).1.statements.Pairwise (fun x y => x.span.stop ≤ y.span.start) ∧
    ∀ node ∈ (parse source).1.nodes,
      (node.span.start < node.span.stop ∧ node.span.stop ≤ source.utf8ByteSize) ∧
      (∃ t ∈ lex source, t.span.start = node.span.start) ∧
      (∃ t ∈ lex source, t.span.stop = node.span.stop) ∧
      (parse source).1.span.contains node.span = true ∧
      (∀ child ∈ node.children, node.span.contains child = true) ∧
      node.children.Pairwise (fun a b => a.stop ≤ b.start) := by
  have hs := State.ofString_on source
  obtain ⟨p, u, hrun, hu⟩ := program_ends hs.ended
  have hparse : (parse source).1 = p := by
    unfold parse parseAs State.readProgram
    rw [hrun]
  obtain ⟨ss, hss, rfl⟩ := program_ok.1 hrun
  have hm := level_moves maxNesting
  have hend := (hs.leads ((programStatements_moves hm _).ok hss)).span_of_eof hu
  obtain ⟨hrow, hfit⟩ :=
    programStatements_spanned (level_span source _) hm hs (Nat.zero_le _) hss
  rw [hend] at hrow hparse
  have hcontains {a b : Span} (hstart : a.start ≤ b.start) (hstop : b.stop ≤ a.stop) :
      a.contains b = true := by
    unfold Span.contains
    rw [Bool.and_eq_true, decide_eq_true_eq, decide_eq_true_eq]
    exact ⟨hstart, hstop⟩
  rw [hparse]
  refine ⟨rfl, ?_, ?_, ?_⟩
  · intro x hx
    exact hcontains (Nat.zero_le _) (hrow.mem _ (List.mem_map_of_mem hx)).2
  · exact List.pairwise_map.1 hrow.ordered
  · intro node hnode
    have hnode := hfit node hnode
    obtain ⟨t, ht, hstop⟩ := hnode.stops
    have hle : node.span.stop ≤ source.utf8ByteSize := by
      rw [← hstop]
      exact (lex_tiling source).stop_le t ht
    refine ⟨⟨hnode.nonempty, hle⟩, hnode.starts, ⟨t, ht, hstop⟩,
      hcontains (Nat.zero_le _) hle, fun child hchild => ?_, hnode.row.ordered⟩
    obtain ⟨hlo, hhi⟩ := hnode.row.mem child hchild
    exact hcontains hlo hhi

end Primer
