/-
  Primer/Proofs/Tree/Spans.lean
  =============================
  **Laws of moving spans.**

  Moving the spans of a tree is functorial (`mapSpans_id`, `mapSpans_mapSpans`), so that a tree
  which was moved and then forgets its spans is the tree that forgets them at once.  Each law asks
  of the maps what it needs at every span, and so does not speak of composed functions.  Labels
  are handed out by the shape of a tree alone: labelling commutes with moving spans
  (`labelStmts_mapSpans`), and statements behind others get the labels behind theirs
  (`labelStmts_append`).
-/
import Primer.Tree.Label
import Primer.Tree.Spans

namespace Primer

variable {ι : Type} {f g k : Span → Span}

/-! ### Equations without cases -/

def Property.mapSpans (f : Span → Span) (p : Property (Option (Expr ι))) :
    Property (Option (Expr ι)) :=
  ⟨f p.span, p.key.mapSpans f, p.value.map (·.mapSpans f)⟩

theorem mapSpansProperties_eq_map (f : Span → Span) (ps : List (Property (Option (Expr ι)))) :
    mapSpansProperties f ps = ps.map (·.mapSpans f) := by
  induction ps with
  | nil => rw [mapSpansProperties, List.map_nil]
  | cons p ps ih =>
    obtain ⟨span, key, value⟩ := p
    cases value <;> rw [mapSpansProperties, ih, List.map_cons] <;> rfl

theorem Expr.mapSpans_cond (f : Span → Span) (span : Span) (c : Expr ι) (b : Block ι)
    (a : Option (Block ι)) :
    (Expr.cond span c b a).mapSpans f =
      .cond (f span) (c.mapSpans f) (b.mapSpans f) (a.map (·.mapSpans f)) := by
  cases a <;> rw [Expr.mapSpans] <;> rfl

theorem Stmt.mapSpans_declare (f : Span → Span) (span : Span) (isConst : Bool) (x : Ident)
    (v : Option (Expr ι)) :
    (Stmt.declare span isConst x v).mapSpans f =
      .declare (f span) isConst (x.mapSpans f) (v.map (·.mapSpans f)) := by
  cases v <;> rw [Stmt.mapSpans] <;> rfl

theorem Expr.span_mapSpans (f : Span → Span) (e : Expr ι) : (e.mapSpans f).span = f e.span := by
  cases e with
  | cond _ _ _ a => rw [Expr.mapSpans_cond]; rfl
  | _ => rw [Expr.mapSpans]; rfl

theorem Expr.mapSpans_withSpan (f : Span → Span) (span : Span) (e : Expr ι) :
    (e.withSpan span).mapSpans f = (e.mapSpans f).withSpan (f span) := by
  cases e with
  | cond _ _ _ a =>
    rw [Expr.withSpan, Expr.mapSpans_cond, Expr.mapSpans_cond]
    rfl
  | _ =>
    rw [Expr.withSpan, Expr.mapSpans, Expr.mapSpans]
    rfl

/-! ### Spans that stay -/

theorem Ident.mapSpans_id (hf : ∀ a, f a = a) (x : Ident) : x.mapSpans f = x := by
  rw [Ident.mapSpans, hf]

theorem mapSpans_names_id (hf : ∀ a, f a = a) (xs : List Ident) :
    xs.map (·.mapSpans f) = xs := by
  rw [List.map_congr_left fun x _ => x.mapSpans_id hf, List.map_id']

mutual

theorem Expr.mapSpans_id (hf : ∀ a, f a = a) (e : Expr ι) : e.mapSpans f = e := by
  cases e with
  | ident | str | int | bool => rw [Expr.mapSpans, hf]
  | unary _ _ e => rw [Expr.mapSpans, hf, e.mapSpans_id hf]
  | binary _ _ l r => rw [Expr.mapSpans, hf, l.mapSpans_id hf, r.mapSpans_id hf]
  | cond _ c b a =>
    cases a with
    | none => rw [Expr.mapSpans, hf, c.mapSpans_id hf, b.mapSpans_id hf]
    | some a => rw [Expr.mapSpans, hf, c.mapSpans_id hf, b.mapSpans_id hf, a.mapSpans_id hf]
  | function _ fn => rw [Expr.mapSpans, hf, fn.mapSpans_id hf]
  | call _ c es => rw [Expr.mapSpans, hf, c.mapSpans_id hf, mapSpansExprs_id hf es]
  | index _ c i => rw [Expr.mapSpans, hf, c.mapSpans_id hf, i.mapSpans_id hf]
  | assign _ t v => rw [Expr.mapSpans, hf, t.mapSpans_id hf, v.mapSpans_id hf]
  | object _ _ ps => rw [Expr.mapSpans, hf, mapSpansProperties_id hf ps]
  | array _ _ es => rw [Expr.mapSpans, hf, mapSpansExprs_id hf es]

theorem Stmt.mapSpans_id (hf : ∀ a, f a = a) (x : Stmt ι) : x.mapSpans f = x := by
  cases x with
  | declare _ _ name v =>
    cases v with
    | none => rw [Stmt.mapSpans, hf, name.mapSpans_id hf]
    | some v => rw [Stmt.mapSpans, hf, name.mapSpans_id hf, v.mapSpans_id hf]
  | function _ name fn => rw [Stmt.mapSpans, hf, name.mapSpans_id hf, fn.mapSpans_id hf]
  | ret _ e => rw [Stmt.mapSpans, hf, e.mapSpans_id hf]
  | expr _ e => rw [Stmt.mapSpans, hf, e.mapSpans_id hf]

theorem Block.mapSpans_id (hf : ∀ a, f a = a) (b : Block ι) : b.mapSpans f = b := by
  cases b with
  | mk _ ss => rw [Block.mapSpans, hf, mapSpansStmts_id hf ss]

theorem Function.mapSpans_id (hf : ∀ a, f a = a) (fn : Function ι) : fn.mapSpans f = fn := by
  cases fn with
  | mk _ _ name params body =>
    have hname : name.map (·.mapSpans f) = name := by
      cases name with
      | none => rfl
      | some x => rw [Option.map_some, x.mapSpans_id hf]
    rw [Function.mapSpans, hf, hname, mapSpans_names_id hf, body.mapSpans_id hf]

theorem mapSpansExprs_id (hf : ∀ a, f a = a) (es : List (Expr ι)) : mapSpansExprs f es = es := by
  cases es with
  | nil => rw [mapSpansExprs]
  | cons e es => rw [mapSpansExprs, e.mapSpans_id hf, mapSpansExprs_id hf es]

theorem mapSpansStmts_id (hf : ∀ a, f a = a) (ss : List (Stmt ι)) : mapSpansStmts f ss = ss := by
  cases ss with
  | nil => rw [mapSpansStmts]
  | cons x ss => rw [mapSpansStmts, x.mapSpans_id hf, mapSpansStmts_id hf ss]

theorem mapSpansProperties_id (hf : ∀ a, f a = a) (ps : List (Property (Option (Expr ι)))) :
    mapSpansProperties f ps = ps := by
  match ps with
  | [] => rw [mapSpansProperties]
  | ⟨_, key, none⟩ :: ps =>
    rw [mapSpansProperties, hf, key.mapSpans_id hf, mapSpansProperties_id hf ps]
  | ⟨_, key, some v⟩ :: ps =>
    rw [mapSpansProperties, hf, key.mapSpans_id hf, v.mapSpans_id hf, mapSpansProperties_id hf ps]

end

/-! ### Spans that are moved twice -/

theorem Ident.mapSpans_mapSpans (h : ∀ a, f (g a) = k a) (x : Ident) :
    (x.mapSpans g).mapSpans f = x.mapSpans k := by
  rw [Ident.mapSpans, Ident.mapSpans, Ident.mapSpans, h]

mutual

theorem Expr.mapSpans_mapSpans (h : ∀ a, f (g a) = k a) (e : Expr ι) :
    (e.mapSpans g).mapSpans f = e.mapSpans k := by
  cases e with
  | ident | str | int | bool => simp only [Expr.mapSpans, h]
  | unary _ _ e => simp only [Expr.mapSpans, h, e.mapSpans_mapSpans h]
  | binary _ _ l r => simp only [Expr.mapSpans, h, l.mapSpans_mapSpans h, r.mapSpans_mapSpans h]
  | cond _ c b a =>
    cases a with
    | none => simp only [Expr.mapSpans, h, c.mapSpans_mapSpans h, b.mapSpans_mapSpans h]
    | some a =>
      simp only [Expr.mapSpans, h, c.mapSpans_mapSpans h, b.mapSpans_mapSpans h,
        a.mapSpans_mapSpans h]
  | function _ fn => simp only [Expr.mapSpans, h, fn.mapSpans_mapSpans h]
  | call _ c es =>
    simp only [Expr.mapSpans, h, c.mapSpans_mapSpans h, mapSpansExprs_mapSpans h es]
  | index _ c i => simp only [Expr.mapSpans, h, c.mapSpans_mapSpans h, i.mapSpans_mapSpans h]
  | assign _ t v => simp only [Expr.mapSpans, h, t.mapSpans_mapSpans h, v.mapSpans_mapSpans h]
  | object _ _ ps => simp only [Expr.mapSpans, h, mapSpansProperties_mapSpans h ps]
  | array _ _ es => simp only [Expr.mapSpans, h, mapSpansExprs_mapSpans h es]

theorem Stmt.mapSpans_mapSpans (h : ∀ a, f (g a) = k a) (x : Stmt ι) :
    (x.mapSpans g).mapSpans f = x.mapSpans k := by
  cases x with
  | declare _ _ name v =>
    cases v with
    | none => simp only [Stmt.mapSpans, h, name.mapSpans_mapSpans h]
    | some v => simp only [Stmt.mapSpans, h, name.mapSpans_mapSpans h, v.mapSpans_mapSpans h]
  | function _ name fn =>
    simp only [Stmt.mapSpans, h, name.mapSpans_mapSpans h, fn.mapSpans_mapSpans h]
  | ret _ e => simp only [Stmt.mapSpans, h, e.mapSpans_mapSpans h]
  | expr _ e => simp only [Stmt.mapSpans, h, e.mapSpans_mapSpans h]

theorem Block.mapSpans_mapSpans (h : ∀ a, f (g a) = k a) (b : Block ι) :
    (b.mapSpans g).mapSpans f = b.mapSpans k := by
  cases b with
  | mk _ ss => simp only [Block.mapSpans, h, mapSpansStmts_mapSpans h ss]

theorem Function.mapSpans_mapSpans (h : ∀ a, f (g a) = k a) (fn : Function ι) :
    (fn.mapSpans g).mapSpans f = fn.mapSpans k := by
  cases fn with
  | mk _ _ name params body =>
    have hx (x : Ident) := x.mapSpans_mapSpans h
    simp only [Function.mapSpans, h, body.mapSpans_mapSpans h, Option.map_map, List.map_map,
      Function.comp_def, hx]

theorem mapSpansExprs_mapSpans (h : ∀ a, f (g a) = k a) (es : List (Expr ι)) :
    mapSpansExprs f (mapSpansExprs g es) = mapSpansExprs k es := by
  cases es with
  | nil => simp only [mapSpansExprs]
  | cons e es =>
    simp only [mapSpansExprs, e.mapSpans_mapSpans h, mapSpansExprs_mapSpans h es]

theorem mapSpansStmts_mapSpans (h : ∀ a, f (g a) = k a) (ss : List (Stmt ι)) :
    mapSpansStmts f (mapSpansStmts g ss) = mapSpansStmts k ss := by
  cases ss with
  | nil => simp only [mapSpansStmts]
  | cons x ss =>
    simp only [mapSpansStmts, x.mapSpans_mapSpans h, mapSpansStmts_mapSpans h ss]

theorem mapSpansProperties_mapSpans (h : ∀ a, f (g a) = k a)
    (ps : List (Property (Option (Expr ι)))) :
    mapSpansProperties f (mapSpansProperties g ps) = mapSpansProperties k ps := by
  match ps with
  | [] => simp only [mapSpansProperties]
  | ⟨_, key, none⟩ :: ps =>
    simp only [mapSpansProperties, h, key.mapSpans_mapSpans h, mapSpansProperties_mapSpans h ps]
  | ⟨_, key, some v⟩ :: ps =>
    simp only [mapSpansProperties, h, key.mapSpans_mapSpans h, v.mapSpans_mapSpans h,
      mapSpansProperties_mapSpans h ps]

end

/-! ### Labels -/

mutual

theorem Expr.label_mapSpans (f : Span → Span) (e : Expr ι) :
    (e.mapSpans f).label = (·.mapSpans f) <$> e.label := by
  cases e with
  | ident | str | int | bool => simp only [Expr.mapSpans, Expr.label, map_pure]
  | unary _ _ e =>
    simp only [Expr.mapSpans, Expr.label, e.label_mapSpans f, bind_map_left, map_bind, map_pure]
  | binary _ _ l r =>
    simp only [Expr.mapSpans, Expr.label, l.label_mapSpans f, r.label_mapSpans f, bind_map_left,
      map_bind, map_pure]
  | cond _ c b a =>
    cases a with
    | none =>
      simp only [Expr.mapSpans, Expr.label, c.label_mapSpans f, b.label_mapSpans f, bind_map_left,
        map_bind, map_pure]
    | some a =>
      simp only [Expr.mapSpans, Expr.label, c.label_mapSpans f, b.label_mapSpans f,
        a.label_mapSpans f, bind_map_left, map_bind, map_pure]
  | function _ fn =>
    simp only [Expr.mapSpans, Expr.label, fn.relabel_mapSpans f, bind_map_left, map_bind, map_pure]
  | call _ c es =>
    simp only [Expr.mapSpans, Expr.label, c.label_mapSpans f, labelExprs_mapSpans f es,
      bind_map_left, map_bind, map_pure]
  | index _ c i =>
    simp only [Expr.mapSpans, Expr.label, c.label_mapSpans f, i.label_mapSpans f, bind_map_left,
      map_bind, map_pure]
  | assign _ t v =>
    simp only [Expr.mapSpans, Expr.label, t.label_mapSpans f, v.label_mapSpans f, bind_map_left,
      map_bind, map_pure]
  | object _ _ ps =>
    simp only [Expr.mapSpans, Expr.label, labelProperties_mapSpans f ps, bind_map_left, map_bind,
      map_pure]
  | array _ _ es =>
    simp only [Expr.mapSpans, Expr.label, labelExprs_mapSpans f es, bind_map_left, map_bind,
      map_pure]

theorem Stmt.label_mapSpans (f : Span → Span) (x : Stmt ι) :
    (x.mapSpans f).label = (·.mapSpans f) <$> x.label := by
  cases x with
  | declare _ _ _ v =>
    cases v with
    | none => simp only [Stmt.mapSpans, Stmt.label, map_pure]
    | some v =>
      simp only [Stmt.mapSpans, Stmt.label, v.label_mapSpans f, bind_map_left, map_bind, map_pure]
  | function _ _ fn =>
    simp only [Stmt.mapSpans, Stmt.label, fn.relabel_mapSpans f, bind_map_left, map_bind, map_pure]
  | ret _ e =>
    simp only [Stmt.mapSpans, Stmt.label, e.label_mapSpans f, bind_map_left, map_bind, map_pure]
  | expr _ e =>
    simp only [Stmt.mapSpans, Stmt.label, e.label_mapSpans f, bind_map_left, map_bind, map_pure]

theorem Block.label_mapSpans (f : Span → Span) (b : Block ι) :
    (b.mapSpans f).label = (·.mapSpans f) <$> b.label := by
  cases b with
  | mk _ ss =>
    simp only [Block.mapSpans, Block.label, labelStmts_mapSpans f ss, bind_map_left, map_bind,
      map_pure]

theorem Function.relabel_mapSpans (f : Span → Span) (fn : Function ι) :
    (fn.mapSpans f).relabel = (·.mapSpans f) <$> fn.relabel := by
  cases fn with
  | mk _ _ _ _ body =>
    simp only [Function.mapSpans, Function.relabel, body.label_mapSpans f, bind_map_left, map_bind,
      map_pure]

theorem labelExprs_mapSpans (f : Span → Span) (es : List (Expr ι)) :
    labelExprs (mapSpansExprs f es) = mapSpansExprs f <$> labelExprs es := by
  cases es with
  | nil => simp only [mapSpansExprs, labelExprs, map_pure]
  | cons e es =>
    simp only [mapSpansExprs, labelExprs, e.label_mapSpans f, labelExprs_mapSpans f es,
      bind_map_left, map_bind, map_pure]

theorem labelStmts_mapSpans (f : Span → Span) (ss : List (Stmt ι)) :
    labelStmts (mapSpansStmts f ss) = mapSpansStmts f <$> labelStmts ss := by
  cases ss with
  | nil => simp only [mapSpansStmts, labelStmts, map_pure]
  | cons x ss =>
    simp only [mapSpansStmts, labelStmts, x.label_mapSpans f, labelStmts_mapSpans f ss,
      bind_map_left, map_bind, map_pure]

theorem labelProperties_mapSpans (f : Span → Span) (ps : List (Property (Option (Expr ι)))) :
    labelProperties (mapSpansProperties f ps) = mapSpansProperties f <$> labelProperties ps := by
  match ps with
  | [] => simp only [mapSpansProperties, labelProperties, map_pure]
  | ⟨_, _, none⟩ :: ps =>
    simp only [mapSpansProperties, labelProperties, labelProperties_mapSpans f ps, bind_map_left,
      map_bind, map_pure]
  | ⟨_, _, some v⟩ :: ps =>
    simp only [mapSpansProperties, labelProperties, v.label_mapSpans f,
      labelProperties_mapSpans f ps, bind_map_left, map_bind, map_pure]

end

theorem labelStmts_append (ss ts : List (Stmt ι)) :
    labelStmts (ss ++ ts) = do return (← labelStmts ss) ++ (← labelStmts ts) := by
  induction ss with
  | nil => simp only [List.nil_append, labelStmts, pure_bind, bind_pure]
  | cons x ss ih =>
    simp only [List.cons_append, labelStmts, ih, bind_assoc, pure_bind]

end Primer
