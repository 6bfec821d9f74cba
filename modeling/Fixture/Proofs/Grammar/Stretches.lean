import Fixture.Proofs.Evaluation.Order
/-!
# Where the parts of a program stand

A program was read from tokens, and its parts from stretches of them. Every node
of an expression has a token of the stretch that the expression was read from.
The leftmost token of the tree is the first one of the stretch, but for the
parentheses that may open there and leave no node. So the places that nodes
carry around are places in the source.

Declarations come in the order of their names in the source, groups of variables
and all three sections alike.

## Main results

* `Grammar.Expression.node_mem`: the nodes of an expression have their tokens
  from its stretch.
* `Grammar.Expression.leads`: the leftmost token of an expression is the first
  of its stretch, parentheses aside.
* `Program.writtenIn_of_parse`: all that a program does, and its waypoints,
  stand in its source, and its declarations in their order.
-/

namespace Fixture

open Grammar

/-! ## Stretches of tokens -/

private theorem stretch_append {xs ys ts : List Token} (h : xs ++ ys <:+: ts) :
    xs <:+: ts ∧ ys <:+: ts :=
  ⟨(List.prefix_append xs ys).isInfix.trans h,
    (List.suffix_append xs ys).isInfix.trans h⟩

private theorem stretch_cons {t : Token} {xs ts : List Token}
    (h : t :: xs <:+: ts) : t ∈ ts ∧ xs <:+: ts :=
  ⟨h.subset (List.mem_cons_self ..), (List.suffix_cons t xs).isInfix.trans h⟩

private theorem stretch_flatMap {δ : Type} {f : δ → List Token} {ds : List δ}
    {d : δ} (hd : d ∈ ds) : f d <:+: ds.flatMap f := by
  obtain ⟨before, behind, rfl⟩ := List.append_of_mem hd
  refine ⟨before.flatMap f, behind.flatMap f, ?_⟩
  rw [List.flatMap_append, List.flatMap_cons, List.append_assoc]

/-- The first token that does not open a parenthesis. -/
def leadingToken? (ts : List Token) : Option Token :=
  ts.find? (·.kind != .lparen)

private theorem leadingToken?_cons {t : Token} (h : t.kind ≠ .lparen)
    (ts : List Token) : leadingToken? (t :: ts) = some t :=
  List.find?_cons_of_pos (by simpa using h)

private theorem leadingToken?_lparen {t : Token} (h : t.kind = .lparen)
    (ts : List Token) : leadingToken? (t :: ts) = leadingToken? ts :=
  List.find?_cons_of_neg (by simp [h])

/-! ## Expressions -/

namespace Grammar

mutual

private theorem Factor.node_mem : ∀ (g : Factor),
    ∀ n ∈ g.tree.agenda, n.tok ∈ g.tokens
  | .signed op f, n, hn => by
      simp only [Factor.tree, Expr.agenda, List.mem_append, List.mem_singleton]
        at hn
      rcases hn with hn | rfl
      · exact List.mem_cons_of_mem _ (Factor.node_mem f n hn)
      · exact List.mem_cons_self ..
  | .integer t, n, hn | .real t, n, hn | .boolean t, n, hn
  | .name t, n, hn => by
      obtain rfl := List.mem_singleton.1 hn
      exact List.mem_cons_self ..
  | .paren l e r, n, hn => by
      have hmem := Expression.node_mem e n hn
      simp [hmem]

private theorem Factors.node_mem : ∀ (g : Factors) {left : Expr},
    ∀ n ∈ (g.tree left).agenda, n ∈ left.agenda ∨ n.tok ∈ g.tokens
  | .nil, _, _, hn => .inl hn
  | .cons op f fs, left, n, hn => by
      rw [Factors.tree] at hn
      rcases Factors.node_mem fs n hn with hn | hn
      · simp only [Expr.agenda, List.mem_append, List.mem_singleton] at hn
        rcases hn with hn | hn | rfl
        · have hmem := Factor.node_mem f n hn
          simp [hmem]
        · exact .inl hn
        · exact .inr (List.mem_cons_self ..)
      · simp [hn]

private theorem Term.node_mem : ∀ (g : Term),
    ∀ n ∈ g.tree.agenda, n.tok ∈ g.tokens
  | .mk f fs, n, hn => by
      rcases Factors.node_mem fs n hn with hn | hn
      · exact List.mem_append_left _ (Factor.node_mem f n hn)
      · exact List.mem_append_right _ hn

private theorem Terms.node_mem : ∀ (g : Terms) {left : Expr},
    ∀ n ∈ (g.tree left).agenda, n ∈ left.agenda ∨ n.tok ∈ g.tokens
  | .nil, _, _, hn => .inl hn
  | .cons op t ts, left, n, hn => by
      rw [Terms.tree] at hn
      rcases Terms.node_mem ts n hn with hn | hn
      · simp only [Expr.agenda, List.mem_append, List.mem_singleton] at hn
        rcases hn with hn | hn | rfl
        · have hmem := Term.node_mem t n hn
          simp [hmem]
        · exact .inl hn
        · exact .inr (List.mem_cons_self ..)
      · simp [hn]

private theorem Sum.node_mem : ∀ (g : Sum),
    ∀ n ∈ g.tree.agenda, n.tok ∈ g.tokens
  | .mk t ts, n, hn => by
      rcases Terms.node_mem ts n hn with hn | hn
      · exact List.mem_append_left _ (Term.node_mem t n hn)
      · exact List.mem_append_right _ hn

/-- **The nodes of an expression have their tokens from its stretch.** -/
theorem Expression.node_mem : ∀ (g : Expression),
    ∀ n ∈ g.tree.agenda, n.tok ∈ g.tokens
  | .sum s, n, hn => Sum.node_mem s n hn
  | .comparison l op r, n, hn => by
      simp only [Expression.tree, Expr.agenda, List.mem_append,
        List.mem_singleton] at hn
      rcases hn with hn | hn | rfl
      · have hmem := Sum.node_mem r n hn
        simp [hmem]
      · have hmem := Sum.node_mem l n hn
        simp [hmem]
      · simp [Expr.tok]

end

/-- What hangs to the left begins where its left end does. -/
private theorem Factors.leading_tree : ∀ (g : Factors) (left : Expr),
    (g.tree left).leading = left.leading
  | .nil, _ => rfl
  | .cons _ _ fs, _ => Factors.leading_tree fs _

private theorem Terms.leading_tree : ∀ (g : Terms) (left : Expr),
    (g.tree left).leading = left.leading
  | .nil, _ => rfl
  | .cons _ _ ts, _ => Terms.leading_tree ts _

mutual

private theorem Factor.leads : ∀ (g : Factor) (rest : List Token),
    leadingToken? (g.tokens ++ rest) = some g.tree.leading
  | .signed op f, rest => by
      apply leadingToken?_cons
      intro hop
      have hadditive := op.property
      rw [hop] at hadditive
      cases hadditive
  | .integer t, _ | .real t, _ | .boolean t, _ | .name t, _ => by
      apply leadingToken?_cons
      rw [t.property]
      exact Kind.noConfusion
  | .paren l e r, rest => by
      have hrest := Expression.leads e (r.val :: rest)
      rw [Factor.tokens, Factor.tree, List.cons_append,
        leadingToken?_lparen l.property, List.append_assoc]
      exact hrest

private theorem Term.leads : ∀ (g : Term) (rest : List Token),
    leadingToken? (g.tokens ++ rest) = some g.tree.leading
  | .mk f fs, rest => by
      rw [Term.tokens, Term.tree, Factors.leading_tree, List.append_assoc]
      exact Factor.leads f _

private theorem Sum.leads : ∀ (g : Sum) (rest : List Token),
    leadingToken? (g.tokens ++ rest) = some g.tree.leading
  | .mk t ts, rest => by
      rw [Sum.tokens, Sum.tree, Terms.leading_tree, List.append_assoc]
      exact Term.leads t _

/-- **The leftmost token of an expression is the first of its stretch,**
parentheses aside. -/
theorem Expression.leads : ∀ (g : Expression) (rest : List Token),
    leadingToken? (g.tokens ++ rest) = some g.tree.leading
  | .sum s, rest => Sum.leads s rest
  | .comparison l op r, rest => by
      rw [Expression.tokens, Expression.tree, List.append_assoc]
      exact Sum.leads l _

end

end Grammar

/-- An expression that was read from a stretch of some tokens. -/
def Expr.WrittenIn (ts : List Token) (e : Expr) : Prop :=
  ∃ g : Expression, g.tree = e ∧ g.tokens <:+: ts

/-- An expression that was read from a stretch of some tokens, of which a token
is the first, parentheses aside. -/
def Expr.BeginsWith (ts : List Token) (tok : Token) (e : Expr) : Prop :=
  ∃ g : Expression, g.tree = e ∧ g.tokens <:+: ts ∧
    leadingToken? g.tokens = some tok

namespace Expr.WrittenIn

variable {ts : List Token} {e : Expr}

private theorem of_factor {g : Factor} (h : g.tokens <:+: ts) :
    g.tree.WrittenIn ts :=
  ⟨g.toExpression, g.toExpression_tree, g.toExpression_tokens.symm ▸ h⟩

theorem node_mem (h : e.WrittenIn ts) : ∀ n ∈ e.agenda, n.tok ∈ ts := by
  obtain ⟨g, rfl, hg⟩ := h
  exact fun n hn => hg.subset (g.node_mem n hn)

theorem beginsWith (h : e.WrittenIn ts) : e.BeginsWith ts e.leading := by
  obtain ⟨g, rfl, hg⟩ := h
  have hfirst := g.leads []
  rw [List.append_nil] at hfirst
  exact ⟨g, rfl, hg, hfirst⟩

end Expr.WrittenIn

theorem Expr.BeginsWith.mem {ts : List Token} {tok : Token} {e : Expr}
    (h : e.BeginsWith ts tok) : tok ∈ ts := by
  obtain ⟨g, -, hg, hfirst⟩ := h
  exact hg.subset (List.mem_of_find?_eq_some hfirst)

/-! ## Statements -/

/-- A deed whose expressions, and whose target, stand among some tokens. -/
def Deed.WrittenIn (ts : List Token) : Deed → Prop
  | .condition e => e.WrittenIn ts
  | .assign target value =>
    (target ∈ ts ∧ target.kind = .ident) ∧ value.WrittenIn ts
  | .wait d => d.WrittenIn ts
  | .move _ d s => d.WrittenIn ts ∧ ∀ e ∈ s, e.WrittenIn ts

namespace Grammar

private theorem Operands.writtenIn {ts : List Token} :
    ∀ g : Operands, g.tokens <:+: ts →
      g.tree.1.WrittenIn ts ∧ ∀ e ∈ g.tree.2, e.WrittenIn ts
  | .distance d, h => ⟨.of_factor h, by simp⟩
  | .both d c s, h => by
      obtain ⟨hd, hrest⟩ := stretch_append h
      obtain ⟨-, hs⟩ := stretch_cons hrest
      exact ⟨.of_factor hd, by simpa using .of_factor hs⟩

mutual

private theorem Statement.writtenIn {ts : List Token} :
    ∀ g : Statement, g.tokens <:+: ts → ∀ d ∈ g.tree.deeds, d.WrittenIn ts
  | .empty, _ => by simp
  | .compound b ss e, h => by
      obtain ⟨-, hrest⟩ := stretch_cons h
      exact Statements.writtenIn ss (stretch_append hrest).1
  | .assign t op e, h => by
      obtain ⟨ht, hrest⟩ := stretch_cons h
      obtain ⟨-, he⟩ := stretch_cons hrest
      exact List.forall_mem_singleton.2 ⟨⟨ht, t.property⟩, e, rfl, he⟩
  | .ifThen i c col ss e, h => by
      obtain ⟨-, hrest⟩ := stretch_cons h
      obtain ⟨hc, hrest⟩ := stretch_append hrest
      obtain ⟨-, hrest⟩ := stretch_cons hrest
      exact List.forall_mem_cons.2
        ⟨⟨c, rfl, hc⟩, Statements.writtenIn ss (stretch_append hrest).1⟩
  | .ifElse i c col ss el col' alt e, h => by
      obtain ⟨-, hrest⟩ := stretch_cons h
      obtain ⟨hc, hrest⟩ := stretch_append hrest
      obtain ⟨-, hrest⟩ := stretch_cons hrest
      obtain ⟨hss, hrest⟩ := stretch_append hrest
      obtain ⟨-, hrest⟩ := stretch_cons hrest
      obtain ⟨-, hrest⟩ := stretch_cons hrest
      refine List.forall_mem_cons.2
        ⟨⟨c, rfl, hc⟩, List.forall_mem_append.2 ⟨?_, ?_⟩⟩
      · exact Statements.writtenIn ss hss
      · exact Statements.writtenIn alt (stretch_append hrest).1
  | .loop l col ss u c, h => by
      obtain ⟨-, hrest⟩ := stretch_cons h
      obtain ⟨-, hrest⟩ := stretch_cons hrest
      obtain ⟨hss, hrest⟩ := stretch_append hrest
      exact List.forall_mem_cons.2
        ⟨⟨c, rfl, (stretch_cons hrest).2⟩, Statements.writtenIn ss hss⟩
  | .wait w e, h => List.forall_mem_singleton.2 ⟨e, rfl, (stretch_cons h).2⟩
  | .move axis m o, h =>
      List.forall_mem_singleton.2 (Operands.writtenIn o (stretch_cons h).2)
  | .home _, _ => by simp
  | .stop _, _ => by simp

/-- What statements do stands in their stretch. -/
private theorem Statements.writtenIn {ts : List Token} :
    ∀ g : Statements, g.tokens <:+: ts → ∀ d ∈ deedsEach g.tree, d.WrittenIn ts
  | .one s, h => by
      have hs := Statement.writtenIn s h
      simpa using hs
  | .more s semi ss, h => by
      obtain ⟨hs, hrest⟩ := stretch_append h
      exact List.forall_mem_append.2 ⟨Statement.writtenIn s hs,
        Statements.writtenIn ss (stretch_cons hrest).2⟩

end

/-! ## Declarations -/

private theorem Names.ids_sublist : ∀ g : Names, g.ids.Sublist g.tokens
  | .one _ => .refl _
  | .more id c ids => ((Names.ids_sublist ids).cons c.val).cons_cons id.val

private theorem VarGroup.names_sublist (g : VarGroup) :
    (g.tree.map VarDecl.tok).Sublist g.tokens := by
  have hids : g.tree.map VarDecl.tok = g.names.ids := by
    simp [Function.comp_def]
  rw [hids]
  exact g.names.ids_sublist.trans (List.sublist_append_left _ _)

private theorem Pin.name_sublist (g : Grammar.Pin) :
    [g.tree.tok].Sublist g.tokens :=
  List.singleton_sublist.2 (List.mem_cons_self ..)

private theorem Waypoint.name_sublist (g : Waypoint) :
    [g.tree.tok].Sublist g.tokens :=
  List.singleton_sublist.2 (List.mem_cons_self ..)

/-- The names of a section come in the order of its tokens, if they do so in
each declaration. -/
private theorem Section.names_sublist {δ : Type} {k : Kind}
    {tokens names : δ → List Token} (h : ∀ d, (names d).Sublist (tokens d))
    (g : Grammar.Section k δ) :
    (g.decls.flatMap names).Sublist (g.tokens tokens) := by
  cases g with
  | absent => exact .refl _
  | present tok ds =>
      refine .cons _ ?_
      induction ds with
      | nil => exact .refl _
      | cons d ds ih => exact (h d).append ih

private theorem Section.stretch_decl {δ : Type} {k : Kind}
    {tokens : δ → List Token} (g : Grammar.Section k δ) {d : δ}
    (hd : d ∈ g.decls) : tokens d <:+: g.tokens tokens := by
  cases g with
  | absent => cases hd
  | present tok ds =>
      exact (stretch_flatMap hd).trans (List.suffix_cons _ _).isInfix

/-- The names of a block come in the order of its tokens. -/
private theorem Block.names_sublist (g : Grammar.Block) :
    (g.tree.declarations.map Declaration.tok).Sublist g.tokens := by
  have hvars := g.vars.names_sublist VarGroup.names_sublist
  have hpins := g.pins.names_sublist Pin.name_sublist
  have hways := g.waypoints.names_sublist Waypoint.name_sublist
  have hnames : g.tree.declarations.map Declaration.tok =
      g.vars.decls.flatMap (fun d => d.tree.map VarDecl.tok) ++
        (g.pins.decls.flatMap (fun d => [d.tree.tok]) ++
          g.waypoints.decls.flatMap (fun d => [d.tree.tok])) := by
    simp only [Block.declarations, Block.tree, List.map_append, List.map_map,
      List.map_flatMap, List.append_assoc, ← List.map_eq_flatMap]
    rfl
  rw [hnames]
  exact hvars.append (hpins.append (hways.trans (List.sublist_append_left _ _)))

end Grammar

/-! ## Programs -/

/-- All that a program may do. -/
def Program.deeds (p : Program) : List Deed := deedsEach p.block.body

/-- A program whose deeds and waypoints stand among some tokens, and whose
declarations do so in their order. -/
structure Program.WrittenIn (ts : List Token) (p : Program) : Prop where
  deeds : ∀ d ∈ p.deeds, d.WrittenIn ts
  waypoints : ∀ d ∈ p.block.waypoints, d.distance.WrittenIn ts ∧
    d.speed.WrittenIn ts
  declarations : (p.block.declarations.map Declaration.tok).Sublist ts

/-- **A program stands in its source.** -/
theorem Program.writtenIn_of_parse {src : List UInt8} {p : Program}
    (hp : parse src = .ok p) : p.WrittenIn (scan src).tokens := by
  obtain ⟨g, hg, -, -, rfl⟩ := parse_sound hp
  have hblock : g.program.block.tokens <:+: (scan src).tokens := by
    rw [← hg]
    obtain ⟨-, h⟩ :=
      stretch_cons
        (stretch_append (List.infix_refl (g.program.tokens ++ [g.eof.val]))).1
    obtain ⟨-, h⟩ := stretch_cons h
    obtain ⟨-, h⟩ := stretch_cons h
    exact (stretch_append h).1
  obtain ⟨-, hrest⟩ := stretch_append hblock
  obtain ⟨-, hrest⟩ := stretch_append hrest
  obtain ⟨hways, hrest⟩ := stretch_append hrest
  obtain ⟨-, hrest⟩ := stretch_cons hrest
  refine ⟨Statements.writtenIn g.program.block.body (stretch_append hrest).1,
    ?_, ?_⟩
  · refine List.forall_mem_map.2 fun d hd => ?_
    obtain ⟨-, h⟩ := stretch_cons ((Section.stretch_decl _ hd).trans hways)
    obtain ⟨-, h⟩ := stretch_cons h
    obtain ⟨hdistance, h⟩ := stretch_append h
    obtain ⟨-, h⟩ := stretch_cons h
    exact ⟨.of_factor hdistance, .of_factor (stretch_append h).1⟩
  · exact g.program.block.names_sublist.trans hblock.sublist

end Fixture
