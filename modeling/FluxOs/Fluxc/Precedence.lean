import FluxOs.Lib.OperatorTrees
import FluxOs.Fluxc.ExpressionSyntax

/-!
# The precedence of operators

The tree that the precedence grammar gives to an expression, and the one that `parse_expression` builds.  The loop of
`parse_expression` looks up the precedence of an operator only to see that it is one, and applies all of them from the
left: the tree is the standard one exactly if the precedence never increases along an expression
(`precedence_right_iff`).
-/

namespace FluxOs

open OperatorTrees

/-! ## Shapes -/

/-- Which operators of a tree have which operands. -/
inductive Shape
  | null
  | leaf
  | unary (s : Shape)
  | binary (l r : Shape)
  deriving DecidableEq

def Shape.size : Shape → Nat
  | null => 0
  | leaf => 1
  | unary s => s.size + 1
  | binary l r => l.size + r.size + 1

def ExprNode.shape : ExprNode → Shape
  | .null => .null
  | .binary _ left right => .binary left.shape right.shape
  | .unary _ operand => .unary operand.shape
  | _ => .leaf

theorem ExprNode.size_shape (node : ExprNode) : node.shape.size = node.size := by
  induction node with
  | binary op left right ihl ihr => rw [shape, Shape.size, size, ihl, ihr]
  | unary op operand ih => rw [shape, Shape.size, size, ih]
  | _ => rfl

abbrev BinaryToken := { tok : FluxToken // tok.IsBinary }

/-- A way to bracket the operands and operators of an expression. -/
abbrev Bracketing := Shape → List (BinaryToken × Shape) → OpTree BinaryToken Shape

/-- The bracketing by precedence. -/
def standardBracketing : Bracketing := OpTree.standardTree fun op => op.1.precedence

/-- The bracketing from the left. -/
def leftBracketing : Bracketing := OpTree.leftTree

mutual

/-- The shape of an operand in which the expressions in parentheses are bracketed in the given way. -/
def Operand.shapeBy (bracket : Bracketing) : Operand → Shape
  | .leaf _ => .leaf
  | .unary _ x => .unary (x.shapeBy bracket)
  | .group _ first rest _ => (bracket (first.shapeBy bracket) (rest.shapesBy bracket)).plug .binary

def Operations.shapesBy (bracket : Bracketing) : Operations → List (BinaryToken × Shape)
  | .nil => []
  | .cons op x rest => (op, x.shapeBy bracket) :: rest.shapesBy bracket

end

def Expression.shapeBy (bracket : Bracketing) (e : Expression) : Shape :=
  (bracket (e.first.shapeBy bracket) (e.rest.shapesBy bracket)).plug .binary

def Operations.precedences : Operations → List Nat
  | .nil => []
  | .cons op _ rest => op.1.precedence :: rest.precedences

mutual

/-- In no expression inside the operand the precedence increases from one operator to the next. -/
def Operand.NonIncreasing : Operand → Prop
  | .leaf _ => True
  | .unary _ x => x.NonIncreasing
  | .group _ first rest _ => (first.NonIncreasing ∧ rest.NonIncreasing) ∧ rest.precedences.IsChain (· ≥ ·)

def Operations.NonIncreasing : Operations → Prop
  | .nil => True
  | .cons _ x rest => x.NonIncreasing ∧ rest.NonIncreasing

end

/-- Neither in the expression nor in one inside it the precedence increases from one operator to the next. -/
def Expression.NonIncreasing (e : Expression) : Prop :=
  (e.first.NonIncreasing ∧ e.rest.NonIncreasing) ∧ e.rest.precedences.IsChain (· ≥ ·)

/-! ## Sizes -/

/-- The operators with the sizes of the operands behind them. -/
def Operations.sizes : Operations → List (BinaryToken × Nat)
  | .nil => []
  | .cons op x rest => (op, x.size) :: rest.sizes

theorem Operations.sum_sizes (xs : Operations) : (xs.sizes.map fun y => y.2 + 1).sum = xs.size := by
  cases xs with
  | nil => rfl
  | cons op x rest => rw [sizes, List.map_cons, List.sum_cons, rest.sum_sizes, size]

/-- The tree keeps the order of the operands and operators. -/
def Bracketing.Ordered (bracket : Bracketing) : Prop := ∀ a xs, (bracket a xs).inorder = (a, xs)

theorem standardBracketing_ordered : Bracketing.Ordered standardBracketing := OpTree.inorder_standardTree

theorem leftBracketing_ordered : Bracketing.Ordered leftBracketing := OpTree.inorder_leftTree

section

variable {bracket : Bracketing}

theorem weights_bracket (hbracket : bracket.Ordered) (a : Shape) (xs : List (BinaryToken × Shape)) :
    (bracket a xs).weights Shape.size = (a.size, xs.map (Prod.map id Shape.size)) := by
  rw [OpTree.weights, hbracket]

theorem size_plug (t : OpTree BinaryToken Shape) :
    (t.plug .binary).size = (t.weights Shape.size).1 + ((t.weights Shape.size).2.map fun y => y.2 + 1).sum :=
  OpTree.weight_plug (w := Shape.size) (fun _ _ => rfl) t

mutual

theorem Operand.size_shapeBy (hbracket : bracket.Ordered) (x : Operand) : (x.shapeBy bracket).size = x.size :=
  match x with
  | .leaf _ => rfl
  | .unary _ x => by rw [Operand.shapeBy, Shape.size, x.size_shapeBy hbracket, Operand.size]
  | .group _ first rest _ => by
    rw [Operand.shapeBy, size_plug, weights_bracket hbracket, rest.sizes_shapesBy hbracket,
      first.size_shapeBy hbracket, rest.sum_sizes, Operand.size]

theorem Operations.sizes_shapesBy (hbracket : bracket.Ordered) (xs : Operations) :
    (xs.shapesBy bracket).map (Prod.map id Shape.size) = xs.sizes :=
  match xs with
  | .nil => rfl
  | .cons _ x rest => by
    rw [Operations.shapesBy, List.map_cons, rest.sizes_shapesBy hbracket, Prod.map_apply, x.size_shapeBy hbracket]
    rfl

end

end

/-! ## The shape that the parser builds -/

theorem FluxToken.shape_leafNode (tok : FluxToken) (text : List UInt8) : (tok.leafNode text).shape = .leaf := by
  unfold FluxToken.leafNode
  simp only
  split_ifs <;> rfl

mutual

theorem Operand.shape_node (x : Operand) (next : FluxToken) : (x.node next).shape = x.shapeBy leftBracketing :=
  match x with
  | .leaf tok => tok.1.shape_leafNode _
  | .unary _ x => by rw [Operand.node, ExprNode.shape, x.shape_node, Operand.shapeBy]
  | .group _ first rest closing => by
    rw [Operand.node, Operand.shapeBy]
    exact rest.shape_node (first.shape_node _) closing.1

/-- The operations are put behind a node from left to right. -/
theorem Operations.shape_node (xs : Operations) {left : ExprNode} {t : OpTree BinaryToken Shape}
    (ht : left.shape = t.plug .binary) (next : FluxToken) :
    (xs.node left next).shape =
      ((xs.shapesBy leftBracketing).foldl (fun t y => .node t y.1 (.operand y.2)) t).plug .binary :=
  match xs with
  | .nil => ht
  | .cons op x rest => by
    rw [Operations.node, Operations.shapesBy, List.foldl_cons]
    apply rest.shape_node
    rw [ExprNode.shape, ht, x.shape_node]
    rfl

end

theorem Expression.shape_node (e : Expression) (next : FluxToken) :
    (e.node next).shape = e.shapeBy leftBracketing :=
  e.rest.shape_node (t := .operand _) (e.first.shape_node _) next

/-! ## Comparison with the standard shape -/

theorem Operations.precedences_eq (bracket : Bracketing) (xs : Operations) :
    xs.precedences = (xs.shapesBy bracket).map fun y => y.1.1.precedence :=
  match xs with
  | .nil => rfl
  | .cons _ _ rest => congrArg _ (rest.precedences_eq bracket)

theorem Operations.nonIncreasing_iff (bracket : Bracketing) (xs : Operations) :
    OpTree.NonIncreasing (fun op : BinaryToken => op.1.precedence) (xs.shapesBy bracket) ↔
      xs.precedences.IsChain (· ≥ ·) := by
  rw [xs.precedences_eq bracket, List.isChain_map]
  rfl

/-- The operands of two bracketings have the same shapes, and they bracket alike, if the shapes are the same. -/
theorem plug_eq_iff {a b : Shape} {xs ys : List (BinaryToken × Shape)} (ha : a.size = b.size)
    (hxs : xs.map (Prod.map id Shape.size) = ys.map (Prod.map id Shape.size)) :
    (leftBracketing a xs).plug .binary = (standardBracketing b ys).plug .binary ↔
      (a = b ∧ xs = ys) ∧ OpTree.NonIncreasing (fun op : BinaryToken => op.1.precedence) xs := by
  constructor
  · intro h
    have htree : leftBracketing a xs = standardBracketing b ys := by
      refine OpTree.eq_of_plug_eq (w := Shape.size) (fun _ _ _ _ h => Shape.binary.inj h) (fun _ _ => rfl) ?_ h
      rw [weights_bracket leftBracketing_ordered, weights_bracket standardBracketing_ordered, ha, hxs]
    have hinorder := congrArg OpTree.inorder htree
    rw [leftBracketing_ordered, standardBracketing_ordered] at hinorder
    obtain ⟨rfl, rfl⟩ := Prod.mk.inj hinorder
    exact ⟨⟨rfl, rfl⟩, (OpTree.leftTree_eq_standardTree_iff a xs).1 htree⟩
  · rintro ⟨⟨rfl, rfl⟩, h⟩
    exact congrArg _ ((OpTree.leftTree_eq_standardTree_iff a xs).2 h)

theorem plug_shapes_eq_iff (first : Operand) (rest : Operations) :
    (leftBracketing (first.shapeBy leftBracketing) (rest.shapesBy leftBracketing)).plug .binary =
      (standardBracketing (first.shapeBy standardBracketing) (rest.shapesBy standardBracketing)).plug .binary ↔
      (first.shapeBy leftBracketing = first.shapeBy standardBracketing ∧
        rest.shapesBy leftBracketing = rest.shapesBy standardBracketing) ∧ rest.precedences.IsChain (· ≥ ·) := by
  have hfirst : (first.shapeBy leftBracketing).size = (first.shapeBy standardBracketing).size := by
    rw [first.size_shapeBy leftBracketing_ordered, first.size_shapeBy standardBracketing_ordered]
  have hrest : (rest.shapesBy leftBracketing).map (Prod.map id Shape.size) =
      (rest.shapesBy standardBracketing).map (Prod.map id Shape.size) := by
    rw [rest.sizes_shapesBy leftBracketing_ordered, rest.sizes_shapesBy standardBracketing_ordered]
  rw [plug_eq_iff hfirst hrest, rest.nonIncreasing_iff]

mutual

theorem Operand.shapeBy_eq_iff (x : Operand) :
    x.shapeBy leftBracketing = x.shapeBy standardBracketing ↔ x.NonIncreasing :=
  match x with
  | .leaf _ => by simp [Operand.shapeBy, Operand.NonIncreasing]
  | .unary _ x => by
    rw [Operand.shapeBy, Operand.shapeBy, Operand.NonIncreasing, ← x.shapeBy_eq_iff, Shape.unary.injEq]
  | .group _ first rest _ => by
    rw [Operand.shapeBy, Operand.shapeBy, plug_shapes_eq_iff, first.shapeBy_eq_iff, rest.shapesBy_eq_iff,
      Operand.NonIncreasing]

theorem Operations.shapesBy_eq_iff (xs : Operations) :
    xs.shapesBy leftBracketing = xs.shapesBy standardBracketing ↔ xs.NonIncreasing :=
  match xs with
  | .nil => by simp [Operations.shapesBy, Operations.NonIncreasing]
  | .cons _ x rest => by
    rw [Operations.shapesBy, Operations.shapesBy, Operations.NonIncreasing, ← x.shapeBy_eq_iff,
      ← rest.shapesBy_eq_iff,
      List.cons.injEq, Prod.mk.injEq, eq_self_iff_true, true_and]

end

theorem Expression.shapeBy_eq_iff (e : Expression) :
    e.shapeBy leftBracketing = e.shapeBy standardBracketing ↔ e.NonIncreasing := by
  rw [Expression.shapeBy, Expression.shapeBy, plug_shapes_eq_iff, e.first.shapeBy_eq_iff, e.rest.shapesBy_eq_iff,
    Expression.NonIncreasing]

theorem Expression.size_shapeBy {bracket : Bracketing} (hbracket : bracket.Ordered) (e : Expression) :
    (e.shapeBy bracket).size = e.size := by
  rw [Expression.shapeBy, size_plug, weights_bracket hbracket, e.rest.sizes_shapesBy hbracket,
    e.first.size_shapeBy hbracket, e.rest.sum_sizes, Expression.size]

/-! ## Parsing by precedence -/

/-- `parse_expression` returns a tree in which every operator has the operands that the precedence
grammar gives it. -/
def FluxParser.BuildsStandard {L : Type} (p : FluxParser L) (e : Expression) : Prop :=
  ∃ node, p.ParsesTo node ∧ node.shape = e.shapeBy standardBracketing

theorem size_of_standard {e : Expression} {node : ExprNode} (h : node.shape = e.shapeBy standardBracketing) :
    node.size = e.size := by
  rw [← node.size_shape, h, e.size_shapeBy standardBracketing_ordered]

/-- The tree of an expression is the standard one exactly if its nodes fit into the pool and no precedence in it
increases. -/
theorem precedence_right_iff {L : Type} (p : FluxParser L) (e : Expression) (next : FluxToken) (toks : List FluxToken)
    (hp : p.Stands (e.tokens ++ next :: toks)) (hnext : ¬ next.IsBinary) :
    p.BuildsStandard e ↔ p.pool + e.size ≤ astPoolSize ∧ e.NonIncreasing := by
  rw [FluxParser.BuildsStandard, e.exists_parsesTo_iff hp hnext fun _ => size_of_standard, e.shape_node,
    e.shapeBy_eq_iff]

/-- `a o b o' c` -/
def threeOperands (o o' : String) (h : (tokenAt 2 .OPERATOR o).IsBinary) (h' : (tokenAt 4 .OPERATOR o').IsBinary) :
    Expression :=
  { first := .leaf ⟨tokenAt 1 .IDENTIFIER "a", List.mem_of_elem_eq_true rfl⟩
    rest := .cons ⟨tokenAt 2 .OPERATOR o, h⟩ (.leaf ⟨tokenAt 3 .IDENTIFIER "b", List.mem_of_elem_eq_true rfl⟩)
      (.cons ⟨tokenAt 4 .OPERATOR o', h'⟩ (.leaf ⟨tokenAt 5 .IDENTIFIER "c", List.mem_of_elem_eq_true rfl⟩) .nil) }

/-- The parser in front of `a*b+c` and a line end. -/
theorem stands_sum : (parserAtStart "a*b+c\n" (tokenAt 1 .IDENTIFIER "a")).Stands
    ((threeOperands "*" "+" (by decide) (by decide)).tokens ++ [tokenAt 6 .NEWLINE "\n"]) := by
  refine ⟨rfl, _, _, rfl, ?_⟩
  exact feeds_of_returns (by decide)

/-- In `a*b+c` the precedence does not increase. -/
theorem precedence_right_sum : (parserAtStart "a*b+c\n" (tokenAt 1 .IDENTIFIER "a")).BuildsStandard
    (threeOperands "*" "+" (by decide) (by decide)) := by
  refine (precedence_right_iff _ _ _ [] stands_sum (by decide)).2
    ⟨by decide, ⟨trivial, trivial, trivial, trivial⟩, ?_⟩
  decide

/-- In `a+b*c` the parser applies `+` first. -/
theorem product_not_standard :
    ∃ e : Expression, (parserAtStart "a+b*c\n" (tokenAt 1 .IDENTIFIER "a")).Stands
        (e.tokens ++ [tokenAt 6 .NEWLINE "\n"]) ∧
      ¬ (parserAtStart "a+b*c\n" (tokenAt 1 .IDENTIFIER "a")).BuildsStandard e := by
  have hp : (parserAtStart "a+b*c\n" (tokenAt 1 .IDENTIFIER "a")).Stands
      ((threeOperands "+" "*" (by decide) (by decide)).tokens ++ [tokenAt 6 .NEWLINE "\n"]) :=
    ⟨rfl, _, _, rfl, feeds_of_returns (by decide)⟩
  refine ⟨_, hp, fun h => ?_⟩
  have hshape := ((Expression.exists_parsesTo_iff _ hp (by decide) fun _ => size_of_standard).1 h).2
  rw [Expression.shape_node] at hshape
  exact absurd hshape (by decide)

end FluxOs
