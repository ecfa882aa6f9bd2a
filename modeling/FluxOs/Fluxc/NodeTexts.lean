import FluxOs.Fluxc.ExpressionSyntax

/-!
# The texts of an expression's nodes

What the leaves and the operators of a parsed expression carry, read in order, beside the texts of its tokens.  The
productions read the text of a token when the parser has gone on: a leaf gets that of the token behind it, a prefix
operator that of the token behind its operand, and a binary operator that of the token behind its right operand.  The
tree has the texts of its tokens exactly if all these read the same (`texts_kept_iff`).
-/

namespace FluxOs

/-! ## Texts -/

/-- What a node carries. -/
inductive NodeText
  | int (ival : Int64)
  | float (text : List UInt8)
  | string (text : List UInt8)
  | bool (bval : Bool)
  | void
  | ident (name : List UInt8)
  | op (text : List UInt8)
  deriving DecidableEq

/-- What the nodes of a tree carry, read in order. -/
def ExprNode.texts : ExprNode → List NodeText
  | .null => []
  | .int ival => [.int ival]
  | .float text => [.float text]
  | .string text => [.string text]
  | .bool bval => [.bool bval]
  | .void => [.void]
  | .ident name => [.ident name]
  | .binary op left right => left.texts ++ .op op :: right.texts
  | .unary op operand => .op op :: operand.texts

theorem ExprNode.length_texts (node : ExprNode) : node.texts.length = node.size := by
  induction node with
  | binary op left right ihl ihr =>
    rw [texts, List.length_append, List.length_cons, ihl, ihr, size, Nat.add_assoc]
  | unary op operand ih => rw [texts, List.length_cons, ih, size]
  | _ => rfl

/-- What the node of a leaf should carry. -/
def FluxToken.leafText (tok : FluxToken) : NodeText :=
  let own := cString tok.text
  if tok.type = .NUMBER then if looksFloat own then .float own else .int (strtoll own)
  else if tok.type = .STRING then .string tok.text
  else if tok.type = .KEYWORD ∧ own = bytes "true" then .bool true
  else if tok.type = .KEYWORD ∧ own = bytes "false" then .bool false
  else if tok.type = .KEYWORD ∧ (own = bytes "nil" ∨ own = bytes "null") then .void
  else .ident tok.text

mutual

/-- What the nodes of an operand should carry. -/
def Operand.texts : Operand → List NodeText
  | .leaf tok => [tok.1.leafText]
  | .unary op x => .op op.1.text :: x.texts
  | .group _ first rest _ => first.texts ++ rest.texts

def Operations.texts : Operations → List NodeText
  | .nil => []
  | .cons op x rest => .op op.1.text :: (x.texts ++ rest.texts)

end

def Expression.texts (e : Expression) : List NodeText := e.first.texts ++ e.rest.texts

mutual

theorem Operand.length_texts (x : Operand) : x.texts.length = x.size :=
  match x with
  | .leaf _ => rfl
  | .unary _ x => by rw [Operand.texts, List.length_cons, x.length_texts, Operand.size]
  | .group _ first rest _ => by
    rw [Operand.texts, List.length_append, first.length_texts, rest.length_texts, Operand.size]

theorem Operations.length_texts (xs : Operations) : xs.texts.length = xs.size :=
  match xs with
  | .nil => rfl
  | .cons _ x rest => by
    rw [Operations.texts, List.length_cons, List.length_append, x.length_texts, rest.length_texts, Operations.size]
    omega

end

theorem Expression.length_texts (e : Expression) : e.texts.length = e.size := by
  rw [Expression.texts, List.length_append, e.first.length_texts, e.rest.length_texts, Expression.size]

/-! ## When the texts are kept -/

/-- Read as the text of the token, `text` gives the same. -/
def FluxToken.KeptBy (tok : FluxToken) (text : List UInt8) : Prop :=
  let own := cString tok.text
  if tok.type = .NUMBER then
    if looksFloat own then looksFloat text = true ∧ text = own
    else looksFloat text = false ∧ strtoll text = strtoll own
  else if tok.type = .STRING then printed astTextMax (stripQuotes text) = tok.text
  else if tok.type = .KEYWORD ∧ own ∈ ["true", "false", "nil", "null"].map bytes then True
  else printed astNameMax text = tok.text

mutual

/-- Every token whose text goes into a node reads the same as the token that the parser stands at when it is read;
`next` is the token behind the operand. -/
def Operand.TextsKept : Operand → FluxToken → Prop
  | .leaf tok, next => tok.1.KeptBy (cString next.text)
  | .unary op x, next => printed 4 (cString next.text) = op.1.text ∧ x.TextsKept next
  | .group _ first rest closing, _ => first.TextsKept (rest.follower closing.1) ∧ rest.TextsKept closing.1

def Operations.TextsKept : Operations → FluxToken → Prop
  | .nil, _ => True
  | .cons op x rest, next => printed 16 (cString (rest.follower next).text) = op.1.text ∧
      x.TextsKept (rest.follower next) ∧ rest.TextsKept next

end

def Expression.TextsKept (e : Expression) (next : FluxToken) : Prop :=
  e.first.TextsKept (e.rest.follower next) ∧ e.rest.TextsKept next

theorem FluxToken.texts_leafNode_iff (tok : FluxToken) (text : List UInt8) :
    (tok.leafNode text).texts = [tok.leafText] ↔ tok.KeptBy text := by
  unfold FluxToken.leafNode FluxToken.leafText FluxToken.KeptBy
  simp only
  by_cases hnumber : tok.type = .NUMBER
  · simp only [hnumber, if_true]
    cases hown : looksFloat (cString tok.text) with
    | true => cases htext : looksFloat text <;> simp [ExprNode.texts]
    | false => cases htext : looksFloat text <;> simp [ExprNode.texts]
  · simp only [hnumber, if_false]
    by_cases hstring : tok.type = .STRING
    · simp [hstring, ExprNode.texts]
    · simp only [hstring, if_false]
      by_cases hkeyword : tok.type = .KEYWORD ∧ cString tok.text ∈ ["true", "false", "nil", "null"].map bytes
      · rw [if_pos hkeyword]
        simp only [hkeyword.1, true_and]
        have hmem := hkeyword.2
        simp only [List.map_cons, List.map_nil, List.mem_cons, List.not_mem_nil, or_false] at hmem
        split_ifs with h h' h''
        · simp [ExprNode.texts]
        · simp [ExprNode.texts]
        · simp [ExprNode.texts]
        · simp [h, h', h''] at hmem
      · rw [if_neg hkeyword]
        simp only [List.map_cons, List.map_nil, List.mem_cons, List.not_mem_nil, or_false, not_and,
          not_or] at hkeyword
        split_ifs with h h' h''
        · exact absurd h.2 (hkeyword h.1).1
        · exact absurd h'.2 (hkeyword h'.1).2.1
        · exact (h''.2.elim (hkeyword h''.1).2.2.1 (hkeyword h''.1).2.2.2).elim
        · simp [ExprNode.texts]

/-- What the operators and operands behind a node carry. -/
def Operations.readTexts : Operations → FluxToken → List NodeText
  | .nil, _ => []
  | .cons _ x rest, next =>
    .op (printed 16 (cString (rest.follower next).text)) ::
      ((x.node (rest.follower next)).texts ++ rest.readTexts next)

theorem Operations.texts_node (xs : Operations) (left : ExprNode) (next : FluxToken) :
    (xs.node left next).texts = left.texts ++ xs.readTexts next :=
  match xs with
  | .nil => (List.append_nil _).symm
  | .cons _ x rest => by
    rw [node, rest.texts_node, readTexts, ExprNode.texts, List.append_assoc, List.cons_append]

theorem append_eq_append_iff {α : Type} {as as' bs bs' : List α} (h : as.length = as'.length) :
    as ++ bs = as' ++ bs' ↔ as = as' ∧ bs = bs' := by
  refine ⟨fun heq => List.append_inj heq h, ?_⟩
  rintro ⟨rfl, rfl⟩
  rfl

theorem FluxToken.length_texts_leafNode (tok : FluxToken) (text : List UInt8) :
    (tok.leafNode text).texts.length = 1 := by
  unfold FluxToken.leafNode
  simp only
  split_ifs <;> rfl

mutual

theorem Operand.length_texts_node (x : Operand) (next : FluxToken) : (x.node next).texts.length = x.texts.length :=
  match x with
  | .leaf tok => tok.1.length_texts_leafNode _
  | .unary _ x => congrArg Nat.succ (x.length_texts_node next)
  | .group _ first rest closing => by
    rw [Operand.node, rest.texts_node, Operand.texts, List.length_append, List.length_append,
      first.length_texts_node, rest.length_readTexts]

theorem Operations.length_readTexts (xs : Operations) (next : FluxToken) :
    (xs.readTexts next).length = xs.texts.length :=
  match xs with
  | .nil => rfl
  | .cons _ x rest => by
    rw [Operations.readTexts, Operations.texts, List.length_cons, List.length_cons, List.length_append,
      List.length_append, x.length_texts_node, rest.length_readTexts]

end

mutual

theorem Operand.texts_node_iff (x : Operand) (next : FluxToken) :
    (x.node next).texts = x.texts ↔ x.TextsKept next :=
  match x with
  | .leaf tok => tok.1.texts_leafNode_iff _
  | .unary op x => by
    rw [Operand.node, ExprNode.texts, Operand.texts, Operand.TextsKept, List.cons.injEq, NodeText.op.injEq,
      x.texts_node_iff]
  | .group _ first rest closing => by
    rw [Operand.node, rest.texts_node, Operand.texts, Operand.TextsKept,
      append_eq_append_iff (first.length_texts_node _), first.texts_node_iff, rest.readTexts_iff]

theorem Operations.readTexts_iff (xs : Operations) (next : FluxToken) :
    xs.readTexts next = xs.texts ↔ xs.TextsKept next :=
  match xs with
  | .nil => by simp [Operations.readTexts, Operations.texts, Operations.TextsKept]
  | .cons op x rest => by
    rw [Operations.readTexts, Operations.texts, Operations.TextsKept, List.cons.injEq, NodeText.op.injEq,
      append_eq_append_iff (x.length_texts_node _), x.texts_node_iff, rest.readTexts_iff]

end

theorem Expression.texts_node_iff (e : Expression) (next : FluxToken) :
    (e.node next).texts = e.texts ↔ e.TextsKept next := by
  rw [Expression.node, e.rest.texts_node, Expression.texts, Expression.TextsKept,
    append_eq_append_iff (e.first.length_texts_node _), e.first.texts_node_iff, e.rest.readTexts_iff]

/-! ## Parsing with the texts -/

/-- `parse_expression` returns a tree whose nodes carry the texts of the tokens of the expression, in order. -/
def FluxParser.KeepsTexts {L : Type} (p : FluxParser L) (e : Expression) : Prop :=
  ∃ node, p.ParsesTo node ∧ node.texts = e.texts

theorem size_of_texts {e : Expression} {node : ExprNode} (h : node.texts = e.texts) : node.size = e.size := by
  rw [← node.length_texts, h, e.length_texts]

/-- The tree of an expression has the texts of its tokens exactly if its nodes fit into the pool and every token reads
the same as that behind it, or behind its operand. -/
theorem texts_kept_iff {L : Type} (p : FluxParser L) (e : Expression) (next : FluxToken) (toks : List FluxToken)
    (hp : p.Stands (e.tokens ++ next :: toks)) (hnext : ¬ next.IsBinary) :
    p.KeepsTexts e ↔ p.pool + e.size ≤ astPoolSize ∧ e.TextsKept next := by
  rw [FluxParser.KeepsTexts, e.exists_parsesTo_iff hp hnext fun _ => size_of_texts, e.texts_node_iff]

/-- The expression `a`. -/
def singleWord : Expression :=
  { first := .leaf ⟨tokenAt 1 .IDENTIFIER "a", by decide⟩
    rest := .nil }

/-- The expression `a` with the same word behind it. -/
theorem texts_kept_singleWord : (parserAtStart "a a\n" (tokenAt 1 .IDENTIFIER "a")).KeepsTexts singleWord := by
  have hp : (parserAtStart "a a\n" (tokenAt 1 .IDENTIFIER "a")).Stands
      (singleWord.tokens ++ [tokenAt 3 .IDENTIFIER "a"]) :=
    ⟨rfl, _, _, rfl, feeds_of_returns (by decide)⟩
  refine (texts_kept_iff _ _ _ _ hp (by decide)).2 ⟨by decide, ?_, trivial⟩
  show printed astNameMax (bytes "a") = bytes "a"
  decide

/-- The expression `a+b`. -/
def shortSum : Expression :=
  { first := .leaf ⟨tokenAt 1 .IDENTIFIER "a", by decide⟩
    rest := .cons ⟨tokenAt 2 .OPERATOR "+", by decide⟩ (.leaf ⟨tokenAt 3 .IDENTIFIER "b", by decide⟩) .nil }

/-- In `a+b` the first identifier gets the name `+`. -/
theorem shortSum_texts_not_kept :
    (parserAtStart "a+b\n" (tokenAt 1 .IDENTIFIER "a")).Stands (shortSum.tokens ++ [tokenAt 4 .NEWLINE "\n"]) ∧
      ¬ (parserAtStart "a+b\n" (tokenAt 1 .IDENTIFIER "a")).KeepsTexts shortSum := by
  have hp : (parserAtStart "a+b\n" (tokenAt 1 .IDENTIFIER "a")).Stands
      (shortSum.tokens ++ [tokenAt 4 .NEWLINE "\n"]) :=
    ⟨rfl, _, _, rfl, feeds_of_returns (by decide)⟩
  refine ⟨hp, fun h => ?_⟩
  have htexts := (shortSum.exists_parsesTo_iff hp (by decide) fun _ => size_of_texts).1 h
  exact absurd htexts.2 (by decide)

end FluxOs
