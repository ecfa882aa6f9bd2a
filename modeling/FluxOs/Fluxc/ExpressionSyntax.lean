import FluxOs.Fluxc.Expressions

/-!
# The syntax of expressions

The token sequences of expressions, as trees of tokens: operands, which are a token of their own, an operand behind a
prefix operator or an expression in parentheses, joined by binary operators.  On such a sequence the parser of
expressions returns the tree `Expression.node`, if the nodes fit into its pool (`parseExpression_eq`): the operators
are applied from the left, and every leaf and operator has the text of a token behind it.
-/

namespace FluxOs

open Faulting

/-! ## Tokens -/

namespace FluxToken

variable (tok : FluxToken)

/-- A token that is an operand. -/
def IsLeaf : Prop := tok.type ∈ [.NUMBER, .STRING, .KEYWORD, .IDENTIFIER, .TYPE]

def IsPrefix : Prop := tok.type = .OPERATOR ∧ isPrefixOperator (cString tok.text) = true

def IsBinary : Prop := tok.type = .OPERATOR ∧ getPrecedence (cString tok.text) ≠ 0

def IsOpening : Prop := tok.type = .PUNCTUATION ∧ (cString tok.text).head? = some '('.toUInt8

def IsClosing : Prop := tok.type = .PUNCTUATION ∧ (cString tok.text).head? = some ')'.toUInt8

instance : Decidable tok.IsLeaf := inferInstanceAs (Decidable (_ ∈ _))

instance : Decidable tok.IsPrefix := inferInstanceAs (Decidable (_ ∧ _))

instance : Decidable tok.IsBinary := inferInstanceAs (Decidable (_ ∧ _))

instance : Decidable tok.IsOpening := inferInstanceAs (Decidable (_ ∧ _))

instance : Decidable tok.IsClosing := inferInstanceAs (Decidable (_ ∧ _))

/-- The precedence of an operator. -/
def precedence : Nat := getPrecedence (cString tok.text)

end FluxToken

/-! ## Expressions -/

mutual

inductive Operand
  | leaf (tok : { tok : FluxToken // tok.IsLeaf })
  | unary (op : { tok : FluxToken // tok.IsPrefix }) (x : Operand)
  | group (opening : { tok : FluxToken // tok.IsOpening }) (first : Operand) (rest : Operations)
      (closing : { tok : FluxToken // tok.IsClosing })

/-- The operators with the operands behind them. -/
inductive Operations
  | nil
  | cons (op : { tok : FluxToken // tok.IsBinary }) (x : Operand) (rest : Operations)

end

/-- Operands joined by binary operators. -/
structure Expression where
  first : Operand
  rest : Operations

mutual

/-- The token sequence of an operand. -/
def Operand.tokens : Operand → List FluxToken
  | .leaf tok => [tok.1]
  | .unary op x => op.1 :: x.tokens
  | .group opening first rest closing => opening.1 :: (first.tokens ++ (rest.tokens ++ [closing.1]))

def Operations.tokens : Operations → List FluxToken
  | .nil => []
  | .cons op x rest => op.1 :: (x.tokens ++ rest.tokens)

end

mutual

/-- The number of nodes that an operand needs. -/
def Operand.size : Operand → Nat
  | .leaf _ => 1
  | .unary _ x => x.size + 1
  | .group _ first rest _ => first.size + rest.size

def Operations.size : Operations → Nat
  | .nil => 0
  | .cons _ x rest => x.size + 1 + rest.size

end

mutual

/-- How deep the functions of the parser call each other on an operand, at most. -/
def Operand.cost : Operand → Nat
  | .leaf _ => 2
  | .unary _ x => x.cost + 1
  | .group _ first rest _ => first.cost + rest.cost + 3

def Operations.cost : Operations → Nat
  | .nil => 1
  | .cons _ x rest => x.cost + rest.cost + 1

end

namespace Expression

variable (e : Expression)

def tokens : List FluxToken := e.first.tokens ++ e.rest.tokens

def size : Nat := e.first.size + e.rest.size

def cost : Nat := e.first.cost + e.rest.cost + 1

end Expression

/-! ## Their nodes -/

/-- The node of a leaf, made with the given text. -/
def FluxToken.leafNode (tok : FluxToken) (text : List UInt8) : ExprNode :=
  let own := cString tok.text
  if tok.type = .NUMBER then if looksFloat text then .float text else .int (strtoll text)
  else if tok.type = .STRING then .string (printed astTextMax (stripQuotes text))
  else if tok.type = .KEYWORD ∧ own = bytes "true" then .bool true
  else if tok.type = .KEYWORD ∧ own = bytes "false" then .bool false
  else if tok.type = .KEYWORD ∧ (own = bytes "nil" ∨ own = bytes "null") then .void
  else .ident (printed astNameMax text)

/-- The token behind an operand, where `next` is that behind the whole expression. -/
def Operations.follower : Operations → FluxToken → FluxToken
  | .nil, next => next
  | .cons op _ _, _ => op.1

mutual

/-- The node that the parser makes of an operand with the token `next` behind it. -/
def Operand.node : Operand → FluxToken → ExprNode
  | .leaf tok, next => tok.1.leafNode (cString next.text)
  | .unary _ x, next => .unary (printed 4 (cString next.text)) (x.node next)
  | .group _ first rest closing, _ => rest.node (first.node (rest.follower closing.1)) closing.1

/-- The node that it makes of the node on the left and the operations behind it. -/
def Operations.node : Operations → ExprNode → FluxToken → ExprNode
  | .nil, left, _ => left
  | .cons _ x rest, left, next =>
    rest.node (.binary (printed 16 (cString (rest.follower next).text)) left (x.node (rest.follower next))) next

end

def Expression.node (e : Expression) (next : FluxToken) : ExprNode :=
  e.rest.node (e.first.node (e.rest.follower next)) next

/-! ## The parser in front of tokens -/

/-- The lexer returns these tokens one after the other. -/
def LexerFns.Feeds {L : Type} (fns : LexerFns L) : L → List FluxToken → Prop
  | _, [] => True
  | lexer, tok :: toks => ∃ lexer', (∀ buffer, fns.nextFn lexer (some buffer) = .ok (lexer', some tok)) ∧
      fns.Feeds lexer' toks

namespace FluxParser

variable {L : Type} {p q : FluxParser L} {tok next : FluxToken} {toks : List FluxToken} {fuel : Nat}

/-- The parser has a token buffer with the token in it, and its lexer returns the tokens behind it. -/
structure InFrontOf (p : FluxParser L) (tok : FluxToken) (toks : List FluxToken) : Prop where
  buffer : p.peekTok = some tok
  lexer : ∃ lexer fns, p.source = some (lexer, fns) ∧ fns.Feeds lexer toks

theorem InFrontOf.peekType (h : p.InFrontOf tok toks) : p.parserPeekType = tok.type := by
  rw [parserPeekType, h.buffer]

theorem InFrontOf.peekText (h : p.InFrontOf tok toks) : p.parserPeekText = cString tok.text := by
  rw [parserPeekText, h.buffer]

theorem InFrontOf.check (h : p.InFrontOf tok toks) (type : TokenType) :
    p.parserCheck type = decide (tok.type = type) := by
  rw [parserCheck, h.peekType]

/-- The parser asks for the next token. -/
theorem InFrontOf.parserNext (h : p.InFrontOf tok (next :: toks)) :
    ∃ q, p.parserNext = .ok q ∧ q.InFrontOf next toks ∧ q.pool = p.pool := by
  obtain ⟨lexer, fns, hsource, lexer', hnext, hfeeds⟩ := h.lexer
  refine ⟨{ p with source := some (lexer', fns), peekTok := some next }, ?_, ⟨rfl, lexer', fns, rfl, hfeeds⟩, rfl⟩
  unfold FluxParser.parserNext
  rw [hsource, h.buffer]
  simp only [hnext tok]
  rfl

/-- A node that fits into the pool. -/
theorem InFrontOf.exprAlloc (h : p.InFrontOf tok toks) (hpool : p.pool < astPoolSize) (node : ExprNode) :
    ∃ q, p.exprAlloc node = (node, q) ∧ q.InFrontOf tok toks ∧ q.pool = p.pool + 1 :=
  ⟨_, if_pos hpool, ⟨h.buffer, h.lexer⟩, rfl⟩

/-- The parser stands in front of a token sequence that is not empty. -/
def Stands (p : FluxParser L) : List FluxToken → Prop
  | [] => False
  | tok :: toks => p.InFrontOf tok toks

/-- The parsing from `p` returns the node, takes so many nodes from the pool, and leaves the parser in front of the
tokens. -/
def Makes (p : FluxParser L) (node : ExprNode) (size : Nat) (toks : List FluxToken)
    (x : Except ParseFault (ExprNode × FluxParser L)) : Prop :=
  ∃ q, x = .ok (node, q) ∧ q.Stands toks ∧ q.pool = p.pool + size

/-- The next token, and a node. -/
theorem InFrontOf.makes_of_next {node : ExprNode} {make : FluxParser L → ExprNode × FluxParser L}
    (h : p.InFrontOf tok (next :: toks)) (hpool : p.pool < astPoolSize)
    (hmake : ∀ q : FluxParser L, q.InFrontOf next toks → make q = q.exprAlloc node) :
    p.Makes node 1 (next :: toks) (make <$> p.parserNext) := by
  obtain ⟨q, hq, hfront, heq⟩ := h.parserNext
  obtain ⟨q', hnode, hfront', hpool'⟩ := hfront.exprAlloc (heq ▸ hpool) node
  refine ⟨q', ?_, hfront', hpool'.trans (heq ▸ rfl)⟩
  rw [hq]
  exact congrArg Except.ok ((hmake q hfront).trans hnode)

theorem primaryNumber_eq (p : FluxParser L) :
    p.primaryNumber = (fun q => if looksFloat q.parserPeekText then q.astMakeLiteralFloat q.parserPeekText
      else q.astMakeLiteralInt (strtoll q.parserPeekText)) <$> p.parserNext := by
  unfold primaryNumber
  cases p.parserNext with
  | error e => rfl
  | ok q => exact (apply_ite Except.ok _ _ _).symm

theorem primaryKeyword_leaf (h : p.InFrontOf tok (next :: toks)) (htype : tok.type = .KEYWORD)
    (hpool : p.pool < astPoolSize) :
    p.Makes (tok.leafNode (cString next.text)) 1 (next :: toks) p.primaryKeyword := by
  unfold primaryKeyword FluxToken.leafNode
  simp only [h.peekText, htype, reduceCtorEq, if_false, true_and]
  split_ifs
  · exact h.makes_of_next hpool fun q _ => rfl
  · exact h.makes_of_next hpool fun q _ => rfl
  · exact h.makes_of_next hpool fun q _ => rfl
  · refine h.makes_of_next hpool fun q hq => ?_
    rw [astMakeIdent, hq.peekText]

theorem parsePrimary_leaf (h : p.InFrontOf tok (next :: toks)) (hleaf : tok.IsLeaf) (hpool : p.pool < astPoolSize) :
    p.Makes (tok.leafNode (cString next.text)) 1 (next :: toks) (parsePrimary (fuel + 1) p) := by
  have hident (hnode : tok.leafNode (cString next.text) = .ident (printed astNameMax (cString next.text))) :
      p.Makes (tok.leafNode (cString next.text)) 1 (next :: toks) p.primaryIdent := by
    rw [hnode]
    refine h.makes_of_next hpool fun q hq => ?_
    rw [astMakeIdent, hq.peekText]
  rw [parsePrimary, h.peekType]
  simp only [FluxToken.IsLeaf, List.mem_cons, List.not_mem_nil, or_false] at hleaf
  rcases hleaf with htype | htype | htype | htype | htype
  · simp only [htype]
    rw [primaryNumber_eq]
    refine h.makes_of_next hpool fun q hq => ?_
    simp only [FluxToken.leafNode, htype, if_true, hq.peekText]
    split_ifs
    · rfl
    · rfl
  · simp only [htype]
    refine h.makes_of_next hpool fun q hq => ?_
    simp only [FluxToken.leafNode, htype, reduceCtorEq, if_false, if_true]
    rw [astMakeLiteralString, hq.peekText]
  · simp only [htype]
    exact primaryKeyword_leaf h htype hpool
  · simp only [htype]
    exact hident (by simp [FluxToken.leafNode, htype])
  · simp only [htype]
    exact hident (by simp [FluxToken.leafNode, htype])

/-! ## Operands and operations -/

end FluxParser

theorem FluxToken.leafNode_ne_null (tok : FluxToken) (text : List UInt8) : tok.leafNode text ≠ .null := by
  unfold FluxToken.leafNode
  simp only
  split_ifs <;> simp

mutual

theorem Operand.node_ne_null (x : Operand) (next : FluxToken) : x.node next ≠ .null :=
  match x with
  | .leaf tok => tok.1.leafNode_ne_null _
  | .unary op x => by simp [Operand.node]
  | .group _ first rest closing => rest.node_ne_null _ (first.node_ne_null _)

theorem Operations.node_ne_null (xs : Operations) {left : ExprNode} (next : FluxToken) (h : left ≠ .null) :
    xs.node left next ≠ .null :=
  match xs with
  | .nil => h
  | .cons _ _ rest => rest.node_ne_null _ (by simp)

end

namespace FluxParser

variable {L : Type} {p q : FluxParser L} {tok next : FluxToken} {toks : List FluxToken} {fuel : Nat}

theorem Stands.front (h : p.Stands (tok :: toks)) : p.InFrontOf tok toks := h

theorem InFrontOf.next_stands (h : p.InFrontOf tok toks) (hne : toks ≠ []) :
    ∃ q, p.parserNext = .ok q ∧ q.Stands toks ∧ q.pool = p.pool := by
  cases toks with
  | nil => exact absurd rfl hne
  | cons next toks => exact h.parserNext

theorem parsePrimary_group {opening closing : FluxToken} {node : ExprNode} {size : Nat} {inner : List FluxToken}
    (h : p.InFrontOf opening (inner ++ closing :: next :: toks)) (hopening : opening.IsOpening)
    (hclosing : closing.IsClosing)
    (hinner : ∀ q : FluxParser L, q.Stands (inner ++ closing :: next :: toks) → q.pool = p.pool →
      q.Makes node size (closing :: next :: toks) (parseExpression fuel q)) :
    p.Makes node size (next :: toks) (parsePrimary (fuel + 1) p) := by
  obtain ⟨q, hq, hstands, hpool⟩ := h.next_stands (by simp)
  obtain ⟨q', hq', hstands', hpool'⟩ := hinner q hstands hpool
  obtain ⟨q'', hq'', hfront'', hpool''⟩ := (Stands.front hstands').parserNext
  refine ⟨q'', ?_, hfront'', by omega⟩
  have hcheck : q'.parserCheck .PUNCTUATION = true := by
    rw [(Stands.front hstands').check]
    exact decide_eq_true hclosing.1
  rw [parsePrimary, h.peekType, hopening.1]
  simp only [h.peekText, hopening.2, if_true, hq]
  show (parseExpression fuel q >>= _) = _
  rw [hq']
  show (parserMatch q' .PUNCTUATION >>= _) = _
  rw [parserMatch, if_pos hcheck, hq'']
  rfl

theorem parseUnary_eq_parsePrimary (h : p.InFrontOf tok toks) (htok : ¬ tok.IsPrefix) :
    parseUnary (fuel + 1) p = parsePrimary fuel p := by
  rw [parseUnary, if_neg]
  rw [h.check, h.peekText, decide_eq_true_eq]
  exact htok

theorem parseUnary_prefix {node : ExprNode} {size : Nat} {inner : List FluxToken}
    (h : p.InFrontOf tok (inner ++ next :: toks)) (htok : tok.IsPrefix) (hroom : p.pool + size < astPoolSize)
    (hinner : ∀ q : FluxParser L, q.Stands (inner ++ next :: toks) → q.pool = p.pool →
      q.Makes node size (next :: toks) (parseUnary fuel q)) :
    p.Makes (.unary (printed 4 (cString next.text)) node) (size + 1) (next :: toks) (parseUnary (fuel + 1) p) := by
  obtain ⟨q, hq, hstands, hpool⟩ := h.next_stands (by simp)
  obtain ⟨q', hq', hstands', hpool'⟩ := hinner q hstands hpool
  obtain ⟨q'', hnode, hfront'', hpool''⟩ := (Stands.front hstands').exprAlloc (by omega)
    (.unary (printed 4 (cString next.text)) node)
  refine ⟨q'', ?_, hfront'', by omega⟩
  rw [parseUnary, if_pos, hq]
  · show (parseUnary fuel q >>= _) = _
    rw [hq']
    show Except.ok (q'.exprAlloc (.unary (printed 4 q'.parserPeekText) node)) = _
    rw [(Stands.front hstands').peekText, hnode]
  · rw [h.check, h.peekText, decide_eq_true_eq]
    exact htok

theorem parseOperators_of_not_binary {left : ExprNode} (h : p.InFrontOf tok toks) (htok : ¬ tok.IsBinary) :
    parseOperators (fuel + 1) left p = .ok (left, p) := by
  rw [parseOperators, if_neg]
  · rfl
  · rw [h.check, h.peekText, decide_eq_true_eq]
    exact htok

theorem parseOperators_binary {left right : ExprNode} {size : Nat} {inner : List FluxToken}
    (h : p.InFrontOf tok (inner ++ next :: toks)) (htok : tok.IsBinary) (hroom : p.pool + size < astPoolSize)
    (hright : right ≠ .null)
    (hinner : ∀ q : FluxParser L, q.Stands (inner ++ next :: toks) → q.pool = p.pool →
      q.Makes right size (next :: toks) (parseUnary fuel q)) :
    ∃ q, q.InFrontOf next toks ∧ q.pool = p.pool + (size + 1) ∧ parseOperators (fuel + 1) left p =
      parseOperators fuel (.binary (printed 16 (cString next.text)) left right) q := by
  obtain ⟨q, hq, hstands, hpool⟩ := h.next_stands (by simp)
  obtain ⟨q', hq', hstands', hpool'⟩ := hinner q hstands hpool
  obtain ⟨q'', hnode, hfront'', hpool''⟩ := (Stands.front hstands').exprAlloc (by omega)
    (.binary (printed 16 (cString next.text)) left right)
  refine ⟨q'', hfront'', by omega, ?_⟩
  rw [parseOperators, if_pos, hq]
  · have hmake : q'.astMakeBinaryOp q'.parserPeekText left right =
        (.binary (printed 16 (cString next.text)) left right, q'') := by
      rw [astMakeBinaryOp, (Stands.front hstands').peekText, hnode]
    simp only [bind, Except.bind, hq', if_neg hright, hmake]
  · rw [h.check, h.peekText, decide_eq_true_eq]
    exact htok

theorem parseExpression_makes {left node : ExprNode} {m n : Nat} {s t : List FluxToken}
    (hfirst : p.Makes left m s (parseUnary fuel p)) (hleft : left ≠ .null)
    (hrest : ∀ q : FluxParser L, q.Stands s → q.pool = p.pool + m →
      q.Makes node n t (parseOperators fuel left q)) :
    p.Makes node (m + n) t (parseExpression (fuel + 1) p) := by
  obtain ⟨q, hq, hstands, hpool⟩ := hfirst
  obtain ⟨q', hq', hstands', hpool'⟩ := hrest q hstands hpool
  refine ⟨q', ?_, hstands', by omega⟩
  rw [parseExpression, hq]
  show (if left = .null then _ else _) = _
  rw [if_neg hleft]
  exact hq'

end FluxParser

/-- Behind the operand of an operation stands its follower. -/
theorem Operations.tokens_append (rest : Operations) (next : FluxToken) (toks : List FluxToken) :
    ∃ toks', rest.tokens ++ next :: toks = rest.follower next :: toks' := by
  cases rest with
  | nil => exact ⟨toks, rfl⟩
  | cons op x rest => exact ⟨_, rfl⟩

theorem FluxToken.not_isBinary_of_isClosing {tok : FluxToken} (h : tok.IsClosing) : ¬ tok.IsBinary := by
  intro hbinary
  rw [FluxToken.IsBinary, h.1] at hbinary
  exact absurd hbinary.1 (by decide)

theorem FluxToken.not_isPrefix_of_isLeaf {tok : FluxToken} (h : tok.IsLeaf) : ¬ tok.IsPrefix := by
  intro hprefix
  rw [FluxToken.IsLeaf, hprefix.1] at h
  exact absurd h (by decide)

open FluxParser

mutual

/-- What `parse_unary` makes of an operand. -/
theorem Operand.parse (x : Operand) {L : Type} {p : FluxParser L} {next : FluxToken} {toks : List FluxToken}
    {fuel : Nat} (hp : p.Stands (x.tokens ++ next :: toks)) (hpool : p.pool + x.size ≤ astPoolSize)
    (hfuel : x.cost ≤ fuel) : p.Makes (x.node next) x.size (next :: toks) (parseUnary fuel p) :=
  match x with
  | .leaf tok => by
    obtain ⟨fuel, rfl⟩ := Nat.exists_eq_add_of_le' hfuel
    rw [Operand.cost, parseUnary_eq_parsePrimary hp (FluxToken.not_isPrefix_of_isLeaf tok.2)]
    exact parsePrimary_leaf hp tok.2 hpool
  | .unary op x => by
    obtain ⟨fuel, rfl⟩ := Nat.exists_eq_add_of_le' (Nat.le_trans (Nat.le_add_left 1 _) hfuel)
    rw [Operand.size] at hpool
    rw [Operand.cost] at hfuel
    exact parseUnary_prefix hp op.2 (by omega) fun q hq heq =>
      x.parse hq (by omega) (by omega)
  | .group opening first rest closing => by
    obtain ⟨fuel, rfl⟩ := Nat.exists_eq_add_of_le' (Nat.le_trans (Nat.le_add_left 3 _) hfuel)
    rw [Operand.size] at hpool
    rw [Operand.cost] at hfuel
    rw [Operand.tokens, List.cons_append, List.append_assoc, List.append_assoc, List.singleton_append,
      ← List.append_assoc] at hp
    have hopening : ¬ opening.1.IsPrefix := fun h => absurd (h.1.symm.trans opening.2.1) (by decide)
    rw [parseUnary_eq_parsePrimary hp hopening]
    refine parsePrimary_group hp opening.2 closing.2 fun q hq heq => ?_
    rw [List.append_assoc] at hq
    obtain ⟨toks', htoks⟩ := rest.tokens_append closing.1 (next :: toks)
    refine parseExpression_makes (s := rest.tokens ++ closing.1 :: next :: toks) ?_
      (first.node_ne_null (rest.follower closing.1)) fun q' hq' heq' => ?_
    · rw [htoks] at hq ⊢
      exact first.parse hq (by omega) (by omega)
    · exact rest.parse hq' (FluxToken.not_isBinary_of_isClosing closing.2) (by omega) (by omega)

/-- What the loop of `parse_expression` makes of the operations behind a node. -/
theorem Operations.parse (xs : Operations) {L : Type} {p : FluxParser L} {next : FluxToken} {toks : List FluxToken}
    {fuel : Nat} {left : ExprNode} (hp : p.Stands (xs.tokens ++ next :: toks)) (hnext : ¬ next.IsBinary)
    (hpool : p.pool + xs.size ≤ astPoolSize) (hfuel : xs.cost ≤ fuel) :
    p.Makes (xs.node left next) xs.size (next :: toks) (parseOperators fuel left p) :=
  match xs with
  | .nil => by
    obtain ⟨fuel, rfl⟩ := Nat.exists_eq_add_of_le' hfuel
    exact ⟨p, parseOperators_of_not_binary hp hnext, hp, rfl⟩
  | .cons op x rest => by
    obtain ⟨fuel, rfl⟩ := Nat.exists_eq_add_of_le' (Nat.le_trans (Nat.le_add_left 1 _) hfuel)
    rw [Operations.size] at hpool
    rw [Operations.cost] at hfuel
    rw [Operations.tokens, List.cons_append, List.append_assoc] at hp
    obtain ⟨toks', htoks⟩ := rest.tokens_append next toks
    rw [htoks] at hp
    have hx (q : FluxParser L) (hq : q.Stands (x.tokens ++ rest.follower next :: toks')) (heq : q.pool = p.pool) :
        q.Makes (x.node (rest.follower next)) x.size (rest.follower next :: toks') (parseUnary fuel q) :=
      x.parse hq (by omega) (by omega)
    obtain ⟨q, hq, heq, hturn⟩ := parseOperators_binary hp op.2 (by omega) (x.node_ne_null _) hx
    have hstands : q.Stands (rest.tokens ++ next :: toks) := by
      rw [htoks]
      exact hq
    have hfuel' : rest.cost ≤ fuel := by omega
    obtain ⟨q', hq', hstands', heq'⟩ := rest.parse hstands hnext (by omega) hfuel'
    rw [hturn]
    refine ⟨q', hq', hstands', ?_⟩
    rw [Operations.size]
    omega

end

/-- What `parse_expression` makes of an expression whose nodes fit into the pool. -/
theorem Expression.parse (e : Expression) {L : Type} {p : FluxParser L} {next : FluxToken} {toks : List FluxToken}
    {fuel : Nat} (hp : p.Stands (e.tokens ++ next :: toks)) (hnext : ¬ next.IsBinary)
    (hpool : p.pool + e.size ≤ astPoolSize) (hfuel : e.cost ≤ fuel) :
    p.Makes (e.node next) e.size (next :: toks) (parseExpression fuel p) := by
  obtain ⟨fuel, rfl⟩ := Nat.exists_eq_add_of_le' (Nat.le_trans (Nat.le_add_left 1 _) hfuel)
  unfold Expression.size at hpool
  unfold Expression.cost at hfuel
  rw [Expression.tokens, List.append_assoc] at hp
  obtain ⟨toks', htoks⟩ := e.rest.tokens_append next toks
  refine parseExpression_makes (s := e.rest.tokens ++ next :: toks) ?_ (e.first.node_ne_null (e.rest.follower next))
    fun q hq heq => ?_
  · rw [htoks] at hp ⊢
    exact e.first.parse hp (by omega) (by omega)
  · exact e.rest.parse hq hnext (by omega) (by omega)

/-! ## Nodes and the pool -/

/-- The number of nodes of a tree. -/
def ExprNode.size : ExprNode → Nat
  | .null => 0
  | .binary _ left right => left.size + right.size + 1
  | .unary _ operand => operand.size + 1
  | _ => 1

namespace FluxParser

variable {L : Type} {p q : FluxParser L} {fuel n : Nat}

/-- The nodes of the result, beside `n` that were there before, were taken from the pool, which still has its size. -/
structure Spends (p : FluxParser L) (n : Nat) (r : ExprNode × FluxParser L) : Prop where
  nodes : r.1.size + p.pool ≤ r.2.pool + n
  pool : r.2.pool ≤ max p.pool astPoolSize

theorem parserNext_pool (p : FluxParser L) : Ensures (fun _ => True) (fun q => q.pool = p.pool) p.parserNext := by
  unfold parserNext
  split
  · rfl
  · rename_i lexer fns _
    refine (ensures_bind _ _ _ _).2 ?_
    cases fns.nextFn lexer p.peekTok with
    | error e => trivial
    | ok r => rfl

theorem parserMatch_pool (p : FluxParser L) (type : TokenType) :
    Ensures (fun _ => True) (fun q => q.pool = p.pool) (p.parserMatch type) := by
  unfold parserMatch
  exact (ensures_ite _ _ _ _ _).2 ⟨fun _ => parserNext_pool p, fun _ => rfl⟩

theorem parserError_pool (p : FluxParser L) : p.parserError.pool = p.pool := by
  unfold parserError
  split_ifs <;> rfl

/-- A node with `m` nodes below it, of which `n` are not taken from the pool. -/
theorem spends_alloc {node : ExprNode} {m : Nat} (hnode : node.size ≤ m + 1) (hm : m + p.pool ≤ q.pool + n)
    (hq : q.pool ≤ max p.pool astPoolSize) : p.Spends n (q.exprAlloc node) := by
  unfold exprAlloc
  split_ifs with hpool
  · refine ⟨?_, ?_⟩
    · show node.size + p.pool ≤ q.pool + 1 + n
      omega
    · show q.pool + 1 ≤ _
      omega
  · refine ⟨?_, hq⟩
    show 0 + p.pool ≤ q.pool + n
    omega

theorem spends_leaf {make : FluxParser L → ExprNode × FluxParser L} (p : FluxParser L)
    (hmake : ∀ q : FluxParser L, ∃ node : ExprNode, node.size = 1 ∧ make q = q.exprAlloc node) :
    Ensures (fun _ => True) (p.Spends 0) (make <$> p.parserNext) := by
  rw [ensures_map]
  refine (parserNext_pool p).imp fun q hq => ?_
  obtain ⟨node, hsize, hnode⟩ := hmake q
  rw [hnode]
  refine spends_alloc (m := 0) (Nat.le_of_eq hsize) (by omega) ?_
  rw [hq]
  exact Nat.le_max_left _ _

theorem primaryKeyword_spends (p : FluxParser L) : Ensures (fun _ => True) (p.Spends 0) p.primaryKeyword := by
  unfold primaryKeyword
  simp only
  split_ifs
  · exact spends_leaf p fun q => ⟨_, rfl, rfl⟩
  · exact spends_leaf p fun q => ⟨_, rfl, rfl⟩
  · exact spends_leaf p fun q => ⟨_, rfl, rfl⟩
  · exact spends_leaf p fun q => ⟨_, rfl, rfl⟩

theorem primaryNumber_spends (p : FluxParser L) : Ensures (fun _ => True) (p.Spends 0) p.primaryNumber := by
  rw [primaryNumber_eq]
  refine spends_leaf p fun q => ?_
  split_ifs
  · exact ⟨_, rfl, rfl⟩
  · exact ⟨_, rfl, rfl⟩

/-- What the parsing from a later parser spends. -/
theorem Spends.of_pool {r : ExprNode × FluxParser L} (h : q.Spends n r) (hq : q.pool = p.pool) : p.Spends n r :=
  ⟨hq ▸ h.nodes, hq ▸ h.pool⟩

theorem Spends.trans {r : ExprNode × FluxParser L} {node : ExprNode} {m : Nat} (h : p.Spends n (node, q))
    (h' : q.Spends (node.size + m) r) : p.Spends (n + m) r := by
  obtain ⟨hnodes, hpool⟩ := h
  obtain ⟨hnodes', hpool'⟩ := h'
  refine ⟨?_, ?_⟩
  · simp only at hnodes
    omega
  · simp only at hpool
    omega

/-- No parsing of an expression returns more nodes than it takes from the pool. -/
theorem parse_spends (fuel : Nat) :
    (∀ p : FluxParser L, Ensures (fun _ => True) (p.Spends 0) (parsePrimary fuel p)) ∧
    (∀ p : FluxParser L, Ensures (fun _ => True) (p.Spends 0) (parseUnary fuel p)) ∧
    (∀ (left : ExprNode) (p : FluxParser L),
      Ensures (fun _ => True) (p.Spends left.size) (parseOperators fuel left p)) ∧
    (∀ p : FluxParser L, Ensures (fun _ => True) (p.Spends 0) (parseExpression fuel p)) := by
  induction fuel with
  | zero =>
    refine ⟨fun p => ?_, fun p => ?_, fun left p => ?_, fun p => ?_⟩
    · rw [parsePrimary]; trivial
    · rw [parseUnary]; trivial
    · rw [parseOperators]; trivial
    · rw [parseExpression]; trivial
  | succ fuel ih =>
    obtain ⟨hprimary, hunary, hoperators, hexpression⟩ := ih
    refine ⟨fun p => ?_, fun p => ?_, fun left p => ?_, fun p => ?_⟩
    · have herror : p.Spends 0 (.null, p.parserError) := by
        refine ⟨?_, ?_⟩
        · rw [parserError_pool]
          exact Nat.le_of_eq (Nat.zero_add _)
        · rw [parserError_pool]
          exact Nat.le_max_left _ _
      rw [parsePrimary]
      split
      · exact primaryNumber_spends p
      · exact spends_leaf p fun q => ⟨_, rfl, rfl⟩
      · exact primaryKeyword_spends p
      · exact spends_leaf p fun q => ⟨_, rfl, rfl⟩
      · exact spends_leaf p fun q => ⟨_, rfl, rfl⟩
      · split_ifs
        · refine (parserNext_pool p).bind fun q hq => (hexpression q).bind fun r hspends => ?_
          refine (parserMatch_pool r.2 .PUNCTUATION).bind fun q' hq' => ?_
          refine Spends.of_pool ⟨?_, ?_⟩ hq
          · rw [hq']
            exact hspends.nodes
          · rw [hq']
            exact hspends.pool
        · exact herror
      · exact herror
    · rw [parseUnary]
      refine (ensures_ite _ _ _ _ _).2 ⟨fun _ => ?_, fun _ => hprimary p⟩
      refine (parserNext_pool p).bind fun q hq => (hunary q).bind fun r hspends => ?_
      exact (spends_alloc (Nat.le_refl _) hspends.nodes hspends.pool).of_pool hq
    · rw [parseOperators]
      refine (ensures_ite _ _ _ _ _).2 ⟨fun _ => ?_, fun _ => ?_⟩
      · refine (parserNext_pool p).bind fun q hq => (hunary q).bind fun r hspends => ?_
        obtain ⟨right, q'⟩ := r
        have hnodes : right.size + q.pool ≤ q'.pool := hspends.nodes
        refine (ensures_ite _ _ _ _ _).2 ⟨fun _ => ?_, fun _ => ?_⟩
        · refine ⟨?_, hq ▸ hspends.pool⟩
          show left.size + p.pool ≤ q'.pool + left.size
          omega
        · have hmake : p.Spends left.size (q'.astMakeBinaryOp q'.parserPeekText left right) := by
            apply spends_alloc (m := left.size + right.size) (Nat.le_refl _)
            · omega
            · exact hq ▸ hspends.pool
          refine (hoperators _ _).imp fun r hr => ?_
          have htrans := Spends.trans (m := 0) hmake hr
          exact htrans
      · exact ⟨Nat.le_of_eq (Nat.add_comm _ _), Nat.le_max_left _ _⟩
    · rw [parseExpression]
      refine (hunary p).bind fun r hspends => ?_
      obtain ⟨left, q⟩ := r
      refine (ensures_ite _ _ _ _ _).2 ⟨fun _ => ?_, fun _ => ?_⟩
      · refine ⟨?_, hspends.pool⟩
        have hnodes : left.size + p.pool ≤ q.pool := hspends.nodes
        show 0 + p.pool ≤ q.pool
        omega
      · exact (hoperators left q).imp fun r hr => hspends.trans (m := 0) hr

/-- With every bound on the depth of the calls that is large enough, `parse_expression` returns this node. -/
def ParsesTo (p : FluxParser L) (node : ExprNode) : Prop :=
  ∃ bound, ∀ fuel, bound ≤ fuel → ∃ q, parseExpression fuel p = .ok (node, q)

theorem ParsesTo.size_le {node : ExprNode} (h : p.ParsesTo node) : node.size ≤ astPoolSize - p.pool := by
  obtain ⟨bound, hbound⟩ := h
  obtain ⟨q, hq⟩ := hbound bound (Nat.le_refl _)
  obtain ⟨hnodes, hpool⟩ := ((parse_spends bound).2.2.2 p).of_ok hq
  simp only at hnodes hpool
  omega

end FluxParser

theorem Operand.size_pos (x : Operand) : 0 < x.size :=
  match x with
  | .leaf _ => Nat.one_pos
  | .unary _ _ => Nat.succ_pos _
  | .group _ first _ _ => Nat.add_pos_left first.size_pos _

/-- What can be said of the node that `parse_expression` returns for an expression, if it fixes the number of nodes:
the nodes fit into the pool, and it holds of the node of the expression. -/
theorem Expression.exists_parsesTo_iff (e : Expression) {L : Type} {p : FluxParser L} {next : FluxToken}
    {toks : List FluxToken} (hp : p.Stands (e.tokens ++ next :: toks)) (hnext : ¬ next.IsBinary)
    {Q : ExprNode → Prop} (hQ : ∀ node, Q node → node.size = e.size) :
    (∃ node, p.ParsesTo node ∧ Q node) ↔ p.pool + e.size ≤ astPoolSize ∧ Q (e.node next) := by
  constructor
  · rintro ⟨node, hparses, hnode⟩
    have hpos : 0 < e.size := Nat.add_pos_left e.first.size_pos _
    have hle := hparses.size_le
    rw [hQ node hnode] at hle
    have hpool : p.pool + e.size ≤ astPoolSize := by omega
    obtain ⟨bound, hbound⟩ := hparses
    obtain ⟨q, hq⟩ := hbound (max bound e.cost) (Nat.le_max_left _ _)
    obtain ⟨q', hq', -⟩ := e.parse hp hnext hpool (Nat.le_max_right bound e.cost)
    obtain ⟨rfl, -⟩ := Prod.mk.inj (Except.ok.inj (hq.symm.trans hq'))
    exact ⟨hpool, hnode⟩
  · rintro ⟨hpool, hnode⟩
    refine ⟨_, ⟨e.cost, fun fuel hfuel => ?_⟩, hnode⟩
    obtain ⟨q, hq, -⟩ := e.parse hp hnext hpool hfuel
    exact ⟨q, hq⟩

/-! ## Expressions in a document -/

/-- The next calls of the lexer return these tokens. -/
def FluxLexer.returns (lex : FluxLexer) : List FluxToken → Bool
  | [] => true
  | tok :: toks =>
    match lex.fluxLexerNext with
    | .ok (t, l) => t = tok && l.returns toks
    | .error _ => false

theorem feeds_of_returns {lex : FluxLexer} {toks : List FluxToken} (h : lex.returns toks = true) :
    fluxLexerFns.Feeds lex toks := by
  induction toks generalizing lex with
  | nil => trivial
  | cons tok toks ih =>
    rw [FluxLexer.returns] at h
    cases hnext : lex.fluxLexerNext with
    | error e =>
      rw [hnext] at h
      cases h
    | ok r =>
      rw [hnext] at h
      obtain ⟨htok, hrest⟩ := (Bool.and_eq_true _ _).mp h
      refine ⟨r.2, fun buffer => ?_, ih hrest⟩
      simp only [fluxLexerFns, hnext, of_decide_eq_true htok]
      rfl

/-- The parser in front of the first token of a source with one line. -/
def parserAtStart (source : String) (first : FluxToken) : FluxParser FluxLexer :=
  { fluxParserInit FluxLexer with
    source := some ({ source := bytes source, pos := first.text.length, line := 1,
                      col := 1 + Int32.ofNat first.text.length,
                      parenDepth := 0 }, fluxLexerFns)
    peekTok := some first }

/-- A token of the first line. -/
def tokenAt (col : Int32) (type : TokenType) (text : String) : FluxToken :=
  { fluxTokenInit with type := type, col := col, text := bytes text }

end FluxOs
