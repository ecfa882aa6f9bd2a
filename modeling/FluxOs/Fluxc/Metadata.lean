import FluxOs.Fluxc.Parser
import FluxOs.Fluxc.Spellings
import FluxOs.Fluxc.Tokenizing

/-!
# Metadata lines

A line `key: value` should become the tokens `TOK_META_KEY` and `TOK_META_VALUE` and a node of the syntax tree.
`flux_lexer_scan_metadata` can scan the value, but the lexer only ever asks it for the key, so no token has the type
that the parser waits for and no tree has a node for metadata.
-/

namespace FluxOs

open Faulting

/-! ## Tokens -/

namespace FluxLexer

variable {lex l : FluxLexer} {tok : FluxToken} {s : Scanner}

/-- The next two tokens are the key and the value of a metadata line. -/
def LexesToPair (lex : FluxLexer) (key value : List UInt8) : Prop :=
  ∃ k l v l', lex.fluxLexerNext = .ok (k, l) ∧ k.type = .META_KEY ∧ k.text = key ∧
    l.fluxLexerNext = .ok (v, l') ∧ v.type = .META_VALUE ∧ v.text = value

/-- Behind any computation of the lexer there is one that returns a token of a type that is not `TOK_META_VALUE`. -/
theorem ensures_then {α : Type} {Q : FluxToken × FluxLexer → Prop} {x : Except LexFault α}
    {f : α → Except LexFault (FluxToken × FluxLexer)} (hf : ∀ a, Ensures (fun _ => True) Q (f a)) :
    Ensures (fun _ => True) Q (x >>= f) :=
  (ensures_of_forall (fun _ _ => trivial) fun _ _ => trivial).bind fun a (_ : True) => hf a

/-- No scanner returns a `TOK_META_VALUE`. -/
theorem scan_type (s : Scanner) (lex : FluxLexer) :
    Ensures (fun _ => True) (fun r => r.1.type ≠ .META_VALUE) (s.scan lex) := by
  cases s with
  | newline =>
    refine ensures_then fun _ => ensures_then fun _ => ?_
    split
    · exact ensures_then fun _ => by simp [token]
    · simp [token]
  | heading => exact ensures_then fun _ => ensures_then fun _ => ensures_then fun _ => by simp [token]
  | codeBlock =>
    exact ensures_then fun _ => ensures_then fun _ => ensures_then fun _ => ensures_then fun _ =>
      ensures_then fun _ => by simp [token]
  | identifier =>
    refine ensures_then fun _ => ensures_then fun text => ?_
    show (if fluxLexerIsTypeKeyword text then _ else if fluxLexerIsKeyword text then _ else _) ≠ TokenType.META_VALUE
    split_ifs <;> decide
  | string => exact ensures_then fun _ => by simp [token]
  | punctuation => exact ensures_then fun _ => by simp [token]
  | _ => exact ensures_then fun _ => ensures_then fun _ => by simp [token]

theorem next_type (lex : FluxLexer) :
    Ensures (fun _ => True) (fun r => r.1.type ≠ .META_VALUE) lex.fluxLexerNext := by
  refine ensures_then fun l => ?_
  split
  · simp [token]
  · exact ensures_then fun s => scan_type s l

theorem not_lexesToPair (lex : FluxLexer) (key value : List UInt8) : ¬ lex.LexesToPair key value := by
  rintro ⟨k, l, v, l', -, -, -, hnext, hv, -⟩
  exact (next_type l).of_ok hnext hv

/-! ## Lines -/

variable {key value r : List UInt8} {c : UInt8}

/-- A line `key: value` of a document, in front of which the lexer stands. -/
structure MetadataLine (lex : FluxLexer) (key value : List UInt8) : Prop where
  start : lex.col = 1
  key_ne : key ≠ []
  key_word : ∀ c ∈ key, isWord c = true
  value_ne : value ≠ []
  value_line : newline ∉ value
  line : ∃ r, lex.rest = key ++ ':'.toUInt8 :: ' '.toUInt8 :: (value ++ r) ∧ r.head?.all (· = newline) = true

theorem byteAt_of_drop {i : Nat} (h : lex.source.drop i = c :: r) : lex.byteAt i = .ok c := by
  apply byteAt_eq
  rw [← List.head?_drop, h, List.head?_cons]

theorem lt_of_drop {i : Nat} (h : lex.source.drop i = c :: r) : i < lex.sourceLen := by
  have hlen := congrArg List.length h
  rw [List.length_drop, List.length_cons] at hlen
  show i < lex.source.length
  omega

theorem drop_succ_of_drop {i : Nat} (h : lex.source.drop i = c :: r) : lex.source.drop (i + 1) = r := by
  rw [← List.drop_drop, h, List.drop_one, List.tail_cons]

theorem metadataTurn_of_drop {i : Nat} {b : Bool} (h : lex.source.drop i = c :: r) :
    lex.metadataTurn (i, b, false) =
      if c = newline then .ok none
      else if isAlnum c ∨ c = '_'.toUInt8 then .ok (some (i + 1, true, false))
      else if c = ':'.toUInt8 ∧ b then
        .ok (some (i + 1, b, (r.head?).any isBlank))
      else if ¬ b ∧ isBlank c then .ok (some (i + 1, b, false))
      else if c ≠ '-'.toUInt8 ∧ c ≠ '_'.toUInt8 then .ok none
      else .ok (some (i + 1, b, false)) := by
  show (if _ then _ else _) = _
  rw [if_pos ⟨by decide, lt_of_drop h⟩, byteAt_of_drop h]
  show (if _ then _ else _) = _
  have hnext : (if i + 1 < lex.sourceLen then do
      let next ← lex.byteAt (i + 1)
      pure (some (i + 1, b, isBlank next))
      else pure (some (i + 1, b, false)) : Except LexFault (Option (Nat × Bool × Bool))) =
      .ok (some (i + 1, b, (r.head?).any isBlank)) := by
    have hdrop := drop_succ_of_drop h
    cases r with
    | nil =>
      rw [if_neg]
      · rfl
      · exact Nat.not_lt.2 (List.drop_eq_nil_iff.1 hdrop)
    | cons d r =>
      rw [if_pos (lt_of_drop hdrop), byteAt_of_drop hdrop]
      rfl
  rw [hnext]
  rfl

/-- The search for a colon goes over a key and finds the colon behind it. -/
theorem metadataLoop_of_key {i : Nat} {b : Bool} (hkey : ∀ c ∈ key, isWord c = true)
    (hrest : lex.source.drop i = key ++ ':'.toUInt8 :: ' '.toUInt8 :: r)
    (halpha : b = true ∨ ∃ c ∈ key, c ≠ '-'.toUInt8) :
    ∃ s, LeavesWithin lex.metadataTurn (key.length + 1) (i, b, false) s ∧ s.2.2 = true := by
  induction key generalizing i b with
  | nil =>
    obtain rfl : b = true := halpha.resolve_right (by simp)
    refine ⟨(i + 1, true, true), .next ?_ (.here rfl), rfl⟩
    rw [metadataTurn_of_drop hrest]
    rfl
  | cons c key ih =>
    rw [List.cons_append] at hrest
    have hnext := drop_succ_of_drop hrest
    have hword := hkey c List.mem_cons_self
    have hkey' : ∀ d ∈ key, isWord d = true := fun d hd => hkey d (List.mem_cons_of_mem _ hd)
    have hturn := metadataTurn_of_drop (b := b) hrest
    by_cases hdash : c = '-'.toUInt8
    · subst hdash
      have hmore : b = true ∨ ∃ d ∈ key, d ≠ '-'.toUInt8 := by
        refine halpha.imp_right fun ⟨d, hd, hne⟩ => ⟨d, ?_, hne⟩
        exact (List.mem_cons.1 hd).resolve_left hne
      obtain ⟨s, hs, hfound⟩ := ih hkey' hnext hmore
      refine ⟨s, .next ?_ hs, hfound⟩
      rw [hturn]
      simp +decide
    · obtain ⟨s, hs, hfound⟩ := ih (b := true) hkey' hnext (.inl rfl)
      refine ⟨s, .next ?_ hs, hfound⟩
      have hline : c ≠ newline := by
        rintro rfl
        exact absurd hword (by decide)
      have halnum : isAlnum c = true ∨ c = '_'.toUInt8 := by
        simpa [isWord, hdash] using hword
      rw [hturn, if_neg hline, if_pos halnum]

/-- In front of a line whose key is not made of dashes alone, the lexer is sent to the scanner of metadata. -/
theorem MetadataLine.scanner (h : lex.MetadataLine key value) (hkey : ∃ c ∈ key, c ≠ '-'.toUInt8) :
    lex.fluxLexerSkipWhitespaceAndComments = .ok lex ∧ lex.scanner = .ok .metadata := by
  obtain ⟨r, hrest, -⟩ := h.line
  have hword := h.key_word
  have hcol := h.start
  have hmeta : lex.fluxLexerIsMetadataLine = .ok true := by
    have hfuel : key.length + 1 < lex.sourceLen - lex.pos + 1 := by
      rw [← length_rest, hrest, List.length_append, List.length_cons]
      omega
    obtain ⟨s, hs, hfound⟩ := metadataLoop_of_key (b := false) hword hrest (.inr hkey)
    unfold fluxLexerIsMetadataLine
    rw [hs.loop_eq hfuel, ← hfound]
    rfl
  cases key with
  | nil => exact absurd rfl h.key_ne
  | cons c key =>
    rw [List.cons_append] at hrest
    have hc : lex.source[lex.pos]? = some c := by rw [head?_rest, hrest, List.head?_cons]
    have hcw := hword c List.mem_cons_self
    have hne : ∀ d : UInt8, isWord d = false → c ≠ d := by
      rintro d hd rfl
      rw [hd] at hcw
      cases hcw
    constructor
    · apply skip_of_exit
      rw [skipTurn, if_pos (lt_sourceLen hc), byteAt_eq hc]
      show (if _ then _ else _) = _
      rw [if_neg (by simp [isBlank, hne ' '.toUInt8 (by decide), hne '\t'.toUInt8 (by decide)])]
      show (if _ then _ else _) = _
      rw [if_neg (fun h => hne '/'.toUInt8 (by decide) h.1)]
      rfl
    · have hblank : (lex.source[lex.pos + 1]?).any (· = ' '.toUInt8) = false := by
        rw [getElem?_rest, hrest]
        cases key with
        | nil => rfl
        | cons d key =>
          have hd := hword d (by simp)
          refine decide_eq_false ?_
          rintro rfl
          exact absurd hd (by decide)
      have hscanner : Ensures noFault (· = .metadata) lex.scanner := by
        unfold FluxLexer.scanner
        simp [ensures_byteAt_bind hc, ensures_ite, hmeta, hc, hcol, hblank, atFence_eq,
          hne FluxOs.newline (by decide), hne '\r'.toUInt8 (by decide), hne '#'.toUInt8 (by decide),
          hne backquote (by decide)]
      obtain ⟨s, hs, rfl⟩ := exists_of_noFault hscanner
      exact hs

/-- A colon with a blank behind it is an operator. -/
theorem next_of_colon (hrest : lex.rest = ':'.toUInt8 :: ' '.toUInt8 :: r) :
    lex.fluxLexerNext = .ok (lex.token .OPERATOR (bytes ":"), lex.advance 1) := by
  have hc : lex.source[lex.pos]? = some ':'.toUInt8 := by rw [head?_rest, hrest, List.head?_cons]
  have hmoves := moves_advance lex 1
  have hnext : (lex.advance 1).rest = ' '.toUInt8 :: r := hmoves.rest_of_cons hrest
  have hlt : (lex.advance 1).pos < (lex.advance 1).sourceLen := by
    apply lt_sourceLen (c := ' '.toUInt8)
    rw [head?_rest, hnext, List.head?_cons]
  have hskip : lex.fluxLexerSkipWhitespaceAndComments = .ok lex := by
    apply skip_of_exit
    rw [skipTurn, if_pos (lt_sourceLen hc), byteAt_eq hc]
    rfl
  have hscanner : Ensures noFault (· = .operator) lex.scanner := by
    have hmeta := isMetadataLine_eq_false hc (by decide) (by decide)
    unfold scanner
    simp +decide [ensures_byteAt_bind hc, ensures_ite, hmeta, hc, atFence_eq]
  obtain ⟨s, hs, rfl⟩ := exists_of_noFault hscanner
  rw [next_of_scanner hskip (lt_sourceLen hc) hs]
  have hend : lex.operatorEnd = .ok (lex.advance 1) := by
    unfold operatorEnd
    rw [byteAt_eq hc]
    show (if _ then _ else _) = _
    rw [if_pos hlt, byteAt_of_drop hnext]
    rfl
  have htext : (lex.advance 1).copyText lex.pos = .ok (bytes ":") := by
    rw [copyText_of_moves hmoves (by decide) (Nat.le_of_lt hlt), hrest]
    rfl
  show (lex.operatorEnd >>= _) = _
  rw [hend]
  show ((lex.advance 1).copyText lex.pos >>= _) = _
  rw [htext]
  rfl

/-- A metadata line starts with the token of its key, and goes on with the operator `:`. -/
theorem MetadataLine.tokens (h : lex.MetadataLine key value) (hkey : ∃ c ∈ key, c ≠ '-'.toUInt8)
    (hlen : key.length ≤ fluxTokenTextMax - 1) :
    ∃ l, lex.fluxLexerNext = .ok (lex.token .META_KEY key, l) ∧
      l.fluxLexerNext = .ok (l.token .OPERATOR (bytes ":"), l.advance 1) := by
  obtain ⟨hskip, hs⟩ := h.scanner hkey
  obtain ⟨r, hrest, -⟩ := h.line
  have hl := advanceWhile_eq hrest h.key_word (by rfl)
  have hmoves := moves_advance lex key.length
  have hbehind := hmoves.rest_of_append hrest
  have hpos := lt_of_drop hbehind
  have hlt : lex.pos < lex.sourceLen := by
    have hsource := hmoves.sourceLen_eq
    have hforward := hmoves.pos
    omega
  refine ⟨_, ?_, next_of_colon hbehind⟩
  have htext : (lex.advance key.length).copyText lex.pos = .ok key := by
    rw [copyText_of_moves hmoves hlen (Nat.le_of_lt hpos), hrest, List.take_left]
  rw [next_of_scanner hskip hlt hs]
  show (lex.wordEnd >>= _) = _
  rw [wordEnd, hl]
  show ((lex.advance key.length).copyText lex.pos >>= _) = _
  rw [htext]
  rfl

end FluxLexer

/-! ## Trees without metadata -/

/-- `P` holds of every node of the tree. -/
inductive AstNode.Everywhere (P : AstFields → Prop) : AstNode → Prop
  | mk {fields : AstFields} {children : List AstNode} : P fields → (∀ c ∈ children, Everywhere P c) →
      Everywhere P (.mk fields children)

/-- The tree has no node for metadata. -/
def AstNode.NoMeta (node : AstNode) : Prop := node.Everywhere fun fields => fields.type ≠ .META

namespace AstNode

variable {node : AstNode} {child : Option AstNode} {fields : AstFields}

/-- A child of the node is a metadata entry with this key and this value. -/
def HasMeta (node : AstNode) (key value : List UInt8) : Prop :=
  ∃ c ∈ node.children, c.fields.type = .META ∧ c.fields.metaKey = key ∧ c.fields.metaValue = value

theorem NoMeta.children (h : node.NoMeta) : ∀ c ∈ node.children, c.NoMeta := by
  cases h with
  | mk _ hchildren => exact hchildren

theorem NoMeta.type (h : node.NoMeta) : node.fields.type ≠ .META := by
  cases h with
  | mk hfields _ => exact hfields

theorem NoMeta.not_hasMeta (h : node.NoMeta) (key value : List UInt8) : ¬ node.HasMeta key value := by
  rintro ⟨c, hc, htype, -⟩
  exact (h.children c hc).type htype

theorem noMeta_leaf (h : fields.type ≠ .META) : (mk fields []).NoMeta := .mk h (by simp)

theorem NoMeta.some (h : node.NoMeta) : ∀ c ∈ Option.some node, c.NoMeta := by
  intro c hc
  rw [← Option.some.inj hc]
  exact h

theorem NoMeta.addChild (h : node.NoMeta) (hchild : ∀ c ∈ child, c.NoMeta) : (node.addChild child).NoMeta := by
  cases child with
  | none => exact h
  | some c =>
    unfold AstNode.addChild
    simp only
    split
    · refine .mk h.type fun d hd => ?_
      rcases List.mem_append.1 hd with hd | hd
      · exact h.children d hd
      · rw [List.mem_singleton.1 hd]
        exact hchild c rfl
    · exact h

theorem NoMeta.withFields {f : AstFields → AstFields} (h : node.NoMeta)
    (hf : (f node.fields).type = node.fields.type) :
    (node.withFields f).NoMeta := by
  refine .mk ?_ h.children
  rw [hf]
  exact h.type

end AstNode

/-! ## The parser on the lexer -/

namespace FluxParser

variable {p : FluxParser FluxLexer} {fields : AstFields} {node : Option AstNode} {fuel : Nat}

/-- The parser stands on the lexer, and not at a `TOK_META_VALUE`. -/
structure Valueless (p : FluxParser FluxLexer) : Prop where
  source : ∃ lex, p.source = some (lex, fluxLexerFns)
  token : p.parserCheck .META_VALUE = false

/-- What a function of the parser returns: a tree without metadata, and the parser. -/
structure Grown (r : Option AstNode × FluxParser FluxLexer) : Prop where
  tree : ∀ node ∈ r.1, node.NoMeta
  parser : r.2.Valueless

theorem parserNext_valueless (h : ∃ lex, p.source = some (lex, fluxLexerFns)) :
    Ensures (fun _ => True) Valueless p.parserNext := by
  obtain ⟨lex, hsource⟩ := h
  unfold parserNext
  rw [hsource]
  cases htok : p.peekTok with
  | none => exact ⟨⟨lex, rfl⟩, rfl⟩
  | some tok =>
    have htype := lex.next_type
    simp only [fluxLexerFns]
    cases hnext : lex.fluxLexerNext with
    | error e => trivial
    | ok r =>
      rw [hnext] at htype
      refine ⟨⟨r.2, rfl⟩, ?_⟩
      exact decide_eq_false htype

theorem Valueless.next (h : p.Valueless) : Ensures (fun _ => True) Valueless p.parserNext :=
  parserNext_valueless h.source

theorem Valueless.next_turn (h : p.Valueless) :
    Ensures (fun _ => True) (fun next => ∀ q, next = some q → q.Valueless) (some <$> p.parserNext) := by
  rw [ensures_map]
  refine h.next.imp fun p hp q hq => ?_
  rw [← Option.some.inj hq]
  exact hp

theorem Valueless.skipNewlines (h : p.Valueless) :
    Ensures (fun _ => True) Valueless (p.parserSkipNewlines fuel) := by
  refine ensures_loop_of_keeps trivial (fun p hp => ?_) h
  exact (ensures_ite _ _ _ _ _).2 ⟨fun _ => hp.next_turn, fun _ => by simp⟩

theorem Valueless.skipToSection (h : p.Valueless) :
    Ensures (fun _ => True) Valueless (p.parserSkipToSection fuel) := by
  refine ensures_loop_of_keeps trivial (fun p hp => ?_) h
  exact (ensures_ite _ _ _ _ _).2 ⟨fun _ => by simp, fun _ => hp.next_turn⟩

theorem Valueless.alloc (h : p.Valueless) (hfields : fields.type ≠ .META) : Grown (p.astAlloc fields) := by
  unfold astAlloc
  split
  · refine ⟨fun node hnode => ?_, h.source, h.token⟩
    rw [← Option.some.inj hnode]
    exact AstNode.noMeta_leaf hfields
  · exact ⟨by simp, h⟩

/-! ## Sections -/

variable {func body : AstNode}

theorem functionTurn_keeps (hp : p.Valueless) (hfunc : func.NoMeta) (hbody : body.NoMeta) :
    Ensures (fun _ => True) (fun next => ∀ t, next = some t → t.1.Valueless ∧ t.2.1.NoMeta ∧ t.2.2.NoMeta)
      (functionTurn fuel (p, func, body)) := by
  unfold functionTurn
  simp only
  refine (ensures_ite _ _ _ _ _).2 ⟨fun _ => by simp, fun _ => ?_⟩
  refine (ensures_ite _ _ _ _ _).2 ⟨fun _ => ?_, fun _ => (ensures_ite _ _ _ _ _).2 ⟨fun _ => ?_, fun _ => ?_⟩⟩
  · refine hp.next.bind fun p hp => hp.skipNewlines.bind fun p hp => ?_
    have hcode : Grown (p.astMakeCodeInjection p.parserPeekText p.parserPeekLang) := hp.alloc (by simp)
    cases hr : p.astMakeCodeInjection p.parserPeekText p.parserPeekLang with
    | mk node q =>
      rw [hr] at hcode
      cases node with
      | none =>
        rintro t ⟨⟩
        exact ⟨hcode.parser, hfunc, hbody⟩
      | some node =>
        rintro t ⟨⟩
        exact ⟨hcode.parser, AstNode.NoMeta.withFields (f := ({ · with codeText := _ })) hfunc rfl,
          hbody.addChild hcode.tree⟩
  · refine hp.next.bind fun p hp => ?_
    rw [if_neg (by simp [hp.token])]
    rintro t ⟨⟩
    exact ⟨hp, hfunc, hbody⟩
  · refine hp.next.bind fun p hp => ?_
    rintro t ⟨⟩
    exact ⟨hp, hfunc, hbody⟩

theorem addParams_grown (hp : p.Valueless) (hfunc : func.NoMeta) (params : List UInt8) :
    (p.addParams func params).1.NoMeta ∧ (p.addParams func params).2.Valueless := by
  unfold addParams
  generalize commaSeparated params = parts
  induction parts generalizing p func with
  | nil => exact ⟨hfunc, hp⟩
  | cons part parts ih =>
    have hparam : Grown (p.astMakeParam (parseParam part).1 (parseParam part).2) := hp.alloc (by simp)
    exact ih hparam.parser (hfunc.addChild hparam.tree)

theorem functionSection_grown (hp : p.Valueless) : Ensures (fun _ => True) Grown (p.parseFunctionSection fuel) := by
  unfold parseFunctionSection
  refine hp.next.bind fun p hp => hp.skipNewlines.bind fun p hp => ?_
  simp only
  generalize parseSignature p.parserPeekText = sig
  have hmake : Grown (p.astMakeFunction sig.name) := hp.alloc (by simp)
  generalize p.astMakeFunction sig.name = r at hmake
  obtain ⟨_ | func, p⟩ := r
  · exact hmake
  · have hfunc := (hmake.tree func rfl).withFields
      (f := ({ · with typeName := printed 64 sig.retType, hasType := true })) rfl
    have hparams := addParams_grown hmake.parser hfunc sig.params
    simp only
    generalize p.addParams _ sig.params = r at hparams
    obtain ⟨func, p⟩ := r
    have hblock : Grown p.astMakeBlock := hparams.2.alloc (by simp)
    simp only
    generalize p.astMakeBlock = r at hblock
    obtain ⟨_ | body, q⟩ := r
    · exact ⟨hparams.1.some, hblock.parser⟩
    · refine (ensures_loop_of_keeps (I := fun t => t.1.Valueless ∧ t.2.1.NoMeta ∧ t.2.2.NoMeta) trivial
        (fun t ht => functionTurn_keeps ht.1 ht.2.1 ht.2.2)
        ⟨hblock.parser, hparams.1, hblock.tree body rfl⟩).bind fun t ht => ?_
      exact ⟨(ht.2.1.addChild ht.2.2.some).some, ht.1⟩

variable {onMeta : List UInt8 → List UInt8 → Option AstNode → Except ParseFault (Option AstNode)}

theorem noMeta_astAddChild {child : Option AstNode} (hnode : ∀ n ∈ node, n.NoMeta) (hchild : ∀ c ∈ child, c.NoMeta) :
    ∀ n ∈ astAddChild node child, n.NoMeta := by
  cases node with
  | none => simp [astAddChild]
  | some n => exact ((hnode n rfl).addChild hchild).some

theorem bodyTurn_keeps (hp : p.Valueless) (hnode : ∀ n ∈ node, n.NoMeta) (hbody : body.NoMeta) :
    Ensures (fun _ => True) (fun next => ∀ t, next = some t →
      t.1.Valueless ∧ (∀ n ∈ t.2.1, n.NoMeta) ∧ t.2.2.NoMeta) (bodyTurn onMeta (p, node, body)) := by
  unfold bodyTurn
  simp only
  refine (ensures_ite _ _ _ _ _).2 ⟨fun _ => by simp, fun _ => ?_⟩
  refine (ensures_ite _ _ _ _ _).2 ⟨fun _ => ?_, fun _ => (ensures_ite _ _ _ _ _).2 ⟨fun _ => ?_, fun _ => ?_⟩⟩
  · refine hp.next.bind fun p hp => ?_
    have hcode : Grown (p.astMakeCodeInjection p.parserPeekText p.parserPeekLang) := hp.alloc (by simp)
    rintro t ⟨⟩
    exact ⟨hcode.parser, hnode, hbody.addChild hcode.tree⟩
  · refine hp.next.bind fun p hp => ?_
    rw [if_neg (by simp [hp.token])]
    rintro t ⟨⟩
    exact ⟨hp, hnode, hbody⟩
  · refine hp.next.bind fun p hp => ?_
    rintro t ⟨⟩
    exact ⟨hp, hnode, hbody⟩

theorem parseBody_grown (hp : p.Valueless) (hnode : ∀ n ∈ node, n.NoMeta) :
    Ensures (fun _ => True) Grown (p.parseBody fuel onMeta node) := by
  unfold parseBody
  have hblock : Grown p.astMakeBlock := hp.alloc (by simp)
  generalize p.astMakeBlock = r at hblock
  obtain ⟨_ | body, q⟩ := r
  · exact ⟨hnode, hblock.parser⟩
  · refine (ensures_loop_of_keeps (I := fun t => t.1.Valueless ∧ (∀ n ∈ t.2.1, n.NoMeta) ∧ t.2.2.NoMeta) trivial
      (fun t ht => bodyTurn_keeps ht.1 ht.2.1 ht.2.2)
      ⟨hblock.parser, hnode, hblock.tree body rfl⟩).bind fun t ht => ?_
    exact ⟨noMeta_astAddChild ht.2.1 ht.2.2.some, ht.1⟩

theorem regionTurn_keeps (hp : p.Valueless) (hnode : ∀ n ∈ node, n.NoMeta) :
    Ensures (fun _ => True) (fun next => ∀ t, next = some t → t.1.Valueless ∧ ∀ n ∈ t.2, n.NoMeta)
      (regionTurn (p, node)) := by
  unfold regionTurn
  simp only
  refine (ensures_ite _ _ _ _ _).2 ⟨fun _ => by simp, fun _ => (ensures_ite _ _ _ _ _).2 ⟨fun _ => ?_, fun _ => ?_⟩⟩
  · refine hp.next.bind fun p hp => ?_
    rw [if_neg (by simp [hp.token])]
    rintro t ⟨⟩
    exact ⟨hp, hnode⟩
  · refine hp.next.bind fun p hp => ?_
    rintro t ⟨⟩
    exact ⟨hp, hnode⟩

theorem agentSection_grown (hp : p.Valueless) : Ensures (fun _ => True) Grown (p.parseAgentSection fuel) := by
  refine hp.next.bind fun p hp => hp.skipNewlines.bind fun p hp => ?_
  have hmake : Grown (p.astMakeAgentOp (sectionName "agent" p.parserPeekText) (bytes "agent")) := hp.alloc (by simp)
  exact parseBody_grown hmake.parser hmake.tree

theorem tileSection_grown (hp : p.Valueless) : Ensures (fun _ => True) Grown (p.parseTileSection fuel) := by
  refine hp.next.bind fun p hp => hp.skipNewlines.bind fun p hp => ?_
  have hmake : Grown (p.astMakeTile (sectionName "tile" p.parserPeekText) (bytes "compute")) := hp.alloc (by simp)
  exact parseBody_grown hmake.parser hmake.tree

theorem regionSection_grown (hp : p.Valueless) : Ensures (fun _ => True) Grown (p.parseRegionSection fuel) := by
  refine hp.next.bind fun p hp => hp.skipNewlines.bind fun p hp => ?_
  have hmake : Grown (p.astMakeRegion (sectionName "region" p.parserPeekText) 4096 (bytes "rw")) := hp.alloc (by simp)
  refine (ensures_loop_of_keeps (I := fun t => t.1.Valueless ∧ ∀ n ∈ t.2, n.NoMeta) trivial
    (fun t ht => regionTurn_keeps ht.1 ht.2) ⟨hmake.parser, hmake.tree⟩).bind fun t ht => ?_
  exact ⟨ht.2, ht.1⟩

theorem parseSection_grown (hp : p.Valueless) : Ensures (fun _ => True) Grown (p.parseSection fuel) := by
  unfold parseSection
  split
  · exact functionSection_grown hp
  · exact agentSection_grown hp
  · exact tileSection_grown hp
  · exact regionSection_grown hp
  · exact hp.next.bind fun p hp => hp.alloc (by simp)
  · exact hp.next.bind fun p hp => hp.alloc (by simp)
  · exact hp.next.bind fun p hp => hp.skipToSection.bind fun p hp => ⟨by simp, hp⟩

/-! ## Documents -/

theorem moduleTurn_keeps (hp : p.Valueless) (hbody : body.NoMeta) :
    Ensures (fun _ => True) (fun next => ∀ t, next = some t → t.1.Valueless ∧ t.2.NoMeta)
      (moduleTurn fuel (p, body)) := by
  have hdone {p : FluxParser FluxLexer} (hp : p.Valueless) :
      ∀ t, some (p, body) = some t → t.1.Valueless ∧ t.2.NoMeta := by
    rintro t ⟨⟩
    exact ⟨hp, hbody⟩
  unfold moduleTurn
  simp only
  refine (ensures_ite _ _ _ _ _).2 ⟨fun _ => by simp, fun _ => hp.skipNewlines.bind fun p hp => ?_⟩
  refine (ensures_ite _ _ _ _ _).2 ⟨fun _ => hdone hp, fun _ => ?_⟩
  refine (ensures_ite _ _ _ _ _).2 ⟨fun _ => hp.next.bind fun p hp => hdone hp, fun _ => ?_⟩
  refine (ensures_ite _ _ _ _ _).2 ⟨fun _ => (parseSection_grown hp).bind fun r hr => ?_, fun _ => ?_⟩
  · rintro t ⟨⟩
    exact ⟨hr.parser, hbody.addChild hr.tree⟩
  refine (ensures_ite _ _ _ _ _).2 ⟨fun _ => ?_, fun _ => ?_⟩
  · exact hp.next.bind fun p hp => hp.skipToSection.bind fun p hp => hdone hp
  refine (ensures_ite _ _ _ _ _).2 ⟨fun _ => hp.next.bind fun p hp => ?_, fun _ => ?_⟩
  · have hcode : Grown (p.astMakeCodeInjection p.parserPeekText p.parserPeekLang) := hp.alloc (by simp)
    rintro t ⟨⟩
    exact ⟨hcode.parser, hbody.addChild hcode.tree⟩
  refine (ensures_ite _ _ _ _ _).2 ⟨fun _ => hp.next.bind fun p hp => ?_, fun _ => ?_⟩
  · rw [if_neg (by simp [hp.token])]
    exact hdone hp
  · exact hp.next.bind fun p hp => hdone hp

theorem parseModule_grown (hp : p.Valueless) (name : List UInt8) :
    Ensures (fun _ => True) Grown (p.parseModule fuel name) := by
  unfold parseModule
  have hmake : Grown (p.astMakeModule name) := hp.alloc (by simp)
  generalize p.astMakeModule name = r at hmake
  obtain ⟨_ | module, q⟩ := r
  · exact hmake
  · refine (ensures_loop_of_keeps (I := fun t => t.1.Valueless ∧ t.2.NoMeta) trivial
      (fun t ht => moduleTurn_keeps ht.1 ht.2) ⟨hmake.parser, hmake.tree module rfl⟩).bind fun t ht => ?_
    exact ⟨ht.2.some, ht.1⟩

/-- The parse of a document with the lexer has no node for metadata. -/
theorem fluxParserParse_grown (h : ∃ lex, p.source = some (lex, fluxLexerFns)) :
    Ensures (fun _ => True) Grown (p.fluxParserParse fuel) := by
  refine (parserNext_valueless (p := { p with pool := 0, numErrors := 0 }) h).bind fun p hp => ?_
  refine Ensures.bind (R := fun r => r.2.Valueless) ?_ fun r hr => parseModule_grown hr r.1
  exact (ensures_ite _ _ _ _ _).2 ⟨fun _ => hp.next.bind fun p hp => hp.skipNewlines.bind fun p hp => hp,
    fun _ => hp⟩

end FluxParser

/-! ## The lines of a document -/

/-- The parser of a document, with a buffer for the token. -/
def bufferedParser (lex : FluxLexer) (buffer : FluxToken) : FluxParser FluxLexer :=
  { (fluxParserInit FluxLexer).fluxParserSetLexer lex fluxLexerFns with peekTok := some buffer }

/-- The parse of the document has a node for the metadata, at the module or at one of its sections. -/
def AttachesMeta (lex : FluxLexer) (buffer : FluxToken) (key value : List UInt8) : Prop :=
  ∃ fuel module p, (bufferedParser lex buffer).fluxParserParse fuel = .ok (some module, p) ∧
    (module.HasMeta key value ∨ ∃ s ∈ module.children, s.HasMeta key value)

theorem not_attachesMeta (lex : FluxLexer) (buffer : FluxToken) (key value : List UInt8) :
    ¬ AttachesMeta lex buffer key value := by
  rintro ⟨fuel, module, p, hparse, hmeta⟩
  have hgrown := (FluxParser.fluxParserParse_grown ⟨lex, rfl⟩).of_ok hparse
  have hmodule := hgrown.tree module rfl
  rcases hmeta with h | ⟨s, hs, h⟩
  · exact hmodule.not_hasMeta key value h
  · exact (hmodule.children s hs).not_hasMeta key value h

/-- The metadata line in front of `l`, a lexer of the document that starts at `lex`, becomes the tokens of its key and
its value, and the parse of the document attaches it. -/
def MetadataRight (lex l : FluxLexer) (buffer : FluxToken) (key value : List UInt8) : Prop :=
  l.LexesToPair key value ∧ AttachesMeta lex buffer key value

/-- No line becomes the tokens of a key and a value, and no parse attaches a metadata entry. -/
theorem metadata_never_right (lex l : FluxLexer) (buffer : FluxToken) (key value : List UInt8) :
    ¬ l.LexesToPair key value ∧ ¬ AttachesMeta lex buffer key value :=
  ⟨FluxLexer.not_lexesToPair l key value, not_attachesMeta lex buffer key value⟩

/-- The document `key: value`. -/
theorem metadataLine_not_right : ∃ lex l, fluxLexerInit (bytes "key: value\n") = .ok lex ∧
    lex.fluxLexerCalls 0 = .ok l ∧ l.MetadataLine (bytes "key") (bytes "value") ∧
    ¬ MetadataRight lex l fluxTokenInit (bytes "key") (bytes "value") := by
  refine ⟨⟨bytes "key: value\n", 0, 1, 1, 0⟩, ⟨bytes "key: value\n", 0, 1, 1, 0⟩, by decide, rfl,
    ⟨rfl, by decide, by decide +kernel, by decide, by decide, ?_⟩, ?_⟩
  · exact ⟨bytes "\n", by decide, by decide⟩
  · exact fun h => FluxLexer.not_lexesToPair _ _ _ h.1

end FluxOs
