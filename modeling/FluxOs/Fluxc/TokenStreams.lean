import FluxOs.Fluxc.Parser

/-!
# Token streams and the nodes of their syntax tree

A parser may be set on any lexer.  Here the lexer returns the tokens of a stream that ends in a repeated
`TOK_EOF`.  `placeAt` says in what part of the document a token stands, and `requested` how many nodes the
tokens in front of it call for, the module included; the node pool has room for 4096.
-/

namespace FluxOs

/-- A stream of tokens that ends in a repeated `TOK_EOF`, with what the lexer's `line` function answers. -/
structure TokenStream where
  token : Nat → FluxToken
  line : Nat → Int32
  length : Nat
  eof : ∀ k, length ≤ k → (token k).type = .EOF

/-- The part of a document that a token stands in. -/
inductive Place
  /-- No section, or behind an import or an export. -/
  | module
  /-- The body of a function, an agent or a tile. -/
  | body
  /-- The body of a region. -/
  | region
  /-- A part that the parser skips. -/
  | skipped
  deriving DecidableEq, Repr

namespace TokenStream

variable (s : TokenStream)

/-! ## The parser of a stream -/

/-- The lexer of the stream, whose state is the number of tokens that were read. -/
def fns : LexerFns Nat where
  nextFn k buffer := pure (k + 1, buffer.map fun _ => s.token k)
  lineFn := s.line

/-- The parser of the stream, with a buffer for the token. -/
def parser (buffer : FluxToken) : FluxParser Nat :=
  { (fluxParserInit Nat).fluxParserSetLexer 0 s.fns with peekTok := some buffer }

/-! ## Tokens -/

def type (k : Nat) : TokenType := (s.token k).type

def text (k : Nat) : List UInt8 := cString (s.token k).text

/-- The heading level of a token, `0` if it is no heading. -/
def level (k : Nat) : Int32 := if s.type k = .HEADING then (s.token k).headingLevel else 0

/-- The loops over the body of a section end at this token. -/
def Ends (k : Nat) : Prop := s.type k = .EOF ∨ s.level k = 1 ∨ s.level k = 2

instance (k : Nat) : Decidable (s.Ends k) := inferInstanceAs (Decidable (_ ∨ _))

/-- An entry of metadata, a key and a value, starts at this token. -/
def EntryAt (k : Nat) : Prop := s.type k = .META_KEY ∧ s.type (k + 1) = .META_VALUE

instance (k : Nat) : Decidable (s.EntryAt k) := inferInstanceAs (Decidable (_ ∧ _))

/-- The first of `n` tokens from `k` on that is not a newline. -/
def pastNewlinesOf : Nat → Nat → Nat
  | 0, k => k
  | n + 1, k => if s.type k = .NEWLINE then pastNewlinesOf n (k + 1) else k

/-- The first token from `k` on that is not a newline. -/
def pastNewlines (k : Nat) : Nat := s.pastNewlinesOf (s.length - k) k

/-! ## Places -/

/-- The place behind a heading of level 2. -/
def sectionPlace (k : Nat) : Place :=
  match sectionKind (s.text k) with
  | some .FUNCTION | some .AGENT_OP | some .TILE => .body
  | some .REGION => .region
  | some .IMPORT | some .EXPORT => .module
  | _ => .skipped

/-- The place behind the token `k`, which stands in `place`. -/
def placeAfter (place : Place) (k : Nat) : Place :=
  if s.level k = 1 then .module
  else if s.level k = 2 then s.sectionPlace k
  else if 3 ≤ s.level k ∧ place = .module then .skipped
  else place

/-- The place of the token `k`. -/
def placeAt : Nat → Place
  | 0 => .module
  | k + 1 => s.placeAfter (placeAt k) k

/-! ## Nodes -/

/-- The parameters of the function whose signature is the text of token `k`. -/
def params (k : Nat) : List (List UInt8) := commaSeparated (parseSignature (s.text k)).params

/-- The nodes that the heading `k` of a section calls for.  The signature of a function is read when the
buffer holds the first token of its body. -/
def sectionNodes (k : Nat) : Nat :=
  match sectionKind (s.text k) with
  | some .FUNCTION => 2 + (s.params (s.pastNewlines (k + 1))).length
  | some .AGENT_OP | some .TILE => 2
  | some .REGION | some .IMPORT | some .EXPORT => 1
  | _ => 0

/-- The nodes that the token `k` calls for. -/
def nodesAt (k : Nat) : Nat :=
  if s.level k = 2 then s.sectionNodes k
  else if s.type k = .CODE_BLOCK then if s.placeAt k = .module ∨ s.placeAt k = .body then 1 else 0
  else if s.EntryAt k then if s.placeAt k = .skipped then 0 else 1
  else 0

/-- The nodes that the module and the tokens in front of `k` call for. -/
def requested : Nat → Nat
  | 0 => 1
  | k + 1 => requested k + s.nodesAt k

/-! ## Entries of a region -/

/-- A region starts with the heading `r`. -/
def OpensRegion (r : Nat) : Prop := s.level r = 2 ∧ sectionKind (s.text r) = some .REGION

/-- An entry of the region with the heading `r` starts at `k` and, when it is read, the buffer holds the key
of a field of the region.  The buffer holds the token behind the entry by then. -/
structure SetsField (r k : Nat) : Prop where
  reached : ∀ j, j < r → s.type j ≠ .EOF
  opens : s.OpensRegion r
  behind : r < k
  body : ∀ j, r < j → j ≤ k → ¬ s.Ends j
  entry : s.EntryAt k
  key : s.text (k + 2) = bytes "size" ∨ s.text (k + 2) = bytes "perm"

/-- Every region with an entry that sets a field has a node: its heading comes while the pool has room. -/
def FieldsHaveNodes : Prop := ∀ r k, s.SetsField r k → s.requested r < astPoolSize

variable {s} {k r j : Nat}

/-! ## Facts about places -/

theorem type_ne_of_not_ends (h : ¬ s.Ends k) : s.type k ≠ .EOF := fun heof => h (.inl heof)

theorem level_eq_zero (h : s.type k ≠ .HEADING) : s.level k = 0 := if_neg h

theorem lt_length (h : s.type k ≠ .EOF) : k < s.length := by
  apply Nat.lt_of_not_le
  exact fun hle => h (s.eof k hle)

theorem requested_mono (hle : j ≤ k) : s.requested j ≤ s.requested k := by
  induction hle with
  | refl => exact Nat.le_refl _
  | step _ ih => exact Nat.le_trans ih (Nat.le_add_right _ _)

theorem placeAt_succ_of_zero (h : s.level k = 0) : s.placeAt (k + 1) = s.placeAt k := by
  show s.placeAfter _ _ = _
  rw [placeAfter, h, if_neg (by decide), if_neg (by decide), if_neg (fun h => absurd h.1 (by decide))]

theorem placeAt_succ_of_section (h : s.level k = 2) : s.placeAt (k + 1) = s.sectionPlace k := by
  show s.placeAfter _ _ = _
  rw [placeAfter, h, if_neg (by decide), if_pos rfl]

theorem placeAt_succ_of_not_ends (h : ¬ s.Ends k) :
    s.placeAt (k + 1) = if 3 ≤ s.level k ∧ s.placeAt k = .module then .skipped else s.placeAt k := by
  show s.placeAfter _ _ = _
  rw [placeAfter, if_neg fun hk => h (.inr (.inl hk)), if_neg fun hk => h (.inr (.inr hk))]

/-- The body of a region is the region's place. -/
theorem placeAt_of_region (hr : s.OpensRegion r) (hlt : r < k) (hbody : ∀ j, r < j → j < k → ¬ s.Ends j) :
    s.placeAt k = .region := by
  induction k with
  | zero => exact absurd hlt (Nat.not_lt_zero r)
  | succ k ih =>
    rcases Nat.eq_or_lt_of_le (Nat.le_of_lt_succ hlt) with rfl | hlt
    · rw [placeAt_succ_of_section hr.1, sectionPlace, hr.2]
    · have hk := ih hlt fun j hj hle => hbody j hj (Nat.lt_succ_of_lt hle)
      rw [placeAt_succ_of_not_ends (hbody k hlt (Nat.lt_succ_self k)), hk, if_neg (by simp)]

theorem SetsField.placeAt_eq (h : s.SetsField r k) : s.placeAt k = .region :=
  placeAt_of_region h.opens h.behind fun j hj hlt => h.body j hj (Nat.le_of_lt hlt)

theorem SetsField.type_ne (h : s.SetsField r k) (hle : j ≤ k) : s.type j ≠ .EOF := by
  rcases Nat.lt_trichotomy j r with hlt | rfl | hlt
  · exact h.reached j hlt
  · intro heof
    have hzero := level_eq_zero (s := s) (k := j) (by simp [heof])
    rw [h.opens.1] at hzero
    exact absurd hzero (by decide)
  · exact type_ne_of_not_ends (h.body j hlt hle)

/-- A token stands in the region of one heading only. -/
theorem SetsField.opens_eq {r' : Nat} (h : s.SetsField r k) (hr : s.OpensRegion r') (hlt : r' < k)
    (hbody : ∀ j, r' < j → j ≤ k → ¬ s.Ends j) : r = r' := by
  rcases Nat.lt_trichotomy r r' with hless | heq | hmore
  · exact absurd (.inr (.inr hr.1)) (h.body r' hless (Nat.le_of_lt hlt))
  · exact heq
  · exact absurd (.inr (.inr h.opens.1)) (hbody r hmore (Nat.le_of_lt h.behind))

end TokenStream

end FluxOs
