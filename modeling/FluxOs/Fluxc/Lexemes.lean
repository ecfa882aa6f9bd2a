import FluxOs.Fluxc.ExactPositions
import FluxOs.Fluxc.LexerBounds
import FluxOs.Fluxc.SourceDocuments
import FluxOs.Fluxc.Strings

/-!
# What the tokens are made of

The calls of `flux_lexer_next` lose nothing of the source.  In front of a token stand blanks and comments only, as
`Gap` describes them, and the token carries the bytes that the call goes over, as `Lexeme` says for the kinds of
tokens: most are copied as they are, up to the size of the text, and the quotes and fences around the others belong
to the token as well.
-/

namespace FluxOs

open Faulting

/-! ## Pieces of a source -/

def fence : List UInt8 := [backquote, backquote, backquote]

def dashes : List UInt8 := bytes "---"

/-- The text of a token is the bytes `w`, cut to the size that it has room for.  Their number is kept in 32 bits. -/
def Copies (text w : List UInt8) : Prop := text = w.take (min (w.length % 2 ^ 32) (fluxTokenTextMax - 1))

/-- Bytes for which there is room are all copied. -/
theorem copies_of_room {w : List UInt8} (h : w.length < fluxTokenTextMax) : Copies w w := by
  have hmax : fluxTokenTextMax < 2 ^ 32 := by decide
  rw [Copies, Nat.mod_eq_of_lt (by omega), Nat.min_eq_left (by omega), List.take_length]

/-- No `mark` begins in `body`, in front of `r`. -/
def Free (mark body r : List UInt8) : Prop := ∀ a b, body = a ++ b → b ≠ [] → ¬ mark <+: b ++ r

theorem free_nil (mark r : List UInt8) : Free mark [] r :=
  fun _ _ hab hb => absurd (List.append_eq_nil_iff.1 hab.symm).2 hb

theorem Free.cons {mark body r : List UInt8} {c : UInt8} (hc : ¬ mark <+: c :: body ++ r) (h : Free mark body r) :
    Free mark (c :: body) r := by
  intro a b hab hb
  cases a with
  | nil =>
    obtain rfl : c :: body = b := hab
    exact hc
  | cons d a => exact h a b (List.cons.inj hab).2 hb

/-- The bytes `w` of a block comment, in front of `r`, lead from one depth of nesting to another. -/
inductive Nests (r : List UInt8) : Nat → List UInt8 → Nat → Prop
  | nil (d : Nat) : Nests r d [] d
  | opens {d e : Nat} {w : List UInt8} : Nests r (d + 2) w e → Nests r (d + 1) ('/'.toUInt8 :: '*'.toUInt8 :: w) e
  | closes {d e : Nat} {w : List UInt8} : Nests r d w e → Nests r (d + 1) ('*'.toUInt8 :: '/'.toUInt8 :: w) e
  | other {d e : Nat} {c : UInt8} {w : List UInt8} : ¬ (c = '/'.toUInt8 ∧ (w ++ r).head? = some '*'.toUInt8) →
      ¬ (c = '*'.toUInt8 ∧ (w ++ r).head? = some '/'.toUInt8) → Nests r (d + 1) w e → Nests r (d + 1) (c :: w) e

/-- Blanks and comments in front of `r`.  A comment that is not closed leaves the last byte of the source. -/
inductive Gap (r : List UInt8) : List UInt8 → Prop
  | nil : Gap r []
  | blank {c : UInt8} {w : List UInt8} : isBlank c = true → Gap r w → Gap r (c :: w)
  | line {body w : List UInt8} : newline ∉ body → (∀ c ∈ (w ++ r).head?, c = newline) → Gap r w →
      Gap r (bytes "//" ++ body ++ w)
  | block {body w : List UInt8} {d : Nat} : Nests (w ++ r) 1 body d → (0 < d → (w ++ r).length ≤ 1) → Gap r w →
      Gap r (bytes "/*" ++ body ++ w)

/-- The spelling of the text of a string in front of `r`: a backslash stands for itself only at the end of
the source. -/
inductive Spells (quote : UInt8) (r : List UInt8) : List UInt8 → List UInt8 → Prop
  | nil : Spells quote r [] []
  | plain {c : UInt8} {s text : List UInt8} : c ≠ quote → (c = backslash → s ++ r = []) → Spells quote r s text →
      Spells quote r (c :: s) (c :: text)
  | escaped {e : UInt8} {s text : List UInt8} : ¬ (e ≠ '0'.toUInt8 ∧ isOctal e = true) → Spells quote r s text →
      Spells quote r (backslash :: e :: s) (FluxLexer.escape e :: text)
  | octal {d : UInt8} {ds s text : List UInt8} : d ≠ '0'.toUInt8 → (∀ e ∈ d :: ds, isOctal e = true) →
      ds.length ≤ 2 → (ds.length = 2 ∨ (s ++ r).head?.any isOctal = false) → Spells quote r s text →
      Spells quote r (backslash :: (d :: ds ++ s)) (UInt8.ofNat (digitsValue 8 (d :: ds)) :: text)

/-- A token of this type carries the bytes that it is made of. -/
def TokenType.Copied (type : TokenType) : Prop :=
  type ≠ .EOF ∧ type ≠ .CODE_BLOCK ∧ type ≠ .INLINE_CODE ∧ type ≠ .STRING

instance (type : TokenType) : Decidable type.Copied := inferInstanceAs (Decidable (_ ∧ _ ∧ _ ∧ _))

/-- The bytes of a token, in front of `r`. -/
inductive Lexeme (tok : FluxToken) : List UInt8 → List UInt8 → Prop
  /-- Only the end of the source is a `TOK_EOF`. -/
  | eof : tok.type = .EOF → Lexeme tok [] []
  | copied {w r : List UInt8} : tok.type.Copied → Copies tok.text w → Lexeme tok w r
  | inlineCode {body close r : List UInt8} : tok.type = .INLINE_CODE → backquote ∉ body → Copies tok.text body →
      close = [backquote] ∨ close = [] ∧ r = [] → Lexeme tok (backquote :: (body ++ close)) r
  | codeBlock {lang info eol body close r : List UInt8} : tok.type = .CODE_BLOCK → newline ∉ lang ++ info →
      tok.lang = lang → eol = [newline] ∨ eol ++ body ++ close ++ r = [] →
      Free fence body (close ++ r) → Copies tok.text body →
      close = fence ∨ close = fence ++ [newline] ∨ close ++ r = [] →
      Lexeme tok (fence ++ lang ++ info ++ eol ++ body ++ close) r
  /-- What is skipped behind a text that is full need not be a quote. -/
  | string {quote : UInt8} {s close r : List UInt8} : tok.type = .STRING → quote = doubleQuote ∨ quote = singleQuote →
      Spells quote (close ++ r) s tok.text →
      (∃ c, close = [c] ∧ (c = quote ∨ fluxTokenTextMax - 1 ≤ tok.text.length)) ∨ close ++ r = [] →
      Lexeme tok (quote :: (s ++ close)) r

/-- The end of the frontmatter, in front of `r`. -/
def ClosesFrontmatter (close r : List UInt8) : Prop :=
  close = dashes ∧ r.head? ≠ some newline ∨ close = dashes ++ [newline]

/-- The frontmatter of a document in front of `r`.  One that is not closed leaves the last two bytes. -/
inductive Frontmatter (r : List UInt8) : List UInt8 → Prop
  | none : ¬ dashes <+: r → Frontmatter r []
  | closed {body close : List UInt8} : Free dashes body (close ++ r) → ClosesFrontmatter close r →
      Frontmatter r (dashes ++ body ++ close)
  | unclosed {body : List UInt8} : Free dashes body r → r.length ≤ 2 → Frontmatter r (dashes ++ body)

/-- The tokens of a text in front of `r`, with blanks and comments in front of each. -/
inductive Lexed (r : List UInt8) : List FluxToken → List UInt8 → Prop
  | nil : Lexed r [] []
  | cons {tok : FluxToken} {toks : List FluxToken} {gap w text : List UInt8} : Gap (w ++ text ++ r) gap →
      Lexeme tok w (text ++ r) → Lexed r toks text → Lexed r (tok :: toks) (gap ++ w ++ text)

namespace FluxLexer

variable {lex l l' : FluxLexer} {c : UInt8} {p : UInt8 → Bool} {w v r text : List UInt8} {start : Nat}

/-! ## Going over bytes -/

/-- From `lex` to `l` the lexer goes over the bytes `w`. -/
structure Consumes (lex : FluxLexer) (w : List UInt8) (l : FluxLexer) : Prop where
  source : l.source = lex.source
  pos : l.pos = lex.pos + w.length
  rest : lex.rest = w ++ l.rest

theorem Consumes.refl (lex : FluxLexer) : Consumes lex [] lex := ⟨rfl, rfl, rfl⟩

theorem Consumes.trans (h : Consumes lex w l) (h' : Consumes l v l') : Consumes lex (w ++ v) l' := by
  refine ⟨h'.source.trans h.source, ?_, ?_⟩
  · rw [h'.pos, h.pos, List.length_append, Nat.add_assoc]
  · rw [h.rest, h'.rest, List.append_assoc]

theorem consumes_of_moves (h : Moves lex w.length l) (hrest : lex.rest = w ++ r) : Consumes lex w l := by
  refine ⟨h.source, h.pos, ?_⟩
  rw [h.rest_of_append hrest, hrest]

theorem consumes_advance (hrest : lex.rest = w ++ r) : Consumes lex w (lex.advance w.length) :=
  consumes_of_moves (moves_advance lex _) hrest

theorem consumes_advanceOver (hrest : lex.rest = c :: r) : Consumes lex [c] (lex.advanceOver c) :=
  consumes_of_moves (moves_advanceOver lex c) hrest

theorem consumes_advanceLine (hrest : lex.rest = newline :: r) : Consumes lex [newline] lex.advanceLine :=
  consumes_of_moves ⟨rfl, rfl⟩ hrest

theorem Consumes.slice_eq (h : Consumes lex w l) : l.slice lex.pos = w := by
  have hmoves : Moves lex w.length l := ⟨h.source, h.pos⟩
  rw [hmoves.slice_eq, h.rest, List.take_left]

theorem Consumes.inside (h : Consumes lex w l) (hpos : lex.pos ≤ lex.sourceLen) : l.pos ≤ l.sourceLen := by
  have hlen := congrArg List.length h.rest
  have hsource : l.sourceLen = lex.sourceLen := congrArg List.length h.source
  rw [List.length_append, length_rest, length_rest] at hlen
  rw [h.pos]
  omega

/-- What lies between two places of the lexer. -/
theorem Reaches.consumes {n : Nat} (h : Reaches lex n l) : Consumes lex (l.slice lex.pos) l := by
  have hforward := Nat.le_trans (Nat.le_add_right _ _) h.forward
  have hmoves : Moves lex (l.pos - lex.pos) l := ⟨h.source, by omega⟩
  have hlen : (l.slice lex.pos).length = l.pos - lex.pos := by
    have hinside := h.inside
    rw [sourceLen] at hinside
    rw [slice, List.length_take, List.length_drop]
    omega
  refine consumes_of_moves (r := l.rest) (hlen ▸ hmoves) ?_
  rw [hmoves.slice_eq, hmoves.rest_eq, List.take_append_drop]

theorem head?_dropWhile_any (p : UInt8 → Bool) (r : List UInt8) : (r.dropWhile p).head?.any p = false := by
  have hnot := List.head?_dropWhile_not p r
  cases hdrop : (r.dropWhile p).head? with
  | none => rfl
  | some c =>
    rw [hdrop] at hnot
    exact hnot

/-- A loop over the bytes of a class goes over all that come first. -/
theorem advanceWhile_consumes (hrest : lex.rest = v ++ r) (hv : ∀ c ∈ v, p c = true) : ∃ w l,
    lex.advanceWhile p = .ok l ∧ Consumes lex (v ++ w) l ∧ (∀ c ∈ w, p c = true) ∧ l.rest.head?.any p = false := by
  have hw : ∀ c ∈ r.takeWhile p, p c = true := fun c hc => List.mem_takeWhile_imp hc
  have hall : lex.rest = (v ++ r.takeWhile p) ++ r.dropWhile p := by
    rw [List.append_assoc, List.takeWhile_append_dropWhile, hrest]
  have hclass : ∀ c ∈ v ++ r.takeWhile p, p c = true := fun c hc => (List.mem_append.1 hc).elim (hv c) (hw c)
  have hmoves := consumes_advance hall
  refine ⟨_, _, advanceWhile_eq hall hclass (head?_dropWhile_any p r), hmoves, hw, ?_⟩
  rw [List.append_cancel_left (hmoves.rest.symm.trans hall)]
  exact head?_dropWhile_any p r

/-- A loop with a counter goes over as many bytes of the class as it counts to. -/
theorem advanceAtMost_consumes (lex : FluxLexer) (p : UInt8 → Bool) (n : Nat) : ∃ w l,
    lex.advanceAtMost n p = .ok l ∧ Consumes lex w l ∧ (∀ c ∈ w, p c = true) ∧ w.length ≤ n ∧
      (w.length = n ∨ l.rest.head?.any p = false) := by
  generalize hds : lex.rest.takeWhile p = ds
  have hsplit : lex.rest = ds.take n ++ (ds.drop n ++ lex.rest.dropWhile p) := by
    rw [← List.append_assoc, List.take_append_drop, ← hds, List.takeWhile_append_dropWhile]
  have hclass : ∀ c ∈ ds.take n, p c = true := fun c hc =>
    List.mem_takeWhile_imp (hds ▸ List.mem_of_mem_take hc)
  have hend : (ds.take n).length = n ∨ (ds.drop n ++ lex.rest.dropWhile p).head?.any p = false := by
    rcases Nat.le_total n ds.length with hle | hle
    · exact .inl (List.length_take_of_le hle)
    · rw [List.drop_eq_nil_of_le hle]
      exact .inr (head?_dropWhile_any p lex.rest)
  obtain ⟨l, hl, hmoves⟩ := advanceAtMost_moves hsplit hclass (List.length_take_le _ _) hend
  have hw := consumes_of_moves hmoves hsplit
  refine ⟨_, l, hl, hw, hclass, List.length_take_le _ _, ?_⟩
  rwa [List.append_cancel_left (hw.rest.symm.trans hsplit)]

theorem toNatClampNeg_ofNat {n : Nat} (h : ¬ Int32.ofNat n < 0) : (Int32.ofNat n).toNatClampNeg = n % 2 ^ 32 := by
  have hnonneg : ¬ (Int32.ofNat n).toInt < 0 := fun hneg => h (Int32.lt_iff_toInt_lt.2 hneg)
  rw [Int32.toInt_ofNat', Int.bmod_def] at hnonneg
  rw [← Int32.toNat_toInt, Int32.toInt_ofNat', Int.bmod_def]
  unfold Int32.size at hnonneg ⊢
  split_ifs at hnonneg ⊢ <;> omega

/-- The copy of a text into a token. -/
theorem copies_of_copyText (hinside : l.pos ≤ l.sourceLen) (h : l.copyText start = .ok text) :
    Copies text (l.slice start) := by
  unfold copyText at h
  simp only at h
  split_ifs at h with hneg
  obtain rfl := Except.ok.inj h
  have hlen : (l.slice start).length = l.pos - start := by
    rw [sourceLen] at hinside
    rw [slice, List.length_take, List.length_drop]
    omega
  rw [Copies, hlen, toNatClampNeg_ofNat hneg]

/-! ## Blanks and comments -/

theorem rest_of_getElem? {d : UInt8} (hc : lex.source[lex.pos]? = some c) (hd : lex.source[lex.pos + 1]? = some d) :
    ∃ r, lex.rest = c :: d :: r := by
  rw [head?_rest] at hc
  rw [getElem?_rest] at hd
  obtain ⟨s, hs⟩ := List.head?_eq_some_iff.1 hc
  rw [hs, List.getElem?_cons_succ, ← List.head?_eq_getElem?] at hd
  obtain ⟨r, rfl⟩ := List.head?_eq_some_iff.1 hd
  exact ⟨r, hs⟩

/-- A turn goes over one or two bytes of the comment. -/
theorem blockCommentTurn_piece (depth : Nat) :
    Ensures anyFault (fun next => next.elim (0 < depth → lex.rest.length ≤ 1) fun t =>
      ∃ piece, Consumes lex piece t.1 ∧
      ∀ r w e, t.1.rest = w ++ r → Nests r t.2 w e → Nests r depth (piece ++ w) e)
      (blockCommentTurn (lex, depth)) := by
  unfold blockCommentTurn
  rw [ensures_ite]
  refine ⟨fun h => ?_, fun h hdepth => ?_⟩
  · obtain ⟨hlt, hdepth⟩ := h
    obtain ⟨c, hc⟩ : ∃ c, lex.source[lex.pos]? = some c := exists_byte (by omega)
    obtain ⟨d, hd⟩ : ∃ d, lex.source[lex.pos + 1]? = some d := exists_byte (by omega)
    obtain ⟨r, hrest⟩ := rest_of_getElem? hc hd
    obtain ⟨n, rfl⟩ := Nat.exists_eq_add_of_lt hdepth
    rw [Nat.zero_add, ensures_byteAt_bind hc, ensures_byteAt_bind hd, ensures_ite, ensures_ite]
    refine ⟨?_, fun hopens => ⟨?_, fun hcloses => ?_⟩⟩
    · rintro ⟨rfl, rfl⟩
      exact ⟨_, consumes_advance (w := ['/'.toUInt8, '*'.toUInt8]) hrest, fun r w e _ h => .opens h⟩
    · rintro ⟨rfl, rfl⟩
      exact ⟨_, consumes_advance (w := ['*'.toUInt8, '/'.toUInt8]) hrest, fun r w e _ h => .closes h⟩
    · have hmoves := consumes_advanceOver hrest
      have hbehind : (lex.advanceOver c).rest = d :: r := (List.cons.inj (hmoves.rest.symm.trans hrest)).2
      refine ⟨[c], hmoves, fun r' w e hw h => ?_⟩
      have hhead : (w ++ r').head? = some d := by rw [← hw, hbehind, List.head?_cons]
      refine Nests.other (w := w) (fun hpair => hopens ?_) (fun hpair => hcloses ?_) h
      · exact ⟨hpair.1, Option.some.inj (hhead.symm.trans hpair.2)⟩
      · exact ⟨hpair.1, Option.some.inj (hhead.symm.trans hpair.2)⟩
  · have hlen := length_rest lex
    omega

/-- A block comment ends where its depth is zero, or one byte in front of the end of the source. -/
theorem blockComment_nests {s t : FluxLexer × Nat} {fuel : Nat}
    (h : Faulting.loop blockCommentTurn .diverged fuel s = .ok t) :
    ∃ w, Consumes s.1 w t.1 ∧ Nests t.1.rest s.2 w t.2 ∧ (0 < t.2 → t.1.rest.length ≤ 1) := by
  refine of_loop (P := fun s t => ∃ w, Consumes s.1 w t.1 ∧ Nests t.1.rest s.2 w t.2 ∧
    (0 < t.2 → t.1.rest.length ≤ 1)) (fun s hs => ?_) (fun s s' t hs ih => ?_) h
  · exact ⟨[], Consumes.refl s.1, .nil _, (blockCommentTurn_piece s.2).of_ok hs⟩
  · obtain ⟨w, hw, hnests, hend⟩ := ih
    obtain ⟨piece, hpiece, hback⟩ := (blockCommentTurn_piece s.2).of_ok hs
    exact ⟨piece ++ w, hpiece.trans hw, hback _ _ _ hw.rest hnests, hend⟩

theorem skipTurn_piece (lex : FluxLexer) :
    Ensures anyFault (fun next => ∀ t, next = some t → ∃ piece, Consumes lex piece t ∧
      ∀ r w, t.rest = w ++ r → Gap r w → Gap r (piece ++ w)) lex.skipTurn := by
  unfold skipTurn
  rw [ensures_ite]
  refine ⟨fun hlt => ?_, fun _ => ?_⟩
  · obtain ⟨c, hc⟩ := exists_byte hlt
    obtain ⟨r, hrest⟩ := exists_rest hc
    rw [ensures_byteAt_bind hc, ensures_ite, ensures_ite]
    refine ⟨?_, fun _ => ⟨?_, fun _ => ?_⟩⟩
    · rintro hblank t ⟨⟩
      exact ⟨[c], consumes_advance hrest, fun r w _ h => .blank hblank h⟩
    · rintro ⟨rfl, hnext⟩
      obtain ⟨d, hd⟩ := exists_byte hnext
      obtain ⟨r, hrest⟩ := rest_of_getElem? hc hd
      rw [ensures_byteAt_bind hd, ensures_ite, ensures_ite]
      refine ⟨?_, fun _ => ⟨?_, fun _ => ?_⟩⟩
      · rintro rfl
        obtain ⟨body, l, hl, hbody, hclass, hend⟩ :=
          advanceWhile_consumes (p := (· ≠ newline)) (v := bytes "//") hrest
          (by decide +kernel)
        refine (ensures_map _ _ _ _).2 (ensures_of_forall (fun t ht => ?_) fun _ _ => trivial)
        obtain rfl : l = t := Except.ok.inj (hl.symm.trans ht)
        rintro _ ⟨⟩
        refine ⟨_, hbody, fun r w hw h => .line (fun hmem => ?_) (fun c hc => ?_) h⟩
        · exact absurd (hclass _ hmem) (by decide)
        · rw [hw, Option.mem_def.1 hc] at hend
          exact of_not_not fun hne => absurd hend (by simp [hne])
      · rintro rfl
        refine (ensures_map _ _ _ _).2 (ensures_of_forall (fun t ht => ?_) fun _ _ => trivial)
        rintro _ ⟨⟩
        obtain ⟨⟨l, depth⟩, hl, ht⟩ := bind_eq_ok.1 ht
        obtain rfl : l = t := Except.ok.inj ht
        obtain ⟨body, hbody, hnests, hend⟩ := blockComment_nests hl
        refine ⟨bytes "/*" ++ body, (consumes_advance (w := bytes "/*") hrest).trans hbody, fun r w hw h => ?_⟩
        rw [hw] at hnests hend
        exact .block hnests hend h
      · rintro t ⟨⟩
    · rintro t ⟨⟩
  · rintro t ⟨⟩

/-- What `flux_lexer_skip_whitespace` goes over. -/
theorem skip_gap (h : lex.fluxLexerSkipWhitespaceAndComments = .ok l) :
    ∃ w, Consumes lex w l ∧ Gap l.rest w := by
  refine of_loop (P := fun lex l => ∃ w, Consumes lex w l ∧ Gap l.rest w) (fun lex _ => ⟨[], Consumes.refl lex, .nil⟩)
    (fun lex lex' l hs ih => ?_) h
  obtain ⟨w, hw, hgap⟩ := ih
  obtain ⟨piece, hpiece, hback⟩ := (skipTurn_piece lex).of_ok hs lex' rfl
  exact ⟨piece ++ w, hpiece.trans hw, hback _ _ hw.rest hgap⟩

/-! ## Tokens -/

/-- The bytes that the tokens begin with that do not carry all of their bytes. -/
def Scanner.Marks : Scanner → FluxLexer → Prop
  | .codeBlock, lex => lex.atFence = .ok true
  | .inlineCode, lex => ∃ r, lex.rest = backquote :: r
  | .string, lex => ∃ quote r, (quote = doubleQuote ∨ quote = singleQuote) ∧ lex.rest = quote :: r
  | _, _ => True

theorem scanner_marks (hlt : lex.pos < lex.sourceLen) : Ensures anyFault (fun s => s.Marks lex) lex.scanner := by
  obtain ⟨c, hc⟩ := exists_byte hlt
  obtain ⟨r, hrest⟩ := exists_rest hc
  unfold scanner
  rw [ensures_byteAt_bind hc]
  refine (ensures_ite _ _ _ _ _).2 ⟨fun _ => trivial, fun _ => (ensures_ite _ _ _ _ _).2 ⟨fun _ => ?_, fun _ => ?_⟩⟩
  · exact ensures_ahead_bind.2 ((ensures_ite _ _ _ _ _).2 ⟨fun _ => trivial, fun _ => trivial⟩)
  rw [atFence_eq]
  refine (ensures_ite _ _ _ _ _).2 ⟨fun hfence => ?_, fun _ => ?_⟩
  · show lex.atFence = .ok true
    rw [atFence_eq, hfence]
  refine ensures_ahead_bind.2 ((ensures_ite _ _ _ _ _).2 ⟨fun hquote => ⟨r, hquote.1 ▸ hrest⟩, fun _ => ?_⟩)
  refine ensures_ahead_bind.2 ((ensures_ite _ _ _ _ _).2 ⟨fun _ => trivial, fun _ => ?_⟩)
  refine ensures_ahead_bind.2 ((ensures_ite _ _ _ _ _).2 ⟨fun _ => trivial, fun _ => ?_⟩)
  refine (ensures_bind _ _ _ _).2 (ensures_of_forall (fun found _ => ?_) fun _ _ => trivial)
  refine (ensures_ite _ _ _ _ _).2 ⟨fun _ => trivial, fun _ => ?_⟩
  refine (ensures_ite _ _ _ _ _).2 ⟨fun hquote => ⟨c, r, hquote, hrest⟩, fun _ => ?_⟩
  refine ensures_ahead_bind.2 ((ensures_ite _ _ _ _ _).2 ⟨fun _ => trivial, fun _ => ?_⟩)
  refine (ensures_ite _ _ _ _ _).2 ⟨fun _ => trivial, fun _ => ?_⟩
  refine (ensures_ite _ _ _ _ _).2 ⟨fun _ => trivial, fun _ => ?_⟩
  exact (ensures_ite _ _ _ _ _).2 ⟨fun _ => trivial, fun _ => trivial⟩

/-- A scanner that copies all that it goes over. -/
theorem lexeme_of_copy {tok : FluxToken} (hreach : Reaches lex 0 l) (htype : tok.type.Copied)
    (h : l.copyText lex.pos = .ok tok.text) : ∃ w, Consumes lex w l ∧ Lexeme tok w l.rest :=
  ⟨_, hreach.consumes, .copied htype (copies_of_copyText hreach.inside h)⟩

/-- A scanner that returns the one or two bytes that it goes over. -/
theorem lexeme_of_slice {tok : FluxToken} (hreach : Reaches lex 0 l) (htype : tok.type.Copied)
    (hpos : l.pos ≤ lex.pos + 2) (h : tok.text = l.slice lex.pos) : ∃ w, Consumes lex w l ∧ Lexeme tok w l.rest := by
  have hlength := length_slice_le l lex.pos
  have hroom : (l.slice lex.pos).length < fluxTokenTextMax := by
    rw [fluxTokenTextMax]
    omega
  refine ⟨_, hreach.consumes, .copied htype ?_⟩
  rw [h]
  exact copies_of_room hroom

theorem lexeme_of_end {tok : FluxToken} {type : TokenType} {stop : Except LexFault FluxLexer}
    (hreach : Reaches lex 0 l)
    (htype : type.Copied)
    (h : (do let stop ← stop; let text ← stop.copyText lex.pos; pure (lex.token type text, stop)) = .ok (tok, l)) :
    ∃ w, Consumes lex w l ∧ Lexeme tok w l.rest := by
  obtain ⟨stop, -, h⟩ := bind_eq_ok.1 h
  obtain ⟨text, htext, h⟩ := bind_eq_ok.1 h
  obtain ⟨rfl, rfl⟩ := Prod.mk.inj (Except.ok.inj h)
  exact lexeme_of_copy hreach htype htext

theorem overTurn_of_nil (hrest : lex.rest = []) :
    (do if ← lex.ahead 0 p then (fun c => some (lex.advanceOver c)) <$> lex.byteAt lex.pos else pure none) =
    .ok none := by
  rw [ahead_zero, head?_rest, hrest]
  rfl

theorem overTurn_of_cons (hrest : lex.rest = c :: r) :
    (do if ← lex.ahead 0 p then (fun c => some (lex.advanceOver c)) <$> lex.byteAt lex.pos else pure none) =
      .ok (if p c = true then some (lex.advanceOver c) else none) := by
  rw [ahead_zero, byteAt_of_rest hrest, head?_rest, hrest, List.head?_cons, Option.any_some]
  cases p c <;> rfl

/-- A loop over the bytes of a class that counts the lines. -/
theorem advanceOverWhile_consumes (h : lex.advanceOverWhile p = .ok l) :
    ∃ w, Consumes lex w l ∧ (∀ c ∈ w, p c = true) ∧ l.rest.head?.any p = false := by
  refine of_loop (P := fun lex l => ∃ w, Consumes lex w l ∧ (∀ c ∈ w, p c = true) ∧ l.rest.head?.any p = false)
    (fun lex hs => ⟨[], Consumes.refl lex, fun c hc => (List.not_mem_nil hc).elim, ?_⟩)
    (fun lex lex' l hs ih => ?_) h
  · cases hrest : lex.rest with
    | nil => rfl
    | cons c r =>
      rw [overTurn_of_cons hrest] at hs
      by_cases hc : p c = true
      · rw [if_pos hc] at hs
        cases hs
      · simpa using hc
  · cases hrest : lex.rest with
    | nil => exact absurd ((overTurn_of_nil hrest).symm.trans hs) (by simp)
    | cons c r =>
      rw [overTurn_of_cons hrest] at hs
      by_cases hc : p c = true
      · rw [if_pos hc] at hs
        obtain rfl := Option.some.inj (Except.ok.inj hs)
        obtain ⟨w, hw, hclass, hend⟩ := ih
        exact ⟨c :: w, (consumes_advanceOver hrest).trans hw, List.forall_mem_cons.2 ⟨hc, hclass⟩, hend⟩
      · rw [if_neg hc] at hs
        cases hs

theorem scanInlineCode_lexeme {tok : FluxToken} (hrest : lex.rest = backquote :: r)
    (h : lex.fluxLexerScanInlineCode = .ok (tok, l)) : ∃ w, Consumes lex w l ∧ Lexeme tok w l.rest := by
  obtain ⟨stop, hstop, h⟩ := bind_eq_ok.1 h
  obtain ⟨text, htext, h⟩ := bind_eq_ok.1 h
  obtain ⟨rfl, rfl⟩ := Prod.mk.inj (Except.ok.inj h)
  have hopen := consumes_advance (w := [backquote]) hrest
  obtain ⟨body, hbody, hclass, hend⟩ := advanceOverWhile_consumes hstop
  have hinside := (hopen.trans hbody).inside (Nat.le_of_lt (lt_sourceLen_of_rest hrest))
  have hcopies : Copies text body := hbody.slice_eq ▸ copies_of_copyText hinside htext
  have hnot : backquote ∉ body := fun hmem => absurd (hclass _ hmem) (by decide)
  split_ifs with hlt
  · obtain ⟨c, hc⟩ := exists_byte hlt
    obtain ⟨r', hr'⟩ := exists_rest hc
    obtain rfl : c = backquote := by
      rw [hr'] at hend
      simpa using hend
    refine ⟨_, (hopen.trans hbody).trans (consumes_advance (w := [backquote]) hr'), ?_⟩
    exact Lexeme.inlineCode rfl hnot hcopies (.inl rfl)
  · refine ⟨_, hopen.trans hbody, ?_⟩
    have hnil := rest_of_le (Nat.not_lt.1 hlt)
    have hlexeme : Lexeme (lex.token .INLINE_CODE text) (backquote :: (body ++ [])) stop.rest :=
      .inlineCode rfl hnot hcopies (.inr ⟨rfl, hnil⟩)
    rwa [List.append_nil] at hlexeme

theorem rest_of_atFence (h : lex.atFence = .ok true) : ∃ r, lex.rest = fence ++ r := by
  rw [atFence_eq] at h
  have hquotes := Except.ok.inj h
  simp only [Bool.and_eq_true, any_eq_some] at hquotes
  obtain ⟨⟨h0, h1⟩, h2⟩ := hquotes
  obtain ⟨r, hrest⟩ := rest_of_getElem? h0 h1
  rw [getElem?_rest, hrest, List.getElem?_cons_succ, List.getElem?_cons_succ, ← List.head?_eq_getElem?] at h2
  obtain ⟨r', rfl⟩ := List.head?_eq_some_iff.1 h2
  exact ⟨r', hrest⟩

theorem atFence_of_rest (hrest : lex.rest = fence ++ r) : lex.atFence = .ok true := by
  rw [atFence_eq, head?_rest, getElem?_rest, getElem?_rest, hrest]
  rfl

/-- A turn of the search for the closing fence goes over one byte, at which there is none. -/
theorem fenceTurn_some (h : (if lex.pos < lex.sourceLen then do
      if ← lex.atFence then pure none
      else
        let c ← lex.byteAt lex.pos
        pure (some (lex.advanceOver c))
    else pure none) = Except.ok (some l)) :
    ∃ c, Consumes lex [c] l ∧ ¬ fence <+: lex.rest := by
  by_cases hlt : lex.pos < lex.sourceLen
  · obtain ⟨c, hc⟩ := exists_byte hlt
    obtain ⟨r, hrest⟩ := exists_rest hc
    rw [if_pos hlt] at h
    obtain ⟨found, hfound, h⟩ := bind_eq_ok.1 h
    cases found with
    | true => cases h
    | false =>
      obtain ⟨c', hc', h⟩ := bind_eq_ok.1 h
      obtain rfl := Option.some.inj (Except.ok.inj h)
      obtain rfl : c = c' := Except.ok.inj ((byteAt_eq hc).symm.trans hc')
      refine ⟨c, consumes_advanceOver hrest, fun hfence => ?_⟩
      obtain ⟨t, ht⟩ := hfence
      cases hfound.symm.trans (atFence_of_rest ht.symm)
  · rw [if_neg hlt] at h
    cases h

/-- The body of a code block ends at the first fence. -/
theorem closingFence_consumes (h : lex.closingFence = .ok l) : ∃ w, Consumes lex w l ∧ Free fence w l.rest := by
  refine of_loop (P := fun lex l => ∃ w, Consumes lex w l ∧ Free fence w l.rest)
    (fun lex _ => ⟨[], Consumes.refl lex, free_nil _ _⟩) (fun lex lex' l hs ih => ?_) h
  obtain ⟨c, hc, hnot⟩ := fenceTurn_some hs
  obtain ⟨w, hw, hfree⟩ := ih
  refine ⟨[c] ++ w, hc.trans hw, .cons (fun hfence => hnot ?_) hfree⟩
  rw [(hc.trans hw).rest]
  exact hfence

/-- The opening fence, with the language and the rest of its line. -/
theorem codeBlockBody_consumes (hrest : lex.rest = fence ++ r) : ∃ lang info eol langEnd body,
    lex.codeBlockLang = .ok langEnd ∧ lex.codeBlockBody = .ok body ∧ langEnd.slice (lex.pos + 3) = lang ∧
      Consumes lex (fence ++ lang ++ info ++ eol) body ∧ newline ∉ lang ++ info ∧
      (eol = [newline] ∨ eol ++ body.rest = []) := by
  have hopen := consumes_advance (w := fence) hrest
  obtain ⟨lang, langEnd, hlang, hlangs, hlangClass, -, -⟩ :=
    advanceAtMost_consumes (lex.advance 3) (fun c => c ≠ newline && c ≠ ' '.toUInt8) 63
  obtain ⟨info, eolEnd, heol, hinfo, hinfoClass, hend⟩ :=
    advanceWhile_consumes (p := (· ≠ newline)) (show langEnd.rest = [] ++ langEnd.rest from rfl) (by simp)
  have hline := (hopen.trans hlangs).trans hinfo
  have hnot : newline ∉ lang ++ info := fun hmem => by
    rcases List.mem_append.1 hmem with hmem | hmem
    · exact absurd (hlangClass _ hmem) (by decide)
    · exact absurd (hinfoClass _ hmem) (by decide)
  have hbody : lex.codeBlockBody = .ok (if eolEnd.pos < eolEnd.sourceLen then eolEnd.advanceLine else eolEnd) := by
    unfold codeBlockBody
    rw [show lex.codeBlockLang = .ok langEnd from hlang]
    show (langEnd.advanceWhile _ >>= _) = _
    rw [heol]
    rfl
  by_cases hlt : eolEnd.pos < eolEnd.sourceLen
  · obtain ⟨c, hc⟩ := exists_byte hlt
    obtain ⟨r', hr'⟩ := exists_rest hc
    obtain rfl : c = newline := by
      rw [hr'] at hend
      simpa using hend
    rw [if_pos hlt] at hbody
    exact ⟨lang, info, [newline], langEnd, _, hlang, hbody, hlangs.slice_eq, hline.trans (consumes_advanceLine hr'),
      hnot,
      .inl rfl⟩
  · rw [if_neg hlt] at hbody
    refine ⟨lang, info, [], langEnd, _, hlang, hbody, hlangs.slice_eq, ?_, hnot, .inr (rest_of_le (Nat.not_lt.1 hlt))⟩
    rw [List.append_nil]
    exact hline

/-- The closing fence, with the end of its line. -/
theorem codeBlockClose_consumes (hfence : l.rest = [] ∨ ∃ r, l.rest = fence ++ r) (h : l.codeBlockClose = .ok l') :
    ∃ close, Consumes l close l' ∧ (close = fence ∨ close = fence ++ [newline] ∨ close ++ l'.rest = []) := by
  unfold codeBlockClose at h
  rcases hfence with hnil | ⟨r, hrest⟩
  · have hlen := length_rest l
    rw [hnil, List.length_nil] at hlen
    rw [if_neg (by omega)] at h
    obtain rfl := Except.ok.inj h
    exact ⟨[], Consumes.refl l, .inr (.inr hnil)⟩
  · have hclose := consumes_advance (w := fence) hrest
    have hr : (l.advance 3).rest = r := List.append_cancel_left (hclose.rest.symm.trans hrest)
    rw [if_pos (lt_sourceLen_of_rest hrest)] at h
    simp only [ahead_zero, head?_rest, hr] at h
    obtain ⟨found, hfound, h⟩ := bind_eq_ok.1 h
    obtain rfl := Except.ok.inj hfound
    split_ifs at h with hline
    · obtain rfl := Except.ok.inj h
      obtain ⟨c, hc, hnewline⟩ := (Option.any_eq_true _ _).1 hline
      obtain rfl : c = newline := by simpa using hnewline
      obtain ⟨r', rfl⟩ := List.head?_eq_some_iff.1 hc
      exact ⟨_, hclose.trans (consumes_advanceLine hr), .inr (.inl rfl)⟩
    · obtain rfl := Except.ok.inj h
      exact ⟨_, hclose, .inl rfl⟩

theorem scanCodeBlock_lexeme {tok : FluxToken} (hfence : lex.atFence = .ok true)
    (h : lex.fluxLexerScanCodeBlock = .ok (tok, l)) : ∃ w, Consumes lex w l ∧ Lexeme tok w l.rest := by
  obtain ⟨r, hrest⟩ := rest_of_atFence hfence
  obtain ⟨lang, info, eol, langEnd, body, hlang, hbody, hslice, hline, hnot, heol⟩ := codeBlockBody_consumes hrest
  obtain ⟨langEnd', hlang', h⟩ := bind_eq_ok.1 h
  obtain rfl : langEnd = langEnd' := Except.ok.inj (hlang.symm.trans hlang')
  obtain ⟨body', hbody', h⟩ := bind_eq_ok.1 h
  obtain rfl : body = body' := Except.ok.inj (hbody.symm.trans hbody')
  obtain ⟨stop, hstop, h⟩ := bind_eq_ok.1 h
  obtain ⟨text, htext, h⟩ := bind_eq_ok.1 h
  obtain ⟨after, hafter, h⟩ := bind_eq_ok.1 h
  obtain ⟨rfl, rfl⟩ := Prod.mk.inj (Except.ok.inj h)
  obtain ⟨w, hw, hfirst⟩ := closingFence_consumes hstop
  have hlast : stop.rest = [] ∨ ∃ r, stop.rest = fence ++ r := by
    by_cases hlt : stop.pos < stop.sourceLen
    · exact .inr (rest_of_atFence (atFence_of_closingFence hstop hlt))
    · exact .inl (rest_of_le (Nat.not_lt.1 hlt))
  obtain ⟨close, hclose, hcloses⟩ := codeBlockClose_consumes hlast hafter
  have hinside := (hline.trans hw).inside (Nat.le_of_lt (lt_sourceLen_of_rest hrest))
  have hcopies : Copies text w := hw.slice_eq ▸ copies_of_copyText hinside htext
  refine ⟨_, (hline.trans hw).trans hclose,
    .codeBlock rfl hnot hslice (heol.imp_right fun h => ?_) ?_ hcopies hcloses⟩
  · rw [hw.rest, hclose.rest] at h
    simpa using h
  · rw [← hclose.rest]
    exact hfirst

/-- A turn of the loop over a string goes over the spelling of one byte. -/
theorem stringTurn_piece {quote : UInt8} {t : FluxLexer × List UInt8}
    (h : stringTurn quote (lex, text) = .ok (some t)) :
    ∃ piece content, Consumes lex piece t.1 ∧ t.2 = text ++ content ∧
      ∀ r s more, t.1.rest = s ++ r → Spells quote r s more → Spells quote r (piece ++ s) (content ++ more) := by
  by_cases hroom : text.length < fluxTokenTextMax - 1
  · rcases hrest : lex.rest with - | ⟨c, r⟩
    · have hend : lex.source[lex.pos]? = none := by rw [head?_rest, hrest, List.head?_nil]
      unfold stringTurn at h
      simp only [ahead_zero, hend] at h
      cases h
    by_cases hc : c = quote
    · rw [stringTurn_of_quote (hc ▸ hrest)] at h
      cases h
    by_cases hb : c ≠ backslash
    · rw [stringTurn_of_plain hrest hc hb hroom] at h
      obtain rfl := Option.some.inj (Except.ok.inj h)
      exact ⟨[c], [c], consumes_advanceOver hrest, rfl, fun r s more _ hs => .plain hc (fun h => absurd h hb) hs⟩
    obtain rfl : c = backslash := not_not.1 hb
    rcases r with - | ⟨e, r⟩
    · rw [stringTurn_of_last hrest hc hroom] at h
      obtain rfl := Option.some.inj (Except.ok.inj h)
      have hlast := consumes_advanceOver hrest
      have hnil : (lex.advanceOver backslash).rest = [] := (List.cons.inj (hlast.rest.symm.trans hrest)).2
      exact ⟨[backslash], [backslash], hlast, rfl, fun r s more hs hspells => .plain hc (fun _ => hs ▸ hnil) hspells⟩
    have hslash := consumes_advance (w := [backslash]) hrest
    have hnext : (lex.advance 1).rest = e :: r := List.append_cancel_left (hslash.rest.symm.trans hrest)
    by_cases he : e ≠ '0'.toUInt8 ∧ isOctal e = true
    · rw [stringTurn_of_backslash hrest hc hroom, if_pos he] at h
      obtain ⟨stop, hstop, h⟩ := bind_eq_ok.1 h
      obtain rfl := Option.some.inj (Except.ok.inj h)
      obtain ⟨w, l, hl, hw, hclass, hle, hend⟩ := advanceAtMost_consumes (lex.advance 1) isOctal 3
      obtain rfl : l = stop := Except.ok.inj (hl.symm.trans hstop)
      cases w with
      | nil =>
        rw [← hw.rest.trans (List.nil_append _), hnext] at hend
        exact absurd (hend.resolve_left (by simp)) (by simp [he.2])
      | cons d ds =>
        obtain ⟨rfl, -⟩ := List.cons.inj (hnext.symm.trans hw.rest)
        refine ⟨[backslash] ++ (e :: ds), _, hslash.trans hw, rfl, fun r s more hs hspells => ?_⟩
        dsimp only at hs
        rw [hw.slice_eq]
        exact .octal he.1 hclass (Nat.le_of_succ_le_succ hle) (hs ▸ hend.imp_left Nat.succ.inj) hspells
    · rw [stringTurn_of_escaped hrest hc he hroom] at h
      obtain rfl := Option.some.inj (Except.ok.inj h)
      exact ⟨[backslash] ++ [e], [escape e], hslash.trans (consumes_advance (w := [e]) hnext), rfl,
        fun r s more _ hs => .escaped he hs⟩
  · rw [stringTurn_of_full hroom] at h
    cases h

theorem string_spells {quote : UInt8} {s t : FluxLexer × List UInt8} {fuel : Nat}
    (h : Faulting.loop (stringTurn quote) .diverged fuel s = .ok t) :
    ∃ w content, Consumes s.1 w t.1 ∧ t.2 = s.2 ++ content ∧ Spells quote t.1.rest w content := by
  refine of_loop (P := fun s t => ∃ w content, Consumes s.1 w t.1 ∧ t.2 = s.2 ++ content ∧
    Spells quote t.1.rest w content) (fun s _ => ⟨[], [], Consumes.refl s.1, (List.append_nil _).symm, .nil⟩)
    (fun s s' t hs ih => ?_) h
  obtain ⟨w, content, hw, hcontent, hspells⟩ := ih
  obtain ⟨piece, c, hpiece, hc, hback⟩ := stringTurn_piece hs
  refine ⟨piece ++ w, c ++ content, hpiece.trans hw, ?_, hback _ _ _ hw.rest hspells⟩
  rw [hcontent, hc, List.append_assoc]

theorem scanString_lexeme {tok : FluxToken} {quote : UInt8} (hquote : quote = doubleQuote ∨ quote = singleQuote)
    (hrest : lex.rest = quote :: r) (h : lex.fluxLexerScanString = .ok (tok, l)) :
    ∃ w, Consumes lex w l ∧ Lexeme tok w l.rest := by
  obtain ⟨⟨stop, text⟩, hstop, h⟩ := bind_eq_ok.1 h
  obtain ⟨rfl, rfl⟩ := Prod.mk.inj (Except.ok.inj h)
  unfold stringEnd at hstop
  rw [byteAt_of_rest hrest] at hstop
  have hopen := consumes_advance (w := [quote]) hrest
  obtain ⟨w, content, hw, hcontent, hspells⟩ := string_spells hstop
  obtain rfl : text = content := hcontent
  split_ifs with hlt
  · obtain ⟨c, hc⟩ := exists_byte hlt
    obtain ⟨r', hr'⟩ := exists_rest hc
    have hclose := consumes_advance (w := [c]) hr'
    refine ⟨_, (hopen.trans hw).trans hclose, ?_⟩
    refine .string rfl hquote ?_ (.inl ⟨c, rfl, end_of_stringTurn (exit_of_loop hstop) hr'⟩)
    exact (hclose.rest ▸ hspells : Spells quote ([c] ++ (stop.advance 1).rest) w text)
  · have hnil := rest_of_le (Nat.not_lt.1 hlt)
    refine ⟨_, hopen.trans hw, ?_⟩
    have hlexeme : Lexeme (lex.token .STRING text) (quote :: (w ++ [])) stop.rest :=
      .string rfl hquote hspells (.inr hnil)
    rwa [List.append_nil] at hlexeme

theorem scan_lexeme {s : Scanner} {tok : FluxToken} (hlt : lex.pos < lex.sourceLen) (hmarks : s.Marks lex)
    (hreach : Reaches lex 0 l) (h : s.scan lex = .ok (tok, l)) : ∃ w, Consumes lex w l ∧ Lexeme tok w l.rest := by
  cases s with
  | codeBlock => exact scanCodeBlock_lexeme hmarks h
  | inlineCode =>
    obtain ⟨r, hrest⟩ := hmarks
    exact scanInlineCode_lexeme hrest h
  | string =>
    obtain ⟨quote, r, hquote, hrest⟩ := hmarks
    exact scanString_lexeme hquote hrest h
  | newline =>
    have htype : TokenType.Copied .NEWLINE := by decide
    obtain ⟨⟨c, stop⟩, hfirst, h⟩ := bind_eq_ok.1 h
    obtain ⟨ahead, -, h⟩ := bind_eq_ok.1 h
    have hfirst := nextChar_advance hfirst
    by_cases hpair : c = '\r'.toUInt8 ∧ ahead = true
    · rw [if_pos hpair] at h
      obtain ⟨⟨d, stop'⟩, hsecond, h⟩ := bind_eq_ok.1 h
      have hsecond := nextChar_advance hsecond
      obtain ⟨rfl, rfl⟩ := Prod.mk.inj (Except.ok.inj h)
      exact lexeme_of_slice hreach htype (by omega) rfl
    · rw [if_neg hpair] at h
      obtain ⟨rfl, rfl⟩ := Prod.mk.inj (Except.ok.inj h)
      exact lexeme_of_slice hreach htype (by omega) rfl
  | punctuation =>
    obtain ⟨c, hc, h⟩ := bind_eq_ok.1 h
    obtain ⟨rfl, rfl⟩ := Prod.mk.inj (Except.ok.inj h)
    obtain ⟨c', hc'⟩ := exists_byte hlt
    obtain rfl : c' = c := Except.ok.inj ((byteAt_eq hc').symm.trans hc)
    obtain ⟨r, hrest⟩ := exists_rest hc'
    refine lexeme_of_slice hreach (show TokenType.Copied .PUNCTUATION by decide) (Nat.le_succ (lex.pos + 1)) ?_
    exact (consumes_advance (w := [c']) hrest).slice_eq.symm
  | heading =>
    obtain ⟨mark, -, h⟩ := bind_eq_ok.1 h
    obtain ⟨stop, -, h⟩ := bind_eq_ok.1 h
    obtain ⟨text, htext, h⟩ := bind_eq_ok.1 h
    obtain ⟨rfl, rfl⟩ := Prod.mk.inj (Except.ok.inj h)
    exact lexeme_of_copy hreach (show TokenType.Copied .HEADING by decide) htext
  | identifier =>
    obtain ⟨stop, -, h⟩ := bind_eq_ok.1 h
    obtain ⟨text, htext, h⟩ := bind_eq_ok.1 h
    obtain ⟨rfl, rfl⟩ := Prod.mk.inj (Except.ok.inj h)
    refine lexeme_of_copy hreach ?_ htext
    show TokenType.Copied (if fluxLexerIsTypeKeyword text then _ else if fluxLexerIsKeyword text then _ else _)
    split_ifs <;> decide
  | number =>
    obtain ⟨⟨stop, isFloat⟩, -, h⟩ := bind_eq_ok.1 h
    obtain ⟨text, htext, h⟩ := bind_eq_ok.1 h
    obtain ⟨rfl, rfl⟩ := Prod.mk.inj (Except.ok.inj h)
    exact lexeme_of_copy hreach (show TokenType.Copied .NUMBER by decide) htext
  | directive => exact lexeme_of_end hreach (by decide) h
  | listItem => exact lexeme_of_end hreach (by decide) h
  | metadata => exact lexeme_of_end hreach (by decide) h
  | operator => exact lexeme_of_end hreach (by decide) h
  | text => exact lexeme_of_end hreach (by decide) h

/-! ## Calls -/

/-- A call goes over blanks and comments, and over the bytes of the token that it returns. -/
theorem next_lexeme {tok : FluxToken} (hpos : lex.pos ≤ lex.sourceLen) (h : lex.fluxLexerNext = .ok (tok, l)) :
    ∃ gap w, Consumes lex (gap ++ w) l ∧ Gap (w ++ l.rest) gap ∧ Lexeme tok w l.rest := by
  obtain ⟨l', hskip, hreach, hexit⟩ := exists_of_noFault (skip_spec hpos)
  obtain ⟨gap, hgap, hblank⟩ := skip_gap hskip
  by_cases hlt : l'.pos < l'.sourceLen
  · obtain ⟨s, hs, -⟩ := exists_of_noFault (scanner_spec hexit hlt)
    have hagain : l'.fluxLexerNext = .ok (tok, l) := by
      rw [next_of_scanner (skip_of_exit hexit) hlt hs, ← next_of_scanner hskip hlt hs, h]
    rw [next_of_scanner hskip hlt hs] at h
    obtain ⟨w, hw, hlexeme⟩ :=
      scan_lexeme hlt ((scanner_marks hlt).of_ok hs) (reaches_of_next hreach.inside hagain) h
    exact ⟨gap, w, hgap.trans hw, hw.rest ▸ hblank, hlexeme⟩
  · obtain ⟨rfl, rfl⟩ := Prod.mk.inj (Except.ok.inj ((next_of_end hskip (Nat.not_lt.1 hlt)).symm.trans h))
    refine ⟨gap, [], ?_, hblank, ?_⟩
    · rw [List.append_nil]
      exact hgap
    · rw [rest_of_le (Nat.not_lt.1 hlt)]
      exact .eof rfl

/-! ## Frontmatter -/

theorem frontmatterTurn_closed (lex : FluxLexer) : frontmatterTurn (lex, true) = .ok none := by
  unfold frontmatterTurn
  exact if_neg (by simp)

/-- The search goes on while there are three bytes. -/
theorem frontmatterTurn_of_short (hrest : lex.rest.length ≤ 2) : frontmatterTurn (lex, false) = .ok none := by
  rw [length_rest] at hrest
  unfold frontmatterTurn
  exact if_neg (by omega)

theorem frontmatterTurn_of_rest {d e : UInt8} (hrest : lex.rest = c :: d :: e :: r) :
    frontmatterTurn (lex, false) =
      if c = '-'.toUInt8 ∧ d = '-'.toUInt8 ∧ e = '-'.toUInt8 then
        if r.head?.any (· = newline) = true then .ok (some ((lex.advance 3).advanceLine, true))
        else .ok (some (lex.advance 3, true))
      else .ok (some (lex.advanceOver c, false)) := by
  have hlen := length_rest lex
  rw [hrest] at hlen
  simp only [List.length_cons] at hlen
  have hd : lex.byteAt (lex.pos + 1) = .ok d := byteAt_eq (by rw [getElem?_rest, hrest]; rfl)
  have he : lex.byteAt (lex.pos + 2) = .ok e := byteAt_eq (by rw [getElem?_rest, hrest]; rfl)
  have hr : (lex.advance 3).rest = r := by rw [(moves_advance lex 3).rest_eq, hrest]; rfl
  unfold frontmatterTurn
  dsimp only
  rw [if_pos ⟨by decide, by omega⟩, byteAt_of_rest hrest, hd, he]
  refine if_congr Iff.rfl ?_ rfl
  rw [ahead_zero, head?_rest, hr]
  rfl

/-- What the frontmatter of a document holds behind its first line. -/
theorem frontmatter_loop {s t : FluxLexer × Bool} {fuel : Nat}
    (h : Faulting.loop frontmatterTurn .diverged fuel s = .ok t) :
    (s.2 = true → t = s) ∧ (s.2 = false → ∃ body close, Consumes s.1 (body ++ close) t.1 ∧
      Free dashes body (close ++ t.1.rest) ∧
        (ClosesFrontmatter close t.1.rest ∨ close = [] ∧ t.1.rest.length ≤ 2)) := by
  refine of_loop (P := fun s t => (s.2 = true → t = s) ∧ (s.2 = false → ∃ body close,
    Consumes s.1 (body ++ close) t.1 ∧ Free dashes body (close ++ t.1.rest) ∧
      (ClosesFrontmatter close t.1.rest ∨ close = [] ∧ t.1.rest.length ≤ 2)))
    (fun s hs => ⟨fun _ => rfl, fun hopen => ?_⟩)
    (fun s s' t hs ih => ⟨fun hclosed => ?_, fun hopen => ?_⟩) h
  · obtain ⟨lex, closed⟩ := s
    obtain rfl : closed = false := hopen
    refine ⟨[], [], Consumes.refl lex, free_nil _ _, .inr ⟨rfl, ?_⟩⟩
    match hrest : lex.rest with
    | [] | [c] | [c, d] => simp
    | c :: d :: e :: r =>
      rw [frontmatterTurn_of_rest hrest] at hs
      split_ifs at hs <;> cases hs
  · obtain ⟨lex, closed⟩ := s
    obtain rfl : closed = true := hclosed
    cases (frontmatterTurn_closed lex).symm.trans hs
  · obtain ⟨lex, closed⟩ := s
    obtain rfl : closed = false := hopen
    match hrest : lex.rest with
    | [] | [c] | [c, d] =>
      have hshort := frontmatterTurn_of_short (show lex.rest.length ≤ 2 by simp [hrest])
      cases hshort.symm.trans hs
    | c :: d :: e :: r =>
      rw [frontmatterTurn_of_rest hrest] at hs
      by_cases hmark : c = '-'.toUInt8 ∧ d = '-'.toUInt8 ∧ e = '-'.toUInt8
      · obtain ⟨rfl, rfl, rfl⟩ := hmark
        rw [if_pos ⟨rfl, rfl, rfl⟩] at hs
        have hclose : Consumes lex dashes (lex.advance 3) := consumes_advance (w := dashes) hrest
        have hr : (lex.advance 3).rest = r := List.append_cancel_left (hclose.rest.symm.trans hrest)
        split_ifs at hs with hline
        · obtain rfl := Option.some.inj (Except.ok.inj hs)
          obtain rfl := ih.1 rfl
          obtain ⟨c, hc, hnewline⟩ := (Option.any_eq_true _ _).1 hline
          obtain rfl : c = newline := by simpa using hnewline
          obtain ⟨r', rfl⟩ := List.head?_eq_some_iff.1 hc
          exact ⟨[], _, hclose.trans (consumes_advanceLine hr), free_nil _ _, .inl (.inr rfl)⟩
        · obtain rfl := Option.some.inj (Except.ok.inj hs)
          obtain rfl := ih.1 rfl
          refine ⟨[], _, hclose, free_nil _ _, .inl (.inl ⟨rfl, fun hhead => hline ?_⟩)⟩
          dsimp only at hhead
          rw [← hr, hhead]
          simp
      · rw [if_neg hmark] at hs
        obtain rfl := Option.some.inj (Except.ok.inj hs)
        obtain ⟨body, close, hbody, hfree, hend⟩ := ih.2 rfl
        have hc := consumes_advanceOver hrest
        refine ⟨c :: body, close, hc.trans hbody, hfree.cons ?_, hend⟩
        have hall : lex.rest = c :: body ++ (close ++ t.1.rest) := by
          rw [(hc.trans hbody).rest, List.append_assoc, List.append_assoc]
          rfl
        rw [← hall, hrest]
        rintro ⟨w, hw⟩
        obtain ⟨hfirst, hw⟩ := List.cons.inj hw
        obtain ⟨hsecond, hw⟩ := List.cons.inj hw
        exact hmark ⟨hfirst.symm, hsecond.symm, (List.cons.inj hw).1.symm⟩

/-- `flux_lexer_init` goes over the frontmatter. -/
theorem fluxLexerInit_frontmatter {source : List UInt8} (h : fluxLexerInit source = .ok l) :
    ∃ front, source = front ++ l.rest ∧ Frontmatter l.rest front := by
  unfold fluxLexerInit at h
  simp only at h
  split_ifs at h with hmark
  · obtain ⟨⟨l', closed⟩, hloop, h⟩ := bind_eq_ok.1 h
    obtain rfl : l' = l := Except.ok.inj h
    have hsource : source = dashes ++ source.drop 3 := by
      conv_lhs => rw [← List.take_append_drop 3 source, hmark]
      rfl
    let lex : FluxLexer := { source := source, pos := 0, line := 1, col := 1, parenDepth := 0 }
    have hopen : Consumes lex dashes (lex.advance 3) := consumes_advance hsource
    obtain ⟨body, close, hbody, hfree, hend⟩ := (frontmatter_loop hloop).2 rfl
    refine ⟨dashes ++ (body ++ close), (hopen.trans hbody).rest, ?_⟩
    rcases hend with hcloses | ⟨rfl, hshort⟩
    · rw [← List.append_assoc]
      exact .closed hfree hcloses
    · rw [List.append_nil]
      exact .unclosed hfree hshort
  · obtain rfl := Except.ok.inj h
    refine ⟨[], rfl, .none fun hdashes => hmark ?_⟩
    exact (List.prefix_iff_eq_take.1 hdashes).symm

end FluxLexer

open FluxLexer

/-! ## Runs of calls -/

theorem Lexed.concat {tok : FluxToken} {toks : List FluxToken} {text gap w r : List UInt8}
    (h : Lexed (gap ++ w ++ r) toks text) (hgap : Gap (w ++ r) gap) (hlexeme : Lexeme tok w r) :
    Lexed r (toks ++ [tok]) (text ++ (gap ++ w)) := by
  generalize hr : gap ++ w ++ r = r' at h
  induction h with
  | nil =>
    have hone : Lexed r [tok] (gap ++ w ++ []) := .cons (by simpa using hgap) (by simpa using hlexeme) .nil
    simpa using hone
  | cons hgap' hlexeme' _ ih =>
    subst hr
    rw [List.append_assoc]
    exact .cons (by simpa using hgap') (by simpa using hlexeme') ih

theorem lexerAfter_succ {source : List UInt8} {n : Nat} {l : FluxLexer} (h : lexerAfter source (n + 1) = .ok l) :
    ∃ l', lexerAfter source n = .ok l' ∧ l'.fluxLexerNext = .ok (sourceToken source n, l) := by
  obtain ⟨lex, hinit, hcalls⟩ := bind_eq_ok.1 h
  obtain ⟨l', hl', hcalls⟩ := bind_eq_ok.1 hcalls
  obtain ⟨⟨tok, l''⟩, hnext, hcalls⟩ := bind_eq_ok.1 hcalls
  obtain rfl : l'' = l := Except.ok.inj hcalls
  have hafter : lexerAfter source n = .ok l' := bind_eq_ok.2 ⟨lex, hinit, hl'⟩
  have hcall : (lexerAfter source n >>= fluxLexerNext) = .ok (tok, l'') := bind_eq_ok.2 ⟨l', hafter, hnext⟩
  have htok : sourceToken source n = tok := by
    rw [sourceToken, hcall]
  exact ⟨l', hafter, htok ▸ hnext⟩

/-- The calls of `flux_lexer_next` lose nothing: whatever the source and however often it is called, what the calls go
over consists of the bytes of the tokens that they return, in order, with blanks and comments in front of each. -/
theorem lexer_lossless (source : List UInt8) (n : Nat) (l : FluxLexer) (h : lexerAfter source n = .ok l) :
    ∃ front text, source = front ++ text ++ l.rest ∧ Frontmatter (text ++ l.rest) front ∧
      Lexed l.rest ((List.range n).map (sourceToken source)) text := by
  induction n generalizing l with
  | zero =>
    obtain ⟨lex, hinit, hcalls⟩ := bind_eq_ok.1 h
    obtain rfl : lex = l := Except.ok.inj hcalls
    obtain ⟨front, hsource, hfront⟩ := fluxLexerInit_frontmatter hinit
    exact ⟨front, [], by simpa using hsource, hfront, .nil⟩
  | succ n ih =>
    obtain ⟨l', hl', hnext⟩ := lexerAfter_succ h
    obtain ⟨front, text, hsource, hfront, hlexed⟩ := ih l' hl'
    obtain ⟨gap, w, hw, hgap, hlexeme⟩ := next_lexeme (lexerAfter_reaches hl').2 hnext
    refine ⟨front, text ++ (gap ++ w), ?_, ?_, ?_⟩
    · rw [hsource, hw.rest]
      simp only [List.append_assoc]
    · rw [List.append_assoc, ← hw.rest]
      exact hfront
    · rw [List.range_succ, List.map_append]
      exact Lexed.concat (hw.rest ▸ hlexed) hgap hlexeme

/-- A document with frontmatter, a heading and a string. -/
def notedSource : List UInt8 := bytes "---\nt\n---\n## Go /* a */\n\"b\\n\""

theorem lexer_lossless_noted : lexerAfter notedSource 4 = .ok ⟨notedSource, 29, 5, 6, 0⟩ ∧
    ∃ front text, notedSource = front ++ text ++ [] ∧ Frontmatter (text ++ []) front ∧
      Lexed [] ((List.range 4).map (sourceToken notedSource)) text := by
  have hafter : lexerAfter notedSource 4 = .ok ⟨notedSource, 29, 5, 6, 0⟩ := by decide +kernel
  exact ⟨hafter, lexer_lossless notedSource 4 _ hafter⟩

end FluxOs
