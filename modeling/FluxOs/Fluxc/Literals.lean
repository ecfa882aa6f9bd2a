import FluxOs.Fluxc.Expressions
import FluxOs.Fluxc.Spellings
import FluxOs.Fluxc.Tokenizing
import Mathlib.Data.List.TakeWhile

/-!
# Integer literals

What number an integer literal stands for, and what the lexer and the parser make of it.  The lexer converts the text
with `strtol` in base 0, which reads digits behind a leading `0` as octal and stops at the separator `_`.  The parser
converts a text again, but that of the token behind the literal.
-/

namespace FluxOs

open Faulting

/-! ## Digits -/

section

variable {base : Nat} {ds es : List UInt8} {d : UInt8}

theorem digitsValue_concat (base : Nat) (ds : List UInt8) (d : UInt8) :
    digitsValue base (ds ++ [d]) = digitsValue base ds * base + digitValue d := by
  rw [digitsValue, List.foldl_append]
  rfl

theorem digitsValue_append (base : Nat) (ds es : List UInt8) :
    digitsValue base (ds ++ es) = digitsValue base ds * base ^ es.length + digitsValue base es := by
  induction es using List.reverseRecOn with
  | nil => simp [digitsValue]
  | append_singleton es d ih =>
    rw [← List.append_assoc, digitsValue_concat, ih, digitsValue_concat, List.length_append, List.length_singleton,
      Nat.pow_succ, Nat.add_mul, Nat.mul_assoc, Nat.add_assoc]

/-- A decimal digit is an octal one or `8` or `9`. -/
theorem digitValue_of_isDigit (h : isDigit d = true) :
    (isOctal d = true ∧ digitValue d < 8) ∨ (isOctal d = false ∧ 8 ≤ digitValue d) := by
  obtain ⟨hlo, hhi⟩ := (Bool.and_eq_true _ _).mp h
  have hlo : 48 ≤ d.toNat := UInt8.le_iff_toNat_le.1 (of_decide_eq_true hlo)
  have hhi : d.toNat ≤ 57 := UInt8.le_iff_toNat_le.1 (of_decide_eq_true hhi)
  have hvalue : digitValue d = d.toNat - 48 := if_pos h
  rw [hvalue]
  by_cases h7 : d.toNat ≤ 55
  · refine .inl ⟨?_, by omega⟩
    exact (Bool.and_eq_true _ _).mpr ⟨decide_eq_true (UInt8.le_iff_toNat_le.2 hlo),
      decide_eq_true (UInt8.le_iff_toNat_le.2 h7)⟩
  · refine .inr ⟨?_, by omega⟩
    exact (Bool.and_eq_false_iff).2 (.inr (decide_eq_false fun hle => h7 (UInt8.le_iff_toNat_le.1 hle)))

/-- How the octal reading of a decimal spelling compares with its value. -/
structure OctalReading (ds : List UInt8) : Prop where
  le : digitsValue 8 (ds.takeWhile isOctal) ≤ digitsValue 10 ds
  eq_iff : digitsValue 8 (ds.takeWhile isOctal) = digitsValue 10 ds ↔ digitsValue 10 ds < 8
  large : (∃ d ∈ ds, isOctal d = false) → 8 ≤ digitsValue 10 ds

theorem octalReading (hds : ∀ d ∈ ds, isDigit d = true) : OctalReading ds := by
  induction ds using List.reverseRecOn with
  | nil => exact ⟨Nat.le_refl _, by decide, by simp⟩
  | append_singleton ds d ih =>
    obtain ⟨hle, heq, hlarge⟩ := ih fun e he => hds e (List.mem_append_left _ he)
    have hd := digitValue_of_isDigit (hds d (by simp))
    by_cases hall : ∀ e ∈ ds, isOctal e = true
    · have htake : (ds ++ [d]).takeWhile isOctal = ds ++ [d].takeWhile isOctal := List.takeWhile_append_of_pos hall
      rw [List.takeWhile_eq_self_iff.2 hall] at hle heq
      rcases hd with ⟨hoctal, hlt⟩ | ⟨hoctal, h8⟩
      · have hlast : [d].takeWhile isOctal = [d] := by simp [hoctal]
        rw [hlast] at htake
        refine ⟨?_, ?_, fun hmore => ?_⟩
        · rw [htake, digitsValue_concat, digitsValue_concat]
          omega
        · rw [htake, digitsValue_concat, digitsValue_concat]
          omega
        · obtain ⟨e, he, hout⟩ := hmore
          have hin : isOctal e = true := by
            rcases List.mem_append.1 he with he | he
            · exact hall e he
            · rwa [List.mem_singleton.1 he]
          rw [hin] at hout
          cases hout
      · have hlast : [d].takeWhile isOctal = [] := by simp [hoctal]
        rw [hlast, List.append_nil] at htake
        refine ⟨?_, ?_, fun _ => ?_⟩
        · rw [htake, digitsValue_concat]
          omega
        · rw [htake, digitsValue_concat]
          omega
        · rw [digitsValue_concat]
          omega
    · -- the octal digits end inside `ds`, and a digit `8` or `9` stands there
      have hout : ∃ e ∈ ds, isOctal e = false := by simpa using hall
      have h8 := hlarge hout
      have htake : (ds ++ [d]).takeWhile isOctal = ds.takeWhile isOctal := by
        rw [List.takeWhile_append, if_neg]
        intro hlen
        refine hall (List.takeWhile_eq_self_iff.1 ?_)
        exact (List.takeWhile_prefix _).eq_of_length hlen
      refine ⟨?_, ?_, fun _ => ?_⟩
      · rw [htake, digitsValue_concat]
        omega
      · rw [htake, digitsValue_concat]
        omega
      · rw [digitsValue_concat]
        omega

/-- The value of the first hexadecimal digits is that of all of them exactly if no digit follows a separator, or all
are `0`. -/
theorem hexReading (ds : List UInt8) :
    digitsValue 16 (ds.takeWhile isXDigit) ≤ digitsValue 16 (ds.filter isXDigit) ∧
      (digitsValue 16 (ds.takeWhile isXDigit) = digitsValue 16 (ds.filter isXDigit) ↔
        (∀ d ∈ ds.dropWhile isXDigit, isXDigit d = false) ∨ digitsValue 16 (ds.filter isXDigit) = 0) := by
  have hsplit : ds.filter isXDigit = ds.takeWhile isXDigit ++ (ds.dropWhile isXDigit).filter isXDigit := by
    conv_lhs => rw [← List.takeWhile_append_dropWhile (p := isXDigit) (l := ds), List.filter_append]
    rw [List.filter_eq_self.2 fun d hd => List.mem_takeWhile_imp hd]
  have hnone : (∀ d ∈ ds.dropWhile isXDigit, isXDigit d = false) ↔ (ds.dropWhile isXDigit).filter isXDigit = [] := by
    rw [List.filter_eq_nil_iff]
    exact forall₂_congr fun d _ => Bool.not_eq_true _ ▸ Iff.rfl
  rw [hnone, hsplit, digitsValue_append]
  generalize digitsValue 16 (ds.takeWhile isXDigit) = high
  generalize (ds.dropWhile isXDigit).filter isXDigit = low
  cases low with
  | nil => simp [digitsValue]
  | cons d low =>
    have hpow : high * 16 ≤ high * 16 ^ (d :: low).length :=
      Nat.mul_le_mul_left high (Nat.le_self_pow (by simp) 16)
    refine ⟨by omega, ?_⟩
    simp only [List.cons_ne_nil, false_or]
    constructor
    · intro h
      omega
    · intro h
      omega

end

/-! ## Spellings -/

/-- The digits of an integer literal, behind the prefix of their base. -/
inductive IntBody
  | decimal (ds : List UInt8) (ne : ds ≠ []) (digits : ∀ d ∈ ds, isDigit d = true)
  | hex (x : UInt8) (ds : List UInt8) (isX : x = 'x'.toUInt8 ∨ x = 'X'.toUInt8)
      (digits : ∀ d ∈ ds, isXDigit d = true ∨ d = '_'.toUInt8)

namespace IntBody

def spelling : IntBody → List UInt8
  | decimal ds _ _ => ds
  | hex x ds _ _ => '0'.toUInt8 :: x :: ds

/-- The number that the digits stand for; separators do not count. -/
def value : IntBody → Nat
  | decimal ds _ _ => digitsValue 10 ds
  | hex _ ds _ _ => digitsValue 16 (ds.filter isXDigit)

/-- The number that `strtol` in base 0 reads. -/
def read : IntBody → Nat
  | decimal ds _ _ => if ds.head? = some '0'.toUInt8 then digitsValue 8 (ds.takeWhile isOctal) else digitsValue 10 ds
  | hex _ ds _ _ => digitsValue 16 (ds.takeWhile isXDigit)

/-- A decimal spelling has no leading `0`, or its value is less than 8; behind a separator of a hexadecimal one stands
no digit, or all its digits are `0`. -/
def ReadsBack : IntBody → Prop
  | decimal ds _ _ => ds.head? ≠ some '0'.toUInt8 ∨ digitsValue 10 ds < 8
  | hex _ ds _ _ => (∀ d ∈ ds.dropWhile isXDigit, isXDigit d = false) ∨ digitsValue 16 (ds.filter isXDigit) = 0

theorem read_le_value (body : IntBody) : body.read ≤ body.value := by
  cases body with
  | decimal ds ne digits =>
    simp only [read, value]
    split_ifs
    · exact (octalReading digits).le
    · exact Nat.le_refl _
  | hex x ds isX digits => exact (hexReading ds).1

theorem read_eq_value_iff (body : IntBody) : body.read = body.value ↔ body.ReadsBack := by
  cases body with
  | decimal ds ne digits =>
    simp only [read, value, ReadsBack]
    split_ifs with hzero
    · rw [(octalReading digits).eq_iff]
      simp [hzero]
    · simp [hzero]
  | hex x ds isX digits => exact (hexReading ds).2

end IntBody

/-- The type suffix of an integer literal, if it has one. -/
inductive IntSuffix : List UInt8 → Prop
  | none : IntSuffix []
  | width {c : UInt8} {ds : List UInt8} : c = 'i'.toUInt8 ∨ c = 'u'.toUInt8 → (∀ d ∈ ds, isDigit d = true) →
      IntSuffix (c :: ds)

theorem IntSuffix.head {suffix : List UInt8} (h : IntSuffix suffix) (p : UInt8 → Bool) (hi : p 'i'.toUInt8 = false)
    (hu : p 'u'.toUInt8 = false) : suffix.takeWhile p = [] := by
  cases h with
  | none => rfl
  | width hc _ =>
    rcases hc with rfl | rfl
    · simp [hi]
    · simp [hu]

section

variable {x : UInt8} {text ds : List UInt8}

theorem literalValue_hex (hx : x = 'x'.toUInt8 ∨ x = 'X'.toUInt8) :
    literalValue ('0'.toUInt8 :: x :: ds) = digitsValue 16 (ds.takeWhile isXDigit) := by
  have hoctal (ds : List UInt8) : digitsValue 8 (('0'.toUInt8 :: x :: ds).takeWhile isOctal) = 0 := by
    rcases hx with rfl | rfl <;> rfl
  cases ds with
  | nil => exact hoctal []
  | cons d ds =>
    show (if _ then _ else _) = _
    by_cases hd : isXDigit d = true
    · rw [if_pos ⟨hx, hd⟩]
    · rw [if_neg fun h => hd h.2, List.takeWhile_cons_of_neg hd]
      exact hoctal (d :: ds)

theorem literalValue_octal (hx : ¬ (text.head? = some 'x'.toUInt8 ∨ text.head? = some 'X'.toUInt8)) :
    literalValue ('0'.toUInt8 :: text) = digitsValue 8 (('0'.toUInt8 :: text).takeWhile isOctal) := by
  cases text with
  | nil => rfl
  | cons x text =>
    cases text with
    | nil => rfl
    | cons d text =>
      show (if _ then _ else _) = _
      rw [if_neg]
      exact fun h => hx (h.1.imp (congrArg some) (congrArg some))

theorem literalValue_decimal (h : text.head? ≠ some '0'.toUInt8) :
    literalValue text = digitsValue 10 (text.takeWhile isDigit) := by
  unfold literalValue
  split
  · exact absurd rfl h
  · exact absurd rfl h
  · rfl

end

/-- Neither a digit nor a suffix starts with the letter of the hexadecimal prefix. -/
theorem head_ne_prefix {suffix ds : List UInt8} (h : IntSuffix suffix) (hds : ∀ d ∈ ds, isDigit d = true) :
    ¬ ((ds ++ suffix).head? = some 'x'.toUInt8 ∨ (ds ++ suffix).head? = some 'X'.toUInt8) := by
  cases ds with
  | nil =>
    cases h with
    | none => simp
    | width hc _ => rcases hc with rfl | rfl <;> simp +decide
  | cons d ds =>
    have hd := hds d List.mem_cons_self
    rintro (h | h)
    · obtain rfl : d = 'x'.toUInt8 := Option.some.inj h
      exact absurd hd (by decide)
    · obtain rfl : d = 'X'.toUInt8 := Option.some.inj h
      exact absurd hd (by decide)

theorem takeWhile_append_suffix {suffix ds : List UInt8} (h : IntSuffix suffix) (p : UInt8 → Bool)
    (hi : p 'i'.toUInt8 = false) (hu : p 'u'.toUInt8 = false) :
    (ds ++ suffix).takeWhile p = ds.takeWhile p := by
  rw [List.takeWhile_append, h.head p hi hu, List.append_nil]
  split_ifs with hlen
  · exact ((List.takeWhile_prefix _).eq_of_length hlen).symm
  · rfl

/-- The conversion reads the digits up to the suffix. -/
theorem literalValue_spelling (body : IntBody) {suffix : List UInt8} (h : IntSuffix suffix) :
    literalValue (body.spelling ++ suffix) = body.read := by
  cases body with
  | decimal ds ne digits =>
    simp only [IntBody.spelling, IntBody.read]
    cases ds with
    | nil => exact absurd rfl ne
    | cons d ds =>
      by_cases hzero : d = '0'.toUInt8
      · subst hzero
        rw [List.head?_cons, if_pos rfl, List.cons_append, literalValue_octal, ← List.cons_append,
          takeWhile_append_suffix h isOctal rfl rfl]
        exact head_ne_prefix h fun e he => digits e (List.mem_cons_of_mem _ he)
      · have hhead : ((d :: ds) ++ suffix).head? ≠ some '0'.toUInt8 := by simpa using hzero
        rw [literalValue_decimal hhead, takeWhile_append_suffix h isDigit rfl rfl,
          List.takeWhile_eq_self_iff.2 digits, List.head?_cons, if_neg (by simpa using hzero)]
  | hex x ds isX digits =>
    show literalValue ('0'.toUInt8 :: x :: (ds ++ suffix)) = _
    rw [literalValue_hex isX, takeWhile_append_suffix h isXDigit rfl rfl]
    rfl

/-! ## The scanner -/

/-- A byte with which the digits of the literal would go on. -/
def IntBody.goesOn : IntBody → UInt8 → Bool
  | decimal ds _ _, c => isDigit c || (bytes ".eE").contains c || (ds = ['0'.toUInt8] && (bytes "xX").contains c)
  | hex _ _ _ _, c => isXDigit c || c = '_'.toUInt8

/-- A byte that starts a type suffix. -/
def startsSuffix (c : UInt8) : Bool := c = 'i'.toUInt8 || c = 'f'.toUInt8 || c = 'u'.toUInt8

/-- In front of `r` the literal is over. -/
structure EndsAt (body : IntBody) (suffix r : List UInt8) : Prop where
  plain : suffix = [] → r.head?.any (fun c => body.goesOn c || startsSuffix c) = false
  width : suffix ≠ [] → r.head?.any isDigit = false

namespace FluxLexer

variable {lex l : FluxLexer} {body : IntBody} {suffix r t : List UInt8}

theorem EndsAt.behind_body (h : EndsAt body suffix r) (hsuffix : IntSuffix suffix) :
    (suffix ++ r).head?.any body.goesOn = false := by
  cases hsuffix with
  | none =>
    have hplain := h.plain rfl
    cases r with
    | nil => rfl
    | cons c r => exact (Bool.or_eq_false_iff.1 hplain).1
  | width hc _ =>
    show body.goesOn _ = false
    cases body with
    | decimal ds ne digits => rcases hc with rfl | rfl <;> simp +decide [IntBody.goesOn]
    | hex x ds isX digits => rcases hc with rfl | rfl <;> simp +decide [IntBody.goesOn]

/-- A decimal spelling does not look like the prefix of a hexadecimal one. -/
theorem not_prefix_of_decimal {ds : List UInt8} (ne : ds ≠ []) (digits : ∀ d ∈ ds, isDigit d = true)
    (ht : t.head?.any (IntBody.decimal ds ne digits).goesOn = false) :
    (((ds ++ t)[0]?).any (· = '0'.toUInt8) &&
      ((ds ++ t)[1]?).any fun c => c = 'x'.toUInt8 || c = 'X'.toUInt8) = false := by
  cases ds with
  | nil => exact absurd rfl ne
  | cons d ds =>
    by_cases hzero : d = '0'.toUInt8
    · subst hzero
      cases ds with
      | nil =>
        cases t with
        | nil => rfl
        | cons c t =>
          have hc : (bytes "xX").contains c = false := (Bool.or_eq_false_iff.1 ht).2
          rw [show bytes "xX" = ['x'.toUInt8, 'X'.toUInt8] from rfl] at hc
          simpa using hc
      | cons e ds =>
        have he := digits e (by simp)
        have hx : e ≠ 'x'.toUInt8 := by
          rintro rfl
          exact absurd he (by decide)
        have hX : e ≠ 'X'.toUInt8 := by
          rintro rfl
          exact absurd he (by decide)
        simp [hx, hX]
    · simp [hzero]

theorem numberFraction_eq {ds : List UInt8} (ne : ds ≠ []) (digits : ∀ d ∈ ds, isDigit d = true)
    (hrest : lex.rest = ds ++ t) (ht : t.head?.any (IntBody.decimal ds ne digits).goesOn = false) :
    lex.numberFraction = .ok (lex.advance ds.length, false) := by
  have hbehind : (lex.advance ds.length).rest = t := (moves_advance lex ds.length).rest_of_append hrest
  have hdigit : t.head?.any isDigit = false := by
    cases t with
    | nil => rfl
    | cons c t => exact (Bool.or_eq_false_iff.1 (Bool.or_eq_false_iff.1 ht).1).1
  have hpoint : t.head?.any (· = '.'.toUInt8) = false := by
    cases t with
    | nil => rfl
    | cons c t =>
      have hc := (Bool.or_eq_false_iff.1 (Bool.or_eq_false_iff.1 ht).1).2
      refine decide_eq_false ?_
      rintro rfl
      exact absurd hc (by decide)
  unfold numberFraction
  rw [advanceWhile_eq hrest digits hdigit]
  show (ahead _ 0 _ >>= _) = _
  rw [ahead_zero, head?_rest, hbehind, hpoint]
  rfl

theorem numberExponent_eq {ds : List UInt8} (ne : ds ≠ []) (digits : ∀ d ∈ ds, isDigit d = true)
    (hrest : lex.rest = t) (ht : t.head?.any (IntBody.decimal ds ne digits).goesOn = false) :
    lex.numberExponent false = .ok (lex, false) := by
  have hexponent : t.head?.any (fun c => c = 'e'.toUInt8 || c = 'E'.toUInt8) = false := by
    cases t with
    | nil => rfl
    | cons c t =>
      have hc := (Bool.or_eq_false_iff.1 (Bool.or_eq_false_iff.1 ht).1).2
      refine Bool.or_eq_false_iff.2 ⟨decide_eq_false ?_, decide_eq_false ?_⟩
      · rintro rfl
        exact absurd hc (by decide)
      · rintro rfl
        exact absurd hc (by decide)
  unfold numberExponent
  rw [ahead_zero, head?_rest, hrest, hexponent]
  rfl

theorem numberDigits_eq (hrest : lex.rest = body.spelling ++ t) (ht : t.head?.any body.goesOn = false) :
    lex.numberDigits = .ok (lex.advance body.spelling.length, false) := by
  unfold numberDigits
  rw [ahead_eq, ahead_eq, getElem?_rest, getElem?_rest, hrest]
  show (if _ then _ else _) = _
  cases body with
  | decimal ds ne digits =>
    have hbehind : (lex.advance ds.length).rest = t := (moves_advance lex ds.length).rest_of_append hrest
    have hspelling : (IntBody.decimal ds ne digits).spelling = ds := rfl
    rw [hspelling, if_neg (Bool.eq_false_iff.1 (not_prefix_of_decimal ne digits ht)),
      numberFraction_eq ne digits hrest ht]
    exact numberExponent_eq ne digits hbehind ht
  | hex x ds isX digits =>
    have hstart : (lex.advance 2).rest = ds ++ t := by
      rw [(moves_advance lex 2).rest_eq, hrest]
      rfl
    have hds : ∀ d ∈ ds, (isXDigit d || d = '_'.toUInt8) = true := by
      intro d hd
      simpa using digits d hd
    have hlen : lex.advance (IntBody.hex x ds isX digits).spelling.length = (lex.advance 2).advance ds.length := by
      rw [advance_advance, Nat.add_comm]
      rfl
    rw [if_pos (by simpa [IntBody.spelling] using isX), advanceWhile_eq hstart hds ht, hlen]
    rfl

theorem numberSuffix_eq (hrest : lex.rest = suffix ++ r) (hsuffix : IntSuffix suffix)
    (hplain : suffix = [] → r.head?.any startsSuffix = false) (hwidth : suffix ≠ [] → r.head?.any isDigit = false) :
    lex.numberSuffix = .ok (lex.advance suffix.length) := by
  unfold numberSuffix
  rw [ahead_zero, head?_rest, hrest]
  show (if _ then _ else _) = _
  cases hsuffix with
  | none =>
    have hno := hplain rfl
    rw [List.nil_append]
    unfold startsSuffix at hno
    rw [hno, List.length_nil, advance_zero]
    rfl
  | @width c ds hc hds =>
    have hstart : (lex.advance 1).rest = ds ++ r := (moves_advance lex 1).rest_of_cons hrest
    have hc' : c = 'i'.toUInt8 ∨ c = 'f'.toUInt8 ∨ c = 'u'.toUInt8 := hc.imp_right .inr
    rw [if_pos (by simpa [or_assoc] using hc'), advanceWhile_eq hstart hds (hwidth (List.cons_ne_nil _ _)),
      advance_advance,
      List.length_cons, Nat.add_comm]

/-- The scanner goes over the whole literal and finds an integer. -/
theorem numberEnd_eq (hrest : lex.rest = body.spelling ++ (suffix ++ r)) (hsuffix : IntSuffix suffix)
    (hends : EndsAt body suffix r) :
    lex.numberEnd = .ok (lex.advance (body.spelling ++ suffix).length, false) := by
  have hbehind := (moves_advance lex body.spelling.length).rest_of_append hrest
  have hplain : suffix = [] → r.head?.any startsSuffix = false := by
    intro h
    have hplain := hends.plain h
    cases r with
    | nil => rfl
    | cons c r => exact (Bool.or_eq_false_iff.1 hplain).2
  unfold numberEnd
  rw [numberDigits_eq hrest (EndsAt.behind_body hends hsuffix)]
  show (numberSuffix _ >>= _) = _
  rw [numberSuffix_eq hbehind hsuffix hplain hends.width, advance_advance, List.length_append]
  rfl

/-! ## The token -/

/-- What `flux_lexer_next` returns at an integer literal. -/
theorem next_of_literal (hskip : lex.fluxLexerSkipWhitespaceAndComments = .ok l) (hscanner : l.scanner = .ok .number)
    (hrest : l.rest = body.spelling ++ (suffix ++ r)) (hsuffix : IntSuffix suffix) (hends : EndsAt body suffix r)
    (hlen : (body.spelling ++ suffix).length ≤ fluxTokenTextMax - 1) :
    lex.fluxLexerNext = .ok ({ l.token .NUMBER (body.spelling ++ suffix) with
      value := .int (Int32.ofNat (strtol (body.spelling ++ suffix))) },
      l.advance (body.spelling ++ suffix).length) := by
  have hne : body.spelling ≠ [] := by
    cases body with
    | decimal ds ne digits => exact ne
    | hex x ds isX digits => exact List.cons_ne_nil _ _
  have hroom : (body.spelling ++ suffix).length ≤ l.sourceLen - l.pos := by
    rw [← length_rest, hrest, ← List.append_assoc]
    simp only [List.length_append]
    omega
  have hpos : 0 < (body.spelling ++ suffix).length := List.length_pos_iff.2 (by simp [hne])
  have hmoves := moves_advance l (body.spelling ++ suffix).length
  have hinside : (l.advance (body.spelling ++ suffix).length).pos ≤
      (l.advance (body.spelling ++ suffix).length).sourceLen := by
    rw [hmoves.pos, hmoves.sourceLen_eq]
    omega
  have htext : (l.advance (body.spelling ++ suffix).length).copyText l.pos = .ok (body.spelling ++ suffix) := by
    rw [copyText_of_moves hmoves hlen hinside, hrest, ← List.append_assoc, List.take_left]
  rw [next_of_scanner hskip (by omega) hscanner]
  show (l.numberEnd >>= _) = _
  rw [numberEnd_eq hrest hsuffix hends]
  show (copyText _ l.pos >>= _) = _
  rw [htext]
  rfl

theorem int32_ofNat_eq_iff {m n : Nat} (hm : m < 2 ^ 31) (hn : n < 2 ^ 31) :
    Int32.ofNat m = Int32.ofNat n ↔ m = n := by
  refine ⟨fun h => ?_, congrArg _⟩
  have hint := congrArg Int32.toInt h
  rw [Int32.toInt_ofNat_of_lt hm, Int32.toInt_ofNat_of_lt hn] at hint
  exact Int.ofNat_inj.1 hint

/-- The `int` of the token is the value of the literal exactly if the literal is read back. -/
theorem intVal_eq_iff (body : IntBody) (hsuffix : IntSuffix suffix) (hvalue : body.value < 2 ^ 31) :
    Int32.ofNat (strtol (body.spelling ++ suffix)) = Int32.ofNat body.value ↔ body.ReadsBack := by
  have hle := body.read_le_value
  have hread : strtol (body.spelling ++ suffix) = body.read := by
    rw [strtol, literalValue_spelling body hsuffix, Nat.min_eq_left]
    omega
  rw [hread, int32_ofNat_eq_iff (by omega) hvalue, body.read_eq_value_iff]

end FluxLexer

/-! ## The node -/

/-- The parser stands at the token, behind which the lexer goes on. -/
def FluxParser.standAt (p : FluxParser FluxLexer) (tok : FluxToken) (lex : FluxLexer) : FluxParser FluxLexer :=
  { p with source := some (lex, fluxLexerFns), peekTok := some tok }

/-- The parser has a free node, and the token behind the one it stands at is no float in its eyes and is converted to
`val`. -/
def ReadsBehind (p : FluxParser FluxLexer) (lex : FluxLexer) (val : Int64) : Prop :=
  p.pool < astPoolSize ∧ ∃ tok l, lex.fluxLexerNext = .ok (tok, l) ∧ looksFloat (cString tok.text) = false ∧
    strtoll (cString tok.text) = val

section

variable {p : FluxParser FluxLexer} {tok tok' : FluxToken} {lex l : FluxLexer}

theorem parserNext_standAt (h : lex.fluxLexerNext = .ok (tok', l)) :
    (p.standAt tok lex).parserNext = .ok (p.standAt tok' l) := by
  simp only [FluxParser.parserNext, FluxParser.standAt, fluxLexerFns, h]
  rfl

theorem primaryNumber_of_next (h : lex.fluxLexerNext = .ok (tok', l)) :
    (p.standAt tok lex).primaryNumber = .ok (if looksFloat (cString tok'.text) then
      (p.standAt tok' l).astMakeLiteralFloat (cString tok'.text)
      else (p.standAt tok' l).astMakeLiteralInt (strtoll (cString tok'.text))) := by
  unfold FluxParser.primaryNumber
  rw [parserNext_standAt h]
  exact (apply_ite Except.ok _ _ _).symm

theorem primaryNumber_of_error {e : LexFault} (h : lex.fluxLexerNext = .error e) :
    (p.standAt tok lex).primaryNumber = .error (.lexer e) := by
  simp only [FluxParser.primaryNumber, FluxParser.parserNext, FluxParser.standAt, fluxLexerFns, h]
  rfl

end

/-- `parse_primary` at a number token makes the node of an integer exactly if the token behind it reads as that. -/
theorem primaryNumber_iff (p : FluxParser FluxLexer) {tok : FluxToken} (htype : tok.type = .NUMBER) (lex : FluxLexer)
    (val : Int64) :
    (∃ fuel q, (p.standAt tok lex).parsePrimary fuel = .ok (.int val, q)) ↔ ReadsBehind p lex val := by
  have hprimary (fuel : Nat) :
      (p.standAt tok lex).parsePrimary (fuel + 1) = (p.standAt tok lex).primaryNumber := by
    have hpeek : (p.standAt tok lex).parserPeekType = .NUMBER := htype
    rw [FluxParser.parsePrimary, hpeek]
  have hcases : (∃ fuel q, (p.standAt tok lex).parsePrimary fuel = .ok (.int val, q)) ↔
      ∃ q, (p.standAt tok lex).primaryNumber = .ok (.int val, q) := by
    constructor
    · rintro ⟨fuel, q, h⟩
      cases fuel with
      | zero => rw [FluxParser.parsePrimary] at h; cases h
      | succ fuel => exact ⟨q, hprimary fuel ▸ h⟩
    · rintro ⟨q, h⟩
      exact ⟨1, q, (hprimary 0).trans h⟩
  rw [hcases, ReadsBehind]
  cases hnext : lex.fluxLexerNext with
  | error e =>
    constructor
    · rintro ⟨q, h⟩
      rw [primaryNumber_of_error hnext] at h
      cases h
    · rintro ⟨-, tok', l, h, -⟩
      cases h
  | ok t =>
    rw [primaryNumber_of_next (hnext : lex.fluxLexerNext = .ok (t.1, t.2))]
    by_cases hfloat : looksFloat (cString t.1.text) = true
    · rw [if_pos hfloat]
      constructor
      · rintro ⟨q, h⟩
        unfold FluxParser.astMakeLiteralFloat FluxParser.exprAlloc at h
        split_ifs at h <;> cases h
      · rintro ⟨-, tok', l, h, hno, -⟩
        obtain rfl := Except.ok.inj h
        rw [hno] at hfloat
        cases hfloat
    · rw [if_neg hfloat]
      unfold FluxParser.astMakeLiteralInt FluxParser.exprAlloc
      constructor
      · rintro ⟨q, h⟩
        split_ifs at h with hpool
        · obtain ⟨hnode, -⟩ := Prod.mk.inj (Except.ok.inj h)
          exact ⟨hpool, t.1, t.2, rfl, Bool.eq_false_iff.2 hfloat, ExprNode.int.inj hnode⟩
        · cases h
      · rintro ⟨hpool, tok', l, h, -, hval⟩
        obtain rfl := Except.ok.inj h
        rw [if_pos (show (p.standAt tok' l).pool < astPoolSize from hpool), hval]
        exact ⟨_, rfl⟩

/-- The literal in front of the lexer becomes a number token with the value, if it is an `int`, and `parse_primary`
makes a node with the value from that token, if it is an `int64_t`. -/
def IntegerRight (lex : FluxLexer) (p : FluxParser FluxLexer) (value : Nat) : Prop :=
  ∃ tok l, lex.fluxLexerNext = .ok (tok, l) ∧ tok.type = .NUMBER ∧
    (value < 2 ^ 31 → tok.value = .int (Int32.ofNat value)) ∧
    (value < 2 ^ 63 → ∃ fuel q, (p.standAt tok l).parsePrimary fuel = .ok (.int (Int64.ofNat value), q))

/-- An integer literal becomes a token and a node with its value exactly if it is read back, where its value is an
`int`, and the token behind it reads the same, where its value is an `int64_t`. -/
theorem integer_right_iff (lex l : FluxLexer) (p : FluxParser FluxLexer) (body : IntBody) (suffix r : List UInt8)
    (hsuffix : IntSuffix suffix) (hskip : lex.fluxLexerSkipWhitespaceAndComments = .ok l)
    (hscanner : l.scanner = .ok .number) (hrest : l.rest = body.spelling ++ (suffix ++ r))
    (hends : EndsAt body suffix r)
    (hlen : (body.spelling ++ suffix).length ≤ fluxTokenTextMax - 1) :
    IntegerRight lex p body.value ↔ (body.value < 2 ^ 31 → body.ReadsBack) ∧
      (body.value < 2 ^ 63 →
        ReadsBehind p (l.advance (body.spelling ++ suffix).length) (Int64.ofNat body.value)) := by
  have hnext := FluxLexer.next_of_literal hskip hscanner hrest hsuffix hends hlen
  have hint := FluxLexer.intVal_eq_iff body hsuffix
  constructor
  · rintro ⟨tok, l', hnext', htype, hval, hnode⟩
    obtain ⟨rfl, rfl⟩ := Prod.mk.inj (Except.ok.inj (hnext.symm.trans hnext'))
    refine ⟨fun hlt => ?_, fun hlt => ?_⟩
    · exact (hint hlt).1 (NumberValue.int.inj (hval hlt))
    · exact (primaryNumber_iff p rfl _ _).1 (hnode hlt)
  · rintro ⟨hback, hbehind⟩
    refine ⟨_, _, hnext, rfl, fun hlt => ?_, fun hlt => ?_⟩
    · exact congrArg NumberValue.int ((hint hlt).2 (hback hlt))
    · exact (primaryNumber_iff p rfl _ _).2 (hbehind hlt)

/-- `7 7` at the start of a source. -/
def sevens : FluxLexer := { source := bytes "7 7\n", pos := 0, line := 1, col := 1, parenDepth := 0 }

/-- A literal that is read back, with the same literal behind it. -/
theorem integer_right_sevens : IntegerRight sevens (fluxParserInit FluxLexer) 7 := by
  refine (integer_right_iff sevens sevens (fluxParserInit FluxLexer)
    (.decimal (bytes "7") (by decide) (by decide +kernel)) [] (bytes " 7\n") .none (by decide) (by decide) (by decide)
    ⟨fun _ => by decide, fun h => absurd rfl h⟩ (by decide)).2 ⟨fun _ => .inl (by decide), fun _ => ⟨by decide, ?_⟩⟩
  exact ⟨{ (sevens.advance 2).token .NUMBER (bytes "7") with value := .int 7 }, sevens.advance 3, by decide,
    by decide,
    by decide⟩

/-- `010` at the start of a source. -/
def leadingZero : FluxLexer := { source := bytes "010\n", pos := 0, line := 1, col := 1, parenDepth := 0 }

/-- The literal `010` becomes a token with the number 8. -/
theorem leadingZero_not_right :
    ∃ body : IntBody, leadingZero.scanner = .ok .number ∧ leadingZero.rest = body.spelling ++ ([] ++ bytes "\n") ∧
      EndsAt body [] (bytes "\n") ∧ body.value = 10 ∧
      ¬ IntegerRight leadingZero (fluxParserInit FluxLexer) body.value := by
  refine ⟨.decimal (bytes "010") (by decide) (by decide +kernel), by decide, by decide,
    ⟨fun _ => by decide, fun h => absurd rfl h⟩, by decide, ?_⟩
  rintro ⟨tok, l, hnext, -, hval, -⟩
  have height : leadingZero.fluxLexerNext =
      .ok ({ leadingZero.token .NUMBER (bytes "010") with value := .int 8 }, leadingZero.advance 3) := by decide
  obtain ⟨rfl, -⟩ := Prod.mk.inj (Except.ok.inj (height.symm.trans hnext))
  exact absurd (hval (by decide)) (by decide)

end FluxOs
