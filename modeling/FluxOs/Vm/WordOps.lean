import FluxOs.Lib.Lanes
import FluxOs.Lib.Masks
import FluxOs.Vm.Words
import Mathlib.Tactic.IntervalCases

/-!
# The word helpers on bits

What `clz64`, `ctz64`, `popcount64`, `bswap64`, `rotl64` and `rotr64` compute, in terms of the bits of a word.  All
of their shifts are by less than 64, with one exception: a rotation by a multiple of 64 shifts by 64, which C
leaves undefined (`word_ops_right_iff`).
-/

namespace FluxOs

open Lanes Masks

variable {x y n : UInt64} {k m s : Nat}

/-! ## The operations on bits -/

/-- The number of clear bits above the highest set bit. -/
def leadingZeros (x : UInt64) : Nat := ((List.range 64).takeWhile fun k => !hasBit x (63 - k)).length

/-- The number of clear bits below the lowest set bit. -/
def trailingZeros (x : UInt64) : Nat := ((List.range 64).takeWhile fun k => !hasBit x k).length

/-- The number of set bits. -/
def setBits (x : UInt64) : Nat := (List.range 64).countP (hasBit x)

theorem length_takeWhile_range {p : Nat → Bool} {n : Nat} (hn : n < m) (hall : ∀ k < n, p k = true)
    (hstop : p n = false) : ((List.range m).takeWhile p).length = n := by
  have hlt : n < (List.range m).length := by rwa [List.length_range]
  have hpre : ∀ k ∈ (List.range m).take n, p k = true := by
    intro k hk
    rw [List.take_range] at hk
    exact hall k (Nat.lt_of_lt_of_le (List.mem_range.1 hk) (Nat.min_le_left ..))
  rw [← List.take_append_drop n (List.range m), List.takeWhile_append_of_pos hpre, List.drop_eq_getElem_cons hlt,
    List.getElem_range, List.takeWhile_cons_of_neg (by simp [hstop]), List.append_nil, List.length_take]
  omega

theorem leadingZeros_eq {n : Nat} (hn : n < 64) (hlow : 2 ^ (63 - n) ≤ x.toNat) (hhigh : x.toNat < 2 ^ (64 - n)) :
    leadingZeros x = n := by
  refine length_takeWhile_range hn (fun k hk => ?_) ?_
  · have hclear : x.toNat.testBit (63 - k) = false := by
      apply Nat.testBit_lt_two_pow
      exact Nat.lt_of_lt_of_le hhigh (Nat.pow_le_pow_right (by decide) (by omega))
    rw [hasBit_eq_testBit, hclear]
    rfl
  · have hset : x.toNat.testBit (63 - n) = true := by
      apply Nat.testBit_of_two_pow_le_and_two_pow_add_one_gt hlow
      rwa [show 63 - n + 1 = 64 - n by omega]
    rw [hasBit_eq_testBit, hset]
    rfl

theorem trailingZeros_eq {n q : Nat} (hn : n < 64) (hx : x.toNat = 2 ^ n * (2 * q + 1)) : trailingZeros x = n := by
  refine length_takeWhile_range hn (fun k hk => ?_) ?_
  · rw [hasBit_eq_testBit, hx, Nat.testBit_two_pow_mul]
    simp
    omega
  · rw [hasBit_eq_testBit, hx, Nat.testBit_two_pow_mul]
    simp

/-! ## Leading and trailing zeros -/

/-- A stage of `clz64`: the count and the shifted word. -/
def clzStage (limit s : UInt64) (p : UInt64 × UInt64) : UInt64 × UInt64 :=
  if p.2 ≤ limit then (p.1 + s, p.2 <<< s) else p

/-- The word was shifted by the count, without losing a bit, and is at least `2 ^ m`. -/
structure ShiftedUp (x : UInt64) (m : Nat) (p : UInt64 × UInt64) : Prop where
  eq : p.2.toNat = x.toNat * 2 ^ p.1.toNat
  le : 2 ^ m ≤ p.2.toNat
  count : p.1.toNat ≤ m

theorem ShiftedUp.stage {limit s : UInt64} {p : UInt64 × UInt64} (h : ShiftedUp x m p)
    (hm : m + 2 * s.toNat = 64) (hlimit : limit.toNat + 1 = 2 ^ (64 - s.toNat)) :
    ShiftedUp x (m + s.toNat) (clzStage limit s p) := by
  have hroom : 2 ^ (64 - s.toNat) * 2 ^ s.toNat = 2 ^ 64 := by
    rw [← Nat.pow_add]
    congr 1
    omega
  unfold clzStage
  split_ifs with hsmall
  · rw [UInt64.le_iff_toNat_le] at hsmall
    have hcount : (p.1 + s).toNat = p.1.toNat + s.toNat := by
      have hle := h.count
      rw [UInt64.toNat_add]
      omega
    have hshift : (p.2 <<< s).toNat = p.2.toNat * 2 ^ s.toNat := by
      have hlt : p.2.toNat * 2 ^ s.toNat < 2 ^ 64 := by
        rw [← hroom]
        apply Nat.mul_lt_mul_of_pos_right _ (Nat.two_pow_pos _)
        omega
      rw [UInt64.toNat_shiftLeft, Nat.mod_eq_of_lt (show s.toNat < 64 by omega), Nat.shiftLeft_eq,
        Nat.mod_eq_of_lt hlt]
    refine ⟨?_, ?_, ?_⟩
    · show (p.2 <<< s).toNat = x.toNat * 2 ^ (p.1 + s).toNat
      rw [hshift, hcount, h.eq, Nat.pow_add, Nat.mul_assoc]
    · show 2 ^ (m + s.toNat) ≤ (p.2 <<< s).toNat
      rw [hshift, Nat.pow_add]
      exact Nat.mul_le_mul_right _ h.le
    · show (p.1 + s).toNat ≤ m + s.toNat
      rw [hcount]
      exact Nat.add_le_add_right h.count _
  · rw [UInt64.le_iff_toNat_le] at hsmall
    refine ⟨h.eq, ?_, Nat.le_add_right_of_le h.count⟩
    rw [show m + s.toNat = 64 - s.toNat by omega]
    omega

theorem clzStage_fst {limit s : UInt64} {p : UInt64 × UInt64} :
    (clzStage limit s p).1 = if p.2 ≤ limit then p.1 + s else p.1 := by
  unfold clzStage
  split_ifs <;> rfl

theorem clz64_eq (x : UInt64) (hx : x ≠ 0) : clz64 x =
    (clzStage 0x7FFFFFFFFFFFFFFF 1 (clzStage 0x3FFFFFFFFFFFFFFF 2 (clzStage 0x0FFFFFFFFFFFFFFF 4
      (clzStage 0x00FFFFFFFFFFFFFF 8 (clzStage 0x0000FFFFFFFFFFFF 16
        (clzStage 0x00000000FFFFFFFF 32 (0, x))))))).1 := by
  unfold clz64
  rw [if_neg hx, clzStage_fst]
  rfl

theorem ShiftedUp.leadingZeros_eq {p : UInt64 × UInt64} (h : ShiftedUp x 63 p) : leadingZeros x = p.1.toNat := by
  have hcount := h.count
  have hlt := p.2.toNat_lt
  have hle := h.le
  rw [h.eq] at hlt hle
  refine FluxOs.leadingZeros_eq (by omega) ?_ ?_
  · apply Nat.le_of_mul_le_mul_right _ (Nat.two_pow_pos p.1.toNat)
    rwa [← Nat.pow_add, Nat.sub_add_cancel hcount]
  · apply Nat.lt_of_mul_lt_mul_right (a := 2 ^ p.1.toNat)
    rwa [← Nat.pow_add, Nat.sub_add_cancel (by omega)]

theorem toNat_pos_of_ne_zero (hx : x ≠ 0) : 0 < x.toNat := by
  apply Nat.pos_of_ne_zero
  intro h
  exact hx (UInt64.toNat_inj.1 h)

theorem clz64_right (x : UInt64) : (clz64 x).toNat = leadingZeros x := by
  by_cases hx : x = 0
  · subst hx
    decide
  · have h₀ : ShiftedUp x 0 (0, x) := ⟨(Nat.mul_one _).symm, toNat_pos_of_ne_zero hx, Nat.le_refl _⟩
    have h₁ := h₀.stage (s := 32) (by decide) (by decide : (0x00000000FFFFFFFF : UInt64).toNat + 1 = _)
    have h₂ := h₁.stage (s := 16) (by decide) (by decide : (0x0000FFFFFFFFFFFF : UInt64).toNat + 1 = _)
    have h₃ := h₂.stage (s := 8) (by decide) (by decide : (0x00FFFFFFFFFFFFFF : UInt64).toNat + 1 = _)
    have h₄ := h₃.stage (s := 4) (by decide) (by decide : (0x0FFFFFFFFFFFFFFF : UInt64).toNat + 1 = _)
    have h₅ := h₄.stage (s := 2) (by decide) (by decide : (0x3FFFFFFFFFFFFFFF : UInt64).toNat + 1 = _)
    have h₆ := h₅.stage (s := 1) (by decide) (by decide : (0x7FFFFFFFFFFFFFFF : UInt64).toNat + 1 = _)
    rw [clz64_eq x hx]
    generalize clzStage 0x7FFFFFFFFFFFFFFF 1 _ = p at h₆ ⊢
    exact h₆.leadingZeros_eq.symm

/-- A stage of `ctz64`. -/
def ctzStage (mask s : UInt64) (p : UInt64 × UInt64) : UInt64 × UInt64 :=
  if p.2 &&& mask = 0 then (p.1 + s, p.2 >>> s) else p

/-- The word was shifted down by the count, past clear bits only, and is no multiple of `2 ^ m`. -/
structure ShiftedDown (x : UInt64) (m : Nat) (p : UInt64 × UInt64) : Prop where
  eq : x.toNat = p.2.toNat * 2 ^ p.1.toNat
  not_dvd : ¬ 2 ^ m ∣ p.2.toNat
  count : p.1.toNat + m ≤ 64

theorem ShiftedDown.stage {mask s : UInt64} {p : UInt64 × UInt64} (h : ShiftedDown x m p)
    (hm : m = 2 * s.toNat) (hs : s.toNat < 64) (hmask : mask.toNat = 2 ^ s.toNat - 1) :
    ShiftedDown x s.toNat (ctzStage mask s p) := by
  have hcount := h.count
  have hzero : p.2 &&& mask = 0 ↔ 2 ^ s.toNat ∣ p.2.toNat := by
    rw [← UInt64.toNat_inj, UInt64.toNat_and, hmask, Nat.and_two_pow_sub_one_eq_mod, Nat.dvd_iff_mod_eq_zero]
    rfl
  unfold ctzStage
  split_ifs with hclear
  · obtain ⟨q, hq⟩ := hzero.1 hclear
    have hadd : (p.1 + s).toNat = p.1.toNat + s.toNat := by
      rw [UInt64.toNat_add]
      omega
    have hshift : (p.2 >>> s).toNat = q := by
      rw [UInt64.toNat_shiftRight, Nat.mod_eq_of_lt hs, Nat.shiftRight_eq_div_pow, hq,
        Nat.mul_div_cancel_left _ (Nat.two_pow_pos _)]
    refine ⟨?_, ?_, ?_⟩
    · show x.toNat = (p.2 >>> s).toNat * 2 ^ (p.1 + s).toNat
      rw [hshift, hadd, h.eq, hq, Nat.pow_add]
      ac_rfl
    · show ¬ 2 ^ s.toNat ∣ (p.2 >>> s).toNat
      rw [hshift]
      intro hq'
      apply h.not_dvd
      rw [hm, hq, Nat.two_mul, Nat.pow_add]
      exact Nat.mul_dvd_mul_left _ hq'
    · show (p.1 + s).toNat + s.toNat ≤ 64
      omega
  · exact ⟨h.eq, fun hdvd => hclear (hzero.2 hdvd), by omega⟩

theorem ctzStage_fst {mask s : UInt64} {p : UInt64 × UInt64} :
    (ctzStage mask s p).1 = if p.2 &&& mask = 0 then p.1 + s else p.1 := by
  unfold ctzStage
  split_ifs <;> rfl

theorem ctz64_eq (x : UInt64) (hx : x ≠ 0) : ctz64 x =
    (ctzStage 0x0000000000000001 1 (ctzStage 0x0000000000000003 2 (ctzStage 0x000000000000000F 4
      (ctzStage 0x00000000000000FF 8 (ctzStage 0x000000000000FFFF 16
        (ctzStage 0x00000000FFFFFFFF 32 (0, x))))))).1 := by
  unfold ctz64
  rw [if_neg hx, ctzStage_fst]
  rfl

theorem ShiftedDown.trailingZeros_eq {p : UInt64 × UInt64} (h : ShiftedDown x 1 p) :
    trailingZeros x = p.1.toNat := by
  have hcount := h.count
  have hodd : p.2.toNat % 2 = 1 := Nat.two_dvd_ne_zero.1 h.not_dvd
  refine FluxOs.trailingZeros_eq (q := p.2.toNat / 2) (by omega) ?_
  rw [h.eq, Nat.mul_comm]
  congr 1
  omega

theorem ctz64_right (x : UInt64) : (ctz64 x).toNat = trailingZeros x := by
  by_cases hx : x = 0
  · subst hx
    decide
  · have hnot : ¬ 2 ^ 64 ∣ x.toNat := fun h =>
      absurd (Nat.le_of_dvd (toNat_pos_of_ne_zero hx) h) (Nat.not_le.2 x.toNat_lt)
    have h₀ : ShiftedDown x 64 (0, x) := ⟨(Nat.mul_one _).symm, hnot, Nat.le_refl _⟩
    have h₁ := h₀.stage (s := 32) (by decide) (by decide) (by decide : (0x00000000FFFFFFFF : UInt64).toNat = _)
    have h₂ := h₁.stage (s := 16) (by decide) (by decide) (by decide : (0x000000000000FFFF : UInt64).toNat = _)
    have h₃ := h₂.stage (s := 8) (by decide) (by decide) (by decide : (0x00000000000000FF : UInt64).toNat = _)
    have h₄ := h₃.stage (s := 4) (by decide) (by decide) (by decide : (0x000000000000000F : UInt64).toNat = _)
    have h₅ := h₄.stage (s := 2) (by decide) (by decide) (by decide : (0x0000000000000003 : UInt64).toNat = _)
    have h₆ := h₅.stage (s := 1) (by decide) (by decide) (by decide : (0x0000000000000001 : UInt64).toNat = _)
    rw [ctz64_eq x hx]
    generalize ctzStage 0x0000000000000001 1 _ = p at h₆ ⊢
    exact h₆.trailingZeros_eq.symm

/-! ## Population count -/

/-- The bytes of a word, the lowest first. -/
def wordBytes (n : Nat) : List Nat := (List.range 8).map fun k => n / 256 ^ k % 256

theorem fits_wordBytes (n : Nat) : Fits 8 (wordBytes n) := by
  intro a ha
  obtain ⟨k, -, rfl⟩ := List.mem_map.1 ha
  exact Nat.mod_lt _ (by decide)

theorem pack_wordBytes (x : UInt64) : pack 8 (wordBytes x.toNat) = x.toNat := by
  have hlt := x.toNat_lt
  simp only [wordBytes, List.range, List.range.loop, List.map_cons, List.map_nil, pack, List.foldr]
  omega

/-- The sums of the neighbouring bits of a byte. -/
def pairSums (a : Nat) : Nat := a - ((a >>> 1) &&& 0x55)

/-- The sums of the neighbouring pairs. -/
def nibbleSums (a : Nat) : Nat := (a &&& 0x33) + ((a >>> 2) &&& 0x33)

/-- The sum of the two nibbles. -/
def byteSum (a : Nat) : Nat := (a + (a >>> 4)) &&& 0x0F

theorem byte_cases {a : Nat} (ha : a < 2 ^ 8) :
    (a >>> 1) &&& 0x55 ≤ a ∧ pairSums a < 2 ^ 8 ∧ nibbleSums (pairSums a) % 16 ≤ 7 ∧
      nibbleSums (pairSums a) / 16 ≤ 7 ∧ byteSum (nibbleSums (pairSums a)) = bitCount 8 a := by
  have hall : ∀ a < 2 ^ 8, (a >>> 1) &&& 0x55 ≤ a ∧ pairSums a < 2 ^ 8 ∧ nibbleSums (pairSums a) % 16 ≤ 7 ∧
      nibbleSums (pairSums a) / 16 ≤ 7 ∧ byteSum (nibbleSums (pairSums a)) = bitCount 8 a := by decide +kernel
  exact hall a ha

variable {L : List Nat}

theorem pack_pairSums (hL : Fits 8 L) (hlen : L.length = 8) :
    pack 8 L - ((pack 8 L >>> 1) &&& 0x5555555555555555) = pack 8 (L.map pairSums) := by
  have hmask : pack 8 (List.replicate L.length 0x55) = 0x5555555555555555 := by
    rw [hlen]
    decide
  have hid : pack 8 (L.map fun a => a) = pack 8 L := by rw [List.map_id']
  rw [← hmask, pack_shift_and_replicate hL (by decide), ← hid, pack_map_sub fun a ha => (byte_cases (hL a ha)).1]
  rfl

theorem pack_nibbleSums (hL : Fits 8 L) (hlen : L.length = 8) :
    (pack 8 L &&& 0x3333333333333333) + ((pack 8 L >>> 2) &&& 0x3333333333333333) =
      pack 8 (L.map nibbleSums) := by
  have hmask : pack 8 (List.replicate L.length 0x33) = 0x3333333333333333 := by
    rw [hlen]
    decide
  rw [← hmask, pack_shift_and_replicate hL (by decide), pack_and_replicate hL (by decide), pack_map_add]
  rfl

/-- Neighbouring nibbles are added without carries. -/
theorem pack_byteSum (hL : ∀ a ∈ L, a % 16 ≤ 7 ∧ a / 16 ≤ 7) :
    (pack 8 L + (pack 8 L >>> 4)) &&& pack 8 (List.replicate L.length 0x0F) = pack 8 (L.map byteSum) := by
  induction L with
  | nil => simp [pack]
  | cons a L ih =>
    have ha := hL a List.mem_cons_self
    have hrest := ih fun b hb => hL b (List.mem_cons_of_mem a hb)
    have hnext : pack 8 L % 16 ≤ 7 := by
      cases L with
      | nil => simp [pack]
      | cons b L =>
        have hb := hL b (List.mem_cons_of_mem a List.mem_cons_self)
        rw [pack_cons]
        omega
    have hshift : (pack 8 (a :: L) + (pack 8 (a :: L) >>> 4)) =
        (a + a / 16 + 16 * (pack 8 L % 16)) + 2 ^ 8 * (pack 8 L + (pack 8 L >>> 4)) := by
      rw [pack_cons, Nat.shiftRight_eq_div_pow, Nat.shiftRight_eq_div_pow]
      omega
    have hlow : (a + a / 16 + 16 * (pack 8 L % 16)) &&& 0x0F = byteSum a := by
      rw [byteSum, Nat.shiftRight_eq_div_pow, Nat.and_two_pow_sub_one_eq_mod _ 4, Nat.and_two_pow_sub_one_eq_mod _ 4]
      omega
    rw [List.length_cons, List.replicate_succ, hshift, pack_cons, and_lane (by omega) (by decide), hrest, hlow]
    rfl

theorem highest_byte {low mid high : Nat} (hlow : low < 2 ^ 56) (hmid : mid < 256) :
    ((low + 2 ^ 56 * mid + 2 ^ 64 * high) % 2 ^ 64) >>> 56 = mid := by
  rw [Nat.shiftRight_eq_div_pow]
  omega

/-- The multiplication adds the bytes up, in the highest byte. -/
theorem mul_sums {a b c d e f g h : Nat} (hsum : a + b + c + d + e + f + g + h < 256) :
    (pack 8 [a, b, c, d, e, f, g, h] * 0x0101010101010101 % 2 ^ 64) >>> 56 = a + b + c + d + e + f + g + h := by
  have hproduct : pack 8 [a, b, c, d, e, f, g, h] * 0x0101010101010101 =
      pack 8 [a, a + b, a + b + c, a + b + c + d, a + b + c + d + e, a + b + c + d + e + f,
        a + b + c + d + e + f + g] + 2 ^ 56 * (a + b + c + d + e + f + g + h) +
      2 ^ 64 * pack 8 [b + c + d + e + f + g + h, c + d + e + f + g + h, d + e + f + g + h, e + f + g + h,
        f + g + h, g + h, h] := by
    simp only [pack, List.foldr]
    omega
  have hlow : pack 8 [a, a + b, a + b + c, a + b + c + d, a + b + c + d + e, a + b + c + d + e + f,
        a + b + c + d + e + f + g] < 2 ^ 56 := by
    simp only [pack, List.foldr]
    omega
  rw [hproduct]
  exact highest_byte hlow hsum

theorem and_mask_of_mod (n : Nat) : n % 2 ^ 64 &&& 0x0F0F0F0F0F0F0F0F = n &&& 0x0F0F0F0F0F0F0F0F := by
  rw [← Nat.and_two_pow_sub_one_eq_mod, Nat.and_assoc]
  rfl

theorem toNat_popcount64 (x : UInt64) : (popcount64 x).toNat =
    (pack 8 ((((wordBytes x.toNat).map pairSums).map nibbleSums).map byteSum) * 0x0101010101010101 % 2 ^ 64) >>>
      56 := by
  have hL := fits_wordBytes x.toNat
  have hlen : (wordBytes x.toNat).length = 8 := rfl
  have hx := pack_wordBytes x
  generalize wordBytes x.toNat = L at hL hlen hx
  have hpairs : (x - ((x >>> 1) &&& (0x5555555555555555 : UInt64))).toNat = pack 8 (L.map pairSums) := by
    have hle : (x >>> 1) &&& (0x5555555555555555 : UInt64) ≤ x := by
      rw [UInt64.le_iff_toNat_le, UInt64.toNat_and, UInt64.toNat_shiftRight]
      exact Nat.le_trans Nat.and_le_left (Nat.shiftRight_le _ _)
    rw [UInt64.toNat_sub_of_le _ _ hle, UInt64.toNat_and, UInt64.toNat_shiftRight, ← pack_pairSums hL hlen, hx]
    rfl
  have hfits : Fits 8 (L.map pairSums) := by
    intro a ha
    obtain ⟨b, hb, rfl⟩ := List.mem_map.1 ha
    exact (byte_cases (hL b hb)).2.1
  have hnibbles : ∀ a ∈ (L.map pairSums).map nibbleSums, a % 16 ≤ 7 ∧ a / 16 ≤ 7 := by
    intro a ha
    rw [List.map_map] at ha
    obtain ⟨b, hb, rfl⟩ := List.mem_map.1 ha
    have hbyte := byte_cases (hL b hb)
    exact ⟨hbyte.2.2.1, hbyte.2.2.2.1⟩
  have hfits' : Fits 8 ((L.map pairSums).map nibbleSums) := by
    intro a ha
    have hnibble := hnibbles a ha
    omega
  unfold popcount64
  simp only
  generalize x - ((x >>> 1) &&& (0x5555555555555555 : UInt64)) = y at hpairs
  have hsums : ((y &&& (0x3333333333333333 : UInt64)) + ((y >>> 2) &&& (0x3333333333333333 : UInt64))).toNat =
      pack 8 ((L.map pairSums).map nibbleSums) := by
    have hlt := pack_lt hfits'
    rw [List.length_map, List.length_map, hlen] at hlt
    rw [← pack_nibbleSums hfits (by rw [List.length_map, hlen])] at hlt ⊢
    rw [UInt64.toNat_add, UInt64.toNat_and, UInt64.toNat_and, UInt64.toNat_shiftRight, hpairs]
    exact Nat.mod_eq_of_lt hlt
  generalize (y &&& (0x3333333333333333 : UInt64)) + ((y >>> 2) &&& (0x3333333333333333 : UInt64)) = z at hsums
  have hbytes : ((z + (z >>> 4)) &&& (0x0F0F0F0F0F0F0F0F : UInt64)).toNat =
      pack 8 (((L.map pairSums).map nibbleSums).map byteSum) := by
    have hmask : pack 8 (List.replicate ((L.map pairSums).map nibbleSums).length 0x0F) = 0x0F0F0F0F0F0F0F0F := by
      rw [List.length_map, List.length_map, hlen]
      decide
    rw [← pack_byteSum hnibbles, hmask, ← hsums, UInt64.toNat_and, UInt64.toNat_add, UInt64.toNat_shiftRight]
    exact and_mask_of_mod _
  rw [UInt64.toNat_shiftRight, UInt64.toNat_mul, hbytes]
  rfl

theorem popcount64_right (x : UInt64) : (popcount64 x).toNat = setBits x := by
  have hsum : setBits x = ((wordBytes x.toNat).map (bitCount 8)).sum := by
    rw [← bitCount_pack (fits_wordBytes _), pack_wordBytes]
    refine List.countP_congr fun k _ => ?_
    rw [hasBit_eq_testBit]
  have hbytes : (((wordBytes x.toNat).map pairSums).map nibbleSums).map byteSum =
      (wordBytes x.toNat).map (bitCount 8) := by
    rw [List.map_map, List.map_map]
    refine List.map_congr_left fun a ha => ?_
    exact (byte_cases (fits_wordBytes _ a ha)).2.2.2.2
  rw [toNat_popcount64, hbytes, hsum]
  simp only [wordBytes, List.range, List.range.loop, List.map_cons, List.map_nil, List.sum_cons, List.sum_nil]
  rw [mul_sums]
  · omega
  · have hle (k : Nat) := bitCount_le 8 (x.toNat / 256 ^ k % 256)
    have h₀ := hle 0
    have h₁ := hle 1
    have h₂ := hle 2
    have h₃ := hle 3
    have h₄ := hle 4
    have h₅ := hle 5
    have h₆ := hle 6
    have h₇ := hle 7
    omega

/-! ## Byte swap -/

/-- A stage of `bswap64`: the fields of `s` bits change places with their neighbours. -/
def swapStage (low high s x : UInt64) : UInt64 := ((x &&& low) <<< s) ||| ((x &&& high) >>> s)

/-- The bit that comes to place `k`. -/
def partner (s k : Nat) : Nat := if k / s % 2 = 0 then k + s else k - s

theorem hasBit_swapStage {low high s : UInt64} (hpos : 0 < s.toNat) (hs : s.toNat < 64)
    (hlow : ∀ k < 64, hasBit low k = decide (k / s.toNat % 2 = 0))
    (hhigh : ∀ k < 64, hasBit high k = decide (k / s.toNat % 2 = 1)) (hk : k < 64) :
    hasBit (swapStage low high s x) k = hasBit x (partner s.toNat k) := by
  have hup : (s.toNat + k) / s.toNat = k / s.toNat + 1 := Nat.add_div_left k hpos
  have hdown (hle : s.toNat ≤ k) : k / s.toNat = (k - s.toNat) / s.toNat + 1 := Nat.div_eq_sub_div hpos hle
  have hright : (hasBit x (s.toNat + k) && hasBit high (s.toNat + k)) =
      (hasBit x (s.toNat + k) && decide (k / s.toNat % 2 = 0)) := by
    by_cases hin : s.toNat + k < 64
    · rw [hhigh _ hin, hup]
      congr 1
      exact decide_eq_decide.2 (by omega)
    · rw [hasBit_of_ge (Nat.le_of_not_lt hin), Bool.false_and, Bool.false_and]
  unfold swapStage partner
  rw [hasBit_or, hasBit_shiftLeft, hasBit_shiftRight, hasBit_and, hasBit_and, Nat.mod_eq_of_lt hs, hright,
    hlow _ (by omega)]
  by_cases hle : s.toNat ≤ k
  · have hfield := hdown hle
    split_ifs with heven
    · have hodd : ¬ (k - s.toNat) / s.toNat % 2 = 0 := by omega
      simp [heven, hodd, Nat.add_comm]
    · have hodd : (k - s.toNat) / s.toNat % 2 = 0 := by omega
      simp [heven, hodd, hle, hk]
  · have heven : k / s.toNat % 2 = 0 := by rw [Nat.div_eq_of_lt (Nat.lt_of_not_le hle)]
    simp [heven, hle, Nat.add_comm]

theorem bswap64_eq (x : UInt64) : bswap64 x = swapStage 0x00FF00FF00FF00FF 0xFF00FF00FF00FF00 8
    (swapStage 0x0000FFFF0000FFFF 0xFFFF0000FFFF0000 16
      (swapStage 0x00000000FFFFFFFF 0xFFFFFFFF00000000 32 x)) := rfl

/-- The place of bit `k` when the order of the bytes is reversed. -/
def mirrored (k : Nat) : Nat := 8 * (7 - k / 8) + k % 8

theorem partner_partner (hk : k < 64) :
    partner 8 k < 64 ∧ partner 16 (partner 8 k) < 64 ∧ partner 32 (partner 16 (partner 8 k)) = mirrored k := by
  have hall : ∀ k < 64, partner 8 k < 64 ∧ partner 16 (partner 8 k) < 64 ∧
      partner 32 (partner 16 (partner 8 k)) = mirrored k := by decide
  exact hall k hk

theorem bswap64_right (x : UInt64) (hk : k < 64) : hasBit (bswap64 x) k = hasBit x (mirrored k) := by
  obtain ⟨h8, h16, heq⟩ := partner_partner hk
  rw [bswap64_eq]
  refine (hasBit_swapStage (by decide) (by decide) (by decide) (by decide) hk).trans ?_
  refine (hasBit_swapStage (by decide) (by decide) (by decide) (by decide) h8).trans ?_
  exact (hasBit_swapStage (by decide) (by decide) (by decide) (by decide) h16).trans (congrArg (hasBit x) heq)

theorem mirrored_mirrored (hk : k < 64) : mirrored k < 64 ∧ mirrored (mirrored k) = k := by
  unfold mirrored
  omega

theorem bswap64_bswap64 (x : UInt64) : bswap64 (bswap64 x) = x := by
  refine eq_of_hasBit fun k => ?_
  by_cases hk : k < 64
  · obtain ⟨hlt, hback⟩ := mirrored_mirrored hk
    rw [bswap64_right _ hk, bswap64_right _ hlt, hback]
  · rw [hasBit_of_ge (Nat.le_of_not_lt hk), hasBit_of_ge (Nat.le_of_not_lt hk)]

/-! ## Rotations -/

theorem toNat_and_63 (n : UInt64) : (n &&& 63).toNat = n.toNat % 64 := by
  rw [UInt64.toNat_and]
  exact Nat.and_two_pow_sub_one_eq_mod _ 6

theorem toNat_64_sub (n : UInt64) : (64 - (n &&& 63)).toNat = 64 - n.toNat % 64 := by
  have hle : (n &&& 63) ≤ 64 := by
    rw [UInt64.le_iff_toNat_le, toNat_and_63]
    exact Nat.le_of_lt (Nat.mod_lt _ (by decide))
  rw [UInt64.toNat_sub_of_le _ _ hle, toNat_and_63]
  rfl

theorem rotl64_right (x n : UInt64) (hk : k < 64) :
    hasBit (rotl64 x n) k = hasBit x ((k + (64 - n.toNat % 64)) % 64) := by
  unfold rotl64
  simp only
  rw [hasBit_or, hasBit_shiftLeft, hasBit_shiftRight, toNat_64_sub, toNat_and_63]
  have hr : n.toNat % 64 < 64 := Nat.mod_lt _ (by decide)
  generalize n.toNat % 64 = r at hr
  rw [Nat.mod_eq_of_lt hr]
  by_cases hzero : r = 0
  · subst hzero
    simp [hk, Nat.mod_eq_of_lt hk]
  · rw [Nat.mod_eq_of_lt (show 64 - r < 64 by omega)]
    by_cases hle : r ≤ k
    · have hout : hasBit x (64 - r + k) = false := hasBit_of_ge (by omega)
      have hplace : (k + (64 - r)) % 64 = k - r := by omega
      rw [hout, hplace]
      simp [hk, hle]
    · have hplace : (k + (64 - r)) % 64 = 64 - r + k := by omega
      rw [hplace]
      simp [hle]

theorem rotr64_right (x n : UInt64) (hk : k < 64) :
    hasBit (rotr64 x n) k = hasBit x ((k + n.toNat % 64) % 64) := by
  unfold rotr64
  simp only
  rw [hasBit_or, hasBit_shiftLeft, hasBit_shiftRight, toNat_64_sub, toNat_and_63]
  have hr : n.toNat % 64 < 64 := Nat.mod_lt _ (by decide)
  generalize n.toNat % 64 = r at hr
  rw [Nat.mod_eq_of_lt hr]
  by_cases hzero : r = 0
  · subst hzero
    simp [Nat.mod_eq_of_lt hk]
  · rw [Nat.mod_eq_of_lt (show 64 - r < 64 by omega)]
    by_cases hle : 64 - r ≤ k
    · have hout : hasBit x (r + k) = false := hasBit_of_ge (by omega)
      have hplace : (k + r) % 64 = k - (64 - r) := by omega
      rw [hout, hplace]
      simp [hk, hle]
    · have hplace : (k + r) % 64 = r + k := by omega
      rw [hplace]
      simp [hle]

theorem rotr64_rotl64 (x n : UInt64) : rotr64 (rotl64 x n) n = x := by
  refine eq_of_hasBit fun k => ?_
  by_cases hk : k < 64
  · rw [rotr64_right _ _ hk, rotl64_right _ _ (Nat.mod_lt _ (by decide))]
    congr 1
    omega
  · rw [hasBit_of_ge (Nat.le_of_not_lt hk), hasBit_of_ge (Nat.le_of_not_lt hk)]

theorem rotl64_rotr64 (x n : UInt64) : rotl64 (rotr64 x n) n = x := by
  refine eq_of_hasBit fun k => ?_
  by_cases hk : k < 64
  · rw [rotl64_right _ _ hk, rotr64_right _ _ (Nat.mod_lt _ (by decide))]
    congr 1
    omega
  · rw [hasBit_of_ge (Nat.le_of_not_lt hk), hasBit_of_ge (Nat.le_of_not_lt hk)]

/-! ## Shifts of the host

The same operations where a shift by 64 or more has no result. -/

def hostShl (x s : UInt64) : Option UInt64 := if s < 64 then some (x <<< s) else none

def hostShr (x s : UInt64) : Option UInt64 := if s < 64 then some (x >>> s) else none

def clzStageHost (limit s : UInt64) (p : UInt64 × UInt64) : Option (UInt64 × UInt64) :=
  if p.2 ≤ limit then (hostShl p.2 s).map fun y => (p.1 + s, y) else some p

def clz64Host (x : UInt64) : Option UInt64 :=
  if x = 0 then some 64
  else do
    let p ← clzStageHost 0x00000000FFFFFFFF 32 (0, x)
    let p ← clzStageHost 0x0000FFFFFFFFFFFF 16 p
    let p ← clzStageHost 0x00FFFFFFFFFFFFFF 8 p
    let p ← clzStageHost 0x0FFFFFFFFFFFFFFF 4 p
    let p ← clzStageHost 0x3FFFFFFFFFFFFFFF 2 p
    return if p.2 ≤ 0x7FFFFFFFFFFFFFFF then p.1 + 1 else p.1

def ctzStageHost (mask s : UInt64) (p : UInt64 × UInt64) : Option (UInt64 × UInt64) :=
  if p.2 &&& mask = 0 then (hostShr p.2 s).map fun y => (p.1 + s, y) else some p

def ctz64Host (x : UInt64) : Option UInt64 :=
  if x = 0 then some 64
  else do
    let p ← ctzStageHost 0x00000000FFFFFFFF 32 (0, x)
    let p ← ctzStageHost 0x000000000000FFFF 16 p
    let p ← ctzStageHost 0x00000000000000FF 8 p
    let p ← ctzStageHost 0x000000000000000F 4 p
    let p ← ctzStageHost 0x0000000000000003 2 p
    return if p.2 &&& 0x0000000000000001 = 0 then p.1 + 1 else p.1

def popcount64Host (x : UInt64) : Option UInt64 := do
  let x := x - ((← hostShr x 1) &&& 0x5555555555555555)
  let x := (x &&& 0x3333333333333333) + ((← hostShr x 2) &&& 0x3333333333333333)
  let x := (x + (← hostShr x 4)) &&& 0x0F0F0F0F0F0F0F0F
  hostShr (x * 0x0101010101010101) 56

def swapStageHost (low high s x : UInt64) : Option UInt64 := do
  return (← hostShl (x &&& low) s) ||| (← hostShr (x &&& high) s)

def bswap64Host (x : UInt64) : Option UInt64 := do
  let x ← swapStageHost 0x00000000FFFFFFFF 0xFFFFFFFF00000000 32 x
  let x ← swapStageHost 0x0000FFFF0000FFFF 0xFFFF0000FFFF0000 16 x
  swapStageHost 0x00FF00FF00FF00FF 0xFF00FF00FF00FF00 8 x

def rotl64Host (x n : UInt64) : Option UInt64 := do
  let n := n &&& 63
  return (← hostShl x n) ||| (← hostShr x (64 - n))

def rotr64Host (x n : UInt64) : Option UInt64 := do
  let n := n &&& 63
  return (← hostShr x n) ||| (← hostShl x (64 - n))

theorem clzStageHost_eq {limit s : UInt64} {p : UInt64 × UInt64} (hs : s < 64) :
    clzStageHost limit s p = some (clzStage limit s p) := by
  unfold clzStageHost clzStage hostShl
  rw [if_pos hs]
  split_ifs <;> rfl

theorem clz64Host_eq (x : UInt64) : clz64Host x = some (clz64 x) := by
  unfold clz64Host
  by_cases hx : x = 0
  · rw [if_pos hx, hx]
    rfl
  · rw [if_neg hx, clz64_eq x hx, clzStage_fst]
    simp only [clzStageHost_eq (show (32 : UInt64) < 64 by decide),
      clzStageHost_eq (show (16 : UInt64) < 64 by decide),
      clzStageHost_eq (show (8 : UInt64) < 64 by decide), clzStageHost_eq (show (4 : UInt64) < 64 by decide),
      clzStageHost_eq (show (2 : UInt64) < 64 by decide)]
    rfl

theorem ctzStageHost_eq {mask s : UInt64} {p : UInt64 × UInt64} (hs : s < 64) :
    ctzStageHost mask s p = some (ctzStage mask s p) := by
  unfold ctzStageHost ctzStage hostShr
  rw [if_pos hs]
  split_ifs <;> rfl

theorem ctz64Host_eq (x : UInt64) : ctz64Host x = some (ctz64 x) := by
  unfold ctz64Host
  by_cases hx : x = 0
  · rw [if_pos hx, hx]
    rfl
  · rw [if_neg hx, ctz64_eq x hx, ctzStage_fst]
    simp only [ctzStageHost_eq (show (32 : UInt64) < 64 by decide),
      ctzStageHost_eq (show (16 : UInt64) < 64 by decide),
      ctzStageHost_eq (show (8 : UInt64) < 64 by decide), ctzStageHost_eq (show (4 : UInt64) < 64 by decide),
      ctzStageHost_eq (show (2 : UInt64) < 64 by decide)]
    rfl

theorem popcount64Host_eq (x : UInt64) : popcount64Host x = some (popcount64 x) := rfl

theorem bswap64Host_eq (x : UInt64) : bswap64Host x = some (bswap64 x) := rfl

theorem and_63_lt (n : UInt64) : n &&& 63 < 64 := by
  rw [UInt64.lt_iff_toNat_lt, toNat_and_63]
  exact Nat.mod_lt _ (by decide)

/-- The other shift of a rotation is by less than 64 unless the count is a multiple of 64. -/
theorem sub_lt_64_iff (n : UInt64) : 64 - (n &&& 63) < 64 ↔ n.toNat % 64 ≠ 0 := by
  rw [UInt64.lt_iff_toNat_lt, toNat_64_sub]
  show 64 - n.toNat % 64 < 64 ↔ n.toNat % 64 ≠ 0
  omega

theorem rotl64Host_eq_iff (x n : UInt64) : rotl64Host x n = some (rotl64 x n) ↔ n.toNat % 64 ≠ 0 := by
  unfold rotl64Host hostShl hostShr
  simp only [if_pos (and_63_lt n), ← sub_lt_64_iff]
  split_ifs with hlt
  · exact iff_of_true rfl hlt
  · exact iff_of_false (fun h => by cases h) hlt

theorem rotr64Host_eq_iff (x n : UInt64) : rotr64Host x n = some (rotr64 x n) ↔ n.toNat % 64 ≠ 0 := by
  unfold rotr64Host hostShl hostShr
  simp only [if_pos (and_63_lt n), ← sub_lt_64_iff]
  split_ifs with hlt
  · exact iff_of_true rfl hlt
  · exact iff_of_false (fun h => by cases h) hlt

/-! ## All operations -/

/-- The operations on the word `x` and the count `n` do what they should, and shift by less than 64 only. -/
structure WordOpsRight (x n : UInt64) : Prop where
  clz : (clz64 x).toNat = leadingZeros x
  ctz : (ctz64 x).toNat = trailingZeros x
  popcount : (popcount64 x).toNat = setBits x
  bswap : ∀ k < 64, hasBit (bswap64 x) k = hasBit x (mirrored k)
  rotl : ∀ k < 64, hasBit (rotl64 x n) k = hasBit x ((k + (64 - n.toNat % 64)) % 64)
  rotr : ∀ k < 64, hasBit (rotr64 x n) k = hasBit x ((k + n.toNat % 64) % 64)
  clzShifts : clz64Host x = some (clz64 x)
  ctzShifts : ctz64Host x = some (ctz64 x)
  popcountShifts : popcount64Host x = some (popcount64 x)
  bswapShifts : bswap64Host x = some (bswap64 x)
  rotlShifts : rotl64Host x n = some (rotl64 x n)
  rotrShifts : rotr64Host x n = some (rotr64 x n)
  bswap_bswap : bswap64 (bswap64 x) = x
  rotr_rotl : rotr64 (rotl64 x n) n = x
  rotl_rotr : rotl64 (rotr64 x n) n = x

/-- The operations are right exactly for the counts that are no multiple of 64. -/
theorem word_ops_right_iff (x n : UInt64) : WordOpsRight x n ↔ n.toNat % 64 ≠ 0 := by
  constructor
  · intro h
    exact (rotl64Host_eq_iff x n).1 h.rotlShifts
  · intro hn
    exact
      { clz := clz64_right x
        ctz := ctz64_right x
        popcount := popcount64_right x
        bswap := fun k hk => bswap64_right x hk
        rotl := fun k hk => rotl64_right x n hk
        rotr := fun k hk => rotr64_right x n hk
        clzShifts := clz64Host_eq x
        ctzShifts := ctz64Host_eq x
        popcountShifts := popcount64Host_eq x
        bswapShifts := bswap64Host_eq x
        rotlShifts := (rotl64Host_eq_iff x n).2 hn
        rotrShifts := (rotr64Host_eq_iff x n).2 hn
        bswap_bswap := bswap64_bswap64 x
        rotr_rotl := rotr64_rotl64 x n
        rotl_rotr := rotl64_rotr64 x n }

/-- A rotation by 0 shifts by 64. -/
theorem rotl64_zero_undefined : ¬ WordOpsRight 1 0 ∧ rotl64Host 1 0 = none := by
  refine ⟨fun h => ?_, rfl⟩
  have hnone : rotl64Host 1 0 = none := rfl
  rw [h.rotlShifts] at hnone
  cases hnone

end FluxOs
