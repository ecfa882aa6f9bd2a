import FluxOs.Vm.StepRules
import Mathlib.Algebra.Order.Ring.Nat
import Mathlib.Algebra.Order.Group.Unbundled.Int

/-!
# Integer arithmetic

The opcodes `IADD` to `DEC` compute modulo `2 ^ 64`, or stop at a zero divisor.  Most of them do so with signed
operations of the host, whose overflow C leaves undefined: the zero divisor is the only case that the code looks
for (`arith_right_iff`).
-/

namespace FluxOs

/-! ## Signed operations of the host -/

/-- The number is an `int64_t`. -/
def FitsInt64 (v : Int) : Prop := Int64.minValue.toInt ≤ v ∧ v ≤ Int64.maxValue.toInt

instance (v : Int) : Decidable (FitsInt64 v) := inferInstanceAs (Decidable (_ ∧ _))

/-- The result of a signed operation with the exact value `v`: undefined on overflow. -/
def hostSigned (v : Int) : Option Int64 := if FitsInt64 v then some (Int64.ofInt v) else none

def hostAdd (a b : Int64) : Option Int64 := hostSigned (a.toInt + b.toInt)

def hostSub (a b : Int64) : Option Int64 := hostSigned (a.toInt - b.toInt)

def hostMul (a b : Int64) : Option Int64 := hostSigned (a.toInt * b.toInt)

def hostNeg (a : Int64) : Option Int64 := hostSigned (-a.toInt)

/-- `a / b` is undefined for a zero divisor, and where the quotient is no `int64_t`. -/
def hostDiv (a b : Int64) : Option Int64 := if b = 0 then none else hostSigned (a.toInt.tdiv b.toInt)

/-- `a % b` is undefined where `a / b` is. -/
def hostMod (a b : Int64) : Option Int64 := (hostDiv a b).map fun _ => Int64.ofInt (a.toInt.tmod b.toInt)

variable {a b : Int64} {v : Int}

theorem hostSigned_of_fits (h : FitsInt64 v) : hostSigned v = some (Int64.ofInt v) := if_pos h

theorem hostSigned_eq_none (h : ¬ FitsInt64 v) : hostSigned v = none := if_neg h

theorem minValue_toInt : Int64.minValue.toInt = -9223372036854775808 := rfl

theorem fitsInt64_iff : FitsInt64 v ↔ -9223372036854775808 ≤ v ∧ v ≤ 9223372036854775807 := Iff.rfl

theorem fitsInt64_toInt (a : Int64) : FitsInt64 a.toInt := ⟨a.minValue_le_toInt, a.toInt_le⟩

theorem fitsInt64_neg_iff : FitsInt64 (-a.toInt) ↔ a ≠ Int64.minValue := by
  obtain ⟨hlo, hhi⟩ := fitsInt64_iff.1 (fitsInt64_toInt a)
  rw [fitsInt64_iff, ne_eq, ← Int64.toInt_inj, minValue_toInt]
  omega

theorem toInt_eq_zero_iff : b.toInt = 0 ↔ b = 0 := by
  rw [← Int64.toInt_inj]
  exact Iff.rfl

/-- The only quotient that overflows is that of the least number by `-1`. -/
theorem fitsInt64_tdiv_iff (hb : b ≠ 0) :
    FitsInt64 (a.toInt.tdiv b.toInt) ↔ ¬ (a = Int64.minValue ∧ b = -1) := by
  obtain ⟨hlo, hhi⟩ := fitsInt64_iff.1 (fitsInt64_toInt a)
  constructor
  · rintro hfits ⟨rfl, rfl⟩
    revert hfits
    decide
  · intro hne
    by_cases ha : a = Int64.minValue
    · have hb1 : b ≠ -1 := fun h => hne ⟨ha, h⟩
      rw [← Int64.toInt_div_of_ne_right a b hb1]
      exact fitsInt64_toInt _
    · rw [← Int64.toInt_div_of_ne_left a b ha]
      exact fitsInt64_toInt _

theorem ofInt_toInt_add : Int64.ofInt (a.toInt + b.toInt) = a + b := by
  rw [Int64.ofInt_add, Int64.ofInt_toInt, Int64.ofInt_toInt]

theorem ofInt_toInt_sub : Int64.ofInt (a.toInt - b.toInt) = a - b := by
  rw [Int64.ofInt_sub, Int64.ofInt_toInt, Int64.ofInt_toInt]

theorem ofInt_toInt_mul : Int64.ofInt (a.toInt * b.toInt) = a * b := by
  rw [Int64.ofInt_mul, Int64.ofInt_toInt, Int64.ofInt_toInt]

theorem ofInt_toInt_neg : Int64.ofInt (-a.toInt) = -a := by
  rw [Int64.ofInt_neg, Int64.ofInt_toInt]

theorem ofInt_toInt_tdiv : Int64.ofInt (a.toInt.tdiv b.toInt) = a / b := by
  rw [Int64.ofInt_tdiv a.minValue_le_toInt a.toInt_le b.minValue_le_toInt b.toInt_le, Int64.ofInt_toInt,
    Int64.ofInt_toInt]

theorem ofInt_toInt_tmod : Int64.ofInt (a.toInt.tmod b.toInt) = a % b := by
  rw [← Int64.toInt_mod, Int64.ofInt_toInt]

theorem hostDiv_eq (hb : b ≠ 0) :
    hostDiv a b = if a = Int64.minValue ∧ b = -1 then none else some (a / b) := by
  rw [hostDiv, if_neg hb]
  by_cases hov : a = Int64.minValue ∧ b = -1
  · rw [if_pos hov, hostSigned_eq_none fun h => (fitsInt64_tdiv_iff hb).1 h hov]
  · rw [if_neg hov, hostSigned_of_fits ((fitsInt64_tdiv_iff hb).2 hov), ofInt_toInt_tdiv]

theorem hostMod_eq (hb : b ≠ 0) :
    hostMod a b = if a = Int64.minValue ∧ b = -1 then none else some (a % b) := by
  rw [hostMod, hostDiv_eq hb, ofInt_toInt_tmod]
  by_cases hov : a = Int64.minValue ∧ b = -1
  · rw [if_pos hov, if_pos hov, Option.map_none]
  · rw [if_neg hov, if_neg hov, Option.map_some]

/-- Going through `int64_t` does not change a number modulo `2 ^ 64`. -/
theorem toUInt64_ofInt (v : Int) : (Int64.ofInt v).toUInt64 = UInt64.ofInt v := by
  apply UInt64.toBitVec_inj.1
  apply BitVec.eq_of_toNat_eq
  simp only [Int64.toBitVec_toUInt64, Int64.toBitVec_ofInt, BitVec.toNat_ofInt, UInt64.ofInt, UInt64.toBitVec_ofNat',
    BitVec.toNat_ofNat]
  omega

/-! ## The opcodes -/

/-- The integer operations among the arithmetic opcodes. -/
inductive IntOp
  | IADD | ISUB | IMUL | IDIV | IMOD | INEG | IABS | INC | DEC
  deriving DecidableEq, Repr

namespace IntOp

def arithOp : IntOp → ArithOp
  | .IADD => .IADD
  | .ISUB => .ISUB
  | .IMUL => .IMUL
  | .IDIV => .IDIV
  | .IMOD => .IMOD
  | .INEG => .INEG
  | .IABS => .IABS
  | .INC => .INC
  | .DEC => .DEC

/-- The exact result, unless the divisor is zero; `d` is what `rd` holds. -/
def exact (op : IntOp) (v1 v2 d : UInt64) : Option Int :=
  let s1 := v1.toInt64.toInt
  let s2 := v2.toInt64.toInt
  match op with
  | .IADD => some (s1 + s2)
  | .ISUB => some (s1 - s2)
  | .IMUL => some (s1 * s2)
  | .IDIV => if s2 = 0 then none else some (s1.tdiv s2)
  | .IMOD => if s2 = 0 then none else some (s1.tmod s2)
  | .INEG => some (-s1)
  | .IABS => some s1.natAbs
  | .INC => some (d.toNat + 1)
  | .DEC => some (d.toNat - 1)

/-- No signed result overflows: nothing to ask of `INC` and `DEC`, which are unsigned. -/
def NoOverflow (op : IntOp) (v1 v2 : UInt64) : Prop :=
  match op with
  | .IADD => FitsInt64 (v1.toInt64.toInt + v2.toInt64.toInt)
  | .ISUB => FitsInt64 (v1.toInt64.toInt - v2.toInt64.toInt)
  | .IMUL => FitsInt64 (v1.toInt64.toInt * v2.toInt64.toInt)
  | .IDIV | .IMOD => ¬ (v1.toInt64 = Int64.minValue ∧ v2.toInt64 = -1)
  | .INEG | .IABS => v1.toInt64 ≠ Int64.minValue
  | .INC | .DEC => True

end IntOp

namespace FluxVm

variable (vm : FluxVm) (i : FluxVmInsn) (v1 v2 : UInt64)

/-- The case of the opcode with the signed operations of the host: `none` where it evaluates an undefined one. -/
def execIntHost (op : IntOp) (i : FluxVmInsn) (v1 v2 : UInt64) : Option Exec :=
  let s1 := v1.toInt64
  let s2 := v2.toInt64
  let store (s : Int64) : Exec := vm.setRd i s.toUInt64
  match op with
  | .IADD => (hostAdd s1 s2).map store
  | .ISUB => (hostSub s1 s2).map store
  | .IMUL => (hostMul s1 s2).map store
  | .IDIV => if s2 = 0 then some (.ok (some .errGeneral, vm.fail 30)) else (hostDiv s1 s2).map store
  | .IMOD => if s2 = 0 then some (.ok (some .errGeneral, vm.fail 30)) else (hostMod s1 s2).map store
  | .INEG => (hostNeg s1).map store
  | .IABS => if s1 < 0 then (hostNeg s1).map store else some (store s1)
  | .INC => some do vm.setRd i ((← vm.fluxVmGetReg i.rd) + 1)
  | .DEC => some do vm.setRd i ((← vm.fluxVmGetReg i.rd) - 1)

/-- The opcode stores the exact result modulo `2 ^ 64`, or stops the VM at a zero divisor, and evaluates no
operation that C leaves undefined. -/
structure ArithRight (host : Host) (op : IntOp) : Prop where
  result : vm.execute host i v1 v2 =
    match op.exact v1 v2 (vm.regValue i.rd) with
    | some v => vm.setRd i (UInt64.ofInt v)
    | none => .ok (some .errGeneral, vm.fail 30)
  defined : vm.execIntHost op i v1 v2 = some (vm.execute host i v1 v2)

variable {vm i v1 v2} {op : IntOp}

theorem map_hostSigned_eq_iff {f : Int64 → Exec} {s : Int64} (hs : Int64.ofInt v = s) :
    (hostSigned v).map f = some (f s) ↔ FitsInt64 v := by
  by_cases hv : FitsInt64 v
  · rw [hostSigned_of_fits hv, hs]
    simp [hv]
  · rw [hostSigned_eq_none hv]
    simp [hv]

/-- `IDIV` and `IMOD` with an operation of the host that has a result for every quotient but the one that
overflows. -/
theorem divideHost_eq_iff {hostOp : Int64 → Int64 → Option Int64} {div : Int64 → Int64 → Int64}
    (hop : ∀ a b, b ≠ 0 → hostOp a b = if a = Int64.minValue ∧ b = -1 then none else some (div a b)) :
    (if v2.toInt64 = 0 then some (.ok (some .errGeneral, vm.fail 30))
      else (hostOp v1.toInt64 v2.toInt64).map fun s => vm.setRd i s.toUInt64) = some (vm.divide i v1 v2 div) ↔
    ¬ (v1.toInt64 = Int64.minValue ∧ v2.toInt64 = -1) := by
  by_cases h0 : v2.toInt64 = 0
  · have hne : v2.toInt64 ≠ -1 := by
      rw [h0]
      decide
    rw [divide, if_pos h0, if_pos h0]
    simp [hne]
  · rw [divide, if_neg h0, if_neg h0, hop _ _ h0]
    by_cases hov : v1.toInt64 = Int64.minValue ∧ v2.toInt64 = -1
    · simp [hov]
    · rw [if_neg hov, if_neg hov, Option.map_some]
      simp [hov]

/-- The host evaluates no undefined operation exactly where no result overflows, and it then does what the
modelled case does. -/
theorem execIntHost_eq_iff :
    vm.execIntHost op i v1 v2 = some (vm.execArith op.arithOp i v1 v2) ↔ op.NoOverflow v1 v2 := by
  cases op with
  | IADD => exact map_hostSigned_eq_iff ofInt_toInt_add
  | ISUB => exact map_hostSigned_eq_iff ofInt_toInt_sub
  | IMUL => exact map_hostSigned_eq_iff ofInt_toInt_mul
  | IDIV => exact divideHost_eq_iff fun _ _ => hostDiv_eq
  | IMOD => exact divideHost_eq_iff fun _ _ => hostMod_eq
  | INEG => exact (map_hostSigned_eq_iff ofInt_toInt_neg).trans fitsInt64_neg_iff
  | INC | DEC => exact iff_of_true rfl trivial
  | IABS =>
    by_cases hneg : v1.toInt64 < 0
    · have hhost : vm.execIntHost .IABS i v1 v2 = (hostNeg v1.toInt64).map fun s => vm.setRd i s.toUInt64 := by
        simp only [execIntHost, if_pos hneg]
      have hcase : vm.execArith .IABS i v1 v2 = vm.setRd i (-v1.toInt64).toUInt64 := by
        simp only [execArith, if_pos hneg]
      rw [hhost, IntOp.arithOp, hcase]
      exact (map_hostSigned_eq_iff ofInt_toInt_neg).trans fitsInt64_neg_iff
    · have hmin : v1.toInt64 ≠ Int64.minValue := by
        rintro h
        rw [h] at hneg
        exact hneg (by decide)
      simp only [execIntHost, execArith, IntOp.arithOp, if_neg hneg, IntOp.NoOverflow]
      simp [hmin]

/-! ## The exact results -/

theorem ofInt_toUInt64 (a : Int64) : UInt64.ofInt a.toInt = a.toUInt64 := by
  rw [← toUInt64_ofInt, Int64.ofInt_toInt]

theorem abs_toUInt64 (a : Int64) : (if a < 0 then -a else a).toUInt64 = UInt64.ofInt a.toInt.natAbs := by
  by_cases hneg : a < 0
  · have habs : (a.toInt.natAbs : Int) = -a.toInt := Int.ofNat_natAbs_of_nonpos (by
      have := Int64.lt_iff_toInt_lt.1 hneg
      simp at this
      omega)
    rw [if_pos hneg, habs, ← toUInt64_ofInt, ofInt_toInt_neg]
  · have habs : (a.toInt.natAbs : Int) = a.toInt := Int.natAbs_of_nonneg (by
      have := fun h => hneg (Int64.lt_iff_toInt_lt.2 h)
      simp at this
      exact this)
    rw [if_neg hneg, habs, ofInt_toUInt64]

theorem ofInt_toNat (d : UInt64) : UInt64.ofInt d.toNat = d := by
  apply UInt64.toNat_inj.1
  have hd := d.toNat_lt
  simp [UInt64.ofInt]
  omega

theorem ofInt_toNat_add_one (d : UInt64) : UInt64.ofInt (d.toNat + 1) = d + 1 := by
  rw [UInt64.ofInt_add, ofInt_toNat, UInt64.ofInt_one]

theorem ofInt_toNat_sub_one (d : UInt64) : UInt64.ofInt (d.toNat - 1) = d - 1 := by
  rw [Int.sub_eq_add_neg, UInt64.ofInt_add, ofInt_toNat, UInt64.ofInt_neg, UInt64.ofInt_one, UInt64.sub_eq_add_neg]

/-- `INC` and `DEC` read `rd` and store the result there. -/
theorem getReg_setRd (f : UInt64 → UInt64) :
    (do vm.setRd i (f (← vm.fluxVmGetReg i.rd)) : Exec) = vm.setRd i (f (vm.regValue i.rd)) := by
  by_cases hr : i.rd.toNat < 64
  · rw [fluxVmGetReg_of_lt hr]
    rfl
  · have h0 : i.rd ≠ 0 := by
      rintro h
      rw [h] at hr
      exact hr (by decide)
    simp [setRd, fluxVmGetReg, fluxVmSetReg, h0, hr, bind, Except.bind]

theorem execArith_eq_exact (hno : op.NoOverflow v1 v2) :
    vm.execArith op.arithOp i v1 v2 =
      match op.exact v1 v2 (vm.regValue i.rd) with
      | some v => vm.setRd i (UInt64.ofInt v)
      | none => .ok (some .errGeneral, vm.fail 30) := by
  cases op with
  | IADD => simp only [IntOp.exact, IntOp.arithOp, execArith, ← toUInt64_ofInt, ofInt_toInt_add]
  | ISUB => simp only [IntOp.exact, IntOp.arithOp, execArith, ← toUInt64_ofInt, ofInt_toInt_sub]
  | IMUL => simp only [IntOp.exact, IntOp.arithOp, execArith, ← toUInt64_ofInt, ofInt_toInt_mul]
  | INEG => simp only [IntOp.exact, IntOp.arithOp, execArith, ← toUInt64_ofInt, ofInt_toInt_neg]
  | IABS => simp only [IntOp.exact, IntOp.arithOp, execArith, abs_toUInt64]
  | INC =>
    simp only [IntOp.exact, IntOp.arithOp, execArith, ofInt_toNat_add_one]
    exact getReg_setRd (· + 1)
  | DEC =>
    simp only [IntOp.exact, IntOp.arithOp, execArith, ofInt_toNat_sub_one]
    exact getReg_setRd (· - 1)
  | IDIV =>
    simp only [IntOp.exact, IntOp.arithOp, execArith, divide, if_neg hno, toInt_eq_zero_iff]
    split_ifs
    · rfl
    · simp only [← toUInt64_ofInt, ofInt_toInt_tdiv]
  | IMOD =>
    simp only [IntOp.exact, IntOp.arithOp, execArith, divide, if_neg hno, toInt_eq_zero_iff]
    split_ifs
    · rfl
    · simp only [← toUInt64_ofInt, ofInt_toInt_tmod]

theorem execute_intOp {host : Host} (hop : opcodeOf i.opcode = .arith op.arithOp) :
    vm.execute host i v1 v2 = vm.execArith op.arithOp i v1 v2 := by
  rw [execute, hop]

/-- The integer opcodes are right exactly on the operands that do not overflow. -/
theorem arith_right_iff (host : Host) (vm : FluxVm) (op : IntOp) (i : FluxVmInsn) (v1 v2 : UInt64)
    (hop : opcodeOf i.opcode = .arith op.arithOp) :
    ArithRight vm i v1 v2 host op ↔ op.NoOverflow v1 v2 := by
  constructor
  · intro h
    apply execIntHost_eq_iff.1
    rw [← execute_intOp hop]
    exact h.defined
  · intro hno
    refine ⟨?_, ?_⟩
    · rw [execute_intOp hop]
      exact execArith_eq_exact hno
    · rw [execute_intOp hop]
      exact execIntHost_eq_iff.2 hno

/-- `IDIV R1, R2, R3`. -/
def idivInsn : FluxVmInsn := decodeInsn 0x13010203

/-- `7 / -2`. -/
theorem arith_right_idiv : ArithRight (boot []) idivInsn 7 0xFFFFFFFFFFFFFFFE plentifulHost .IDIV :=
  (arith_right_iff plentifulHost (boot []) .IDIV idivInsn 7 0xFFFFFFFFFFFFFFFE rfl).2
    (by simp only [IntOp.NoOverflow]; decide)

/-- `INT64_MIN / -1`. -/
theorem idiv_min_undefined :
    ¬ ArithRight (boot []) idivInsn 0x8000000000000000 0xFFFFFFFFFFFFFFFF plentifulHost .IDIV ∧
      (boot []).execute plentifulHost idivInsn 0x8000000000000000 0xFFFFFFFFFFFFFFFF = .error .divOverflow := by
  have hfault : (boot []).execute plentifulHost idivInsn 0x8000000000000000 0xFFFFFFFFFFFFFFFF =
      .error .divOverflow := rfl
  refine ⟨fun h => ?_, hfault⟩
  have hhost := h.defined
  rw [hfault] at hhost
  cases hhost

end FluxVm

end FluxOs
