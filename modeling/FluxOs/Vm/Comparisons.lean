import FluxOs.Vm.StepRules
import Mathlib.Algebra.GroupWithZero.Nat
import Mathlib.Algebra.Ring.Int.Defs

/-!
# Comparisons and conditional jumps

`CMP` and `CMPI` leave in `FLAGS` what `flux_vm_set_flags` computes from the two operands, and the
conditional jumps test single bits of it.  `documentedRelation` is the relation between the operands
that the opcode table gives for a jump.  The flags compare the operands as unsigned words, and the
carry flag is never set; `FlagsDecide` says for which operands a jump is nevertheless taken as
documented.
-/

namespace FluxOs

open Faulting

/-- The relation between the compared operands under which a conditional jump should be taken. -/
def documentedRelation : BranchOp → Option (UInt64 → UInt64 → Bool)
  | .JE => some fun a b => a = b
  | .JNE => some fun a b => a ≠ b
  | .JL => some fun a b => a.toInt64 < b.toInt64
  | .JG => some fun a b => a.toInt64 > b.toInt64
  | .JLE => some fun a b => a.toInt64 ≤ b.toInt64
  | .JGE => some fun a b => a.toInt64 ≥ b.toInt64
  | .JB => some fun a b => a < b
  | .JA => some fun a b => a > b
  | .JBE => some fun a b => a ≤ b
  | .JAE => some fun a b => a ≥ b
  | _ => none

/-- The operands for which the flags of a comparison decide a jump as documented: operands of the same
sign for the signed jumps, and a second operand that is not above the first for the unsigned ones. -/
def FlagsDecide (op : BranchOp) (a b : UInt64) : Prop :=
  match op with
  | .JL | .JG | .JLE | .JGE => a.toInt64 < 0 ↔ b.toInt64 < 0
  | .JB | .JA | .JBE | .JAE => b ≤ a
  | _ => True

namespace FluxVm

/-- The operands that `CMP` or `CMPI` compares. -/
def comparedOperands (vm : FluxVm) (i : FluxVmInsn) : Option (UInt64 × UInt64) :=
  match opcodeOf i.opcode with
  | .compare .CMP => some (vm.regValue i.rs1, vm.regValue i.rs2)
  | .compare .CMPI => some (vm.regValue i.rs1, i.imm64)
  | _ => none

/-- A step of `vm` compares `a` with `b` and leads to `vm'`. -/
def Compares (host : Host) (vm : FluxVm) (a b : UInt64) (vm' : FluxVm) : Prop :=
  ∃ i, vm.nextInsn = some i ∧ vm.comparedOperands i = some (a, b) ∧
    Steps (fluxVmStep · host) vm vm'

/-- A step of `vm` executes the conditional jump `op` to `target` and leads to `vm'`. -/
def Jumps (host : Host) (vm : FluxVm) (op : BranchOp) (target : UInt32) (vm' : FluxVm) : Prop :=
  ∃ i, vm.nextInsn = some i ∧ opcodeOf i.opcode = .branch op ∧ i.target = target ∧
    Steps (fluxVmStep · host) vm vm'

/-- Whether a jump that tests the flags is taken. -/
def takenOn (op : BranchOp) (flags : UInt64) : Bool :=
  match op with
  | .JE => flags &&& fluxFlagEqual ≠ 0
  | .JNE => flags &&& fluxFlagEqual = 0
  | .JG => flags &&& fluxFlagGreater ≠ 0
  | .JL => flags &&& fluxFlagLess ≠ 0
  | .JGE => flags &&& (fluxFlagGreater ||| fluxFlagEqual) ≠ 0
  | .JLE => flags &&& (fluxFlagLess ||| fluxFlagEqual) ≠ 0
  | .JA => flags &&& fluxFlagCarry = 0 ∧ flags &&& fluxFlagEqual = 0
  | .JB => flags &&& fluxFlagCarry ≠ 0
  | .JAE => flags &&& fluxFlagCarry = 0
  | .JBE => flags &&& (fluxFlagCarry ||| fluxFlagEqual) ≠ 0
  | _ => false

variable {host : Host} {vm vm₁ vm₂ vm₃ : FluxVm} {a b : UInt64} {op : BranchOp}
  {rel : UInt64 → UInt64 → Bool} {target : UInt32}

/-! ## The two steps -/

theorem Compares.flags (h : Compares host vm a b vm₁) :
    vm₁.regs fluxRegFlags = compareFlags a b := by
  obtain ⟨i, hi, hops, rc, hstep⟩ := h
  refine (fluxVmStep_executes (Q := fun r => r.2.regs fluxRegFlags = compareFlags a b) hi
    fun vm' _ => ?_).of_ok hstep
  unfold comparedOperands at hops
  unfold execute
  split at hops
  · rename_i hop
    obtain ⟨rfl, rfl⟩ := Prod.mk.inj (Option.some.inj hops)
    rw [hop]
    exact (putReg_of_ne _ (by decide) _).trans (putReg_self ..)
  · rename_i hop
    obtain ⟨rfl, rfl⟩ := Prod.mk.inj (Option.some.inj hops)
    rw [hop]
    exact (putReg_of_ne _ (by decide) _).trans (putReg_self ..)
  · cases hops

theorem execBranch_takenOn {i : FluxVmInsn} {v1 : UInt64} (hrel : documentedRelation op = some rel) :
    vm.execBranch op i v1 = vm.jumpIf (takenOn op (vm.regs fluxRegFlags)) i := by
  unfold documentedRelation at hrel
  split at hrel <;> simp [execBranch, takenOn, flagSet] at hrel ⊢

theorem Jumps.pc (h : Jumps host vm op target vm₁) (hrel : documentedRelation op = some rel) :
    vm₁.pc = if takenOn op (vm.regs fluxRegFlags) then target.toUInt64 else vm.pc + 4 := by
  obtain ⟨i, hi, hop, htarget, rc, hstep⟩ := h
  refine (fluxVmStep_executes (Q := fun r => r.2.pc =
    if takenOn op (vm.regs fluxRegFlags) then target.toUInt64 else vm.pc + 4) hi
    fun vm' hvm' => ?_).of_ok hstep
  obtain ⟨trace, traceIdx, heq⟩ := hvm'.eq
  have hflags : vm'.regs = vm.regs := by rw [heq]
  have hpc : vm'.pc = vm.pc + 4 := by rw [heq]
  unfold execute
  simp only [hop, execBranch_takenOn hrel, hflags]
  cases takenOn op (vm.regs fluxRegFlags)
  · exact hpc
  · exact congrArg UInt32.toUInt64 htarget

/-! ## The flags of a comparison -/

/-- The bits of a flags word that is put together as `flux_vm_set_flags` does. -/
theorem flagBits : ∀ equal less greater zero negative : Bool,
    let flags := (if equal then fluxFlagEqual else 0) ||| (if less then fluxFlagLess else 0) |||
      (if greater then fluxFlagGreater else 0) ||| (if zero then fluxFlagZero else 0) |||
      (if negative then fluxFlagNegative else 0)
    (flags &&& fluxFlagEqual ≠ 0 ↔ equal) ∧ (flags &&& fluxFlagLess ≠ 0 ↔ less) ∧
      (flags &&& fluxFlagGreater ≠ 0 ↔ greater) ∧
      (flags &&& (fluxFlagLess ||| fluxFlagEqual) ≠ 0 ↔ less ∨ equal) ∧
      (flags &&& (fluxFlagGreater ||| fluxFlagEqual) ≠ 0 ↔ greater ∨ equal) ∧
      (flags &&& (fluxFlagCarry ||| fluxFlagEqual) ≠ 0 ↔ equal) ∧ flags &&& fluxFlagCarry = 0 := by
  decide

theorem compareFlags_bits (a b : UInt64) :
    (compareFlags a b &&& fluxFlagEqual ≠ 0 ↔ a = b) ∧
      (compareFlags a b &&& fluxFlagLess ≠ 0 ↔ a < b) ∧
      (compareFlags a b &&& fluxFlagGreater ≠ 0 ↔ b < a) ∧
      (compareFlags a b &&& (fluxFlagLess ||| fluxFlagEqual) ≠ 0 ↔ a < b ∨ a = b) ∧
      (compareFlags a b &&& (fluxFlagGreater ||| fluxFlagEqual) ≠ 0 ↔ b < a ∨ a = b) ∧
      (compareFlags a b &&& (fluxFlagCarry ||| fluxFlagEqual) ≠ 0 ↔ a = b) ∧
      compareFlags a b &&& fluxFlagCarry = 0 := by
  have h := flagBits (a = b) (a < b) (a > b) (a = 0) (a.toInt64 < 0)
  simp only [decide_eq_true_eq] at h
  exact h

/-! ## Signed and unsigned order -/

theorem toInt_toInt64 (a : UInt64) :
    a.toInt64.toInt = if a.toNat < 2 ^ 63 then (a.toNat : Int) else a.toNat - 2 ^ 64 := by
  have := a.toNat_lt
  rw [← Int64.toInt_toBitVec, UInt64.toBitVec_toInt64, BitVec.toInt_eq_toNat_cond,
    UInt64.toNat_toBitVec]
  split <;> split <;> omega

theorem toInt64_neg_iff (a : UInt64) : a.toInt64 < 0 ↔ 2 ^ 63 ≤ a.toNat := by
  have := a.toNat_lt
  rw [Int64.lt_iff_toInt_lt, toInt_toInt64, Int64.toInt_zero]
  split_ifs <;> omega

theorem toInt64_lt_iff (hsign : a.toInt64 < 0 ↔ b.toInt64 < 0) : a.toInt64 < b.toInt64 ↔ a < b := by
  have := a.toNat_lt
  have := b.toNat_lt
  rw [toInt64_neg_iff, toInt64_neg_iff] at hsign
  rw [Int64.lt_iff_toInt_lt, toInt_toInt64, toInt_toInt64, UInt64.lt_iff_toNat_lt]
  split_ifs <;> omega

/-- On operands of different signs the two orders are opposite. -/
theorem toInt64_lt_iff_of_ne (hsign : ¬ (a.toInt64 < 0 ↔ b.toInt64 < 0)) :
    a.toInt64 < b.toInt64 ↔ b < a := by
  have := a.toNat_lt
  have := b.toNat_lt
  rw [toInt64_neg_iff, toInt64_neg_iff] at hsign
  rw [Int64.lt_iff_toInt_lt, toInt_toInt64, toInt_toInt64, UInt64.lt_iff_toNat_lt]
  split_ifs <;> omega

theorem lt_iff_toInt64_lt_iff :
    (a < b ↔ a.toInt64 < b.toInt64) ↔ (a.toInt64 < 0 ↔ b.toInt64 < 0) := by
  refine ⟨fun h => ?_, fun h => (toInt64_lt_iff h).symm⟩
  by_contra hsign
  rw [toInt64_lt_iff_of_ne hsign] at h
  have hab : a ≠ b := fun hab => hsign (by rw [hab])
  rcases UInt64.lt_or_lt_of_ne hab with hlt | hlt
  · exact UInt64.lt_asymm hlt (h.1 hlt)
  · exact UInt64.lt_asymm hlt (h.2 hlt)

theorem le_iff_toInt64_le_iff :
    (a ≤ b ↔ a.toInt64 ≤ b.toInt64) ↔ (a.toInt64 < 0 ↔ b.toInt64 < 0) := by
  rw [← UInt64.not_lt, ← Int64.not_lt, not_iff_not, lt_iff_toInt64_lt_iff]
  exact iff_comm

/-! ## The jumps -/

/-- A jump after a comparison is decided as documented exactly for the operands of `FlagsDecide`. -/
theorem takenOn_eq_iff (hrel : documentedRelation op = some rel) :
    takenOn op (compareFlags a b) = rel a b ↔ FlagsDecide op a b := by
  obtain ⟨hequal, hless, hgreater, hle, hge, hbe, hcarry⟩ := compareFlags_bits a b
  have hne : compareFlags a b &&& fluxFlagEqual = 0 ↔ a ≠ b := by
    rw [← not_iff_not, not_not]
    exact hequal
  rw [← UInt64.le_iff_lt_or_eq] at hle
  rw [eq_comm (a := a), ← UInt64.le_iff_lt_or_eq] at hge
  unfold documentedRelation at hrel
  split at hrel <;> cases hrel <;> simp only [takenOn, FlagsDecide, decide_eq_decide]
  case h_1 => simp only [hequal]
  case h_2 => simp only [hne]
  case h_3 =>
    rw [hless]
    exact lt_iff_toInt64_lt_iff
  case h_4 =>
    rw [hgreater]
    exact lt_iff_toInt64_lt_iff.trans iff_comm
  case h_5 =>
    rw [hle]
    exact le_iff_toInt64_le_iff
  case h_6 =>
    rw [hge]
    exact le_iff_toInt64_le_iff.trans iff_comm
  -- the unsigned jumps: `JB` is never taken, `JA` on `≠`, `JBE` on `=` and `JAE` always
  case h_7 =>
    simp only [hcarry, ne_eq, not_true_eq_false, false_iff]
    exact UInt64.not_lt
  case h_8 =>
    simp only [hcarry, true_and, hne, ne_eq, ← UInt64.toNat_inj, gt_iff_lt,
      UInt64.lt_iff_toNat_lt, UInt64.le_iff_toNat_le]
    omega
  case h_9 =>
    simp only [hbe, ← UInt64.toNat_inj, UInt64.le_iff_toNat_le]
    omega
  case h_10 => simp only [hcarry, true_iff, ge_iff_le]

/-- A conditional jump on the flags of a comparison goes where the relation of its operands says
exactly when the flags decide it, or its target is the next instruction anyway. -/
theorem jump_as_documented_iff (hcmp : Compares host vm a b vm₁)
    (hflags : vm₂.regs fluxRegFlags = vm₁.regs fluxRegFlags) (hjump : Jumps host vm₂ op target vm₃)
    (hrel : documentedRelation op = some rel) :
    vm₃.pc = (if rel a b then target.toUInt64 else vm₂.pc + 4) ↔
      target.toUInt64 = vm₂.pc + 4 ∨ FlagsDecide op a b := by
  rw [hjump.pc hrel, hflags, hcmp.flags, ← takenOn_eq_iff hrel]
  cases takenOn op (compareFlags a b) <;> cases rel a b <;> simp [eq_comm]

/-- `CMP R63, R0; JL 12`, where `R63` is `-1`. -/
def cmpJl : List UInt8 := [0x30, 0, 63, 0, 0x46, 0, 0, 12]

/-- `CMPI R0, 1; JB 12`. -/
def cmpiJb : List UInt8 := [0x31, 0, 0, 1, 0x4A, 0, 0, 12]

theorem cmpJl_compares :
    Compares plentifulHost (boot cmpJl) 0xFFFFFFFFFFFFFFFF 0 (bootSteps cmpJl 1) :=
  ⟨_, rfl, rfl, _, rfl⟩

theorem cmpJl_jumps : Jumps plentifulHost (bootSteps cmpJl 1) .JL 12 (bootSteps cmpJl 2) :=
  ⟨_, rfl, rfl, rfl, _, rfl⟩

theorem jump_as_documented_iff_jl :
    (bootSteps cmpJl 2).pc =
        (if decide ((0xFFFFFFFFFFFFFFFF : UInt64).toInt64 < (0 : UInt64).toInt64) then
          (12 : UInt32).toUInt64 else (bootSteps cmpJl 1).pc + 4) ↔
      (12 : UInt32).toUInt64 = (bootSteps cmpJl 1).pc + 4 ∨
        FlagsDecide .JL 0xFFFFFFFFFFFFFFFF 0 :=
  jump_as_documented_iff cmpJl_compares rfl cmpJl_jumps rfl

/-- `JL` is not taken after a comparison of `-1` with 0, and `JB` not after one of 0 with 1. -/
theorem jl_jb_not_taken :
    (∃ vm vm₁ vm₂, Reachable plentifulHost vm ∧
      Compares plentifulHost vm 0xFFFFFFFFFFFFFFFF 0 vm₁ ∧ Jumps plentifulHost vm₁ .JL 12 vm₂ ∧
      (0xFFFFFFFFFFFFFFFF : UInt64).toInt64 < (0 : UInt64).toInt64 ∧ vm₂.pc ≠ 12) ∧
    ∃ vm vm₁ vm₂, Reachable plentifulHost vm ∧ Compares plentifulHost vm 0 1 vm₁ ∧
      Jumps plentifulHost vm₁ .JB 12 vm₂ ∧ (0 : UInt64) < 1 ∧ vm₂.pc ≠ 12 := by
  refine ⟨⟨boot cmpJl, bootSteps cmpJl 1, bootSteps cmpJl 2, ?_, cmpJl_compares, cmpJl_jumps, ?_, ?_⟩,
    boot cmpiJb, bootSteps cmpiJb 1, bootSteps cmpiJb 2, ?_, ⟨_, rfl, rfl, _, rfl⟩,
    ⟨_, rfl, rfl, rfl, _, rfl⟩, ?_, ?_⟩
  · exact ⟨_, boot_loaded _ (by decide), .refl⟩
  · decide
  · decide
  · exact ⟨_, boot_loaded _ (by decide), .refl⟩
  · decide
  · decide

end FluxVm

end FluxOs
