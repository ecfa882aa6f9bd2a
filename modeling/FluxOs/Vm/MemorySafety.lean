import FluxOs.Vm.MemoryEffects
import FluxOs.Vm.StepRules

/-!
# Memory operations that leave their region

The exact condition under which a memory operation touches memory outside the region it addresses,
or outside the operand stack when no region is active.
-/

namespace FluxOs

open Faulting

namespace FluxVm

open FluxVmRegion

variable {vm : FluxVm} {op : MemoryOp} {i : FluxVmInsn} {v1 v2 ea : UInt64}

/-! ## Which accesses go outside -/

/-- The width that the bounds check of an operation adds to the address; the byte accesses compare
the address itself. -/
def checkedWidth : MemoryOp → Nat
  | .LOAD | .STORE | .CMPXCHG | .ATOMIC_ADD | .ATOMIC_SUB => 8
  | .LOAD32 | .STORE32 => 4
  | .LOAD16 | .STORE16 => 2
  | _ => 0

/-- The check of a load or a store of `width` bytes at `ea` wraps around and passes, in the active
region or, without one, on the stack. -/
def AccessWraps (vm : FluxVm) (ea : UInt64) (width : Nat) : Prop :=
  match vm.activeSlot with
  | some slot => Wraps ea width (vm.regions slot).size
  | none =>
    Wraps (vm.regs fluxRegSp - ea) width vm.stackSize ∧ vm.stackSize ≤ vm.regs fluxRegSp - ea

/-- The bounds check of an access to the stack passes. -/
def StackCheck (vm : FluxVm) (addr : UInt64) (width : Nat) : Prop :=
  if width = 0 then addr < vm.stackSize else addr + UInt64.ofNat width ≤ vm.stackSize

/-- A load or a store of `width` bytes at `ea` gets to its register: on the stack only if the check passes. -/
def UsesRd (vm : FluxVm) (ea : UInt64) (width : Nat) : Prop :=
  vm.activeSlot = none → vm.StackCheck (vm.regs fluxRegSp - ea) width

/-- The operation accesses memory outside its region or the stack, or a register that does not exist: it gets to
its access, and the bounds check wraps around and passes, the active region is not a slot of the table, or the
byte of a register is 64 or more. -/
def GoesOutside (vm : FluxVm) (op : MemoryOp) (i : FluxVmInsn) (v1 : UInt64) : Prop :=
  let ea := v1 + i.offset
  match op with
  | .LOAD | .LOAD8 | .LOAD16 | .LOAD32 | .STORE | .STORE8 | .STORE16 | .STORE32 =>
    vm.AccessWraps ea (checkedWidth op) ∨ vm.UsesRd ea (checkedWidth op) ∧ 64 ≤ i.rd.toNat
  | .CMPXCHG => 16 ≤ vm.activeRegion ∨
      ∃ slot ∈ vm.activeSlot, Wraps ea 8 (vm.regions slot).size ∨ 64 ≤ i.rs2.toNat ∨ 64 ≤ i.rd.toNat
  | .ATOMIC_ADD | .ATOMIC_SUB => 16 ≤ vm.activeRegion ∨
      ∃ slot ∈ vm.activeSlot, Wraps ea 8 (vm.regions slot).size ∨ 64 ≤ i.rd.toNat
  | .MEMSET => 16 ≤ vm.activeRegion ∨ vm.activeSlot ≠ none ∧ 64 ≤ i.rd.toNat
  | .LOAD_RM | .STORE_RM => vm.namedSlot v1 ≠ none ∧ 64 ≤ i.rd.toNat
  | .LEA => 64 ≤ i.rd.toNat
  | .FENCE => False

theorem not_wraps_zero (offset size : UInt64) : ¬ Wraps offset 0 size := by
  have hword : UInt64.size = 2 ^ 64 := rfl
  have := offset.toNat_lt
  unfold Wraps
  omega

/-- An address below `2 ^ 32` is far from wrapping around. -/
theorem not_wraps_mask32 (v size : UInt64) : ¬ Wraps (v &&& 0xFFFFFFFF) 8 size := by
  have hword : UInt64.size = 2 ^ 64 := rfl
  have : (v &&& 0xFFFFFFFF).toNat ≤ 0xFFFFFFFF := by
    rw [UInt64.toNat_and]
    exact Nat.and_le_right
  unfold Wraps
  omega

@[simp] theorem fluxVmGetReg_defined_iff (r : UInt8) : Defined (vm.fluxVmGetReg r) ↔ r.toNat < 64 := by
  unfold fluxVmGetReg
  split_ifs with h0 h
  · simp [h0]
  · simp [h]
  · simp [h]

@[simp] theorem fluxVmSetReg_defined_iff (r : UInt8) (val : UInt64) :
    Defined (vm.fluxVmSetReg r val) ↔ r.toNat < 64 := by
  unfold fluxVmSetReg
  split_ifs with h0 h
  · simp [h0]
  · simp [h]
  · simp [h]

/-- What reads a register first returns if it exists and the rest returns whatever it reads. -/
theorem getReg_bind_defined_iff {α : Type} {r : UInt8} {f : UInt64 → Except Fault α} {P : Prop}
    (hf : r.toNat < 64 → ∀ val, Defined (f val) ↔ P) :
    Defined (vm.fluxVmGetReg r >>= f) ↔ r.toNat < 64 ∧ P :=
  defined_bind_iff (vm.fluxVmGetReg_defined_iff r) hf

/-- What reads a word of a region first returns if the word does not wrap around and the rest returns. -/
theorem memRead64_bind_defined_iff {α : Type} {reg : FluxVmRegion} {slot : Fin 16} {f : UInt64 → Except Fault α}
    {P : Prop} (hf : ¬ Wraps ea 8 reg.size → ∀ val, Defined (f val) ↔ P) :
    Defined (memRead64 reg slot ea >>= f) ↔ ¬ Wraps ea 8 reg.size ∧ P :=
  defined_bind_iff (memRead_defined_iff slot id (by decide)) hf

/-! ## Loads and stores -/

theorem load_defined_iff {x : Except Fault UInt64} :
    Defined (do let val ← x; return (none, ← vm.fluxVmSetReg i.rd val) : Exec) ↔
      Defined x ∧ i.rd.toNat < 64 := by
  cases x with
  | error fault => simp
  | ok val => simp

theorem store_defined_iff {slot : Fin 16} {write : UInt64 → Except Fault FluxVmRegion} {P : Prop}
    (hwrite : ∀ val, Defined (write val) ↔ P) :
    Defined (do let val ← vm.fluxVmGetReg i.rd; return (none, vm.putRegion slot (← write val)) : Exec) ↔
      i.rd.toNat < 64 ∧ P :=
  getReg_bind_defined_iff fun _ val => by simpa using hwrite val

theorem regionAccess_defined_iff {slot : Fin 16} :
    Defined (vm.regionAccess op i ea slot) ↔
      match op with
      | .LOAD | .LOAD8 | .LOAD16 | .LOAD32 | .STORE | .STORE8 | .STORE16 | .STORE32 =>
        ¬ Wraps ea (checkedWidth op) (vm.regions slot).size ∧ i.rd.toNat < 64
      | .LEA => i.rd.toNat < 64
      | _ => True := by
  cases op
  case LOAD | LOAD16 | LOAD32 =>
    exact load_defined_iff.trans (and_congr_left' (memRead_defined_iff _ _ (by decide)))
  case LOAD8 =>
    refine load_defined_iff.trans (and_congr_left' ?_)
    exact iff_of_true memRead8_defined.defined (not_wraps_zero _ _)
  case STORE | STORE16 | STORE32 =>
    refine (store_defined_iff fun _ => ?_).trans and_comm
    exact memWrite_defined_iff (by decide)
  case STORE8 =>
    refine (store_defined_iff fun _ => ?_).trans and_comm
    exact iff_of_true memWrite8_defined.defined (not_wraps_zero _ _)
  case LEA => simp [regionAccess]
  all_goals exact iff_of_true (defined_ok _) trivial

/-- Where the check of a stack access passes, the address is out of bounds only if the check wraps around. -/
theorem stackCheck_outside_iff {addr : UInt64} {width : Nat} (hw : width ≤ 8) :
    vm.StackCheck addr width ∧ vm.stackSize ≤ addr ↔ Wraps addr width vm.stackSize ∧ vm.stackSize ≤ addr := by
  refine and_congr_left fun hle => ?_
  unfold StackCheck
  split_ifs with hzero
  · subst hzero
    exact iff_of_false (UInt64.not_lt.2 hle) (not_wraps_zero _ _)
  · have hcheck := not_check_iff addr hw vm.stackSize
    rw [gt_iff_lt, UInt64.not_lt] at hcheck
    rw [hcheck]
    rw [UInt64.le_iff_toNat_le] at hle
    refine or_iff_right fun h => ?_
    omega

@[simp] theorem stackAt_defined_iff {addr : UInt64} : Defined (vm.stackAt addr) ↔ addr < vm.stackSize := by
  unfold stackAt
  split_ifs with h
  · simp [h]
  · simp [h]

@[simp] theorem setStackAt_defined_iff {addr val : UInt64} :
    Defined (vm.setStackAt addr val) ↔ addr < vm.stackSize := by
  unfold setStackAt
  split_ifs with h
  · simp [h]
  · simp [h]

theorem stackLoad_defined_iff {inBounds : Bool} {addr : UInt64} {read : UInt64 → UInt64} :
    Defined (if inBounds then do
        let w ← vm.stackAt addr
        return (none, ← vm.fluxVmSetReg i.rd (read w))
      else .ok (none, vm) : Exec) ↔ (inBounds = true → addr < vm.stackSize ∧ i.rd.toNat < 64) := by
  cases inBounds with
  | false => simp
  | true =>
    rw [if_pos rfl, ← vm.stackAt_defined_iff]
    cases vm.stackAt addr with
    | error fault => simp
    | ok w => simp

theorem stackStore_defined_iff {inBounds : Bool} {addr : UInt64} {write : UInt64 → UInt64 → UInt64} :
    Defined (if inBounds then do
        let val ← vm.fluxVmGetReg i.rd
        let w ← vm.stackAt addr
        return (none, ← vm.setStackAt addr (write w val))
      else .ok (none, vm) : Exec) ↔ (inBounds = true → addr < vm.stackSize ∧ i.rd.toNat < 64) := by
  cases inBounds with
  | false => simp
  | true =>
    rw [if_pos rfl, imp_iff_right rfl, and_comm]
    refine getReg_bind_defined_iff fun _ val => ?_
    rw [← vm.stackAt_defined_iff]
    cases hw : vm.stackAt addr with
    | error fault => simp
    | ok w =>
      have haddr : addr < vm.stackSize := stackAt_defined_iff.1 ⟨w, hw⟩
      simp [haddr]

/-- What the check of a stack access guarantees, for the widths at which it is made. -/
theorem stackCheck_imp_iff {addr : UInt64} {width : Nat} {P : Prop} (hw : width ≤ 8) :
    (vm.StackCheck addr width → addr < vm.stackSize ∧ P) ↔
      ¬ (Wraps addr width vm.stackSize ∧ vm.stackSize ≤ addr) ∧ (vm.StackCheck addr width → P) := by
  rw [← stackCheck_outside_iff hw, not_and, UInt64.not_le]
  exact imp_and

theorem stackAccess_defined_iff :
    Defined (vm.stackAccess op i ea) ↔
      match op with
      | .LOAD | .LOAD8 | .LOAD16 | .LOAD32 | .STORE | .STORE8 | .STORE16 | .STORE32 =>
        ¬ (Wraps (vm.regs fluxRegSp - ea) (checkedWidth op) vm.stackSize ∧
            vm.stackSize ≤ vm.regs fluxRegSp - ea) ∧
          (vm.StackCheck (vm.regs fluxRegSp - ea) (checkedWidth op) → i.rd.toNat < 64)
      | .LEA => i.rd.toNat < 64
      | _ => True := by
  cases op
  case LOAD | LOAD8 | LOAD16 | LOAD32 =>
    refine stackLoad_defined_iff.trans ?_
    rw [decide_eq_true_iff]
    refine Iff.trans ?_ (stackCheck_imp_iff ?_)
    · exact Iff.rfl
    · decide
  case STORE | STORE8 | STORE16 | STORE32 =>
    refine stackStore_defined_iff.trans ?_
    rw [decide_eq_true_iff]
    refine Iff.trans ?_ (stackCheck_imp_iff ?_)
    · exact Iff.rfl
    · decide
  case LEA => simp [stackAccess]
  all_goals exact iff_of_true (defined_ok _) trivial

/-! ## Atomic and region operations -/

theorem activeSlotUnchecked_of_lt (h : vm.activeRegion < 16) :
    vm.activeSlotUnchecked = .ok vm.activeSlot := by
  unfold activeSlotUnchecked activeSlot
  split_ifs with hneg
  · rw [regionSlot?, dif_neg (by omega)]
    rfl
  · rw [regionSlot?, dif_pos (by omega)]
    simp [Option.filter]

theorem activeSlotUnchecked_of_le (h : 16 ≤ vm.activeRegion) :
    vm.activeSlotUnchecked = .error (.regionSlot vm.activeRegion) := by
  unfold activeSlotUnchecked
  rw [if_neg (by omega), regionSlot?, dif_neg (by omega)]

/-- An operation that does not check the bound of the active region faults outside the table, and
otherwise does what it does with the active slot. -/
theorem unchecked_defined_iff {α : Type} {f : Option (Fin 16) → Except Fault α} {P : Prop}
    (hf : Defined (f vm.activeSlot) ↔ ¬ P) :
    Defined (vm.activeSlotUnchecked >>= f) ↔ ¬ (16 ≤ vm.activeRegion ∨ P) := by
  by_cases h : vm.activeRegion < 16
  · rw [activeSlotUnchecked_of_lt h]
    have : ¬ 16 ≤ vm.activeRegion := by omega
    simpa [this] using hf
  · rw [activeSlotUnchecked_of_le (by omega)]
    have : 16 ≤ vm.activeRegion := by omega
    simp [this]

/-- A word that does not wrap around is written into the region. -/
theorem memWrite64_defined {reg : FluxVmRegion} (slot : Fin 16) (val : UInt64) (h : ¬ Wraps ea 8 reg.size) :
    ∃ reg', memWrite64 reg slot ea val = .ok reg' :=
  (memWrite_defined_iff (by decide)).2 h

theorem atomicUpdate_defined_iff {combine : UInt64 → UInt64 → UInt64} :
    Defined (vm.atomicUpdate combine i ea) ↔ ¬ (16 ≤ vm.activeRegion ∨
      ∃ slot ∈ vm.activeSlot, Wraps ea 8 (vm.regions slot).size ∨ 64 ≤ i.rd.toNat) := by
  refine unchecked_defined_iff ?_
  cases vm.activeSlot with
  | none => simp
  | some slot =>
    simp only [Option.mem_def, Option.some.injEq, exists_eq_left', not_or, Nat.not_le]
    refine memRead64_bind_defined_iff fun hwraps old => ?_
    refine (getReg_bind_defined_iff (P := i.rd.toNat < 64) fun _ operand => ?_).trans and_self_iff
    obtain ⟨reg, hreg⟩ := memWrite64_defined slot (combine old operand) hwraps
    simp [hreg]

theorem compareExchange_defined_iff :
    Defined (vm.compareExchange i ea) ↔ ¬ (16 ≤ vm.activeRegion ∨ ∃ slot ∈ vm.activeSlot,
      Wraps ea 8 (vm.regions slot).size ∨ 64 ≤ i.rs2.toNat ∨ 64 ≤ i.rd.toNat) := by
  refine unchecked_defined_iff ?_
  cases vm.activeSlot with
  | none => simp
  | some slot =>
    simp only [Option.mem_def, Option.some.injEq, exists_eq_left', not_or, Nat.not_le]
    refine (getReg_bind_defined_iff (P := ¬ Wraps ea 8 (vm.regions slot).size ∧ i.rd.toNat < 64)
      fun _ expected => ?_).trans and_left_comm
    refine memRead64_bind_defined_iff fun hwraps actual => ?_
    refine (getReg_bind_defined_iff (P := i.rd.toNat < 64) fun _ desired => ?_).trans and_self_iff
    obtain ⟨reg, hreg⟩ := memWrite64_defined slot desired hwraps
    split_ifs
    · simp [hreg]
    · simp

theorem loadRegion_defined_iff :
    Defined (vm.loadRegion i v1) ↔ ¬ (vm.namedSlot v1 ≠ none ∧ 64 ≤ i.rd.toNat) := by
  unfold loadRegion
  cases vm.namedSlot v1 with
  | none => simp
  | some slot =>
    refine (getReg_bind_defined_iff (P := True) fun hrd off => iff_of_true ?_ trivial).trans (by simp)
    dsimp only
    split_ifs
    · exact load_defined_iff.2 ⟨(memRead_defined_iff slot id (by decide)).2 (not_wraps_mask32 _ _), hrd⟩
    · exact defined_pure _

theorem storeRegion_defined_iff :
    Defined (vm.storeRegion i v1 v2) ↔ ¬ (vm.namedSlot v1 ≠ none ∧ 64 ≤ i.rd.toNat) := by
  unfold storeRegion
  cases vm.namedSlot v1 with
  | none => simp
  | some slot =>
    refine (getReg_bind_defined_iff (P := True) fun _ off => iff_of_true ?_ trivial).trans (by simp)
    dsimp only
    split_ifs
    · obtain ⟨reg, hreg⟩ := memWrite64_defined slot v2 (not_wraps_mask32 off (vm.regions slot).size)
      exact (defined_bind ..).2 ⟨reg, hreg, defined_pure _⟩
    · exact defined_pure _

theorem memset_defined_iff :
    Defined (vm.memset i v1 v2) ↔ ¬ (16 ≤ vm.activeRegion ∨ vm.activeSlot ≠ none ∧ 64 ≤ i.rd.toNat) := by
  refine unchecked_defined_iff ?_
  cases vm.activeSlot with
  | none => simp
  | some slot =>
    refine (getReg_bind_defined_iff (P := True) fun _ count => iff_of_true ?_ trivial).trans (by simp)
    have hloop : Defined (memsetLoop slot (v1 &&& 0xFFFFFFFF) count (v2 &&& 0xFF).toUInt8 count.toNat 0
        (vm.regions slot)) := (memsetLoop_defined ..).defined
    obtain ⟨reg, hreg⟩ := hloop
    exact (defined_bind ..).2 ⟨reg, hreg, defined_pure _⟩

/-- A memory operation returns exactly if it does not leave its region, the stack or the register file. -/
theorem execMemory_defined_iff :
    Defined (vm.execMemory op i v1 v2) ↔ ¬ vm.GoesOutside op i v1 := by
  cases op
  case CMPXCHG =>
    refine Iff.trans ?_ compareExchange_defined_iff
    rw [execMemory, defined_bind]
    constructor
    · rintro ⟨vm', hvm', -⟩
      exact ⟨vm', hvm'⟩
    · rintro ⟨vm', hvm'⟩
      exact ⟨vm', hvm', defined_pure _⟩
  case ATOMIC_ADD | ATOMIC_SUB => exact atomicUpdate_defined_iff
  case FENCE => exact iff_of_true (defined_ok _) not_false
  case LOAD_RM => exact loadRegion_defined_iff
  case STORE_RM => exact storeRegion_defined_iff
  case MEMSET => exact memset_defined_iff
  all_goals
    simp only [execMemory, GoesOutside, AccessWraps, UsesRd]
    cases vm.activeSlot with
    | some slot => exact regionAccess_defined_iff.trans (by simp)
    | none => exact stackAccess_defined_iff.trans (by simp)

/-! ## Accesses stay inside -/

/-- What the operation reads and writes lies inside the region it addresses or, without one, inside
the stack: it returns without an access out of range, and nothing else of memory changes. -/
def TouchesInside (vm : FluxVm) (op : MemoryOp) (i : FluxVmInsn) (v1 v2 : UInt64) : Prop :=
  ∃ r, vm.execMemory op i v1 v2 = .ok r ∧ vm.MemoryOutcome op v1 r.2

theorem touchesInside_iff (vm : FluxVm) (op : MemoryOp) (i : FluxVmInsn) (v1 v2 : UInt64) :
    vm.TouchesInside op i v1 v2 ↔ ¬ vm.GoesOutside op i v1 := by
  rw [← execMemory_defined_iff]
  constructor
  · rintro ⟨r, hr, -⟩
    exact ⟨r, hr⟩
  · rintro ⟨r, hr⟩
    exact ⟨r, hr, (execMemory_outcome op).of_ok hr⟩

/-- After `REGION_CREATE`, the instruction `LOAD R7, [R63]` reads the byte at offset `2 ^ 64 - 1` of a
region of 65536 bytes. -/
theorem load_touches_outside :
    let vm := bootSteps [0xA3, 1, 2, 0, 0x50, 7, 63, 0] 1
    Reachable plentifulHost vm ∧ vm.nextInsn = some (decodeInsn 0x50073F00) ∧
      vm.execMemory .LOAD (decodeInsn 0x50073F00) (vm.regs 63) 0 = .error (.regionByte 0 (UInt64.size - 1)) ∧
      ¬ vm.TouchesInside .LOAD (decodeInsn 0x50073F00) (vm.regs 63) 0 := by
  have hread : (bootSteps [0xA3, 1, 2, 0, 0x50, 7, 63, 0] 1).execMemory .LOAD (decodeInsn 0x50073F00)
      ((bootSteps [0xA3, 1, 2, 0, 0x50, 7, 63, 0] 1).regs 63) 0 = .error (.regionByte 0 (UInt64.size - 1)) := rfl
  refine ⟨bootSteps_reachable _ _ (by decide) rfl, rfl, hread, ?_⟩
  rintro ⟨r, hr, -⟩
  cases hread.symm.trans hr

end FluxVm

end FluxOs
