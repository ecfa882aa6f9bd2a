import FluxOs.Vm.Effects

/-!
# What a memory operation can change

A byte access faults when its offset is not below the region's size.  The bounds checks of `mem_read64`
and its siblings add the width to the offset modulo `2 ^ 64`; `Wraps` says that this sum wraps around
and still passes the check, which is exactly when the access faults.  `execMemory_outcome` lists
everything a memory operation can do, and `execMemory_defined_iff` says when it does so without an access
outside its region, the stack or the register file.
-/

namespace FluxOs

open Faulting

namespace FluxVmRegion

variable {reg reg' reg'' : FluxVmRegion} {slot : Fin 16}

/-- `reg'` is `reg` with some of its bytes below the size changed. -/
def WritesInside (reg reg' : FluxVmRegion) : Prop :=
  ∃ bytes, reg' = { reg with data := { reg.data with bytes } } ∧
    ∀ o, bytes o ≠ reg.data.bytes o → o < reg.size.toNat

theorem WritesInside.refl (reg : FluxVmRegion) : WritesInside reg reg :=
  ⟨reg.data.bytes, rfl, fun _ h => absurd rfl h⟩

theorem WritesInside.size (h : WritesInside reg reg') : reg'.size = reg.size := by
  obtain ⟨bytes, rfl, -⟩ := h
  rfl

theorem WritesInside.trans (h : WritesInside reg reg') (h' : WritesInside reg' reg'') :
    WritesInside reg reg'' := by
  obtain ⟨bytes, rfl, hb⟩ := h
  obtain ⟨bytes', rfl, hb'⟩ := h'
  refine ⟨bytes', rfl, fun o ho => ?_⟩
  by_cases heq : bytes o = reg.data.bytes o
  · exact hb' o fun h => ho (h.trans heq)
  · exact hb o heq

/-- The sum of the offset and the width wraps around to a value that passes the bounds check. -/
def Wraps (offset : UInt64) (width : Nat) (size : UInt64) : Prop :=
  UInt64.size ≤ offset.toNat + width ∧ offset.toNat + width - UInt64.size ≤ size.toNat

/-- The fault of a byte access. -/
def ByteFault (slot : Fin 16) (fault : Fault) : Prop := ∃ offset, fault = .regionByte slot offset

theorem setByteAt_ensures (offset : UInt64) (b : UInt8) :
    Ensures (ByteFault slot) (WritesInside reg) (reg.setByteAt slot offset b) := by
  unfold setByteAt
  split_ifs with h
  · refine ⟨_, rfl, fun o ho => ?_⟩
    by_cases hoff : o = offset.toNat
    · subst hoff
      exact h
    · exact absurd (Function.update_of_ne hoff ..) ho
  · exact ⟨_, rfl⟩

theorem byteAt_of_lt {offset : UInt64} (h : offset < reg.size) :
    reg.byteAt slot offset = .ok (reg.data.bytes offset.toNat) :=
  if_pos h

theorem byteAt_faults {offset : UInt64} (h : ¬ offset < reg.size) :
    reg.byteAt slot offset = .error (.regionByte slot offset.toNat) :=
  if_neg h

/-! ## Accesses of several bytes -/

section

variable {width : Nat} {offset : UInt64}

theorem toNat_add_ofNat {k : Nat} (h : offset.toNat + k < UInt64.size) :
    (offset + UInt64.ofNat k).toNat = offset.toNat + k := by
  have hword : UInt64.size = 2 ^ 64 := rfl
  rw [UInt64.toNat_add, UInt64.toNat_ofNat', Nat.mod_eq_of_lt (a := k) (by omega),
    Nat.mod_eq_of_lt h]

/-- The check `offset + width > size` as a statement about natural numbers. -/
theorem not_check_iff (offset : UInt64) (hw : width ≤ 8) (size : UInt64) :
    ¬ offset + UInt64.ofNat width > size ↔
      offset.toNat + width ≤ size.toNat ∨ Wraps offset width size := by
  have hword : UInt64.size = 2 ^ 64 := rfl
  have hoff := offset.toNat_lt
  have hsize := size.toNat_lt
  rw [gt_iff_lt, UInt64.lt_iff_toNat_lt, UInt64.toNat_add, UInt64.toNat_ofNat',
    Nat.mod_eq_of_lt (a := width) (by omega), Wraps]
  by_cases h : offset.toNat + width < UInt64.size
  · rw [Nat.mod_eq_of_lt h]
    omega
  · rw [Nat.mod_eq_sub_mod (by omega), Nat.mod_eq_of_lt (by omega)]
    omega

/-- The last byte below `2 ^ 64` is among the bytes of an access that wraps around. -/
theorem exists_last_of_wraps (h : UInt64.size ≤ offset.toNat + width) :
    ∃ k ∈ List.range width, (offset + UInt64.ofNat k).toNat = UInt64.size - 1 := by
  have hword : UInt64.size = 2 ^ 64 := rfl
  have hoff := offset.toNat_lt
  refine ⟨UInt64.size - 1 - offset.toNat, List.mem_range.2 (by omega), ?_⟩
  rw [toNat_add_ofNat (by omega)]
  omega

theorem not_lt_size_of_last {offset : UInt64} (h : offset.toNat = UInt64.size - 1) (size : UInt64) :
    ¬ offset < size := by
  have hword : UInt64.size = 2 ^ 64 := rfl
  have := size.toNat_lt
  rw [UInt64.lt_iff_toNat_lt]
  omega

theorem readBigEndian_ensures :
    Ensures (ByteFault slot) (fun _ => True) (reg.readBigEndian slot width offset) := by
  refine ensures_foldlM (I := fun _ => True) (fun b _ k _ => ?_) trivial
  rw [ensures_bind]
  unfold byteAt
  split_ifs
  · trivial
  · exact ⟨_, rfl⟩

theorem readBigEndian_inside (slot : Fin 16) (h : offset.toNat + width ≤ reg.size.toNat) :
    Ensures (fun _ => False) (fun _ => True) (reg.readBigEndian slot width offset) := by
  have hword : UInt64.size = 2 ^ 64 := rfl
  refine ensures_foldlM (I := fun _ => True) (fun b _ k hk => ?_) trivial
  have hk := List.mem_range.1 hk
  have hsize := reg.size.toNat_lt
  rw [byteAt_of_lt (by rw [UInt64.lt_iff_toNat_lt, toNat_add_ofNat (by omega)]; omega)]
  trivial

theorem readBigEndian_faults (reg : FluxVmRegion) (slot : Fin 16)
    (h : UInt64.size ≤ offset.toNat + width) :
    ∃ fault, reg.readBigEndian slot width offset = .error fault := by
  obtain ⟨k, hk, hlast⟩ := exists_last_of_wraps h
  refine foldlM_faults (I := fun _ => True) (fun _ _ _ _ _ => trivial) trivial hk fun b _ => ?_
  rw [byteAt_faults (not_lt_size_of_last hlast _)]
  exact ⟨_, rfl⟩

theorem writeBigEndian_ensures {val : UInt64} :
    Ensures (ByteFault slot) (WritesInside reg) (reg.writeBigEndian slot width offset val) :=
  ensures_foldlM (fun _ hb _ _ => (setByteAt_ensures ..).imp fun _ h => hb.trans h) (.refl _)

theorem writeBigEndian_inside (slot : Fin 16) (val : UInt64)
    (h : offset.toNat + width ≤ reg.size.toNat) :
    Ensures (fun _ => False) (WritesInside reg) (reg.writeBigEndian slot width offset val) := by
  have hword : UInt64.size = 2 ^ 64 := rfl
  refine ensures_foldlM (fun reg' hreg k hk => ?_) (.refl _)
  have hk := List.mem_range.1 hk
  have hsize := reg.size.toNat_lt
  refine ensures_of_forall (fun reg'' h'' => hreg.trans ((setByteAt_ensures ..).of_ok h'')) ?_
  intro fault hfault
  rw [setByteAt, if_pos (by rw [hreg.size, UInt64.lt_iff_toNat_lt, toNat_add_ofNat (by omega)]; omega)]
    at hfault
  cases hfault

theorem writeBigEndian_faults (reg : FluxVmRegion) (slot : Fin 16) (val : UInt64)
    (h : UInt64.size ≤ offset.toNat + width) :
    ∃ fault, reg.writeBigEndian slot width offset val = .error fault := by
  obtain ⟨k, hk, hlast⟩ := exists_last_of_wraps h
  refine foldlM_faults (I := fun _ => True) (fun _ _ _ _ _ => trivial) trivial hk fun reg' _ => ?_
  rw [setByteAt, if_neg (not_lt_size_of_last hlast _)]
  exact ⟨_, rfl⟩

/-! ## The bounds-checked accesses -/

variable {val : UInt64}

theorem memRead_ensures {extend : UInt64 → UInt64} :
    Ensures (ByteFault slot) (fun _ => True) (memRead width extend reg slot offset) := by
  unfold memRead
  split_ifs
  · trivial
  · exact (ensures_map ..).2 readBigEndian_ensures

theorem memWrite_ensures :
    Ensures (ByteFault slot) (WritesInside reg) (memWrite width reg slot offset val) := by
  unfold memWrite
  split_ifs
  · exact .refl _
  · exact writeBigEndian_ensures

/-- A bounds-checked read returns unless the check wraps around. -/
theorem memRead_defined_iff (slot : Fin 16) (extend : UInt64 → UInt64) (hw : width ≤ 8) :
    Defined (memRead width extend reg slot offset) ↔ ¬ Wraps offset width reg.size := by
  unfold memRead
  split_ifs with h
  · have h' := mt (not_check_iff offset hw reg.size).2 (not_not.2 h)
    simpa using fun hwr => h' (.inr hwr)
  · rw [defined_map]
    constructor
    · rintro ⟨v, hv⟩ hwr
      obtain ⟨fault, hfault⟩ := readBigEndian_faults reg slot hwr.1
      cases hv.symm.trans hfault
    · intro hwr
      exact (readBigEndian_inside slot (((not_check_iff offset hw reg.size).1 h).resolve_right hwr)).defined

/-- A bounds-checked write returns unless the check wraps around. -/
theorem memWrite_defined_iff (hw : width ≤ 8) :
    Defined (memWrite width reg slot offset val) ↔ ¬ Wraps offset width reg.size := by
  unfold memWrite
  split_ifs with h
  · have h' := mt (not_check_iff offset hw reg.size).2 (not_not.2 h)
    simpa using fun hwr => h' (.inr hwr)
  · constructor
    · rintro ⟨reg', hreg'⟩ hwr
      obtain ⟨fault, hfault⟩ := writeBigEndian_faults reg slot val hwr.1
      cases hreg'.symm.trans hfault
    · intro hwr
      exact (writeBigEndian_inside slot val (((not_check_iff offset hw reg.size).1 h).resolve_right hwr)).defined

theorem memRead8_defined : Ensures (fun _ => False) (fun _ => True) (memRead8 reg slot offset) := by
  unfold memRead8
  split_ifs with h
  · trivial
  · rw [byteAt_of_lt (UInt64.not_le.1 h)]
    trivial

theorem memWrite8_defined :
    Ensures (fun _ => False) (WritesInside reg) (memWrite8 reg slot offset val) := by
  unfold memWrite8
  split_ifs with h
  · exact .refl _
  · refine ensures_of_forall (fun _ h' => (setByteAt_ensures ..).of_ok h') fun fault hf => ?_
    rw [setByteAt, if_pos (UInt64.not_le.1 h)] at hf
    cases hf

end

/-- The loop of `MEMSET` stays inside the region. -/
theorem memsetLoop_defined {off count : UInt64} {fill : UInt8} (fuel : Nat) (k : UInt64) :
    Ensures (fun _ => False) (WritesInside reg)
      (FluxVm.memsetLoop slot off count fill fuel k reg) := by
  induction fuel generalizing reg k with
  | zero => exact .refl _
  | succ fuel ih =>
    unfold FluxVm.memsetLoop
    split_ifs with h
    · have hset : reg.setByteAt slot (off + k) fill = _ := if_pos h.2
      have hinside := (setByteAt_ensures (off + k) fill).of_ok hset
      rw [hset, ensures_bind]
      exact (ih (k + 1)).imp fun _ h' => hinside.trans h'
    · exact .refl _

end FluxVmRegion

namespace FluxVm

open FluxVmRegion

variable {vm : FluxVm} {i : FluxVmInsn} {v1 v2 ea : UInt64}

/-! ## The outcomes of a memory operation -/

/-- The slot whose bytes a memory operation may change. -/
def storeSlot (vm : FluxVm) (op : MemoryOp) (v1 : UInt64) : Option (Fin 16) :=
  match op with
  | .STORE | .STORE8 | .STORE16 | .STORE32 | .CMPXCHG | .ATOMIC_ADD | .ATOMIC_SUB | .MEMSET =>
    vm.activeSlot
  | .STORE_RM => vm.namedSlot v1
  | _ => none

/-- The state a memory operation leaves: only registers changed, or also bytes inside the region it
stores to, or also one word of the stack when no region is active. -/
inductive MemoryOutcome (vm : FluxVm) (op : MemoryOp) (v1 : UInt64) : FluxVm → Prop
  | regs (regs : Fin 64 → UInt64) : MemoryOutcome vm op v1 { vm with regs }
  | region (slot : Fin 16) (reg : FluxVmRegion) (regs : Fin 64 → UInt64)
      (hslot : vm.storeSlot op v1 = some slot) (hreg : WritesInside (vm.regions slot) reg) :
      MemoryOutcome vm op v1 { vm.putRegion slot reg with regs }
  | stackWord (addr val : UInt64) (regs : Fin 64 → UInt64) (hslot : vm.activeSlot = none)
      (haddr : addr < vm.stackSize) :
      MemoryOutcome vm op v1 { vm with stack := Function.update vm.stack addr.toNat val, regs }

theorem MemoryOutcome.unchanged (op : MemoryOp) : MemoryOutcome vm op v1 vm := .regs vm.regs

theorem activeSlotUnchecked_ok {slot : Option (Fin 16)} (h : vm.activeSlotUnchecked = .ok slot) :
    slot = vm.activeSlot := by
  unfold activeSlotUnchecked at h
  unfold activeSlot
  split_ifs at h with hneg
  · rw [regionSlot?, dif_neg (by omega)]
    exact (Except.ok.inj h).symm
  · split at h
    · cases h
    · rename_i s hs
      rw [hs, ← Except.ok.inj h]
      simp [Option.filter]

/-- What holds of the slot of an operation that does not check the active region's bound. -/
theorem activeSlotUnchecked_ensures :
    Ensures (fun _ => True) (fun slot => slot = vm.activeSlot) vm.activeSlotUnchecked :=
  ensures_of_forall (fun _ h => activeSlotUnchecked_ok h) fun _ _ => trivial

/-- A load writes a register. -/
theorem load_outcome {op : MemoryOp} {x : Except Fault UInt64} :
    Ensures (fun _ => True) (fun r => MemoryOutcome vm op v1 r.2)
      (do let val ← x; return (none, ← vm.fluxVmSetReg i.rd val) : Exec) := by
  cases x with
  | error fault => trivial
  | ok val => exact setRd_ensures val fun regs => MemoryOutcome.regs regs

/-- A store of the value of `rd` to a region writes inside it. -/
theorem store_outcome {op : MemoryOp} {slot : Fin 16} {write : UInt64 → Except Fault FluxVmRegion}
    (hslot : vm.storeSlot op v1 = some slot)
    (hwrite : ∀ val, Ensures (fun _ => True) (WritesInside (vm.regions slot)) (write val)) :
    Ensures (fun _ => True) (fun r => MemoryOutcome vm op v1 r.2)
      (do let val ← vm.fluxVmGetReg i.rd; return (none, vm.putRegion slot (← write val)) : Exec) :=
  (fluxVmGetReg_ensures fun _ => trivial).bind fun val _ =>
    (hwrite val).bind fun reg hreg => .region slot reg vm.regs hslot hreg

theorem memWrite_writesInside {width : Nat} {reg : FluxVmRegion} {slot : Fin 16}
    {offset val : UInt64} :
    Ensures (fun _ => True) (WritesInside reg) (memWrite width reg slot offset val) :=
  memWrite_ensures.mono (fun _ _ => trivial) fun _ h => h

theorem memWrite8_writesInside {reg : FluxVmRegion} {slot : Fin 16} {offset val : UInt64} :
    Ensures (fun _ => True) (WritesInside reg) (memWrite8 reg slot offset val) :=
  memWrite8_defined.mono (fun _ _ => trivial) fun _ h => h

theorem regionAccess_outcome {slot : Fin 16} (op : MemoryOp) (hslot : vm.activeSlot = some slot) :
    Ensures (fun _ => True) (fun r => MemoryOutcome vm op v1 r.2)
      (vm.regionAccess op i ea slot) := by
  cases op
  case LOAD | LOAD8 | LOAD16 | LOAD32 => exact load_outcome
  case STORE | STORE16 | STORE32 => exact store_outcome hslot fun _ => memWrite_writesInside
  case STORE8 => exact store_outcome hslot fun _ => memWrite8_writesInside
  case LEA => exact setRd_ensures _ fun regs => MemoryOutcome.regs regs
  all_goals exact .unchanged _

theorem stackLoad_outcome {op : MemoryOp} {inBounds : Bool} {addr : UInt64}
    {read : UInt64 → UInt64} :
    Ensures (fun _ => True) (fun r => MemoryOutcome vm op v1 r.2)
      (if inBounds then do
        let w ← vm.stackAt addr
        return (none, ← vm.fluxVmSetReg i.rd (read w))
      else .ok (none, vm) : Exec) := by
  cases inBounds with
  | false => exact .unchanged _
  | true =>
    unfold stackAt
    simp only [if_true]
    split_ifs
    · exact setRd_ensures (read _) fun regs => MemoryOutcome.regs regs
    · trivial

theorem stackStore_outcome {op : MemoryOp} {inBounds : Bool} {addr : UInt64}
    {write : UInt64 → UInt64 → UInt64} (hslot : vm.activeSlot = none) :
    Ensures (fun _ => True) (fun r => MemoryOutcome vm op v1 r.2)
      (if inBounds then do
        let val ← vm.fluxVmGetReg i.rd
        let w ← vm.stackAt addr
        return (none, ← vm.setStackAt addr (write w val))
      else .ok (none, vm) : Exec) := by
  cases inBounds with
  | false => exact .unchanged _
  | true =>
    refine (fluxVmGetReg_ensures fun _ => trivial).bind fun val _ => ?_
    unfold stackAt setStackAt
    split_ifs with haddr
    · exact .stackWord addr _ vm.regs hslot haddr
    · trivial

theorem stackAccess_outcome (op : MemoryOp) (hslot : vm.activeSlot = none) :
    Ensures (fun _ => True) (fun r => MemoryOutcome vm op v1 r.2) (vm.stackAccess op i ea) := by
  cases op
  case LOAD | LOAD8 | LOAD16 | LOAD32 => exact stackLoad_outcome
  case STORE | STORE8 | STORE16 | STORE32 => exact stackStore_outcome hslot
  case LEA => exact setRd_ensures _ fun regs => MemoryOutcome.regs regs
  all_goals exact .unchanged _

theorem putRegion_setReg_ensures (op : MemoryOp) (val : UInt64) {slot : Fin 16} {reg : FluxVmRegion}
    (hslot : vm.storeSlot op v1 = some slot) (hreg : WritesInside (vm.regions slot) reg) :
    Ensures (fun _ => True) (MemoryOutcome vm op v1)
      ((vm.putRegion slot reg).fluxVmSetReg i.rd val) :=
  fluxVmSetReg_ensures fun regs => .region slot reg regs hslot hreg

theorem atomicUpdate_outcome {combine : UInt64 → UInt64 → UInt64} {op : MemoryOp}
    (hop : vm.storeSlot op v1 = vm.activeSlot) :
    Ensures (fun _ => True) (fun r => MemoryOutcome vm op v1 r.2)
      (vm.atomicUpdate combine i ea) := by
  refine activeSlotUnchecked_ensures.bind fun slot hslot => ?_
  cases slot with
  | none => exact .unchanged _
  | some slot =>
    have hop := hop.trans hslot.symm
    refine Ensures.bind (R := fun _ => True) ?_ fun oldVal _ =>
      (fluxVmGetReg_ensures fun _ => trivial).bind fun operand _ =>
        memWrite_writesInside.bind fun reg hreg => ?_
    · exact memRead_ensures.mono (fun _ _ => trivial) fun _ h => h
    · exact (ensures_bind ..).2 (putRegion_setReg_ensures _ _ hop hreg)

theorem compareExchange_outcome (v1 : UInt64) :
    Ensures (fun _ => True) (MemoryOutcome vm .CMPXCHG v1) (vm.compareExchange i ea) := by
  refine activeSlotUnchecked_ensures.bind fun slot hslot => ?_
  cases slot with
  | none => exact .unchanged _
  | some slot =>
    refine (fluxVmGetReg_ensures fun _ => trivial).bind fun expected _ => ?_
    refine Ensures.bind (R := fun _ => True) ?_ fun actual _ =>
      (fluxVmGetReg_ensures fun _ => trivial).bind fun desired _ => ?_
    · exact memRead_ensures.mono (fun _ _ => trivial) fun _ h => h
    · simp only
      split_ifs
      · exact memWrite_writesInside.bind fun reg hreg =>
          putRegion_setReg_ensures .CMPXCHG actual hslot.symm hreg
      · exact putRegion_setReg_ensures .CMPXCHG actual hslot.symm (.refl _)

theorem loadRegion_outcome :
    Ensures (fun _ => True) (fun r => MemoryOutcome vm .LOAD_RM v1 r.2) (vm.loadRegion i v1) := by
  unfold loadRegion
  cases vm.namedSlot v1 with
  | none => exact .unchanged _
  | some slot =>
    refine (fluxVmGetReg_ensures fun _ => trivial).bind fun off _ => ?_
    simp only
    split_ifs
    · exact load_outcome
    · exact .unchanged _

theorem storeRegion_outcome :
    Ensures (fun _ => True) (fun r => MemoryOutcome vm .STORE_RM v1 r.2)
      (vm.storeRegion i v1 v2) := by
  unfold storeRegion
  cases hslot : vm.namedSlot v1 with
  | none => exact .unchanged _
  | some slot =>
    refine (fluxVmGetReg_ensures fun _ => trivial).bind fun off _ => ?_
    simp only
    split_ifs
    · exact memWrite_writesInside.bind fun reg hreg => .region slot reg vm.regs hslot hreg
    · exact .unchanged _

theorem memset_outcome :
    Ensures (fun _ => True) (fun r => MemoryOutcome vm .MEMSET v1 r.2) (vm.memset i v1 v2) := by
  refine activeSlotUnchecked_ensures.bind fun slot hslot => ?_
  cases slot with
  | none => exact .unchanged _
  | some slot =>
    refine (fluxVmGetReg_ensures fun _ => trivial).bind fun count _ => ?_
    refine ((memsetLoop_defined _ 0).mono (fun _ _ => trivial) fun _ h => h).bind fun reg hreg => ?_
    exact .region slot reg vm.regs hslot.symm hreg

/-- Everything a memory operation can do to the VM. -/
theorem execMemory_outcome (op : MemoryOp) :
    Ensures (fun _ => True) (fun r => MemoryOutcome vm op v1 r.2) (vm.execMemory op i v1 v2) := by
  cases op
  case CMPXCHG =>
    refine (compareExchange_outcome v1).bind fun vm' hvm' => ?_
    cases hvm' with
    | regs regs => exact .regs (Function.update regs _ _)
    | region slot reg regs hslot hreg => exact .region slot reg (Function.update regs _ _) hslot hreg
    | stackWord addr val regs hslot haddr =>
      exact .stackWord addr val (Function.update regs _ _) hslot haddr
  case ATOMIC_ADD | ATOMIC_SUB => exact atomicUpdate_outcome rfl
  case FENCE => exact .unchanged _
  case LOAD_RM => exact loadRegion_outcome
  case STORE_RM => exact storeRegion_outcome
  case MEMSET => exact memset_outcome
  all_goals
    simp only [execMemory]
    cases hslot : vm.activeSlot with
    | some slot => exact regionAccess_outcome _ hslot
    | none => exact stackAccess_outcome _ hslot

end FluxVm

end FluxOs
