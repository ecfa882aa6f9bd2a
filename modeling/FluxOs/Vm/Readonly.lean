import FluxOs.Vm.MemoryEffects
import FluxOs.Vm.StepRules

/-!
# Read-only regions

The functions of `region.c` that write to a region check its `readonly` flag.  The opcode cases store
to the bytes of a region themselves and do not look at the flag: a read-only region keeps its bytes
along every run whose memory operations do not get to a store in such a region.
-/

namespace FluxOs

open Faulting

namespace FluxVm

open FluxVmRegion

variable {vm : FluxVm} {i : FluxVmInsn} {v1 v2 ea : UInt64} {slot s : Fin 16} {host : Host}

/-! ## Stores that are not reached -/

/-- A memory operation addressing the region of `slot` gets to a store of bytes in it: its bounds check
passes, `CMPXCHG` finds the expected value, and `MEMSET` has something to fill. -/
def StoreReached (vm : FluxVm) (op : MemoryOp) (i : FluxVmInsn) (v1 : UInt64) (slot : Fin 16) :
    Prop :=
  let ea := v1 + i.offset
  let reg := vm.regions slot
  match op with
  | .STORE | .ATOMIC_ADD | .ATOMIC_SUB => ea + 8 ≤ reg.size
  | .STORE8 => ea < reg.size
  | .STORE16 => ea + 2 ≤ reg.size
  | .STORE32 => ea + 4 ≤ reg.size
  | .CMPXCHG => ea + 8 ≤ reg.size ∧ memRead64 reg slot ea = .ok (vm.regValue i.rs2)
  | .STORE_RM => (vm.regValue i.rd &&& 0xFFFFFFFF) + 8 ≤ reg.size
  | .MEMSET => vm.regValue i.rd ≠ 0 ∧ v1 &&& 0xFFFFFFFF < reg.size
  | _ => False

theorem putRegion_same (slot : Fin 16) : vm.putRegion slot (vm.regions slot) = vm := by
  unfold putRegion
  rw [Function.update_eq_self]

theorem memWrite_unreached {width : Nat} {reg : FluxVmRegion} {offset val : UInt64}
    (h : ¬ offset + UInt64.ofNat width ≤ reg.size) :
    memWrite width reg slot offset val = .ok reg :=
  if_pos (UInt64.not_le.1 h)

theorem memWrite8_unreached {reg : FluxVmRegion} {offset val : UInt64} (h : ¬ offset < reg.size) :
    memWrite8 reg slot offset val = .ok reg :=
  if_pos (UInt64.not_lt.1 h)

/-- The computation leaves the region table as it was. -/
abbrev KeepsTable (vm : FluxVm) (x : Except Fault (Option FluxStatus × FluxVm)) : Prop :=
  Ensures (fun _ => True) (fun r => r.2.regions = vm.regions) x

theorem store_unreached {write : UInt64 → Except Fault FluxVmRegion}
    (hwrite : ∀ val, write val = .ok (vm.regions slot)) :
    KeepsTable vm
      (do let val ← vm.fluxVmGetReg i.rd; return (none, vm.putRegion slot (← write val))) := by
  refine (fluxVmGetReg_ensures fun _ => trivial).bind fun val _ => ?_
  rw [hwrite]
  exact congrArg FluxVm.regions (putRegion_same slot)

theorem regionAccess_unreached (op : MemoryOp) (hslot : vm.storeSlot op v1 = some slot)
    (h : ¬ vm.StoreReached op i v1 slot) :
    KeepsTable vm (vm.regionAccess op i (v1 + i.offset) slot) := by
  cases op
  case STORE | STORE16 | STORE32 => exact store_unreached fun _ => memWrite_unreached h
  case STORE8 => exact store_unreached fun _ => memWrite8_unreached h
  all_goals first | cases hslot | exact rfl

theorem atomicUpdate_unreached {combine : UInt64 → UInt64 → UInt64}
    (h : ∀ slot ∈ vm.activeSlot, ¬ ea + 8 ≤ (vm.regions slot).size) :
    KeepsTable vm (vm.atomicUpdate combine i ea) := by
  refine activeSlotUnchecked_ensures.bind fun slot hslot => ?_
  cases slot with
  | none => rfl
  | some slot =>
    refine Ensures.bind (R := fun _ => True) (memRead_ensures.mono (fun _ _ => trivial) fun _ h => h)
      fun oldVal _ => (fluxVmGetReg_ensures fun _ => trivial).bind fun operand _ => ?_
    have hwrite : memWrite64 (vm.regions slot) slot ea (combine oldVal operand) = .ok _ :=
      memWrite_unreached (h slot hslot.symm)
    have hput : (vm.putRegion slot (vm.regions slot)).regions = vm.regions :=
      congrArg FluxVm.regions (putRegion_same slot)
    rw [hwrite]
    exact setRd_ensures _ fun regs => hput

theorem compareExchange_unreached (h : ∀ slot ∈ vm.activeSlot, ¬ (ea + 8 ≤ (vm.regions slot).size ∧
      memRead64 (vm.regions slot) slot ea = .ok (vm.regValue i.rs2))) :
    Ensures (fun _ => True) (fun vm' => vm'.regions = vm.regions) (vm.compareExchange i ea) := by
  refine activeSlotUnchecked_ensures.bind fun slot hslot => ?_
  cases slot with
  | none => rfl
  | some slot =>
    have put (val : UInt64) : Ensures (fun _ => True) (fun vm' => vm'.regions = vm.regions)
        ((vm.putRegion slot (vm.regions slot)).fluxVmSetReg i.rd val) := by
      rw [putRegion_same]
      exact fluxVmSetReg_ensures fun _ => rfl
    refine Ensures.bind (R := fun v => v = vm.regValue i.rs2) ?_ fun expected hexpected => ?_
    · exact ensures_of_forall (fun v hv => (fluxVmGetReg_ok hv).2) fun _ _ => trivial
    refine Ensures.bind (R := fun v => memRead64 (vm.regions slot) slot ea = .ok v) ?_
      fun actual hactual => ?_
    · exact ensures_of_forall (fun _ h => h) fun _ _ => trivial
    refine (fluxVmGetReg_ensures fun _ => trivial).bind fun desired _ => ?_
    simp only
    split_ifs with heq
    · have hcheck : ¬ ea + 8 ≤ (vm.regions slot).size := fun hle =>
        h slot hslot.symm ⟨hle, by rw [hactual, heq, hexpected]⟩
      have hwrite : memWrite64 (vm.regions slot) slot ea desired = .ok _ := memWrite_unreached hcheck
      rw [hwrite]
      exact put actual
    · exact put actual

theorem storeRegion_unreached
    (h : ∀ slot ∈ vm.namedSlot v1, ¬ (vm.regValue i.rd &&& 0xFFFFFFFF) + 8 ≤ (vm.regions slot).size) :
    KeepsTable vm (vm.storeRegion i v1 v2) := by
  unfold storeRegion
  cases hslot : vm.namedSlot v1 with
  | none => rfl
  | some slot =>
    refine Ensures.bind (R := fun v => v = vm.regValue i.rd) ?_ fun val hval => ?_
    · exact ensures_of_forall (fun v hv => (fluxVmGetReg_ok hv).2) fun _ _ => trivial
    simp only
    rw [if_neg (by rw [hval]; exact h slot hslot)]
    rfl

theorem memset_unreached (h : ∀ slot ∈ vm.activeSlot,
      ¬ (vm.regValue i.rd ≠ 0 ∧ v1 &&& 0xFFFFFFFF < (vm.regions slot).size)) :
    KeepsTable vm (vm.memset i v1 v2) := by
  refine activeSlotUnchecked_ensures.bind fun slot hslot => ?_
  cases slot with
  | none => rfl
  | some slot =>
    refine Ensures.bind (R := fun v => v = vm.regValue i.rd) ?_ fun count hcount => ?_
    · exact ensures_of_forall (fun v hv => (fluxVmGetReg_ok hv).2) fun _ _ => trivial
    have hloop (n : Nat) (fill : UInt8) : memsetLoop slot (v1 &&& 0xFFFFFFFF) count fill n 0
        (vm.regions slot) = .ok (vm.regions slot) := by
      cases n with
      | zero => rfl
      | succ n =>
        rw [memsetLoop, if_neg]
        rintro ⟨hpos, hlt⟩
        rw [UInt64.add_zero] at hlt
        refine h slot hslot.symm ⟨fun h0 => ?_, hlt⟩
        rw [hcount, h0] at hpos
        exact absurd hpos (by decide)
    simp only [hloop]
    exact congrArg FluxVm.regions (putRegion_same slot)

theorem MemoryOutcome.regions_of_none {op : MemoryOp} {vm' : FluxVm}
    (h : MemoryOutcome vm op v1 vm') (hslot : vm.storeSlot op v1 = none) :
    vm'.regions = vm.regions := by
  cases h with
  | regs => rfl
  | region _ _ _ hsome => rw [hslot] at hsome; cases hsome
  | stackWord => rfl

/-- A memory operation that does not get to a store leaves the region table as it was. -/
theorem execMemory_unreached (op : MemoryOp)
    (h : ∀ slot, vm.storeSlot op v1 = some slot → ¬ vm.StoreReached op i v1 slot) :
    KeepsTable vm (vm.execMemory op i v1 v2) := by
  have none_unreached (hslot : vm.storeSlot op v1 = none) :
      KeepsTable vm (vm.execMemory op i v1 v2) :=
    (execMemory_outcome op).imp fun r hr => hr.regions_of_none hslot
  cases op
  case CMPXCHG => exact (compareExchange_unreached h).bind fun vm' h' => h'
  case ATOMIC_ADD | ATOMIC_SUB => exact atomicUpdate_unreached h
  case STORE_RM => exact storeRegion_unreached h
  case MEMSET => exact memset_unreached h
  case STORE | STORE8 | STORE16 | STORE32 =>
    cases hslot : vm.activeSlot with
    | some slot =>
      simp only [execMemory, hslot]
      exact regionAccess_unreached _ hslot (h slot hslot)
    | none => exact none_unreached hslot
  all_goals exact none_unreached rfl

/-! ## One step -/

theorem fluxVmRegionCreate_region (host : Host) (name : Option (List UInt8)) (size : UInt64)
    (readonly : Bool) (h : (vm.regions s).active = true) :
    (vm.fluxVmRegionCreate host name size readonly).2.regions s = vm.regions s := by
  simp only [fluxVmRegionCreate]
  split
  · rfl
  · rename_i rid hfree
    have hne : s ≠ rid := fun heq => by
      rw [heq, vm.findFreeRegion_inactive hfree] at h
      cases h
    split
    · rfl
    · split_ifs <;> exact vm.putRegion_of_ne hne _

theorem fluxVmRegionDestroy_region (regionId : Int) :
    Ensures (fun _ => True) (fun r => (r.2.regions s).active = true → r.2.regions s = vm.regions s)
      (vm.fluxVmRegionDestroy regionId) := by
  unfold fluxVmRegionDestroy
  cases vm.validateRegionId regionId with
  | none => exact fun _ => rfl
  | some slot =>
    refine Ensures.bind (R := fun _ => True)
      (ensures_of_forall (fun _ _ => trivial) fun _ _ => trivial) fun heap _ => ?_
    simp only [ensures_pure]
    intro hactive
    have hregions : ∀ reg : FluxVmRegion, reg.active = false →
        ((vm.putRegion slot reg).regions s).active = true →
        (vm.putRegion slot reg).regions s = vm.regions s := by
      intro reg hreg hact
      by_cases hs : s = slot
      · subst hs
        rw [putRegion_self, hreg] at hact
        cases hact
      · exact vm.putRegion_of_ne hs reg
    split_ifs at hactive ⊢
    · exact hregions _ rfl hactive
    · exact hregions _ rfl hactive

/-- A FLUX operation changes no region that was there before and is there after. -/
theorem execFlux_region (op : FluxOp) (h : (vm.regions s).active = true) :
    Ensures (fun _ => True) (fun r => (r.2.regions s).active = true → r.2.regions s = vm.regions s)
      (vm.execFlux host op i v1 v2) := by
  cases op
  case TILE_LOAD | TILE_COMPOSE => exact setRd_ensures _ fun _ _ => rfl
  case REGION_CREATE =>
    have hcreate := fluxVmRegionCreate_region host (some dyn) v1 false h
    simp only [execFlux]
    exact setRd_ensures _ fun _ _ => hcreate
  case REGION_DESTROY => exact (fluxVmRegionDestroy_region _).bind fun _ h => h
  case REGION_MAP =>
    simp only [execFlux]
    split_ifs
    · exact setRd_ensures _ fun _ _ => rfl
    all_goals exact fun _ => rfl
  case GAS_INIT => exact (fluxVmGetReg_ensures fun _ => trivial).bind fun _ _ _ => rfl
  case GAS_CHECK =>
    refine (fluxVmGetReg_ensures fun _ => trivial).bind fun _ _ => ?_
    split_ifs <;> exact fun _ => rfl
  all_goals exact fun _ => rfl

/-- The next step does not get to a store of bytes in a read-only region. -/
def SparesReadonly (vm : FluxVm) : Prop :=
  ∀ i op, vm.nextInsn = some i → opcodeOf i.opcode = .memory op → ∀ slot,
    vm.storeSlot op (vm.regValue i.rs1) = some slot →
    vm.StoreReached op i (vm.regValue i.rs1) slot → (vm.regions slot).readonly = false

/-- A memory operation that spares read-only regions changes no read-only region. -/
theorem execMemory_readonly (op : MemoryOp) (hro : (vm.regions s).readonly = true)
    (h : ∀ slot, vm.storeSlot op v1 = some slot → vm.StoreReached op i v1 slot →
      (vm.regions slot).readonly = false) :
    Ensures (fun _ => True) (fun r => r.2.regions s = vm.regions s)
      (vm.execMemory op i v1 v2) := by
  by_cases hreach : ∃ slot, vm.storeSlot op v1 = some slot ∧ vm.StoreReached op i v1 slot
  · obtain ⟨slot, hslot, hreach⟩ := hreach
    have hne : s ≠ slot := fun heq => by
      rw [heq, h slot hslot hreach] at hro
      cases hro
    refine (execMemory_outcome op).imp fun r hr => ?_
    obtain ⟨status, vm'⟩ := r
    cases hr with
    | regs => rfl
    | region slot' reg regs hslot' hreg =>
      rw [hslot, Option.some.injEq] at hslot'
      subst hslot'
      exact vm.putRegion_of_ne hne reg
    | stackWord => rfl
  · refine (execMemory_unreached op fun slot hslot hr => hreach ⟨slot, hslot, hr⟩).imp fun r hr => ?_
    rw [hr]

theorem execute_readonly (hro : (vm.regions s).readonly = true)
    (hactive : (vm.regions s).active = true)
    (h : ∀ op, opcodeOf i.opcode = .memory op → ∀ slot, vm.storeSlot op v1 = some slot →
      vm.StoreReached op i v1 slot → (vm.regions slot).readonly = false) :
    Ensures (fun _ => True) (fun r => (r.2.regions s).active = true → r.2.regions s = vm.regions s)
      (vm.execute host i v1 v2) := by
  have kept {x : Exec} (hx : Ensures (fun _ => True) (fun r => KeepsRegions vm r.2) x) :
      Ensures (fun _ => True)
        (fun r => (r.2.regions s).active = true → r.2.regions s = vm.regions s) x :=
    hx.imp fun r hr _ => by rw [hr.regions]
  unfold execute
  cases hop : opcodeOf i.opcode with
  | system op => exact kept ((execSystem_effect op).imp fun _ h => h.toKeepsRegions)
  | arith op => exact kept ((execArith_effect op).imp fun _ h => h.toKeepsRegions)
  | logic op => exact kept ((execLogic_effect op).imp fun _ h => h.toKeepsRegions)
  | compare op => exact kept ((execCompare_effect op).imp fun _ h => h.toKeepsRegions)
  | branch op => exact kept ((execBranch_effect op).imp fun _ h => h.toKeepsRegions)
  | memory op => exact (execMemory_readonly op hro (h op hop)).imp fun _ hr _ => hr
  | stack op => exact kept ((execStack_effect op).imp fun _ h => h.toKeepsRegions)
  | call op => exact kept ((execCall_effect op).imp fun _ h => h.toKeepsRegions)
  | agent op => exact kept ((execAgent_effect op).imp fun _ h => h.toKeepsRegions)
  | io op => exact kept ((execIo_effect op).imp fun _ h => h.toKeepsRegions)
  | flux op => exact execFlux_region op hactive
  | native op => exact kept ((execNative_effect op).imp fun _ h => h.toKeepsRegions)
  | unknown => exact fun _ => rfl

/-- A step that spares read-only regions leaves a read-only region as it was, unless it destroys it. -/
theorem fluxVmStep_readonly (hspare : vm.SparesReadonly) (hro : (vm.regions s).readonly = true)
    (hactive : (vm.regions s).active = true) :
    Ensures (fun _ => True) (fun r => (r.2.regions s).active = true → r.2.regions s = vm.regions s)
      (vm.fluxVmStep host) := by
  refine fluxVmStep_ensures (fun r hr _ => ?_) (fun _ _ _ => trivial) (fun _ _ _ _ _ => trivial)
    (fun _ => trivial) fun i vm₁ hi hvm₁ => ?_
  · unfold stopped? at hr
    split_ifs at hr
    all_goals
      cases hr
      rfl
  · obtain ⟨trace, traceIdx, heq⟩ := hvm₁.eq
    have hregions : vm₁.regions = vm.regions := by rw [heq]
    have hspare₁ : ∀ op, opcodeOf i.opcode = .memory op → ∀ slot,
        vm₁.storeSlot op (vm.regValue i.rs1) = some slot →
        vm₁.StoreReached op i (vm.regValue i.rs1) slot → (vm₁.regions slot).readonly = false := by
      rw [heq]
      exact fun op hop => hspare i op hi hop
    have hexec : Ensures _ _ (vm₁.execute host i (vm.regValue i.rs1) (vm.regValue i.rs2)) :=
      execute_readonly (s := s) (by rw [hregions]; exact hro) (by rw [hregions]; exact hactive) hspare₁
    refine hexec.imp fun r hr => ?_
    rw [hregions] at hr
    rcases r with ⟨_ | status, vm'⟩
    · exact hr
    · exact hr

/-! ## Runs -/

/-- A read-only region that exists throughout a run whose steps spare read-only regions is the same,
bytes included, after the run. -/
theorem readonly_of_run (host : Host) {vm₀ : FluxVm}
    (hrun : GuardedRun (fluxVmStep · host)
      (fun vm => vm.SparesReadonly ∧ (vm.regions s).active = true) vm₀ vm)
    (hactive : (vm.regions s).active = true) (hro : (vm₀.regions s).readonly = true) :
    vm.regions s = vm₀.regions s := by
  have h := hrun.invariant
    (I := fun vm => (vm.regions s).active = true → vm.regions s = vm₀.regions s) ?_ fun _ => rfl
  · exact h hactive
  · intro vm rc vm' ⟨hspare, hact⟩ hsame hstep
    have hro : (vm.regions s).readonly = true := by rw [hsame hact]; exact hro
    rw [← hsame hact]
    exact (fluxVmStep_readonly hspare hro hact).of_ok hstep

/-- A read-only region of eight bytes, created before the program runs. -/
def bootReadonly (code : List UInt8) : FluxVm :=
  ((boot code).fluxVmRegionCreate plentifulHost none 8 true).2

theorem readonly_of_run_load :
    (next (fluxVmStep · plentifulHost) (bootReadonly [0x51, 1, 0, 0])).regions 0 =
      (bootReadonly [0x51, 1, 0, 0]).regions 0 := by
  refine readonly_of_run plentifulHost (.tail (.refl _) ⟨?_, rfl⟩ rfl) rfl rfl
  intro i op hi hop slot hslot hreach
  cases hi
  cases hop
  cases hslot

/-- `STORE8` changes a byte of a read-only region. -/
theorem store8_changes_readonly :
    ∃ vm₀ vm, Run (fluxVmStep · plentifulHost) vm₀ vm ∧ (vm₀.regions 0).readonly = true ∧
      (vm₀.regions 0).active = true ∧ (vm.regions 0).active = true ∧
      (vm.regions 0).data.bytes 0 ≠ (vm₀.regions 0).data.bytes 0 := by
  refine ⟨bootReadonly [0x55, 63, 0, 0], _, run_of_stepsReturn 1 rfl, rfl, rfl, rfl, ?_⟩
  decide

end FluxVm

end FluxOs
