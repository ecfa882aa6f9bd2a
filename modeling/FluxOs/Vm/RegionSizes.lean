import Mathlib.Algebra.BigOperators.Fin
import FluxOs.Vm.MemoryEffects
import FluxOs.Vm.StepRules

/-!
# The total size of the regions

Only `REGION_CREATE` makes the total size of the active regions of a VM larger: by the size of the region that it
creates, which the program chooses.
-/

namespace FluxOs

open Faulting

/-- What a region counts for. -/
def FluxVmRegion.activeSize (reg : FluxVmRegion) : Nat := if reg.active then reg.size.toNat else 0

namespace FluxVm

variable {vm vm' : FluxVm} {host : Host} {i : FluxVmInsn} {v1 v2 : UInt64}

/-- The total size of the active regions. -/
def regionTotal (vm : FluxVm) : Nat := ∑ s, (vm.regions s).activeSize

/-- The size of the region that `REGION_CREATE` creates, or 0 if there is no free slot or no memory. -/
def createdSize (vm : FluxVm) (host : Host) (size : UInt64) : Nat :=
  if vm.findFreeRegion.isSome ∧ (host.calloc vm.heap (if size = 0 then 256 else size)).isSome then
    (if size = 0 then 256 else size).toNat
  else 0

/-- The size of the region that the next step creates, or 0 if it creates none. -/
def nextCreated (vm : FluxVm) (host : Host) : Nat :=
  match vm.nextInsn with
  | some insn =>
    if opcodeOf insn.opcode = .flux .REGION_CREATE then vm.createdSize host (vm.regValue insn.rs1) else 0
  | none => 0

/-! ## Changing the region table -/

theorem regionTotal_of_regions (h : vm'.regions = vm.regions) : vm'.regionTotal = vm.regionTotal := by
  rw [regionTotal, regionTotal, h]

/-- One entry of the sum changes. -/
theorem regionTotal_putRegion (vm : FluxVm) (slot : Fin 16) (reg : FluxVmRegion) :
    (vm.putRegion slot reg).regionTotal + (vm.regions slot).activeSize = vm.regionTotal + reg.activeSize := by
  have hmem : slot ∈ Finset.univ := Finset.mem_univ slot
  have hrest : ∑ s ∈ Finset.univ.erase slot, ((vm.putRegion slot reg).regions s).activeSize =
      ∑ s ∈ Finset.univ.erase slot, (vm.regions s).activeSize := by
    refine Finset.sum_congr rfl fun s hs => ?_
    rw [putRegion_of_ne vm (Finset.ne_of_mem_erase hs)]
  rw [regionTotal, regionTotal, ← Finset.add_sum_erase _ _ hmem, hrest, putRegion_self,
    ← Finset.add_sum_erase _ (fun s => (vm.regions s).activeSize) hmem]
  omega

theorem regionTotal_fluxVmRegionCreate (vm : FluxVm) (host : Host) (name : Option (List UInt8)) (size : UInt64)
    (readonly : Bool) : (vm.fluxVmRegionCreate host name size readonly).2.regionTotal =
      vm.regionTotal + vm.createdSize host size := by
  simp only [fluxVmRegionCreate, createdSize, HostHeap.calloc]
  generalize (if size = 0 then (256 : UInt64) else size) = n
  cases hfree : vm.findFreeRegion with
  | none => simp
  | some rid =>
    cases hmem : host.calloc vm.heap n with
    | none =>
      have hsame : ({ vm with heap := ⟨vm.heap.calls + 1, vm.heap.live⟩ } : FluxVm).regionTotal =
          vm.regionTotal := regionTotal_of_regions rfl
      simpa using hsame
    | some addr =>
      have hinactive : (vm.regions rid).activeSize = 0 := by
        rw [FluxVmRegion.activeSize, vm.findFreeRegion_inactive hfree]
        rfl
      have hput := regionTotal_putRegion vm rid { FluxVmRegion.zero with
        data := ⟨addr, n.toNat, fun _ => 0⟩, size := n, active := true, readonly, owner := vm.ownerPid
        name := (name.getD unnamed).take 31 }
      rw [hinactive, Nat.add_zero] at hput
      simp only [Option.isSome_some, and_self, if_true]
      split_ifs
      · exact (regionTotal_of_regions rfl).trans hput
      · exact (regionTotal_of_regions rfl).trans hput

theorem regionTotal_fluxVmRegionDestroy (regionId : Int) :
    Ensures (fun _ => True) (fun r => r.2.regionTotal ≤ vm.regionTotal) (vm.fluxVmRegionDestroy regionId) := by
  unfold fluxVmRegionDestroy
  cases vm.validateRegionId regionId with
  | none => exact Nat.le_refl _
  | some slot =>
    refine Ensures.bind (R := fun _ => True)
      (ensures_of_forall (fun _ _ => trivial) fun _ _ => trivial) fun heap _ => ?_
    have hput := regionTotal_putRegion vm slot
      { vm.regions slot with data := .null, active := false, size := 0, base := 0, name := [] }
    have hle : (vm.putRegion slot
        { vm.regions slot with data := .null, active := false, size := 0, base := 0, name := [] }).regionTotal ≤
          vm.regionTotal := by
      have hzero : ({ vm.regions slot with data := .null, active := false, size := 0, base := 0, name := [] } :
          FluxVmRegion).activeSize = 0 := rfl
      omega
    simp only [ensures_pure]
    split_ifs
    · exact hle
    · exact hle

/-! ## One step -/

/-- What a step does to the regions. -/
def RegionsAfter (vm : FluxVm) (created : Nat) (r : FluxStatus × FluxVm) : Prop :=
  (0 < created → r.1 = .ok ∧ r.2.regionTotal = vm.regionTotal + created) ∧
    (created = 0 → r.2.regionTotal ≤ vm.regionTotal)

theorem regionsAfter_of_le {r : FluxStatus × FluxVm} (h : r.2.regionTotal ≤ vm.regionTotal) :
    vm.RegionsAfter 0 r := ⟨fun hlt => absurd hlt (Nat.lt_irrefl 0), fun _ => h⟩

theorem regionTotal_finish (r : Option FluxStatus × FluxVm) :
    (finish r).2.regionTotal = r.2.regionTotal := by
  obtain ⟨status, vm⟩ := r
  cases status <;> rfl

theorem MemoryOutcome.regionTotal {op : MemoryOp} (h : MemoryOutcome vm op v1 vm') :
    vm'.regionTotal = vm.regionTotal := by
  cases h with
  | regs => rfl
  | region slot reg regs _ hreg =>
    obtain ⟨bytes, rfl, -⟩ := hreg
    have hput := regionTotal_putRegion vm slot
      { vm.regions slot with data := { (vm.regions slot).data with bytes } }
    have hsame : ({ vm.regions slot with data := { (vm.regions slot).data with bytes } } :
        FluxVmRegion).activeSize = (vm.regions slot).activeSize := rfl
    rw [hsame] at hput
    exact (regionTotal_of_regions rfl).trans (Nat.add_right_cancel hput)
  | stackWord => rfl

theorem regionCreate_regionTotal : Ensures (fun _ => True)
    (fun r => vm.RegionsAfter (vm.createdSize host v1) (finish r)) (vm.execFlux host .REGION_CREATE i v1 v2) := by
  have hcreate := regionTotal_fluxVmRegionCreate vm host (some dyn) v1 false
  simp only [execFlux]
  refine setRd_ensures _ fun regs => ?_
  have htotal : ({ (vm.fluxVmRegionCreate host (some dyn) v1 false).2 with regs } : FluxVm).regionTotal =
      vm.regionTotal + vm.createdSize host v1 := (regionTotal_of_regions rfl).trans hcreate
  refine ⟨fun _ => ⟨rfl, ?_⟩, fun hzero => ?_⟩
  · rw [regionTotal_finish]
    exact htotal
  · rw [regionTotal_finish]
    exact Nat.le_of_eq (htotal.trans (by rw [hzero, Nat.add_zero]))

/-- No other FLUX operation makes the regions larger. -/
theorem execFlux_regionTotal (op : FluxOp) (hop : op ≠ .REGION_CREATE) :
    Ensures (fun _ => True) (fun r => r.2.regionTotal ≤ vm.regionTotal) (vm.execFlux host op i v1 v2) := by
  have hsame : vm.regionTotal ≤ vm.regionTotal := Nat.le_refl _
  cases op
  case TILE_LOAD | TILE_COMPOSE => exact setRd_ensures _ fun _ => hsame
  case REGION_CREATE => exact absurd rfl hop
  case REGION_DESTROY => exact (ensures_bind ..).2 ((regionTotal_fluxVmRegionDestroy _).imp fun r hr => hr)
  case REGION_MAP =>
    simp only [execFlux]
    split_ifs
    · exact setRd_ensures _ fun _ => hsame
    all_goals exact hsame
  case GAS_INIT => exact (fluxVmGetReg_ensures fun _ => trivial).bind fun _ _ => hsame
  case GAS_CHECK =>
    refine (fluxVmGetReg_ensures fun _ => trivial).bind fun _ _ => ?_
    split_ifs <;> exact hsame
  all_goals exact hsame

theorem execute_regionTotal : Ensures (fun _ => True) (fun r => vm.RegionsAfter
    (if opcodeOf i.opcode = .flux .REGION_CREATE then vm.createdSize host v1 else 0) (finish r))
    (vm.execute host i v1 v2) := by
  have kept {x : Exec} {op : Opcode} (hop : op ≠ .flux .REGION_CREATE)
      (hx : Ensures (fun _ => True) (fun r => KeepsRegions vm r.2) x) :
      Ensures (fun _ => True) (fun r => vm.RegionsAfter
        (if op = .flux .REGION_CREATE then vm.createdSize host v1 else 0) (finish r)) x := by
    rw [if_neg hop]
    refine hx.imp fun r hr => regionsAfter_of_le ?_
    rw [regionTotal_finish, regionTotal_of_regions hr.regions]
  unfold execute
  cases opcodeOf i.opcode with
  | system op => exact kept (by simp) ((execSystem_effect op).imp fun _ h => h.toKeepsRegions)
  | arith op => exact kept (by simp) ((execArith_effect op).imp fun _ h => h.toKeepsRegions)
  | logic op => exact kept (by simp) ((execLogic_effect op).imp fun _ h => h.toKeepsRegions)
  | compare op => exact kept (by simp) ((execCompare_effect op).imp fun _ h => h.toKeepsRegions)
  | branch op => exact kept (by simp) ((execBranch_effect op).imp fun _ h => h.toKeepsRegions)
  | memory op =>
    refine (execMemory_outcome op).imp fun r hr => regionsAfter_of_le ?_
    rw [regionTotal_finish, hr.regionTotal]
  | stack op => exact kept (by simp) ((execStack_effect op).imp fun _ h => h.toKeepsRegions)
  | call op => exact kept (by simp) ((execCall_effect op).imp fun _ h => h.toKeepsRegions)
  | agent op => exact kept (by simp) ((execAgent_effect op).imp fun _ h => h.toKeepsRegions)
  | io op => exact kept (by simp) ((execIo_effect op).imp fun _ h => h.toKeepsRegions)
  | flux op =>
    by_cases hop : op = .REGION_CREATE
    · subst hop
      rw [if_pos rfl]
      exact regionCreate_regionTotal
    · rw [if_neg (by simpa using hop)]
      refine (execFlux_regionTotal op hop).imp fun r hr => regionsAfter_of_le ?_
      rw [regionTotal_finish]
      exact hr
  | native op => exact kept (by simp) ((execNative_effect op).imp fun _ h => h.toKeepsRegions)
  | unknown => exact regionsAfter_of_le (Nat.le_refl _)

/-- A step adds the region that it creates to the total size, and otherwise makes it not larger. -/
theorem fluxVmStep_regionTotal (vm : FluxVm) (host : Host) :
    Ensures (fun _ => True) (vm.RegionsAfter (vm.nextCreated host)) (vm.fluxVmStep host) := by
  refine fluxVmStep_ensures (fun r hr => ?_) (fun _ _ _ => trivial) (fun _ _ _ _ _ => trivial)
    (fun _ => trivial) fun i vm₁ hnext hvm₁ => ?_
  · have hcreated : vm.nextCreated host = 0 := by
      rw [nextCreated, nextInsn, hr]
    rw [hcreated]
    refine regionsAfter_of_le ?_
    unfold stopped? at hr
    split_ifs at hr
    all_goals
      cases hr
      exact Nat.le_refl _
  · obtain ⟨trace, traceIdx, rfl⟩ := hvm₁.eq
    rw [nextCreated, hnext]
    exact execute_regionTotal

end FluxVm

end FluxOs
