import FluxOs.Lib.Actions
import FluxOs.Vm.MemoryEffects
import FluxOs.Vm.StepRules

/-!
# The region table and its registers

The functions of `region.c` that create, destroy, select and resize regions, in any order and between
the steps of a program.  `RegionsSound` is what they all keep: the active region exists, every region in
use has an allocated buffer of its size, and no two regions share one.  `Mirrored` says that `R58` and
`R59` are the base and the size of the active region.  `flux_vm_region_set_active` is the only function
that writes both registers; `KeepsMirror` says when the registers are right after a call nevertheless.
-/

namespace FluxOs

open Faulting Actions

/-- What `calloc` and `realloc` promise: a buffer that is returned is not null and no other buffer. -/
structure Host.Allocates (host : Host) : Prop where
  calloc : ∀ heap size addr, host.calloc heap size = some addr → addr ≠ 0 ∧ addr ∉ heap.live
  realloc : ∀ heap old size addr, host.realloc heap old size = some addr →
    addr ≠ 0 ∧ addr ∉ heap.live.erase old

/-- A call on the region table, a program being loaded, or a step of the interpreter. -/
inductive RegionAction
  | load (bytecode : Option (Nat → UInt8)) (len : UInt64)
  | execute
  | create (name : Option (List UInt8)) (size : UInt64) (readonly : Bool)
  | destroy (regionId : Int)
  | destroyAll
  | setActive (regionId : Int)
  | resize (regionId : Int) (newSize : UInt64)

/-- The VM after an action; a fault ends the run. -/
def RegionAction.step (host : Host) : RegionAction → FluxVm → Option FluxVm
  | .load bytecode len, vm => some (vm.fluxVmLoad bytecode len).2
  | .execute, vm => (vm.fluxVmStep host).toOption.map Prod.snd
  | .create name size readonly, vm => some (vm.fluxVmRegionCreate host name size readonly).2
  | .destroy regionId, vm => (vm.fluxVmRegionDestroy regionId).toOption.map Prod.snd
  | .destroyAll, vm => vm.fluxVmRegionDestroyAll.toOption.map Prod.snd
  | .setActive regionId, vm => some (vm.fluxVmRegionSetActive regionId).2
  | .resize regionId newSize, vm => some (vm.fluxVmRegionResize host regionId newSize).2

namespace FluxVm

/-- Every region in use has an allocated buffer of its size that no other region has, and a slot that is
not in use has none. -/
structure BuffersSound (vm : FluxVm) : Prop where
  len : ∀ s, (vm.regions s).active = true → (vm.regions s).data.len = (vm.regions s).size.toNat
  live : ∀ s, (vm.regions s).active = true →
    (vm.regions s).data.addr ≠ 0 ∧ (vm.regions s).data.addr ∈ vm.heap.live
  unused : ∀ s, (vm.regions s).active = false →
    (vm.regions s).data.addr = 0 ∧ (vm.regions s).data.len = 0
  distinct : ∀ s t, (vm.regions s).active = true → (vm.regions t).active = true →
    (vm.regions s).data.addr = (vm.regions t).data.addr → s = t

/-- The buffers are sound, and the active region is one that is in use, or -1 if there is none. -/
structure RegionsSound (vm : FluxVm) : Prop extends BuffersSound vm where
  active : vm.activeRegion = -1 ∨ ∃ s : Fin 16, vm.activeRegion = s.val ∧ (vm.regions s).active = true
  idle : vm.activeRegion = -1 → ∀ s, (vm.regions s).active = false

/-- `R58` and `R59` are the base and the size of the active region, if there is one. -/
def Mirrored (vm : FluxVm) : Prop :=
  ∀ s : Fin 16, vm.activeRegion = s.val → vm.regs fluxRegRegionBase = (vm.regions s).data.addr ∧
    vm.regs fluxRegRegionSize = (vm.regions s).size

/-- The invariant of the region table. -/
def RegionTableSound (vm : FluxVm) : Prop := vm.RegionsSound ∧ vm.Mirrored

/-- `R58` and `R59` are already what a region with this base and size needs. -/
def MirrorsAlready (vm : FluxVm) (base size : UInt64) : Prop :=
  vm.regs fluxRegRegionBase = base ∧ vm.regs fluxRegRegionSize = size

/-- The size of the region that `flux_vm_region_create` makes. -/
def createSize (size : UInt64) : UInt64 := if size = 0 then 256 else size

/-- The size that `flux_vm_region_resize` gives a region. -/
def resizeSize (newSize : UInt64) : UInt64 := if newSize = 0 then 1 else newSize

/-- The call that an instruction makes on the region table. -/
def regionCall (op : Opcode) (v1 : UInt64) : Option RegionAction :=
  match op with
  | .flux .REGION_CREATE => some (.create (some dyn) v1 false)
  | .flux .REGION_DESTROY => some (.destroy (v1 &&& 0xFF).toNat)
  | _ => none

/-- The registers are right after a call: a first region that is created, the region that becomes active
when the active one is destroyed, and the active region after a move of its buffer have the base and the
size that the registers already show. -/
def CallKeepsMirror (host : Host) (vm : FluxVm) : RegionAction → Prop
  | .create _ size _ => vm.activeRegion = -1 → ∀ addr,
      host.calloc vm.heap (createSize size) = some addr → vm.MirrorsAlready addr (createSize size)
  | .destroy regionId => vm.activeRegion = regionId → ∀ s,
      (List.finRange 16).find? (fun s => (vm.regions s).active ∧ (s.val : Int) ≠ regionId) = some s →
        vm.MirrorsAlready (vm.regions s).data.addr (vm.regions s).size
  | .resize regionId newSize => ∀ s : Fin 16, regionId = s.val → vm.activeRegion = regionId → ∀ addr,
      host.realloc vm.heap (vm.regions s).data.addr (resizeSize newSize) = some addr →
        addr = (vm.regions s).data.addr
  | _ => True

/-- The same for any action; a step makes the call of its instruction. -/
def KeepsMirror (host : Host) (action : RegionAction) (vm : FluxVm) : Prop :=
  match action with
  | .execute => ∀ i, vm.nextInsn = some i →
      ∀ call ∈ regionCall (opcodeOf i.opcode) (vm.regValue i.rs1), vm.CallKeepsMirror host call
  | action => vm.CallKeepsMirror host action

/-- A step leaves `R58` and `R59` as they are. -/
def SparesMirror (host : Host) (action : RegionAction) (vm : FluxVm) : Prop :=
  action = .execute → ∀ vm', RegionAction.step host action vm = some vm' →
    vm'.regs fluxRegRegionBase = vm.regs fluxRegRegionBase ∧
      vm'.regs fluxRegRegionSize = vm.regs fluxRegRegionSize

variable {vm vm' : FluxVm} {host : Host} {i : FluxVmInsn} {v1 v2 : UInt64}

/-- What a call that leads to `vm'` does for the invariant. -/
structure TableKept (host : Host) (call : RegionAction) (vm vm' : FluxVm) : Prop where
  sound : vm'.RegionsSound
  mirrored : vm.Mirrored → (vm'.Mirrored ↔ vm.CallKeepsMirror host call)

/-! ## Changes that leave the table alone -/

/-- The region table is the same but for the bytes in the regions. -/
structure SameTable (vm vm' : FluxVm) : Prop where
  activeRegion : vm'.activeRegion = vm.activeRegion
  live : vm'.heap.live = vm.heap.live
  regions : ∀ s, ∃ bytes, vm'.regions s =
    { vm.regions s with data := { (vm.regions s).data with bytes := bytes } }

theorem sameTable_of_keepsRegions (h : KeepsRegions vm vm') : SameTable vm vm' :=
  ⟨h.activeRegion, by rw [h.heap], fun s => ⟨(vm.regions s).data.bytes, by rw [h.regions]⟩⟩

theorem SameTable.trans {vm'' : FluxVm} (h : SameTable vm vm') (h' : SameTable vm' vm'') :
    SameTable vm vm'' := by
  refine ⟨h'.activeRegion.trans h.activeRegion, h'.live.trans h.live, fun s => ?_⟩
  obtain ⟨bytes, hs⟩ := h.regions s
  obtain ⟨bytes', hs'⟩ := h'.regions s
  exact ⟨bytes', by rw [hs', hs]⟩

theorem SameTable.region (h : SameTable vm vm') (s : Fin 16) :
    (vm'.regions s).active = (vm.regions s).active ∧ (vm'.regions s).size = (vm.regions s).size ∧
      (vm'.regions s).data.addr = (vm.regions s).data.addr ∧
      (vm'.regions s).data.len = (vm.regions s).data.len := by
  obtain ⟨bytes, hs⟩ := h.regions s
  rw [hs]
  exact ⟨rfl, rfl, rfl, rfl⟩

theorem SameTable.sound (h : SameTable vm vm') (hs : vm.RegionsSound) : vm'.RegionsSound where
  len s := by
    obtain ⟨hact, hsize, -, hlen⟩ := h.region s
    rw [hact, hsize, hlen]
    exact hs.len s
  live s := by
    obtain ⟨hact, -, haddr, -⟩ := h.region s
    rw [hact, haddr, h.live]
    exact hs.live s
  unused s := by
    obtain ⟨hact, -, haddr, hlen⟩ := h.region s
    rw [hact, haddr, hlen]
    exact hs.unused s
  distinct s t := by
    obtain ⟨hact, -, haddr, -⟩ := h.region s
    obtain ⟨hact', -, haddr', -⟩ := h.region t
    rw [hact, haddr, hact', haddr']
    exact hs.distinct s t
  active := by
    rw [h.activeRegion]
    refine hs.active.imp id ?_
    rintro ⟨s, hact, hs⟩
    exact ⟨s, hact, by rw [(h.region s).1, hs]⟩
  idle hnone s := by
    rw [(h.region s).1]
    exact hs.idle (h.activeRegion ▸ hnone) s

theorem SameTable.mirrored (h : SameTable vm vm')
    (hbase : vm'.regs fluxRegRegionBase = vm.regs fluxRegRegionBase)
    (hsize : vm'.regs fluxRegRegionSize = vm.regs fluxRegRegionSize) :
    vm'.Mirrored ↔ vm.Mirrored := by
  unfold Mirrored
  rw [h.activeRegion, hbase, hsize]
  refine forall_congr' fun s => ?_
  rw [(h.region s).2.1, (h.region s).2.2.1]

/-! ## Changing one region -/

/-- A region in use as it may be put in a slot: its buffer is one that no other region has. -/
structure Fits (vm : FluxVm) (slot : Fin 16) (reg : FluxVmRegion) (heap : HostHeap) : Prop where
  len : reg.data.len = reg.size.toNat
  live : reg.data.addr ≠ 0 ∧ reg.data.addr ∈ heap.live
  fresh : ∀ s, s ≠ slot → (vm.regions s).active = true → (vm.regions s).data.addr ≠ reg.data.addr

theorem BuffersSound.put (hs : vm.BuffersSound) {slot : Fin 16} {reg : FluxVmRegion}
    {heap : HostHeap} (hlive : ∀ s, s ≠ slot → (vm.regions s).active = true →
      (vm.regions s).data.addr ∈ heap.live)
    (hfits : reg.active = true → vm.Fits slot reg heap)
    (hunused : reg.active = false → reg.data.addr = 0 ∧ reg.data.len = 0) :
    ({ vm.putRegion slot reg with heap } : FluxVm).BuffersSound := by
  have other {s : Fin 16} (hne : s ≠ slot) :
      ({ vm.putRegion slot reg with heap } : FluxVm).regions s = vm.regions s :=
    vm.putRegion_of_ne hne reg
  have self : ({ vm.putRegion slot reg with heap } : FluxVm).regions slot = reg :=
    vm.putRegion_self slot reg
  constructor
  · intro s hact
    by_cases hne : s = slot
    · subst hne
      rw [self] at hact ⊢
      exact (hfits hact).len
    · rw [other hne] at hact ⊢
      exact hs.len s hact
  · intro s hact
    by_cases hne : s = slot
    · subst hne
      rw [self] at hact ⊢
      exact (hfits hact).live
    · rw [other hne] at hact ⊢
      exact ⟨(hs.live s hact).1, hlive s hne hact⟩
  · intro s hact
    by_cases hne : s = slot
    · subst hne
      rw [self] at hact ⊢
      exact hunused hact
    · rw [other hne] at hact ⊢
      exact hs.unused s hact
  · intro s t hact hact' haddr
    by_cases hne : s = slot
    · by_cases hne' : t = slot
      · rw [hne, hne']
      · subst hne
        rw [self] at hact haddr
        rw [other hne'] at hact' haddr
        exact absurd haddr.symm ((hfits hact).fresh t hne' hact')
    · by_cases hne' : t = slot
      · subst hne'
        rw [self] at hact' haddr
        rw [other hne] at hact haddr
        exact absurd haddr ((hfits hact').fresh s hne hact)
      · rw [other hne] at hact haddr
        rw [other hne'] at hact' haddr
        exact hs.distinct s t hact hact' haddr

theorem mirrored_of_none (h : vm.activeRegion = -1) : vm.Mirrored := by
  intro s hact
  omega

/-- The registers for an active region are those of its slot. -/
theorem mirrored_iff_of_active {s : Fin 16} (h : vm.activeRegion = s.val) :
    vm.Mirrored ↔ vm.MirrorsAlready (vm.regions s).data.addr (vm.regions s).size := by
  refine ⟨fun hm => hm s h, fun hm t ht => ?_⟩
  have hst : s = t := by
    apply Fin.ext
    omega
  exact hst ▸ hm

/-! ## Creation -/

/-- A region was created in the free slot `rid`, with its buffer at `addr`. -/
structure Created (vm : FluxVm) (host : Host) (size : UInt64) (rid : Fin 16) (addr : UInt64)
    (vm' : FluxVm) : Prop where
  free : (vm.regions rid).active = false
  calloc : host.calloc vm.heap (createSize size) = some addr
  eq : ∃ reg calls, vm' = { vm.putRegion rid reg with
      heap := ⟨calls, addr :: vm.heap.live⟩
      activeRegion := if vm.activeRegion < 0 then rid.val else vm.activeRegion } ∧
    reg.active = true ∧ reg.size = createSize size ∧ reg.data.addr = addr ∧
    reg.data.len = (createSize size).toNat

/-- A call that cannot create a region only asks the host, if there is a free slot. -/
theorem fluxVmRegionCreate_cases (vm : FluxVm) (host : Host) (name : Option (List UInt8))
    (size : UInt64) (readonly : Bool) :
    (((∀ s, (vm.regions s).active = true) ∨ host.calloc vm.heap (createSize size) = none) ∧
      ∃ calls, (vm.fluxVmRegionCreate host name size readonly).2 =
        { vm with heap := { vm.heap with calls } }) ∨
    ∃ rid addr, Created vm host size rid addr (vm.fluxVmRegionCreate host name size readonly).2 := by
  simp only [fluxVmRegionCreate, HostHeap.calloc]
  cases hfree : vm.findFreeRegion with
  | none =>
    refine .inl ⟨.inl fun s => ?_, vm.heap.calls, rfl⟩
    simpa using List.find?_eq_none.1 hfree s (List.mem_finRange s)
  | some rid =>
    rw [show (if size = 0 then 256 else size) = createSize size from rfl]
    cases hmem : host.calloc vm.heap (createSize size) with
    | none => exact .inl ⟨.inr rfl, _, rfl⟩
    | some addr =>
      let reg : FluxVmRegion := { FluxVmRegion.zero with
        data := ⟨addr, (createSize size).toNat, fun _ => 0⟩
        size := createSize size, active := true, readonly, owner := vm.ownerPid
        name := (name.getD unnamed).take 31 }
      refine .inr ⟨rid, addr, vm.findFreeRegion_inactive hfree, hmem, reg, vm.heap.calls + 1, ?_, rfl,
        rfl, rfl, rfl⟩
      by_cases hneg : vm.activeRegion < 0
      · simp only [putRegion, hneg, if_true, reg]
      · simp only [putRegion, hneg, if_false, reg]

theorem Created.sound {size : UInt64} {rid : Fin 16} {addr : UInt64}
    (h : Created vm host size rid addr vm') (hhost : host.Allocates) (hs : vm.RegionsSound) :
    vm'.RegionsSound := by
  obtain ⟨reg, calls, rfl, hact, hsize, haddr, hlen⟩ := h.eq
  obtain ⟨hnull, hfresh⟩ := hhost.calloc _ _ _ h.calloc
  have hput : ({ vm.putRegion rid reg with heap := ⟨calls, addr :: vm.heap.live⟩ } : FluxVm).BuffersSound := by
    refine hs.toBuffersSound.put (fun s _ hs' => ?_) (fun _ => ⟨by rw [hlen, hsize], ?_, ?_⟩) ?_
    · exact List.mem_cons_of_mem _ (hs.live s hs').2
    · rw [haddr]
      exact ⟨hnull, List.mem_cons_self⟩
    · intro s _ hs' heq
      exact hfresh (haddr ▸ heq ▸ (hs.live s hs').2)
    · intro hfalse
      rw [hact] at hfalse
      cases hfalse
  refine ⟨⟨hput.len, hput.live, hput.unused, hput.distinct⟩, .inr ?_, fun hnone => ?_⟩
  · rcases hs.active with hnone | ⟨s, hs', hact'⟩
    · refine ⟨rid, if_pos (by omega), ?_⟩
      exact (congrArg FluxVmRegion.active (vm.putRegion_self rid reg)).trans hact
    · have hne : s ≠ rid := fun heq => by
        rw [heq, h.free] at hact'
        cases hact'
      refine ⟨s, (if_neg (by omega)).trans hs', ?_⟩
      exact (congrArg FluxVmRegion.active (vm.putRegion_of_ne hne reg)).trans hact'
  · simp only at hnone
    split_ifs at hnone
    omega

theorem Created.mirrored_iff {size : UInt64} {rid : Fin 16} {addr : UInt64}
    (h : Created vm host size rid addr vm') (hs : vm.RegionsSound) (hm : vm.Mirrored) :
    vm'.Mirrored ↔ (vm.activeRegion = -1 → vm.MirrorsAlready addr (createSize size)) := by
  obtain ⟨reg, calls, rfl, hact, hsize, haddr, -⟩ := h.eq
  rcases hs.active with hnone | ⟨s, hs', hact'⟩
  · rw [mirrored_iff_of_active (s := rid) (if_pos (by omega))]
    simp only [putRegion_self, haddr, hsize, hnone, true_imp_iff]
    exact Iff.rfl
  · have hne : s ≠ rid := fun heq => by
      rw [heq, h.free] at hact'
      cases hact'
    have hreg := vm.putRegion_of_ne hne reg
    rw [mirrored_iff_of_active (s := s) ((if_neg (by omega)).trans hs')]
    simp only [hreg]
    exact iff_of_true (hm s hs') fun hnone => by omega

theorem fluxVmRegionCreate_keeps (hhost : host.Allocates) (hs : vm.RegionsSound)
    (name : Option (List UInt8)) (size : UInt64) (readonly : Bool) :
    TableKept host (.create name size readonly) vm
      (vm.fluxVmRegionCreate host name size readonly).2 := by
  obtain ⟨hfail, calls, heq⟩ | ⟨rid, addr, hcreated⟩ :=
    fluxVmRegionCreate_cases vm host name size readonly
  · have hsame : SameTable vm { vm with heap := { vm.heap with calls } } :=
      ⟨rfl, rfl, fun s => ⟨(vm.regions s).data.bytes, rfl⟩⟩
    rw [heq]
    refine ⟨hsame.sound hs, fun hm => iff_of_true ((hsame.mirrored rfl rfl).2 hm) ?_⟩
    intro hnone addr haddr
    rcases hfail with hfull | hmem
    · have h0 := hs.idle hnone 0
      rw [hfull 0] at h0
      cases h0
    · rw [hmem] at haddr
      cases haddr
  · refine ⟨hcreated.sound hhost hs, fun hm => ?_⟩
    rw [hcreated.mirrored_iff hs hm]
    refine forall_congr' fun _ => ⟨fun h a ha => ?_, fun h => h addr hcreated.calloc⟩
    rw [hcreated.calloc] at ha
    exact Option.some.inj ha ▸ h

/-! ## Destruction -/

theorem free_of_live {heap : HostHeap} {addr : UInt64} (hnull : addr ≠ 0) (hlive : addr ∈ heap.live) :
    heap.freeUnlessNull addr = .ok { heap with live := heap.live.erase addr } := by
  rw [HostHeap.freeUnlessNull, if_pos hnull, HostHeap.free, if_pos hlive]

/-- The region of a slot was given up, and nothing else changed. -/
structure Cleared (vm : FluxVm) (slot : Fin 16) (vm' : FluxVm) : Prop where
  buffers : vm'.BuffersSound
  regs : vm'.regs = vm.regs
  activeRegion : vm'.activeRegion = vm.activeRegion
  used : ∀ s, (vm'.regions s).active = true ↔ (vm.regions s).active = true ∧ s ≠ slot
  other : ∀ s, s ≠ slot → vm'.regions s = vm.regions s

theorem BuffersSound.cleared (hs : vm.BuffersSound) {slot : Fin 16}
    (hact : (vm.regions slot).active = true) (reg : FluxVmRegion) (hreg : reg.active = false)
    (hdata : reg.data = .null) : Cleared vm slot { vm.putRegion slot reg with
      heap := { vm.heap with live := vm.heap.live.erase (vm.regions slot).data.addr } } where
  buffers := by
    refine hs.put (fun s hne hs' => ?_) (fun htrue => ?_) fun _ => ?_
    · refine (List.mem_erase_of_ne fun heq => hne ?_).2 (hs.live s hs').2
      exact hs.distinct s slot hs' hact heq
    · rw [hreg] at htrue
      cases htrue
    · rw [hdata]
      exact ⟨rfl, rfl⟩
  regs := rfl
  activeRegion := rfl
  used s := by
    by_cases hne : s = slot
    · subst hne
      refine iff_of_false ?_ fun h => h.2 rfl
      simp [hreg]
    · simp [putRegion_of_ne vm hne, hne]
  other s hne := vm.putRegion_of_ne hne reg

/-- Destroying a region gives its buffer back and never faults. -/
theorem fluxVmRegionDestroy_eq (hs : vm.BuffersSound) {slot : Fin 16}
    (hact : (vm.regions slot).active = true) : ∃ vm', Cleared vm slot vm' ∧
      vm.fluxVmRegionDestroy slot.val = .ok (.ok,
        if vm.activeRegion = slot.val then { vm' with activeRegion := vm'.firstActiveRegion }
        else vm') := by
  obtain ⟨hnull, hlive⟩ := hs.live slot hact
  refine ⟨_, hs.cleared hact { vm.regions slot with
    data := .null, active := false, size := 0, base := 0, name := [] } rfl rfl, ?_⟩
  unfold fluxVmRegionDestroy
  rw [(vm.validateRegionId_eq_some).2 ⟨rfl, hact⟩]
  simp only [free_of_live hnull hlive]
  rfl

/-- The slot that is chosen when the active region is destroyed. -/
theorem firstActiveRegion_cases (vm : FluxVm) :
    (vm.firstActiveRegion = -1 ∧ ∀ s, (vm.regions s).active = false) ∨
      ∃ s : Fin 16, (List.finRange 16).find? (fun s => (vm.regions s).active) = some s ∧
        vm.firstActiveRegion = s.val ∧ (vm.regions s).active = true := by
  unfold firstActiveRegion
  split
  · rename_i s hs
    exact .inr ⟨s, hs, rfl, by simpa using List.find?_some hs⟩
  · rename_i hnone
    refine .inl ⟨rfl, fun s => ?_⟩
    simpa using List.find?_eq_none.1 hnone s (List.mem_finRange s)

variable {slot : Fin 16}

/-- Another region was active. -/
theorem Cleared.of_ne (h : Cleared vm slot vm') (hs : vm.RegionsSound)
    (hne : vm.activeRegion ≠ slot.val) : vm'.RegionsSound ∧ (vm.Mirrored → vm'.Mirrored) := by
  refine ⟨⟨h.buffers, ?_, fun hnone s => ?_⟩, fun hm s hs' => ?_⟩
  · rw [h.activeRegion]
    refine hs.active.imp id ?_
    rintro ⟨s, hs', hact⟩
    exact ⟨s, hs', (h.used s).2 ⟨hact, fun heq => hne (heq ▸ hs')⟩⟩
  · have hinactive := hs.idle (h.activeRegion ▸ hnone) s
    refine Bool.eq_false_iff.2 fun hact => ?_
    rw [((h.used s).1 hact).1] at hinactive
    cases hinactive
  · rw [h.activeRegion] at hs'
    rw [h.regs, h.other s fun heq => hne (heq ▸ hs')]
    exact hm s hs'

variable (host) in
/-- The active region was destroyed. -/
theorem Cleared.of_active (h : Cleared vm slot vm') (hcur : vm.activeRegion = slot.val) :
    ({ vm' with activeRegion := vm'.firstActiveRegion } : FluxVm).RegionsSound ∧
      (({ vm' with activeRegion := vm'.firstActiveRegion } : FluxVm).Mirrored ↔
        vm.CallKeepsMirror host (.destroy slot.val)) := by
  have hfind : (List.finRange 16).find? (fun s => (vm'.regions s).active) =
      (List.finRange 16).find? fun s => (vm.regions s).active ∧ (s.val : Int) ≠ (slot.val : Int) := by
    refine congrArg (List.find? · _) (funext fun s => ?_)
    rw [Bool.eq_iff_iff, decide_eq_true_iff, h.used s]
    simp only [ne_eq, Fin.ext_iff, Int.natCast_inj]
  have hbuf := h.buffers
  rcases firstActiveRegion_cases vm' with ⟨hfirst, hnone⟩ | ⟨t, ht, hfirst, htact⟩
  · rw [hfirst]
    refine ⟨⟨⟨hbuf.len, hbuf.live, hbuf.unused, hbuf.distinct⟩, .inl rfl, fun _ => hnone⟩,
      iff_of_true (mirrored_of_none rfl) fun _ s hs' => ?_⟩
    rw [← hfind] at hs'
    have hact := List.find?_some hs'
    rw [hnone s] at hact
    cases hact
  · rw [hfirst]
    refine ⟨⟨⟨hbuf.len, hbuf.live, hbuf.unused, hbuf.distinct⟩, .inr ⟨t, rfl, htact⟩,
      fun hneg => ?_⟩, ?_⟩
    · simp only at hneg
      omega
    · have hne : t ≠ slot := ((h.used t).1 htact).2
      rw [mirrored_iff_of_active (s := t) rfl]
      simp only [CallKeepsMirror, ← hfind, ht, hcur, true_imp_iff, Option.some.injEq, forall_eq',
        MirrorsAlready, h.regs, h.other t hne]

theorem RegionsSound.not_active_of_invalid (hs : vm.RegionsSound) {regionId : Int}
    (hslot : vm.validateRegionId regionId = none) (hcur : vm.activeRegion = regionId) (s : Fin 16) :
    (vm.regions s).active = false := by
  rcases hs.active with hnone | ⟨t, ht, hact⟩
  · exact hs.idle hnone s
  · rw [(vm.validateRegionId_eq_some).2 ⟨hcur.symm.trans ht, hact⟩] at hslot
    cases hslot

theorem fluxVmRegionDestroy_keeps (host : Host) (hs : vm.RegionsSound) (regionId : Int) :
    ∃ rc vm', vm.fluxVmRegionDestroy regionId = .ok (rc, vm') ∧
      TableKept host (.destroy regionId) vm vm' := by
  cases hslot : vm.validateRegionId regionId with
  | none =>
    refine ⟨.errNotfound, vm, ?_, hs, fun hm => iff_of_true hm fun hcur s hs' => ?_⟩
    · unfold fluxVmRegionDestroy
      rw [hslot]
    · have hact := List.find?_some hs'
      simp only [hs.not_active_of_invalid hslot hcur s] at hact
      cases of_decide_eq_true hact |>.1
  | some slot =>
    obtain ⟨rfl, hact⟩ := (vm.validateRegionId_eq_some).1 hslot
    obtain ⟨vm', hcleared, heq⟩ := fluxVmRegionDestroy_eq hs.toBuffersSound hact
    refine ⟨_, _, heq, ?_⟩
    split_ifs with hcur
    · obtain ⟨hsound, hmirrored⟩ := hcleared.of_active host hcur
      exact ⟨hsound, fun _ => hmirrored⟩
    · obtain ⟨hsound, hmirrored⟩ := hcleared.of_ne hs hcur
      exact ⟨hsound, fun hm => iff_of_true (hmirrored hm) fun h => absurd h hcur⟩

/-! ## Destroying all regions -/

theorem destroySlots_eq (slots : List (Fin 16)) (hs : vm.BuffersSound) :
    ∃ vm', destroySlots slots vm = .ok vm' ∧ vm'.BuffersSound ∧
      ∀ s, (vm'.regions s).active = true → (vm.regions s).active = true ∧ s ∉ slots := by
  induction slots generalizing vm with
  | nil => exact ⟨vm, rfl, hs, fun s hact => ⟨hact, List.not_mem_nil⟩⟩
  | cons slot slots ih =>
    by_cases hact : (vm.regions slot).active = true
    · obtain ⟨hnull, hlive⟩ := hs.live slot hact
      have hcleared := hs.cleared hact { vm.regions slot with
        data := .null, active := false, size := 0, name := [] } rfl rfl
      obtain ⟨vm', heq, hsound, hused⟩ := ih hcleared.buffers
      refine ⟨vm', ?_, hsound, fun s hs' => ?_⟩
      · simp only [destroySlots, hact, if_true, free_of_live hnull hlive]
        exact heq
      · obtain ⟨hs'', hmem⟩ := hused s hs'
        obtain ⟨hact', hne⟩ := (hcleared.used s).1 hs''
        exact ⟨hact', fun h => (List.mem_cons.1 h).elim hne hmem⟩
    · obtain ⟨vm', heq, hsound, hused⟩ := ih hs
      refine ⟨vm', ?_, hsound, fun s hs' => ⟨(hused s hs').1, fun hmem => ?_⟩⟩
      · simp only [destroySlots, hact]
        exact heq
      · rcases List.mem_cons.1 hmem with rfl | hmem
        · exact hact (hused s hs').1
        · exact (hused s hs').2 hmem

theorem fluxVmRegionDestroyAll_sound (hs : vm.BuffersSound) :
    ∃ rc vm', vm.fluxVmRegionDestroyAll = .ok (rc, vm') ∧ vm'.RegionsSound ∧ vm'.Mirrored := by
  obtain ⟨vm', heq, hsound, hused⟩ := destroySlots_eq (List.finRange 16) hs
  refine ⟨.ok, { vm' with activeRegion := -1 }, ?_, ?_, mirrored_of_none rfl⟩
  · rw [fluxVmRegionDestroyAll, heq]
    rfl
  · refine ⟨⟨hsound.len, hsound.live, hsound.unused, hsound.distinct⟩, .inl rfl, fun _ s => ?_⟩
    exact Bool.eq_false_iff.2 fun hact => (hused s hact).2 (List.mem_finRange s)

/-! ## Selection and resizing -/

theorem fluxVmRegionSetActive_keeps (hs : vm.RegionsSound) (regionId : Int) :
    TableKept host (.setActive regionId) vm (vm.fluxVmRegionSetActive regionId).2 := by
  unfold fluxVmRegionSetActive
  cases hslot : vm.validateRegionId regionId with
  | none => exact ⟨hs, fun hm => iff_of_true hm trivial⟩
  | some slot =>
    obtain ⟨rfl, hact⟩ := (vm.validateRegionId_eq_some).1 hslot
    refine ⟨⟨⟨hs.len, hs.live, hs.unused, hs.distinct⟩, .inr ⟨slot, rfl, hact⟩, fun hneg => ?_⟩,
      fun _ => iff_of_true ?_ trivial⟩
    · have hneg : (slot.val : Int) = -1 := hneg
      omega
    · refine (mirrored_iff_of_active (s := slot) rfl).2 ⟨?_, putReg_self ..⟩
      exact (putReg_of_ne _ (by decide) _).trans (putReg_self ..)

/-- A region was resized and its buffer is now at `addr`. -/
structure Resized (vm : FluxVm) (host : Host) (slot : Fin 16) (newSize addr : UInt64) (vm' : FluxVm) :
    Prop where
  realloc : host.realloc vm.heap (vm.regions slot).data.addr newSize = some addr
  eq : ∃ reg heap regs, vm' = { vm.putRegion slot reg with heap, regs } ∧
    heap.live = addr :: vm.heap.live.erase (vm.regions slot).data.addr ∧
    reg.active = (vm.regions slot).active ∧ reg.size = newSize ∧ reg.data.addr = addr ∧
    reg.data.len = newSize.toNat ∧ regs fluxRegRegionBase = vm.regs fluxRegRegionBase ∧
    regs fluxRegRegionSize =
      if vm.activeRegion = slot.val then newSize else vm.regs fluxRegRegionSize

theorem fluxVmRegionResize_cases (vm : FluxVm) (host : Host) (regionId : Int) (newSize : UInt64) :
    ((∃ calls, (vm.fluxVmRegionResize host regionId newSize).2 =
        { vm with heap := { vm.heap with calls } }) ∧
      ∀ s : Fin 16, regionId = s.val → (vm.regions s).active = true →
        host.realloc vm.heap (vm.regions s).data.addr (resizeSize newSize) = none) ∨
    ∃ slot addr, regionId = slot.val ∧ (vm.regions slot).active = true ∧
      Resized vm host slot (resizeSize newSize) addr (vm.fluxVmRegionResize host regionId newSize).2 := by
  unfold fluxVmRegionResize
  cases hslot : vm.validateRegionId regionId with
  | none =>
    refine .inl ⟨⟨vm.heap.calls, rfl⟩, fun s hs hact => ?_⟩
    rw [(vm.validateRegionId_eq_some).2 ⟨hs, hact⟩] at hslot
    cases hslot
  | some slot =>
    obtain ⟨rfl, hact⟩ := (vm.validateRegionId_eq_some).1 hslot
    simp only [HostHeap.realloc]
    rw [show (if newSize = 0 then 1 else newSize) = resizeSize newSize from rfl]
    cases hmem : host.realloc vm.heap (vm.regions slot).data.addr (resizeSize newSize) with
    | none =>
      refine .inl ⟨⟨vm.heap.calls + 1, rfl⟩, fun s hs _ => ?_⟩
      have hss : slot = s := by
        apply Fin.ext
        omega
      exact hss ▸ hmem
    | some addr =>
      refine .inr ⟨slot, addr, rfl, hact, hmem, ?_⟩
      simp only
      generalize hdata : (if resizeSize newSize > (vm.regions slot).size then _ else _) = data
      have hbuf : data.addr = addr ∧ data.len = (resizeSize newSize).toNat := by
        rw [← hdata]
        split_ifs
        · exact ⟨rfl, rfl⟩
        · exact ⟨rfl, rfl⟩
      by_cases hcur : vm.activeRegion = slot.val
      · refine ⟨{ vm.regions slot with data, size := resizeSize newSize }, _,
          Function.update vm.regs fluxRegRegionSize (resizeSize newSize), if_pos hcur, rfl, rfl, rfl,
          hbuf.1, hbuf.2, ?_, ?_⟩
        · exact Function.update_of_ne (by decide) ..
        · rw [if_pos hcur]
          exact Function.update_self ..
      · refine ⟨{ vm.regions slot with data, size := resizeSize newSize }, _, vm.regs, if_neg hcur, rfl,
          rfl, rfl, hbuf.1, hbuf.2, rfl, ?_⟩
        rw [if_neg hcur]

theorem Resized.sound {newSize addr : UInt64} (h : Resized vm host slot newSize addr vm')
    (hhost : host.Allocates) (hs : vm.RegionsSound) (hact : (vm.regions slot).active = true) :
    vm'.RegionsSound := by
  obtain ⟨reg, heap, regs, rfl, hlive, hact', hsize, haddr, hlen, -, -⟩ := h.eq
  obtain ⟨hnull, hfresh⟩ := hhost.realloc _ _ _ _ h.realloc
  have hkept (s : Fin 16) (hne : s ≠ slot) (hs' : (vm.regions s).active = true) :
      (vm.regions s).data.addr ∈ vm.heap.live.erase (vm.regions slot).data.addr :=
    (List.mem_erase_of_ne fun heq => hne (hs.distinct s slot hs' hact heq)).2 (hs.live s hs').2
  have hput : ({ vm.putRegion slot reg with heap } : FluxVm).BuffersSound := by
    refine hs.toBuffersSound.put (fun s hne hs' => ?_) (fun _ => ⟨by rw [hlen, hsize], ?_, ?_⟩) ?_
    · rw [hlive]
      exact List.mem_cons_of_mem _ (hkept s hne hs')
    · rw [haddr, hlive]
      exact ⟨hnull, List.mem_cons_self⟩
    · intro s hne hs' heq
      exact hfresh (haddr ▸ heq ▸ hkept s hne hs')
    · intro hfalse
      rw [hact', hact] at hfalse
      cases hfalse
  have hused (s : Fin 16) : ((vm.putRegion slot reg).regions s).active = (vm.regions s).active := by
    by_cases hne : s = slot
    · rw [hne, putRegion_self, hact']
    · rw [putRegion_of_ne vm hne]
  refine ⟨⟨hput.len, hput.live, hput.unused, hput.distinct⟩, ?_, fun hnone s => ?_⟩
  · refine hs.active.imp id ?_
    rintro ⟨s, hs', hact''⟩
    exact ⟨s, hs', (hused s).trans hact''⟩
  · exact (hused s).trans (hs.idle hnone s)

theorem Resized.mirrored_iff {newSize addr : UInt64} (h : Resized vm host slot newSize addr vm')
    (hm : vm.Mirrored) :
    vm'.Mirrored ↔ (vm.activeRegion = slot.val → addr = (vm.regions slot).data.addr) := by
  obtain ⟨reg, heap, regs, rfl, hlive, hact', hsize, haddr, hlen, hbase, hregs⟩ := h.eq
  by_cases hcur : vm.activeRegion = slot.val
  · rw [if_pos hcur] at hregs
    refine (mirrored_iff_of_active (s := slot) ?_).trans ?_
    · exact hcur
    · simp only [MirrorsAlready, putRegion_self, hbase, hregs, haddr, hsize, and_true, hcur,
        true_imp_iff, (hm slot hcur).1]
      exact eq_comm
  · rw [if_neg hcur] at hregs
    refine iff_of_true (fun s hs' => ?_) fun h => absurd h hcur
    have hne : s ≠ slot := fun heq => hcur (heq ▸ hs')
    simp only [putRegion_of_ne vm hne, hbase, hregs]
    exact hm s hs'

theorem fluxVmRegionResize_keeps (hhost : host.Allocates) (hs : vm.RegionsSound) (regionId : Int)
    (newSize : UInt64) :
    TableKept host (.resize regionId newSize) vm (vm.fluxVmRegionResize host regionId newSize).2 := by
  obtain ⟨⟨calls, heq⟩, hfail⟩ | ⟨slot, addr, rfl, hact, hresized⟩ :=
    fluxVmRegionResize_cases vm host regionId newSize
  · have hsame : SameTable vm { vm with heap := { vm.heap with calls } } :=
      ⟨rfl, rfl, fun s => ⟨(vm.regions s).data.bytes, rfl⟩⟩
    rw [heq]
    refine ⟨hsame.sound hs, fun hm => iff_of_true ((hsame.mirrored rfl rfl).2 hm) ?_⟩
    intro s hs' hcur addr haddr
    rcases hs.active with hnone | ⟨t, ht, hact⟩
    · omega
    · have hst : s = t := by
        apply Fin.ext
        omega
      rw [hfail s hs' (hst ▸ hact)] at haddr
      cases haddr
  · refine ⟨hresized.sound hhost hs hact, fun hm => ?_⟩
    rw [hresized.mirrored_iff hm]
    constructor
    · intro h s hs' hcur a ha
      have hss : slot = s := by
        apply Fin.ext
        omega
      subst hss
      rw [hresized.realloc] at ha
      exact Option.some.inj ha ▸ h hcur
    · exact fun h hcur => h slot rfl hcur addr hresized.realloc

/-! ## The interpreter -/

/-- The FLUX operations that make no call keep the regions. -/
theorem execFlux_keepsRegions (op : FluxOp) (hcreate : op ≠ .REGION_CREATE)
    (hdestroy : op ≠ .REGION_DESTROY) :
    Ensures (fun _ => True) (fun r => KeepsRegions vm r.2) (vm.execFlux host op i v1 v2) := by
  cases op
  case TILE_LOAD | TILE_COMPOSE => exact setRd_ensures _ fun _ => ⟨rfl, rfl, rfl⟩
  case REGION_CREATE => exact absurd rfl hcreate
  case REGION_DESTROY => exact absurd rfl hdestroy
  case REGION_MAP =>
    simp only [execFlux]
    split_ifs
    · exact setRd_ensures _ fun _ => ⟨rfl, rfl, rfl⟩
    all_goals exact ⟨rfl, rfl, rfl⟩
  case GAS_INIT => exact (fluxVmGetReg_ensures fun _ => trivial).bind fun _ _ => ⟨rfl, rfl, rfl⟩
  case GAS_CHECK =>
    refine (fluxVmGetReg_ensures fun _ => trivial).bind fun _ _ => ?_
    split_ifs <;> exact ⟨rfl, rfl, rfl⟩
  all_goals exact ⟨rfl, rfl, rfl⟩

theorem MemoryOutcome.sameTable {op : MemoryOp} (h : MemoryOutcome vm op v1 vm') : SameTable vm vm' := by
  cases h with
  | regs => exact ⟨rfl, rfl, fun s => ⟨_, rfl⟩⟩
  | region slot reg regs _ hreg =>
    obtain ⟨bytes, rfl, -⟩ := hreg
    refine ⟨rfl, rfl, fun s => ?_⟩
    by_cases hne : s = slot
    · subst hne
      exact ⟨bytes, vm.putRegion_self s _⟩
    · exact ⟨(vm.regions s).data.bytes, vm.putRegion_of_ne hne _⟩
  | stackWord => exact ⟨rfl, rfl, fun s => ⟨_, rfl⟩⟩

/-- What an instruction does to the region table: the call that it makes, if it makes one. -/
def TableAfter (vm : FluxVm) (host : Host) (call : Option RegionAction) (vm' : FluxVm) : Prop :=
  call.elim (SameTable vm vm') fun call => ∃ vm₁, call.step host vm = some vm₁ ∧
    vm₁.regs = vm.regs ∧ SameTable vm₁ vm'

theorem TableAfter.trans {vm'' : FluxVm} {call : Option RegionAction} (h : vm.TableAfter host call vm')
    (h' : SameTable vm' vm'') : vm.TableAfter host call vm'' := by
  cases call with
  | none => exact SameTable.trans h h'
  | some call =>
    obtain ⟨vm₁, hcall, hregs, hsame⟩ := h
    exact ⟨vm₁, hcall, hregs, hsame.trans h'⟩

theorem execute_table (vm : FluxVm) (host : Host) (i : FluxVmInsn) (v1 v2 : UInt64) :
    Ensures (fun _ => True) (fun r => vm.TableAfter host (regionCall (opcodeOf i.opcode) v1) r.2)
      (vm.execute host i v1 v2) := by
  have kept {x : Exec} (hx : Ensures (fun _ => True) (fun r => KeepsRegions vm r.2) x) :
      Ensures (fun _ => True) (fun r => vm.TableAfter host none r.2) x :=
    hx.imp fun _ h => sameTable_of_keepsRegions h
  unfold execute
  cases opcodeOf i.opcode with
  | system op => exact kept ((execSystem_effect op).imp fun _ h => h.toKeepsRegions)
  | arith op => exact kept ((execArith_effect op).imp fun _ h => h.toKeepsRegions)
  | logic op => exact kept ((execLogic_effect op).imp fun _ h => h.toKeepsRegions)
  | compare op => exact kept ((execCompare_effect op).imp fun _ h => h.toKeepsRegions)
  | branch op => exact kept ((execBranch_effect op).imp fun _ h => h.toKeepsRegions)
  | memory op => exact (execMemory_outcome op).imp fun _ h => h.sameTable
  | stack op => exact kept ((execStack_effect op).imp fun _ h => h.toKeepsRegions)
  | call op => exact kept ((execCall_effect op).imp fun _ h => h.toKeepsRegions)
  | agent op => exact kept ((execAgent_effect op).imp fun _ h => h.toKeepsRegions)
  | io op => exact kept ((execIo_effect op).imp fun _ h => h.toKeepsRegions)
  | flux op =>
    by_cases hcreate : op = .REGION_CREATE
    · subst hcreate
      obtain ⟨regions, activeRegion, heap, h⟩ := fluxVmRegionCreate_update vm host (some dyn) v1 false
      simp only [execFlux]
      refine setRd_ensures _ fun regs => ⟨_, rfl, ?_, rfl, rfl, fun s => ⟨_, rfl⟩⟩
      rw [h]
    · by_cases hdestroy : op = .REGION_DESTROY
      · subst hdestroy
        refine ensures_of_forall (fun r hr => ?_) fun _ _ => trivial
        obtain ⟨⟨rc, vm'⟩, hcall, heq⟩ := bind_eq_ok.1 hr
        cases heq
        have hregs : vm'.regs = vm.regs := (fluxVmRegionDestroy_ensures (Q := fun r => r.2.regs = vm.regs)
          fun _ _ _ _ => rfl).of_ok hcall
        refine ⟨vm', ?_, hregs, rfl, rfl, fun s => ⟨_, rfl⟩⟩
        simp only [RegionAction.step, hcall]
        rfl
      · have hnone : regionCall (.flux op) v1 = none := by
          cases op <;> first | rfl | contradiction
        rw [hnone]
        exact kept (execFlux_keepsRegions op hcreate hdestroy)
  | native op => exact kept ((execNative_effect op).imp fun _ h => h.toKeepsRegions)
  | unknown => exact kept ⟨rfl, rfl, rfl⟩

/-! ## Actions -/

theorem call_keeps (hhost : host.Allocates) (hs : vm.RegionsSound) {call : RegionAction}
    (hcall : call ≠ .execute) (h : call.step host vm = some vm') : TableKept host call vm vm' := by
  cases call with
  | execute => exact absurd rfl hcall
  | load bytecode len =>
    cases h
    have hsame : SameTable vm (vm.fluxVmLoad bytecode len).2 ∧
        (vm.fluxVmLoad bytecode len).2.regs = vm.regs := by
      unfold fluxVmLoad
      split
      · exact ⟨⟨rfl, rfl, fun s => ⟨_, rfl⟩⟩, rfl⟩
      · split_ifs <;> exact ⟨⟨rfl, rfl, fun s => ⟨_, rfl⟩⟩, rfl⟩
    refine ⟨hsame.1.sound hs, fun hm => iff_of_true ((hsame.1.mirrored ?_ ?_).2 hm) trivial⟩
    · rw [hsame.2]
    · rw [hsame.2]
  | create name size readonly =>
    cases h
    exact fluxVmRegionCreate_keeps hhost hs name size readonly
  | destroy regionId =>
    obtain ⟨rc, vm₁, heq, hkept⟩ := fluxVmRegionDestroy_keeps host hs regionId
    rw [RegionAction.step, heq] at h
    cases h
    exact hkept
  | destroyAll =>
    obtain ⟨rc, vm₁, heq, hsound, hmirrored⟩ := fluxVmRegionDestroyAll_sound hs.toBuffersSound
    rw [RegionAction.step, heq] at h
    cases h
    exact ⟨hsound, fun _ => iff_of_true hmirrored trivial⟩
  | setActive regionId =>
    cases h
    exact fluxVmRegionSetActive_keeps hs regionId
  | resize regionId newSize =>
    cases h
    exact fluxVmRegionResize_keeps hhost hs regionId newSize

theorem regionCall_ne_execute {op : Opcode} {call : RegionAction} (h : call ∈ regionCall op v1) :
    call ≠ .execute := by
  rintro rfl
  unfold regionCall at h
  split at h <;> cases h

/-- The rest of a step after its call keeps the table, and by assumption the registers. -/
theorem TableAfter.keeps {vm₁ : FluxVm} {op : Opcode}
    (h : vm₁.TableAfter host (regionCall op v1) vm') (hhost : host.Allocates) (hs : vm₁.RegionsSound)
    (hbase : vm'.regs fluxRegRegionBase = vm₁.regs fluxRegRegionBase)
    (hsize : vm'.regs fluxRegRegionSize = vm₁.regs fluxRegRegionSize) :
    vm'.RegionsSound ∧ (vm₁.Mirrored →
      (vm'.Mirrored ↔ ∀ call ∈ regionCall op v1, vm₁.CallKeepsMirror host call)) := by
  unfold TableAfter at h
  cases hcall : regionCall op v1 with
  | none =>
    rw [hcall] at h
    refine ⟨SameTable.sound h hs, fun hm =>
      iff_of_true ((SameTable.mirrored h hbase hsize).2 hm) fun call hmem => ?_⟩
    exact absurd hmem (Option.not_mem_none call)
  | some call =>
    rw [hcall] at h
    obtain ⟨vm₂, hstep, hregs, hsame⟩ := h
    have hkept := call_keeps hhost hs (regionCall_ne_execute hcall) hstep
    refine ⟨hsame.sound hkept.sound, fun hm => ?_⟩
    rw [hsame.mirrored (by rw [hregs, hbase]) (by rw [hregs, hsize]), hkept.mirrored hm]
    simp only [Option.mem_some, forall_eq']

theorem fluxVmStep_keeps (hhost : host.Allocates) (hs : vm.RegionsSound) :
    Ensures (fun _ => True) (fun r => r.2.regs fluxRegRegionBase = vm.regs fluxRegRegionBase →
      r.2.regs fluxRegRegionSize = vm.regs fluxRegRegionSize →
      r.2.RegionsSound ∧ (vm.Mirrored → (r.2.Mirrored ↔ KeepsMirror host .execute vm)))
      (vm.fluxVmStep host) := by
  refine fluxVmStep_ensures (fun r hr _ _ => ?_) (fun _ _ _ => trivial) (fun _ _ _ _ _ => trivial)
    (fun _ => trivial) fun i vm₁ hi hvm₁ => ?_
  · have hnone : vm.nextInsn = none := by
      rw [nextInsn, hr]
    have hsame : SameTable vm r.2 ∧ r.2.regs = vm.regs := by
      unfold stopped? at hr
      split_ifs at hr
      all_goals
        cases hr
        exact ⟨⟨rfl, rfl, fun s => ⟨_, rfl⟩⟩, rfl⟩
    refine ⟨hsame.1.sound hs,
      fun hm => iff_of_true ((hsame.1.mirrored ?_ ?_).2 hm) fun i hi => ?_⟩
    · rw [hsame.2]
    · rw [hsame.2]
    · rw [hnone] at hi
      cases hi
  · obtain ⟨trace, traceIdx, rfl⟩ := hvm₁.eq
    refine (execute_table _ host i (vm.regValue i.rs1) (vm.regValue i.rs2)).imp
      fun r hr hbase hsize => ?_
    have hfinish : SameTable r.2 (finish r).2 := by
      rcases r with ⟨_ | status, vm''⟩
      · exact ⟨rfl, rfl, fun s => ⟨_, rfl⟩⟩
      · exact ⟨rfl, rfl, fun s => ⟨_, rfl⟩⟩
    obtain ⟨hsound, hmirrored⟩ := (hr.trans hfinish).keeps hhost
      ⟨⟨hs.len, hs.live, hs.unused, hs.distinct⟩, hs.active, hs.idle⟩ hbase hsize
    refine ⟨hsound, fun hm => (hmirrored hm).trans ?_⟩
    simp only [KeepsMirror, hi, Option.some.injEq, forall_eq']
    exact Iff.rfl

theorem step_keeps (hhost : host.Allocates) {action : RegionAction}
    (hspare : SparesMirror host action vm) (hs : vm.RegionsSound)
    (hstep : action.step host vm = some vm') :
    vm'.RegionsSound ∧ (vm.Mirrored → (vm'.Mirrored ↔ KeepsMirror host action vm)) := by
  by_cases hexec : action = .execute
  · subst hexec
    obtain ⟨hbase, hsize⟩ := hspare rfl vm' hstep
    simp only [RegionAction.step] at hstep
    cases hok : vm.fluxVmStep host with
    | error fault =>
      rw [hok] at hstep
      cases hstep
    | ok r =>
      rw [hok] at hstep
      cases hstep
      exact (fluxVmStep_keeps hhost hs).of_ok hok hbase hsize
  · have hkeeps : KeepsMirror host action vm ↔ vm.CallKeepsMirror host action := by
      cases action <;> first | exact Iff.rfl | exact absurd rfl hexec
    have hkept := call_keeps hhost hs hexec hstep
    rw [hkeeps]
    exact ⟨hkept.sound, hkept.mirrored⟩

/-! ## Runs -/

/-- A VM that was just set up has no regions. -/
theorem regionsSound_of_init {heap : HostHeap} (h : fluxVmInit host heap = .ok vm) :
    vm.RegionsSound := by
  unfold fluxVmInit at h
  split at h
  · cases h
  · cases h
    refine ⟨⟨?_, ?_, fun _ _ => ⟨rfl, rfl⟩, ?_⟩, .inl rfl, fun _ _ => rfl⟩
    · exact fun s hs => absurd hs Bool.false_ne_true
    · exact fun s hs => absurd hs Bool.false_ne_true
    · exact fun s t hs => absurd hs Bool.false_ne_true

/-- In every state that a new VM gets to by calls on the region table, programs that are loaded and
steps that do not write `R58` or `R59` themselves, and over all further actions of these kinds: the
invariant of the region table holds from there on if and only if the registers are right in that state
and every action finds them as `KeepsMirror` says. -/
theorem regionTable_holdsAlong_iff {heap : HostHeap} {vm₀ : FluxVm} {actions : List RegionAction}
    (hhost : host.Allocates) (hinit : fluxVmInit host heap = .ok vm₀)
    (hreach : Reaches (RegionAction.step host) (SparesMirror host) vm₀ vm)
    (hspare : MeetsAlong (RegionAction.step host) (SparesMirror host) actions vm) :
    HoldsAlong (RegionAction.step host) RegionTableSound actions vm ↔
      vm.Mirrored ∧ MeetsAlong (RegionAction.step host) (KeepsMirror host) actions vm := by
  have hs : vm.RegionsSound := hreach.invariant
    (fun action vm vm' ha hs hstep => (step_keeps hhost ha hs hstep).1) (regionsSound_of_init hinit)
  by_cases hm : vm.Mirrored
  · rw [and_iff_right hm]
    refine holdsAlong_iff_meetsAlong (J := RegionsSound) ?_ ?_ hspare hs ⟨hs, hm⟩
    · exact fun action vm vm' ha hs hstep => (step_keeps hhost ha hs hstep).1
    · intro action vm vm' ha hs hP hstep
      obtain ⟨hsound, hmirrored⟩ := step_keeps hhost ha hs hstep
      rw [← hmirrored hP.2]
      exact and_iff_right hsound
  · exact iff_of_false (fun h => hm h.head.2) fun h => hm h.1

/-- A host that never gives a buffer out twice. -/
def carefulHost : Host where
  calloc heap _ :=
    let addr := UInt64.ofNat (4096 * (heap.calls + 1))
    if addr = 0 ∨ addr ∈ heap.live then none else some addr
  realloc heap old _ :=
    let addr := UInt64.ofNat (4096 * (heap.calls + 1))
    if addr = 0 ∨ addr ∈ heap.live.erase old then none else some addr

theorem carefulHost_allocates : carefulHost.Allocates := by
  constructor
  · intro heap size addr h
    simp only [carefulHost] at h
    split_ifs at h with hcond
    exact Option.some.inj h ▸ not_or.1 hcond
  · intro heap old size addr h
    simp only [carefulHost] at h
    split_ifs at h with hcond
    exact Option.some.inj h ▸ not_or.1 hcond

/-- A new VM on this host. -/
def newVm : FluxVm :=
  { FluxVm.zero ⟨1, [4096]⟩ with
    regs := initRegs fluxStackSize
    stackSize := fluxStackSize
    activeRegion := -1 }

theorem newVm_init : fluxVmInit carefulHost ⟨0, []⟩ = .ok newVm := rfl

/-- A region that was selected stays mirrored while another one comes and goes. -/
theorem regionTable_holdsAlong_iff_selected :
    ∃ vm, Actions.execute (RegionAction.step carefulHost) [.create none 16 false, .setActive 0] newVm =
        some vm ∧
      (HoldsAlong (RegionAction.step carefulHost) RegionTableSound
          [.create none 8 false, .resize 1 32, .destroy 1] vm ↔
        vm.Mirrored ∧ MeetsAlong (RegionAction.step carefulHost) (KeepsMirror carefulHost)
          [.create none 8 false, .resize 1 32, .destroy 1] vm) := by
  have spares {action : RegionAction} (h : action ≠ .execute) (vm : FluxVm) :
      SparesMirror carefulHost action vm := fun heq => absurd heq h
  refine ⟨_, rfl, regionTable_holdsAlong_iff carefulHost_allocates newVm_init ?_ ?_⟩
  · refine Reaches.tail (a := .setActive 0)
      (Reaches.tail (a := .create none 16 false) (Reaches.refl _) (spares ?_ _) rfl) (spares ?_ _) rfl
    · simp
    · simp
  · exact meetsAlong_of_forall (by simp [SparesMirror])

/-- The registers do not show the first region that is created. -/
theorem create_not_mirrored :
    ¬ HoldsAlong (RegionAction.step carefulHost) RegionTableSound [.create none 16 false] newVm := by
  rintro ⟨-, hall⟩
  have hm := (hall _ rfl).2
  have hbase := (hm 0 (by decide +kernel)).1
  revert hbase
  decide +kernel

end FluxVm

end FluxOs
