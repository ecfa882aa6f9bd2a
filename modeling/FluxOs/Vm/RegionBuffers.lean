import FluxOs.Lib.Ledgers
import FluxOs.Vm.Frees

/-!
# The buffers of the regions

`flux_vm_destroy`, and the buffers that a VM owns between `flux_vm_init` and `flux_vm_destroy`: calls on the
region table, programs that are loaded, steps and `flux_vm_reset` in any order.  `Owned` says that what is
allocated is the buffers of the regions in use and what was allocated before.  `flux_vm_reset` clears the
region table without freeing its buffers, so that it keeps `Owned` only where no region is in use.
-/

namespace FluxOs

open Faulting Actions Ledgers

namespace FluxVm

/-- The loop of `flux_vm_destroy` over the slots that are left. -/
def freeSlots : List (Fin 16) → FluxVm → Except Fault FluxVm
  | [], vm => .ok vm
  | slot :: slots, vm =>
    let reg := vm.regions slot
    if reg.data.addr ≠ 0 then do
      let heap ← vm.heap.free reg.data.addr
      freeSlots slots { vm.putRegion slot { reg with data := .null, active := false } with heap }
    else freeSlots slots (vm.putRegion slot { reg with active := false })

/-- `flux_vm_destroy` of a VM whose stack is at `stack`. -/
def fluxVmDestroy (vm : FluxVm) (stack : UInt64) : Except Fault (FluxStatus × FluxVm) := do
  let vm ← freeSlots (List.finRange 16) vm
  let heap ← vm.heap.freeUnlessNull stack
  return (.ok, FluxVm.zero heap)

end FluxVm

/-- What comes of an action. -/
def RegionAction.outcome (host : Host) : RegionAction → FluxVm → Except Fault FluxVm
  | .load bytecode len, vm => .ok (vm.fluxVmLoad bytecode len).2
  | .execute, vm => Prod.snd <$> vm.fluxVmStep host
  | .create name size readonly, vm => .ok (vm.fluxVmRegionCreate host name size readonly).2
  | .destroy regionId, vm => Prod.snd <$> vm.fluxVmRegionDestroy regionId
  | .destroyAll, vm => Prod.snd <$> vm.fluxVmRegionDestroyAll
  | .setActive regionId, vm => .ok (vm.fluxVmRegionSetActive regionId).2
  | .resize regionId newSize, vm => .ok (vm.fluxVmRegionResize host regionId newSize).2

/-- A call between `flux_vm_init` and `flux_vm_destroy`. -/
inductive LifecycleAction
  | region (action : RegionAction)
  | reset

/-- What comes of a call. -/
def LifecycleAction.outcome (host : Host) : LifecycleAction → FluxVm → Except Fault FluxVm
  | .region action, vm => action.outcome host vm
  | .reset, vm => .ok vm.fluxVmReset

/-- The VM after a call; a fault ends the run. -/
def LifecycleAction.step (host : Host) (action : LifecycleAction) (vm : FluxVm) : Option FluxVm :=
  (action.outcome host vm).toOption

/-- The buffer that a region owns. -/
def FluxVmRegion.buffer (reg : FluxVmRegion) : Option UInt64 := if reg.active then some reg.data.addr else none

namespace FluxVm

/-- What is allocated is the buffers of the regions in use and `rest`. -/
def Owned (rest : List UInt64) (vm : FluxVm) : Prop :=
  Ledgers.Balanced (List.finRange 16) (fun s => (vm.regions s).buffer) rest vm.heap.live

/-- Nothing leaked and nothing was or will be freed twice by the next call: what is allocated is the buffers
of the regions in use, the stack and what `heap` had before `flux_vm_init`; and `flux_vm_destroy` leaves only
the latter. -/
structure BuffersOwned (host : Host) (heap : HostHeap) (stack : UInt64) (vm : FluxVm) : Prop where
  owned : vm.Owned (stack :: heap.live)
  once : ∀ action : LifecycleAction, FreesOnce (action.outcome host vm)
  destroyed : ∃ vm', vm.fluxVmDestroy stack = .ok (.ok, vm') ∧ vm'.heap.live.Perm heap.live

/-- A reset finds no region in use. -/
def ResetsUnused : LifecycleAction → FluxVm → Prop
  | .reset, vm => ∀ s, (vm.regions s).active = false
  | .region _, _ => True

variable {vm vm' : FluxVm} {host : Host} {rest : List UInt64} {heap : HostHeap} {stack : UInt64} {slot : Fin 16}

/-! ## Changes of the table -/

theorem buffer_eq_none_iff {reg : FluxVmRegion} : reg.buffer = none ↔ reg.active = false := by
  unfold FluxVmRegion.buffer
  cases reg.active <;> simp

theorem buffer_put (vm : FluxVm) (slot : Fin 16) (reg : FluxVmRegion) :
    (fun s => ((vm.putRegion slot reg).regions s).buffer) =
      Function.update (fun s => (vm.regions s).buffer) slot reg.buffer :=
  Function.comp_update FluxVmRegion.buffer vm.regions slot reg

theorem SameTable.owned (h : SameTable vm vm') (ho : vm.Owned rest) : vm'.Owned rest := by
  have hbuf : (fun s => (vm'.regions s).buffer) = fun s => (vm.regions s).buffer := by
    funext s
    unfold FluxVmRegion.buffer
    rw [(h.region s).1, (h.region s).2.2.1]
  unfold Owned
  rw [hbuf, h.live]
  exact ho

theorem Created.owned {size : UInt64} {addr : UInt64} (h : Created vm host size slot addr vm')
    (ho : vm.Owned rest) : vm'.Owned rest := by
  obtain ⟨reg, calls, rfl, hact, -, haddr, -⟩ := h.eq
  have hstore := Ledgers.Balanced.store (r := addr) ho (List.nodup_finRange 16) (List.mem_finRange slot)
    (buffer_eq_none_iff.2 h.free)
  have hbuf : some addr = reg.buffer := by
    rw [FluxVmRegion.buffer, if_pos hact, haddr]
  rw [hbuf, ← buffer_put] at hstore
  exact hstore

/-- The region of a slot gives its buffer back. -/
theorem Owned.cleared (ho : vm.Owned rest) (hact : (vm.regions slot).active = true) (reg : FluxVmRegion)
    (hreg : reg.active = false) : ({ vm.putRegion slot reg with
      heap := { vm.heap with live := vm.heap.live.erase (vm.regions slot).data.addr } } : FluxVm).Owned rest := by
  have hrelease := Ledgers.Balanced.release ho (List.nodup_finRange 16) (List.mem_finRange slot) (if_pos hact)
  rw [← buffer_eq_none_iff.2 hreg, ← buffer_put] at hrelease
  exact hrelease

theorem Resized.owned {newSize addr : UInt64} (h : Resized vm host slot newSize addr vm')
    (hact : (vm.regions slot).active = true) (ho : vm.Owned rest) : vm'.Owned rest := by
  obtain ⟨reg, heap, regs, rfl, hlive, hact', -, haddr, -⟩ := h.eq
  have hexchange := Ledgers.Balanced.exchange addr ho (List.nodup_finRange 16) (List.mem_finRange slot)
    (if_pos hact)
  have hbuf : some addr = reg.buffer := by
    rw [FluxVmRegion.buffer, if_pos (hact'.trans hact), haddr]
  rw [hbuf, ← buffer_put, ← hlive] at hexchange
  exact hexchange

theorem fluxVmRegionDestroy_owned (hs : vm.BuffersSound) (ho : vm.Owned rest) (regionId : Int) :
    Ensures (fun _ => True) (fun r => r.2.Owned rest) (vm.fluxVmRegionDestroy regionId) := by
  unfold fluxVmRegionDestroy
  cases h : vm.validateRegionId regionId with
  | none => exact ho
  | some slot =>
    obtain ⟨rfl, hact⟩ := (vm.validateRegionId_eq_some).1 h
    obtain ⟨hnull, hlive⟩ := hs.live slot hact
    simp only [free_of_live hnull hlive]
    have hcleared := ho.cleared hact { vm.regions slot with
      data := .null, active := false, size := 0, base := 0, name := [] } rfl
    refine (ensures_ok ..).2 ?_
    split_ifs
    · exact hcleared
    · exact hcleared

theorem destroySlots_owned (slots : List (Fin 16)) (hs : vm.BuffersSound) (ho : vm.Owned rest) :
    Ensures (fun _ => True) (Owned rest) (destroySlots slots vm) := by
  induction slots generalizing vm with
  | nil => exact ho
  | cons slot slots ih =>
    by_cases hact : (vm.regions slot).active = true
    · obtain ⟨hnull, hlive⟩ := hs.live slot hact
      simp only [destroySlots, hact, if_true, free_of_live hnull hlive]
      exact ih (hs.cleared hact _ rfl rfl).buffers (ho.cleared hact _ rfl)
    · simp only [destroySlots, hact]
      exact ih hs ho

theorem call_owned (hs : vm.RegionsSound) (ho : vm.Owned rest) {call : RegionAction} (hcall : call ≠ .execute)
    (h : call.step host vm = some vm') : vm'.Owned rest := by
  cases call with
  | execute => exact absurd rfl hcall
  | load bytecode len =>
    cases h
    unfold fluxVmLoad
    split
    · exact ho
    · split_ifs <;> exact ho
  | create name size readonly =>
    cases h
    obtain ⟨-, calls, heq⟩ | ⟨rid, addr, hcreated⟩ := fluxVmRegionCreate_cases vm host name size readonly
    · rw [heq]
      exact ho
    · exact hcreated.owned ho
  | destroy regionId =>
    obtain ⟨⟨rc, vm₁⟩, heq, rfl⟩ := Option.map_eq_some_iff.1 h
    exact (fluxVmRegionDestroy_owned hs.toBuffersSound ho regionId).of_ok (toOption_eq_some.1 heq)
  | destroyAll =>
    obtain ⟨⟨rc, vm₁⟩, heq, rfl⟩ := Option.map_eq_some_iff.1 h
    obtain ⟨vm₂, hslots, hret⟩ := bind_eq_ok.1 (toOption_eq_some.1 heq)
    have howned := (destroySlots_owned (List.finRange 16) hs.toBuffersSound ho).of_ok hslots
    cases hret
    exact howned
  | setActive regionId =>
    cases h
    unfold fluxVmRegionSetActive
    cases vm.validateRegionId regionId <;> exact ho
  | resize regionId newSize =>
    cases h
    obtain ⟨⟨calls, heq⟩, -⟩ | ⟨slot, addr, -, hact, hresized⟩ := fluxVmRegionResize_cases vm host regionId newSize
    · rw [heq]
      exact ho
    · exact hresized.owned hact ho

/-! ## What the table keeps -/

section

variable {K : FluxVm → Prop} (hsame : ∀ vm vm', SameTable vm vm' → K vm → K vm')
  (hcall : ∀ call vm vm', call ≠ .execute → K vm → RegionAction.step host call vm = some vm' → K vm')
include hsame hcall

theorem TableAfter.keeps_of {op : Opcode} {v1 : UInt64} (h : vm.TableAfter host (regionCall op v1) vm')
    (hK : K vm) : K vm' := by
  unfold TableAfter at h
  cases hop : regionCall op v1 with
  | none =>
    rw [hop] at h
    exact hsame vm vm' h hK
  | some call =>
    rw [hop] at h
    obtain ⟨vm₁, hstep, -, htable⟩ := h
    exact hsame vm₁ vm' htable (hcall call vm vm₁ (regionCall_ne_execute hop) hK hstep)

/-- A step keeps what the calls keep that it can make. -/
theorem fluxVmStep_keeps_of (hK : K vm) : Ensures (fun _ => True) (fun r => K r.2) (vm.fluxVmStep host) := by
  refine fluxVmStep_ensures (fun r hr => hsame vm r.2 ?_ hK) (fun _ _ _ => trivial) (fun _ _ _ _ _ => trivial)
    (fun _ => trivial) fun i vm₁ _ hvm₁ => ?_
  · unfold stopped? at hr
    split_ifs at hr
    all_goals
      cases hr
      exact ⟨rfl, rfl, fun s => ⟨_, rfl⟩⟩
  · obtain ⟨trace, traceIdx, rfl⟩ := hvm₁.eq
    refine (execute_table _ host i (vm.regValue i.rs1) (vm.regValue i.rs2)).imp fun r hr => ?_
    have hfinish : SameTable r.2 (finish r).2 := by
      rcases r with ⟨_ | status, vm''⟩
      · exact ⟨rfl, rfl, fun s => ⟨_, rfl⟩⟩
      · exact ⟨rfl, rfl, fun s => ⟨_, rfl⟩⟩
    refine (hr.trans hfinish).keeps_of hsame hcall (hsame vm _ ?_ hK)
    exact ⟨rfl, rfl, fun s => ⟨_, rfl⟩⟩

theorem regionAction_keeps_of {action : RegionAction} (hK : K vm) (h : action.step host vm = some vm') : K vm' := by
  by_cases hexec : action = .execute
  · subst hexec
    obtain ⟨⟨rc, vm₁⟩, heq, rfl⟩ := Option.map_eq_some_iff.1 h
    exact (fluxVmStep_keeps_of hsame hcall hK).of_ok (toOption_eq_some.1 heq)
  · exact hcall action vm vm' hexec hK h

end

theorem regionAction_sound (hhost : host.Allocates) {action : RegionAction} (hs : vm.RegionsSound)
    (h : action.step host vm = some vm') : vm'.RegionsSound :=
  regionAction_keeps_of (fun _ _ htable hs => htable.sound hs)
    (fun _ _ _ hcall hs hstep => (call_keeps hhost hs hcall hstep).sound) hs h

theorem regionAction_owned (hhost : host.Allocates) {action : RegionAction} (hs : vm.RegionsSound)
    (ho : vm.Owned rest) (h : action.step host vm = some vm') : vm'.Owned rest := by
  refine (regionAction_keeps_of (K := fun vm => vm.RegionsSound ∧ vm.Owned rest) (fun _ _ htable hK => ?_)
    (fun call _ _ hcall hK hstep => ?_) ⟨hs, ho⟩ h).2
  · exact ⟨htable.sound hK.1, htable.owned hK.2⟩
  · exact ⟨(call_keeps hhost hK.1 hcall hstep).sound, call_owned hK.1 hK.2 hcall hstep⟩

/-! ## Resets -/

theorem fluxVmReset_sound (vm : FluxVm) : vm.fluxVmReset.RegionsSound := by
  refine ⟨⟨?_, ?_, fun _ _ => ⟨rfl, rfl⟩, ?_⟩, .inl rfl, fun _ _ => rfl⟩
  · exact fun s hs => absurd hs Bool.false_ne_true
  · exact fun s hs => absurd hs Bool.false_ne_true
  · exact fun s t hs => absurd hs Bool.false_ne_true

/-- The regions that a reset finds in use are forgotten with their buffers. -/
theorem fluxVmReset_owned_iff (ho : vm.Owned rest) :
    vm.fluxVmReset.Owned rest ↔ ∀ s, (vm.regions s).active = false := by
  refine (Ledgers.Balanced.forget_iff ho).trans ⟨fun h s => ?_, fun h s _ => ?_⟩
  · exact buffer_eq_none_iff.1 (h s (List.mem_finRange s))
  · exact buffer_eq_none_iff.2 (h s)

/-! ## The end -/

theorem freeSlots_eq (slots : List (Fin 16)) (hs : vm.BuffersSound) (ho : vm.Owned rest) :
    ∃ vm', freeSlots slots vm = .ok vm' ∧ vm'.Owned rest ∧
      ∀ s, (vm'.regions s).active = true → (vm.regions s).active = true ∧ s ∉ slots := by
  induction slots generalizing vm with
  | nil => exact ⟨vm, rfl, ho, fun s hact => ⟨hact, List.not_mem_nil⟩⟩
  | cons slot slots ih =>
    by_cases hact : (vm.regions slot).active = true
    · obtain ⟨hnull, hlive⟩ := hs.live slot hact
      have hfree : vm.heap.free (vm.regions slot).data.addr = .ok _ := if_pos hlive
      have hcleared := hs.cleared hact { vm.regions slot with data := .null, active := false } rfl rfl
      obtain ⟨vm', heq, howned, hused⟩ := ih hcleared.buffers (ho.cleared hact _ rfl)
      refine ⟨vm', ?_, howned, fun s hs' => ?_⟩
      · simp only [freeSlots, hnull, ne_eq, not_false_iff, if_true, hfree]
        exact heq
      · obtain ⟨hs'', hmem⟩ := hused s hs'
        obtain ⟨hact', hne⟩ := (hcleared.used s).1 hs''
        exact ⟨hact', fun h => (List.mem_cons.1 h).elim hne hmem⟩
    · have hinactive : (vm.regions slot).active = false := Bool.eq_false_iff.2 hact
      have hsame : vm.putRegion slot { vm.regions slot with active := false } = vm := by
        rw [putRegion, ← hinactive]
        exact congrArg (fun regions => { vm with regions }) (Function.update_eq_self slot vm.regions)
      obtain ⟨vm', heq, howned, hused⟩ := ih hs ho
      refine ⟨vm', ?_, howned, fun s hs' => ⟨(hused s hs').1, fun hmem => ?_⟩⟩
      · simp only [freeSlots, (hs.unused slot hinactive).1, ne_eq, not_true, if_false, hsame]
        exact heq
      · rcases List.mem_cons.1 hmem with rfl | hmem
        · exact hact (hused s hs').1
        · exact (hused s hs').2 hmem

/-- Destroying a VM gives back its regions and its stack, each once. -/
theorem fluxVmDestroy_eq (hs : vm.BuffersSound) (ho : vm.Owned (stack :: heap.live)) (hstack : stack ≠ 0) :
    ∃ vm', vm.fluxVmDestroy stack = .ok (.ok, vm') ∧ vm'.heap.live.Perm heap.live := by
  obtain ⟨vm', heq, howned, hused⟩ := freeSlots_eq (List.finRange 16) hs ho
  have hnone : inventory (List.finRange 16) (fun s => (vm'.regions s).buffer) = [] := by
    rw [inventory_eq_nil_iff]
    intro s hmem
    apply buffer_eq_none_iff.2
    exact Bool.eq_false_iff.2 fun hact => (hused s hact).2 hmem
  unfold Owned Ledgers.Balanced at howned
  rw [hnone, List.nil_append] at howned
  have hlive : stack ∈ vm'.heap.live := howned.mem_iff.2 List.mem_cons_self
  refine ⟨FluxVm.zero { vm'.heap with live := vm'.heap.live.erase stack }, ?_, ?_⟩
  · exact bind_eq_ok.2 ⟨vm', heq, bind_eq_ok.2 ⟨_, free_of_live hstack hlive, rfl⟩⟩
  · have herase := howned.erase stack
    rwa [List.erase_cons_head] at herase

/-! ## Runs -/

theorem outcome_freesOnce (hs : vm.RegionsSound) (action : LifecycleAction) :
    FreesOnce (action.outcome host vm) := by
  cases action with
  | reset => exact freesOnce_ok _
  | region action =>
    cases action with
    | load | create | setActive | resize => exact freesOnce_ok _
    | execute => exact (freesOnce_map ..).2 (fluxVmStep_freesOnce hs.toBuffersSound)
    | destroy regionId => exact (freesOnce_map ..).2 (fluxVmRegionDestroy_freesOnce hs.toBuffersSound regionId)
    | destroyAll =>
      obtain ⟨rc, vm', heq, -⟩ := fluxVmRegionDestroyAll_sound hs.toBuffersSound
      simp only [LifecycleAction.outcome, RegionAction.outcome, heq]
      exact freesOnce_ok _

theorem step_region {action : RegionAction} :
    LifecycleAction.step host (.region action) vm = action.step host vm := by
  have hmap (x : Except Fault (FluxStatus × FluxVm)) : (Prod.snd <$> x).toOption = x.toOption.map Prod.snd := by
    cases x <;> rfl
  cases action with
  | load | create | setActive | resize => rfl
  | execute | destroy | destroyAll => exact hmap _

theorem buffersOwned_iff (hstack : stack ≠ 0) (hs : vm.RegionsSound) :
    vm.BuffersOwned host heap stack ↔ vm.Owned (stack :: heap.live) :=
  ⟨fun h => h.owned, fun ho => ⟨ho, outcome_freesOnce hs, fluxVmDestroy_eq hs.toBuffersSound ho hstack⟩⟩

/-- Over all calls between `flux_vm_init` and `flux_vm_destroy`: no buffer leaks and none is freed twice if and
only if every reset finds no region in use. -/
theorem buffersOwned_holdsAlong_iff {actions : List LifecycleAction} (hhost : host.Allocates)
    (hstack : host.calloc heap (fluxStackSize * 8) = some stack) (hinit : fluxVmInit host heap = .ok vm) :
    HoldsAlong (LifecycleAction.step host) (BuffersOwned host heap stack) actions vm ↔
      MeetsAlong (LifecycleAction.step host) ResetsUnused actions vm := by
  have hnull : stack ≠ 0 := (hhost.calloc _ _ _ hstack).1
  have hs := regionsSound_of_init hinit
  have ho : vm.Owned (stack :: heap.live) := by
    simp only [fluxVmInit, HostHeap.calloc, hstack] at hinit
    cases hinit
    exact List.Perm.refl _
  have hsound (action : LifecycleAction) (vm vm' : FluxVm) (hs : vm.RegionsSound)
      (hstep : action.step host vm = some vm') : vm'.RegionsSound := by
    cases action with
    | reset =>
      cases hstep
      exact fluxVmReset_sound vm
    | region action => exact regionAction_sound hhost hs (step_region ▸ hstep)
  have hall : MeetsAlong (LifecycleAction.step host) (fun _ _ => True) actions vm :=
    meetsAlong_of_forall fun _ _ _ => trivial
  refine holdsAlong_iff_meetsAlong (J := RegionsSound) (fun action vm vm' _ => hsound action vm vm')
    (fun action vm vm' _ hs hP hstep => ?_) hall hs ((buffersOwned_iff hnull hs).2 ho)
  rw [buffersOwned_iff hnull (hsound action vm vm' hs hstep)]
  cases action with
  | reset =>
    cases hstep
    exact fluxVmReset_owned_iff hP.owned
  | region action => exact iff_of_true (regionAction_owned hhost hs hP.owned (step_region ▸ hstep)) trivial

/-- A region that is created, resized and destroyed before a reset. -/
theorem buffersOwned_holdsAlong_iff_destroyed :
    HoldsAlong (LifecycleAction.step carefulHost) (BuffersOwned carefulHost ⟨0, []⟩ 4096)
        [.region (.create none 16 false), .region (.resize 0 32), .region (.destroy 0), .reset] newVm ↔
      MeetsAlong (LifecycleAction.step carefulHost) ResetsUnused
        [.region (.create none 16 false), .region (.resize 0 32), .region (.destroy 0), .reset] newVm :=
  buffersOwned_holdsAlong_iff carefulHost_allocates rfl newVm_init

/-- The buffer of a region that is in use leaks at a reset. -/
theorem reset_leaks : ¬ HoldsAlong (LifecycleAction.step carefulHost) (BuffersOwned carefulHost ⟨0, []⟩ 4096)
    [.region (.create none 16 false), .reset] newVm := by
  rintro ⟨-, hall⟩
  obtain ⟨-, hall⟩ := hall _ rfl
  have howned := (hall _ rfl).owned.length_eq
  revert howned
  decide +kernel

end FluxVm

end FluxOs
