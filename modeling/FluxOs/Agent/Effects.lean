import FluxOs.Agent.MailEffects

/-!
# What the other functions of the agent runtime change

Spawning and terminating an agent, its capability bits, the registries and the execution, as changes of the
view.
-/

namespace FluxOs

open Rings AgentRuntime

/-! ## Views that differ in one part -/

namespace AgentView

variable (V : AgentView)

/-- The view of a slot is replaced, and what was in its inbox is given up. -/
def renewed (i : AgentIdx) (slot : SlotView) : AgentView :=
  { V.modify i fun _ => slot with
    history := { V.history with events := V.history.events ++ [.clear i] } }

/-- The view after an agent was terminated. -/
def cleaned (i : AgentIdx) (lastOpCycles : UInt64) : AgentView :=
  { V.renewed i { AgentSlot.zero.view with
      inbox := drainInbox (V.slots i).inbox
      lastOpCycles
      executed := (V.slots i).executed } with
    pool := drainPool V.pool (V.slots i).inbox
    bitmap := Function.update V.bitmap i false }

/-- The capability bits of the agents are replaced. -/
def withCapabilities (c : AgentIdx → UInt64) : AgentView :=
  { V with slots := fun k => { V.slots k with capabilities := c k } }

/-- The registries and the capability lists of the agents are replaced. -/
def withRegistry (topics : List FluxTopic) (pubCaps : Fin fluxPubCapsMax → PublishedCap) (numPubCaps : Nat)
    (caps : AgentIdx → List CapDesc) : AgentView :=
  { V with topics, pubCaps, numPubCaps, slots := fun k => { V.slots k with caps := caps k } }

/-- What an agent has used of its limits is replaced. -/
def withUsage (i : AgentIdx) (limits : AgentLimits) (lastOpCycles : UInt64) (executed : Nat) : AgentView :=
  V.modify i fun slot => { slot with limits, lastOpCycles, executed }

@[simp] theorem renewed_self {V : AgentView} {i : AgentIdx} {slot : SlotView} :
    (V.renewed i slot).slots i = slot := modify_self (f := fun _ => slot)

theorem renewed_of_ne {V : AgentView} {i k : AgentIdx} {slot : SlotView} (h : k ≠ i) :
    (V.renewed i slot).slots k = V.slots k :=
  modify_of_ne (f := fun _ => slot) h

/-- What is not the CPU account is left alone. -/
theorem withUsage_keeps {V : AgentView} {i : AgentIdx} {limits : AgentLimits} {lastOpCycles : UInt64}
    {executed : Nat} {β : Type} (g : SlotView → β)
    (h : ∀ slot limits lastOpCycles executed, g { slot with limits, lastOpCycles, executed } = g slot)
    (k : AgentIdx) : g ((V.withUsage i limits lastOpCycles executed).slots k) = g (V.slots k) :=
  modify_keeps (f := fun slot => { slot with limits, lastOpCycles, executed }) g (fun slot => h slot _ _ _) k

/-- A property of all slots is kept if the new one has it. -/
theorem forall_renewed {P : AgentIdx → SlotView → Prop} {V : AgentView} {i : AgentIdx} {slot : SlotView}
    (hslot : P i slot) (hP : ∀ k, P k (V.slots k)) (k : AgentIdx) : P k ((V.renewed i slot).slots k) :=
  forall_modify (f := fun _ => slot) hslot hP k

end AgentView

/-- The view of the slot of a new agent. -/
structure SlotView.New (i : AgentIdx) (caps : UInt64) (slot : SlotView) : Prop where
  active : slot.active = true
  agentId : slot.agentId = agentIdOf i
  vmInitialized : slot.vmInitialized = true
  capabilities : slot.capabilities = caps
  caps : slot.caps = []
  usedCpuTicks : slot.limits.usedCpuTicks = 0
  inbox : slot.inbox = AgentSlot.zero.inbox
  delegations : slot.delegations = []
  lastOpCycles : slot.lastOpCycles = 0
  executed : slot.executed = 0

namespace AgentRuntime

variable {rt : AgentRuntime} {i j : AgentIdx} {id : UInt32}

/-! ## Spawn -/

/-- What `flux_agent_spawn` does: it refuses, it clears a free slot and finds no memory, or it fills in the
slot. -/
inductive Spawns (V : AgentView) (caps : UInt64) : UInt32 → AgentView → Prop
  | refused : Spawns V caps fluxAgentIdInvalid V
  | noMemory (i : AgentIdx) : V.bitmap i = false →
      Spawns V caps fluxAgentIdInvalid (V.renewed i AgentSlot.zero.view)
  | spawned (i : AgentIdx) (slot : SlotView) : V.bitmap i = false → slot.New i caps →
      Spawns V caps (agentIdOf i) { V.renewed i slot with bitmap := Function.update V.bitmap i true }

theorem initVm_lastOpCycles {host : Host} : (initVm host).lastOpCycles = 0 := by
  unfold initVm FluxVm.fluxVmInit
  cases HostHeap.calloc host ⟨0, []⟩ (fluxStackSize * 8) with
  | mk heap stack => cases stack <;> rfl

theorem fluxVmLoad_lastOpCycles {vm : FluxVm} {bytecode : Option (Nat → UInt8)} {len : UInt64} :
    (vm.fluxVmLoad bytecode len).2.lastOpCycles = vm.lastOpCycles := by
  unfold FluxVm.fluxVmLoad
  cases bytecode with
  | none => rfl
  | some =>
    simp only
    split_ifs <;> rfl

theorem spawnVm_lastOpCycles {host : Host} {bytecode : Option (Nat → UInt8)} {len memory : UInt64} :
    (spawnVm host id bytecode len memory).lastOpCycles = 0 := by
  have hregion (vm : FluxVm) :
      (vm.fluxVmRegionCreate host (some agentWorkspace) memory false).2.lastOpCycles = vm.lastOpCycles := by
    obtain ⟨regions, activeRegion, heap, h⟩ :=
      FluxVm.fluxVmRegionCreate_update vm host (some agentWorkspace) memory false
    rw [h]
  unfold spawnVm
  rw [hregion]
  split
  · rw [fluxVmLoad_lastOpCycles]
    exact initVm_lastOpCycles
  · exact initVm_lastOpCycles

theorem new_spawnSlot {host : Host} {name model : Option CString} {caps : UInt64}
    {bytecode : Option (Nat → UInt8)} {len : UInt64} :
    (rt.spawnSlot host (agentIdOf i) name model caps bytecode len).view.New i caps where
  active := rfl
  agentId := rfl
  vmInitialized := rfl
  capabilities := rfl
  caps := rfl
  usedCpuTicks := rfl
  inbox := rfl
  delegations := rfl
  lastOpCycles := spawnVm_lastOpCycles
  executed := rfl

theorem view_clearSlot : (rt.clearSlot i).view = rt.view.renewed i AgentSlot.zero.view := by
  have : (rt.modifySlot i fun _ => .zero).view = rt.view.modify i fun _ => AgentSlot.zero.view :=
    view_modifySlot _ fun _ => rfl
  rw [AgentView.renewed, ← this]
  rfl

/-- A slot that was cleared is filled in. -/
theorem view_fillSlot {slot : AgentSlot} :
    ((rt.clearSlot i).modifySlot i fun _ => slot).view = rt.view.renewed i slot.view := by
  rw [view_modifySlot (fun _ => slot.view) fun _ => rfl, view_clearSlot]
  simp only [AgentView.renewed, AgentView.modify, Function.update_idem]

theorem fluxAgentSpawn_spawns {host : Host} {mem : Bool} {name model : Option CString} {caps : UInt64}
    {bytecode : Option (Nat → UInt8)} {len : UInt64} :
    Spawns rt.view caps (rt.fluxAgentSpawn host mem name model caps bytecode len).1
      (rt.fluxAgentSpawn host mem name model caps bytecode len).2.view := by
  unfold fluxAgentSpawn agentAllocId
  split
  · exact .refused
  split
  · exact .refused
  cases hfind : (List.finRange fluxAgentMax).find? fun i => !rt.agentBitmap i with
  | none => exact .refused
  | some i =>
    have hfree : rt.agentBitmap i = false := by simpa using List.find?_some hfind
    simp only
    split_ifs
    · simp only [view_fillSlot]
      exact .spawned i _ hfree new_spawnSlot
    · have hview : ((({ rt with agentBitmap := Function.update rt.agentBitmap i true } :
          AgentRuntime).clearSlot i).agentFreeId (agentIdOf i)).view =
            rt.view.renewed i AgentSlot.zero.view := by
        rw [agentFreeId, agentIndexFromId_agentIdOf]
        have hbits : Function.update (Function.update rt.agentBitmap i true) i false = rt.agentBitmap := by
          rw [Function.update_idem, ← hfree, Function.update_eq_self]
        rw [← view_clearSlot]
        show { ((rt.clearSlot i).view) with
          bitmap := Function.update (Function.update rt.agentBitmap i true) i false } = _
        rw [hbits]
        rfl
      rw [hview]
      exact .noMemory i hfree
    · simp only [view_fillSlot]
      exact .spawned i _ hfree new_spawnSlot

/-! ## Terminate -/

/-- What `flux_agent_terminate` does. -/
inductive Terminates (V : AgentView) (id : UInt32) : FluxStatus → AgentView → Prop
  | refused (status : FluxStatus) : status ≠ .ok → Terminates V id status V
  | terminated (i : AgentIdx) (lastOpCycles : UInt64) : id = agentIdOf i → (V.slots i).active = true →
      (lastOpCycles = 0 ∨ lastOpCycles = (V.slots i).lastOpCycles) →
      Terminates V id .ok (V.cleaned i lastOpCycles)

theorem view_cleanup : ((rt.agentSlotCleanup i).agentFreeId (agentIdOf i)).view =
    rt.view.cleaned i (cleanSlot (rt.agents i)).vm.lastOpCycles := by
  have hslot : (rt.modifySlot i cleanSlot).view = rt.view.modify i fun _ => (cleanSlot (rt.agents i)).view :=
    view_modifySlot_at
  rw [agentFreeId, agentIndexFromId_agentIdOf, AgentView.cleaned, AgentView.renewed]
  have : (cleanSlot (rt.agents i)).view = { AgentSlot.zero.view with
      inbox := drainInbox (rt.view.slots i).inbox
      lastOpCycles := (cleanSlot (rt.agents i)).vm.lastOpCycles
      executed := (rt.view.slots i).executed } := rfl
  rw [← this, ← hslot]
  rfl

theorem fluxAgentTerminate_terminates :
    Terminates rt.view id (rt.fluxAgentTerminate id).1 (rt.fluxAgentTerminate id).2.view := by
  unfold fluxAgentTerminate
  split
  · exact .refused _ (by simp)
  cases hi : rt.agentSlotById id with
  | none => exact .refused _ (by simp)
  | some i =>
    simp only
    split_ifs
    · exact .refused _ (by simp)
    obtain ⟨rfl, hact⟩ := agentSlotById_eq_some.1 hi
    rw [view_cleanup, view_modifyDesc_quiet fun _ => rfl]
    refine .terminated i _ rfl hact ?_
    rw [modifyDesc, modifySlot_self]
    by_cases hvm : (rt.agents i).vmInitialized = true
    · left
      simp [cleanSlot, hvm, vmDestroy, FluxVm.zero]
    · right
      simp only [cleanSlot, if_neg hvm]
      rfl

/-! ## Pause and resume -/

theorem view_fluxAgentPause : (rt.fluxAgentPause id).2.view = rt.view := by
  unfold fluxAgentPause
  split
  · rfl
  split
  · rfl
  simp only
  split
  · rfl
  split
  · rfl
  · apply view_modifySlot_quiet
    intro slot
    simp only [AgentSlot.view, pauseSlot, FluxVm.fluxVmHalt]
    split_ifs <;> rfl

theorem view_fluxAgentResume : (rt.fluxAgentResume id).2.view = rt.view := by
  unfold fluxAgentResume
  split
  · rfl
  split
  · rfl
  split_ifs
  · rfl
  · apply view_modifySlot_quiet
    intro slot
    simp only [AgentSlot.view, resumeSlot]
    split_ifs <;> rfl

/-! ## Capability bits -/

theorem AgentSlot.view_audit {slot : AgentSlot} {now : UInt64} {agentId targetId : UInt32} {cap : UInt64}
    {action : AuditAction} : (slot.audit now agentId targetId cap action).view = slot.view := by
  unfold AgentSlot.audit
  simp only
  split_ifs <;> rfl

@[simp] theorem view_auditLogRecord {agentId targetId : UInt32} {cap : UInt64} {action : AuditAction} :
    (rt.auditLogRecord agentId targetId cap action).view = rt.view := by
  unfold auditLogRecord
  split
  · rfl
  · exact view_modifySlot_quiet fun _ => AgentSlot.view_audit

theorem view_fluxAgentHasCap {cap : UInt64} : (rt.fluxAgentHasCap id cap).2.view = rt.view := by
  unfold fluxAgentHasCap
  split
  · rfl
  split
  · rfl
  split
  · rfl
  · exact view_auditLogRecord

/-- Only the capability bits of agents change. -/
def CapsChanged (V V' : AgentView) : Prop := ∃ c, V' = V.withCapabilities c

theorem CapsChanged.refl {V : AgentView} : CapsChanged V V := ⟨fun k => (V.slots k).capabilities, rfl⟩

theorem CapsChanged.trans {V V' V'' : AgentView} (h : CapsChanged V V') (h' : CapsChanged V' V'') :
    CapsChanged V V'' := by
  obtain ⟨c, rfl⟩ := h
  obtain ⟨c', rfl⟩ := h'
  exact ⟨c', rfl⟩

theorem modifyCaps_changed {f : UInt64 → UInt64} : CapsChanged rt.view (rt.modifyCaps i f).view := by
  have h : (rt.modifyCaps i f).view = rt.view.modify i fun slot =>
      { slot with capabilities := f slot.capabilities } := by
    unfold modifyCaps modifyDesc
    apply view_modifySlot
    intro slot
    rfl
  refine ⟨Function.update (fun k => (rt.view.slots k).capabilities) i (f (rt.view.slots i).capabilities), ?_⟩
  rw [h, AgentView.modify, AgentView.withCapabilities]
  congr 1
  funext k
  by_cases hk : k = i
  · subst hk
    simp
  · simp [hk]

theorem fluxAgentGrantCap_changed {cap : UInt64} : CapsChanged rt.view (rt.fluxAgentGrantCap id cap).2.view := by
  unfold fluxAgentGrantCap
  split
  · exact .refl
  split
  · exact .refl
  split
  · exact .refl
  · rw [view_auditLogRecord]
    exact modifyCaps_changed

theorem fluxAgentRevokeCap_changed {cap : UInt64} :
    CapsChanged rt.view (rt.fluxAgentRevokeCap id cap).2.view := by
  unfold fluxAgentRevokeCap
  split
  · exact .refl
  split
  · exact .refl
  split
  · exact .refl
  split
  · exact .refl
  · rw [view_auditLogRecord]
    exact modifyCaps_changed

theorem fluxAgentTransferCap_changed {source target : UInt32} {cap : UInt64} :
    CapsChanged rt.view (rt.fluxAgentTransferCap source target cap).2.view := by
  unfold fluxAgentTransferCap
  split
  · exact .refl
  split
  · exact .refl
  split
  · exact .refl
  split
  · exact .refl
  · exact .refl
  split_ifs
  · exact .refl
  · exact .refl
  · exact .refl
  · rw [view_auditLogRecord, view_auditLogRecord]
    exact modifyCaps_changed.trans modifyCaps_changed

theorem fluxAgentInheritCaps_changed {parent child : UInt32} :
    CapsChanged rt.view (rt.fluxAgentInheritCaps parent child).2.view := by
  unfold fluxAgentInheritCaps
  split
  · exact .refl
  split
  · exact .refl
  · exact .refl
  · rw [view_auditLogRecord, view_auditLogRecord]
    exact modifyCaps_changed

/-! ## Registries -/

/-- Only the registries and the capability lists of agents change. -/
def RegistryChanged (V V' : AgentView) : Prop :=
  ∃ topics pubCaps numPubCaps caps, V' = V.withRegistry topics pubCaps numPubCaps caps

theorem RegistryChanged.refl {V : AgentView} : RegistryChanged V V :=
  ⟨V.topics, V.pubCaps, V.numPubCaps, fun k => (V.slots k).caps, rfl⟩

theorem RegistryChanged.trans {V V' V'' : AgentView} (h : RegistryChanged V V')
    (h' : RegistryChanged V' V'') : RegistryChanged V V'' := by
  obtain ⟨topics, pubCaps, numPubCaps, caps, rfl⟩ := h
  obtain ⟨topics', pubCaps', numPubCaps', caps', rfl⟩ := h'
  exact ⟨topics', pubCaps', numPubCaps', caps', rfl⟩

theorem modifySubscribers_changed {k : Nat} {f : List UInt32 → List UInt32} :
    RegistryChanged rt.view (rt.modifySubscribers k f).view :=
  ⟨_, rt.pubCaps, rt.numPubCaps, fun k => (rt.view.slots k).caps, rfl⟩

theorem modifyPubCap_changed {k : Fin fluxPubCapsMax} {f : PublishedCap → PublishedCap} :
    RegistryChanged rt.view (rt.modifyPubCap k f).view :=
  ⟨rt.topics, _, rt.numPubCaps, fun k => (rt.view.slots k).caps, rfl⟩

theorem addPubCap_changed {k : Fin fluxPubCapsMax} {entry : PublishedCap} :
    RegistryChanged rt.view (rt.addPubCap k entry).view :=
  ⟨rt.topics, _, _, fun k => (rt.view.slots k).caps, rfl⟩

theorem modifyCapList_changed {f : List CapDesc → List CapDesc} :
    RegistryChanged rt.view (rt.modifyCapList i f).view := by
  have h : (rt.modifyCapList i f).view = rt.view.modify i fun slot =>
      { slot with caps := f slot.caps } := by
    unfold modifyCapList modifyDesc
    apply view_modifySlot
    intro slot
    rfl
  refine ⟨rt.topics, rt.pubCaps, rt.numPubCaps,
    Function.update (fun k => (rt.view.slots k).caps) i (f (rt.view.slots i).caps), ?_⟩
  rw [h, AgentView.modify, AgentView.withRegistry]
  congr 1
  funext k
  by_cases hk : k = i
  · subst hk
    simp
  · simp [hk]

theorem findOrCreateTopic_changed {name : CString} :
    RegistryChanged rt.view (rt.findOrCreateTopic name).2.view := by
  unfold findOrCreateTopic
  split
  · exact .refl
  split
  · exact .refl
  split_ifs
  · exact .refl
  · exact ⟨_, rt.pubCaps, rt.numPubCaps, fun k => (rt.view.slots k).caps, rfl⟩

theorem fluxAgentSubscribe_changed {topic : CString} :
    RegistryChanged rt.view (rt.fluxAgentSubscribe id topic).2.view := by
  unfold fluxAgentSubscribe
  split
  · exact .refl
  split
  · exact .refl
  split
  · exact .refl
  have hcreate : RegistryChanged rt.view (rt.findOrCreateTopic topic).2.view := findOrCreateTopic_changed
  generalize rt.findOrCreateTopic topic = r at hcreate
  obtain ⟨k, rt'⟩ := r
  cases k with
  | none => exact hcreate
  | some k =>
    simp only
    split_ifs
    · exact hcreate
    · exact hcreate
    · exact hcreate.trans modifySubscribers_changed

theorem fluxAgentUnsubscribe_changed {topic : CString} :
    RegistryChanged rt.view (rt.fluxAgentUnsubscribe id topic).2.view := by
  unfold fluxAgentUnsubscribe
  split
  · exact .refl
  split
  · exact .refl
  split
  · exact .refl
  split_ifs
  · exact modifySubscribers_changed
  · exact .refl

theorem fluxAgentPublishCap_changed {name : CString} {description : Option CString} :
    RegistryChanged rt.view (rt.fluxAgentPublishCap id name description).2.view := by
  unfold fluxAgentPublishCap
  split
  · exact .refl
  split
  · exact .refl
  split
  · exact .refl
  split
  · split_ifs
    · cases description with
      | none => exact .refl
      | some text => exact modifyPubCap_changed
    · exact .refl
  split
  · exact .refl
  split
  · exact .refl
  · simp only
    exact addPubCap_changed.trans modifyCapList_changed

theorem fluxAgentUnpublishCap_changed {name : CString} :
    RegistryChanged rt.view (rt.fluxAgentUnpublishCap id name).2.view := by
  unfold fluxAgentUnpublishCap
  split
  · exact .refl
  split
  · exact .refl
  split
  · exact .refl
  split_ifs
  · exact .refl
  simp only
  split
  · exact modifyPubCap_changed
  · exact modifyPubCap_changed.trans modifyCapList_changed

end AgentRuntime

end FluxOs
