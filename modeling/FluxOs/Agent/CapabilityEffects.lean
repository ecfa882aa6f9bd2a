import FluxOs.Agent.Changes
import FluxOs.Lib.Masks

/-!
# What the capability functions do

A call of a capability function is refused, or it has an effect on the capability bits and the audit logs of
the agents.  `CapState` holds these two, and `AgentAction.effect?` is the effect of a call.
-/

namespace FluxOs

open Actions Masks AgentRuntime

/-! ## Effects -/

/-- The audit log of an agent. -/
structure AuditTrail where
  log : Fin fluxAuditLogSize → AuditEntry
  count : Nat

/-- Write an entry: one for the same action as the last one only renews its time. -/
def AuditTrail.note (trail : AuditTrail) (e : AuditEntry) : AuditTrail :=
  let last := AgentSlot.auditIndex (trail.count - 1)
  let entry := trail.log last
  if trail.count > 0 ∧ entry.cap = e.cap ∧ entry.action = e.action ∧ entry.targetId = e.targetId then
    { trail with log := Function.update trail.log last { entry with timestamp := e.timestamp } }
  else
    ⟨Function.update trail.log (AgentSlot.auditIndex trail.count) e, trail.count + 1⟩

/-- The capability bits and the audit logs of the agents. -/
structure CapState where
  masks : AgentIdx → UInt64
  trails : AgentIdx → AuditTrail

/-- The effect of a call. -/
inductive CapEffect
  | grant (i : AgentIdx) (cap : UInt64)
  | revoke (i : AgentIdx) (cap : UInt64)
  | check (i : AgentIdx) (cap : UInt64)
  | transfer (i j : AgentIdx) (cap : UInt64)
  | inherit (i j : AgentIdx)

namespace CapEffect

/-- The capability bits after the call. -/
def masks : CapEffect → (AgentIdx → UInt64) → AgentIdx → UInt64
  | grant i cap, c => Function.update c i (c i ||| cap)
  | revoke i cap, c => Function.update c i (c i &&& ~~~cap)
  | check .., c => c
  | transfer i j cap, c => moved c i j cap
  | inherit i j, c => Function.update c j (c i)

/-- The entries that the call writes, with the agents in whose logs they are written. -/
def entries (now : UInt64) (c : AgentIdx → UInt64) : CapEffect → List (AgentIdx × AuditEntry)
  | grant i cap => [(i, ⟨now, agentIdOf i, 0, cap, .grant⟩)]
  | revoke i cap => [(i, ⟨now, agentIdOf i, 0, cap, .revoke⟩)]
  | check i cap => [(i, ⟨now, agentIdOf i, 0, cap, .check⟩)]
  | transfer i j cap =>
    [(i, ⟨now, agentIdOf i, agentIdOf j, cap, .transfer⟩), (j, ⟨now, agentIdOf j, agentIdOf i, cap, .transfer⟩)]
  | inherit i j =>
    [(i, ⟨now, agentIdOf i, agentIdOf j, c i, .grant⟩), (j, ⟨now, agentIdOf j, agentIdOf i, c i, .check⟩)]

end CapEffect

namespace CapState

variable (C : CapState)

/-- Write an entry in the log of an agent. -/
def note (r : AgentIdx × AuditEntry) : CapState :=
  { C with trails := Function.update C.trails r.1 ((C.trails r.1).note r.2) }

/-- The state after a call with the effect. -/
def perform (now : UInt64) (e : CapEffect) : CapState :=
  (e.entries now C.masks).foldl note { C with masks := e.masks C.masks }

theorem masks_foldl_note (l : List (AgentIdx × AuditEntry)) : (l.foldl note C).masks = C.masks := by
  induction l generalizing C with
  | nil => rfl
  | cons r l ih => exact ih (C.note r)

theorem masks_perform (now : UInt64) (e : CapEffect) : (C.perform now e).masks = e.masks C.masks :=
  masks_foldl_note _ _

/-- The state after a call that may have no effect. -/
def performed (now : UInt64) : Option CapEffect → CapState
  | some e => C.perform now e
  | none => C

end CapState

/-! ## The effect of a call -/

def AgentSlot.trail (slot : AgentSlot) : AuditTrail := ⟨slot.auditLog, slot.auditCount⟩

namespace AgentRuntime

variable (rt : AgentRuntime)

/-- The capability bits and the audit logs. -/
def capState : CapState := ⟨fun i => (rt.agents i).desc.capabilities, fun i => (rt.agents i).trail⟩

/-- A call about the bits `cap` of one agent. -/
def effectOn (id : UInt32) (cap : UInt64) (e : AgentIdx → CapEffect) : Option CapEffect :=
  if !rt.initialized ∨ cap = fluxCapNone then none else (rt.agentSlotById id).map e

/-- A transfer moves bits that the source holds to another agent, but never `SUPERVISOR`. -/
def transferEffect (source target : UInt32) (cap : UInt64) : Option CapEffect :=
  if !rt.initialized ∨ cap = fluxCapNone ∨ cap &&& fluxCapSupervisor ≠ 0 ∨ source = target then none
  else
    match rt.agentSlotById source, rt.agentSlotById target with
    | some i, some j => if Within cap (rt.capState.masks i) then some (.transfer i j cap) else none
    | _, _ => none

def inheritEffect (parent child : UInt32) : Option CapEffect :=
  if !rt.initialized then none
  else
    match rt.agentSlotById parent, rt.agentSlotById child with
    | some i, some j => some (.inherit i j)
    | _, _ => none

end AgentRuntime

/-- The effect of a call of a capability function, if it is not refused. -/
def AgentAction.effect? (rt : AgentRuntime) : AgentAction → Option CapEffect
  | .grant id cap => rt.effectOn id cap (.grant · cap)
  | .revoke id cap => rt.effectOn id cap (.revoke · cap)
  | .hasCap id cap => rt.effectOn id cap (.check · cap)
  | .transfer source target cap => rt.transferEffect source target cap
  | .inherit parent child => rt.inheritEffect parent child
  | _ => none

/-! ## The functions have these effects -/

namespace AgentSlot

theorem trail_audit {slot : AgentSlot} {now : UInt64} {agentId targetId : UInt32} {cap : UInt64}
    {action : AuditAction} :
    (slot.audit now agentId targetId cap action).trail = slot.trail.note ⟨now, agentId, targetId, cap, action⟩ := by
  unfold audit AuditTrail.note trail
  simp only
  split_ifs <;> rfl

theorem capabilities_audit {slot : AgentSlot} {now : UInt64} {agentId targetId : UInt32} {cap : UInt64}
    {action : AuditAction} :
    (slot.audit now agentId targetId cap action).desc.capabilities = slot.desc.capabilities :=
  congrArg SlotView.capabilities AgentRuntime.AgentSlot.view_audit

end AgentSlot

namespace AgentRuntime

variable {rt : AgentRuntime} {i j : AgentIdx} {id : UInt32} {cap : UInt64}

theorem capState_modifySlot {f : AgentSlot → AgentSlot} : (rt.modifySlot i f).capState =
    ⟨Function.update rt.capState.masks i (f (rt.agents i)).desc.capabilities,
      Function.update rt.capState.trails i (f (rt.agents i)).trail⟩ := by
  unfold capState
  congr 1 <;> funext k
  all_goals
    by_cases hk : k = i
    · subst hk
      rw [modifySlot_self, Function.update_self]
    · rw [modifySlot_of_ne hk, Function.update_of_ne hk]

theorem capState_modifyCaps {f : UInt64 → UInt64} : (rt.modifyCaps i f).capState =
    { rt.capState with masks := Function.update rt.capState.masks i (f (rt.capState.masks i)) } := by
  rw [modifyCaps, modifyDesc, capState_modifySlot]
  congr 1
  exact Function.update_eq_self ..

theorem slotById_modifyCaps {f : UInt64 → UInt64} : (rt.modifyCaps i f).agentSlotById id = rt.agentSlotById id := by
  unfold agentSlotById
  congr 1
  funext k
  refine modifySlot_keeps (f := fun slot => { slot with desc := _ }) AgentSlot.active ?_ k
  intro slot
  rfl

/-- An entry in the log of an active agent. -/
theorem capState_auditLogRecord {target : UInt32} {action : AuditAction}
    (hid : rt.agentSlotById id = some i) :
    (rt.auditLogRecord id target cap action).capState =
      rt.capState.note (i, ⟨rt.agentNow, agentIdOf i, target, cap, action⟩) := by
  have heq : id = agentIdOf i := (agentSlotById_eq_some.1 hid).1
  rw [auditLogRecord, hid, capState_modifySlot, AgentSlot.trail_audit, AgentSlot.capabilities_audit, heq]
  congr 1
  exact Function.update_eq_self ..

theorem agentNow_auditLogRecord {target : UInt32} {action : AuditAction} :
    (rt.auditLogRecord id target cap action).agentNow = rt.agentNow := by
  unfold auditLogRecord
  split <;> rfl

theorem slotById_auditLogRecord {id' target : UInt32} {action : AuditAction} :
    (rt.auditLogRecord id target cap action).agentSlotById id' = rt.agentSlotById id' := by
  have hview : (rt.auditLogRecord id target cap action).view.slots = rt.view.slots :=
    congrArg AgentView.slots view_auditLogRecord
  unfold agentSlotById
  congr 1
  funext k
  exact congrArg SlotView.active (congrFun hview k)

/-- The ids of active agents are not reserved. -/
theorem not_le_compiler (hid : rt.agentSlotById id = some i) : ¬ id ≤ fluxAgentIdCompiler := by
  rw [(agentSlotById_eq_some.1 hid).1, UInt32.le_iff_toNat_le, toNat_agentIdOf]
  show ¬ i.val + 4 ≤ 3
  omega

/-- What a call returns and does: it succeeds where it has an effect, or where no bits are named. -/
structure Performs (rt : AgentRuntime) (cap : UInt64) (e : Option CapEffect) (r : FluxStatus × AgentRuntime) :
    Prop where
  capState : r.2.capState = rt.capState.performed rt.agentNow e
  ok : r.1 = .ok ↔ e.isSome = true ∨ rt.initialized = true ∧ cap = fluxCapNone

theorem Performs.refused {status : FluxStatus} (hstatus : status ≠ .ok)
    (hcap : ¬ (rt.initialized = true ∧ cap = fluxCapNone)) : rt.Performs cap none (status, rt) :=
  ⟨rfl, iff_of_false hstatus (by simpa using hcap)⟩

theorem Performs.nothing (hinit : rt.initialized = true) (hcap : cap = fluxCapNone) :
    rt.Performs cap none (.ok, rt) :=
  ⟨rfl, iff_of_true rfl (.inr ⟨hinit, hcap⟩)⟩

theorem Performs.done {e : CapEffect} {rt' : AgentRuntime}
    (h : rt'.capState = rt.capState.perform rt.agentNow e) : rt.Performs cap (some e) (.ok, rt') :=
  ⟨h, iff_of_true rfl (.inl rfl)⟩

/-- A call that names no bits, or comes before the runtime is set up, does nothing. -/
theorem Performs.guarded {e : Option CapEffect} {r : FluxStatus × AgentRuntime}
    (h : cap ≠ fluxCapNone → rt.Performs cap e r) :
    rt.Performs cap (if !rt.initialized ∨ cap = fluxCapNone then none else e)
      (if !rt.initialized then (.errInvalid, rt) else if cap = fluxCapNone then (.ok, rt) else r) := by
  by_cases hinit : rt.initialized = true
  swap
  · simp only [hinit, Bool.not_false, if_true, true_or]
    exact .refused (by simp) fun h => hinit h.1
  by_cases hcap : cap = fluxCapNone
  · simp only [hinit, Bool.not_true, Bool.false_eq_true, hcap, if_true, if_false, or_true]
    exact .nothing hinit rfl
  simp only [hinit, Bool.not_true, Bool.false_eq_true, hcap, if_false, or_self]
  exact h hcap

theorem fluxAgentGrantCap_performs :
    rt.Performs cap (rt.effectOn id cap (.grant · cap)) (rt.fluxAgentGrantCap id cap) := by
  unfold fluxAgentGrantCap effectOn
  refine .guarded fun hcap => ?_
  cases hid : rt.agentSlotById id with
  | none => exact .refused (by simp) fun h => hcap h.2
  | some i =>
    refine .done ?_
    rw [capState_auditLogRecord (slotById_modifyCaps.trans hid), capState_modifyCaps]
    rfl

theorem fluxAgentRevokeCap_performs :
    rt.Performs cap (rt.effectOn id cap (.revoke · cap)) (rt.fluxAgentRevokeCap id cap) := by
  unfold fluxAgentRevokeCap effectOn
  refine .guarded fun hcap => ?_
  cases hid : rt.agentSlotById id with
  | none => exact .refused (by simp) fun h => hcap h.2
  | some i =>
    simp only [if_neg (not_le_compiler hid)]
    refine .done ?_
    rw [capState_auditLogRecord (slotById_modifyCaps.trans hid), capState_modifyCaps]
    rfl

theorem capState_fluxAgentHasCap : (rt.fluxAgentHasCap id cap).2.capState =
    rt.capState.performed rt.agentNow (rt.effectOn id cap (.check · cap)) := by
  unfold fluxAgentHasCap effectOn
  by_cases hinit : rt.initialized = true
  swap
  · simp only [hinit, Bool.not_false, if_true, true_or]
    rfl
  by_cases hcap : cap = fluxCapNone
  · simp only [hinit, Bool.not_true, Bool.false_eq_true, hcap, if_true, if_false, or_true]
    rfl
  simp only [hinit, Bool.not_true, Bool.false_eq_true, hcap, if_false, or_self]
  cases hid : rt.agentSlotById id with
  | none => rfl
  | some i => exact capState_auditLogRecord hid

theorem masks_fluxAgentHasCap : (rt.fluxAgentHasCap id cap).2.capState.masks = rt.capState.masks := by
  have hview : (rt.fluxAgentHasCap id cap).2.view.slots = rt.view.slots :=
    congrArg AgentView.slots view_fluxAgentHasCap
  funext k
  exact congrArg SlotView.capabilities (congrFun hview k)

theorem fluxAgentTransferCap_performs {source target : UInt32} :
    rt.Performs cap (rt.transferEffect source target cap) (rt.fluxAgentTransferCap source target cap) := by
  unfold fluxAgentTransferCap transferEffect
  by_cases hinit : rt.initialized = true
  swap
  · simp only [hinit, Bool.not_false, if_true, true_or]
    exact .refused (by simp) fun h => hinit h.1
  by_cases hcap : cap = fluxCapNone
  · simp only [hinit, Bool.not_true, Bool.false_eq_true, hcap, if_true, if_false, true_or, or_true]
    exact .nothing hinit rfl
  have hnot : ¬ (rt.initialized = true ∧ cap = fluxCapNone) := fun h => hcap h.2
  by_cases hsup : cap &&& fluxCapSupervisor ≠ 0
  · simp only [hinit, Bool.not_true, Bool.false_eq_true, hcap, hsup, if_true, if_false, true_or, or_true, ne_eq,
      not_false_eq_true]
    exact .refused (by simp) hnot
  simp only [hinit, Bool.not_true, Bool.false_eq_true, hcap, hsup, if_false, false_or]
  cases hi : rt.agentSlotById source with
  | none =>
    simp only [ite_self]
    exact .refused (by simp) hnot
  | some i =>
    cases hj : rt.agentSlotById target with
    | none =>
      simp only [ite_self]
      exact .refused (by simp) hnot
    | some j =>
      simp only
      by_cases heq : source = target
      · rw [if_pos heq, if_pos heq]
        exact .refused (by simp) hnot
      rw [if_neg heq, if_neg heq]
      by_cases hheld : (rt.agents i).desc.capabilities &&& cap = cap
      · have hwithin : Within cap (rt.capState.masks i) := (UInt64.and_comm ..).trans hheld
        rw [if_neg (not_not.2 hheld), if_neg (not_le_compiler hi), if_pos hwithin]
        refine .done ?_
        have hj' : (((rt.modifyCaps i fun c => c &&& ~~~cap).modifyCaps j fun c => c ||| cap).auditLogRecord
            source target cap .transfer).agentSlotById target = some j := by
          rw [slotById_auditLogRecord, slotById_modifyCaps, slotById_modifyCaps, hj]
        have hi' : ((rt.modifyCaps i fun c => c &&& ~~~cap).modifyCaps j fun c => c ||| cap).agentSlotById
            source = some i := by
          rw [slotById_modifyCaps, slotById_modifyCaps, hi]
        rw [capState_auditLogRecord hj', capState_auditLogRecord hi', capState_modifyCaps, capState_modifyCaps,
          agentNow_auditLogRecord, (agentSlotById_eq_some.1 hi).1, (agentSlotById_eq_some.1 hj).1]
        rfl
      · have hwithin : ¬ Within cap (rt.capState.masks i) := fun h => hheld ((UInt64.and_comm ..).trans h)
        rw [if_pos hheld, if_neg hwithin]
        exact .refused (by simp) hnot

theorem capState_fluxAgentInheritCaps {parent child : UInt32} :
    (rt.fluxAgentInheritCaps parent child).2.capState =
      rt.capState.performed rt.agentNow (rt.inheritEffect parent child) := by
  unfold fluxAgentInheritCaps inheritEffect
  by_cases hinit : (!rt.initialized) = true
  · rw [if_pos hinit, if_pos hinit]
    rfl
  rw [if_neg hinit, if_neg hinit]
  cases hi : rt.agentSlotById parent with
  | none => rfl
  | some i =>
    cases hj : rt.agentSlotById child with
    | none => rfl
    | some j =>
      simp only
      generalize hcaps : (rt.agents i).desc.capabilities = caps
      have hi' : (rt.modifyCaps j fun _ => caps).agentSlotById parent = some i := slotById_modifyCaps.trans hi
      have hj' : ((rt.modifyCaps j fun _ => caps).auditLogRecord parent child caps .grant).agentSlotById child =
          some j := by
        rw [slotById_auditLogRecord, slotById_modifyCaps, hj]
      rw [capState_auditLogRecord hj', capState_auditLogRecord hi', capState_modifyCaps, agentNow_auditLogRecord,
        (agentSlotById_eq_some.1 hi).1, (agentSlotById_eq_some.1 hj).1, ← hcaps]
      rfl

/-! ## When calls have effects -/

variable {source target : UInt32}

theorem effectOn_eq_some {e : AgentIdx → CapEffect} {f : CapEffect} (h : rt.effectOn id cap e = some f) :
    ∃ i, f = e i := by
  unfold effectOn at h
  split at h
  · cases h
  · obtain ⟨i, -, heq⟩ := Option.map_eq_some_iff.1 h
    exact ⟨i, heq.symm⟩

theorem transferEffect_eq_some {e : CapEffect} (h : rt.transferEffect source target cap = some e) :
    ∃ i j, e = .transfer i j cap ∧ rt.agentSlotById source = some i ∧ rt.agentSlotById target = some j ∧
      i ≠ j ∧ Within cap (rt.capState.masks i) ∧ cap &&& fluxCapSupervisor = 0 := by
  unfold transferEffect at h
  split at h
  · cases h
  rename_i hcond
  split at h
  · rename_i i j hi hj
    split_ifs at h with hwithin
    cases h
    refine ⟨i, j, rfl, hi, hj, ?_, hwithin, ?_⟩
    · rintro rfl
      exact hcond (.inr (.inr (.inr ((agentSlotById_eq_some.1 hi).1.trans (agentSlotById_eq_some.1 hj).1.symm))))
    · by_contra hsup
      exact hcond (.inr (.inr (.inl hsup)))
  · cases h

theorem inheritEffect_eq_some {parent child : UInt32} {e : CapEffect}
    (h : rt.inheritEffect parent child = some e) : ∃ i j, e = .inherit i j := by
  unfold inheritEffect at h
  split_ifs at h
  split at h
  · rename_i i j _ _
    cases h
    exact ⟨i, j, rfl⟩
  · cases h

end AgentRuntime

/-! ## Actions -/

namespace AgentSystem

variable {s t : AgentSystem} {a : AgentAction}

/-- A call of a capability function has its effect on the bits and the logs. -/
theorem step_capState (h : step a s = some t) (hkind : a.kind = .capabilities) :
    t.rt.capState = s.rt.capState.performed s.rt.agentNow (a.effect? s.rt) := by
  cases a with
  | grant => cases h; exact fluxAgentGrantCap_performs.capState
  | revoke => cases h; exact fluxAgentRevokeCap_performs.capState
  | hasCap => cases h; exact capState_fluxAgentHasCap
  | transfer => cases h; exact fluxAgentTransferCap_performs.capState
  | inherit => cases h; exact capState_fluxAgentInheritCaps
  | _ => exact absurd hkind (by simp [AgentAction.kind])

/-- Messages change no capability bits. -/
theorem step_masks_of_mail (h : step a s = some t) (hkind : a.kind = .mail) :
    t.rt.capState.masks = s.rt.capState.masks := by
  funext i
  refine step_keeps (g := fun V => (V.slots i).capabilities) h fun V V' hchange => ?_
  rw [hkind] at hchange
  exact hchange.mail_keeps (g := SlotView.capabilities) (fun _ _ _ => rfl) i

/-- Only spawning and terminating changes who is active. -/
theorem step_active (h : step a s = some t) (hkind : a.kind ≠ .lifecycle) (i : AgentIdx) :
    (t.rt.agents i).active = (s.rt.agents i).active := (step_changes h).active_eq hkind i

end AgentSystem

end FluxOs
