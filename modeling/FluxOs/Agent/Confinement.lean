import FluxOs.Agent.CapabilityEffects

/-!
# Capability confinement

Without grants, inheritance and new agents, capability bits only move from one agent to another or are lost.
`SUPERVISOR` does not move.
-/

namespace FluxOs

open Actions Masks AgentRuntime

/-! ## The actions -/

namespace AgentAction

/-- The messages, the transfers and revocations, and the queries. -/
def Confined (a : AgentAction) : Prop :=
  a.kind = .mail ∨
    match a with
    | .transfer .. | .revoke .. | .hasCap .. => True
    | _ => False

/-- The operation returns an error, or the answer no. -/
def Fails (a : AgentAction) (rt : AgentRuntime) : Prop :=
  match a with
  | .transfer source target cap => (rt.fluxAgentTransferCap source target cap).1 ≠ .ok
  | .revoke id cap => (rt.fluxAgentRevokeCap id cap).1 ≠ .ok
  | .hasCap id cap => (rt.fluxAgentHasCap id cap).1 = false
  | .send mem sender target type payload =>
    ∃ status, (rt.fluxA2aSend mem sender target type payload).1 = .error status
  | .recv id timeout => ∃ status msg, (rt.fluxA2aRecv id timeout).1 = .done status msg ∧ status ≠ .ok
  | .recvRound r => ∃ status msg, (rt.recvRound r).1 = .done status msg ∧ status ≠ .ok
  | .broadcast mem sender topic payload => (rt.fluxA2aBroadcast mem sender topic payload).1 ≠ .ok
  | .reply mem original payload => (rt.fluxA2aReply mem original payload).1 ≠ .ok
  | .delegate mem source target task => ∃ status, (rt.fluxA2aDelegate mem source target task).1 = .error status
  | .delegateResult mem worker id result => (rt.fluxA2aDelegateResult mem worker id result).1 ≠ .ok
  | _ => False

theorem Confined.kind_ne {a : AgentAction} (h : a.Confined) : a.kind ≠ .lifecycle := by
  rcases h with h | h
  · rw [h]
    decide
  · cases a
    case transfer | revoke | hasCap => simp [kind]
    all_goals exact h.elim

end AgentAction

namespace AgentRuntime

variable {rt rt' : AgentRuntime} {i j k : AgentIdx} {cap : UInt64} {source target id : UInt32}

/-- The slots of active agents. -/
def activeSlots (rt : AgentRuntime) : List AgentIdx :=
  (List.finRange fluxAgentMax).filter fun i => (rt.agents i).active

/-- The capability bits that active agents hold together. -/
def heldCaps (rt : AgentRuntime) : UInt64 := union rt.activeSlots rt.capState.masks

/-- Exactly the bits `cap` are taken from the source, which holds them, and given to the target. -/
structure TransfersExactly (rt rt' : AgentRuntime) (source target : UInt32) (cap : UInt64) : Prop where
  held : ∀ k, source = agentIdOf k → Within cap (rt.capState.masks k)
  masks : ∀ k, rt'.capState.masks k =
    if source = agentIdOf k then rt.capState.masks k &&& ~~~cap
    else if target = agentIdOf k then rt.capState.masks k ||| cap
    else rt.capState.masks k

theorem mem_activeSlots : i ∈ rt.activeSlots ↔ (rt.agents i).active = true := by
  rw [activeSlots, List.mem_filter]
  exact and_iff_right (List.mem_finRange i)

theorem mem_activeSlots_of_slotById (h : rt.agentSlotById id = some i) : i ∈ rt.activeSlots :=
  mem_activeSlots.2 (agentSlotById_eq_some.1 h).2

/-! ## Transfers -/

/-- A transfer that succeeds moves exactly the named bits. -/
theorem transfersExactly_of_ok (h : (rt.fluxAgentTransferCap source target cap).1 = .ok) :
    rt.TransfersExactly (rt.fluxAgentTransferCap source target cap).2 source target cap := by
  have hperforms : rt.Performs cap (rt.transferEffect source target cap)
      (rt.fluxAgentTransferCap source target cap) := fluxAgentTransferCap_performs
  have hstate := congrArg CapState.masks hperforms.capState
  cases heffect : rt.transferEffect source target cap with
  | none =>
    rw [heffect] at hperforms hstate
    obtain ⟨-, hcap⟩ : rt.initialized = true ∧ cap = fluxCapNone := (hperforms.ok.1 h).resolve_left (by simp)
    subst hcap
    refine ⟨fun k _ => within_iff.2 fun n hn => ?_, fun k => ?_⟩
    · rw [fluxCapNone, hasBit_zero] at hn
      exact absurd hn Bool.false_ne_true
    · have hsame : (rt.fluxAgentTransferCap source target fluxCapNone).2.capState.masks k = rt.capState.masks k :=
        congrFun hstate k
      rw [hsame]
      split_ifs <;> exact eq_of_hasBit fun n => by simp [fluxCapNone]
  | some e =>
    obtain ⟨i, j, rfl, hi, hj, hne, hwithin, -⟩ := transferEffect_eq_some heffect
    rw [heffect] at hstate
    have hmoved : (rt.fluxAgentTransferCap source target cap).2.capState.masks = moved rt.capState.masks i j cap :=
      hstate.trans (CapState.masks_perform ..)
    rw [(agentSlotById_eq_some.1 hi).1, (agentSlotById_eq_some.1 hj).1] at *
    refine ⟨fun k hk => ?_, fun k => ?_⟩
    · rw [agentIdOf_inj] at hk
      rwa [← hk]
    · simp only [hmoved, agentIdOf_inj]
      by_cases hki : i = k
      · subst hki
        rw [if_pos rfl, moved_source hne]
      rw [if_neg hki]
      by_cases hkj : j = k
      · subst hkj
        rw [if_pos rfl, moved_target hne]
      · rw [if_neg hkj, moved_of_ne (Ne.symm hki) (Ne.symm hkj)]

end AgentRuntime

/-! ## One action -/

namespace AgentSystem

variable {s t : AgentSystem} {a : AgentAction}

/-- What a confined action does to the bits: nothing, or bits are revoked, or they are moved. -/
theorem step_masks (h : step a s = some t) (ha : a.Confined) :
    t.rt.capState.masks = s.rt.capState.masks ∨
    (∃ i cap, t.rt.capState.masks =
      Function.update s.rt.capState.masks i (s.rt.capState.masks i &&& ~~~cap)) ∨
    ∃ i j cap, i ∈ s.rt.activeSlots ∧ i ≠ j ∧ Within cap (s.rt.capState.masks i) ∧
      cap &&& fluxCapSupervisor = 0 ∧ t.rt.capState.masks = moved s.rt.capState.masks i j cap := by
  rcases ha with hmail | ha
  · exact .inl (step_masks_of_mail h hmail)
  have hstate (hkind : a.kind = .capabilities) := congrArg CapState.masks (step_capState h hkind)
  cases a
  case transfer source target cap =>
    specialize hstate rfl
    cases heffect : s.rt.transferEffect source target cap with
    | none =>
      rw [AgentAction.effect?, heffect] at hstate
      exact .inl hstate
    | some e =>
      obtain ⟨i, j, rfl, hi, -, hne, hwithin, hsup⟩ := transferEffect_eq_some heffect
      rw [AgentAction.effect?, heffect] at hstate
      exact .inr (.inr ⟨i, j, cap, mem_activeSlots_of_slotById hi, hne, hwithin, hsup,
        hstate.trans (CapState.masks_perform ..)⟩)
  case revoke id cap =>
    specialize hstate rfl
    cases heffect : s.rt.effectOn id cap (.revoke · cap) with
    | none =>
      rw [AgentAction.effect?, heffect] at hstate
      exact .inl hstate
    | some e =>
      obtain ⟨i, rfl⟩ := effectOn_eq_some heffect
      rw [AgentAction.effect?, heffect] at hstate
      exact .inr (.inl ⟨i, cap, hstate.trans (CapState.masks_perform ..)⟩)
  case hasCap id cap =>
    cases h
    exact .inl masks_fluxAgentHasCap
  all_goals exact ha.elim

theorem step_heldCaps (h : step a s = some t) (ha : a.Confined) : Within t.rt.heldCaps s.rt.heldCaps := by
  have hslots : t.rt.activeSlots = s.rt.activeSlots := by
    unfold activeSlots
    refine List.filter_congr fun i _ => ?_
    exact step_active h ha.kind_ne i
  unfold heldCaps
  rw [hslots]
  obtain hsame | ⟨i, cap, hrevoked⟩ | ⟨i, j, cap, hi, hne, hwithin, -, hmoved⟩ := step_masks h ha
  · rw [hsame]
    exact .refl
  · rw [hrevoked]
    exact union_update_within
  · rw [hmoved]
    exact union_moved_within hwithin hne hi

theorem step_supervisor (h : step a s = some t) (ha : a.Confined) (i : AgentIdx) :
    Within (t.rt.capState.masks i &&& fluxCapSupervisor) (s.rt.capState.masks i) := by
  refine within_iff.2 fun n hn => ?_
  rw [hasBit_and, Bool.and_eq_true] at hn
  obtain hsame | ⟨j, cap, hrevoked⟩ | ⟨j, k, cap, -, hne, hwithin, hsup, hmoved⟩ := step_masks h ha
  · rw [← hsame]
    exact hn.1
  · rw [hrevoked] at hn
    by_cases hij : i = j
    · subst hij
      rw [Function.update_self] at hn
      exact within_iff.1 within_and_not n hn.1
    · rw [Function.update_of_ne hij] at hn
      exact hn.1
  · rw [hmoved] at hn
    rcases hasBit_of_moved hwithin hne hn.1 with hold | ⟨hcap, -⟩
    · exact hold
    · have hboth : hasBit (cap &&& fluxCapSupervisor) n = true := by
        rw [hasBit_and, hcap, hn.2]
        rfl
      rw [hsup, hasBit_zero] at hboth
      exact absurd hboth Bool.false_ne_true

/-- An operation that fails changes no bits. -/
theorem step_masks_of_fails (h : step a s = some t) (ha : a.Confined) (hfails : a.Fails s.rt) :
    t.rt.capState.masks = s.rt.capState.masks := by
  rcases ha with hmail | ha
  · exact step_masks_of_mail h hmail
  have hperformed {cap : UInt64} {e : Option CapEffect} {r : FluxStatus × AgentRuntime}
      (hr : s.rt.Performs cap e r) (hstatus : r.1 ≠ .ok) : r.2.capState.masks = s.rt.capState.masks := by
    rw [hr.capState]
    cases e with
    | none => rfl
    | some e => exact absurd (hr.ok.2 (.inl rfl)) hstatus
  cases a
  case transfer =>
    cases h
    exact hperformed fluxAgentTransferCap_performs hfails
  case revoke =>
    cases h
    exact hperformed fluxAgentRevokeCap_performs hfails
  case hasCap id cap =>
    cases h
    exact masks_fluxAgentHasCap
  all_goals exact ha.elim

end AgentSystem

/-! ## Runs -/

/-- Along a run without grants, inheritance and new agents, the bits that active agents hold together never
grow, and no agent comes to hold `SUPERVISOR`; a transfer that succeeds moves exactly the named bits, and an
operation that fails changes no bits. -/
theorem capabilities_confined {s t : AgentSystem}
    (h : Reaches AgentSystem.step (fun a _ => a.Confined) s t) :
    Within t.rt.heldCaps s.rt.heldCaps ∧
    (∀ i, t.rt.capState.masks i &&& fluxCapSupervisor ≠ 0 → s.rt.capState.masks i &&& fluxCapSupervisor ≠ 0) ∧
    (∀ source target cap, (t.rt.fluxAgentTransferCap source target cap).1 = .ok →
      t.rt.TransfersExactly (t.rt.fluxAgentTransferCap source target cap).2 source target cap) ∧
    (∀ a u, a.Confined → a.Fails t.rt → AgentSystem.step a t = some u →
      u.rt.capState.masks = t.rt.capState.masks) := by
  refine ⟨?_, fun i hi hzero => ?_, fun source target cap => transfersExactly_of_ok,
    fun a u ha hfails hstep => AgentSystem.step_masks_of_fails hstep ha hfails⟩
  · exact Reaches.invariant (I := fun u => Within u.rt.heldCaps s.rt.heldCaps) h
      (fun a u v ha hu hstep => (AgentSystem.step_heldCaps hstep ha).trans hu) .refl
  · refine hi (Reaches.invariant (I := fun u => u.rt.capState.masks i &&& fluxCapSupervisor = 0) h
      (fun a u v ha hu hstep => ?_) hzero)
    refine eq_of_hasBit fun n => ?_
    rw [hasBit_zero, Bool.eq_false_iff]
    intro hbit
    have hold : hasBit (u.rt.capState.masks i &&& fluxCapSupervisor) n = true := by
      rw [hasBit_and, Bool.and_eq_true]
      refine ⟨within_iff.1 (AgentSystem.step_supervisor hstep ha i) n hbit, ?_⟩
      rw [hasBit_and, Bool.and_eq_true] at hbit
      exact hbit.2
    rw [hu, hasBit_zero] at hold
    exact absurd hold Bool.false_ne_true

/-- An agent that holds all bits is asked for them, and cannot give them away because `SUPERVISOR` is one. -/
theorem capabilities_confined_all :
    Within ((((fluxAgentInit none).withBare fluxCapAll).withBare 0).fluxAgentTransferCap (agentIdOf 1)
        (agentIdOf 2) fluxCapAll).2.heldCaps
      (((fluxAgentInit none).withBare fluxCapAll).withBare 0).heldCaps := by
  have hrefl : Reaches AgentSystem.step (fun a _ => a.Confined)
      ⟨((fluxAgentInit none).withBare fluxCapAll).withBare 0, []⟩ _ := Reaches.refl _
  have hrun := hrefl.tail (a := .transfer (agentIdOf 1) (agentIdOf 2) fluxCapAll) (.inr trivial) rfl
  obtain ⟨hheld, -⟩ := capabilities_confined hrun
  simpa only [AgentSystem.withRt] using hheld

end FluxOs
