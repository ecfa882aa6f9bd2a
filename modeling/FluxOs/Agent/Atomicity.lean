import FluxOs.Agent.AgentIds
import FluxOs.Agent.MessagePool

/-!
# Failed messages

The functions that send one message of an agent change nothing if they fail, but for `flux_a2a_delegate_result`:
it marks the delegation as complete before it knows that the result can be delivered.
-/

namespace FluxOs

open Actions AgentRuntime AgentView

/-! ## Calls -/

/-- A call that sends one message. -/
inductive A2aCall
  | send (mem : Bool) (sender target : UInt32) (type : A2aType) (payload : List UInt8)
  | reply (mem : Bool) (original : A2aMsg) (payload : List UInt8)
  | delegate (mem : Bool) (source target : UInt32) (task : List UInt8)
  | delegateResult (mem : Bool) (worker id : UInt32) (result : List UInt8)

/-- The status of a call that returns the id of its message. -/
def statusOf : Except FluxStatus UInt32 → FluxStatus
  | .ok _ => .ok
  | .error status => status

/-- What a call returns, and the runtime that it leaves. -/
def A2aCall.run (rt : AgentRuntime) : A2aCall → FluxStatus × AgentRuntime
  | .send mem sender target type payload =>
    let r := rt.fluxA2aSend mem sender target type payload
    (statusOf r.1, r.2)
  | .reply mem original payload => rt.fluxA2aReply mem original payload
  | .delegate mem source target task =>
    let r := rt.fluxA2aDelegate mem source target task
    (statusOf r.1, r.2)
  | .delegateResult mem worker id result => rt.fluxA2aDelegateResult mem worker id result

namespace AgentRuntime

/-- Nothing differs but the counter of message ids and what lies in messages that are not allocated. -/
structure Unmoved (rt rt' : AgentRuntime) : Prop where
  rest : ∃ nextMsgId generated msgPool,
    rt' = { rt with nextMsgId, msgPool, history := { rt.history with generated } }
  allocated : ∀ ref, rt'.msgPool.Allocated ref = rt.msgPool.Allocated ref
  read : ∀ ref, rt.msgPool.Allocated ref = true → rt'.msgPool.read ref = rt.msgPool.read ref

/-- The result of a delegation that is not complete yet cannot be delivered: no message is left, or the inbox of
the delegating agent is full. -/
structure LosesResult (rt : AgentRuntime) (mem : Bool) (worker id : UInt32) (result : List UInt8) : Prop where
  initialized : rt.initialized = true
  payload : result.length ≤ fluxA2aMaxPayload
  worker : ∃ i, rt.agentSlotById worker = some i ∧ rt.holds i fluxCapCommunicate = true
  found : ∃ d k e, rt.findDelegation id = some (d, k) ∧ (rt.agents d).delegations[k]? = some e ∧ e.active = true ∧
    (rt.msgPool.freeSlot = none ∧ mem = false ∨ fluxInboxSize ≤ (rt.agents d).inbox.count)

end AgentRuntime

/-- The call is a `flux_a2a_delegate_result` that loses its result. -/
def A2aCall.Loses (rt : AgentRuntime) : A2aCall → Prop
  | .delegateResult mem worker id result => rt.LosesResult mem worker id result
  | _ => False

namespace AgentRuntime

variable {rt rt' : AgentRuntime} {mem : Bool} {i j d : AgentIdx} {fill : UInt32 → A2aMsg} {id : UInt32} {k : Nat}

theorem Unmoved.refl : Unmoved rt rt := ⟨⟨rt.nextMsgId, rt.history.generated, rt.msgPool, rfl⟩, fun _ => rfl,
  fun _ _ => rfl⟩

theorem Unmoved.agents (h : Unmoved rt rt') : rt'.agents = rt.agents := by
  obtain ⟨nextMsgId, generated, msgPool, rfl⟩ := h.rest
  rfl

/-! ## A message that cannot be posted -/

theorem MsgPool.msgPoolAlloc_none {p : MsgPool} :
    p.msgPoolAlloc mem = none ↔ p.freeSlot = none ∧ mem = false := by
  unfold MsgPool.msgPoolAlloc
  cases p.freeSlot with
  | some k => simp
  | none => cases mem <;> simp

/-- A message is posted if there is memory for it and room in the inbox. -/
theorem post_fails_iff : (rt.post mem j fill).1 ≠ .ok ↔
    (rt.msgPool.freeSlot = none ∧ mem = false) ∨ fluxInboxSize ≤ (rt.agents j).inbox.count := by
  have hposted := post_view rt mem j fill
  generalize rt.post mem j fill = r at hposted ⊢
  obtain ⟨status, id, rt'⟩ := r
  dsimp only at hposted ⊢
  rw [← MsgPool.msgPoolAlloc_none]
  generalize rt'.view = V at hposted
  cases hposted with
  | noMemory hnone => exact iff_of_true (by decide) (.inl hnone)
  | full ref pool _ hfull => exact iff_of_true (by decide) (.inr hfull)
  | accepted ref pool halloc hroom =>
    refine iff_of_false (by simp) ?_
    rintro (hnone | hfull)
    · rw [show rt.msgPool.msgPoolAlloc mem = some (ref, pool) from halloc] at hnone
      cases hnone
    · exact absurd hfull (Nat.not_le_of_lt hroom)

/-- A call that fails changes nothing. -/
def FailsUnmoved (rt : AgentRuntime) (r : FluxStatus × AgentRuntime) : Prop := r.1 ≠ .ok → rt.Unmoved r.2

theorem failsUnmoved_refused {status : FluxStatus} : rt.FailsUnmoved (status, rt) := fun _ => .refl

theorem failsUnmoved_ok : rt.FailsUnmoved (.ok, rt') := fun h => absurd rfl h

/-- A message that could not be put in the inbox was freed again. -/
theorem failsUnmoved_post (hpool : rt.msgPool.Valid) :
    rt.FailsUnmoved ((rt.post mem j fill).1, (rt.post mem j fill).2.2) := by
  cases halloc : rt.msgPool.msgPoolAlloc mem with
  | none =>
    rw [post_of_none halloc]
    exact failsUnmoved_refused
  | some r =>
    obtain ⟨ref, pool⟩ := r
    rw [post_of_alloc halloc]
    have hinbox : (rt.built ref pool fill).agents j = rt.agents j := rfl
    have hstores := MsgPool.stores_of_alloc hpool halloc (fill (drawMsgId rt.nextMsgId).1)
    have hdrops := MsgPool.drops_free hstores.valid ((hstores.allocated ref).2 (.inr rfl))
    obtain ⟨hallocated, hread⟩ := hstores.drop hdrops
    by_cases hfull : fluxInboxSize ≤ (rt.agents j).inbox.count
    · rw [inboxEnqueue, hinbox, if_pos hfull]
      refine fun _ => ⟨⟨_, _, _, rfl⟩, fun r => ?_, hread⟩
      rw [Bool.eq_iff_iff]
      exact hallocated r
    · rw [inboxEnqueue, hinbox, if_neg hfull]
      exact failsUnmoved_ok

/-! ## Calls that change nothing if they fail -/

theorem failsUnmoved_send {sender target : UInt32} {type : A2aType} {payload : List UInt8}
    (hpool : rt.msgPool.Valid) : rt.FailsUnmoved (statusOf (rt.fluxA2aSend mem sender target type payload).1,
      (rt.fluxA2aSend mem sender target type payload).2) := by
  unfold fluxA2aSend
  split
  · exact failsUnmoved_refused
  split
  · exact failsUnmoved_refused
  cases rt.agentSlotById sender with
  | none => exact failsUnmoved_refused
  | some i =>
  cases rt.agentSlotById target with
  | none => exact failsUnmoved_refused
  | some j =>
  simp only
  split
  · exact failsUnmoved_refused
  split
  · exact failsUnmoved_refused
  have hpost : rt.FailsUnmoved ((rt.post mem j (sendMsg rt.agentNow sender target type payload)).1,
      (rt.post mem j (sendMsg rt.agentNow sender target type payload)).2.2) := failsUnmoved_post hpool
  generalize rt.post mem j (sendMsg rt.agentNow sender target type payload) = r at hpost
  obtain ⟨status, id, rt'⟩ := r
  cases status
  case ok => exact failsUnmoved_ok
  all_goals exact hpost

theorem failsUnmoved_reply {original : A2aMsg} {payload : List UInt8} (hpool : rt.msgPool.Valid) :
    rt.FailsUnmoved (rt.fluxA2aReply mem original payload) := by
  unfold fluxA2aReply
  split
  · exact failsUnmoved_refused
  split
  · exact failsUnmoved_refused
  split
  · exact failsUnmoved_refused
  split
  · exact failsUnmoved_refused
  split
  · exact failsUnmoved_refused
  rename_i j _
  have hpost : rt.FailsUnmoved ((rt.post mem j (replyMsg rt.agentNow original payload)).1,
      (rt.post mem j (replyMsg rt.agentNow original payload)).2.2) := failsUnmoved_post hpool
  generalize rt.post mem j (replyMsg rt.agentNow original payload) = r at hpost
  obtain ⟨status, id, rt'⟩ := r
  cases status
  case ok => exact failsUnmoved_ok
  all_goals exact hpost

theorem failsUnmoved_delegate {source target : UInt32} {task : List UInt8} (hpool : rt.msgPool.Valid) :
    rt.FailsUnmoved (statusOf (rt.fluxA2aDelegate mem source target task).1,
      (rt.fluxA2aDelegate mem source target task).2) := by
  unfold fluxA2aDelegate
  split
  · exact failsUnmoved_refused
  split
  · exact failsUnmoved_refused
  split
  · exact failsUnmoved_refused
  split
  · exact failsUnmoved_refused
  split
  · exact failsUnmoved_refused
  rename_i j _
  split
  · exact failsUnmoved_refused
  split
  · exact failsUnmoved_refused
  have hpost : rt.FailsUnmoved ((rt.post mem j (delegateMsg rt.agentNow source target task)).1,
      (rt.post mem j (delegateMsg rt.agentNow source target task)).2.2) := failsUnmoved_post hpool
  generalize rt.post mem j (delegateMsg rt.agentNow source target task) = r at hpost
  obtain ⟨status, id, rt'⟩ := r
  cases status
  case ok => exact failsUnmoved_ok
  all_goals exact hpost

/-! ## The result of a delegation -/

/-- The search finds an entry of an active agent. -/
theorem findDelegation_some (h : rt.findDelegation id = some (d, k)) :
    (rt.agents d).active = true ∧ ∃ e, (rt.agents d).delegations[k]? = some e := by
  obtain ⟨d', -, hd⟩ := List.exists_of_findSome?_eq_some h
  split_ifs at hd with hact
  obtain ⟨k', hk, hpair⟩ := Option.map_eq_some_iff.1 hd
  obtain ⟨rfl, rfl⟩ := Prod.mk.inj hpair
  obtain ⟨hlt, -⟩ := List.findIdx?_eq_some_iff_getElem.1 hk
  exact ⟨hact, _, List.getElem?_eq_getElem hlt⟩

/-- An entry that is complete already is not changed. -/
theorem completeDelegation_of_complete {e : Delegation} (he : (rt.agents d).delegations[k]? = some e)
    (hcomplete : e.active = false) : rt.completeDelegation d k = rt := by
  have hmodify : (rt.agents d).delegations.modify k (fun e => { e with active := false }) =
      (rt.agents d).delegations := by
    apply List.ext_getElem?
    intro n
    rw [List.getElem?_modify]
    by_cases hn : k = n
    · subst hn
      simp [he, ← hcomplete]
    · simp [hn]
  unfold completeDelegation modifySlot
  dsimp only
  rw [hmodify]
  exact congrArg (fun agents => ({ rt with agents } : AgentRuntime)) (Function.update_eq_self ..)

theorem pool_completeDelegation : (rt.completeDelegation d k).msgPool = rt.msgPool := rfl

theorem inbox_completeDelegation : ((rt.completeDelegation d k).agents j).inbox = (rt.agents j).inbox := by
  apply modifySlot_keeps AgentSlot.inbox
  intro slot
  rfl

theorem failsUnmoved_delegateResult {worker : UInt32} {result : List UInt8} (hpool : rt.msgPool.Valid)
    (hnamed : rt.view.Named) (hkept : ¬rt.LosesResult mem worker id result) :
    rt.FailsUnmoved (rt.fluxA2aDelegateResult mem worker id result) := by
  unfold fluxA2aDelegateResult
  split
  · exact failsUnmoved_refused
  rename_i hinit
  split
  · exact failsUnmoved_refused
  rename_i hpayload
  cases hi : rt.agentSlotById worker with
  | none => exact failsUnmoved_refused
  | some i =>
  simp only
  split
  · exact failsUnmoved_refused
  rename_i hcap
  cases hfind : rt.findDelegation id with
  | none => exact failsUnmoved_refused
  | some found =>
  obtain ⟨d, k⟩ := found
  obtain ⟨hact, e, he⟩ := findDelegation_some hfind
  have hd : rt.agentSlotById (rt.agents d).desc.agentId = some d := agentSlotById_eq_some.2 ⟨hnamed d hact, hact⟩
  simp only [slotById_completeDelegation, hd]
  generalize hfill : resultMsg (rt.completeDelegation d k).agentNow worker (rt.agents d).desc.agentId id result =
    fill
  have hpost : rt.FailsUnmoved (((rt.completeDelegation d k).post mem d fill).1,
      ((rt.completeDelegation d k).post mem d fill).2.2) := by
    cases hactive : e.active with
    | false =>
      rw [completeDelegation_of_complete he hactive]
      exact failsUnmoved_post hpool
    | true =>
      intro hfail
      refine absurd ⟨by simpa using hinit, Nat.le_of_not_lt hpayload, ⟨i, hi, by simpa using hcap⟩,
        d, k, e, hfind, he, hactive, ?_⟩ hkept
      dsimp only at hfail
      have hlost := post_fails_iff.1 hfail
      rwa [inbox_completeDelegation, pool_completeDelegation] at hlost
  generalize (rt.completeDelegation d k).post mem d fill = r at hpost
  obtain ⟨status, msgId, rt'⟩ := r
  cases status
  case ok => exact failsUnmoved_ok
  all_goals exact hpost

/-- A result that is lost fails, and its delegation is marked as complete all the same. -/
theorem LosesResult.moves {worker : UInt32} {result : List UInt8} (hnamed : rt.view.Named)
    (h : rt.LosesResult mem worker id result) : ¬rt.FailsUnmoved (rt.fluxA2aDelegateResult mem worker id result) := by
  obtain ⟨i, hi, hcap⟩ := h.worker
  obtain ⟨d, k, e, hfind, he, hactive, hlost⟩ := h.found
  have hact := (findDelegation_some hfind).1
  have hd : rt.agentSlotById (rt.agents d).desc.agentId = some d := agentSlotById_eq_some.2 ⟨hnamed d hact, hact⟩
  have hpayload := Nat.not_lt_of_le h.payload
  simp only [fluxA2aDelegateResult, h.initialized, hpayload, hi, hcap, hfind, slotById_completeDelegation, hd,
    Bool.not_true, Bool.false_eq_true, if_false]
  generalize hfill : resultMsg (rt.completeDelegation d k).agentNow worker (rt.agents d).desc.agentId id result =
    fill
  have hfails : ((rt.completeDelegation d k).post mem d fill).1 ≠ .ok := by
    apply post_fails_iff.2
    rwa [inbox_completeDelegation, pool_completeDelegation]
  have hposted := post_view (rt.completeDelegation d k) mem d fill
  generalize (rt.completeDelegation d k).post mem d fill = r at hfails hposted
  obtain ⟨status, msgId, rt'⟩ := r
  have hmoved : ¬rt.Unmoved rt' := by
    intro hsame
    have hkept : (rt'.agents d).delegations = ((rt.completeDelegation d k).agents d).delegations :=
      hposted.keeps (g := SlotView.delegations) (fun _ _ => rfl) d
    rw [hsame.agents, completeDelegation, modifySlot_self] at hkept
    have hentry : (rt.agents d).delegations[k]? =
        ((rt.agents d).delegations.modify k fun e => { e with active := false })[k]? :=
      congrArg (fun entries => entries[k]?) hkept
    rw [List.getElem?_modify, he, Option.map_eq_map, Option.map_some, if_pos rfl, Option.some.injEq] at hentry
    rw [hentry] at hactive
    cases hactive
  cases status
  case ok => exact absurd rfl hfails
  all_goals exact fun hunmoved => hmoved (hunmoved hfails)

end AgentRuntime

/-- For every state that is reached and every call: a failure changes nothing, if and only if the call is not a
`flux_a2a_delegate_result` that loses its result. -/
theorem failed_calls_unmoved_iff {s : AgentSystem} (h : AgentSystem.Reachable (fun _ _ => True) s)
    (call : A2aCall) : ((call.run s.rt).1 ≠ .ok → s.rt.Unmoved (call.run s.rt).2) ↔ ¬call.Loses s.rt := by
  have hpool : s.rt.msgPool.Valid := (AgentSystem.mailSound_of_reachable h).pool
  have hnamed := AgentSystem.named_of_reachable h
  cases call with
  | send mem sender target type payload =>
    have hsend : s.rt.FailsUnmoved (statusOf (s.rt.fluxA2aSend mem sender target type payload).1, _) :=
      failsUnmoved_send hpool
    exact iff_of_true hsend id
  | reply mem original payload =>
    have hreply : s.rt.FailsUnmoved (s.rt.fluxA2aReply mem original payload) := failsUnmoved_reply hpool
    exact iff_of_true hreply id
  | delegate mem source target task =>
    have hdelegate : s.rt.FailsUnmoved (statusOf (s.rt.fluxA2aDelegate mem source target task).1, _) :=
      failsUnmoved_delegate hpool
    exact iff_of_true hdelegate id
  | delegateResult mem worker id result =>
    show s.rt.FailsUnmoved (s.rt.fluxA2aDelegateResult mem worker id result) ↔
      ¬s.rt.LosesResult mem worker id result
    exact ⟨fun hsame hloses => hloses.moves hnamed hsame, failsUnmoved_delegateResult hpool hnamed⟩

/-- A message to an agent that does not exist. -/
theorem failed_calls_unmoved_iff_boot :
    (((A2aCall.send true (agentIdOf 1) (agentIdOf 2) .tell []).run (AgentSystem.boot none).rt).1 ≠ .ok →
      (AgentSystem.boot none).rt.Unmoved
        ((A2aCall.send true (agentIdOf 1) (agentIdOf 2) .tell []).run (AgentSystem.boot none).rt).2) ↔
    ¬(A2aCall.send true (agentIdOf 1) (agentIdOf 2) .tell []).Loses (AgentSystem.boot none).rt :=
  failed_calls_unmoved_iff ⟨none, Reaches.refl _⟩ (.send true (agentIdOf 1) (agentIdOf 2) .tell [])

/-- Agent 1, whose id is 5, delegates a task to agent 2, whose id is 6 and which fills the inbox of agent 1. -/
def filledInbox : List AgentAction :=
  [.spawnBare fluxCapCommunicate, .spawnBare fluxCapCommunicate, .delegate true 5 6 []] ++
    List.replicate fluxInboxSize (.send true 6 5 .tell [])

/-- The result of the task cannot be delivered, but the delegation is marked as complete. -/
theorem filledInbox_loses_result : ∃ s, AgentSystem.Reachable (fun _ _ => True) s ∧
    execute AgentSystem.step filledInbox (AgentSystem.boot none) = some s ∧
    ((A2aCall.delegateResult true (agentIdOf 2) 1 []).run s.rt).1 = .errOverflow ∧
    (s.rt.agents 1).delegations = [⟨1, agentIdOf 2, true⟩] ∧
    (((A2aCall.delegateResult true (agentIdOf 2) 1 []).run s.rt).2.agents 1).delegations =
      [⟨1, agentIdOf 2, false⟩] ∧
    ¬s.rt.Unmoved ((A2aCall.delegateResult true (agentIdOf 2) 1 []).run s.rt).2 := by
  have hrun : (execute AgentSystem.step filledInbox (AgentSystem.boot none)).map (fun s =>
      (((A2aCall.delegateResult true (agentIdOf 2) 1 []).run s.rt).1, (s.rt.agents 1).delegations,
        (((A2aCall.delegateResult true (agentIdOf 2) 1 []).run s.rt).2.agents 1).delegations)) =
      some (.errOverflow, [⟨1, agentIdOf 2, true⟩], [⟨1, agentIdOf 2, false⟩]) := by decide +kernel
  obtain ⟨s, hs, heq⟩ := Option.map_eq_some_iff.1 hrun
  obtain ⟨hstatus, hrest⟩ := Prod.mk.inj heq
  obtain ⟨hbefore, hafter⟩ := Prod.mk.inj hrest
  refine ⟨s, ⟨none, reaches_of_execute hs⟩, hs, hstatus, hbefore, hafter, fun hsame => ?_⟩
  rw [hsame.agents, hbefore] at hafter
  cases hafter

end FluxOs
