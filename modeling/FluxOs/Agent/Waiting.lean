import FluxOs.Agent.Changes

/-!
# Agents that are left waiting

A receive that waits marks its agent as `WAITING` in each round, and only a message that is sent to the agent
undoes this.  So a receive leaves its agent `WAITING` unless a message was sent after the receive marked it.
-/

namespace FluxOs

open Actions AgentRuntime

/-! ## The states of agents -/

/-- The state after a receive has marked the agent. -/
def AgentState.marked (state : AgentState) : AgentState :=
  if state ≠ .terminated ∧ state ≠ .failed then .waiting else state

/-- The state after the agent was woken. -/
def AgentState.woken (state : AgentState) : AgentState := if state = .waiting then .idle else state

namespace AgentRuntime

variable {rt : AgentRuntime} {i j k : AgentIdx} {mem : Bool}

/-- The states of the agents. -/
def states (rt : AgentRuntime) (i : AgentIdx) : AgentState := (rt.agents i).desc.state

theorem states_modifySlot {f : AgentSlot → AgentSlot} (h : ∀ slot, (f slot).desc.state = slot.desc.state) :
    (rt.modifySlot i f).states = rt.states :=
  funext (modifySlot_keeps (fun slot => slot.desc.state) h)

theorem states_modifyDesc_quiet {g : AgentDesc → AgentDesc} (h : ∀ d, (g d).state = d.state) :
    (rt.modifyDesc i g).states = rt.states := states_modifySlot fun slot => h slot.desc

theorem states_noteSent {n : UInt32} : (rt.noteSent i n).states = rt.states :=
  states_modifyDesc_quiet fun _ => rfl

theorem states_noteReceived : (rt.noteReceived j).states = rt.states := states_modifyDesc_quiet fun _ => rfl

/-- A change of the state of one agent. -/
theorem states_modifyDesc {g : AgentDesc → AgentDesc} :
    (rt.modifyDesc i g).states = Function.update rt.states i (g (rt.agents i).desc).state := by
  funext k
  rw [modifyDesc]
  by_cases hk : k = i
  · subst hk
    rw [states, modifySlot_self, Function.update_self]
  · rw [states, modifySlot_of_ne hk, Function.update_of_ne hk]
    rfl

theorem states_wake : (rt.wake j).states = Function.update rt.states j (rt.states j).woken := by
  rw [wake, states_modifyDesc]
  congr 1
  show (if (rt.agents j).desc.state = .waiting then _ else _ : AgentDesc).state = _
  unfold states AgentState.woken
  split_ifs <;> rfl

theorem states_markWaiting : (rt.markWaiting j).states = Function.update rt.states j (rt.states j).marked := by
  rw [markWaiting, states_modifyDesc]
  congr 1
  show (if (rt.agents j).desc.state ≠ .terminated ∧ _ then _ else _ : AgentDesc).state = _
  unfold states AgentState.marked
  split_ifs <;> rfl

theorem states_inboxEnqueue {ref : MsgRef} : (rt.inboxEnqueue j ref).2.states = rt.states := by
  unfold inboxEnqueue
  split
  · rfl
  · exact states_modifySlot (f := fun slot => { slot with inbox := slot.inbox.push fluxInboxSize (some ref) })
      fun _ => rfl

theorem states_post {fill : UInt32 → A2aMsg} : (rt.post mem j fill).2.2.states = rt.states := by
  cases halloc : rt.msgPool.msgPoolAlloc mem with
  | none => rw [post_of_none halloc]
  | some r =>
    obtain ⟨ref, pool⟩ := r
    have hstates : (rt.built ref pool fill).states = rt.states := rfl
    have henqueue : ((rt.built ref pool fill).inboxEnqueue j ref).2.states = _ := states_inboxEnqueue
    rw [post_of_alloc halloc, ← hstates, ← henqueue]
    generalize (rt.built ref pool fill).inboxEnqueue j ref = r
    obtain ⟨status, rt₂⟩ := r
    cases status <;> rfl

theorem states_takeMessage : (rt.takeMessage i).2.states = rt.states := by
  unfold takeMessage inboxDequeue
  have htake : (rt.modifySlot i fun slot =>
      { slot with inbox := slot.inbox.takeHead fluxInboxSize none }).states = rt.states :=
    states_modifySlot (f := fun slot => { slot with inbox := slot.inbox.takeHead fluxInboxSize none })
      fun _ => rfl
  by_cases hzero : (rt.agents i).inbox.count = 0
  · rw [if_pos hzero]
  · rw [if_neg hzero]
    cases (rt.agents i).inbox.slots (rt.agents i).inbox.head with
    | none => exact htake
    | some ref =>
      simp only
      refine Eq.trans ?_ htake
      exact states_modifyDesc_quiet fun _ => rfl

/-- A send changes no state, except that it wakes the target of a message that was put in its inbox. -/
theorem states_fluxA2aSend (rt : AgentRuntime) (mem : Bool) (sender target : UInt32) (type : A2aType)
    (payload : List UInt8) :
    (∃ id j, (rt.fluxA2aSend mem sender target type payload).1 = .ok id ∧ rt.agentSlotById target = some j ∧
      (rt.fluxA2aSend mem sender target type payload).2.states =
        Function.update rt.states j (rt.states j).woken) ∨
    (∃ status, (rt.fluxA2aSend mem sender target type payload).1 = .error status) ∧
      (rt.fluxA2aSend mem sender target type payload).2.states = rt.states := by
  unfold fluxA2aSend
  split
  · exact .inr ⟨⟨_, rfl⟩, rfl⟩
  split
  · exact .inr ⟨⟨_, rfl⟩, rfl⟩
  cases rt.agentSlotById sender with
  | none => exact .inr ⟨⟨_, rfl⟩, rfl⟩
  | some i =>
    cases rt.agentSlotById target with
    | none => exact .inr ⟨⟨_, rfl⟩, rfl⟩
    | some j =>
      simp only
      split_ifs
      · exact .inr ⟨⟨_, rfl⟩, rfl⟩
      · exact .inr ⟨⟨_, rfl⟩, rfl⟩
      have hpost : (rt.post mem j (sendMsg rt.agentNow sender target type payload)).2.2.states = rt.states :=
        states_post
      generalize rt.post mem j (sendMsg rt.agentNow sender target type payload) = r at hpost
      obtain ⟨status, id, rt'⟩ := r
      cases status
      case ok =>
        refine .inl ⟨id, j, rfl, rfl, ?_⟩
        simp only [states_wake, states_noteReceived, states_noteSent]
        rw [← hpost]
      all_goals exact .inr ⟨⟨_, rfl⟩, hpost⟩

/-- The state of an active agent. -/
def stateById (rt : AgentRuntime) (id : UInt32) : Option AgentState := (rt.agentSlotById id).map rt.states

variable {id target : UInt32} {rt' : AgentRuntime}

theorem stateById_congr (hslot : rt'.agentSlotById id = rt.agentSlotById id) (hstates : rt'.states = rt.states) :
    rt'.stateById id = rt.stateById id := by
  rw [stateById, stateById, hslot, hstates]

/-- The state of one agent changes. -/
theorem stateById_update {g : AgentState → AgentState} (hslot : rt'.agentSlotById id = rt.agentSlotById id)
    (hj : rt.agentSlotById target = some j)
    (hstates : rt'.states = Function.update rt.states j (g (rt.states j))) :
    rt'.stateById id = if target = id then (rt.stateById id).map g else rt.stateById id := by
  rw [stateById, stateById, hslot, hstates]
  cases hi : rt.agentSlotById id with
  | none => split_ifs <;> rfl
  | some i =>
    have hiff : target = id ↔ i = j := by
      rw [(agentSlotById_eq_some.1 hi).1, (agentSlotById_eq_some.1 hj).1, agentIdOf_inj, eq_comm]
    by_cases hij : i = j
    · subst hij
      rw [if_pos (hiff.2 rfl), Option.map_some, Function.update_self]
      rfl
    · rw [if_neg (mt hiff.1 hij), Option.map_some, Function.update_of_ne hij]
      rfl

theorem slotById_recvRound {r : A2aReceive} : (rt.recvRound r).2.agentSlotById id = rt.agentSlotById id :=
  slotById_of_active (recvRound_received.changes.active_eq (by simp)) id

theorem slotById_fluxA2aRecv {timeout : UInt32} {id' : UInt32} :
    (rt.fluxA2aRecv id timeout).2.agentSlotById id' = rt.agentSlotById id' :=
  slotById_of_active (fluxA2aRecv_received.changes.active_eq (by simp)) id'

/-- A section of a receive marks the agent, or changes no state. -/
theorem stateById_recvRound {r : A2aReceive} : (rt.recvRound r).2.stateById id =
    if r.marking = true ∧ r.agentId = id then (rt.stateById id).map .marked else rt.stateById id := by
  have hslot : (rt.recvRound r).2.agentSlotById id = rt.agentSlotById id := slotById_recvRound
  by_cases hmark : r.marking = true
  · rw [recvRound, if_pos hmark] at hslot ⊢
    unfold recvMark at hslot ⊢
    cases hj : rt.agentSlotById r.agentId with
    | none =>
      simp only [hmark, true_and]
      split_ifs with hid
      · rw [stateById, ← hid, hj]
        rfl
      · rfl
    | some j =>
      rw [hj] at hslot
      rw [stateById_update (g := .marked) hslot hj states_markWaiting]
      simp only [hmark, true_and]
  · rw [if_neg fun h => hmark h.1]
    refine stateById_congr hslot ?_
    rw [recvRound, if_neg hmark]
    unfold recvRetry
    cases rt.agentSlotById r.agentId with
    | none => rfl
    | some i =>
      have htake : (rt.takeMessage i).2.states = rt.states := states_takeMessage
      simp only
      generalize rt.takeMessage i = p at htake
      obtain ⟨msg, rt'⟩ := p
      cases msg with
      | some => exact htake
      | none =>
        simp only
        split_ifs <;> exact htake

theorem stateById_fluxA2aRecv {timeout id' : UInt32} :
    (rt.fluxA2aRecv id timeout).2.stateById id' = rt.stateById id' := by
  refine stateById_congr slotById_fluxA2aRecv ?_
  unfold fluxA2aRecv
  split
  · rfl
  cases rt.agentSlotById id with
  | none => rfl
  | some i =>
    have htake : (rt.takeMessage i).2.states = rt.states := states_takeMessage
    simp only
    generalize rt.takeMessage i = p at htake
    obtain ⟨msg, rt'⟩ := p
    cases msg with
    | some => exact htake
    | none =>
      simp only
      split_ifs <;> exact htake

/-- A send that succeeds wakes its target. -/
theorem stateById_fluxA2aSend {sender : UInt32} {type : A2aType} {payload : List UInt8} :
    (rt.fluxA2aSend mem sender target type payload).2.stateById id =
      if target = id ∧ (rt.fluxA2aSend mem sender target type payload).1.toBool = true then
        (rt.stateById id).map .woken
      else rt.stateById id := by
  have hslot : (rt.fluxA2aSend mem sender target type payload).2.agentSlotById id = rt.agentSlotById id :=
    slotById_of_active (fluxA2aSend_mailed.changes.active_eq (by simp)) id
  obtain ⟨msgId, j, hok, hj, hstates⟩ | ⟨⟨status, herror⟩, hstates⟩ :=
    states_fluxA2aSend rt mem sender target type payload
  · rw [stateById_update (g := .woken) hslot hj hstates, hok]
    simp [Except.toBool]
  · rw [stateById_congr hslot hstates, herror]
    simp [Except.toBool]

theorem agentId_of_recvRound {r r' : A2aReceive} (h : (rt.recvRound r).1 = .waiting r') :
    r'.agentId = r.agentId := by
  unfold recvRound at h
  split at h
  · cases h
    rfl
  · unfold recvRetry at h
    cases hi : rt.agentSlotById r.agentId with
    | none =>
      rw [hi] at h
      cases h
    | some i =>
      rw [hi] at h
      simp only at h
      generalize rt.takeMessage i = p at h
      obtain ⟨msg, rt'⟩ := p
      cases msg with
      | some => cases h
      | none =>
        simp only at h
        split_ifs at h
        cases h
        rfl

theorem agentId_of_fluxA2aRecv {timeout : UInt32} {r : A2aReceive}
    (h : (rt.fluxA2aRecv id timeout).1 = .waiting r) : r.agentId = id := by
  unfold fluxA2aRecv at h
  split at h
  · cases h
  cases hi : rt.agentSlotById id with
  | none =>
    rw [hi] at h
    cases h
  | some i =>
    rw [hi] at h
    simp only at h
    generalize rt.takeMessage i = p at h
    obtain ⟨msg, rt'⟩ := p
    cases msg with
    | some => cases h
    | none =>
      simp only at h
      split_ifs at h
      cases h
      rfl

end AgentRuntime

/-! ## A receive and what happens meanwhile -/

/-- Messages that are sent, other receives, and the clock. -/
def AgentAction.Meanwhile : AgentAction → Prop
  | .send .. | .recv .. | .recvRound _ | .tick => True
  | _ => False

/-- The next section of a receive, or another action. -/
inductive RecvEvent
  | own
  | other (a : AgentAction)

/-- A receive that is followed.  `marked` says that the agent is `WAITING` since this receive marked it. -/
structure FollowedRecv where
  system : AgentSystem
  outcome : A2aRecvOutcome
  marked : Bool

namespace FollowedRecv

variable (id : UInt32)

def waits (s : AgentSystem) : Bool := s.rt.stateById id == some .waiting

/-- The first section of `flux_a2a_recv`. -/
def start (timeout : UInt32) (s : AgentSystem) : FollowedRecv :=
  let r := s.rt.fluxA2aRecv id timeout
  ⟨s.withRt r.2, r.1, false⟩

/-- One event.  The mark of the receive counts if the agent was not `WAITING`, and it is gone when the agent is
no longer. -/
def next : RecvEvent → FollowedRecv → Option FollowedRecv
  | .own, f =>
    match f.outcome with
    | .done .. => none
    | .waiting r =>
      let r' := f.system.rt.recvRound r
      let s := f.system.withRt r'.2
      some ⟨s, r'.1, (f.marked || r.marking && !waits id f.system) && waits id s⟩
  | .other a, f =>
    (AgentSystem.step a f.system).map fun s => { f with system := s, marked := f.marked && waits id s }

/-- Whether the receive has marked the agent, coming from another state, and no message was sent to the agent
since. -/
def noteEvent (f : FollowedRecv) (unanswered : Bool) : RecvEvent → Bool
  | .own =>
    match f.outcome with
    | .done .. => unanswered
    | .waiting r =>
      unanswered || r.marking &&
        match f.system.rt.stateById id with
        | none | some .waiting | some .terminated | some .failed => false
        | some _ => true
  | .other (.send mem sender target type payload) =>
    unanswered && !decide (target = id ∧ (f.system.rt.fluxA2aSend mem sender target type payload).1.toBool = true)
  | .other _ => unanswered

/-- The same after a run. -/
def unanswered : Bool → List RecvEvent → FollowedRecv → Bool
  | u, [], _ => u
  | u, e :: es, f =>
    match next id e f with
    | some f' => unanswered (noteEvent id f u e) es f'
    | none => u

/-- What the events between the receive's own are. -/
def OtherEvent : RecvEvent → Prop
  | .own => True
  | .other a => a.Meanwhile

variable {id} {f f' : FollowedRecv} {e : RecvEvent} {es : List RecvEvent} {u : Bool}

/-- The mark of the receive is the unanswered one, and the agent is `WAITING` with it. -/
structure Agrees (id : UInt32) (f : FollowedRecv) (u : Bool) : Prop where
  marked : f.marked = u
  waiting : u = true → waits id f.system = true
  agentId : ∀ r, f.outcome = .waiting r → r.agentId = id

/-- An event after which the agent is in the same state. -/
theorem Agrees.quiet (h : Agrees id f u) {s : AgentSystem} {outcome : A2aRecvOutcome}
    (hstate : s.rt.stateById id = f.system.rt.stateById id) (hid : ∀ r, outcome = .waiting r → r.agentId = id) :
    Agrees id ⟨s, outcome, f.marked && waits id s⟩ u := by
  have hsame : waits id s = waits id f.system := by rw [waits, waits, hstate]
  refine ⟨?_, fun hu => hsame.trans (h.waiting hu), hid⟩
  rw [h.marked]
  cases u with
  | false => rfl
  | true =>
    have hwaits : waits id s = true := hsame.trans (h.waiting rfl)
    rw [hwaits]
    rfl

/-- An own section that only looks for a message. -/
theorem Agrees.own_quiet (h : Agrees id f u) {r : A2aReceive} (hr : f.outcome = .waiting r)
    (hmark : r.marking = false) (hnext : next id .own f = some f') : Agrees id f' (noteEvent id f u .own) := by
  rw [next, hr] at hnext
  cases hnext
  have hstate : (f.system.rt.recvRound r).2.stateById id = f.system.rt.stateById id := by
    rw [stateById_recvRound, if_neg (by simp [hmark])]
  have hquiet : Agrees id ⟨f.system.withRt (f.system.rt.recvRound r).2, (f.system.rt.recvRound r).1,
      f.marked && waits id (f.system.withRt (f.system.rt.recvRound r).2)⟩ u :=
    h.quiet hstate fun r' hr' => (agentId_of_recvRound hr').trans (h.agentId r hr)
  simpa [noteEvent, hr, hmark] using hquiet

/-- An own section that marks the agent. -/
theorem Agrees.own_mark (h : Agrees id f u) {r : A2aReceive} (hr : f.outcome = .waiting r)
    (hmark : r.marking = true) (hnext : next id .own f = some f') : Agrees id f' (noteEvent id f u .own) := by
  have hid : r.agentId = id := h.agentId r hr
  rw [next, hr] at hnext
  cases hnext
  have hstate : (f.system.rt.recvRound r).2.stateById id = (f.system.rt.stateById id).map .marked := by
    rw [stateById_recvRound, if_pos ⟨hmark, hid⟩]
  have hwaiting := h.waiting
  have hmarked := h.marked
  refine ⟨?_, ?_, fun r' hr' => (agentId_of_recvRound hr').trans hid⟩
  all_goals
    simp only [noteEvent, hr, hmark, waits, AgentSystem.withRt, hstate, hmarked, Bool.true_and] at hwaiting ⊢
    generalize f.system.rt.stateById id = state at hwaiting ⊢
  · cases state with
    | none => cases u <;> simp at hwaiting ⊢
    | some state => cases u <;> cases state <;> simp_all [AgentState.marked]
  · cases state with
    | none => cases u <;> simp at hwaiting ⊢
    | some state => cases u <;> cases state <;> simp_all [AgentState.marked]

/-- Another receive marks the agent. -/
theorem Agrees.marked_again (h : Agrees id f u) {s : AgentSystem}
    (hstate : s.rt.stateById id = (f.system.rt.stateById id).map .marked) :
    Agrees id ⟨s, f.outcome, f.marked && waits id s⟩ u := by
  have hkeep : u = true → waits id s = true := by
    intro hu
    have hbefore : f.system.rt.stateById id = some .waiting := by simpa [waits] using h.waiting hu
    rw [waits, hstate, hbefore]
    rfl
  refine ⟨?_, hkeep, h.agentId⟩
  rw [h.marked]
  cases u with
  | false => rfl
  | true =>
    rw [hkeep rfl]
    rfl

/-- A message was sent to the agent. -/
theorem Agrees.answered (h : Agrees id f u) {s : AgentSystem}
    (hstate : s.rt.stateById id = (f.system.rt.stateById id).map .woken) :
    Agrees id ⟨s, f.outcome, f.marked && waits id s⟩ false := by
  have hwoken : waits id s = false := by
    rw [waits, hstate]
    cases f.system.rt.stateById id with
    | none => rfl
    | some state => cases state <;> rfl
  refine ⟨?_, by simp, h.agentId⟩
  rw [hwoken, Bool.and_false]

theorem agrees_next (h : Agrees id f u) (he : OtherEvent e) (hnext : next id e f = some f') :
    Agrees id f' (noteEvent id f u e) := by
  cases e with
  | own =>
    cases hr : f.outcome with
    | done =>
      rw [next, hr] at hnext
      cases hnext
    | waiting r =>
      cases hmark : r.marking with
      | false => exact h.own_quiet hr hmark hnext
      | true => exact h.own_mark hr hmark hnext
  | other a =>
    obtain ⟨s, hs, rfl⟩ := Option.map_eq_some_iff.1 hnext
    cases a
    case tick =>
      cases hs
      exact h.quiet rfl h.agentId
    case recv =>
      cases hs
      exact h.quiet stateById_fluxA2aRecv h.agentId
    case recvRound p =>
      rw [AgentSystem.step] at hs
      split_ifs at hs
      cases hs
      by_cases hmark : p.marking = true ∧ p.agentId = id
      · have hstate : (f.system.rt.recvRound p).2.stateById id = (f.system.rt.stateById id).map .marked := by
          rw [stateById_recvRound, if_pos hmark]
        exact h.marked_again hstate
      · refine h.quiet ?_ h.agentId
        show (f.system.rt.recvRound p).2.stateById id = _
        rw [stateById_recvRound, if_neg hmark]
    case send mem sender target type payload =>
      cases hs
      by_cases hsent : target = id ∧ (f.system.rt.fluxA2aSend mem sender target type payload).1.toBool = true
      · have hstate : (f.system.rt.fluxA2aSend mem sender target type payload).2.stateById id =
            (f.system.rt.stateById id).map .woken := by
          rw [stateById_fluxA2aSend, if_pos hsent]
        have hnote : noteEvent id f u (.other (.send mem sender target type payload)) = false := by
          simp only [noteEvent, decide_eq_true hsent, Bool.not_true, Bool.and_false]
        rw [hnote]
        exact h.answered hstate
      · have hnote : noteEvent id f u (.other (.send mem sender target type payload)) = u := by
          simp only [noteEvent, decide_eq_false hsent, Bool.not_false, Bool.and_true]
        rw [hnote]
        refine h.quiet ?_ h.agentId
        show (f.system.rt.fluxA2aSend mem sender target type payload).2.stateById id = _
        rw [stateById_fluxA2aSend, if_neg hsent]
    all_goals exact he.elim

theorem agrees_of_execute (h : Agrees id f u) (hes : ∀ e ∈ es, OtherEvent e)
    (hrun : execute (next id) es f = some f') : Agrees id f' (unanswered id u es f) := by
  induction es generalizing f u with
  | nil =>
    cases hrun
    exact h
  | cons e es ih =>
    obtain ⟨f₁, hnext, hrest⟩ := Option.bind_eq_some_iff.1 hrun
    have hone := agrees_next h (hes e List.mem_cons_self) hnext
    rw [unanswered, hnext]
    exact ih hone (fun e he => hes e (List.mem_cons_of_mem _ he)) hrest

theorem agrees_start {timeout : UInt32} {s : AgentSystem} : Agrees id (start id timeout s) false :=
  ⟨rfl, by simp, fun _ hr => agentId_of_fluxA2aRecv hr⟩

/-- The receive returned, with a message or at the timeout. -/
def returned (f : FollowedRecv) : Bool :=
  match f.outcome with
  | .done status _ => status = .ok || status = .errTimeout
  | .waiting _ => false

/-- The receive returned, and its agent is `WAITING` since the receive marked it. -/
def LeavesWaiting (id : UInt32) (f : FollowedRecv) : Prop :=
  f.returned = true ∧ f.marked = true ∧ waits id f.system = true

end FollowedRecv

open FollowedRecv

/-- A receive that returns, with a message or at the timeout, leaves its agent `WAITING` unless, after it last
marked the agent, which was in another state, a message was sent to the agent. -/
theorem fluxA2aRecv_not_leavesWaiting_iff {id timeout : UInt32} {s : AgentSystem} {es : List RecvEvent}
    {f : FollowedRecv} (hes : ∀ e ∈ es, OtherEvent e)
    (hrun : execute (next id) es (start id timeout s) = some f) (hreturned : f.returned = true) :
    ¬ f.LeavesWaiting id ↔ unanswered id false es (start id timeout s) = false := by
  have hagrees := agrees_of_execute agrees_start hes hrun
  rw [← hagrees.marked]
  constructor
  · intro hnot
    by_contra hmarked
    rw [Bool.not_eq_false] at hmarked
    exact hnot ⟨hreturned, hmarked, hagrees.waiting (hagrees.marked ▸ hmarked)⟩
  · rintro hmarked ⟨-, hleft, -⟩
    rw [hmarked] at hleft
    exact Bool.noConfusion hleft

/-! ## A message that comes in time, and one that comes too early -/

/-- Two agents that may communicate. -/
def twoAgents : AgentSystem :=
  ⟨((fluxAgentInit none).withBare fluxCapCommunicate).withBare fluxCapCommunicate, []⟩

/-- A message from the first agent to the second. -/
def sendToSecond : RecvEvent := .other (.send true 5 6 .tell [7])

/-- The message comes before the agent is marked. -/
def sentBeforeMark : List RecvEvent := [.own, sendToSecond, .own, .own]

/-- The message comes after the agent was marked. -/
def sentAfterMark : List RecvEvent := [.own, .own, sendToSecond, .own]

/-- The receive after the events. -/
def recvRun (es : List RecvEvent) : FollowedRecv :=
  (execute (next 6) es (start 6 5 twoAgents)).getD ⟨twoAgents, .done .ok none, false⟩

theorem fluxA2aRecv_not_leavesWaiting_iff_sent : ¬ (recvRun sentAfterMark).LeavesWaiting 6 := by
  have hrun : execute (next 6) sentAfterMark (start 6 5 twoAgents) =
      some (recvRun sentAfterMark) := rfl
  refine (fluxA2aRecv_not_leavesWaiting_iff ?_ hrun ?_).2 ?_
  · simp [sentAfterMark, sendToSecond, OtherEvent, AgentAction.Meanwhile]
  · decide +kernel
  · decide +kernel

/-- The receive returns the message, and its agent stays `WAITING`. -/
theorem recvRun_leavesWaiting :
    execute (next 6) sentBeforeMark (start 6 5 twoAgents) =
      some (recvRun sentBeforeMark) ∧ (recvRun sentBeforeMark).LeavesWaiting 6 := by
  refine ⟨rfl, ?_, ?_, ?_⟩
  · decide +kernel
  · decide +kernel
  · decide +kernel

end FluxOs
