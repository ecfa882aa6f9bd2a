import FluxOs.Agent.Runs

/-!
# What the functions on messages change

An `AgentView` holds the parts of the runtime that the results are about; states, counters, audit logs and
most of the VM are left out.  One theorem for each function says how it changes the view.  Functions that
build messages do so through `post`, whose effect is `Posted`.
-/

namespace FluxOs

open Relation Rings AgentRuntime

/-! ## Views -/

/-- The parts of an agent slot that the results are about. -/
structure SlotView where
  active : Bool
  agentId : UInt32
  vmInitialized : Bool
  capabilities : UInt64
  caps : List CapDesc
  limits : AgentLimits
  inbox : RingBuffer (Option MsgRef)
  delegations : List Delegation
  lastOpCycles : UInt64
  executed : Nat

/-- The parts of the runtime that the results are about. -/
structure AgentView where
  initialized : Bool
  config : AgentConfig
  slots : AgentIdx → SlotView
  bitmap : AgentIdx → Bool
  pool : MsgPool
  nextMsgId : UInt32
  history : MailHistory
  topics : List FluxTopic
  pubCaps : Fin fluxPubCapsMax → PublishedCap
  numPubCaps : Nat

def AgentSlot.view (slot : AgentSlot) : SlotView where
  active := slot.active
  agentId := slot.desc.agentId
  vmInitialized := slot.vmInitialized
  capabilities := slot.desc.capabilities
  caps := slot.desc.caps
  limits := slot.desc.limits
  inbox := slot.inbox
  delegations := slot.delegations
  lastOpCycles := slot.vm.lastOpCycles
  executed := slot.executed

def AgentRuntime.view (rt : AgentRuntime) : AgentView where
  initialized := rt.initialized
  config := rt.config
  slots i := (rt.agents i).view
  bitmap := rt.agentBitmap
  pool := rt.msgPool
  nextMsgId := rt.nextMsgId
  history := rt.history
  topics := rt.topics
  pubCaps := rt.pubCaps
  numPubCaps := rt.numPubCaps

/-- Change the view of a slot. -/
def AgentView.modify (V : AgentView) (i : AgentIdx) (f : SlotView → SlotView) : AgentView :=
  { V with slots := Function.update V.slots i (f (V.slots i)) }

/-- The agent may send messages. -/
def AgentView.Communicates (V : AgentView) (i : AgentIdx) : Prop :=
  (V.slots i).active = true ∧ (V.slots i).capabilities &&& fluxCapCommunicate ≠ 0

namespace AgentView

variable {V : AgentView} {i k : AgentIdx} {f : SlotView → SlotView}

@[simp] theorem modify_self : (V.modify i f).slots i = f (V.slots i) := by
  simp [modify]

theorem modify_of_ne (h : k ≠ i) : (V.modify i f).slots k = V.slots k := by
  simp [modify, h]

/-- What a change of a slot leaves alone. -/
theorem modify_keeps {β : Type} (g : SlotView → β) (h : ∀ slot, g (f slot) = g slot) (k : AgentIdx) :
    g ((V.modify i f).slots k) = g (V.slots k) := by
  by_cases hk : k = i
  · subst hk
    rw [modify_self, h]
  · rw [modify_of_ne hk]

/-- A property of all slots is kept if the changed one has it. -/
theorem forall_modify {P : AgentIdx → SlotView → Prop} (hslot : P i (f (V.slots i)))
    (hP : ∀ k, P k (V.slots k)) (k : AgentIdx) : P k ((V.modify i f).slots k) := by
  by_cases hk : k = i
  · subst hk
    rw [modify_self]
    exact hslot
  · rw [modify_of_ne hk]
    exact hP k

end AgentView

namespace AgentRuntime

variable {rt : AgentRuntime} {i j : AgentIdx} {f : AgentSlot → AgentSlot}

/-- A change of a slot, shown by what the slot becomes. -/
theorem view_modifySlot_at : (rt.modifySlot i f).view = rt.view.modify i fun _ => (f (rt.agents i)).view := by
  have hslots : (fun k => ((rt.modifySlot i f).agents k).view) =
      Function.update (fun k => (rt.agents k).view) i (f (rt.agents i)).view := by
    funext k
    by_cases hk : k = i
    · subst hk
      rw [modifySlot_self, Function.update_self]
    · rw [modifySlot_of_ne hk, Function.update_of_ne hk]
  simp only [view, AgentView.modify, hslots]
  rfl

theorem view_modifySlot (g : SlotView → SlotView) (h : ∀ slot, (f slot).view = g slot.view) :
    (rt.modifySlot i f).view = rt.view.modify i g := by
  rw [view_modifySlot_at, h]
  rfl

/-- A change of a slot that its view does not show. -/
theorem view_modifySlot_quiet (h : ∀ slot, (f slot).view = slot.view) :
    (rt.modifySlot i f).view = rt.view := by
  rw [view_modifySlot id h, AgentView.modify, id_eq, Function.update_eq_self]

theorem view_modifyDesc_quiet {g : AgentDesc → AgentDesc}
    (h : ∀ slot : AgentSlot, { slot with desc := g slot.desc }.view = slot.view) :
    (rt.modifyDesc i g).view = rt.view := view_modifySlot_quiet h

@[simp] theorem view_noteSent {n : UInt32} : (rt.noteSent i n).view = rt.view :=
  view_modifyDesc_quiet fun _ => rfl

@[simp] theorem view_noteReceived : (rt.noteReceived j).view = rt.view :=
  view_modifyDesc_quiet fun _ => rfl

@[simp] theorem view_wake : (rt.wake j).view = rt.view := by
  refine view_modifyDesc_quiet fun slot => ?_
  simp only [AgentSlot.view]
  split_ifs <;> rfl

@[simp] theorem view_markWaiting : (rt.markWaiting j).view = rt.view := by
  refine view_modifyDesc_quiet fun slot => ?_
  simp only [AgentSlot.view]
  split_ifs <;> rfl

@[simp] theorem view_wakeDelegator : (rt.wakeDelegator j).view = rt.view := by
  refine view_modifyDesc_quiet fun slot => ?_
  simp only [AgentSlot.view]
  split_ifs <;> rfl

theorem communicates_of_holds {id : UInt32} (hid : rt.agentSlotById id = some i)
    (hcap : ¬ (!rt.holds i fluxCapCommunicate) = true) : rt.view.Communicates i :=
  ⟨(agentSlotById_eq_some.1 hid).2, show (rt.agents i).desc.capabilities &&& _ ≠ 0 by simpa [holds] using hcap⟩

/-! ## Message ids -/

/-- The id that is generated when the counter is `n`, and the next value of the counter. -/
def drawMsgId (n : UInt32) : UInt32 × UInt32 := if n = 0 then (1, 2) else (n, n + 1)

theorem msgGenerateId_eq : rt.msgGenerateId = ((drawMsgId rt.nextMsgId).1,
    { rt with
      nextMsgId := (drawMsgId rt.nextMsgId).2
      history := { rt.history with generated := rt.history.generated + 1 } }) := by
  unfold msgGenerateId drawMsgId fetchMsgId
  by_cases h : rt.nextMsgId = 0
  · simp [h]
  · simp [h]

/-! ## Posting a message -/

end AgentRuntime

namespace AgentView

variable (V : AgentView)

/-- A message was built: its id is drawn and it lies in the pool. -/
def built (ref : MsgRef) (pool : MsgPool) (msg : A2aMsg) : AgentView :=
  { V with
    pool := pool.write ref msg
    nextMsgId := (drawMsgId V.nextMsgId).2
    history := { V.history with generated := V.history.generated + 1 } }

/-- A message was put in an inbox. -/
def enqueued (j : AgentIdx) (ref : MsgRef) (msg : A2aMsg) : AgentView :=
  { V.modify j fun slot => { slot with inbox := slot.inbox.push fluxInboxSize (some ref) } with
    history := { V.history with events := V.history.events ++ [.enqueue j msg] } }

theorem enqueued_inbox {V : AgentView} {j : AgentIdx} {ref : MsgRef} {msg : A2aMsg} :
    ((V.enqueued j ref msg).slots j).inbox = (V.slots j).inbox.push fluxInboxSize (some ref) := by
  rw [enqueued, modify_self]

theorem enqueued_of_ne {V : AgentView} {j k : AgentIdx} {ref : MsgRef} {msg : A2aMsg} (h : k ≠ j) :
    (V.enqueued j ref msg).slots k = V.slots k := by
  rw [enqueued, modify_of_ne h]

/-- What is not the inbox is left alone. -/
theorem enqueued_keeps {V : AgentView} {j : AgentIdx} {ref : MsgRef} {msg : A2aMsg} {β : Type}
    (g : SlotView → β) (h : ∀ slot inbox, g { slot with inbox } = g slot) (k : AgentIdx) :
    g ((V.enqueued j ref msg).slots k) = g (V.slots k) :=
  modify_keeps (f := fun slot => { slot with inbox := slot.inbox.push fluxInboxSize (some ref) }) g
    (fun slot => h slot _) k

/-- What `post` does: there is no memory, the inbox is full, or the message is put in the inbox. -/
inductive Posted (mem : Bool) (j : AgentIdx) (fill : UInt32 → A2aMsg) :
    FluxStatus → UInt32 → AgentView → Prop
  | noMemory : V.pool.msgPoolAlloc mem = none → Posted mem j fill .errNomem 0 V
  | full (ref : MsgRef) (pool : MsgPool) : V.pool.msgPoolAlloc mem = some (ref, pool) →
      fluxInboxSize ≤ (V.slots j).inbox.count →
      Posted mem j fill .errOverflow (drawMsgId V.nextMsgId).1
        { V.built ref pool (fill (drawMsgId V.nextMsgId).1) with
          pool := (pool.write ref (fill (drawMsgId V.nextMsgId).1)).msgPoolFree ref }
  | accepted (ref : MsgRef) (pool : MsgPool) : V.pool.msgPoolAlloc mem = some (ref, pool) →
      (V.slots j).inbox.count < fluxInboxSize →
      Posted mem j fill .ok (drawMsgId V.nextMsgId).1
        ((V.built ref pool (fill (drawMsgId V.nextMsgId).1)).enqueued j ref
          (fill (drawMsgId V.nextMsgId).1))

end AgentView

/-- What was written to a message is read. -/
theorem MsgPool.read_write (p : MsgPool) (ref : MsgRef) (m : A2aMsg) : (p.write ref m).read ref = m := by
  cases ref with
  | pool k => exact Function.update_self ..
  | heap n =>
    show (Function.update p.heap n (some m) n).getD .zero = m
    rw [Function.update_self, Option.getD_some]

namespace AgentRuntime

variable {rt : AgentRuntime} {mem : Bool} {i j : AgentIdx} {fill : UInt32 → A2aMsg}

theorem inboxEnqueue_view {ref : MsgRef} (hroom : (rt.agents j).inbox.count < fluxInboxSize) :
    ∃ rt', rt.inboxEnqueue j ref = (.ok, rt') ∧
      rt'.view = rt.view.enqueued j ref (rt.msgPool.read ref) := by
  rw [inboxEnqueue, if_neg (Nat.not_le_of_lt hroom)]
  refine ⟨_, rfl, ?_⟩
  have h : (rt.modifySlot j fun slot =>
      { slot with inbox := slot.inbox.push fluxInboxSize (some ref) }).view = _ :=
    view_modifySlot (fun slot => { slot with inbox := slot.inbox.push fluxInboxSize (some ref) }) fun _ => rfl
  rw [AgentView.enqueued, ← h]
  rfl

/-- A message was built: its id is drawn and it lies in the pool. -/
def built (rt : AgentRuntime) (ref : MsgRef) (pool : MsgPool) (fill : UInt32 → A2aMsg) : AgentRuntime :=
  { rt with
    msgPool := pool.write ref (fill (drawMsgId rt.nextMsgId).1)
    nextMsgId := (drawMsgId rt.nextMsgId).2
    history := { rt.history with generated := rt.history.generated + 1 } }

theorem post_of_none (h : rt.msgPool.msgPoolAlloc mem = none) : rt.post mem j fill = (.errNomem, 0, rt) := by
  unfold post
  rw [h]

/-- A message that is allocated is built and put in the inbox, or dropped when the inbox is full. -/
theorem post_of_alloc {ref : MsgRef} {pool : MsgPool} (h : rt.msgPool.msgPoolAlloc mem = some (ref, pool)) :
    rt.post mem j fill = match (rt.built ref pool fill).inboxEnqueue j ref with
      | (.ok, rt') => (.ok, (drawMsgId rt.nextMsgId).1, rt')
      | (status, rt') => (status, (drawMsgId rt.nextMsgId).1,
          { rt' with msgPool := rt'.msgPool.msgPoolFree ref }) := by
  unfold post
  rw [h]
  simp only [msgGenerateId_eq]
  rfl

variable (rt mem j fill) in
theorem post_view : rt.view.Posted mem j fill (rt.post mem j fill).1 (rt.post mem j fill).2.1
    (rt.post mem j fill).2.2.view := by
  cases halloc : rt.msgPool.msgPoolAlloc mem with
  | none =>
    rw [post_of_none halloc]
    exact .noMemory halloc
  | some r =>
    obtain ⟨ref, pool⟩ := r
    rw [post_of_alloc halloc]
    have hview : (rt.built ref pool fill).view = rt.view.built ref pool (fill (drawMsgId rt.nextMsgId).1) := rfl
    have hread : (rt.built ref pool fill).msgPool.read ref = fill (drawMsgId rt.nextMsgId).1 :=
      MsgPool.read_write ..
    have hinbox : (rt.built ref pool fill).agents j = rt.agents j := rfl
    by_cases hfull : fluxInboxSize ≤ (rt.agents j).inbox.count
    · rw [inboxEnqueue, hinbox, if_pos hfull]
      exact .full ref pool halloc hfull
    · have hroom : ((rt.built ref pool fill).agents j).inbox.count < fluxInboxSize := Nat.lt_of_not_le hfull
      obtain ⟨rt₂, heq, henq⟩ := inboxEnqueue_view hroom
      rw [heq]
      show AgentView.Posted _ _ _ _ _ _ rt₂.view
      rw [henq, hview, hread]
      exact .accepted ref pool halloc hroom

end AgentRuntime

/-! ## Functions that send messages -/

/-- Agent `i` is the sender of the message, and agent `j` is its target. -/
def BuiltBy (i j : AgentIdx) (fill : UInt32 → A2aMsg) : Prop :=
  ∀ id, (fill id).msgId = id ∧ (fill id).sender = agentIdOf i ∧ (fill id).target = agentIdOf j

namespace AgentView

/-- Agent `i` posts a message. -/
def PostedBy (i : AgentIdx) (V V' : AgentView) : Prop :=
  ∃ mem j fill status id, (V.slots j).active = true ∧ BuiltBy i j fill ∧ V.Posted mem j fill status id V'

/-- An agent that may send messages posts any number of them. -/
inductive Mailed (V V' : AgentView) : Prop
  | none : V' = V → Mailed V V'
  | posts (i : AgentIdx) : V.Communicates i → ReflTransGen (PostedBy i) V V' → Mailed V V'

variable {V V' : AgentView}

theorem Mailed.refl : Mailed V V := .none rfl

theorem Mailed.single {i : AgentIdx} (hi : V.Communicates i) (h : PostedBy i V V') : Mailed V V' :=
  .posts i hi (.single h)

theorem Posted.keeps {fill : UInt32 → A2aMsg} {mem : Bool} {j : AgentIdx} {status : FluxStatus} {id : UInt32}
    {β : Type} {g : SlotView → β} (h : V.Posted mem j fill status id V')
    (hg : ∀ slot inbox, g { slot with inbox } = g slot) (k : AgentIdx) :
    g (V'.slots k) = g (V.slots k) := by
  cases h with
  | noMemory => rfl
  | full => rfl
  | accepted => exact enqueued_keeps g hg k

/-- Posting a message does not change who is active. -/
theorem PostedBy.agents {i : AgentIdx} (h : PostedBy i V V') (k : AgentIdx) :
    (V'.slots k).active = (V.slots k).active ∧ (V'.slots k).capabilities = (V.slots k).capabilities := by
  obtain ⟨mem, j, fill, status, id, -, -, hposted⟩ := h
  exact ⟨hposted.keeps (fun _ _ => rfl) k, hposted.keeps (fun _ _ => rfl) k⟩

/-- A delegation is added to the table of agent `i`. -/
def tracked (V : AgentView) (i : AgentIdx) (id target : UInt32) : AgentView :=
  V.modify i fun slot => { slot with delegations := slot.delegations ++ [⟨id, target, true⟩] }

/-- A delegation in the table of agent `d` is marked as complete. -/
def completed (V : AgentView) (d : AgentIdx) (k : Nat) : AgentView :=
  V.modify d fun slot =>
    { slot with delegations := slot.delegations.modify k fun e => { e with active := false } }

/-- What is not the table of delegations is left alone. -/
theorem completed_keeps {d : AgentIdx} {k : Nat} {β : Type} (g : SlotView → β)
    (h : ∀ slot delegations, g { slot with delegations } = g slot) (m : AgentIdx) :
    g ((V.completed d k).slots m) = g (V.slots m) :=
  modify_keeps (f := fun slot =>
    { slot with delegations := slot.delegations.modify k fun e => { e with active := false } }) g
      (fun slot => h slot _) m

end AgentView

namespace AgentRuntime

variable {rt : AgentRuntime} {mem : Bool} {i j : AgentIdx}

theorem active_of_slotById {id : UInt32} (h : rt.agentSlotById id = some i) :
    (rt.view.slots i).active = true := (agentSlotById_eq_some.1 h).2

theorem builtBy {sender target : UInt32} (hi : rt.agentSlotById sender = some i)
    (hj : rt.agentSlotById target = some j) {fill : UInt32 → A2aMsg}
    (h : ∀ id, (fill id).msgId = id ∧ (fill id).sender = sender ∧ (fill id).target = target) :
    BuiltBy i j fill := by
  intro id
  rw [← (agentSlotById_eq_some.1 hi).1, ← (agentSlotById_eq_some.1 hj).1]
  exact h id

/-- What `post` does for agents given by their ids. -/
theorem post_postedBy {sender target : UInt32} (hi : rt.agentSlotById sender = some i)
    (hj : rt.agentSlotById target = some j) {fill : UInt32 → A2aMsg}
    (h : ∀ id, (fill id).msgId = id ∧ (fill id).sender = sender ∧ (fill id).target = target) :
    AgentView.PostedBy i rt.view (rt.post mem j fill).2.2.view :=
  ⟨mem, j, fill, _, _, active_of_slotById hj, builtBy hi hj h, post_view rt mem j fill⟩

theorem fluxA2aSend_mailed {sender target : UInt32} {type : A2aType} {payload : List UInt8} :
    rt.view.Mailed (rt.fluxA2aSend mem sender target type payload).2.view := by
  unfold fluxA2aSend
  split
  · exact .refl
  split
  · exact .refl
  cases hi : rt.agentSlotById sender with
  | none => exact .refl
  | some i =>
    cases hj : rt.agentSlotById target with
    | none => exact .refl
    | some j =>
      simp only
      split_ifs with hcap
      · exact .refl
      · exact .refl
      have hmailed : rt.view.Mailed (rt.post mem j (sendMsg rt.agentNow sender target type payload)).2.2.view :=
        .single (communicates_of_holds hi hcap) (post_postedBy hi hj fun _ => ⟨rfl, rfl, rfl⟩)
      generalize rt.post mem j (sendMsg rt.agentNow sender target type payload) = r at hmailed
      obtain ⟨status, id, rt'⟩ := r
      cases status
      case ok => simpa using hmailed
      all_goals exact hmailed

theorem fluxA2aReply_mailed {original : A2aMsg} {payload : List UInt8} :
    rt.view.Mailed (rt.fluxA2aReply mem original payload).2.view := by
  unfold fluxA2aReply
  split
  · exact .refl
  split
  · exact .refl
  cases hi : rt.agentSlotById original.target with
  | none => exact .refl
  | some i =>
    simp only
    split
    · exact .refl
    rename_i hcap
    cases hj : rt.agentSlotById original.sender with
    | none => exact .refl
    | some j =>
      simp only
      have hmailed : rt.view.Mailed (rt.post mem j (replyMsg rt.agentNow original payload)).2.2.view :=
        .single (communicates_of_holds hi hcap) (post_postedBy hi hj fun _ => ⟨rfl, rfl, rfl⟩)
      generalize rt.post mem j (replyMsg rt.agentNow original payload) = r at hmailed
      obtain ⟨status, id, rt'⟩ := r
      cases status
      case ok => simpa using hmailed
      all_goals exact hmailed

/-! ## Broadcast -/

theorem deliverEvent_posted {sender : UInt32} (mem : Bool) (sub : UInt32) (topic : CString)
    (payload : List UInt8) (hi : rt.agentSlotById sender = some i) :
    (rt.deliverEvent mem sender topic payload sub).2.view = rt.view ∨
      AgentView.PostedBy i rt.view (rt.deliverEvent mem sender topic payload sub).2.view := by
  unfold deliverEvent
  split
  · exact .inl rfl
  cases hj : rt.agentSlotById sub with
  | none => exact .inl rfl
  | some j =>
    simp only
    right
    have hposted : AgentView.PostedBy i rt.view
        (rt.post mem j (eventMsg rt.agentNow sender sub topic payload)).2.2.view :=
      post_postedBy hi hj fun _ => ⟨rfl, rfl, rfl⟩
    generalize rt.post mem j (eventMsg rt.agentNow sender sub topic payload) = r at hposted
    obtain ⟨status, id, rt'⟩ := r
    cases status
    case ok => simpa using hposted
    all_goals exact hposted

theorem slotById_of_posted {id : UInt32} {rt' : AgentRuntime} (hi : rt.agentSlotById id = some i)
    (h : rt'.view = rt.view ∨ AgentView.PostedBy j rt.view rt'.view) : rt'.agentSlotById id = some i := by
  obtain ⟨hid, hact⟩ := agentSlotById_eq_some.1 hi
  refine agentSlotById_eq_some.2 ⟨hid, ?_⟩
  show (rt'.view.slots i).active = true
  rcases h with h | h
  · rw [h]
    exact hact
  · rw [(h.agents i).1]
    exact hact

theorem deliverEvents_posted {mem : Nat → Bool} {sender : UInt32} {topic : CString} {payload : List UInt8}
    {subs : List UInt32} {k : Nat} {sent : UInt32} (hi : rt.agentSlotById sender = some i) :
    ReflTransGen (AgentView.PostedBy i) rt.view
      (deliverEvents mem sender topic payload subs k sent rt).2.view := by
  induction subs generalizing rt k sent with
  | nil => exact .refl
  | cons sub subs ih =>
    have hone := deliverEvent_posted (mem k) sub topic payload hi
    rw [deliverEvents]
    refine .trans ?_ (ih (slotById_of_posted hi hone))
    rcases hone with hone | hone
    · rw [hone]
    · exact .single hone

theorem fluxA2aBroadcast_mailed {mem : Nat → Bool} {sender : UInt32} {topic : CString}
    {payload : List UInt8} : rt.view.Mailed (rt.fluxA2aBroadcast mem sender topic payload).2.view := by
  unfold fluxA2aBroadcast
  split
  · exact .refl
  split
  · exact .refl
  split
  · exact .refl
  cases hi : rt.agentSlotById sender with
  | none => exact .refl
  | some i =>
    simp only
    split
    · exact .refl
    rename_i hcap
    split
    · exact .refl
    split_ifs
    · exact .refl
    · rw [view_noteSent]
      exact .posts i (communicates_of_holds hi hcap) (deliverEvents_posted hi)

/-! ## Delegation -/

/-- What `flux_a2a_delegate` does: nothing, or it posts a message, and if the message was put in the inbox of
the worker, the delegation is added to the table. -/
inductive Delegates (rt : AgentRuntime) (mem : Bool) (source target : UInt32) (task : List UInt8) :
    Except FluxStatus UInt32 → AgentView → Prop
  | refused (status : FluxStatus) : Delegates rt mem source target task (.error status) rt.view
  | posted (i j : AgentIdx) (status : FluxStatus) (id : UInt32) (V : AgentView) :
      rt.agentSlotById source = some i → rt.agentSlotById target = some j → source ≠ target →
      rt.view.Communicates i →
      rt.view.Posted mem j (delegateMsg rt.agentNow source target task) status id V →
      Delegates rt mem source target task (if status = .ok then .ok id else .error status)
        (if status = .ok then V.tracked i id target else V)

@[simp] theorem view_trackDelegation {id target : UInt32} :
    (rt.trackDelegation i id target).view = rt.view.tracked i id target :=
  view_modifySlot _ fun _ => rfl

theorem fluxA2aDelegate_delegates {source target : UInt32} {task : List UInt8} :
    rt.Delegates mem source target task (rt.fluxA2aDelegate mem source target task).1
      (rt.fluxA2aDelegate mem source target task).2.view := by
  unfold fluxA2aDelegate
  split
  · exact .refused _
  split
  · exact .refused _
  cases hi : rt.agentSlotById source with
  | none => exact .refused _
  | some i =>
    simp only
    split
    · exact .refused _
    rename_i hcap
    cases hj : rt.agentSlotById target with
    | none => exact .refused _
    | some j =>
      simp only
      split_ifs with hne
      · exact .refused _
      · exact .refused _
      have hposted := post_view rt mem j (delegateMsg rt.agentNow source target task)
      generalize rt.post mem j (delegateMsg rt.agentNow source target task) = r at hposted
      obtain ⟨status, id, rt'⟩ := r
      have := Delegates.posted i j status id rt'.view hi hj hne (communicates_of_holds hi hcap) hposted
      cases status
      case ok => simpa using this
      all_goals exact this

/-- What `flux_a2a_delegate_result` does: nothing, or it marks the delegation that it found as complete and
posts a message for the delegating agent. -/
inductive Answers (rt : AgentRuntime) (mem : Bool) (worker id : UInt32) (result : List UInt8) :
    FluxStatus → AgentView → Prop
  | refused (status : FluxStatus) : status ≠ .ok → Answers rt mem worker id result status rt.view
  | lost (d : AgentIdx) (k : Nat) : Answers rt mem worker id result .errNotfound (rt.view.completed d k)
  | posted (i d j : AgentIdx) (k : Nat) (status : FluxStatus) (msgId : UInt32) (V : AgentView) :
      rt.agentSlotById worker = some i → rt.view.Communicates i → rt.findDelegation id = some (d, k) →
      rt.agentSlotById (rt.agents d).desc.agentId = some j →
      (rt.view.completed d k).Posted mem j
        (resultMsg rt.agentNow worker (rt.agents d).desc.agentId id result) status msgId V →
      Answers rt mem worker id result status V

@[simp] theorem view_completeDelegation {d : AgentIdx} {k : Nat} :
    (rt.completeDelegation d k).view = rt.view.completed d k :=
  view_modifySlot _ fun _ => rfl

theorem slotById_completeDelegation {d : AgentIdx} {k : Nat} {id : UInt32} :
    (rt.completeDelegation d k).agentSlotById id = rt.agentSlotById id := by
  unfold agentSlotById
  congr 1
  funext i
  apply modifySlot_keeps AgentSlot.active
  intro slot
  rfl

theorem fluxA2aDelegateResult_answers {worker id : UInt32} {result : List UInt8} :
    rt.Answers mem worker id result (rt.fluxA2aDelegateResult mem worker id result).1
      (rt.fluxA2aDelegateResult mem worker id result).2.view := by
  unfold fluxA2aDelegateResult
  split
  · exact .refused _ (by simp)
  split
  · exact .refused _ (by simp)
  cases hi : rt.agentSlotById worker with
  | none => exact .refused _ (by simp)
  | some i =>
    simp only
    split
    · exact .refused _ (by simp)
    rename_i hcap
    cases hfind : rt.findDelegation id with
    | none => exact .refused _ (by simp)
    | some r =>
      obtain ⟨d, k⟩ := r
      simp only [slotById_completeDelegation]
      cases hj : rt.agentSlotById (rt.agents d).desc.agentId with
      | none =>
        simp only [view_completeDelegation]
        exact .lost d k
      | some j =>
        simp only
        have hposted := post_view (rt.completeDelegation d k) mem j
          (resultMsg rt.agentNow worker (rt.agents d).desc.agentId id result)
        rw [view_completeDelegation] at hposted
        have hnow : (rt.completeDelegation d k).agentNow = rt.agentNow := rfl
        rw [hnow]
        generalize (rt.completeDelegation d k).post mem j
          (resultMsg rt.agentNow worker (rt.agents d).desc.agentId id result) = r at hposted
        obtain ⟨status, msgId, rt'⟩ := r
        have := Answers.posted i d j k status msgId rt'.view hi (communicates_of_holds hi hcap) hfind hj
          hposted
        cases status
        case ok => simpa using this
        all_goals exact this

/-! ## Receiving -/

/-- What `takeMessage` does: the inbox is empty, the pointer is `NULL`, or a message is taken out. -/
inductive Takes (V : AgentView) (i : AgentIdx) : Option A2aMsg → AgentView → Prop
  | empty : (V.slots i).inbox.count = 0 → Takes V i none V
  | null : (V.slots i).inbox.count ≠ 0 → (V.slots i).inbox.slots (V.slots i).inbox.head = none →
      Takes V i none
        (V.modify i fun slot => { slot with inbox := slot.inbox.takeHead fluxInboxSize none })
  | message (ref : MsgRef) : (V.slots i).inbox.count ≠ 0 →
      (V.slots i).inbox.slots (V.slots i).inbox.head = some ref →
      Takes V i (some (V.pool.read ref))
        { V.modify i fun slot => { slot with inbox := slot.inbox.takeHead fluxInboxSize none } with
          pool := V.pool.msgPoolFree ref
          history := { V.history with
            events := V.history.events ++ [.dequeue i (V.pool.read ref)] } }

variable (rt i) in
theorem takeMessage_takes : Takes rt.view i (rt.takeMessage i).1 (rt.takeMessage i).2.view := by
  unfold takeMessage inboxDequeue
  by_cases hzero : (rt.agents i).inbox.count = 0
  · rw [if_pos hzero]
    exact .empty hzero
  · rw [if_neg hzero]
    have hview : (rt.modifySlot i fun slot =>
        { slot with inbox := slot.inbox.takeHead fluxInboxSize none }).view = _ :=
      view_modifySlot (fun slot => { slot with inbox := slot.inbox.takeHead fluxInboxSize none }) fun _ => rfl
    cases href : (rt.agents i).inbox.slots (rt.agents i).inbox.head with
    | none =>
      simp only [hview]
      exact .null hzero href
    | some ref =>
      simp only
      have hmsg := Takes.message (V := rt.view) (i := i) ref hzero href
      rw [← hview] at hmsg
      refine Eq.subst (Eq.symm ?_) hmsg
      exact view_modifyDesc_quiet fun _ => rfl

/-- A receive takes a message out of an inbox of an active agent, or does nothing. -/
inductive Received (V V' : AgentView) : Prop
  | none : V' = V → Received V V'
  | takes (i : AgentIdx) (msg : Option A2aMsg) : (V.slots i).active = true → Takes V i msg V' →
      Received V V'

theorem fluxA2aRecv_received {id timeout : UInt32} :
    Received rt.view (rt.fluxA2aRecv id timeout).2.view := by
  unfold fluxA2aRecv
  split
  · exact .none rfl
  cases hi : rt.agentSlotById id with
  | none => exact .none rfl
  | some i =>
    have htakes := takeMessage_takes rt i
    simp only
    generalize rt.takeMessage i = r at htakes
    obtain ⟨msg, rt'⟩ := r
    have : Received rt.view rt'.view := .takes i msg (active_of_slotById hi) htakes
    cases msg with
    | some => exact this
    | none =>
      simp only
      split_ifs <;> exact this

theorem recvRound_received {r : A2aReceive} : Received rt.view (rt.recvRound r).2.view := by
  unfold recvRound
  split
  · refine .none ?_
    unfold recvMark
    cases rt.agentSlotById r.agentId with
    | none => rfl
    | some i => exact view_markWaiting
  · unfold recvRetry
    cases hi : rt.agentSlotById r.agentId with
    | none => exact .none rfl
    | some i =>
      have htakes := takeMessage_takes rt i
      simp only
      generalize rt.takeMessage i = p at htakes
      obtain ⟨msg, rt'⟩ := p
      have : Received rt.view rt'.view := .takes i msg (active_of_slotById hi) htakes
      cases msg with
      | some => exact this
      | none =>
        simp only
        split_ifs <;> exact this

end AgentRuntime

end FluxOs
