import FluxOs.Agent.SandboxRules

/-!
# What a call leaves alone

The VM of an agent, its limits and its log are changed only by the calls that drive this agent: a run, a step,
a pause, a resume and a termination.  All other calls leave them alone, and none of them makes an agent end.
-/

namespace FluxOs

open AgentRuntime

namespace AgentSlot

variable {slot slot' slot'' : AgentSlot}

/-- The agent was terminated, or it failed. -/
def Ended (slot : AgentSlot) : Prop := slot.desc.state = .terminated ∨ slot.desc.state = .failed

/-- The agent neither executes nor has it ended. -/
def Passive (slot : AgentSlot) : Prop :=
  slot.desc.state = .idle ∨ slot.desc.state = .waiting ∨ slot.desc.state = .delegating

/-- The execution of the agent was not disturbed. -/
structure Undisturbed (slot slot' : AgentSlot) : Prop where
  vm : slot'.vm = slot.vm
  vmInitialized : slot'.vmInitialized = slot.vmInitialized
  limits : slot'.desc.limits = slot.desc.limits
  paused : slot'.paused = slot.paused
  active : slot'.active = slot.active
  log : slot'.log = slot.log
  state : slot'.desc.state = slot.desc.state ∨ slot'.Passive

theorem Undisturbed.refl : Undisturbed slot slot := ⟨rfl, rfl, rfl, rfl, rfl, rfl, .inl rfl⟩

theorem Undisturbed.trans (h : Undisturbed slot slot') (h' : Undisturbed slot' slot'') :
    Undisturbed slot slot'' := by
  refine ⟨h'.vm.trans h.vm, h'.vmInitialized.trans h.vmInitialized, h'.limits.trans h.limits,
    h'.paused.trans h.paused, h'.active.trans h.active, h'.log.trans h.log, ?_⟩
  obtain hsame | hpassive := h'.state
  · rw [Passive, hsame]
    exact h.state
  · exact .inr hpassive

theorem Undisturbed.passive (h : Undisturbed slot slot') (hpassive : slot.Passive) : slot'.Passive := by
  obtain hsame | hpassive' := h.state
  · rw [Passive, hsame]
    exact hpassive
  · exact hpassive'

theorem Passive.not_ended (h : slot.Passive) : ¬ slot.Ended := by
  rintro (hend | hend)
  all_goals
    rw [Passive, hend] at h
    simp at h

/-- A change of the descriptor. -/
theorem undisturbed_desc {g : AgentDesc → AgentDesc} (hlimits : ∀ d, (g d).limits = d.limits)
    (hstate : ∀ d, (g d).state = d.state ∨
      (g d).state = .idle ∨ (g d).state = .waiting ∨ (g d).state = .delegating) :
    Undisturbed slot { slot with desc := g slot.desc } :=
  ⟨rfl, rfl, hlimits slot.desc, rfl, rfl, rfl, hstate slot.desc⟩

theorem undisturbed_audit {now cap : UInt64} {agentId targetId : UInt32} {action : AuditAction} :
    Undisturbed slot (slot.audit now agentId targetId cap action) := by
  unfold audit
  simp only
  split_ifs <;> exact ⟨rfl, rfl, rfl, rfl, rfl, rfl, .inl rfl⟩

end AgentSlot

namespace AgentRuntime

variable {rt rt' rt'' : AgentRuntime} {i j k : AgentIdx} {mem : Bool} {id target : UInt32}

/-! ## Messages -/

theorem inboxEnqueue_agents {ref : MsgRef} (k : AgentIdx) :
    ∃ inbox, (rt.inboxEnqueue j ref).2.agents k = { rt.agents k with inbox } := by
  unfold inboxEnqueue
  split
  · exact ⟨_, rfl⟩
  by_cases hk : k = j
  · subst hk
    refine ⟨(rt.agents k).inbox.push fluxInboxSize (some ref), ?_⟩
    exact modifySlot_self (f := fun slot => { slot with inbox := slot.inbox.push fluxInboxSize (some ref) })
  · refine ⟨(rt.agents k).inbox, ?_⟩
    exact modifySlot_of_ne (f := fun slot => { slot with inbox := slot.inbox.push fluxInboxSize (some ref) }) hk

/-- Posting a message changes nothing of an agent but its inbox. -/
theorem post_agents {fill : UInt32 → A2aMsg} (k : AgentIdx) :
    ∃ inbox, (rt.post mem j fill).2.2.agents k = { rt.agents k with inbox } := by
  cases halloc : rt.msgPool.msgPoolAlloc mem with
  | none =>
    rw [post_of_none halloc]
    exact ⟨_, rfl⟩
  | some r =>
    obtain ⟨ref, pool⟩ := r
    obtain ⟨inbox, henqueue⟩ :
        ∃ inbox, ((rt.built ref pool fill).inboxEnqueue j ref).2.agents k = { rt.agents k with inbox } :=
      inboxEnqueue_agents k
    refine ⟨inbox, ?_⟩
    rw [post_of_alloc halloc, ← henqueue]
    generalize (rt.built ref pool fill).inboxEnqueue j ref = r
    obtain ⟨status, rt₂⟩ := r
    cases status <;> rfl

theorem inboxDequeue_agents {ref : Option MsgRef} (h : rt.inboxDequeue i = some (ref, rt')) (k : AgentIdx) :
    ∃ inbox, rt'.agents k = { rt.agents k with inbox } := by
  unfold inboxDequeue at h
  simp only at h
  split_ifs at h
  cases h
  by_cases hk : k = i
  · subst hk
    exact ⟨_, modifySlot_self⟩
  · exact ⟨_, modifySlot_of_ne hk⟩

/-- Taking a message changes nothing of an agent but its inbox and the time of its last activity. -/
theorem takeMessage_agents (k : AgentIdx) : ∃ inbox lastActive, (rt.takeMessage i).2.agents k =
    { rt.agents k with inbox, desc := { (rt.agents k).desc with lastActive } } := by
  unfold takeMessage
  cases hdequeue : rt.inboxDequeue i with
  | none => exact ⟨_, _, rfl⟩
  | some r =>
    obtain ⟨ref, rt₁⟩ := r
    obtain ⟨inbox, hinbox⟩ := inboxDequeue_agents hdequeue k
    cases ref with
    | none => exact ⟨inbox, _, hinbox⟩
    | some ref =>
      simp only
      by_cases hk : k = i
      · subst hk
        refine ⟨inbox, rt₁.agentNow, modifySlot_self.trans ?_⟩
        show ({ rt₁.agents k with desc := { (rt₁.agents k).desc with lastActive := _ } } : AgentSlot) = _
        rw [hinbox]
        rfl
      · refine ⟨inbox, (rt.agents k).desc.lastActive, Eq.trans ?_ hinbox⟩
        exact modifySlot_of_ne hk

/-! ## Calls that disturb no agent -/

/-- No agent was disturbed. -/
def Undisturbed (rt rt' : AgentRuntime) : Prop := ∀ k, (rt.agents k).Undisturbed (rt'.agents k)

theorem Undisturbed.refl : Undisturbed rt rt := fun _ => .refl

theorem Undisturbed.trans (h : Undisturbed rt rt') (h' : Undisturbed rt' rt'') : Undisturbed rt rt'' :=
  fun k => (h k).trans (h' k)

theorem Undisturbed.of_agents (h : rt'.agents = rt.agents) : Undisturbed rt rt' := by
  intro k
  rw [h]
  exact .refl

theorem undisturbed_modifySlot {f : AgentSlot → AgentSlot} (h : ∀ slot : AgentSlot, slot.Undisturbed (f slot)) :
    Undisturbed rt (rt.modifySlot i f) := by
  intro k
  by_cases hk : k = i
  · subst hk
    rw [modifySlot_self]
    exact h _
  · rw [modifySlot_of_ne hk]
    exact .refl

theorem undisturbed_modifyDesc {g : AgentDesc → AgentDesc} (hlimits : ∀ d, (g d).limits = d.limits)
    (hstate : ∀ d, (g d).state = d.state ∨
      (g d).state = .idle ∨ (g d).state = .waiting ∨ (g d).state = .delegating) :
    Undisturbed rt (rt.modifyDesc i g) := undisturbed_modifySlot fun _ => AgentSlot.undisturbed_desc hlimits hstate

theorem undisturbed_post {fill : UInt32 → A2aMsg} : Undisturbed rt (rt.post mem j fill).2.2 := by
  intro k
  obtain ⟨inbox, h⟩ : ∃ inbox, (rt.post mem j fill).2.2.agents k = { rt.agents k with inbox } :=
    post_agents k
  rw [h]
  exact ⟨rfl, rfl, rfl, rfl, rfl, rfl, .inl rfl⟩

theorem undisturbed_takeMessage : Undisturbed rt (rt.takeMessage i).2 := by
  intro k
  obtain ⟨inbox, lastActive, h⟩ : ∃ inbox lastActive, (rt.takeMessage i).2.agents k =
      { rt.agents k with inbox, desc := { (rt.agents k).desc with lastActive } } := takeMessage_agents k
  rw [h]
  exact ⟨rfl, rfl, rfl, rfl, rfl, rfl, .inl rfl⟩

theorem undisturbed_noteSent {n : UInt32} : Undisturbed rt (rt.noteSent i n) :=
  undisturbed_modifyDesc (fun _ => rfl) fun _ => .inl rfl

theorem undisturbed_noteReceived : Undisturbed rt (rt.noteReceived j) :=
  undisturbed_modifyDesc (fun _ => rfl) fun _ => .inl rfl

theorem undisturbed_wake : Undisturbed rt (rt.wake j) := by
  refine undisturbed_modifyDesc (fun d => ?_) fun d => ?_
  · split_ifs <;> rfl
  · split_ifs
    · exact .inr (.inl rfl)
    · exact .inl rfl

theorem undisturbed_markWaiting : Undisturbed rt (rt.markWaiting j) := by
  refine undisturbed_modifyDesc (fun d => ?_) fun d => ?_
  · split_ifs <;> rfl
  · split_ifs
    · exact .inr (.inr (.inl rfl))
    · exact .inl rfl

theorem undisturbed_wakeDelegator : Undisturbed rt (rt.wakeDelegator j) := by
  refine undisturbed_modifyDesc (fun d => ?_) fun d => ?_
  · split_ifs <;> rfl
  · split_ifs
    · exact .inr (.inl rfl)
    · exact .inl rfl

theorem undisturbed_trackDelegation : Undisturbed rt (rt.trackDelegation i id target) := by
  refine undisturbed_modifySlot fun slot => ⟨rfl, rfl, rfl, rfl, rfl, rfl, .inr ?_⟩
  exact .inr (.inr rfl)

theorem undisturbed_completeDelegation {n : Nat} : Undisturbed rt (rt.completeDelegation i n) :=
  undisturbed_modifySlot fun _ => ⟨rfl, rfl, rfl, rfl, rfl, rfl, .inl rfl⟩

theorem undisturbed_fluxA2aSend {sender : UInt32} {type : A2aType} {payload : List UInt8} :
    Undisturbed rt (rt.fluxA2aSend mem sender target type payload).2 := by
  unfold fluxA2aSend
  split
  · exact .refl
  split
  · exact .refl
  cases rt.agentSlotById sender with
  | none => exact .refl
  | some i =>
  cases rt.agentSlotById target with
  | none => exact .refl
  | some j =>
  simp only
  split
  · exact .refl
  split
  · exact .refl
  have hpost : Undisturbed rt (rt.post mem j (sendMsg rt.agentNow sender target type payload)).2.2 :=
    undisturbed_post
  generalize rt.post mem j (sendMsg rt.agentNow sender target type payload) = r at hpost
  obtain ⟨status, id, rt'⟩ := r
  cases status
  case ok => exact ((hpost.trans undisturbed_noteSent).trans undisturbed_noteReceived).trans undisturbed_wake
  all_goals exact hpost

theorem undisturbed_fluxA2aRecv {timeout : UInt32} : Undisturbed rt (rt.fluxA2aRecv id timeout).2 := by
  unfold fluxA2aRecv
  split
  · exact .refl
  split
  · exact .refl
  rename_i i _
  have htake : Undisturbed rt (rt.takeMessage i).2 := undisturbed_takeMessage
  generalize rt.takeMessage i = r at htake
  obtain ⟨msg, rt'⟩ := r
  cases msg with
  | some msg => exact htake
  | none =>
    simp only
    split_ifs <;> exact htake

theorem undisturbed_recvRound {r : A2aReceive} : Undisturbed rt (rt.recvRound r).2 := by
  unfold recvRound
  split_ifs
  · unfold recvMark
    simp only
    split
    · exact .refl
    · exact undisturbed_markWaiting
  unfold recvRetry
  split
  · exact .refl
  rename_i i _
  have htake : Undisturbed rt (rt.takeMessage i).2 := undisturbed_takeMessage
  generalize rt.takeMessage i = p at htake
  obtain ⟨msg, rt'⟩ := p
  cases msg with
  | some msg => exact htake
  | none =>
    simp only
    split_ifs <;> exact htake

theorem undisturbed_deliverEvent {sender sub : UInt32} {topic : CString} {payload : List UInt8} :
    Undisturbed rt (rt.deliverEvent mem sender topic payload sub).2 := by
  unfold deliverEvent
  split
  · exact .refl
  split
  · exact .refl
  rename_i j _
  have hpost : Undisturbed rt (rt.post mem j (eventMsg rt.agentNow sender sub topic payload)).2.2 :=
    undisturbed_post
  generalize rt.post mem j (eventMsg rt.agentNow sender sub topic payload) = r at hpost
  obtain ⟨status, id, rt'⟩ := r
  cases status
  case ok => exact (hpost.trans undisturbed_noteReceived).trans undisturbed_wake
  all_goals exact hpost

theorem undisturbed_deliverEvents {mem : Nat → Bool} {sender : UInt32} {topic : CString} {payload : List UInt8}
    {subs : List UInt32} {n : Nat} {sent : UInt32} :
    Undisturbed rt (deliverEvents mem sender topic payload subs n sent rt).2 := by
  induction subs generalizing n sent rt with
  | nil => exact .refl
  | cons sub subs ih => exact undisturbed_deliverEvent.trans ih

theorem undisturbed_fluxA2aBroadcast {mem : Nat → Bool} {sender : UInt32} {topic : CString}
    {payload : List UInt8} : Undisturbed rt (rt.fluxA2aBroadcast mem sender topic payload).2 := by
  unfold fluxA2aBroadcast
  split
  · exact .refl
  split
  · exact .refl
  split
  · exact .refl
  split
  · exact .refl
  split
  · exact .refl
  split
  · exact .refl
  split
  · exact .refl
  · exact undisturbed_deliverEvents.trans undisturbed_noteSent

theorem undisturbed_fluxA2aReply {original : A2aMsg} {payload : List UInt8} :
    Undisturbed rt (rt.fluxA2aReply mem original payload).2 := by
  unfold fluxA2aReply
  split
  · exact .refl
  split
  · exact .refl
  split
  · exact .refl
  split
  · exact .refl
  split
  · exact .refl
  rename_i j _
  have hpost : Undisturbed rt (rt.post mem j (replyMsg rt.agentNow original payload)).2.2 := undisturbed_post
  generalize rt.post mem j (replyMsg rt.agentNow original payload) = r at hpost
  obtain ⟨status, id, rt'⟩ := r
  cases status
  case ok => exact ((hpost.trans undisturbed_noteSent).trans undisturbed_noteReceived).trans undisturbed_wake
  all_goals exact hpost

theorem undisturbed_fluxA2aDelegate {source : UInt32} {task : List UInt8} :
    Undisturbed rt (rt.fluxA2aDelegate mem source target task).2 := by
  unfold fluxA2aDelegate
  split
  · exact .refl
  split
  · exact .refl
  split
  · exact .refl
  split
  · exact .refl
  split
  · exact .refl
  rename_i j _
  split
  · exact .refl
  split
  · exact .refl
  have hpost : Undisturbed rt (rt.post mem j (delegateMsg rt.agentNow source target task)).2.2 :=
    undisturbed_post
  generalize rt.post mem j (delegateMsg rt.agentNow source target task) = r at hpost
  obtain ⟨status, id, rt'⟩ := r
  cases status
  case ok =>
    exact (((hpost.trans undisturbed_noteSent).trans undisturbed_noteReceived).trans
      undisturbed_trackDelegation).trans undisturbed_wake
  all_goals exact hpost

theorem undisturbed_fluxA2aDelegateResult {worker : UInt32} {result : List UInt8} :
    Undisturbed rt (rt.fluxA2aDelegateResult mem worker id result).2 := by
  unfold fluxA2aDelegateResult
  split
  · exact .refl
  split
  · exact .refl
  split
  · exact .refl
  split
  · exact .refl
  split
  · exact .refl
  rename_i d n _
  simp only
  have hcomplete : Undisturbed rt (rt.completeDelegation d n) := undisturbed_completeDelegation
  refine hcomplete.trans ?_
  generalize rt.completeDelegation d n = rt₁
  split
  · exact .refl
  rename_i j _
  have hpost : Undisturbed rt₁ (rt₁.post mem j
      (resultMsg rt₁.agentNow worker (rt.agents d).desc.agentId id result)).2.2 := undisturbed_post
  generalize rt₁.post mem j (resultMsg rt₁.agentNow worker (rt.agents d).desc.agentId id result) = r at hpost
  obtain ⟨status, msgId, rt'⟩ := r
  cases status
  case ok =>
    exact ((hpost.trans undisturbed_noteSent).trans undisturbed_noteReceived).trans undisturbed_wakeDelegator
  all_goals exact hpost

/-! ## Capabilities and registries -/

theorem undisturbed_auditLogRecord {agentId targetId : UInt32} {cap : UInt64} {action : AuditAction} :
    Undisturbed rt (rt.auditLogRecord agentId targetId cap action) := by
  unfold auditLogRecord
  split
  · exact .refl
  · exact undisturbed_modifySlot fun _ => AgentSlot.undisturbed_audit

theorem undisturbed_modifyCaps {f : UInt64 → UInt64} : Undisturbed rt (rt.modifyCaps i f) :=
  undisturbed_modifyDesc (fun _ => rfl) fun _ => .inl rfl

theorem undisturbed_modifyCapList {f : List CapDesc → List CapDesc} : Undisturbed rt (rt.modifyCapList i f) :=
  undisturbed_modifyDesc (fun _ => rfl) fun _ => .inl rfl

theorem undisturbed_fluxAgentGrantCap {cap : UInt64} : Undisturbed rt (rt.fluxAgentGrantCap id cap).2 := by
  unfold fluxAgentGrantCap
  split
  · exact .refl
  split
  · exact .refl
  split
  · exact .refl
  · exact undisturbed_modifyCaps.trans undisturbed_auditLogRecord

theorem undisturbed_fluxAgentRevokeCap {cap : UInt64} : Undisturbed rt (rt.fluxAgentRevokeCap id cap).2 := by
  unfold fluxAgentRevokeCap
  split
  · exact .refl
  split
  · exact .refl
  split
  · exact .refl
  split
  · exact .refl
  · exact undisturbed_modifyCaps.trans undisturbed_auditLogRecord

theorem undisturbed_fluxAgentHasCap {cap : UInt64} : Undisturbed rt (rt.fluxAgentHasCap id cap).2 := by
  unfold fluxAgentHasCap
  split
  · exact .refl
  split
  · exact .refl
  split
  · exact .refl
  · exact undisturbed_auditLogRecord

theorem undisturbed_fluxAgentTransferCap {source : UInt32} {cap : UInt64} :
    Undisturbed rt (rt.fluxAgentTransferCap source target cap).2 := by
  unfold fluxAgentTransferCap
  split
  · exact .refl
  split
  · exact .refl
  split
  · exact .refl
  cases rt.agentSlotById source with
  | none => exact .refl
  | some i =>
  cases rt.agentSlotById target with
  | none => exact .refl
  | some j =>
  simp only
  split
  · exact .refl
  split
  · exact .refl
  split
  · exact .refl
  · exact ((undisturbed_modifyCaps.trans undisturbed_modifyCaps).trans undisturbed_auditLogRecord).trans
      undisturbed_auditLogRecord

theorem undisturbed_fluxAgentInheritCaps {parent child : UInt32} :
    Undisturbed rt (rt.fluxAgentInheritCaps parent child).2 := by
  unfold fluxAgentInheritCaps
  split
  · exact .refl
  cases rt.agentSlotById parent with
  | none => exact .refl
  | some i =>
  cases rt.agentSlotById child with
  | none => exact .refl
  | some j => exact (undisturbed_modifyCaps.trans undisturbed_auditLogRecord).trans undisturbed_auditLogRecord

theorem undisturbed_fluxAgentPublishCap {name : CString} {description : Option CString} :
    Undisturbed rt (rt.fluxAgentPublishCap id name description).2 := by
  unfold fluxAgentPublishCap
  split
  · exact .refl
  split
  · exact .refl
  split
  · exact .refl
  split
  · split
    · cases description <;> exact .of_agents rfl
    · exact .refl
  split
  · exact .refl
  split
  · exact .refl
  rename_i i _ _ _ n _
  have hadd (entry : PublishedCap) : Undisturbed rt (rt.addPubCap n entry) := .of_agents rfl
  dsimp only
  exact (hadd _).trans undisturbed_modifyCapList

theorem undisturbed_fluxAgentUnpublishCap {name : CString} :
    Undisturbed rt (rt.fluxAgentUnpublishCap id name).2 := by
  unfold fluxAgentUnpublishCap
  split
  · exact .refl
  split
  · exact .refl
  split
  · exact .refl
  split
  · exact .refl
  simp only
  split
  · exact .of_agents rfl
  · exact undisturbed_modifyCapList

theorem agents_findOrCreateTopic {topic : CString} :
    (rt.findOrCreateTopic topic).2.agents = rt.agents := by
  unfold findOrCreateTopic
  split
  · rfl
  split
  · rfl
  split <;> rfl

theorem undisturbed_fluxAgentSubscribe {topic : CString} :
    Undisturbed rt (rt.fluxAgentSubscribe id topic).2 := by
  unfold fluxAgentSubscribe
  split
  · exact .refl
  split
  · exact .refl
  split
  · exact .refl
  have hagents : (rt.findOrCreateTopic topic).2.agents = rt.agents := agents_findOrCreateTopic
  generalize rt.findOrCreateTopic topic = r at hagents
  obtain ⟨n, rt'⟩ := r
  cases n with
  | none => exact .of_agents hagents
  | some n =>
    simp only
    split
    · exact .of_agents hagents
    split <;> exact .of_agents hagents

theorem undisturbed_fluxAgentUnsubscribe {topic : CString} :
    Undisturbed rt (rt.fluxAgentUnsubscribe id topic).2 := by
  unfold fluxAgentUnsubscribe
  split
  · exact .refl
  split
  · exact .refl
  split
  · exact .refl
  split <;> exact .of_agents rfl

/-! ## Calls for another agent -/

theorem clearSlot_agents_of_ne (hk : k ≠ i) : (rt.clearSlot i).agents k = rt.agents k :=
  modifySlot_of_ne (f := fun _ => .zero) hk

/-- An active agent is left alone when another one is spawned. -/
theorem fluxAgentSpawn_agents_of_bit {host : Host} {name model : Option CString} {caps len : UInt64}
    {bytecode : Option (Nat → UInt8)} (hbit : rt.agentBitmap k = true) :
    (rt.fluxAgentSpawn host mem name model caps bytecode len).2.agents k = rt.agents k := by
  unfold fluxAgentSpawn agentAllocId
  split
  · rfl
  split
  · rfl
  cases hfind : (List.finRange fluxAgentMax).find? fun i => !rt.agentBitmap i with
  | none => rfl
  | some i =>
    have hfree : rt.agentBitmap i = false := by simpa using List.find?_some hfind
    have hne : k ≠ i := by
      rintro rfl
      rw [hbit] at hfree
      cases hfree
    dsimp only
    split_ifs
    · dsimp only
      rw [modifySlot_of_ne hne, clearSlot_agents_of_ne hne]
    · rw [agentFreeId, agentIndexFromId_agentIdOf]
      dsimp only
      rw [clearSlot_agents_of_ne hne]
    · dsimp only
      rw [modifySlot_of_ne hne, clearSlot_agents_of_ne hne]

theorem ne_of_slotById (hk : id ≠ agentIdOf k) (hi : rt.agentSlotById id = some i) : k ≠ i := by
  rintro rfl
  exact hk (agentSlotById_eq_some.1 hi).1

theorem fluxAgentTerminate_agents_of_ne (hk : id ≠ agentIdOf k) :
    (rt.fluxAgentTerminate id).2.agents k = rt.agents k := by
  unfold fluxAgentTerminate
  split
  · rfl
  cases hi : rt.agentSlotById id with
  | none => rfl
  | some i =>
    have hne : k ≠ i := ne_of_slotById hk hi
    simp only
    split
    · rfl
    · rw [(agentSlotById_eq_some.1 hi).1, agentFreeId, agentIndexFromId_agentIdOf]
      exact (modifySlot_of_ne hne).trans (modifySlot_of_ne hne)

/-- What a pause does with the slot of its agent. -/
theorem fluxAgentPause_agents_self (hinit : rt.initialized = true) (hact : (rt.agents k).active = true)
    (hended : ¬ (rt.agents k).Ended) (hpaused : (rt.agents k).paused = false) :
    rt.fluxAgentPause (agentIdOf k) = (.ok, rt.modifySlot k (pauseSlot rt.agentNow)) := by
  have hk : rt.agentSlotById (agentIdOf k) = some k := agentSlotById_eq_some.2 ⟨rfl, hact⟩
  have hstate : ¬ ((rt.agents k).desc.state = .terminated ∨ (rt.agents k).desc.state = .failed) := hended
  unfold fluxAgentPause
  simp [hinit, hk, hstate, hpaused]

/-- What a resume does with the slot of its agent. -/
theorem fluxAgentResume_agents_self (hinit : rt.initialized = true) (hact : (rt.agents k).active = true)
    (hpaused : (rt.agents k).paused = true) :
    rt.fluxAgentResume (agentIdOf k) = (.ok, rt.modifySlot k (resumeSlot rt.agentNow)) := by
  have hk : rt.agentSlotById (agentIdOf k) = some k := agentSlotById_eq_some.2 ⟨rfl, hact⟩
  unfold fluxAgentResume
  simp [hinit, hk, hpaused]

/-- A pause changes nothing, or the slot of its agent, which is not paused yet. -/
theorem fluxAgentPause_cases (rt : AgentRuntime) (id : UInt32) : (rt.fluxAgentPause id).2 = rt ∨
    ∃ i, rt.agentSlotById id = some i ∧ ¬ (rt.agents i).Ended ∧ (rt.agents i).paused = false ∧
      (rt.fluxAgentPause id).2 = rt.modifySlot i (pauseSlot rt.agentNow) := by
  unfold fluxAgentPause
  split
  · exact .inl rfl
  cases hi : rt.agentSlotById id with
  | none => exact .inl rfl
  | some i =>
    simp only
    split_ifs with hended hpaused
    · exact .inl rfl
    · exact .inl rfl
    · exact .inr ⟨i, rfl, hended, by simpa using hpaused, rfl⟩

/-- A resume changes nothing, or the slot of its agent, which is paused. -/
theorem fluxAgentResume_cases (rt : AgentRuntime) (id : UInt32) : (rt.fluxAgentResume id).2 = rt ∨
    ∃ i, rt.agentSlotById id = some i ∧ (rt.agents i).paused = true ∧
      (rt.fluxAgentResume id).2 = rt.modifySlot i (resumeSlot rt.agentNow) := by
  unfold fluxAgentResume
  split
  · exact .inl rfl
  cases hi : rt.agentSlotById id with
  | none => exact .inl rfl
  | some i =>
    simp only
    split_ifs with hpaused
    · exact .inl rfl
    · exact .inr ⟨i, rfl, by simpa using hpaused, rfl⟩

theorem fluxAgentPause_agents_of_ne (hk : id ≠ agentIdOf k) :
    (rt.fluxAgentPause id).2.agents k = rt.agents k := by
  obtain heq | ⟨i, hi, -, -, heq⟩ := fluxAgentPause_cases rt id
  · rw [heq]
  · rw [heq, modifySlot_of_ne (ne_of_slotById hk hi)]

theorem fluxAgentResume_agents_of_ne (hk : id ≠ agentIdOf k) :
    (rt.fluxAgentResume id).2.agents k = rt.agents k := by
  obtain heq | ⟨i, hi, -, heq⟩ := fluxAgentResume_cases rt id
  · rw [heq]
  · rw [heq, modifySlot_of_ne (ne_of_slotById hk hi)]

end AgentRuntime

/-- The call drives the agent with this id. -/
def AgentAction.Drives (id : UInt32) : AgentAction → Prop
  | .terminate id' | .pause id' | .resume id' | .run _ id' _ | .step _ id' => id' = id
  | _ => False

namespace AgentSystem

variable {s t : AgentSystem} {a : AgentAction} {as : List AgentAction} {k : AgentIdx}

/-- A call that does not drive an agent does not disturb it. -/
theorem undisturbed_of_step (hbit : s.rt.agentBitmap k = true) (ha : ¬ a.Drives (agentIdOf k))
    (h : step a s = some t) : (s.rt.agents k).Undisturbed (t.rt.agents k) := by
  have hother {rt : AgentRuntime} (heq : rt.agents k = s.rt.agents k) :
      (s.rt.agents k).Undisturbed (rt.agents k) := by
    rw [heq]
    exact .refl
  cases a with
  | spawn => cases h; exact hother (fluxAgentSpawn_agents_of_bit hbit)
  | terminate => cases h; exact hother (fluxAgentTerminate_agents_of_ne ha)
  | pause => cases h; exact hother (fluxAgentPause_agents_of_ne ha)
  | resume => cases h; exact hother (fluxAgentResume_agents_of_ne ha)
  | grant => cases h; exact undisturbed_fluxAgentGrantCap k
  | revoke => cases h; exact undisturbed_fluxAgentRevokeCap k
  | hasCap => cases h; exact undisturbed_fluxAgentHasCap k
  | transfer => cases h; exact undisturbed_fluxAgentTransferCap k
  | inherit => cases h; exact undisturbed_fluxAgentInheritCaps k
  | send => cases h; exact undisturbed_fluxA2aSend k
  | recv => cases h; exact undisturbed_fluxA2aRecv k
  | recvRound p =>
    rw [step] at h
    split_ifs at h
    cases h
    exact undisturbed_recvRound k
  | broadcast => cases h; exact undisturbed_fluxA2aBroadcast k
  | reply => cases h; exact undisturbed_fluxA2aReply k
  | delegate => cases h; exact undisturbed_fluxA2aDelegate k
  | delegateResult => cases h; exact undisturbed_fluxA2aDelegateResult k
  | publish => cases h; exact undisturbed_fluxAgentPublishCap k
  | unpublish => cases h; exact undisturbed_fluxAgentUnpublishCap k
  | subscribe => cases h; exact undisturbed_fluxAgentSubscribe k
  | unsubscribe => cases h; exact undisturbed_fluxAgentUnsubscribe k
  | run host id maxTicks =>
    obtain ⟨r, hr, hafter⟩ := Option.bind_eq_some_iff.1 h
    obtain ⟨status, -, rfl⟩ | ⟨i, r', hi, -, -, rfl⟩ := fluxAgentRun_cases hr
    · cases hafter
      exact .refl
    · refine hother ?_
      obtain ⟨result, slot⟩ := r'
      cases result with
      | error => cases hafter
      | ok status =>
        cases hafter
        exact modifySlot_of_ne (f := fun _ => slot) (ne_of_slotById ha hi)
  | step host id =>
    rw [step] at h
    obtain ⟨status, -, heq⟩ | ⟨i, hi, -, -, heq⟩ := fluxAgentStep_cases s.rt host id
    · rw [heq] at h
      cases h
      exact .refl
    · refine hother ?_
      rw [heq] at h
      generalize (s.rt.agents i).step host s.rt.agentNow = r at h
      obtain ⟨result, slot⟩ := r
      cases result with
      | error => cases h
      | ok status =>
        cases h
        exact modifySlot_of_ne (f := fun _ => slot) (ne_of_slotById ha hi)
  | tick => cases h; exact .refl

end AgentSystem

end FluxOs
