import FluxOs.Agent.Provenance
import FluxOs.Agent.Registrations
import FluxOs.Lib.Memberships

/-!
# Subscriptions

A run with a ledger of the subscriptions that were accepted and not given up since.  `find_or_create_topic` stores 31
bytes of the name of a topic, while all searches compare the whole one.  As long as the names are shorter, no agent
is terminated with a subscription and there is memory for the messages, a broadcast puts one event in the inbox of
each other agent that is in the ledger and has room, and nothing in the inboxes of agents that are not
(`subscriptions_delivered`).
-/

namespace FluxOs

open Actions AgentRuntime AgentView Memberships

namespace AgentRuntime

/-! ## Topics -/

/-- The topics are told apart by their names, which are terminated, and list no agent twice. -/
structure TopicsSound (topics : List FluxTopic) : Prop where
  distinct : Distinct FluxTopic.name FluxTopic.subscribers topics
  named : ∀ tp ∈ topics, tp.name.bytes ≠ []

/-- The agent is a subscriber of the topic. -/
def Subscribed (topics : List FluxTopic) (id : UInt32) (topic : CString) : Prop :=
  Member FluxTopic.name FluxTopic.subscribers topics id topic

variable {rt rt' : AgentRuntime} {id : UInt32} {topic : CString} {tp : FluxTopic} {l r : List FluxTopic}

/-- The runtime after the topics changed. -/
def withTopics (rt : AgentRuntime) (topics : List FluxTopic) : AgentRuntime := { rt with topics }

variable (rt) in
theorem findTopicByName_cases (hne : topic.bytes ≠ []) :
    (rt.findTopicByName topic = none ∧ ∀ tp ∈ rt.topics, tp.name ≠ topic) ∨
      ∃ l tp r, rt.topics = l ++ tp :: r ∧ tp.name = topic ∧ rt.findTopicByName topic = some l.length := by
  rw [findTopicByName, if_neg hne]
  cases hfind : rt.topics.findIdx? fun tp => decide (tp.name = topic) with
  | none => exact .inl ⟨rfl, fun tp htp => by simpa using List.findIdx?_eq_none_iff.1 hfind tp htp⟩
  | some k =>
    obtain ⟨hk, hname, -⟩ := List.findIdx?_eq_some_iff_getElem.1 hfind
    right
    refine ⟨rt.topics.take k, rt.topics[k], rt.topics.drop (k + 1), ?_, of_decide_eq_true hname, ?_⟩
    · simp
    · rw [List.length_take_of_le hk.le]

theorem subscribersOf_middle (h : rt.topics = l ++ tp :: r) : rt.subscribersOf l.length = tp.subscribers := by
  simp [subscribersOf, h]

theorem modify_middle {α : Type} {f : α → α} {x : α} {l r : List α} :
    (l ++ x :: r).modify l.length f = l ++ f x :: r := by
  induction l with
  | nil => rfl
  | cons y l ih => simp [ih]

theorem modifySubscribers_middle {f : List UInt32 → List UInt32} (h : rt.topics = l ++ tp :: r) :
    rt.modifySubscribers l.length f =
      rt.withTopics (l ++ { tp with subscribers := f tp.subscribers } :: r) := by
  rw [modifySubscribers, h, modify_middle]
  rfl

/-! ## Subscribing -/

/-- What `flux_agent_subscribe` does: it refuses, it finds the agent subscribed, it adds it to a topic, or it makes a
topic for it. -/
inductive Subscribes (rt : AgentRuntime) (id : UInt32) (topic : CString) : FluxStatus × AgentRuntime → Prop
  | refused (status : FluxStatus) : status ≠ .ok → Subscribes rt id topic (status, rt)
  | known (l : List FluxTopic) (tp : FluxTopic) (r : List FluxTopic) : rt.topics = l ++ tp :: r →
      tp.name = topic → id ∈ tp.subscribers → Subscribes rt id topic (.ok, rt)
  | joined (l : List FluxTopic) (tp : FluxTopic) (r : List FluxTopic) : rt.topics = l ++ tp :: r →
      tp.name = topic → id ∉ tp.subscribers →
      Subscribes rt id topic
        (.ok, rt.withTopics (l ++ { tp with subscribers := tp.subscribers ++ [id] } :: r))
  | created (i : AgentIdx) : rt.agentSlotById id = some i → topic.bytes ≠ [] →
      (∀ tp ∈ rt.topics, tp.name ≠ topic) → rt.topics.length < fluxTopicMax →
      Subscribes rt id topic (.ok, rt.withTopics (rt.topics ++ [⟨topic.copyTo fluxTopicMax, [id]⟩]))

variable (rt id topic) in
theorem fluxAgentSubscribe_subscribes : Subscribes rt id topic (rt.fluxAgentSubscribe id topic) := by
  unfold fluxAgentSubscribe
  split
  · exact .refused _ (by decide)
  by_cases hne : topic.bytes = []
  · rw [if_pos hne]
    exact .refused _ (by decide)
  rw [if_neg hne]
  cases hslot : rt.agentSlotById id with
  | none => exact .refused _ (by decide)
  | some i =>
    simp only [findOrCreateTopic, if_neg hne]
    rcases findTopicByName_cases rt hne with ⟨hfind, hnew⟩ | ⟨l, tp, r, htopics, hname, hfind⟩
    · simp only [hfind]
      by_cases hfull : rt.topics.length ≥ fluxTopicMax
      · rw [if_pos hfull]
        exact .refused _ (by decide)
      · rw [if_neg hfull]
        have hmiddle : (rt.withTopics (rt.topics ++ [⟨topic.copyTo fluxTopicMax, []⟩])).topics =
            rt.topics ++ ⟨topic.copyTo fluxTopicMax, []⟩ :: [] := rfl
        have hnone := subscribersOf_middle hmiddle
        have hjoin := modifySubscribers_middle (f := (· ++ [id])) hmiddle
        simp only [withTopics] at hnone hjoin
        simp only [hnone, hjoin]
        exact .created i hslot hne hnew (Nat.lt_of_not_le hfull)
    · simp only [hfind, subscribersOf_middle htopics, modifySubscribers_middle htopics]
      split_ifs with hmem
      · exact .known l tp r htopics hname hmem
      · exact .refused _ (by decide)
      · exact .joined l tp r htopics hname hmem

/-- What `flux_agent_unsubscribe` does. -/
inductive Unsubscribes (rt : AgentRuntime) (id : UInt32) (topic : CString) : FluxStatus × AgentRuntime → Prop
  | refused (status : FluxStatus) : status ≠ .ok → Unsubscribes rt id topic (status, rt)
  | left (l : List FluxTopic) (tp : FluxTopic) (r : List FluxTopic) : rt.topics = l ++ tp :: r →
      tp.name = topic →
      Unsubscribes rt id topic
        (.ok, rt.withTopics (l ++ { tp with subscribers := tp.subscribers.erase id } :: r))

variable (rt id topic) in
theorem fluxAgentUnsubscribe_unsubscribes : Unsubscribes rt id topic (rt.fluxAgentUnsubscribe id topic) := by
  unfold fluxAgentUnsubscribe
  split
  · exact .refused _ (by decide)
  by_cases hne : topic.bytes = []
  · rw [if_pos hne]
    exact .refused _ (by decide)
  rw [if_neg hne]
  rcases findTopicByName_cases rt hne with ⟨hfind, -⟩ | ⟨l, tp, r, htopics, hname, hfind⟩
  · simp only [hfind]
    exact .refused _ (by decide)
  · simp only [hfind, subscribersOf_middle htopics, modifySubscribers_middle htopics]
    split_ifs
    · exact .left l tp r htopics hname
    · exact .refused _ (by decide)

/-! ## What leaves the topics alone -/

theorem fluxAgentPublishCap_topics {name : CString} {description : Option CString} :
    (rt.fluxAgentPublishCap id name description).2.topics = rt.topics := by
  unfold fluxAgentPublishCap
  repeat' split
  all_goals rfl

theorem fluxAgentUnpublishCap_topics {name : CString} :
    (rt.fluxAgentUnpublishCap id name).2.topics = rt.topics := by
  unfold fluxAgentUnpublishCap
  split
  · rfl
  split
  · rfl
  split
  · rfl
  split_ifs
  · rfl
  simp only
  split
  · rfl
  · rfl

/-! ## What the topics say -/

theorem TopicsSound.middle {tp' : FluxTopic} (h : TopicsSound (l ++ tp :: r)) (hname : tp'.name = tp.name)
    (hdistinct : Distinct FluxTopic.name FluxTopic.subscribers (l ++ tp' :: r)) : TopicsSound (l ++ tp' :: r) := by
  refine ⟨hdistinct, fun x hx => ?_⟩
  rw [List.mem_append, List.mem_cons] at hx
  rcases hx with hx | rfl | hx
  · exact h.named x (by simp [hx])
  · rw [hname]
    exact h.named tp (by simp)
  · exact h.named x (by simp [hx])

/-- A subscription that is accepted is added, if the name of a new topic is not longer than what is stored of it. -/
theorem Subscribes.topics {result : FluxStatus × AgentRuntime} (hsub : Subscribes rt id topic result)
    (h : TopicsSound rt.topics)
    (hfits : (rt.agentSlotById id).isSome = true → rt.topics.length < fluxTopicMax →
      topic.bytes.length < fluxTopicMax) :
    TopicsSound result.2.topics ∧
      ∀ o k, Subscribed result.2.topics o k ↔
        Subscribed rt.topics o k ∨ (result.1 = .ok ∧ o = id ∧ k = topic) := by
  cases hsub with
  | refused status hstatus =>
    refine ⟨h, fun o k => ?_⟩
    simp [hstatus]
  | known l tp r htopics hname hmem =>
    refine ⟨h, fun o k => ?_⟩
    have hold : Subscribed rt.topics id topic := ⟨tp, by simp [htopics], hname, hmem⟩
    constructor
    · intro hok
      exact .inl hok
    · rintro (hok | ⟨-, rfl, rfl⟩)
      · exact hok
      · exact hold
  | joined l tp r htopics hname hmem =>
    rw [htopics] at h ⊢
    obtain ⟨hdistinct, hmembers⟩ := member_join h.distinct
      (show FluxTopic.name { tp with subscribers := tp.subscribers ++ [id] } = tp.name from rfl) rfl hmem
    refine ⟨h.middle rfl hdistinct, fun o k => (hmembers o k).trans ?_⟩
    simp [hname, Subscribed]
  | created i hslot hne hnew hroom =>
    have hcopy : topic.copyTo fluxTopicMax = topic := CString.copyTo_of_lt (hfits (by simp [hslot]) hroom)
    rw [hcopy]
    obtain ⟨hdistinct, hmembers⟩ := member_new (g := ⟨topic, [id]⟩) h.distinct hnew rfl
    refine ⟨⟨hdistinct, fun tp htp => ?_⟩, fun o k => (hmembers o k).trans ?_⟩
    · rcases List.mem_append.1 htp with hold | hlast
      · exact h.named tp hold
      · rw [List.mem_singleton.1 hlast]
        exact hne
    · simp [Subscribed]

/-- A subscription that is given up is gone. -/
theorem Unsubscribes.topics {result : FluxStatus × AgentRuntime} (hunsub : Unsubscribes rt id topic result)
    (h : TopicsSound rt.topics) :
    TopicsSound result.2.topics ∧
      ∀ o k, Subscribed result.2.topics o k ↔
        Subscribed rt.topics o k ∧ ¬ (result.1 = .ok ∧ o = id ∧ k = topic) := by
  cases hunsub with
  | refused status hstatus =>
    refine ⟨h, fun o k => ?_⟩
    simp [hstatus]
  | left l tp r htopics hname =>
    rw [htopics] at h ⊢
    obtain ⟨hdistinct, hmembers⟩ := member_leave h.distinct
      (show FluxTopic.name { tp with subscribers := tp.subscribers.erase id } = tp.name from rfl) rfl
    refine ⟨h.middle rfl hdistinct, fun o k => (hmembers o k).trans ?_⟩
    simp [hname, Subscribed]

end AgentRuntime

/-! ## Delivering -/

namespace AgentView

variable {V V' : AgentView} {j k : AgentIdx} {m : A2aMsg}

/-- The messages of an inbox, from the head on. -/
def messages (V : AgentView) (i : AgentIdx) : List A2aMsg := (V.stored i).map V.pool.read

theorem MailSound.messages_eq (h : V.MailSound) (h' : V'.MailSound)
    (hlog : inboxLog V'.history.events k = inboxLog V.history.events k) : V'.messages k = V.messages k := by
  have horder : (inboxLog V.history.events k).enqueued = _ ++ V.messages k := h.order k
  have horder' : (inboxLog V'.history.events k).enqueued = _ ++ V'.messages k := h'.order k
  rw [hlog, horder] at horder'
  exact (List.append_cancel_left horder').symm

theorem MailSound.messages_enqueue (h : V.MailSound) (h' : V'.MailSound)
    (hevents : V'.history.events = V.history.events ++ [.enqueue j m]) :
    V'.messages j = V.messages j ++ [m] ∧ ∀ k, k ≠ j → V'.messages k = V.messages k := by
  constructor
  · have horder : (inboxLog V.history.events j).enqueued = _ ++ V.messages j := h.order j
    have horder' : (inboxLog V'.history.events j).enqueued = _ ++ V'.messages j := h'.order j
    rw [hevents, inboxLog_append, InboxLog.note, if_pos rfl, horder, List.append_assoc] at horder'
    exact (List.append_cancel_left horder').symm
  · intro k hk
    refine h.messages_eq h' ?_
    rw [hevents, inboxLog_append, InboxLog.note_of_ne hk]

/-- A message that is posted is the last one of its inbox; a message that is not posted leaves nothing. -/
theorem Posted.messages {mem : Bool} {fill : UInt32 → A2aMsg} {status : FluxStatus} {id : UInt32}
    (hposted : V.Posted mem j fill status id V') (h : V.MailSound) (hact : (V.slots j).active = true) :
    (∀ k, k ≠ j → V'.messages k = V.messages k ∧ (V'.slots k).inbox = (V.slots k).inbox) ∧
      (mem = true → (V.slots j).inbox.count < fluxInboxSize → V'.messages j = V.messages j ++ [fill id]) := by
  have h' : V'.MailSound := h.posted hact hposted
  cases hposted with
  | noMemory hnone =>
    refine ⟨fun k _ => ⟨rfl, rfl⟩, fun hmem => ?_⟩
    subst hmem
    unfold MsgPool.msgPoolAlloc at hnone
    split at hnone
    · cases hnone
    · cases hnone
  | full ref pool halloc hfull =>
    refine ⟨fun k _ => ⟨h.messages_eq h' rfl, rfl⟩, fun _ hroom => ?_⟩
    exact absurd hroom (Nat.not_lt.2 hfull)
  | accepted ref pool halloc hroom =>
    obtain ⟨hself, hother⟩ := h.messages_enqueue h' rfl
    refine ⟨fun k hk => ⟨hother k hk, congrArg SlotView.inbox ?_⟩, fun _ _ => hself⟩
    exact enqueued_of_ne hk

end AgentView

namespace AgentRuntime

variable {rt rt' rt'' : AgentRuntime} {mem : Bool} {sender sub : UInt32} {topic : CString} {payload : List UInt8}
  {subs : List UInt32}

/-- Each agent of the list other than the sender whose inbox has room has got one event, and nobody else anything. -/
structure Delivery (rt : AgentRuntime) (sender : UInt32) (topic : CString) (payload : List UInt8)
    (subs : List UInt32) (rt' : AgentRuntime) : Prop where
  mail : rt'.view.MailSound
  now : rt'.agentNow = rt.agentNow
  active : ∀ k, (rt'.view.slots k).active = (rt.view.slots k).active
  other : ∀ k, agentIdOf k ∉ subs ∨ agentIdOf k = sender →
    rt'.view.messages k = rt.view.messages k ∧ (rt'.view.slots k).inbox = (rt.view.slots k).inbox
  delivered : ∀ k, agentIdOf k ∈ subs → agentIdOf k ≠ sender → (rt.view.slots k).active = true →
    (rt.view.slots k).inbox.count < fluxInboxSize →
    ∃ id, rt'.view.messages k =
      rt.view.messages k ++ [eventMsg rt.agentNow sender (agentIdOf k) topic payload id]

theorem Delivery.nil (h : rt.view.MailSound) : rt.Delivery sender topic payload [] rt where
  mail := h
  now := rfl
  active _ := rfl
  other _ _ := ⟨rfl, rfl⟩
  delivered _ hk := absurd hk List.not_mem_nil

theorem Delivery.congr (h : rt.Delivery sender topic payload subs rt') (hview : rt''.view = rt'.view)
    (hnow : rt''.agentNow = rt'.agentNow) : rt.Delivery sender topic payload subs rt'' := by
  constructor
  · rw [hview]
    exact h.mail
  · exact hnow.trans h.now
  · rw [hview]
    exact h.active
  · rw [hview]
    exact h.other
  · rw [hview]
    exact h.delivered

theorem Delivery.cons (h : rt.Delivery sender topic payload [sub] rt')
    (h' : rt'.Delivery sender topic payload subs rt'') (hsub : sub ∉ subs) :
    rt.Delivery sender topic payload (sub :: subs) rt'' where
  mail := h'.mail
  now := h'.now.trans h.now
  active k := (h'.active k).trans (h.active k)
  other k hk := by
    have hfirst : agentIdOf k ∉ [sub] ∨ agentIdOf k = sender := by
      rw [List.mem_singleton]
      rw [List.mem_cons] at hk
      tauto
    have hrest : agentIdOf k ∉ subs ∨ agentIdOf k = sender := by
      rw [List.mem_cons] at hk
      tauto
    obtain ⟨hmessages, hinbox⟩ := h.other k hfirst
    obtain ⟨hmessages', hinbox'⟩ := h'.other k hrest
    exact ⟨hmessages'.trans hmessages, hinbox'.trans hinbox⟩
  delivered k hk hne hact hroom := by
    rcases List.mem_cons.1 hk with heq | hk
    · obtain ⟨id, hid⟩ := h.delivered k (List.mem_singleton.2 heq) hne hact hroom
      exact ⟨id, (h'.other k (.inl (heq ▸ hsub))).1.trans hid⟩
    · have hsubk : agentIdOf k ∉ [sub] := by
        rw [List.mem_singleton]
        intro heq
        exact hsub (heq ▸ hk)
      obtain ⟨hmessages, hinbox⟩ := h.other k (.inl hsubk)
      obtain ⟨id, hid⟩ := h'.delivered k hk hne ((h.active k).trans hact) (by rw [hinbox]; exact hroom)
      rw [h.now, hmessages] at hid
      exact ⟨id, hid⟩

variable (rt mem) in
theorem agentNow_post (j : AgentIdx) (fill : UInt32 → A2aMsg) :
    (rt.post mem j fill).2.2.agentNow = rt.agentNow := by
  cases halloc : rt.msgPool.msgPoolAlloc mem with
  | none => rw [post_of_none halloc]
  | some r =>
    rw [post_of_alloc halloc]
    unfold inboxEnqueue
    split_ifs
    · rfl
    · rfl

theorem deliverEvent_delivery (h : rt.view.MailSound) :
    rt.Delivery sender topic payload [sub] (rt.deliverEvent true sender topic payload sub).2 := by
  unfold deliverEvent
  by_cases hself : sub = sender
  · rw [if_pos hself]
    refine ⟨h, rfl, fun _ => rfl, fun _ _ => ⟨rfl, rfl⟩, fun k hk hne => ?_⟩
    rw [List.mem_singleton, hself] at hk
    exact absurd hk hne
  rw [if_neg hself]
  cases hslot : rt.agentSlotById sub with
  | none =>
    refine ⟨h, rfl, fun _ => rfl, fun _ _ => ⟨rfl, rfl⟩, fun k hk _ hact => ?_⟩
    rw [← List.mem_singleton.1 hk, agentSlotById_eq_some.2 ⟨rfl, hact⟩] at hslot
    cases hslot
  | some j =>
    obtain ⟨rfl, hactive⟩ := agentSlotById_eq_some.1 hslot
    have hposted := post_view rt true j (eventMsg rt.agentNow sender (agentIdOf j) topic payload)
    have hnow := agentNow_post rt true j (eventMsg rt.agentNow sender (agentIdOf j) topic payload)
    simp only
    generalize rt.post true j (eventMsg rt.agentNow sender (agentIdOf j) topic payload) = r at hposted hnow
    obtain ⟨status, id, rt₁⟩ := r
    have hdelivery : rt.Delivery sender topic payload [agentIdOf j] rt₁ := by
      obtain ⟨hother, hdelivered⟩ := hposted.messages h hactive
      refine ⟨h.posted hactive hposted, hnow, fun k => hposted.keeps (fun _ _ => rfl) k, fun k hk => ?_,
        fun k hk _ _ hroom => ?_⟩
      · refine hother k ?_
        rintro rfl
        rw [List.mem_singleton] at hk
        exact hk.elim (fun hne => hne rfl) hself
      · rw [List.mem_singleton, agentIdOf_inj] at hk
        subst hk
        exact ⟨id, hdelivered rfl hroom⟩
    cases status
    case ok => exact hdelivery.congr (by simp) rfl
    all_goals exact hdelivery

theorem deliverEvents_delivery {mem : Nat → Bool} (hmem : ∀ k, mem k = true) (h : rt.view.MailSound)
    (hsubs : subs.Nodup) (k : Nat) (sent : UInt32) :
    rt.Delivery sender topic payload subs (deliverEvents mem sender topic payload subs k sent rt).2 := by
  induction subs generalizing rt k sent with
  | nil => exact .nil h
  | cons sub subs ih =>
    rw [List.nodup_cons] at hsubs
    rw [deliverEvents, hmem k]
    have hone : rt.Delivery sender topic payload [sub] (rt.deliverEvent true sender topic payload sub).2 :=
      deliverEvent_delivery h
    exact hone.cons (ih hone.mail hsubs.2 (k + 1) _) hsubs.1

variable (sender topic payload) in
/-- A broadcast delivers to the subscribers of its topic. -/
theorem fluxA2aBroadcast_delivery {mem : Nat → Bool} (hmem : ∀ k, mem k = true) (h : rt.view.MailSound)
    (hinit : rt.initialized = true) (htopics : TopicsSound rt.topics) :
    ∃ subs, rt.Delivery sender topic payload subs (rt.fluxA2aBroadcast mem sender topic payload).2 ∧
      (∀ id ∈ subs, Subscribed rt.topics id topic) ∧
      ∀ i, rt.agentSlotById sender = some i → rt.holds i fluxCapCommunicate = true →
        payload.length ≤ fluxA2aMaxPayload → ∀ id, Subscribed rt.topics id topic → id ∈ subs := by
  have hnobody : rt.Delivery sender topic payload [] rt ∧ ∀ id ∈ [], Subscribed rt.topics id topic :=
    ⟨.nil h, List.forall_mem_nil _⟩
  unfold fluxA2aBroadcast
  rw [if_neg (by simp [hinit])]
  split
  · rename_i hempty
    refine ⟨[], hnobody.1, hnobody.2, ?_⟩
    rintro i - - - id ⟨tp, htp, rfl, -⟩
    exact absurd hempty (htopics.named tp htp)
  split
  · exact ⟨[], hnobody.1, hnobody.2, fun i _ _ hlen => absurd hlen (by omega)⟩
  cases hslot : rt.agentSlotById sender with
  | none => exact ⟨[], hnobody.1, hnobody.2, fun i hi => by cases hi⟩
  | some i =>
    simp only
    split
    · rename_i hcap
      refine ⟨[], hnobody.1, hnobody.2, fun j hj hholds => ?_⟩
      cases hj
      rw [hholds] at hcap
      cases hcap
    cases hfind : rt.findTopic topic with
    | none =>
      refine ⟨[], hnobody.1, hnobody.2, ?_⟩
      rintro j - - - id ⟨tp, htp, hname, -⟩
      exact absurd (decide_eq_true hname) (List.find?_eq_none.1 hfind tp htp)
    | some tp =>
      have htp : tp ∈ rt.topics := List.mem_of_find?_eq_some hfind
      have hname : tp.name = topic := by simpa using List.find?_some hfind
      have hiff (id : UInt32) : Subscribed rt.topics id topic ↔ id ∈ tp.subscribers := by
        rw [← hname]
        exact htopics.distinct.member_iff htp
      simp only
      by_cases hsubs : tp.subscribers = []
      · rw [if_pos hsubs]
        refine ⟨[], hnobody.1, hnobody.2, fun j _ _ _ id hid => ?_⟩
        rw [hiff, hsubs] at hid
        exact hid
      · rw [if_neg hsubs]
        have hall : rt.Delivery sender topic payload tp.subscribers _ :=
          deliverEvents_delivery hmem h (htopics.distinct.members tp htp) 0 0
        exact ⟨tp.subscribers, hall.congr view_noteSent rfl, fun id hid => (hiff id).2 hid,
          fun _ _ _ _ id hid => (hiff id).1 hid⟩

end AgentRuntime

/-! ## The ledger -/

/-- The agent runtime with the subscriptions that were accepted and not given up since. -/
structure Tracked where
  sys : AgentSystem
  subs : List (UInt32 × CString)

/-- The ledger after an action. -/
def AgentAction.noted (rt : AgentRuntime) (subs : List (UInt32 × CString)) :
    AgentAction → List (UInt32 × CString)
  | .subscribe id topic => if (rt.fluxAgentSubscribe id topic).1 = .ok then (id, topic) :: subs else subs
  | .unsubscribe id topic =>
    if (rt.fluxAgentUnsubscribe id topic).1 = .ok then subs.filter (· ≠ (id, topic)) else subs
  | .terminate id => if (rt.fluxAgentTerminate id).1 = .ok then subs.filter (·.1 ≠ id) else subs
  | _ => subs

theorem AgentSystem.step_topics {s t : AgentSystem} {a : AgentAction} (h : AgentSystem.step a s = some t)
    (hsubscribe : ∀ id topic, a ≠ .subscribe id topic) (hunsubscribe : ∀ id topic, a ≠ .unsubscribe id topic) :
    t.rt.topics = s.rt.topics := by
  by_cases hkind : a.kind = .registry
  · cases a with
    | publish => cases h; exact fluxAgentPublishCap_topics
    | unpublish => cases h; exact fluxAgentUnpublishCap_topics
    | subscribe id topic => exact absurd rfl (hsubscribe id topic)
    | unsubscribe id topic => exact absurd rfl (hunsubscribe id topic)
    | _ => cases hkind
  · exact (step_registries h hkind).1

theorem AgentSystem.mailSound_of_step {s t : AgentSystem} {a : AgentAction} (hs : s.rt.view.MailSound)
    (h : AgentSystem.step a s = some t) : t.rt.view.MailSound := by
  have hreaches : Reaches AgentSystem.step (fun _ _ => True) s t := (Reaches.refl s).tail trivial h
  exact invariant_of_changes (fun _ _ _ hchange hV => hchange.mailSound hV) hreaches hs

namespace Tracked

variable {x y : Tracked} {a : AgentAction}

/-- One action, noted in the ledger. -/
def step (a : AgentAction) (x : Tracked) : Option Tracked :=
  (AgentSystem.step a x.sys).map fun s => ⟨s, a.noted x.sys.rt x.subs⟩

/-- The state after `flux_agent_init`: there are no subscriptions. -/
def boot (config : Option AgentConfig) : Tracked := ⟨AgentSystem.boot config, []⟩

/-- A broadcast puts one event in the inbox of each other agent in the ledger that has room, if its sender may send
messages, and nothing in the inboxes of agents that are not in the ledger. -/
structure ReachesSubscribers (x : Tracked) (mem : Nat → Bool) (sender : UInt32) (topic : CString)
    (payload : List UInt8) : Prop where
  subscribers : ∀ i j, x.sys.rt.agentSlotById sender = some i → x.sys.rt.holds i fluxCapCommunicate = true →
    payload.length ≤ fluxA2aMaxPayload → (agentIdOf j, topic) ∈ x.subs → agentIdOf j ≠ sender →
    (x.sys.rt.agents j).active = true → (x.sys.rt.agents j).inbox.count < fluxInboxSize →
    ∃ id, (x.sys.rt.fluxA2aBroadcast mem sender topic payload).2.storedMessages j =
      x.sys.rt.storedMessages j ++ [eventMsg x.sys.rt.agentNow sender (agentIdOf j) topic payload id]
  others : ∀ j, (agentIdOf j, topic) ∉ x.subs →
    (x.sys.rt.fluxA2aBroadcast mem sender topic payload).2.storedMessages j = x.sys.rt.storedMessages j

/-- Broadcasts on topics of the documented length reach the subscribers and nobody else. -/
def DeliversEvents (a : AgentAction) (x : Tracked) : Prop := ∀ mem sender topic payload,
  a = .broadcast mem sender topic payload → topic.bytes.length < fluxA2aMaxTopic →
  x.ReachesSubscribers mem sender topic payload

/-- The name of a topic that is made is not longer than what is stored of it, no agent is terminated with a
subscription, and there is memory for the events. -/
structure KeepsLedger (a : AgentAction) (x : Tracked) : Prop where
  fits : ∀ id topic, a = .subscribe id topic → (x.sys.rt.agentSlotById id).isSome = true →
    x.sys.rt.topics.length < fluxTopicMax → topic.bytes.length < fluxTopicMax
  stays : ∀ id, a = .terminate id → (x.sys.rt.agentSlotById id).isSome = true → ∀ topic, (id, topic) ∉ x.subs
  memory : ∀ mem sender topic payload, a = .broadcast mem sender topic payload → ∀ k, mem k = true

/-- The ledger is what the topics say. -/
structure LedgerSound (x : Tracked) : Prop where
  ids : x.sys.rt.view.IdsSound
  mail : x.sys.rt.view.MailSound
  topics : TopicsSound x.sys.rt.topics
  ledger : ∀ id topic, (id, topic) ∈ x.subs ↔ Subscribed x.sys.rt.topics id topic

theorem LedgerSound.delivers (hx : x.LedgerSound) (ha : KeepsLedger a x) : DeliversEvents a x := by
  intro mem sender topic payload heq _
  obtain ⟨subs, hdelivery, hsubs, hall⟩ := fluxA2aBroadcast_delivery sender topic payload
    (ha.memory mem sender topic payload heq) hx.mail hx.ids.initialized hx.topics
  constructor
  · intro i j hi hholds hlen hj hne hact hroom
    exact hdelivery.delivered j (hall i hi hholds hlen _ ((hx.ledger _ _).1 hj)) hne hact hroom
  · intro j hj
    exact (hdelivery.other j (.inl fun hmem => hj ((hx.ledger _ _).2 (hsubs _ hmem)))).1

theorem LedgerSound.step (hx : x.LedgerSound) (ha : KeepsLedger a x) (h : Tracked.step a x = some y) :
    y.LedgerSound := by
  obtain ⟨s, hs, rfl⟩ := Option.map_eq_some_iff.1 h
  have hids := AgentSystem.idsSound_of_step hx.ids hs
  have hmail := AgentSystem.mailSound_of_step hx.mail hs
  by_cases hsubscribe : ∃ id topic, a = .subscribe id topic
  · obtain ⟨id, topic, rfl⟩ := hsubscribe
    cases hs
    obtain ⟨htopics, hmembers⟩ := (fluxAgentSubscribe_subscribes x.sys.rt id topic).topics hx.topics
      (ha.fits id topic rfl)
    refine ⟨hids, hmail, htopics, fun o k => Iff.trans ?_ (hmembers o k).symm⟩
    rw [AgentAction.noted, ← hx.ledger]
    split_ifs with hok
    · simp [hok, or_comm]
    · simp [hok]
  by_cases hunsubscribe : ∃ id topic, a = .unsubscribe id topic
  · obtain ⟨id, topic, rfl⟩ := hunsubscribe
    cases hs
    obtain ⟨htopics, hmembers⟩ := (fluxAgentUnsubscribe_unsubscribes x.sys.rt id topic).topics hx.topics
    refine ⟨hids, hmail, htopics, fun o k => Iff.trans ?_ (hmembers o k).symm⟩
    rw [AgentAction.noted, ← hx.ledger]
    split_ifs with hok
    · simp only [List.mem_filter, decide_eq_true_eq, Ne, Prod.mk.injEq, hok, true_and]
    · simp [hok]
  have htopics : s.rt.topics = x.sys.rt.topics :=
    AgentSystem.step_topics hs (fun id topic heq => hsubscribe ⟨id, topic, heq⟩)
      fun id topic heq => hunsubscribe ⟨id, topic, heq⟩
  refine ⟨hids, hmail, htopics ▸ hx.topics, fun o k => ?_⟩
  show (o, k) ∈ a.noted x.sys.rt x.subs ↔ Subscribed s.rt.topics o k
  rw [htopics, ← hx.ledger]
  cases a with
  | terminate id =>
    rw [AgentAction.noted]
    split_ifs with hok
    · have hactive : (x.sys.rt.agentSlotById id).isSome = true := by
        cases hslot : x.sys.rt.agentSlotById id with
        | some i => rfl
        | none =>
          rw [fluxAgentTerminate, hslot] at hok
          split_ifs at hok
      rw [List.mem_filter, decide_eq_true_eq]
      refine and_iff_left_of_imp fun hmem heq => ?_
      have heq : o = id := heq
      exact ha.stays id rfl hactive k (heq ▸ hmem)
    · exact Iff.rfl
  | subscribe id topic => exact absurd ⟨id, topic, rfl⟩ hsubscribe
  | unsubscribe id topic => exact absurd ⟨id, topic, rfl⟩ hunsubscribe
  | _ => exact Iff.rfl

theorem ledgerSound_boot (config : Option AgentConfig) : (boot config).LedgerSound where
  ids := idsSound_init config
  mail := mailSound_init config
  topics := ⟨⟨.nil, List.forall_mem_nil _⟩, List.forall_mem_nil _⟩
  ledger id topic := by
    constructor
    · intro h
      cases h
    · rintro ⟨tp, htp, -⟩
      cases htp

/-- In every run whose actions keep the ledger, each broadcast reaches the agents that are subscribed and nobody
else. -/
theorem subscriptions_delivered (config : Option AgentConfig) (actions : List AgentAction)
    (h : MeetsAlong step KeepsLedger actions (boot config)) :
    MeetsAlong step DeliversEvents actions (boot config) :=
  h.imp_of_invariant (fun _ _ _ hx ha hstep => hx.step ha hstep) (fun _ _ hx ha => hx.delivers ha)
    (ledgerSound_boot config)

/-- Agent 6 subscribes to a topic, and agent 5 broadcasts on it. -/
def broadcastTo (topic : CString) : List AgentAction :=
  [.spawnBare fluxCapCommunicate, .spawnBare 0, .subscribe 6 topic, .broadcast (fun _ => true) 5 topic [7]]

theorem subscriptions_delivered_short : MeetsAlong step DeliversEvents (broadcastTo (.read [97])) (boot none) := by
  refine subscriptions_delivered none _ fun x hx =>
    ⟨?_, fun y hy => ⟨?_, fun z hz => ⟨?_, fun w hw => ⟨?_, trivial⟩⟩⟩⟩
  · exact ⟨fun _ _ h => (by cases h), fun _ h => (by cases h), fun _ _ _ _ h => (by cases h)⟩
  · exact ⟨fun _ _ h => (by cases h), fun _ h => (by cases h), fun _ _ _ _ h => (by cases h)⟩
  · refine ⟨?_, fun _ h => (by cases h), fun _ _ _ _ h => (by cases h)⟩
    rintro _ _ ⟨⟩ _ _
    decide +kernel
  · refine ⟨fun _ _ h => (by cases h), fun _ h => (by cases h), ?_⟩
    rintro _ _ _ _ ⟨⟩ _
    rfl

/-- A topic with a name of 32 letters is not found by its name. -/
theorem longTopic_not_delivered :
    (∃ x, execute step (broadcastTo (.read (List.replicate 32 97))) (boot none) = some x ∧
      (6, .read (List.replicate 32 97)) ∈ x.subs ∧ (x.sys.rt.agents 2).inbox.count = 0) ∧
    ¬ MeetsAlong step DeliversEvents (broadcastTo (.read (List.replicate 32 97))) (boot none) := by
  have hrun : (execute step (broadcastTo (.read (List.replicate 32 97))) (boot none)).map (fun x =>
      (decide ((6, .read (List.replicate 32 97)) ∈ x.subs), (x.sys.rt.agents 2).inbox.count)) =
        some (true, 0) := by decide +kernel
  obtain ⟨x, hx, hleft⟩ := Option.map_eq_some_iff.1 hrun
  obtain ⟨hmem, hcount⟩ := Prod.mk.inj hleft
  refine ⟨⟨x, hx, of_decide_eq_true hmem, hcount⟩, fun hmeets => ?_⟩
  obtain ⟨-, hsecond⟩ := hmeets _ rfl
  obtain ⟨-, hthird⟩ := hsecond _ rfl
  obtain ⟨-, hfourth⟩ := hthird _ rfl
  obtain ⟨hdelivers, -⟩ := hfourth _ rfl
  have hreaches := hdelivers _ 5 (.read (List.replicate 32 97)) [7] rfl (by decide +kernel)
  obtain ⟨id, hid⟩ := hreaches.subscribers 1 2 (by decide +kernel) (by decide +kernel) (by decide) (by decide +kernel)
    (by decide) (by decide +kernel) (by decide +kernel)
  have hlen := congrArg List.length hid
  rw [List.length_append, List.length_singleton] at hlen
  exact absurd hlen (by decide +kernel)

end Tracked

end FluxOs
