import FluxOs.Agent.AgentIds
import FluxOs.Agent.MessagePool

/-!
# The provenance of messages

A message comes into an inbox only from an agent that is active and holds `COMMUNICATE`, it names the agent of
the inbox as its target, and no two messages that are stored have the same id while the counter of ids has not
come round.  The results follow from what is put in the inboxes, which the history records.
-/

namespace FluxOs

open Relation Actions AgentRuntime AgentView

/-! ## Messages that came in -/

/-- The message that an event puts in an inbox. -/
def arrival (i : AgentIdx) : InboxEvent → Option A2aMsg
  | .enqueue j m => if j = i then some m else none
  | .dequeue .. | .clear _ => none

/-- The messages that were put in an inbox. -/
def arrivals (i : AgentIdx) (events : List InboxEvent) : List A2aMsg := events.filterMap (arrival i)

theorem arrival_eq_some {i : AgentIdx} {e : InboxEvent} {m : A2aMsg} : arrival i e = some m ↔ e = .enqueue i m := by
  cases e with
  | enqueue j m' => simp [arrival]
  | dequeue | clear => simp [arrival]

theorem mem_arrivals {i : AgentIdx} {events : List InboxEvent} {m : A2aMsg} :
    m ∈ arrivals i events ↔ .enqueue i m ∈ events := by
  simp [arrivals, arrival_eq_some]

theorem arrivals_append (i : AgentIdx) (events new : List InboxEvent) :
    arrivals i (events ++ new) = arrivals i events ++ arrivals i new := List.filterMap_append ..

theorem arrivals_of_ne {i : AgentIdx} {e : InboxEvent} (h : e.inbox ≠ i) : arrivals i [e] = [] := by
  cases e with
  | enqueue j m => exact List.filterMap_cons_none (if_neg h)
  | dequeue | clear => rfl

/-- What a sequence of events does with the log of an inbox: messages come in and go out, or the inbox is
cleared in between. -/
theorem foldl_note (i : AgentIdx) (log : InboxLog) (new : List InboxEvent) :
    (∃ out, new.foldl (InboxLog.note i) log = ⟨log.enqueued ++ arrivals i new, log.dequeued ++ out⟩) ∨
      (new.foldl (InboxLog.note i) log).enqueued <:+ arrivals i new := by
  induction new using List.reverseRecOn with
  | nil => exact .inl ⟨[], by simp [arrivals]⟩
  | append_singleton new e ih =>
    rw [List.foldl_append, List.foldl_cons, List.foldl_nil, arrivals_append]
    generalize new.foldl (InboxLog.note i) log = after at ih ⊢
    by_cases hi : e.inbox = i
    · cases e with
      | enqueue j m =>
        obtain rfl : j = i := hi
        have harr : arrivals j [.enqueue j m] = [m] := by simp [arrivals, arrival]
        rw [harr]
        rcases ih with ⟨out, rfl⟩ | ⟨before, hbefore⟩
        · exact .inl ⟨out, by simp [InboxLog.note]⟩
        · exact .inr ⟨before, by simp [InboxLog.note, ← hbefore]⟩
      | dequeue j m =>
        obtain rfl : j = i := hi
        have harr : arrivals j [.dequeue j m] = [] := rfl
        rw [harr, List.append_nil]
        rcases ih with ⟨out, rfl⟩ | ih
        · exact .inl ⟨out ++ [m], by simp [InboxLog.note]⟩
        · exact .inr (by simpa [InboxLog.note] using ih)
      | clear j =>
        obtain rfl : j = i := hi
        exact .inr (by simp [InboxLog.note])
    · rw [InboxLog.note_of_ne (Ne.symm hi), arrivals_of_ne hi, List.append_nil]
      exact ih

/-- An inbox holds what was in it before and what came in since, up to what was taken out. -/
theorem InboxLog.InOrder.suffix {i : AgentIdx} {log : InboxLog} {new : List InboxEvent} {before after : List A2aMsg}
    (h : log.InOrder before) (h' : (new.foldl (InboxLog.note i) log).InOrder after) :
    after <:+ before ++ arrivals i new := by
  obtain ⟨out, heq⟩ | hclear := foldl_note i log new
  · rw [heq, InOrder, h, List.append_assoc, List.append_assoc] at h'
    exact ⟨out, (List.append_cancel_left h').symm⟩
  · refine List.IsSuffix.trans ?_ (hclear.trans (List.suffix_append ..))
    exact ⟨_, h'.symm⟩

/-! ## What a change brings in -/

namespace AgentView

variable {V V' : AgentView} {kind : ChangeKind} {i j : AgentIdx} {m : A2aMsg}

/-- What is new in the history is well sent: the sender may send messages, and the target is the agent of the
inbox. -/
structure SentWell (V : AgentView) (j : AgentIdx) (m : A2aMsg) : Prop where
  sender : ∃ i, V.Communicates i ∧ m.sender = agentIdOf i
  target : m.target = agentIdOf j

/-- Events are added to the history, and the messages among them are well sent. -/
def Brings (V V' : AgentView) : Prop :=
  ∃ new, V'.history.events = V.history.events ++ new ∧ ∀ j m, .enqueue j m ∈ new → V.SentWell j m

theorem Brings.refl : V.Brings V := ⟨[], by simp, fun _ _ h => absurd h List.not_mem_nil⟩

/-- The events of a change that brings no message. -/
theorem Brings.of_event {e : InboxEvent} (h : V'.history.events = V.history.events ++ [e])
    (he : ∀ j m, e ≠ .enqueue j m) : V.Brings V' :=
  ⟨[e], h, fun j m hmem => absurd (List.mem_singleton.1 hmem).symm (he j m)⟩

theorem Brings.of_eq (h : V'.history.events = V.history.events) : V.Brings V' :=
  ⟨[], by simp [h], fun _ _ hmem => absurd hmem List.not_mem_nil⟩

theorem PostedBy.brings (hcomm : V.Communicates i) (h : PostedBy i V V') : V.Brings V' := by
  obtain ⟨mem, j, fill, status, id, -, hbuilt, hposted⟩ := h
  cases hposted with
  | noMemory => exact .refl
  | full => exact .of_eq rfl
  | accepted =>
    refine ⟨_, rfl, fun k m hmem => ?_⟩
    cases List.mem_singleton.1 hmem
    exact ⟨⟨i, hcomm, (hbuilt _).2.1⟩, (hbuilt _).2.2⟩

theorem brings_of_takes {msg : Option A2aMsg} (h : Takes V i msg V') : V.Brings V' := by
  cases h with
  | empty => exact .refl
  | null => exact .of_eq rfl
  | message => exact .of_event rfl (by simp)

theorem Change.brings (h : Change kind V V') : V.Brings V' := by
  cases h with
  | posts i hcomm hposted => exact hposted.brings hcomm
  | takes i msg _ htakes => exact brings_of_takes htakes
  | clears | spawns | terminates => exact .of_event rfl (by simp)
  | delegations | capabilities | registry | executes => exact .of_eq rfl

/-- Only mail brings messages. -/
theorem Change.enqueue_mail (h : Change kind V V') {new : List InboxEvent}
    (hnew : V'.history.events = V.history.events ++ new) (hmem : .enqueue j m ∈ new) : kind = .mail := by
  have hno {e : InboxEvent} (heq : V'.history.events = V.history.events ++ [e]) (he : e ≠ .enqueue j m) : False := by
    obtain rfl := List.append_cancel_left (hnew.symm.trans heq)
    exact he (List.mem_singleton.1 hmem).symm
  have hnone (heq : V'.history.events = V.history.events) : False := by
    rw [heq] at hnew
    rw [List.self_eq_append_right.1 hnew] at hmem
    exact List.not_mem_nil hmem
  cases h with
  | posts | takes | delegations => rfl
  | clears | spawns | terminates => exact (hno rfl (by simp)).elim
  | capabilities | registry | executes => exact (hnone rfl).elim

/-- Mail does not change who may send messages. -/
theorem Changes.communicates (h : Changes .mail V V') (hi : V'.Communicates i) : V.Communicates i := by
  induction h with
  | refl => exact hi
  | tail _ hchange ih =>
    have hsame := hchange.mail_keeps (g := fun slot => (slot.active, slot.capabilities)) (fun _ _ _ => rfl) i
    obtain ⟨hact, hcaps⟩ := Prod.mk.inj hsame
    refine ih ?_
    rw [Communicates, ← hact, ← hcaps]
    exact hi

theorem Changes.brings (h : Changes kind V V') : V.Brings V' := by
  induction h with
  | refl => exact .refl
  | tail hchanges hchange ih =>
    obtain ⟨new, hnew, hsent⟩ := ih
    obtain ⟨new', hnew', hsent'⟩ := hchange.brings
    refine ⟨new ++ new', by rw [hnew', hnew, List.append_assoc], fun j m hmem => ?_⟩
    rcases List.mem_append.1 hmem with hmem | hmem
    · exact hsent j m hmem
    · obtain ⟨⟨i, hcomm, hsender⟩, htarget⟩ := hsent' j m hmem
      obtain rfl := hchange.enqueue_mail hnew' hmem
      exact ⟨⟨i, Changes.communicates hchanges hcomm, hsender⟩, htarget⟩

/-! ## Targets -/

/-- The messages that were put in an inbox name its agent as their target. -/
def Addressed (V : AgentView) : Prop := ∀ j m, .enqueue j m ∈ V.history.events → m.target = agentIdOf j

theorem Change.addressed (h : Change kind V V') (hV : V.Addressed) : V'.Addressed := by
  obtain ⟨new, hnew, hsent⟩ := h.brings
  intro j m hmem
  rw [hnew, List.mem_append] at hmem
  rcases hmem with hmem | hmem
  · exact hV j m hmem
  · exact (hsent j m hmem).target

/-! ## Ids -/

/-- The ids of two messages that came in differ. -/
def Apart (e e' : InboxEvent) : Prop :=
  ∀ j m j' m', e = .enqueue j m → e' = .enqueue j' m' → m.msgId ≠ m'.msgId

instance : Std.Symm Apart := ⟨fun _ _ h j m j' m' he he' => (h j' m' j m he' he).symm⟩

/-- The counter of ids has not come round, and the ids that were given are behind it. -/
structure Numbered (V : AgentView) : Prop where
  next : V.nextMsgId.toNat = V.history.generated + 1
  given : ∀ j m, .enqueue j m ∈ V.history.events →
    0 < m.msgId.toNat ∧ m.msgId.toNat ≤ V.history.generated
  apart : V.history.events.Pairwise Apart

/-- An id is drawn. -/
theorem Numbered.draw (h : V.Numbered) (hlt : V.history.generated + 1 < UInt32.size - 1) :
    (drawMsgId V.nextMsgId).1.toNat = V.history.generated + 1 ∧
      (drawMsgId V.nextMsgId).2.toNat = V.history.generated + 1 + 1 := by
  have hnext := h.next
  have hne : V.nextMsgId ≠ 0 := by
    intro hzero
    rw [hzero] at hnext
    exact Nat.succ_ne_zero _ hnext.symm
  rw [drawMsgId, if_neg hne, UInt32.toNat_add, hnext, Nat.mod_eq_of_lt]
  · exact ⟨rfl, rfl⟩
  · exact Nat.lt_of_lt_of_le (Nat.succ_lt_succ hlt) (by decide)

/-- The counter goes on, and no message comes in. -/
theorem Numbered.advance (h : V.Numbered) (hnext : V'.nextMsgId.toNat = V'.history.generated + 1)
    (hle : V.history.generated ≤ V'.history.generated)
    (hevents : ∃ new, V'.history.events = V.history.events ++ new ∧ ∀ j m, .enqueue j m ∉ new) : V'.Numbered := by
  obtain ⟨new, hnew, hno⟩ := hevents
  refine ⟨hnext, fun j m hmem => ?_, ?_⟩
  · rw [hnew, List.mem_append, or_iff_left (hno j m)] at hmem
    obtain ⟨hpos, hbound⟩ := h.given j m hmem
    exact ⟨hpos, hbound.trans hle⟩
  · rw [hnew, List.pairwise_append]
    refine ⟨h.apart, ?_, ?_⟩
    · refine List.pairwise_iff_getElem.2 fun a b ha hb _ j m _ _ he _ => ?_
      exact absurd (he ▸ List.getElem_mem ha) (hno j m)
    · rintro e _ e' he' j m j' m' _ rfl
      exact absurd he' (hno j' m')

theorem PostedBy.numbered (h : PostedBy i V V') (hV : V.Numbered)
    (hlt : V'.history.generated < UInt32.size - 1) : V'.Numbered := by
  obtain ⟨mem, j, fill, status, id, -, hbuilt, hposted⟩ := h
  cases hposted with
  | noMemory => exact hV
  | full =>
    exact hV.advance (hV.draw hlt).2 (Nat.le_succ _)
      ⟨[], (List.append_nil _).symm, fun _ _ => List.not_mem_nil⟩
  | accepted =>
    obtain ⟨hid, hnext⟩ := hV.draw hlt
    have hmsg : (fill (drawMsgId V.nextMsgId).1).msgId.toNat = V.history.generated + 1 := by
      rw [(hbuilt _).1, hid]
    refine ⟨hnext, fun k m hmem => ?_, ?_⟩
    · rcases List.mem_append.1 hmem with hmem | hmem
      · obtain ⟨hpos, hbound⟩ := hV.given k m hmem
        exact ⟨hpos, Nat.le_succ_of_le hbound⟩
      · cases List.mem_singleton.1 hmem
        rw [hmsg]
        exact ⟨Nat.succ_pos _, Nat.le_refl _⟩
    · refine List.pairwise_append.2 ⟨hV.apart, List.pairwise_singleton .., ?_⟩
      rintro e he e' he' k m k' m' rfl rfl heq
      cases List.mem_singleton.1 he'
      have := (hV.given k m he).2
      rw [heq, hmsg] at this
      omega

theorem Change.numbered (h : Change kind V V') (hV : V.Numbered)
    (hlt : V'.history.generated < UInt32.size - 1) : V'.Numbered := by
  have hsame (hnext : V'.nextMsgId = V.nextMsgId) (hgen : V'.history.generated = V.history.generated)
      (hevents : ∃ new, V'.history.events = V.history.events ++ new ∧ ∀ j m, .enqueue j m ∉ new) : V'.Numbered :=
    hV.advance (by rw [hnext, hgen, hV.next]) (Nat.le_of_eq hgen.symm) hevents
  have hnone : ∃ new, V.history.events = V.history.events ++ new ∧ ∀ j m, .enqueue j m ∉ new :=
    ⟨[], by simp, fun _ _ => List.not_mem_nil⟩
  have hone {e : InboxEvent} (he : ∀ j m, e ≠ .enqueue j m) :
      ∃ new, V.history.events ++ [e] = V.history.events ++ new ∧ ∀ j m, .enqueue j m ∉ new :=
    ⟨[e], rfl, fun j m hmem => he j m (List.mem_singleton.1 hmem).symm⟩
  cases h with
  | posts i _ hposted => exact hposted.numbered hV hlt
  | takes i msg _ htakes =>
    cases htakes with
    | empty => exact hV
    | null => exact hsame rfl rfl hnone
    | message => exact hsame rfl rfl (hone (by simp))
  | clears | spawns | terminates => exact hsame rfl rfl (hone (by simp))
  | delegations | capabilities | registry | executes => exact hsame rfl rfl hnone

theorem Change.generated_le (h : Change kind V V') : V.history.generated ≤ V'.history.generated := by
  cases h with
  | posts i _ hposted =>
    obtain ⟨mem, j, fill, status, id, -, -, hposted⟩ := hposted
    cases hposted with
    | noMemory => exact Nat.le_refl _
    | full | accepted => exact Nat.le_succ _
  | takes i msg _ htakes => cases htakes <;> exact Nat.le_refl _
  | _ => exact Nat.le_refl _

/-- The ids are in order for as long as the counter has not come round. -/
def NumberedWhile (V : AgentView) : Prop := V.history.generated < UInt32.size - 1 → V.Numbered

theorem Change.numberedWhile (h : Change kind V V') (hV : V.NumberedWhile) : V'.NumberedWhile := by
  intro hlt
  exact h.numbered (hV (Nat.lt_of_le_of_lt h.generated_le hlt)) hlt

end AgentView

/-! ## What is stored -/

namespace AgentRuntime

variable {rt : AgentRuntime} {i j : AgentIdx} {n k : Nat} {m m' : A2aMsg}

/-- The messages in an inbox came in, in this order. -/
theorem storedMessages_sublist (h : rt.view.MailSound) (i : AgentIdx) :
    (rt.storedMessages i).Sublist (arrivals i rt.history.events) := by
  have hempty : InboxLog.InOrder ⟨[], []⟩ [] := rfl
  have hsuffix : _ <:+ [] ++ arrivals i rt.history.events := hempty.suffix (h.order i)
  exact hsuffix.sublist

theorem enqueue_of_stored (h : rt.view.MailSound) (hm : m ∈ rt.storedMessages i) :
    .enqueue i m ∈ rt.history.events :=
  mem_arrivals.1 ((storedMessages_sublist h i).subset hm)

/-- Messages in different places have different ids. -/
theorem apart_of_stored (h : rt.view.MailSound) (hids : rt.view.Numbered)
    (hm : (rt.storedMessages i)[n]? = some m) (hm' : (rt.storedMessages j)[k]? = some m')
    (heq : m.msgId = m'.msgId) : i = j ∧ n = k := by
  by_cases hij : i = j
  · subst hij
    refine ⟨rfl, ?_⟩
    have hpair : (arrivals i rt.history.events).Pairwise fun m m' => m.msgId ≠ m'.msgId := by
      refine List.pairwise_filterMap.2 (hids.apart.imp fun hapart m hm m' hm' => ?_)
      exact hapart _ _ _ _ (arrival_eq_some.1 hm) (arrival_eq_some.1 hm')
    have hstored := List.pairwise_iff_getElem.1 (hpair.sublist (storedMessages_sublist h i))
    obtain ⟨hn, rfl⟩ := List.getElem?_eq_some_iff.1 hm
    obtain ⟨hk, rfl⟩ := List.getElem?_eq_some_iff.1 hm'
    rcases Nat.lt_trichotomy n k with hlt | heq' | hlt
    · exact absurd heq (hstored n k hn hk hlt)
    · exact heq'
    · exact absurd heq.symm (hstored k n hk hn hlt)
  · have hne : InboxEvent.enqueue i m ≠ .enqueue j m' := fun he => hij (InboxEvent.enqueue.inj he).1
    exact absurd heq (hids.apart.forall (enqueue_of_stored h (List.mem_of_getElem? hm))
      (enqueue_of_stored h (List.mem_of_getElem? hm')) hne _ _ _ _ rfl rfl)

/-- The messages in the inbox of an agent name it as their target. -/
def TargetsRight (rt : AgentRuntime) : Prop := ∀ i, (rt.agents i).active = true →
  ∀ m ∈ rt.storedMessages i, m.target = (rt.agents i).desc.agentId

/-- The stored messages have ids, and no two of them the same. -/
structure IdsDistinct (rt : AgentRuntime) : Prop where
  ne_zero : ∀ i, ∀ m ∈ rt.storedMessages i, m.msgId ≠ 0
  distinct : ∀ (i j : AgentIdx) (n k : Nat) (m m' : A2aMsg), (rt.storedMessages i)[n]? = some m →
    (rt.storedMessages j)[k]? = some m' →
    m.msgId = m'.msgId → i = j ∧ n = k

theorem idsDistinct_of_numbered (h : rt.view.MailSound) (hids : rt.view.Numbered) : rt.IdsDistinct where
  ne_zero i m hm hzero := by
    have hpos := (hids.given i m (enqueue_of_stored h hm)).1
    rw [hzero] at hpos
    exact Nat.lt_irrefl _ hpos
  distinct _ _ _ _ _ _ hm hm' heq := apart_of_stored h hids hm hm' heq

end AgentRuntime

/-! ## Runs -/

namespace AgentSystem

variable {s t : AgentSystem} {a : AgentAction} {allowed : AgentAction → AgentSystem → Prop}

/-- An action adds a message to an inbox only if the agent that the message names as its sender is active and
holds `COMMUNICATE` before it: what is stored afterwards is the end of what was stored, followed by such
messages. -/
def SendersChecked (s : AgentSystem) : Prop :=
  ∀ a t, step a s = some t → ∀ j, ∃ added, t.rt.storedMessages j <:+ s.rt.storedMessages j ++ added ∧
    ∀ m ∈ added, ∃ i, m.sender = (s.rt.agents i).desc.agentId ∧ (s.rt.agents i).active = true ∧
      s.rt.holds i fluxCapCommunicate = true

theorem sendersChecked_of_sound (h : s.rt.view.MailSound) (hnamed : s.rt.view.Named) : s.SendersChecked := by
  intro a t hstep j
  have ht : t.rt.view.MailSound := by
    have hchanges := step_changes hstep
    generalize t.rt.view = V at hchanges
    induction hchanges with
    | refl => exact h
    | tail _ hchange ih => exact hchange.mailSound ih
  obtain ⟨new, hnew, hsent⟩ := Changes.brings (step_changes hstep)
  have horder := ht.order j
  rw [hnew, inboxLog, List.foldl_append] at horder
  refine ⟨arrivals j new, (h.order j).suffix horder, fun m hm => ?_⟩
  obtain ⟨⟨i, hcomm, hsender⟩, -⟩ := hsent j m (mem_arrivals.1 hm)
  refine ⟨i, ?_, hcomm.1, decide_eq_true hcomm.2⟩
  rw [hsender]
  exact (hnamed i hcomm.1).symm

theorem addressed_of_reachable (h : Reachable allowed s) : s.rt.view.Addressed := by
  obtain ⟨config, hrun⟩ := h
  exact invariant_of_changes (fun _ _ _ hchange hV => hchange.addressed hV) hrun
    fun _ _ hmem => absurd hmem List.not_mem_nil

theorem numberedWhile_of_reachable (h : Reachable allowed s) : s.rt.view.NumberedWhile := by
  obtain ⟨config, hrun⟩ := h
  refine invariant_of_changes (fun _ _ _ hchange hV => hchange.numberedWhile hV) hrun fun _ => ?_
  exact ⟨rfl, fun _ _ hmem => absurd hmem List.not_mem_nil, .nil⟩

end AgentSystem

/-- In every state that is reached, an action adds a message to an inbox only if its sender may send messages;
the messages in an inbox are for its agent; and the stored messages have different ids as long as fewer than
`2 ^ 32 - 1` were generated. -/
theorem messages_provenance {s : AgentSystem} (h : AgentSystem.Reachable (fun _ _ => True) s) :
    s.SendersChecked ∧ s.rt.TargetsRight ∧
      (s.rt.history.generated < UInt32.size - 1 → s.rt.IdsDistinct) := by
  have hsound : s.rt.view.MailSound := AgentSystem.mailSound_of_reachable h
  have hnamed : s.rt.view.Named := AgentSystem.named_of_reachable h
  refine ⟨AgentSystem.sendersChecked_of_sound hsound hnamed, fun i hact m hm => ?_, fun hlt => ?_⟩
  · rw [AgentSystem.addressed_of_reachable h i m (enqueue_of_stored hsound hm)]
    exact (hnamed i hact).symm
  · exact idsDistinct_of_numbered hsound (AgentSystem.numberedWhile_of_reachable h hlt)

/-- Agent 1, whose id is 5, sends two messages to agent 2, whose id is 6. -/
def twoSends : List AgentAction :=
  [.spawnBare fluxCapCommunicate, .spawnBare 0, .send true 5 6 .tell [7], .send true 5 6 .tell [8]]

theorem messages_provenance_twoSends : ∃ s, execute AgentSystem.step twoSends (AgentSystem.boot none) = some s ∧
    s.SendersChecked ∧ s.rt.TargetsRight ∧ s.rt.IdsDistinct := by
  have hrun : (execute AgentSystem.step twoSends (AgentSystem.boot none)).map (fun s => s.rt.history.generated) =
      some 2 := by decide +kernel
  obtain ⟨s, hs, hgenerated⟩ := Option.map_eq_some_iff.1 hrun
  obtain ⟨hsenders, htargets, hids⟩ := messages_provenance ⟨none, reaches_of_execute hs⟩
  refine ⟨s, hs, hsenders, htargets, hids ?_⟩
  rw [hgenerated]
  decide

end FluxOs
