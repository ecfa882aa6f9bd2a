import FluxOs.Agent.Changes
import FluxOs.Lib.Holdings

/-!
# The message pool

The messages that are allocated are those in the inboxes of active agents, each in one place, and an inbox
gives out its messages in the order in which they came.  The order is that of the events of the inboxes.
-/

namespace FluxOs

open Rings Holdings Actions AgentRuntime AgentView

/-! ## Allocating and freeing -/

namespace MsgPool

/-- No message was freed that was not allocated, and the heap messages to come are free. -/
structure Valid (p : MsgPool) : Prop where
  doubleFree : p.doubleFree = false
  fresh : ∀ n, p.heapSerial ≤ n → p.heap n = none

/-- A message is stored in a free place. -/
structure Stores (p : MsgPool) (ref : MsgRef) (m : A2aMsg) (p' : MsgPool) : Prop where
  valid : p'.Valid
  free : ¬ p.Allocated ref = true
  allocated : ∀ r, p'.Allocated r = true ↔ p.Allocated r = true ∨ r = ref
  read_self : p'.read ref = m
  read_of_ne : ∀ r, r ≠ ref → p'.read r = p.read r

/-- Messages are freed. -/
structure Drops (p : MsgPool) (refs : List MsgRef) (p' : MsgPool) : Prop where
  valid : p'.Valid
  allocated : ∀ r, p'.Allocated r = true ↔ p.Allocated r = true ∧ r ∉ refs
  read : ∀ r, r ∉ refs → p'.read r = p.read r

variable {p p' p'' : MsgPool} {ref : MsgRef} {refs refs' : List MsgRef} {m : A2aMsg} {mem : Bool}

theorem stores_of_alloc (hp : p.Valid) (h : p.msgPoolAlloc mem = some (ref, p')) (m : A2aMsg) :
    p.Stores ref m (p'.write ref m) := by
  unfold msgPoolAlloc at h
  split at h
  · rename_i k hk
    obtain ⟨rfl, rfl⟩ := Prod.mk.inj (Option.some.inj h)
    have hfree : p.allocated k = false := by simpa using List.find?_some hk
    refine ⟨⟨hp.doubleFree, hp.fresh⟩, by simp [Allocated, hfree], fun r => ?_, read_write .., fun r hr => ?_⟩
    · cases r with
      | pool k' => by_cases hk' : k' = k <;> simp [Allocated, write, hk']
      | heap n => simp [Allocated, write]
    · cases r with
      | pool k' =>
        have hk' : k' ≠ k := fun h => hr (by rw [h])
        simp [read, write, hk']
      | heap n => rfl
  · split_ifs at h
    obtain ⟨rfl, rfl⟩ := Prod.mk.inj (Option.some.inj h)
    have hfree : p.heap p.heapSerial = none := hp.fresh _ (Nat.le_refl _)
    refine ⟨⟨hp.doubleFree, fun n hn => ?_⟩, by simp [Allocated, hfree], fun r => ?_, read_write ..,
      fun r hr => ?_⟩
    · have hn : p.heapSerial + 1 ≤ n := hn
      simp [write, Function.update_of_ne (Nat.ne_of_gt hn), hp.fresh n (by omega)]
    · cases r with
      | pool k => simp [Allocated, write]
      | heap n => by_cases hn : n = p.heapSerial <;> simp [Allocated, write, hn]
    · cases r with
      | pool k => rfl
      | heap n =>
        have hn : n ≠ p.heapSerial := fun h => hr (by rw [h])
        simp [read, write, hn]

theorem drops_nil (hp : p.Valid) : p.Drops [] p :=
  ⟨hp, fun r => by simp, fun _ _ => rfl⟩

theorem drops_free (hp : p.Valid) (href : p.Allocated ref = true) : p.Drops [ref] (p.msgPoolFree ref) := by
  cases ref with
  | pool k =>
    refine ⟨⟨by simp [msgPoolFree, hp.doubleFree, href], hp.fresh⟩, fun r => ?_, fun r hr => ?_⟩
    · cases r with
      | pool k' => by_cases hk : k' = k <;> simp [Allocated, msgPoolFree, hk]
      | heap n => simp [Allocated, msgPoolFree]
    · cases r with
      | pool k' =>
        have hk : k' ≠ k := fun h => hr (by simp [h])
        simp [read, msgPoolFree, hk]
      | heap n => rfl
  | heap n =>
    refine ⟨⟨by simp [msgPoolFree, hp.doubleFree, href], fun i hi => ?_⟩, fun r => ?_, fun r hr => ?_⟩
    · have hfresh := hp.fresh i hi
      by_cases hin : i = n <;> simp [msgPoolFree, hin, hfresh]
    · cases r with
      | pool k => simp [Allocated, msgPoolFree]
      | heap i => by_cases hin : i = n <;> simp [Allocated, msgPoolFree, hin]
    · cases r with
      | pool k => rfl
      | heap i =>
        have hin : i ≠ n := fun h => hr (by simp [h])
        simp [read, msgPoolFree, hin]

theorem Drops.trans (h : p.Drops refs p') (h' : p'.Drops refs' p'') : p.Drops (refs ++ refs') p'' where
  valid := h'.valid
  allocated r := by rw [h'.allocated, h.allocated, List.mem_append, not_or, and_assoc]
  read r hr := by
    rw [List.mem_append, not_or] at hr
    rw [h'.read r hr.2, h.read r hr.1]

/-- A message that was stored is freed again. -/
theorem Stores.drop (h : p.Stores ref m p') (h' : p'.Drops [ref] p'') :
    (∀ r, p''.Allocated r = true ↔ p.Allocated r = true) ∧
      ∀ r, p.Allocated r = true → p''.read r = p.read r := by
  have hne (r : MsgRef) (hr : p.Allocated r = true) : r ≠ ref := by
    rintro rfl
    exact h.free hr
  refine ⟨fun r => ?_, fun r hr => ?_⟩
  · rw [h'.allocated, h.allocated, List.mem_singleton]
    constructor
    · rintro ⟨hr | hr, hnot⟩
      · exact hr
      · exact absurd hr hnot
    · intro hr
      exact ⟨.inl hr, hne r hr⟩
  · rw [h'.read r (by simpa using hne r hr), h.read_of_ne r (hne r hr)]

/-- The loop of `agent_slot_cleanup` frees all messages of an inbox. -/
theorem drops_foldl (hp : p.Valid) (hnodup : refs.Nodup) (hrefs : ∀ r ∈ refs, p.Allocated r = true) :
    p.Drops refs ((refs.map some).foldl freeUnlessNull p) := by
  induction refs generalizing p with
  | nil => exact drops_nil hp
  | cons ref refs ih =>
    rw [List.nodup_cons] at hnodup
    have hfree := drops_free hp (hrefs ref List.mem_cons_self)
    refine hfree.trans (ih hfree.valid hnodup.2 fun r hr => (hfree.allocated r).2 ⟨?_, ?_⟩)
    · exact hrefs r (List.mem_cons_of_mem _ hr)
    · rintro hmem
      obtain rfl := List.mem_singleton.1 hmem
      exact hnodup.1 hr

end MsgPool

/-! ## Events of an inbox -/

/-- What was put in an inbox and what was taken out of it since it was cleared. -/
structure InboxLog where
  enqueued : List A2aMsg
  dequeued : List A2aMsg

/-- What an event adds to the log of an inbox. -/
def InboxLog.note (i : AgentIdx) (log : InboxLog) : InboxEvent → InboxLog
  | .enqueue j m => if j = i then { log with enqueued := log.enqueued ++ [m] } else log
  | .dequeue j m => if j = i then { log with dequeued := log.dequeued ++ [m] } else log
  | .clear j => if j = i then ⟨[], []⟩ else log

/-- The inbox that an event is about. -/
def InboxEvent.inbox : InboxEvent → AgentIdx
  | .enqueue j _ => j
  | .dequeue j _ => j
  | .clear j => j

theorem InboxLog.note_of_ne {i : AgentIdx} {log : InboxLog} {e : InboxEvent} (h : i ≠ e.inbox) :
    log.note i e = log := by
  cases e <;> exact if_neg (Ne.symm h)

/-- The log of an inbox. -/
def inboxLog (events : List InboxEvent) (i : AgentIdx) : InboxLog := events.foldl (InboxLog.note i) ⟨[], []⟩

@[simp] theorem inboxLog_append (events : List InboxEvent) (e : InboxEvent) (i : AgentIdx) :
    inboxLog (events ++ [e]) i = (inboxLog events i).note i e := by
  simp [inboxLog]

/-- Messages leave the inbox in the order in which they came: `stored` is what is left. -/
def InboxLog.InOrder (log : InboxLog) (stored : List A2aMsg) : Prop := log.enqueued = log.dequeued ++ stored

/-! ## The invariant -/

namespace AgentView

/-- The messages in the inbox of an agent. -/
def stored (V : AgentView) (i : AgentIdx) : List MsgRef :=
  ((V.slots i).inbox.contents fluxInboxSize).reduceOption

/-- What holds of the pool and the inboxes. -/
structure MailSound (V : AgentView) : Prop where
  pool : V.pool.Valid
  valid : ∀ i, (V.slots i).inbox.Valid fluxInboxSize
  contents : ∀ i, (V.slots i).inbox.contents fluxInboxSize = (V.stored i).map some
  held : HeldOnce V.stored fun r => V.pool.Allocated r = true
  inactive : ∀ i, (V.slots i).active = false → V.stored i = []
  bitmap : ∀ i, (V.slots i).active = true → V.bitmap i = true
  order : ∀ i, (inboxLog V.history.events i).InOrder ((V.stored i).map V.pool.read)

variable {V V' : AgentView} {i j k : AgentIdx} {ref : MsgRef} {msg : A2aMsg} {pool : MsgPool}

theorem stored_of_contents {refs : List MsgRef}
    (h : (V.slots i).inbox.contents fluxInboxSize = refs.map some) : V.stored i = refs := by
  have hsome : (refs.map some).reduceOption = refs := by
    refine (List.filterMap_map ..).trans ?_
    exact List.filterMap_some
  rw [stored, h, hsome]

theorem stored_congr (h : (V'.slots i).inbox = (V.slots i).inbox) : V'.stored i = V.stored i := by
  rw [stored, stored, h]

theorem MailSound.count_eq (h : V.MailSound) (i : AgentIdx) :
    (V.slots i).inbox.count = (V.stored i).length := by
  rw [← RingBuffer.length_contents (n := fluxInboxSize), h.contents, List.length_map]

theorem MailSound.allocated (h : V.MailSound) (href : ref ∈ V.stored i) : V.pool.Allocated ref = true :=
  h.held.alloc_of_mem href

/-- What is read in an inbox stays the same if its messages do. -/
theorem map_read_congr {p p' : MsgPool} {refs : List MsgRef} (h : ∀ r ∈ refs, p'.read r = p.read r) :
    refs.map p'.read = refs.map p.read := List.map_congr_left h

/-- The inboxes stay, and so do their messages. -/
theorem MailSound.repool (h : V.MailSound)
    (hslots : ∀ i, (V'.slots i).inbox = (V.slots i).inbox ∧ (V'.slots i).active = (V.slots i).active)
    (hbitmap : V'.bitmap = V.bitmap) (hevents : V'.history.events = V.history.events) (hvalid : V'.pool.Valid)
    (halloc : ∀ r, V'.pool.Allocated r = true ↔ V.pool.Allocated r = true)
    (hread : ∀ r, V.pool.Allocated r = true → V'.pool.read r = V.pool.read r) : V'.MailSound := by
  have hstored (i : AgentIdx) : V'.stored i = V.stored i := stored_congr (hslots i).1
  refine ⟨hvalid, fun i => (hslots i).1 ▸ h.valid i, fun i => ?_, h.held.congr hstored halloc, fun i hi => ?_,
    fun i hi => ?_, fun i => ?_⟩
  · rw [hstored, (hslots i).1]
    exact h.contents i
  · rw [hstored]
    exact h.inactive i ((hslots i).2 ▸ hi)
  · rw [hbitmap]
    exact h.bitmap i ((hslots i).2 ▸ hi)
  · rw [hstored, hevents, map_read_congr fun r hr => hread r (h.allocated hr)]
    exact h.order i

/-- Changes that the invariant does not look at. -/
theorem MailSound.congr (h : V.MailSound)
    (hslots : ∀ i, (V'.slots i).inbox = (V.slots i).inbox ∧ (V'.slots i).active = (V.slots i).active)
    (hbitmap : V'.bitmap = V.bitmap) (hpool : V'.pool = V.pool) (hhistory : V'.history = V.history) :
    V'.MailSound :=
  h.repool hslots hbitmap (congrArg _ hhistory) (hpool ▸ h.pool) (fun r => by rw [hpool])
    fun r _ => by rw [hpool]

/-- One inbox changes, and an event of it is noted. -/
theorem MailSound.update (h : V.MailSound) {e : InboxEvent} (hi : e.inbox = i)
    (hevents : V'.history.events = V.history.events ++ [e]) (hother : ∀ k, k ≠ i → V'.slots k = V.slots k)
    (hbits : ∀ k, k ≠ i → V'.bitmap k = V.bitmap k) (hvalid : (V'.slots i).inbox.Valid fluxInboxSize)
    (hcontents : (V'.slots i).inbox.contents fluxInboxSize = (V'.stored i).map some)
    (hinactive : (V'.slots i).active = false → V'.stored i = [])
    (hbit : (V'.slots i).active = true → V'.bitmap i = true) (hpool : V'.pool.Valid)
    (hheld : HeldOnce V'.stored fun r => V'.pool.Allocated r = true)
    (hread : ∀ k r, r ∈ V.stored k → r ∈ V'.stored k → V'.pool.read r = V.pool.read r)
    (horder : ((inboxLog V.history.events i).note i e).InOrder ((V'.stored i).map V'.pool.read)) :
    V'.MailSound := by
  have hstored (k : AgentIdx) (hk : k ≠ i) : V'.stored k = V.stored k :=
    stored_congr (congrArg _ (hother k hk))
  refine ⟨hpool, fun k => ?_, fun k => ?_, hheld, fun k hact => ?_, fun k hact => ?_, fun k => ?_⟩
  · by_cases hk : k = i
    · subst hk
      exact hvalid
    · rw [hother k hk]
      exact h.valid k
  · by_cases hk : k = i
    · subst hk
      exact hcontents
    · rw [hstored k hk, hother k hk]
      exact h.contents k
  · by_cases hk : k = i
    · subst hk
      exact hinactive hact
    · rw [hother k hk] at hact
      rw [hstored k hk]
      exact h.inactive k hact
  · by_cases hk : k = i
    · subst hk
      exact hbit hact
    · rw [hother k hk] at hact
      rw [hbits k hk]
      exact h.bitmap k hact
  · rw [hevents, inboxLog_append]
    by_cases hk : k = i
    · subst hk
      exact horder
    · rw [InboxLog.note_of_ne (hi ▸ hk), hstored k hk,
        map_read_congr fun r hr => hread k r hr (hstored k hk ▸ hr)]
      exact h.order k

/-! ## Posting -/

/-- A message is put in an inbox. -/
theorem MailSound.enqueued (h : V.MailSound) (hstores : V.pool.Stores ref msg pool)
    (hroom : (V.slots j).inbox.count < fluxInboxSize) (hact : (V.slots j).active = true)
    (hslots : V'.slots = (V.enqueued j ref msg).slots) (hbitmap : V'.bitmap = V.bitmap)
    (hpool : V'.pool = pool) (hevents : V'.history.events = V.history.events ++ [.enqueue j msg]) :
    V'.MailSound := by
  have hinbox : (V'.slots j).inbox = (V.slots j).inbox.push fluxInboxSize (some ref) := by
    rw [hslots]
    exact enqueued_inbox
  have hother (k : AgentIdx) (hk : k ≠ j) : V'.slots k = V.slots k := by
    rw [hslots]
    exact enqueued_of_ne hk
  have hactive : (V'.slots j).active = true := by
    rw [hslots, enqueued_keeps SlotView.active (fun _ _ => rfl) j]
    exact hact
  have hcontents : (V'.slots j).inbox.contents fluxInboxSize = (V.stored j ++ [ref]).map some := by
    rw [hinbox, RingBuffer.contents_push (h.valid j) hroom, h.contents, List.map_append, List.map_singleton]
  have hstored : V'.stored j = V.stored j ++ [ref] := stored_of_contents hcontents
  have hread (k : AgentIdx) (r : MsgRef) (hr : r ∈ V.stored k) : V'.pool.read r = V.pool.read r := by
    rw [hpool]
    refine hstores.read_of_ne r ?_
    rintro rfl
    exact hstores.free (h.allocated hr)
  refine h.update (i := j) rfl hevents hother (fun k _ => by rw [hbitmap]) ?_ (by rw [hcontents, hstored]) ?_
    ?_ (hpool ▸ hstores.valid) ?_ (fun k r hr _ => hread k r hr) ?_
  · rw [hinbox]
    exact (h.valid j).push hroom
  · rw [hactive]
    intro hfalse
    cases hfalse
  · intro _
    rw [hbitmap]
    exact h.bitmap j hact
  · refine h.held.store hstores.free hstored (fun k hk => stored_congr (congrArg _ (hother k hk))) fun r => ?_
    rw [hpool]
    exact hstores.allocated r
  · rw [hstored, List.map_append, map_read_congr (hread j), List.map_singleton, hpool, hstores.read_self]
    simp only [InboxLog.note, if_true, InboxLog.InOrder]
    rw [h.order j, List.append_assoc]

theorem MailSound.posted (h : V.MailSound) {mem : Bool} {fill : UInt32 → A2aMsg} {status : FluxStatus}
    {id : UInt32} (hact : (V.slots j).active = true) (hposted : V.Posted mem j fill status id V') :
    V'.MailSound := by
  cases hposted with
  | noMemory => exact h
  | full ref pool halloc =>
    have hstores := MsgPool.stores_of_alloc h.pool halloc (fill (drawMsgId V.nextMsgId).1)
    have hdrops := MsgPool.drops_free hstores.valid ((hstores.allocated ref).2 (.inr rfl))
    obtain ⟨hallocated, hread⟩ := hstores.drop hdrops
    exact h.repool (fun _ => ⟨rfl, rfl⟩) rfl rfl hdrops.valid hallocated hread
  | accepted ref pool halloc hroom =>
    have hstores := MsgPool.stores_of_alloc h.pool halloc (fill (drawMsgId V.nextMsgId).1)
    exact h.enqueued hstores hroom hact rfl rfl rfl rfl

/-! ## Taking a message out -/

/-- What is left in the inboxes was not freed. -/
theorem read_of_drops {refs : List MsgRef} (hdrops : V.pool.Drops refs pool) (hpool : V'.pool = pool)
    (hheld : HeldOnce V'.stored fun r => V'.pool.Allocated r = true) {r : MsgRef} (hr : r ∈ V'.stored k) :
    V'.pool.read r = V.pool.read r := by
  have halloc := hheld.alloc_of_mem hr
  rw [hpool] at halloc ⊢
  exact hdrops.read r ((hdrops.allocated r).1 halloc).2

/-- The first message is taken out and freed. -/
theorem MailSound.dequeued (h : V.MailSound) (hcount : (V.slots i).inbox.count ≠ 0)
    (href : (V.slots i).inbox.slots (V.slots i).inbox.head = some ref)
    (hslots : V'.slots = (V.modify i fun slot =>
      { slot with inbox := slot.inbox.takeHead fluxInboxSize none }).slots)
    (hbitmap : V'.bitmap = V.bitmap) (hpool : V'.pool = V.pool.msgPoolFree ref)
    (hevents : V'.history.events = V.history.events ++ [.dequeue i (V.pool.read ref)]) : V'.MailSound := by
  have hpos := Nat.pos_of_ne_zero hcount
  have hcons : V.stored i = ref :: (V.stored i).tail := by
    have hhead := RingBuffer.head?_contents (h.valid i) hpos
    rw [href, h.contents, List.head?_map] at hhead
    cases hstored : V.stored i with
    | nil => simp [hstored] at hhead
    | cons r refs =>
      simp only [hstored, List.head?_cons, Option.map_some, Option.some.injEq] at hhead
      rw [hhead, List.tail_cons]
  have hdrops := MsgPool.drops_free h.pool (h.allocated (by rw [hcons]; exact List.mem_cons_self))
  have hinbox : (V'.slots i).inbox = (V.slots i).inbox.takeHead fluxInboxSize none := by
    rw [hslots, modify_self]
  have hother (k : AgentIdx) (hk : k ≠ i) : V'.slots k = V.slots k := by rw [hslots, modify_of_ne hk]
  have hactive : (V'.slots i).active = (V.slots i).active := by rw [hslots, modify_self]
  have hcontents : (V'.slots i).inbox.contents fluxInboxSize = (V.stored i).tail.map some := by
    rw [hinbox, RingBuffer.contents_takeHead (h.valid i) hpos, h.contents, List.map_tail]
  have hstored : V'.stored i = (V.stored i).tail := stored_of_contents hcontents
  have hheld : HeldOnce V'.stored fun r => V'.pool.Allocated r = true := by
    refine h.held.release (l := [ref]) (by rw [hstored, List.singleton_append, ← hcons])
      (fun k hk => stored_congr (congrArg _ (hother k hk))) fun r => ?_
    rw [hpool]
    exact hdrops.allocated r
  refine h.update (i := i) rfl hevents hother (fun k _ => by rw [hbitmap]) ?_ (by rw [hcontents, hstored]) ?_
    ?_ (hpool ▸ hdrops.valid) hheld (fun k r _ hr => read_of_drops hdrops hpool hheld hr) ?_
  · rw [hinbox]
    exact (h.valid i).takeHead hpos
  · rw [hactive]
    intro hact
    rw [h.inactive i hact] at hcons
    cases hcons
  · rw [hactive, hbitmap]
    exact h.bitmap i
  · have horder := h.order i
    rw [hcons, List.map_cons] at horder
    rw [map_read_congr fun r hr => read_of_drops hdrops hpool hheld hr, hstored]
    simp only [InboxLog.note, if_true, InboxLog.InOrder]
    rw [horder, List.append_assoc]
    rfl

theorem MailSound.took (h : V.MailSound) {result : Option A2aMsg} (htakes : Takes V i result V') :
    V'.MailSound := by
  cases htakes with
  | empty => exact h
  | null hcount hnull =>
    have hhead := RingBuffer.head?_contents (h.valid i) (Nat.pos_of_ne_zero hcount)
    rw [hnull, h.contents, List.head?_map] at hhead
    cases hstored : (V.stored i).head? <;> simp [hstored] at hhead
  | message ref hcount href => exact h.dequeued hcount href rfl rfl rfl rfl

/-! ## Clearing a slot -/

/-- A slot is replaced by one with an empty inbox, and its messages are freed. -/
theorem MailSound.renew (h : V.MailSound) {slot : SlotView} {bitmap : AgentIdx → Bool}
    (hvalid : slot.inbox.Valid fluxInboxSize) (hcount : slot.inbox.count = 0)
    (hbit : slot.active = true → bitmap i = true) (hbits : ∀ k, k ≠ i → bitmap k = V.bitmap k)
    (hdrops : V.pool.Drops (V.stored i) pool) :
    { V.renewed i slot with pool, bitmap : AgentView }.MailSound := by
  generalize hV' : ({ V.renewed i slot with pool, bitmap } : AgentView) = V'
  have hslot : V'.slots i = slot := by
    rw [← hV']
    exact renewed_self
  have hother (k : AgentIdx) (hk : k ≠ i) : V'.slots k = V.slots k := by
    rw [← hV']
    exact renewed_of_ne hk
  have hpool : V'.pool = pool := by rw [← hV']
  have hbitmap : V'.bitmap = bitmap := by rw [← hV']
  have hevents : V'.history.events = V.history.events ++ [.clear i] := by
    rw [← hV']
    rfl
  have hcontents : (V'.slots i).inbox.contents fluxInboxSize = [] := by
    rw [hslot, RingBuffer.contents, hcount]
    rfl
  have hstored : V'.stored i = [] := stored_of_contents hcontents
  have hheld : HeldOnce V'.stored fun r => V'.pool.Allocated r = true := by
    refine h.held.release (by rw [hstored, List.append_nil])
      (fun k hk => stored_congr (congrArg _ (hother k hk))) fun r => ?_
    rw [hpool]
    exact hdrops.allocated r
  refine h.update (i := i) rfl hevents hother (fun k hk => by rw [hbitmap, hbits k hk])
    (by rw [hslot]; exact hvalid) (by rw [hcontents, hstored]; rfl) (fun _ => hstored) ?_ (hpool ▸ hdrops.valid) hheld
    (fun k r _ hr => read_of_drops hdrops hpool hheld hr) ?_
  · rw [hslot, hbitmap]
    exact hbit
  · rw [hstored]
    simp only [InboxLog.note, if_true, InboxLog.InOrder]
    rfl

/-! ## Runs -/

theorem valid_zero_inbox : AgentSlot.zero.inbox.Valid fluxInboxSize := ⟨by decide, by decide, by decide⟩

theorem valid_drainInbox (inbox : RingBuffer (Option MsgRef)) : (drainInbox inbox).Valid fluxInboxSize :=
  ⟨show 0 < 64 by decide, Nat.zero_le _, rfl⟩

theorem MailSound.stored_of_free (h : V.MailSound) (hfree : V.bitmap i = false) : V.stored i = [] := by
  refine h.inactive i ?_
  cases hact : (V.slots i).active with
  | false => rfl
  | true =>
    rw [h.bitmap i hact] at hfree
    cases hfree

theorem Change.mailSound {kind : ChangeKind} (hchange : Change kind V V') (h : V.MailSound) :
    V'.MailSound := by
  cases hchange with
  | posts i _ hposted =>
    obtain ⟨mem, j, fill, status, id, hact, -, hposted⟩ := hposted
    exact h.posted hact hposted
  | takes i msg _ htakes => exact h.took htakes
  | delegations d => exact h.congr (fun _ => ⟨rfl, rfl⟩) rfl rfl rfl
  | clears i hfree =>
    refine h.renew valid_zero_inbox rfl (fun hact => absurd hact (by decide)) (fun _ _ => rfl) ?_
    rw [h.stored_of_free hfree]
    exact MsgPool.drops_nil h.pool
  | spawns i slot caps hfree hnew =>
    have hinbox := hnew.inbox
    refine h.renew (by rw [hinbox]; exact valid_zero_inbox) (by rw [hinbox]; rfl)
      (fun _ => Function.update_self ..) (fun k hk => Function.update_of_ne hk ..) ?_
    rw [h.stored_of_free hfree]
    exact MsgPool.drops_nil h.pool
  | terminates i lastOpCycles hact _ =>
    refine h.renew (valid_drainInbox _) rfl (fun hact => absurd hact Bool.false_ne_true)
      (fun k hk => Function.update_of_ne hk ..) ?_
    rw [drainPool, h.contents]
    exact MsgPool.drops_foldl h.pool (h.held.nodup i) fun r hr => h.allocated hr
  | capabilities c => exact h.congr (fun _ => ⟨rfl, rfl⟩) rfl rfl rfl
  | registry topics pubCaps numPubCaps caps => exact h.congr (fun _ => ⟨rfl, rfl⟩) rfl rfl rfl
  | executes i limits lastOpCycles executed _ =>
    refine h.congr (fun k => ?_) rfl rfl rfl
    exact ⟨withUsage_keeps SlotView.inbox (fun _ _ _ _ => rfl) k,
      withUsage_keeps SlotView.active (fun _ _ _ _ => rfl) k⟩

theorem mailSound_init (config : Option AgentConfig) : (fluxAgentInit config).view.MailSound where
  pool := ⟨rfl, fun _ _ => rfl⟩
  valid _ := valid_zero_inbox
  contents _ := rfl
  held := HeldOnce.empty fun ref => by cases ref <;> exact Bool.false_ne_true
  inactive _ _ := rfl
  bitmap _ hact := absurd hact Bool.false_ne_true
  order _ := rfl

end AgentView

namespace AgentRuntime

variable {rt : AgentRuntime} {ref : MsgRef} {i : AgentIdx} {n : Nat}

/-- A message lies in an occupied position of the inbox of an active agent. -/
structure StoredAt (rt : AgentRuntime) (ref : MsgRef) (pos : AgentIdx × Nat) : Prop where
  active : (rt.agents pos.1).active = true
  occupied : pos.2 < (rt.agents pos.1).inbox.count
  entry : (rt.agents pos.1).inbox.entry fluxInboxSize pos.2 = some ref

/-- The messages of an inbox, from the head on. -/
def storedMessages (rt : AgentRuntime) (i : AgentIdx) : List A2aMsg := (rt.view.stored i).map rt.msgPool.read

/-- The messages that are allocated are those in the inboxes of active agents. -/
structure PoolExact (rt : AgentRuntime) : Prop where
  doubleFree : rt.msgPool.doubleFree = false
  stored : ∀ ref, rt.msgPool.Allocated ref = true → ∃! pos, rt.StoredAt ref pos
  occupied : ∀ i n, (rt.agents i).active = true → n < (rt.agents i).inbox.count →
    ∃ ref, (rt.agents i).inbox.entry fluxInboxSize n = some ref ∧ rt.msgPool.Allocated ref = true
  tail : ∀ i, (rt.agents i).inbox.tail = ((rt.agents i).inbox.head + (rt.agents i).inbox.count) % fluxInboxSize
  order : ∀ i, (inboxLog rt.history.events i).InOrder (rt.storedMessages i)

theorem getElem?_stored (h : rt.view.MailSound) :
    (rt.view.stored i)[n]? = some ref ↔
      n < (rt.agents i).inbox.count ∧ (rt.agents i).inbox.entry fluxInboxSize n = some ref := by
  have hcontents : (rt.agents i).inbox.contents fluxInboxSize = (rt.view.stored i).map some := h.contents i
  have hget : ((rt.agents i).inbox.contents fluxInboxSize)[n]? = some (some ref) ↔
      (rt.view.stored i)[n]? = some ref := by
    rw [hcontents, List.getElem?_map, Option.map_eq_some_iff]
    simp
  rw [← hget, List.getElem?_eq_some_iff]
  constructor
  · rintro ⟨hn, heq⟩
    refine ⟨?_, by rw [← heq, RingBuffer.getElem_contents]⟩
    rwa [RingBuffer.length_contents] at hn
  · rintro ⟨hn, heq⟩
    have hlen : n < ((rt.agents i).inbox.contents fluxInboxSize).length := by
      rwa [RingBuffer.length_contents]
    exact ⟨hlen, by rw [RingBuffer.getElem_contents, heq]⟩

theorem storedAt_iff (h : rt.view.MailSound) {pos : AgentIdx × Nat} :
    rt.StoredAt ref pos ↔ (rt.view.stored pos.1)[pos.2]? = some ref := by
  rw [getElem?_stored h]
  constructor
  · intro hat
    exact ⟨hat.occupied, hat.entry⟩
  · rintro ⟨hn, heq⟩
    refine ⟨?_, hn, heq⟩
    cases hact : (rt.agents pos.1).active with
    | true => rfl
    | false =>
      have hcount : (rt.agents pos.1).inbox.count = 0 := by
        have := h.count_eq pos.1
        rw [h.inactive pos.1 hact] at this
        exact this
      omega

theorem poolExact_of_mailSound (h : rt.view.MailSound) : rt.PoolExact where
  doubleFree := h.pool.doubleFree
  stored ref href := by
    simp only [storedAt_iff h]
    exact h.held.existsUnique_position href
  occupied i n _ hn := by
    have hlen : n < (rt.view.stored i).length := by
      rw [← h.count_eq]
      exact hn
    have hget : (rt.view.stored i)[n]? = some (rt.view.stored i)[n] := List.getElem?_eq_getElem hlen
    exact ⟨_, ((getElem?_stored h).1 hget).2, h.allocated (List.mem_of_getElem? hget)⟩
  tail i := (h.valid i).tail_eq
  order i := h.order i

end AgentRuntime

theorem AgentSystem.mailSound_of_reachable {s : AgentSystem} {allowed : AgentAction → AgentSystem → Prop}
    (h : AgentSystem.Reachable allowed s) : s.rt.view.MailSound := by
  obtain ⟨config, hrun⟩ := h
  exact AgentSystem.invariant_of_changes (fun _ _ _ hchange hV => hchange.mailSound hV) hrun
    (mailSound_init config)

/-- In every state that is reached, the allocated messages are those in the occupied positions of the inboxes
of active agents, each in one of them, and every inbox gives out its messages in order. -/
theorem messagePool_exact {s : AgentSystem} (h : AgentSystem.Reachable (fun _ _ => True) s) :
    s.rt.PoolExact :=
  poolExact_of_mailSound (AgentSystem.mailSound_of_reachable h)

/-- A message was sent to an agent. -/
theorem messagePool_exact_send :
    ((((fluxAgentInit none).withBare fluxCapCommunicate).withBare 0).fluxA2aSend true (agentIdOf 1)
      (agentIdOf 2) .tell [7]).2.PoolExact := by
  have hboot : Reaches AgentSystem.step (fun _ _ => True) (AgentSystem.boot none) _ := Reaches.refl _
  have hone := hboot.tail (a := .spawnBare fluxCapCommunicate) trivial rfl
  have htwo := hone.tail (a := .spawnBare 0) trivial rfl
  have hsent := htwo.tail (a := .send true (agentIdOf 1) (agentIdOf 2) .tell [7]) trivial rfl
  simpa only [AgentSystem.withRt, AgentSystem.boot, AgentRuntime.withBare] using messagePool_exact ⟨none, hsent⟩

end FluxOs
