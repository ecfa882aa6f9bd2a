import FluxOs.Kernel.Pids
import FluxOs.Lib.Mailboxes

/-!
# Message queues

Every message queue is a mailbox: the operations accept messages at the end and take the first one that
matches out, and in every run each message that was accepted is received once at most.
-/

namespace FluxOs

open Rings RingBuffer Actions Mailboxes

namespace Kernel

variable {k k' : Kernel} {i j : Slot} {pid : UInt32}

/-! ## Operations that leave the messages alone -/

theorem ipc_enqueue (pid : UInt32) : (k.fluxSchedEnqueue pid).2.ipc = k.ipc := by
  rcases fluxSchedEnqueue_cases k pid with ⟨h, -⟩ | ⟨i, -, -, -, h⟩ <;> rw [h]
  rfl

theorem ipc_dequeue : k.fluxSchedDequeue.2.ipc = k.ipc := by
  obtain ⟨pri, sched, -, h⟩ := exists_dispatched k
  rw [h]
  rfl

theorem ipc_requeueCurrent : k.requeueCurrent.ipc = k.ipc := by
  unfold requeueCurrent
  split_ifs
  · split
    · split_ifs
      · exact ipc_enqueue _
      · rfl
    · rfl
  · rfl

theorem ipc_switchTo : (k.switchTo pid).ipc = k.ipc := by
  unfold switchTo
  split_ifs <;> rfl

theorem ipc_iteration : k.schedIteration.ipc = k.ipc := by
  rw [schedIteration_eq]
  split_ifs
  · unfold spendTick
    dsimp only
    split <;> rfl
  · rw [ipc_switchTo, ipc_dequeue, ipc_requeueCurrent]
    rfl

theorem ipc_yield : k.fluxYield.2.ipc = k.ipc := by
  unfold fluxYield
  split_ifs
  · rfl
  · split
    · rfl
    · dsimp only
      split_ifs
      · exact ipc_enqueue _
      · exact ipc_enqueue _

theorem ipc_blockCurrent (waitingFor : UInt32) : (k.blockCurrent waitingFor).ipc = k.ipc := by
  unfold blockCurrent
  split <;> rfl

theorem ipc_wait (target : UInt32) : (k.syscallWait target).2.ipc = k.ipc := by
  cases h : k.procs.fluxGetPcb target with
  | none => rw [syscallWait_of_none h]
  | some i =>
    rw [syscallWait_of_some h]
    exact ipc_blockCurrent target

theorem ipc_exit {r : FluxStatus × Kernel} (hr : k.fluxExit = some r) : r.2.ipc = k.ipc := by
  rcases fluxExit_cases hr with ⟨-, h⟩ | ⟨i, -, -, h⟩
  · rw [h]
  · rw [h]
    exact frame_exited.2.1

theorem ipc_kill (pid : UInt32) : (k.fluxKill pid).2.ipc = k.ipc := by
  rcases fluxKill_cases k pid with ⟨h, -⟩ | ⟨i, -, -, h⟩ <;> rw [h]
  rfl

theorem ipc_spawn {entry stackSize : UInt64} {isAgent : Bool} {r : UInt32 × Kernel}
    (hr : k.fluxSpawn entry stackSize isAgent = some r) : r.2.ipc = k.ipc := by
  rcases kernel_of_spawn hr with h | ⟨n, heap, h⟩ | ⟨n, heap, top, pid, i, -, -, h⟩
  · rw [h]
  · rw [h]
    rfl
  · rw [h]
    exact ipc_enqueue _

theorem ipc_wakeTarget : (k.wakeTarget i pid).ipc = k.ipc := by
  unfold wakeTarget
  split_ifs
  · exact ipc_enqueue _
  · rfl

theorem ipc_wakeAgent : (k.wakeAgent i pid).ipc = k.ipc := by
  unfold wakeAgent
  split_ifs
  · exact ipc_enqueue _
  · rfl

theorem ipc_expire (r : Receive) : (k.expire r).ipc = k.ipc := by
  unfold expire
  split
  · split_ifs
    · exact ipc_enqueue _
    · rfl
  · rfl

theorem ipc_resume (r : Receive) : (k.resume r).ipc = k.ipc := by
  unfold resume
  split <;> rfl

end Kernel

/-! ## One queue -/

/-- The message satisfies the filter of a receive. -/
def IpcMessage.isFrom (filter : UInt32) (m : IpcMessage) : Bool :=
  filter = fluxPidInvalid || m.sender = filter

namespace IpcQueue

variable {q : IpcQueue} {filter : UInt32} {n : Nat}

/-- The messages that wait in a queue. -/
def contents (q : IpcQueue) : List IpcMessage := q.messages.contents fluxIpcQueueDepth

/-- The counters of a queue agree. -/
def Valid (q : IpcQueue) : Prop := q.messages.Valid fluxIpcQueueDepth

theorem isFull_iff : q.isFull = true ↔ ¬q.contents.length < fluxIpcQueueDepth := by
  rw [contents, length_contents, isFull, decide_eq_true_iff, Nat.not_lt]

theorem length_lt_of_room (hroom : q.isFull = false) : q.contents.length < fluxIpcQueueDepth := by
  refine not_not.1 fun h => ?_
  rw [isFull_iff.2 h] at hroom
  exact absurd hroom nofun

theorem enqueue_of_room (hv : q.Valid) (hroom : q.isFull = false) (msg : IpcMessage) :
    (q.ipcEnqueueMessage msg).2.Valid ∧ (q.ipcEnqueueMessage msg).2.contents = q.contents ++ [msg] := by
  have hlt : q.messages.count < fluxIpcQueueDepth := by
    rw [isFull, decide_eq_false_iff_not] at hroom
    omega
  rw [ipcEnqueueMessage, hroom]
  exact ⟨RingBuffer.Valid.push hv hlt, contents_push hv hlt⟩

/-- The search before waiting finds the oldest message that matches. -/
theorem findMessage_eq : q.findMessage filter = q.contents.findIdx? (IpcMessage.isFrom filter) := by
  rw [contents, findIdx?_contents]
  unfold findMessage
  split_ifs with hfilter hcount
  · congr 1
    funext i
    simp only [IpcMessage.isFrom, decide_eq_false hfilter, Bool.false_or]
    rfl
  · refine (List.find?_range_eq_some.2 ⟨?_, List.mem_range.2 hcount, fun k hk => absurd hk (Nat.not_lt_zero k)⟩).symm
    simp only [IpcMessage.isFrom, decide_eq_true (not_not.1 hfilter), Bool.true_or]
  · rw [show q.messages.count = 0 by omega]
    rfl

/-- The search while waiting finds the same message. -/
theorem awaited_eq (hv : q.Valid) : (q.ipcPeekMessage filter).bind q.numberOfSlot =
    q.contents.findIdx? (IpcMessage.isFrom filter) := by
  have hnumber (i : Nat) (hi : i < q.messages.count) :
      q.numberOfSlot (q.messages.index fluxIpcQueueDepth i) = some i := find?_index hv hi
  rw [contents, findIdx?_contents]
  unfold ipcPeekMessage
  split_ifs with hcount hfilter
  · rw [hcount]
    rfl
  · have hhead : q.messages.head = q.messages.index fluxIpcQueueDepth 0 := (Nat.mod_eq_of_lt hv.head_lt).symm
    rw [Option.bind_some, hhead, hnumber 0 (Nat.pos_of_ne_zero hcount)]
    refine (List.find?_range_eq_some.2
      ⟨?_, List.mem_range.2 (Nat.pos_of_ne_zero hcount), fun k hk => absurd hk (Nat.not_lt_zero k)⟩).symm
    simp only [IpcMessage.isFrom, decide_eq_true hfilter, Bool.true_or]
  · have hpred : (fun i => IpcMessage.isFrom filter (q.messages.entry fluxIpcQueueDepth i)) =
        (fun idx => decide ((q.messages.slots idx).sender = filter)) ∘
          q.messages.index fluxIpcQueueDepth := by
      funext i
      simp only [IpcMessage.isFrom, decide_eq_false hfilter, Bool.false_or]
      rfl
    rw [List.find?_map, hpred]
    cases hfind : (List.range q.messages.count).find?
      ((fun idx => decide ((q.messages.slots idx).sender = filter)) ∘
        q.messages.index fluxIpcQueueDepth) with
    | none => rfl
    | some i =>
      exact hnumber i (List.mem_range.1 (List.mem_of_find?_eq_some hfind))

/-- Taking out the message that was found. -/
theorem remove_of_find (hv : q.Valid) (hn : q.contents.findIdx? (IpcMessage.isFrom filter) = some n) :
    (q.ipcRemoveMessage n).2.Valid ∧
      (q.ipcRemoveMessage n).2.contents = q.contents.eraseP (IpcMessage.isFrom filter) ∧
      q.contents.find? (IpcMessage.isFrom filter) = some (q.messages.entry fluxIpcQueueDepth n) := by
  obtain ⟨hlt, -, -⟩ := List.findIdx?_eq_some_iff_getElem.1 hn
  have hcount : n < q.messages.count := by rwa [contents, length_contents] at hlt
  have hentry : q.contents[n]? = some (q.messages.entry fluxIpcQueueDepth n) := by
    rw [List.getElem?_eq_getElem hlt]
    exact congrArg some (getElem_contents hlt)
  rw [ipcRemoveMessage, if_neg (Nat.not_le.2 hcount)]
  refine ⟨RingBuffer.Valid.closeGap hv (Nat.zero_lt_of_lt hcount), ?_, ?_⟩
  · rw [List.eraseP_eq_eraseIdx, hn]
    exact contents_closeGap hv hcount (by omega) rfl
  · rw [List.find?_eq_bind_findIdx?_getElem?, hn, Option.bind_some, hentry]

end IpcQueue

/-! ## All queues -/

/-- Something happens to one queue only. -/
def only (j : Slot) (e : Event IpcMessage) (j' : Slot) : Event IpcMessage := if j' = j then e else .idle

namespace Kernel

variable {k k' : Kernel} {i j : Slot} {pid sender : UInt32} {m : IpcMessage} {n : Nat} {e : Event IpcMessage}

/-- The messages that wait for the process of a queue. -/
def pending (k : Kernel) (j : Slot) : List IpcMessage := (k.ipc.queues j).contents

def QueuesValid (k : Kernel) : Prop := ∀ j, (k.ipc.queues j).Valid

/-- The events `ev` lead from one state of the queues to another. -/
structure QueuesStep (ev : Slot → Event IpcMessage) (k k' : Kernel) : Prop where
  step j : Mailboxes.Step fluxIpcQueueDepth (ev j) (k.pending j) (k'.pending j)
  valid : k'.QueuesValid

/-- The queues hold the same messages. -/
def SameMessages (k k' : Kernel) : Prop := ∀ j, (k'.ipc.queues j).messages = (k.ipc.queues j).messages

theorem SameMessages.of_ipc (h : k'.ipc = k.ipc) : SameMessages k k' := fun j => by rw [h]

theorem QueuesStep.of_same (hv : k.QueuesValid) (h : SameMessages k k') :
    QueuesStep (fun _ => .idle) k k' := by
  refine ⟨fun j => ?_, fun j => ?_⟩
  · rw [pending, pending, IpcQueue.contents, IpcQueue.contents, h]
    exact .idle _
  · rw [IpcQueue.Valid, h]
    exact hv j

theorem QueuesStep.congr {ev : Slot → Event IpcMessage} {k'' : Kernel} (hs : QueuesStep ev k k')
    (h : SameMessages k' k'') : QueuesStep ev k k'' := by
  refine ⟨fun j => ?_, fun j => ?_⟩
  · rw [pending, pending, IpcQueue.contents, IpcQueue.contents, h]
    exact hs.step j
  · rw [IpcQueue.Valid, h]
    exact hs.valid j

theorem sameMessages_modifyQueue {g : IpcQueue → IpcQueue}
    (hg : (g (k.ipc.queues j)).messages = (k.ipc.queues j).messages) :
    SameMessages k (k.modifyQueue j g) := by
  intro j'
  rw [show (k.modifyQueue j g).ipc.queues j' = if j' = j then g (k.ipc.queues j) else k.ipc.queues j' from
    Function.update_apply ..]
  split_ifs with hj
  · rw [hg, hj]
  · rfl

/-- One queue changes. -/
theorem QueuesStep.modifyQueue {g : IpcQueue → IpcQueue} (hv : k.QueuesValid)
    (hvalid : (g (k.ipc.queues j)).Valid)
    (hstep : Mailboxes.Step fluxIpcQueueDepth e (k.pending j) (g (k.ipc.queues j)).contents) :
    QueuesStep (only j e) k (k.modifyQueue j g) := by
  have hqueue (j' : Slot) : (k.modifyQueue j g).ipc.queues j' =
      if j' = j then g (k.ipc.queues j) else k.ipc.queues j' := Function.update_apply ..
  refine ⟨fun j' => ?_, fun j' => ?_⟩
  · rw [pending, pending, hqueue, only]
    split_ifs with hj
    · rw [hj]
      exact hstep
    · exact .idle _
  · rw [hqueue]
    split_ifs
    · exact hvalid
    · exact hv j'

/-- A message is taken from a queue and delivered. -/
theorem takeMessage_spec {filter : UInt32} (len : UInt64) (hv : k.QueuesValid)
    (hn : (k.pending j).findIdx? (IpcMessage.isFrom filter) = some n) :
    ∃ m, (k.pending j).find? (IpcMessage.isFrom filter) = some m ∧ (k.takeMessage j n len).1 = m.deliver len ∧
      QueuesStep (only j (.deliver m)) k (k.takeMessage j n len).2 := by
  obtain ⟨hvalid, hcontents, hfind⟩ := IpcQueue.remove_of_find (hv j) hn
  refine ⟨_, hfind, rfl, ?_⟩
  show QueuesStep _ k (k.modifyQueue j fun q => (q.ipcRemoveMessage n).2)
  refine QueuesStep.modifyQueue hv hvalid ?_
  rw [hcontents]
  exact .deliver _ _ _ hfind

/-- A message is accepted by a queue that is not full. -/
theorem acceptMessage_spec (hv : k.QueuesValid) (hroom : (k.ipc.queues j).isFull = false) :
    QueuesStep (only j (.accept m)) k (k.modifyQueue j fun q => (q.ipcEnqueueMessage m).2) := by
  obtain ⟨hvalid, hcontents⟩ := IpcQueue.enqueue_of_room (hv j) hroom m
  refine QueuesStep.modifyQueue hv hvalid ?_
  rw [hcontents]
  exact .accept _ _ (IpcQueue.length_lt_of_room hroom)

/-- A message that is sent is stored in the queue. -/
theorem storeMessage_spec (hv : k.QueuesValid) (hroom : (k.ipc.queues j).isFull = false) :
    QueuesStep (only j (.accept m)) k (k.storeMessage j m sender) := by
  have haccept := acceptMessage_spec (k := k.countMessage) (m := m) hv hroom
  have hstore : QueuesStep (only j (.accept m)) k
      (k.countMessage.modifyQueue j fun q => (q.ipcEnqueueMessage m).2) := ⟨haccept.step, haccept.valid⟩
  unfold storeMessage
  dsimp only
  split
  · exact hstore.congr (sameMessages_modifyQueue rfl)
  · exact hstore

/-! ## Broadcasts -/

/-- The pid that receives from a queue. -/
def queuePid (j : Slot) : UInt32 := UInt32.ofNat (j.val + 1)

theorem toNat_ofNat_of_le {n : Nat} (hn : n ≤ fluxMaxProcesses) : (UInt32.ofNat n).toNat = n :=
  UInt32.toNat_ofNat_of_lt' (Nat.lt_of_le_of_lt hn (by decide))

theorem toNat_queuePid (j : Slot) : (queuePid j).toNat = j.val + 1 := toNat_ofNat_of_le j.isLt

theorem ipcGetQueue_eq_some : ipcGetQueue pid = some j ↔ pid = queuePid j := by
  have hj : j.val < 256 := j.isLt
  have hnat := toNat_queuePid j
  unfold ipcGetQueue
  split_ifs with hpid
  · refine iff_of_false nofun fun h => ?_
    rw [h, hnat] at hpid
    dsimp only [fluxMaxProcesses] at hpid
    omega
  · rw [Option.some.injEq, Fin.ext_iff, ← UInt32.toNat_inj, hnat]
    dsimp only
    omega

/-- The queue is that of an agent other than the sender. -/
def Addressed (k : Kernel) (sender : UInt32) (j : Slot) : Prop :=
  queuePid j ≠ sender ∧ ∃ i, k.procs.fluxGetPcb (queuePid j) = some i ∧ (k.pcb i).isAgent = true

theorem SameProcesses.addressed_iff (h : SameProcesses k k') :
    k'.Addressed sender j ↔ k.Addressed sender j := by
  unfold Addressed
  rw [h.getPcb]
  simp only [h.isAgent]

instance : Decidable (k.Addressed sender j) := inferInstanceAs (Decidable (_ ∧ _))

/-- A visit offers the message to the queue of the pid, if it is addressed. -/
theorem queues_broadcastVisit (sender : UInt32) (m : IpcMessage) (pid : UInt32) (j : Slot) :
    (broadcastVisit sender m k pid).ipc.queues j =
      if pid = queuePid j ∧ k.Addressed sender j then ((k.ipc.queues j).ipcEnqueueMessage m).2
      else k.ipc.queues j := by
  rcases broadcastVisit_cases sender m k pid with ⟨h, hnot⟩ | ⟨i, j', hi, hagent, hself, hj', h⟩
  · rw [h, if_neg]
    rintro ⟨rfl, hself, i, hi, hagent⟩
    exact hnot i j hi hagent hself (ipcGetQueue_eq_some.2 rfl)
  · have hpid : pid = queuePid j' := ipcGetQueue_eq_some.1 hj'
    have hqueues : (broadcastVisit sender m k pid).ipc.queues =
        Function.update k.ipc.queues j' ((k.ipc.queues j').ipcEnqueueMessage m).2 := by
      rcases h with ⟨hfull, h⟩ | ⟨-, h⟩
      · rw [h, IpcQueue.ipcEnqueueMessage, if_pos hfull]
        rfl
      · rw [h, ipc_wakeAgent]
        rfl
    rw [hqueues, Function.update_apply]
    by_cases hj : j = j'
    · rw [if_pos hj, hj, if_pos ⟨hpid, hpid ▸ hself, i, hpid ▸ hi, hagent⟩]
    · rw [if_neg hj, if_neg fun h => hj (Option.some.inj ((ipcGetQueue_eq_some.2 h.1).symm.trans hj'))]

/-- A broadcast offers the message once to every addressed queue that it visits. -/
theorem queues_visits (sender : UInt32) (m : IpcMessage) {pids : List UInt32} (hnodup : pids.Nodup)
    (k : Kernel) (j : Slot) :
    (pids.foldl (broadcastVisit sender m) k).ipc.queues j =
      if queuePid j ∈ pids ∧ k.Addressed sender j then ((k.ipc.queues j).ipcEnqueueMessage m).2
      else k.ipc.queues j := by
  induction pids generalizing k with
  | nil => exact (if_neg fun h => absurd h.1 List.not_mem_nil).symm
  | cons pid pids ih =>
    obtain ⟨hnotin, hnodup⟩ := List.nodup_cons.1 hnodup
    have hiff : (broadcastVisit sender m k pid).Addressed sender j ↔ k.Addressed sender j :=
      (sameProcesses_broadcastVisit sender m pid).addressed_iff
    rw [List.foldl_cons, ih hnodup, queues_broadcastVisit]
    by_cases hfirst : pid = queuePid j
    · subst hfirst
      rw [if_neg fun h => hnotin h.1]
      simp only [List.mem_cons, true_or]
    · have hne : ¬queuePid j = pid := fun h => hfirst h.symm
      simp only [List.mem_cons, hfirst, hne, false_and, if_false, false_or, hiff]

/-- A broadcast visits the pids from 2 on. -/
theorem queuePid_mem_broadcastPids : queuePid j ∈ broadcastPids ↔ j ≠ 0 := by
  have hj : j.val < 256 := j.isLt
  have hzero : j ≠ 0 ↔ j.val ≠ 0 := not_congr Fin.ext_iff
  have hn : fluxMaxProcesses = 256 := rfl
  rw [broadcastPids, List.mem_map, hzero]
  constructor
  · rintro ⟨i, hi, heq⟩ h0
    rw [List.mem_range] at hi
    have := congrArg UInt32.toNat heq
    rw [toNat_queuePid, toNat_ofNat_of_le (by omega)] at this
    omega
  · intro h0
    refine ⟨j.val - 1, List.mem_range.2 (by omega), ?_⟩
    rw [show j.val - 1 + 2 = j.val + 1 by omega]
    rfl

theorem nodup_broadcastPids : broadcastPids.Nodup := by
  have hn : fluxMaxProcesses = 256 := rfl
  refine List.Nodup.map_on (fun i hi i' hi' heq => ?_) List.nodup_range
  rw [List.mem_range] at hi hi'
  have := congrArg UInt32.toNat heq
  rw [toNat_ofNat_of_le (by omega), toNat_ofNat_of_le (by omega)] at this
  omega

/-- What a broadcast does to the queues. -/
theorem queues_broadcastAll (msg : List UInt8) (j : Slot) :
    (k.broadcastAll msg).ipc.queues j =
      if j ≠ 0 ∧ k.Addressed k.ks.currentPid j then
        ((k.ipc.queues j).ipcEnqueueMessage (k.buildMessage k.ks.currentPid fluxPidInvalid msg)).2
      else k.ipc.queues j := by
  unfold broadcastAll
  rw [queues_visits _ _ nodup_broadcastPids]
  simp only [queuePid_mem_broadcastPids]
  rfl

/-- The event of an accepted broadcast at a queue. -/
def broadcastEvent (k : Kernel) (m : IpcMessage) (j : Slot) : Event IpcMessage :=
  if j ≠ 0 ∧ k.Addressed k.ks.currentPid j ∧ (k.ipc.queues j).isFull = false then .accept m else .idle

theorem broadcastAll_spec (hv : k.QueuesValid) (msg : List UInt8) :
    QueuesStep (k.broadcastEvent (k.buildMessage k.ks.currentPid fluxPidInvalid msg)) k
      (k.broadcastAll msg) := by
  have hqueue (j : Slot) : ((k.broadcastAll msg).ipc.queues j).Valid ∧
      Mailboxes.Step fluxIpcQueueDepth
        (k.broadcastEvent (k.buildMessage k.ks.currentPid fluxPidInvalid msg) j) (k.pending j)
        ((k.broadcastAll msg).pending j) := by
    rw [pending, pending, queues_broadcastAll, broadcastEvent]
    by_cases haddr : j ≠ 0 ∧ k.Addressed k.ks.currentPid j
    · rw [if_pos haddr]
      cases hroom : (k.ipc.queues j).isFull with
      | true =>
        rw [if_neg (by simp), IpcQueue.ipcEnqueueMessage, if_pos hroom]
        exact ⟨hv j, .idle _⟩
      | false =>
        obtain ⟨hvalid, hcontents⟩ := IpcQueue.enqueue_of_room (hv j) hroom
          (k.buildMessage k.ks.currentPid fluxPidInvalid msg)
        rw [if_pos ⟨haddr.1, haddr.2, rfl⟩, hcontents]
        exact ⟨hvalid, .accept _ _ (IpcQueue.length_lt_of_room hroom)⟩
    · rw [if_neg haddr, if_neg fun h => haddr ⟨h.1, h.2.1⟩]
      exact ⟨hv j, .idle _⟩
  exact ⟨fun j => (hqueue j).2, fun j => (hqueue j).1⟩

end Kernel

/-! ## Actions -/

/-- What a receive that is done returns. -/
def RecvOutcome.received : RecvOutcome → Option Received
  | .done _ r => r
  | .waiting _ => none

/-- What the action returns to a receiver. -/
def Action.received (a : Action) (s : System) : Option Received :=
  match a with
  | .recv filter len timeout => (s.kernel.fluxA2aRecv filter len timeout).1.received
  | .poll r => (s.kernel.recvPoll r).1.received
  | _ => none

/-- The action looks for a message in queue `j`: a receive, or a round of one whose time is not over. -/
def Action.Searches (a : Action) (s : System) (j : Slot) (filter : UInt32) (len : UInt64) : Prop :=
  (∃ timeout, a = .recv filter len timeout ∧ ipcGetQueue s.kernel.ks.currentPid = some j) ∨
    ∃ r, a = .poll r ∧ ¬s.kernel.Expired r ∧ r.queue = j ∧ r.filter = filter ∧ r.len = len

/-- An action looks into one queue at most. -/
theorem Action.Searches.unique {a : Action} {s : System} {j j' : Slot} {filter filter' : UInt32}
    {len len' : UInt64} (h : a.Searches s j filter len) (h' : a.Searches s j' filter' len') :
    j = j' ∧ filter = filter' ∧ len = len' := by
  rcases h with ⟨_, rfl, hj⟩ | ⟨r, rfl, -, rfl, rfl, rfl⟩
  · rcases h' with ⟨_, heq, hj'⟩ | ⟨_, heq, -⟩
    · cases heq
      exact ⟨Option.some.inj (hj.symm.trans hj'), rfl, rfl⟩
    · cases heq
  · rcases h' with ⟨_, heq, -⟩ | ⟨_, heq, -, rfl, rfl, rfl⟩
    · cases heq
    · cases heq
      exact ⟨rfl, rfl, rfl⟩

/-- What an action does to the queues as mailboxes. -/
inductive MessageStep (s : System) (a : Action) : (Slot → Event IpcMessage) → Prop
  | idle : a.received s = none →
      (∀ j filter len, a.Searches s j filter len →
        (s.kernel.pending j).find? (IpcMessage.isFrom filter) = none) →
      (∀ target msg, a = .send target msg → (s.kernel.fluxA2aSend target msg).1 ≠ .ok) →
      (∀ msg, a = .broadcast msg → (s.kernel.fluxA2aBroadcast msg).1 ≠ .ok) →
      MessageStep s a fun _ => .idle
  | sent (target : UInt32) (msg : List UInt8) (j : Slot) : a = .send target msg →
      (s.kernel.fluxA2aSend target msg).1 = .ok → ipcGetQueue target = some j →
      MessageStep s a (only j (.accept (s.kernel.buildMessage s.kernel.ks.currentPid target msg)))
  | broadcast (msg : List UInt8) : a = .broadcast msg → (s.kernel.fluxA2aBroadcast msg).1 = .ok →
      MessageStep s a
        (s.kernel.broadcastEvent (s.kernel.buildMessage s.kernel.ks.currentPid fluxPidInvalid msg))
  | received (j : Slot) (filter : UInt32) (len : UInt64) (m : IpcMessage) : a.Searches s j filter len →
      (s.kernel.pending j).find? (IpcMessage.isFrom filter) = some m →
      a.received s = some (m.deliver len) → MessageStep s a (only j (.deliver m))

variable {s t : System} {a : Action}

/-- An action that is no operation on messages. -/
theorem messageStep_of_same (hv : s.kernel.QueuesValid) (h : Kernel.SameMessages s.kernel t.kernel)
    (hreceived : a.received s = none) (hsearch : ∀ j filter len, ¬a.Searches s j filter len)
    (hsend : ∀ target msg, a ≠ .send target msg) (hbroadcast : ∀ msg, a ≠ .broadcast msg) :
    ∃ ev, MessageStep s a ev ∧ Kernel.QueuesStep ev s.kernel t.kernel :=
  ⟨_, .idle hreceived (fun j filter len h => absurd h (hsearch j filter len))
    (fun target msg h => absurd h (hsend target msg)) fun msg h => absurd h (hbroadcast msg),
    Kernel.QueuesStep.of_same hv h⟩

theorem messageStep_send (hv : s.kernel.QueuesValid) (target : UInt32) (msg : List UInt8) :
    ∃ ev, MessageStep s (.send target msg) ev ∧
      Kernel.QueuesStep ev s.kernel (s.kernel.fluxA2aSend target msg).2 := by
  rcases s.kernel.fluxA2aSend_cases target msg with ⟨hstatus, h, -⟩ | ⟨i, j, h⟩
  · refine ⟨_, .idle rfl ?_ ?_ nofun, Kernel.QueuesStep.of_same hv (Kernel.SameMessages.of_ipc ?_)⟩
    · rintro j filter len (⟨_, h, -⟩ | ⟨_, h, -⟩) <;> cases h
    · rintro _ _ ⟨⟩
      exact hstatus
    · rw [h]
  · have heq := Kernel.fluxA2aSend_of_canSend h
    refine ⟨_, .sent target msg j rfl (by rw [heq]) h.queue, ?_⟩
    rw [heq]
    exact (Kernel.storeMessage_spec hv h.room).congr (Kernel.SameMessages.of_ipc Kernel.ipc_wakeTarget)

theorem messageStep_broadcast (hv : s.kernel.QueuesValid) (msg : List UInt8) :
    ∃ ev, MessageStep s (.broadcast msg) ev ∧
      Kernel.QueuesStep ev s.kernel (s.kernel.fluxA2aBroadcast msg).2 := by
  rcases s.kernel.fluxA2aBroadcast_cases msg with ⟨hstatus, h, -⟩ | h
  · refine ⟨_, .idle rfl ?_ nofun ?_, Kernel.QueuesStep.of_same hv (Kernel.SameMessages.of_ipc ?_)⟩
    · rintro j filter len (⟨_, h, -⟩ | ⟨_, h, -⟩) <;> cases h
    · rintro _ ⟨⟩
      exact hstatus
    · rw [h]
  · have heq := Kernel.fluxA2aBroadcast_of_can h
    refine ⟨_, .broadcast msg rfl (by rw [heq]), ?_⟩
    rw [heq]
    dsimp only
    exact Kernel.broadcastAll_spec hv msg

theorem messageStep_recv (hv : s.kernel.QueuesValid) (filter : UInt32) (len timeout : UInt64) :
    ∃ ev, MessageStep s (.recv filter len timeout) ev ∧
      Kernel.QueuesStep ev s.kernel (s.kernel.fluxA2aRecv filter len timeout).2 := by
  have hsearch (j : Slot) (hj : ipcGetQueue s.kernel.ks.currentPid = some j) :
      Action.Searches (.recv filter len timeout) s j filter len := Or.inl ⟨timeout, rfl, hj⟩
  -- nothing is found in the queue that is searched
  have hnone (hfind : ∀ j, ipcGetQueue s.kernel.ks.currentPid = some j →
      (s.kernel.ipc.queues j).findMessage filter = none) (j : Slot) (filter' : UInt32) (len' : UInt64)
      (h : Action.Searches (.recv filter len timeout) s j filter' len') :
      (s.kernel.pending j).find? (IpcMessage.isFrom filter') = none := by
    rcases h with ⟨_, heq, hj⟩ | ⟨_, heq, -⟩
    · cases heq
      have hidx := hfind j hj
      rw [IpcQueue.findMessage_eq, List.findIdx?_eq_none_iff] at hidx
      exact List.find?_eq_none.2 fun m hm => Bool.not_eq_true _ ▸ hidx m hm
    · cases heq
  rcases s.kernel.fluxA2aRecv_cases filter len timeout with
    ⟨⟨status, h⟩, hfind⟩ | ⟨j, n, hj, hn, h⟩ | ⟨j, hj, hn, -, h⟩
  · refine ⟨_, .idle ?_ (hnone hfind) nofun nofun, ?_⟩
    · rw [Action.received, h]
      rfl
    · rw [h]
      exact Kernel.QueuesStep.of_same hv (Kernel.SameMessages.of_ipc rfl)
  · rw [IpcQueue.findMessage_eq] at hn
    obtain ⟨m, hfind, hreceived, hstep⟩ := Kernel.takeMessage_spec len hv hn
    refine ⟨_, .received j filter len m (hsearch j hj) hfind ?_, ?_⟩
    · rw [Action.received, h, hreceived]
      rfl
    · rw [h]
      exact hstep
  · refine ⟨_, .idle ?_ (hnone fun j' hj' => ?_) nofun nofun, ?_⟩
    · rw [Action.received, h]
      rfl
    · rw [← Option.some.inj (hj.symm.trans hj')]
      exact hn
    · rw [h]
      exact Kernel.QueuesStep.of_same hv (Kernel.SameMessages.of_ipc (Kernel.ipc_blockCurrent filter))

theorem messageStep_poll (hv : s.kernel.QueuesValid) (r : Receive) :
    ∃ ev, MessageStep s (.poll r) ev ∧ Kernel.QueuesStep ev s.kernel (s.kernel.recvPoll r).2 := by
  have hawaited : s.kernel.awaited r = (s.kernel.pending r.queue).findIdx? (IpcMessage.isFrom r.filter) :=
    IpcQueue.awaited_eq (hv r.queue)
  rcases s.kernel.recvPoll_cases r with ⟨hexpired, h⟩ | ⟨hexpired, ⟨n, hn, h⟩ | ⟨hn, h⟩⟩
  · refine ⟨_, .idle ?_ ?_ nofun nofun, ?_⟩
    · rw [Action.received, h]
      rfl
    · rintro j filter len (⟨_, heq, -⟩ | ⟨_, heq, hlive, -⟩)
      · cases heq
      · cases heq
        exact absurd hexpired hlive
    · rw [h]
      exact Kernel.QueuesStep.of_same hv (Kernel.SameMessages.of_ipc (Kernel.ipc_expire r))
  · rw [hawaited] at hn
    obtain ⟨m, hfind, hreceived, hstep⟩ := Kernel.takeMessage_spec r.len hv hn
    refine ⟨_, .received r.queue r.filter r.len m (Or.inr ⟨r, rfl, hexpired, rfl, rfl, rfl⟩) hfind ?_, ?_⟩
    · rw [Action.received, h, hreceived]
      rfl
    · rw [h]
      exact hstep.congr (Kernel.SameMessages.of_ipc (Kernel.ipc_resume r))
  · refine ⟨_, .idle ?_ ?_ nofun nofun, ?_⟩
    · rw [Action.received, h]
      rfl
    · rintro j filter len (⟨_, heq, -⟩ | ⟨_, heq, -, rfl, rfl, -⟩)
      · cases heq
      · cases heq
        rw [hawaited, List.findIdx?_eq_none_iff] at hn
        exact List.find?_eq_none.2 fun m hm => Bool.not_eq_true _ ▸ hn m hm
    · rw [h]
      exact Kernel.QueuesStep.of_same hv (Kernel.SameMessages.of_ipc rfl)

/-- Every action is such a step. -/
theorem System.messageStep (hv : s.kernel.QueuesValid) (hs : s.step a = some t) :
    ∃ ev, MessageStep s a ev ∧ Kernel.QueuesStep ev s.kernel t.kernel := by
  have hother (hreceived : a.received s = none) (hsend : ∀ target msg, a ≠ .send target msg)
      (hbroadcast : ∀ msg, a ≠ .broadcast msg) (hrecv : ∀ filter len timeout, a ≠ .recv filter len timeout)
      (hpoll : ∀ r, a ≠ .poll r) (h : t.kernel.ipc = s.kernel.ipc) :
      ∃ ev, MessageStep s a ev ∧ Kernel.QueuesStep ev s.kernel t.kernel := by
    refine messageStep_of_same hv (Kernel.SameMessages.of_ipc h) hreceived ?_ hsend hbroadcast
    rintro j filter len (⟨timeout, h, -⟩ | ⟨r, h, -⟩)
    · exact hrecv filter len timeout h
    · exact hpoll r h
  cases a with
  | spawn entry stackSize isAgent =>
    obtain ⟨r, hr, rfl⟩ := Option.map_eq_some_iff.1 hs
    exact hother rfl nofun nofun nofun nofun (Kernel.ipc_spawn hr)
  | exit =>
    obtain ⟨r, hr, rfl⟩ := Option.map_eq_some_iff.1 hs
    exact hother rfl nofun nofun nofun nofun (Kernel.ipc_exit hr)
  | kill pid =>
    cases hs
    exact hother rfl nofun nofun nofun nofun (Kernel.ipc_kill pid)
  | yield =>
    cases hs
    exact hother rfl nofun nofun nofun nofun Kernel.ipc_yield
  | wait target =>
    cases hs
    exact hother rfl nofun nofun nofun nofun (Kernel.ipc_wait target)
  | send target msg =>
    cases hs
    exact messageStep_send hv target msg
  | recv filter len timeout =>
    cases hs
    exact messageStep_recv hv filter len timeout
  | poll r =>
    obtain ⟨-, rfl⟩ := step_poll_eq_some.1 hs
    exact messageStep_poll hv r
  | broadcast msg =>
    cases hs
    exact messageStep_broadcast hv msg
  | enqueue pid =>
    cases hs
    exact hother rfl nofun nofun nofun nofun (Kernel.ipc_enqueue pid)
  | dequeue =>
    cases hs
    exact hother rfl nofun nofun nofun nofun Kernel.ipc_dequeue
  | schedule =>
    cases hs
    exact hother rfl nofun nofun nofun nofun Kernel.ipc_iteration
  | alloc size type =>
    obtain ⟨r, -, rfl⟩ := Option.map_eq_some_iff.1 hs
    exact hother rfl nofun nofun nofun nofun rfl
  | free p =>
    obtain ⟨heap, -, rfl⟩ := Option.map_eq_some_iff.1 hs
    exact hother rfl nofun nofun nofun nofun rfl

/-! ## Runs -/

theorem bootKernel_queuesValid : bootKernel.QueuesValid := fun _ => ⟨Nat.zero_lt_succ _, Nat.zero_le _, rfl⟩

/-- What the queues accepted and delivered, in this order. -/
structure Ledger where
  accepted : Slot → List IpcMessage
  delivered : Slot → List IpcMessage

def Ledger.record (l : Ledger) (ev : Slot → Event IpcMessage) : Ledger where
  accepted j := l.accepted j ++ (ev j).accepted
  delivered j := l.delivered j ++ (ev j).delivered

/-- A run that ends in the state, and its messages. -/
inductive History : System → Ledger → Prop
  | boot : History bootSystem ⟨fun _ => [], fun _ => []⟩
  | step {s t : System} {l : Ledger} (a : Action) (ev : Slot → Event IpcMessage) : History s l →
      s.step a = some t → MessageStep s a ev → Kernel.QueuesStep ev s.kernel t.kernel →
      History t (l.record ev)

theorem History.queuesValid {l : Ledger} (h : History s l) : s.kernel.QueuesValid := by
  cases h with
  | boot => exact bootKernel_queuesValid
  | step _ _ _ _ _ hstep => exact hstep.valid

/-- Every run has a history. -/
theorem System.Reachable.history (hr : s.Reachable fun _ _ => True) : ∃ l, History s l := by
  induction hr with
  | refl => exact ⟨_, .boot⟩
  | tail _ hact ih =>
    obtain ⟨a, -, hs⟩ := hact
    obtain ⟨l, hl⟩ := ih
    obtain ⟨ev, hev, hqueues⟩ := System.messageStep hl.queuesValid hs
    exact ⟨_, hl.step a ev hs hev hqueues⟩

/-- What a queue accepted is what it delivered and what is in it, in the order in which it came. -/
theorem History.conservation {l : Ledger} (h : History s l) (j : Slot) :
    (l.accepted j).Perm (l.delivered j ++ s.kernel.pending j) ∧
      (s.kernel.pending j).Sublist (l.accepted j) := by
  induction h with
  | boot => exact ⟨List.Perm.refl _, List.Sublist.refl _⟩
  | step a ev _ _ _ hstep ih =>
    exact ⟨(hstep.step j).conservation ih.1, (hstep.step j).order ih.2⟩

/-- A receive that finds a message returns the first one that matches and takes just this one out. -/
theorem MessageStep.takes {ev : Slot → Event IpcMessage} {j : Slot} {filter : UInt32} {len : UInt64}
    {m : IpcMessage} (h : MessageStep s a ev) (hq : Kernel.QueuesStep ev s.kernel t.kernel)
    (hsearch : a.Searches s j filter len)
    (hfind : (s.kernel.pending j).find? (IpcMessage.isFrom filter) = some m) :
    a.received s = some (m.deliver len) ∧
      t.kernel.pending j = (s.kernel.pending j).eraseP (IpcMessage.isFrom filter) ∧
      ∀ j' ≠ j, t.kernel.pending j' = s.kernel.pending j' := by
  cases h with
  | idle _ hnone _ _ => exact absurd hfind (by rw [hnone j filter len hsearch]; exact nofun)
  | sent target msg j' heq => rcases hsearch with ⟨_, h, -⟩ | ⟨_, h, -⟩ <;> cases heq.symm.trans h
  | broadcast msg heq => rcases hsearch with ⟨_, h, -⟩ | ⟨_, h, -⟩ <;> cases heq.symm.trans h
  | received j' filter' len' m' hsearch' hfind' hreceived =>
    obtain ⟨rfl, rfl, rfl⟩ := hsearch'.unique hsearch
    cases hfind.symm.trans hfind'
    refine ⟨hreceived, ?_, fun i hi => ?_⟩
    · have hstep := hq.step j'
      rw [only, if_pos rfl] at hstep
      exact hstep.deliver_eq hfind
    · have hstep := hq.step i
      rw [only, if_neg hi] at hstep
      exact hstep.idle_eq

/-- The queues are bounded lists of messages: the counters agree, every action accepts and delivers
messages as the mailboxes do, and a receive that finds a message takes out the first one that matches and
returns it. -/
structure System.MessagesSound (s : System) : Prop where
  tail j : (s.kernel.ipc.queues j).messages.tail =
    ((s.kernel.ipc.queues j).messages.head + (s.kernel.ipc.queues j).messages.count) % fluxIpcQueueDepth
  count j : (s.kernel.ipc.queues j).messages.count ≤ fluxIpcQueueDepth
  refines a t : s.step a = some t → ∃ ev, MessageStep s a ev ∧
    ∀ j, Mailboxes.Step fluxIpcQueueDepth (ev j) (s.kernel.pending j) (t.kernel.pending j)
  takes a t j filter len m : s.step a = some t → a.Searches s j filter len →
    (s.kernel.pending j).find? (IpcMessage.isFrom filter) = some m →
    a.received s = some (m.deliver len) ∧
      t.kernel.pending j = (s.kernel.pending j).eraseP (IpcMessage.isFrom filter) ∧
      ∀ j' ≠ j, t.kernel.pending j' = s.kernel.pending j'

theorem System.messagesSound_of_valid (hv : s.kernel.QueuesValid) : s.MessagesSound where
  tail j := (hv j).tail_eq
  count j := (hv j).count_le
  refines a t hs := by
    obtain ⟨ev, hev, hqueues⟩ := System.messageStep hv hs
    exact ⟨ev, hev, hqueues.step⟩
  takes a t j filter len m hs hsearch hfind := by
    obtain ⟨ev, hev, hqueues⟩ := System.messageStep hv hs
    exact hev.takes hqueues hsearch hfind

/-- In every state of every run the queues are such lists, and over the whole run each queue delivered
messages that it accepted, each of them once at most, and holds the others in their order. -/
theorem messageQueues_refine {s : System} (hr : s.Reachable fun _ _ => True) :
    s.MessagesSound ∧ (∃ l, History s l) ∧
      ∀ l, History s l → ∀ j, (l.accepted j).Perm (l.delivered j ++ s.kernel.pending j) ∧
        (s.kernel.pending j).Sublist (l.accepted j) := by
  obtain ⟨l, hl⟩ := hr.history
  exact ⟨s.messagesSound_of_valid hl.queuesValid, ⟨l, hl⟩, fun _ h => h.conservation⟩

/-- Process 2 sends two messages to process 3, which receives the first one. -/
def twoSent : List Action :=
  [.spawn 0 0 false, .spawn 0 0 true, .schedule, .send 3 [1, 2], .send 3 [7], .yield, .schedule, .recv 0 256 0]

theorem messageQueues_refine_sent : ∃ s, execute System.step twoSent bootSystem = some s ∧
    (s.kernel.pending 2).map IpcMessage.payload = [[7]] ∧ s.MessagesSound ∧ ∃ l, History s l ∧
      ∀ j, (l.accepted j).Perm (l.delivered j ++ s.kernel.pending j) ∧
        (s.kernel.pending j).Sublist (l.accepted j) := by
  have hrun : (execute System.step twoSent bootSystem).map (fun s => (s.kernel.pending 2).map IpcMessage.payload) =
      some [[7]] := by decide +kernel
  obtain ⟨s, hs, hpending⟩ := Option.map_eq_some_iff.1 hrun
  obtain ⟨hsound, ⟨l, hl⟩, hconserved⟩ := messageQueues_refine (s := s) (reaches_of_execute hs)
  exact ⟨s, hs, hpending, hsound, l, hl, hconserved l hl⟩

end FluxOs
