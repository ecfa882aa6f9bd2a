import FluxOs.Kernel.Pids

/-!
# The ready queue in runs

The counters of the ready queue agree in every state of every run, so that the queue can be taken as a list.
-/

namespace FluxOs

open Rings RingBuffer Actions

namespace Kernel

variable {k k' : Kernel} {i j : Slot} {pid : UInt32}

/-- The counters of the ready queue agree. -/
def ReadyValid (k : Kernel) : Prop := k.sched.readyQueue.Valid fluxSchedQueueSize

namespace ReadyValid

theorem of_queue (h : k.ReadyValid) (heq : k'.sched.readyQueue = k.sched.readyQueue) : k'.ReadyValid := by
  rw [ReadyValid, heq]
  exact h

theorem enqueue (h : k.ReadyValid) (pid : UInt32) : (k.fluxSchedEnqueue pid).2.ReadyValid := by
  rcases fluxSchedEnqueue_cases k pid with ⟨heq, -⟩ | ⟨i, -, hroom, -, heq⟩
  · rw [heq]
    exact h
  · rw [heq]
    exact Valid.push h hroom

theorem dequeue (h : k.ReadyValid) : k.fluxSchedDequeue.2.ReadyValid := by
  rcases Nat.eq_zero_or_pos k.sched.readyQueue.count with hzero | hpos
  · rw [show k.fluxSchedDequeue = (fluxPidInvalid, k) from if_pos hzero]
    exact h
  · obtain ⟨_, _, -, -, hvalid, -⟩ := fluxSchedDequeue_spec h hpos
    exact hvalid

theorem requeueCurrent (h : k.ReadyValid) : k.requeueCurrent.ReadyValid := by
  unfold Kernel.requeueCurrent
  split_ifs
  · split
    · split_ifs
      · exact h.enqueue _
      · exact h
    · exact h
  · exact h

theorem iteration (h : k.ReadyValid) : k.schedIteration.ReadyValid := by
  rw [schedIteration_eq]
  split_ifs
  · unfold spendTick
    dsimp only
    split <;> exact h
  · have hnext : k.tick.requeueCurrent.fluxSchedDequeue.2.ReadyValid :=
      (requeueCurrent (k := k.tick) h).dequeue
    unfold switchTo
    split_ifs <;> exact hnext

theorem spawn (h : k.ReadyValid) {entry stackSize : UInt64} {isAgent : Bool} {r : UInt32 × Kernel}
    (hr : k.fluxSpawn entry stackSize isAgent = some r) : r.2.ReadyValid := by
  rcases kernel_of_spawn hr with heq | ⟨n, heap, heq⟩ | ⟨n, heap, top, pid, i, -, -, heq⟩
  · rw [heq]
    exact h
  · rw [heq]
    exact h
  · rw [heq]
    exact enqueue (k := (k.withAllocated n heap).placed i _) h pid

theorem exit (h : k.ReadyValid) {r : FluxStatus × Kernel} (hr : k.fluxExit = some r) : r.2.ReadyValid := by
  rcases fluxExit_cases hr with ⟨-, heq⟩ | ⟨i, -, -, heq⟩
  · rw [heq]
    exact h
  · rw [heq]
    exact h.of_queue frame_exited.1

theorem kill (h : k.ReadyValid) (pid : UInt32) : (k.fluxKill pid).2.ReadyValid := by
  rcases fluxKill_cases k pid with ⟨heq, -⟩ | ⟨i, -, -, heq⟩ <;> rw [heq] <;> exact h

theorem yield (h : k.ReadyValid) : k.fluxYield.2.ReadyValid := by
  unfold fluxYield
  split_ifs
  · exact h
  · split
    · exact h
    · dsimp only
      split_ifs
      · rename_i i _ _
        exact enqueue (k := k.modifyPcb i fun pcb => { pcb with state := .ready }) h _
      · exact h.enqueue _

theorem blockCurrent (h : k.ReadyValid) (waitingFor : UInt32) : (k.blockCurrent waitingFor).ReadyValid := by
  unfold Kernel.blockCurrent
  split <;> exact h

theorem wait (h : k.ReadyValid) (target : UInt32) : (k.syscallWait target).2.ReadyValid := by
  cases hget : k.procs.fluxGetPcb target with
  | none =>
    rw [syscallWait_of_none hget]
    exact h
  | some i =>
    rw [syscallWait_of_some hget]
    exact h.blockCurrent target

theorem wakeTarget (h : k.ReadyValid) : (k.wakeTarget i pid).ReadyValid := by
  unfold Kernel.wakeTarget
  split_ifs
  · exact enqueue (k := k.modifyPcb i fun pcb =>
      { pcb with state := .ready, waitingFor := fluxPidInvalid }) h pid
  · exact h

theorem storeMessage_queue {imsg : IpcMessage} {sender : UInt32} :
    (k.storeMessage j imsg sender).sched = k.sched := by
  unfold storeMessage
  dsimp only
  split <;> rfl

theorem send (h : k.ReadyValid) (target : UInt32) (msg : List UInt8) :
    (k.fluxA2aSend target msg).2.ReadyValid := by
  rcases fluxA2aSend_cases k target msg with ⟨-, heq, -⟩ | ⟨i, j, hcan⟩
  · rw [heq]
    exact h
  · rw [fluxA2aSend_of_canSend hcan]
    exact (h.of_queue (congrArg Sched.readyQueue storeMessage_queue)).wakeTarget

theorem recv (h : k.ReadyValid) (filter : UInt32) (len timeout : UInt64) :
    (k.fluxA2aRecv filter len timeout).2.ReadyValid := by
  rcases fluxA2aRecv_cases k filter len timeout with ⟨⟨_, heq⟩, -⟩ | ⟨j, n, -, -, heq⟩ | ⟨j, -, -, -, heq⟩
  · rw [heq]
    exact h
  · rw [heq]
    exact h
  · rw [heq]
    exact h.blockCurrent filter

theorem poll (h : k.ReadyValid) (r : Receive) : (k.recvPoll r).2.ReadyValid := by
  rcases recvPoll_cases k r with ⟨-, heq⟩ | ⟨-, ⟨n, -, heq⟩ | ⟨-, heq⟩⟩
  · rw [heq]
    unfold expire
    split
    · split_ifs
      · rename_i i _ _
        exact enqueue (k := k.modifyPcb i fun pcb =>
          { pcb with state := .ready, waitingFor := fluxPidInvalid }) h _
      · exact h
    · exact h
  · rw [heq]
    unfold resume
    split <;> exact h
  · rw [heq]
    exact h

theorem broadcastVisit (h : k.ReadyValid) (sender : UInt32) (bmsg : IpcMessage) (pid : UInt32) :
    (broadcastVisit sender bmsg k pid).ReadyValid := by
  rcases broadcastVisit_cases sender bmsg k pid with ⟨heq, -⟩ | ⟨i, j, -, -, -, -, ⟨-, heq⟩ | ⟨-, heq⟩⟩
  · rw [heq]
    exact h
  · rw [heq]
    exact h
  · rw [heq]
    unfold wakeAgent
    split_ifs
    · exact enqueue (k := (k.modifyQueue j fun q => (q.ipcEnqueueMessage bmsg).2).modifyPcb i fun pcb =>
        { pcb with state := .ready }) h pid
    · exact h

theorem broadcast (h : k.ReadyValid) (msg : List UInt8) : (k.fluxA2aBroadcast msg).2.ReadyValid :=
  broadcast_keeps (P := ReadyValid) h h (fun _ sender bmsg pid h => h.broadcastVisit sender bmsg pid) msg

end ReadyValid

end Kernel

/-- The counters agree after every action. -/
theorem Kernel.ReadyValid.step {s t : System} {a : Action} (h : s.kernel.ReadyValid)
    (hs : s.step a = some t) : t.kernel.ReadyValid := by
  cases a with
  | spawn entry stackSize isAgent =>
    obtain ⟨r, hr, rfl⟩ := Option.map_eq_some_iff.1 hs
    exact h.spawn hr
  | exit =>
    obtain ⟨r, hr, rfl⟩ := Option.map_eq_some_iff.1 hs
    exact h.exit hr
  | kill pid =>
    cases hs
    exact h.kill pid
  | yield =>
    cases hs
    exact h.yield
  | wait target =>
    cases hs
    exact h.wait target
  | send target msg =>
    cases hs
    exact h.send target msg
  | recv filter len timeout =>
    cases hs
    exact h.recv filter len timeout
  | poll r =>
    obtain ⟨-, rfl⟩ := System.step_poll_eq_some.1 hs
    exact h.poll r
  | broadcast msg =>
    cases hs
    exact h.broadcast msg
  | enqueue pid =>
    cases hs
    exact h.enqueue pid
  | dequeue =>
    cases hs
    exact h.dequeue
  | schedule =>
    cases hs
    exact h.iteration
  | alloc size type =>
    obtain ⟨r, -, rfl⟩ := Option.map_eq_some_iff.1 hs
    exact h
  | free p =>
    obtain ⟨heap, -, rfl⟩ := Option.map_eq_some_iff.1 hs
    exact h

theorem bootKernel_readyValid : bootKernel.ReadyValid := ⟨by decide, by decide, by decide⟩

theorem System.Reachable.readyValid {allowed : Action → System → Prop} {s : System}
    (hr : s.Reachable allowed) : s.kernel.ReadyValid :=
  Reaches.invariant (I := fun s => s.kernel.ReadyValid) hr (fun _ _ _ _ h hs => h.step hs)
    bootKernel_readyValid

/-! ## Waiting receives -/

/-- A receive that waits has the pid of a process, and the slot that this pid stands for. -/
def System.ReceivesOwn (s : System) : Prop :=
  ∀ r ∈ s.receives, r.pid ≠ 0 ∧ ∀ j, r.pcb = some j → slotOf r.pid = some j

theorem RecvOutcome.mem_leave {r r' : Receive} {receives : List Receive} {o : RecvOutcome}
    (h : r' ∈ o.leave r receives) : r' ∈ receives := by
  cases o with
  | done => exact List.mem_of_mem_erase h
  | waiting => exact h

theorem System.receives_recv {s : System} {filter : UInt32} {len timeout : UInt64} {r : Receive}
    (hr : r ∈ (s.kernel.fluxA2aRecv filter len timeout).1.enter s.receives) : r ∈ s.receives ∨
      r.pid = s.kernel.ks.currentPid ∧ r.pid ≠ 0 ∧ r.pcb = s.kernel.procs.fluxGetPcb r.pid := by
  rcases s.kernel.fluxA2aRecv_cases filter len timeout with
    ⟨⟨_, heq⟩, -⟩ | ⟨j, n, -, -, heq⟩ | ⟨j, hj, -, -, heq⟩
  · rw [heq] at hr
    exact Or.inl hr
  · rw [heq] at hr
    exact Or.inl hr
  · rw [heq] at hr
    rcases List.mem_cons.1 hr with rfl | hr
    · refine Or.inr ⟨rfl, fun h0 => ?_, rfl⟩
      rw [show s.kernel.ks.currentPid = 0 from h0] at hj
      cases hj
    · exact Or.inl hr

theorem System.ReceivesOwn.step {s t : System} {a : Action} (h : s.ReceivesOwn) (hs : s.step a = some t) :
    t.ReceivesOwn := by
  cases a with
  | recv filter len timeout =>
    cases hs
    intro r hr
    rcases System.receives_recv hr with hr | ⟨-, hpid, hpcb⟩
    · exact h r hr
    · refine ⟨hpid, fun j hj => ?_⟩
      exact (Kernel.fluxGetPcb_eq_some.1 (hpcb.symm.trans hj)).1
  | poll r =>
    obtain ⟨-, rfl⟩ := System.step_poll_eq_some.1 hs
    exact fun r' hr' => h r' (RecvOutcome.mem_leave hr')
  | spawn | exit | alloc | free =>
    obtain ⟨r, -, rfl⟩ := Option.map_eq_some_iff.1 hs
    exact h
  | _ =>
    cases hs
    exact h

theorem System.Reachable.receivesOwn {allowed : Action → System → Prop} {s : System}
    (hr : s.Reachable allowed) : s.ReceivesOwn :=
  Reaches.invariant (I := System.ReceivesOwn) hr (fun _ _ _ _ h hs => h.step hs) nofun

end FluxOs
