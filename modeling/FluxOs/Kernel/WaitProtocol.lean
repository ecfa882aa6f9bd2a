import FluxOs.Kernel.ReadyStates

/-!
# Waiting for a process

A process that waits for another one should stay blocked until that one ends, and then be ready and queued.
Several operations wake it up earlier, an exit wakes up only the parent and does not queue it, and a kill
wakes up nobody.
-/

namespace FluxOs

open Rings Actions

namespace Kernel

variable {k k' : Kernel} {i j m : Slot} {pid : UInt32} {msg : List UInt8}

/-- The process in the slot is blocked. -/
def IsBlocked (k : Kernel) (i : Slot) : Prop := (k.pcb i).state = .blocked

theorem IsBlocked.used (h : k.IsBlocked i) : k.Used i := by
  rw [Used, h]
  decide

theorem IsBlocked.of_state (h : k.IsBlocked i) (heq : (k'.pcb i).state = (k.pcb i).state) :
    k'.IsBlocked i := heq.trans h

theorem IsBlocked.modifyPcb_of_ne (h : k.IsBlocked i) (hi : i ≠ j) (f : Pcb → Pcb) :
    (k.modifyPcb j f).IsBlocked i := h.of_state (by rw [pcb_modifyPcb_of_ne hi])

/-- The lookup of a pid finds a used slot exactly if it is that of the pid. -/
theorem getPcb_iff_slotOf (hi : k.Used i) : k.procs.fluxGetPcb pid = some i ↔ slotOf pid = some i := by
  rw [fluxGetPcb_eq_some]
  exact and_iff_left hi

/-! ## Operations on a blocked process -/

/-- `flux_sched_enqueue` has nothing to add. -/
def EnqueueIdle (k : Kernel) (pid : UInt32) : Prop :=
  pid ∈ k.queued ∨ fluxSchedQueueSize ≤ k.sched.readyQueue.count

theorem isBlocked_enqueue_iff (h : k.IsBlocked i) (pid : UInt32) :
    (k.fluxSchedEnqueue pid).2.IsBlocked i ↔ (slotOf pid = some i → k.EnqueueIdle pid) := by
  rcases fluxSchedEnqueue_cases k pid with ⟨heq, hcase⟩ | ⟨i', hnew, hroom, hget, heq⟩
  · rw [heq]
    refine iff_of_true h fun hslot => ?_
    rcases hcase with rfl | hin | hfull | hnone
    · cases hslot
    · exact Or.inl hin
    · exact Or.inr hfull
    · rw [(getPcb_iff_slotOf h.used).2 hslot] at hnone
      cases hnone
  · have hpcb : ((k.fluxSchedEnqueue pid).2.pcb i) = if i = i' then wokenPcb (k.pcb i') else k.pcb i := by
      rw [heq]
      exact Function.update_apply ..
    by_cases hi : i = i'
    · subst hi
      have hwoken : wokenPcb (k.pcb i) = { k.pcb i with state := .ready } := if_pos (Or.inl h)
      rw [IsBlocked, hpcb, if_pos rfl, hwoken]
      refine iff_of_false nofun fun hidle => ?_
      rcases hidle (fluxGetPcb_eq_some.1 hget).1 with hin | hfull
      · exact hnew hin
      · exact absurd hroom (Nat.not_lt.2 hfull)
    · rw [IsBlocked, hpcb, if_neg hi]
      refine iff_of_true h fun hslot => ?_
      exact absurd (Option.some.inj (hslot.symm.trans (fluxGetPcb_eq_some.1 hget).1)) hi

/-- Enqueuing the process of another slot. -/
theorem IsBlocked.enqueue_of_ne (h : k.IsBlocked i) (hslot : slotOf pid ≠ some i) :
    (k.fluxSchedEnqueue pid).2.IsBlocked i :=
  (isBlocked_enqueue_iff h pid).2 fun heq => absurd heq hslot

/-- Waking up a process and enqueuing it. -/
theorem isBlocked_wake_iff (h : k.IsBlocked i) {f : Pcb → Pcb} (hf : (f (k.pcb j)).state = .ready)
    (hslot : slotOf pid = some j) :
    ((k.modifyPcb j f).fluxSchedEnqueue pid).2.IsBlocked i ↔ j ≠ i := by
  by_cases hj : j = i
  · subst hj
    refine iff_of_false (fun hb => ?_) (not_not.2 rfl)
    rcases pcb_enqueue (k := k.modifyPcb j f) pid j with heq | ⟨-, heq⟩
    · rw [IsBlocked, heq, pcb_modifyPcb_self, hf] at hb
      cases hb
    · rw [IsBlocked, heq, pcb_modifyPcb_self, wokenPcb_of_ne (by rw [hf]; exact nofun)
        (by rw [hf]; exact nofun), hf] at hb
      cases hb
  · refine iff_of_true ((h.modifyPcb_of_ne (Ne.symm hj) f).enqueue_of_ne ?_) hj
    rw [hslot]
    exact fun heq => hj (Option.some.inj heq)

theorem IsBlocked.blockCurrent (h : k.IsBlocked i) (waitingFor : UInt32) :
    (k.blockCurrent waitingFor).IsBlocked i := by
  unfold Kernel.blockCurrent
  split
  · rename_i j _
    rw [IsBlocked, pcb_modifyPcb]
    split_ifs
    · rfl
    · exact h
  · exact h

theorem IsBlocked.wait (h : k.IsBlocked i) (target : UInt32) : (k.syscallWait target).2.IsBlocked i := by
  cases hget : k.procs.fluxGetPcb target with
  | none =>
    rw [syscallWait_of_none hget]
    exact h
  | some j =>
    rw [syscallWait_of_some hget]
    exact h.blockCurrent target

theorem IsBlocked.recv (h : k.IsBlocked i) (filter : UInt32) (len timeout : UInt64) :
    (k.fluxA2aRecv filter len timeout).2.IsBlocked i := by
  rcases fluxA2aRecv_cases k filter len timeout with ⟨⟨_, heq⟩, -⟩ | ⟨j, n, -, -, heq⟩ | ⟨j, -, -, -, heq⟩
  · rw [heq]
    exact h
  · rw [heq]
    exact h
  · rw [heq]
    exact h.blockCurrent filter

theorem isBlocked_yield_iff (h : k.IsBlocked i) : k.fluxYield.2.IsBlocked i ↔
    (slotOf k.ks.currentPid = some i → k.EnqueueIdle k.ks.currentPid) := by
  have hdone {k : Kernel} : k.fluxSchedYieldCurrent.IsBlocked i ↔ k.IsBlocked i := Iff.rfl
  unfold fluxYield
  split_ifs with hzero
  · refine iff_of_true h fun hslot => ?_
    rw [hzero] at hslot
    cases hslot
  · split
    · rename_i hnone
      refine iff_of_true h fun hslot => ?_
      rw [hnone] at hslot
      cases hslot
    · rename_i m hm
      dsimp only
      split_ifs with hrun
      · have hmi : m ≠ i := by
          rintro rfl
          rw [show (k.pcb m).state = .blocked from h] at hrun
          cases hrun
        have hne : slotOf k.ks.currentPid ≠ some i := by
          rw [hm]
          exact fun heq => hmi (Option.some.inj heq)
        exact iff_of_true (hdone.2 ((h.modifyPcb_of_ne (Ne.symm hmi) _).enqueue_of_ne hne)) fun heq => absurd heq hne
      · exact hdone.trans (isBlocked_enqueue_iff h k.ks.currentPid)

theorem isBlocked_send_iff (h : k.IsBlocked i) (target : UInt32) (msg : List UInt8) :
    (k.fluxA2aSend target msg).2.IsBlocked i ↔ ∀ m j, k.CanSend target msg m j → m ≠ i := by
  rcases fluxA2aSend_cases k target msg with ⟨-, heq, hnot⟩ | ⟨m, j, hcan⟩
  · rw [heq]
    exact iff_of_true h fun m j hcan => absurd hcan (hnot m j)
  · have hpcb : (k.storeMessage j (k.buildMessage k.ks.currentPid target msg) k.ks.currentPid).pcb = k.pcb :=
      congrArg ProcTable.pcb storeMessage_procs
    have hstored : (k.storeMessage j (k.buildMessage k.ks.currentPid target msg)
        k.ks.currentPid).IsBlocked i := h.of_state (by rw [hpcb])
    have hslot := (fluxGetPcb_eq_some.1 hcan.pcb).1
    have honly : (∀ m' j', k.CanSend target msg m' j' → m' ≠ i) ↔ m ≠ i := by
      refine ⟨fun hall => hall m j hcan, fun hm m' j' hcan' => ?_⟩
      rwa [Option.some.inj (hcan'.pcb.symm.trans hcan.pcb)]
    rw [fluxA2aSend_of_canSend hcan, honly]
    dsimp only
    unfold wakeTarget
    split_ifs with hwake
    · exact isBlocked_wake_iff hstored rfl hslot
    · refine iff_of_true hstored ?_
      rintro rfl
      exact hwake (Or.inl hstored)

theorem isBlocked_poll_iff (h : k.IsBlocked i) {r : Receive}
    (hr : ∀ j, r.pcb = some j → slotOf r.pid = some j) :
    (k.recvPoll r).2.IsBlocked i ↔ (r.pcb = some i → ¬k.Expired r ∧ k.awaited r = none) := by
  rcases recvPoll_cases k r with ⟨hexp, heq⟩ | ⟨hexp, ⟨n, hn, heq⟩ | ⟨hn, heq⟩⟩
  · have hiff : (k.expire r).IsBlocked i ↔ r.pcb ≠ some i := by
      unfold expire
      split
      · rename_i j hj
        rw [hj, ne_eq, Option.some.injEq]
        split_ifs with hblocked
        · exact isBlocked_wake_iff h rfl (hr j hj)
        · refine iff_of_true h ?_
          rintro rfl
          exact hblocked h
      · rename_i hnone
        rw [hnone]
        exact iff_of_true h nofun
    rw [heq, hiff]
    exact ⟨fun hne heq => absurd heq hne, fun hall heq => (hall heq).1 hexp⟩
  · have hiff : ((k.takeMessage r.queue n r.len).2.resume r).IsBlocked i ↔ r.pcb ≠ some i := by
      unfold resume
      split
      · rename_i j hj
        rw [hj, ne_eq, Option.some.injEq, IsBlocked, pcb_modifyPcb]
        split_ifs with hij
        · exact iff_of_false nofun fun hne => hne hij.symm
        · exact iff_of_true h fun heq => hij heq.symm
      · rename_i hnone
        rw [hnone]
        exact iff_of_true h nofun
    rw [heq, hiff, hn]
    exact ⟨fun hne heq => absurd heq hne, fun hall heq => absurd (hall heq).2 nofun⟩
  · rw [heq]
    exact iff_of_true h fun _ => ⟨hexp, hn⟩

theorem IsBlocked.broadcastVisit (h : k.IsBlocked i) (sender : UInt32) (bmsg : IpcMessage) (pid : UInt32) :
    (broadcastVisit sender bmsg k pid).IsBlocked i := by
  rcases broadcastVisit_cases sender bmsg k pid with ⟨heq, -⟩ | ⟨j, q, hget, -, -, -, ⟨-, heq⟩ | ⟨-, heq⟩⟩
  · rw [heq]
    exact h
  · rw [heq]
    exact h
  · rw [heq]
    unfold wakeAgent
    split_ifs with hidle
    · refine (isBlocked_wake_iff (k := k.modifyQueue q fun q => (q.ipcEnqueueMessage bmsg).2) h rfl
        (fluxGetPcb_eq_some.1 hget).1).2 ?_
      rintro rfl
      exact absurd (hidle.symm.trans h) nofun
    · exact h

theorem IsBlocked.broadcast (h : k.IsBlocked i) (msg : List UInt8) :
    (k.fluxA2aBroadcast msg).2.IsBlocked i :=
  broadcast_keeps (P := (·.IsBlocked i)) h h (fun _ sender bmsg pid h => h.broadcastVisit sender bmsg pid) msg

theorem IsBlocked.spawn (h : k.IsBlocked i) {entry stackSize : UInt64} {isAgent : Bool}
    {r : UInt32 × Kernel} (hr : k.fluxSpawn entry stackSize isAgent = some r) : r.2.IsBlocked i := by
  rcases kernel_of_spawn hr with heq | ⟨n, heap, heq⟩ | ⟨n, heap, top, pid, j, hslot, hfree, heq⟩
  · rw [heq]
    exact h
  · rw [heq]
    exact h
  · rw [heq]
    have hij : i ≠ j := by
      rintro rfl
      exact h.used hfree
    have hplaced : ((k.withAllocated n heap).placed j (k.spawnedPcb pid entry top isAgent)).IsBlocked i :=
      h.of_state (congrArg Pcb.state (Function.update_of_ne hij ..))
    have hne : slotOf pid ≠ some i := by
      rw [hslot]
      exact fun heq => hij (Option.some.inj heq).symm
    exact hplaced.enqueue_of_ne hne

/-- A dequeue wakes up the process whose pid is selected. -/
theorem isBlocked_dequeue_iff (h : k.IsBlocked i) (hv : k.ReadyValid) : k.fluxSchedDequeue.2.IsBlocked i ↔
    ∀ j e, IsFirstMax k.agedReady j e → slotOf e.pid ≠ some i := by
  rcases Nat.eq_zero_or_pos k.sched.readyQueue.count with hzero | hpos
  · rw [show k.fluxSchedDequeue = (fluxPidInvalid, k) from if_pos hzero]
    refine iff_of_true h fun j e hmax => ?_
    rw [agedReady_eq_nil hzero] at hmax
    cases hmax.mem
  · obtain ⟨j, e, hmax, hpid, -⟩ := fluxSchedDequeue_spec hv hpos
    obtain ⟨pri, sched, -, heq⟩ := exists_dispatched k
    have hstate : (k.fluxSchedDequeue.2.pcb i).state =
        if k.procs.fluxGetPcb e.pid = some i then .running else (k.pcb i).state := by
      rw [heq, hpid]
      rfl
    rw [IsBlocked, hstate]
    split_ifs with hget
    · exact iff_of_false nofun fun hall => hall j e hmax ((getPcb_iff_slotOf h.used).1 hget)
    · refine iff_of_true h fun j' e' hmax' => ?_
      rw [(hmax'.unique hmax).2]
      exact fun hslot => hget ((getPcb_iff_slotOf h.used).2 hslot)

/-- So does an iteration of the scheduler loop that ends the time of the current process. -/
theorem isBlocked_iteration_iff (h : k.IsBlocked i) (hv : k.ReadyValid) : k.schedIteration.IsBlocked i ↔
    (¬k.TimeLeft → ∀ j e, IsFirstMax k.nextReady j e → slotOf e.pid ≠ some i) := by
  by_cases htime : k.TimeLeft
  · rw [schedIteration_eq, if_pos htime]
    exact iff_of_true (h.of_state (states_spendTick (k := k.tick) i).2) fun hnot => absurd htime hnot
  · have hrequeued : k.tick.requeueCurrent.IsBlocked i :=
      h.of_state (congrArg Pcb.state (congrFun (pcb_requeueCurrent (k := k.tick)) i))
    have hiff := isBlocked_dequeue_iff hrequeued (ReadyValid.requeueCurrent (k := k.tick) hv)
    have hswitch : k.schedIteration.pcb = k.tick.requeueCurrent.fluxSchedDequeue.2.pcb := by
      rw [schedIteration_eq, if_neg htime]
      exact (switchTo_currents _).1
    rw [IsBlocked, hswitch]
    exact hiff.trans ⟨fun hall _ => hall, fun hall => hall htime⟩

/-! ## Processes that end -/

theorem Live.of_same (h : k.Live pid) (hs : SameProcesses k k') : k'.Live pid := by
  obtain ⟨j, hj, hpid⟩ := h
  exact ⟨j, fun h0 => hj ((hs.unused j).1 h0), (hs.pid j).trans hpid⟩

/-- A process lives on if and only if it is not the one that is cleaned up. -/
theorem live_cleaned_iff (hslots : k.SlotPids) (hpid : pid ≠ 0) (h : k.Live pid) (hself : (k'.pcb j).pid = 0)
    (hothers : ∀ m ≠ j, (k'.pcb m).pid = (k.pcb m).pid ∧ (k.Used m → k'.Used m)) :
    k'.Live pid ↔ (k.pcb j).pid ≠ pid := by
  constructor
  · rintro ⟨m, -, hm⟩ heq
    have hmj : m ≠ j := by
      rintro rfl
      exact hpid (hm.symm.trans hself)
    rw [(hothers m hmj).1] at hm
    have hslot (n : Slot) (hn : (k.pcb n).pid = pid) : slotOf pid = some n :=
      hn ▸ (hslots n).resolve_left (hn ▸ hpid)
    exact hmj (Option.some.inj ((hslot m hm).symm.trans (hslot j heq)))
  · intro hne
    obtain ⟨m, hm, hmpid⟩ := h
    have hmj : m ≠ j := by
      rintro rfl
      exact hne hmpid
    exact ⟨m, (hothers m hmj).2 hm, (hothers m hmj).1.trans hmpid⟩

/-! ## The protocol -/

variable {w t : UInt32}

/-- What should hold of the process `w` in slot `i` that waits for `t`, as long as it lives: it is blocked
while `t` lives, and ready and queued when `t` has ended. -/
def WaitOutcome (k : Kernel) (i : Slot) (w t : UInt32) : Prop := (k.pcb i).pid = w →
  (k.Live t → k.IsBlocked i) ∧ (¬k.Live t → (k.pcb i).state = .ready ∧ w ∈ k.queued)

/-- Neither of the two processes has ended. -/
def WaitPending (k : Kernel) (i : Slot) (w t : UInt32) : Prop := (k.pcb i).pid = w ∧ k.Live t

theorem WaitPending.outcome_iff (h : k.WaitPending i w t) : k.WaitOutcome i w t ↔ k.IsBlocked i :=
  ⟨fun ho => (ho h.1).1 h.2, fun hb _ => ⟨fun _ => hb, fun hnot => absurd h.2 hnot⟩⟩

theorem WaitPending.of_same (h : k.WaitPending i w t) (hs : SameProcesses k k') : k'.WaitPending i w t :=
  ⟨(hs.pid i).trans h.1, h.2.of_same hs⟩

instance : Decidable (k.WaitPending i w t) := inferInstanceAs (Decidable (_ ∧ _))

theorem WaitPending.placed (h : k.WaitPending i w t) (hi : k.Used i) (hfree : (k.pcb j).state = .unused)
    (p : Pcb) : (k.placed j p).WaitPending i w t := by
  have hpcb (m : Slot) (hm : k.Used m) : (k.placed j p).pcb m = k.pcb m := by
    refine Function.update_of_ne ?_ ..
    rintro rfl
    exact hm hfree
  obtain ⟨hpid, m, hm, hmpid⟩ := h
  refine ⟨by rw [hpcb i hi, hpid], m, ?_, by rw [hpcb m hm, hmpid]⟩
  rw [Used, hpcb m hm]
  exact hm

/-- A round of a waiting receive ends no process. -/
theorem used_poll (r : Receive) (hj : k.Used j) : (k.recvPoll r).2.Used j := by
  have hset {k : Kernel} {m : Slot} {f : Pcb → Pcb} (hj : k.Used j) (hf : (f (k.pcb m)).state ≠ .unused) :
      (k.modifyPcb m f).Used j := by
    rw [Used, pcb_modifyPcb]
    split_ifs
    · exact hf
    · exact hj
  rcases recvPoll_cases k r with ⟨-, h⟩ | ⟨-, ⟨n, -, h⟩ | ⟨-, h⟩⟩
  · rw [h]
    unfold expire
    split
    · split_ifs
      · exact fun h0 => hset hj (by simp) (((sameProcesses_enqueue _).unused j).1 h0)
      · exact hj
    · exact hj
  · rw [h]
    unfold resume
    split
    · exact hset (k := (k.takeMessage r.queue n r.len).2) hj (by simp)
    · exact hj
  · rw [h]
    exact hj

theorem WaitPending.poll (h : k.WaitPending i w t) (r : Receive) : (k.recvPoll r).2.WaitPending i w t := by
  obtain ⟨hpid, m, hm, hmpid⟩ := h
  exact ⟨(pid_poll r i).trans hpid, m, used_poll r hm, (pid_poll r m).trans hmpid⟩

/-- An exit ends the target only if that wakes up the waiter, which is queued already. -/
def ExitWakes (k : Kernel) (i j : Slot) (w t : UInt32) : Prop :=
  if (k.pcb j).pid = t then k.WokenByExit j i ∧ w ∈ k.queued else ¬k.WokenByExit j i

theorem waitOutcome_exited_iff (hslots : k.SlotPids) (hw : w ≠ 0) (ht : t ≠ 0) (h : k.WaitPending i w t)
    (hb : k.IsBlocked i) : (k.exited j).WaitOutcome i w t ↔ (j ≠ i → k.ExitWakes i j w t) := by
  by_cases hj : j = i
  · subst hj
    refine iff_of_true (fun hpid => ?_) fun hne => absurd rfl hne
    rw [pcb_exited, if_pos rfl] at hpid
    exact absurd hpid.symm hw
  · have hself : ((k.exited j).pcb j).pid = 0 := by
      rw [pcb_exited, if_pos rfl]
      rfl
    have hothers (m : Slot) (hm : m ≠ j) : ((k.exited j).pcb m).pid = (k.pcb m).pid ∧
        (k.Used m → (k.exited j).Used m) := by
      rw [Used, Used, pcb_exited, if_neg hm]
      split_ifs
      · exact ⟨rfl, fun _ => by simp⟩
      · exact ⟨rfl, id⟩
    have hlive := live_cleaned_iff hslots ht h.2 hself hothers
    have hpid : ((k.exited j).pcb i).pid = w := (hothers i (Ne.symm hj)).1.trans h.1
    have hqueued : (k.exited j).queued = k.queued := queued_congr frame_exited.1
    have hstate : ((k.exited j).pcb i).state = if k.WokenByExit j i then .ready else .blocked := by
      rw [pcb_exited, if_neg (Ne.symm hj)]
      split_ifs
      · rfl
      · exact hb
    rw [WaitOutcome, IsBlocked, hlive, hqueued, hstate, ExitWakes]
    by_cases heq : (k.pcb j).pid = t
    · rw [if_pos heq]
      split_ifs with hwoken
      · exact ⟨fun hall _ => ⟨hwoken, ((hall hpid).2 (not_not.2 heq)).2⟩,
          fun hall _ => ⟨fun hne => absurd heq hne, fun _ => ⟨rfl, (hall hj).2⟩⟩⟩
      · exact ⟨fun hall _ => absurd ((hall hpid).2 (not_not.2 heq)).1 (by decide),
          fun hall _ => absurd (hall hj).1 hwoken⟩
    · rw [if_neg heq]
      split_ifs with hwoken
      · exact ⟨fun hall _ => absurd ((hall hpid).1 heq) (by decide), fun hall _ => absurd hwoken (hall hj)⟩
      · exact ⟨fun _ _ => hwoken, fun _ _ => ⟨fun _ => rfl, fun hnot => absurd heq hnot⟩⟩

theorem waitOutcome_removed_iff (hslots : k.SlotPids) (hw : w ≠ 0) (ht : t ≠ 0) (h : k.WaitPending i w t)
    (hb : k.IsBlocked i) : (k.removeProcess j).WaitOutcome i w t ↔ (j ≠ i → (k.pcb j).pid ≠ t) := by
  have hpcb (m : Slot) : (k.removeProcess j).pcb m =
      if m = j then ProcTable.cleanedPcb (k.pcb j) else k.pcb m := Function.update_apply ..
  by_cases hj : j = i
  · subst hj
    refine iff_of_true (fun hpid => ?_) fun hne => absurd rfl hne
    rw [hpcb, if_pos rfl] at hpid
    exact absurd hpid.symm hw
  · have hlive : (k.removeProcess j).Live t ↔ (k.pcb j).pid ≠ t := live_cleaned_iff hslots ht h.2
      (by rw [hpcb, if_pos rfl]; rfl) fun m hm => by
        rw [Used, Used, hpcb, if_neg hm]
        exact ⟨rfl, id⟩
    have hstate : (k.removeProcess j).pcb i = k.pcb i := by rw [hpcb, if_neg (Ne.symm hj)]
    rw [WaitOutcome, IsBlocked, hlive, hstate]
    constructor
    · intro hall _ heq
      have hready := ((hall h.1).2 (not_not.2 heq)).1
      rw [show (k.pcb i).state = .blocked from hb] at hready
      cases hready
    · exact fun hall _ => ⟨fun _ => hb, fun hnot => absurd (hall hj) hnot⟩

end Kernel

variable {i : Slot} {w t : UInt32} {s u : System} {a : Action}

/-- The condition on an action while the process `w` in slot `i` waits for `t`. -/
def Action.KeepsWaiter (i : Slot) (w t : UInt32) (a : Action) (s : System) : Prop :=
  match a with
  | .exit => ∀ j, s.kernel.procs.usedSlot s.kernel.ks.currentPid = some j → j ≠ i →
      s.kernel.ExitWakes i j w t
  | .kill pid => ∀ j, s.kernel.procs.usedSlot pid = some j → pid ≠ fluxPidKernel → j ≠ i →
      (s.kernel.pcb j).pid ≠ t
  | .yield => slotOf s.kernel.ks.currentPid = some i → s.kernel.EnqueueIdle s.kernel.ks.currentPid
  | .send target msg => ∀ m j, s.kernel.CanSend target msg m j → m ≠ i
  | .poll r => r.pcb = some i → ¬s.kernel.Expired r ∧ s.kernel.awaited r = none
  | .enqueue pid => slotOf pid = some i → s.kernel.EnqueueIdle pid
  | .dequeue => ∀ j e, IsFirstMax s.kernel.agedReady j e → slotOf e.pid ≠ some i
  | .schedule => ¬s.kernel.TimeLeft → ∀ j e, IsFirstMax s.kernel.nextReady j e → slotOf e.pid ≠ some i
  | _ => True

/-- The machine while the two processes live. -/
def waitStep (i : Slot) (w t : UInt32) (a : Action) (s : System) : Option System :=
  if s.kernel.WaitPending i w t then s.step a else none

theorem waitStep_eq_some : waitStep i w t a s = some u ↔
    s.kernel.WaitPending i w t ∧ s.step a = some u := by
  unfold waitStep
  split_ifs with h
  · exact (and_iff_right h).symm
  · exact iff_of_false nofun fun hs => h hs.1

/-- The condition is exact for one action. -/
theorem System.waitOutcome_step_iff (hslots : s.kernel.SlotPids) (hv : s.kernel.ReadyValid)
    (hown : s.ReceivesOwn) (hw : w ≠ 0) (ht : t ≠ 0) (h : s.kernel.WaitPending i w t)
    (hb : s.kernel.IsBlocked i) (hs : s.step a = some u) :
    u.kernel.WaitOutcome i w t ↔ a.KeepsWaiter i w t s := by
  have hsame (hsame : Kernel.SameProcesses s.kernel u.kernel) :
      u.kernel.WaitOutcome i w t ↔ u.kernel.IsBlocked i := (h.of_same hsame).outcome_iff
  cases a with
  | spawn entry stackSize isAgent =>
    obtain ⟨r, hr, rfl⟩ := Option.map_eq_some_iff.1 hs
    have hpend : (s.withKernel r.2).kernel.WaitPending i w t := by
      cases processStep_spawn (a := .spawn entry stackSize isAgent) hr with
      | same hsame => exact h.of_same hsame
      | born k j p hsame hfree _ _ hsame' =>
        have hk := h.of_same hsame
        have hi : k.Used i := fun h0 => hb.used ((hsame.unused i).1 h0)
        exact (hk.placed hi ((hsame.unused j).2 hfree) p).of_same hsame'
      | ended k j pid _ hends _ _ _ => rcases hends with heq | ⟨heq, -⟩ <;> cases heq
    exact iff_of_true (hpend.outcome_iff.2 (hb.spawn hr)) trivial
  | exit =>
    obtain ⟨r, hr, rfl⟩ := Option.map_eq_some_iff.1 hs
    rcases Kernel.fluxExit_cases hr with ⟨hnone, heq⟩ | ⟨j, hj, -, heq⟩
    · rw [heq]
      refine iff_of_true (h.outcome_iff.2 hb) fun j hj => ?_
      rw [hj] at hnone
      cases hnone
    · rw [heq]
      refine (Kernel.waitOutcome_exited_iff hslots hw ht h hb).trans
        ⟨fun hall j' hj' => ?_, fun hall => hall j hj⟩
      rwa [Option.some.inj (hj'.symm.trans hj)]
  | kill pid =>
    cases hs
    rcases s.kernel.fluxKill_cases pid with ⟨heq, hnone⟩ | ⟨j, hj, hkernel, heq⟩
    · rw [heq]
      refine iff_of_true (h.outcome_iff.2 hb) fun j hj hkernel => ?_
      rw [hnone.resolve_left hkernel] at hj
      cases hj
    · rw [heq]
      refine (Kernel.waitOutcome_removed_iff hslots hw ht h hb).trans
        ⟨fun hall j' hj' _ => ?_, fun hall => hall j hj hkernel⟩
      rwa [Option.some.inj (hj'.symm.trans hj)]
  | yield =>
    cases hs
    exact (hsame Kernel.sameProcesses_yield).trans (Kernel.isBlocked_yield_iff hb)
  | wait target =>
    cases hs
    exact iff_of_true ((hsame (Kernel.sameProcesses_wait target)).2 (hb.wait target)) trivial
  | send target msg =>
    cases hs
    exact (hsame (Kernel.sameProcesses_send target msg)).trans (Kernel.isBlocked_send_iff hb target msg)
  | recv filter len timeout =>
    cases hs
    exact iff_of_true ((hsame (Kernel.sameProcesses_recv filter len timeout)).2
      (hb.recv filter len timeout)) trivial
  | poll r =>
    obtain ⟨hr, rfl⟩ := System.step_poll_eq_some.1 hs
    exact (h.poll r).outcome_iff.trans (Kernel.isBlocked_poll_iff hb (hown r hr).2)
  | broadcast msg =>
    cases hs
    exact iff_of_true ((hsame (Kernel.sameProcesses_broadcast msg)).2 (hb.broadcast msg)) trivial
  | enqueue pid =>
    cases hs
    exact (hsame (Kernel.sameProcesses_enqueue pid)).trans (Kernel.isBlocked_enqueue_iff hb pid)
  | dequeue =>
    cases hs
    exact (hsame Kernel.sameProcesses_dequeue).trans (Kernel.isBlocked_dequeue_iff hb hv)
  | schedule =>
    cases hs
    exact (hsame Kernel.sameProcesses_iteration).trans (Kernel.isBlocked_iteration_iff hb hv)
  | alloc size type =>
    obtain ⟨r, -, rfl⟩ := Option.map_eq_some_iff.1 hs
    exact iff_of_true ((hsame (Kernel.SameProcesses.of_procs rfl)).2 hb) trivial
  | free p =>
    obtain ⟨heap, -, rfl⟩ := Option.map_eq_some_iff.1 hs
    exact iff_of_true ((hsame (Kernel.SameProcesses.of_procs rfl)).2 hb) trivial

/-- The current process, in slot `i`, is about to wait for the process `t`. -/
structure System.WaitsFor (s : System) (i : Slot) (t : UInt32) : Prop where
  current : s.kernel.procs.fluxGetPcb s.kernel.ks.currentPid = some i
  pid : (s.kernel.pcb i).pid = s.kernel.ks.currentPid
  live : s.kernel.Live t
  ok : (s.kernel.syscallWait t).1 = .ok

theorem System.WaitsFor.blocked (h : s.WaitsFor i t) (hs : s.step (.wait t) = some u) :
    s.kernel.ks.currentPid ≠ 0 ∧ t ≠ 0 ∧ u.kernel.WaitPending i s.kernel.ks.currentPid t ∧
      u.kernel.IsBlocked i := by
  have hcurrent : s.kernel.ks.currentPid ≠ 0 := by
    intro h0
    have hget := h.current
    rw [h0] at hget
    cases hget
  have htarget : ∃ j, s.kernel.procs.fluxGetPcb t = some j := by
    cases hget : s.kernel.procs.fluxGetPcb t with
    | some j => exact ⟨j, rfl⟩
    | none =>
      have hok := h.ok
      rw [Kernel.syscallWait_of_none hget] at hok
      cases hok
  obtain ⟨j, hget⟩ := htarget
  have ht : t ≠ 0 := by
    rintro rfl
    cases hget
  cases hs
  refine ⟨hcurrent, ht, Kernel.WaitPending.of_same ⟨h.pid, h.live⟩ (Kernel.sameProcesses_wait t), ?_⟩
  show (s.kernel.syscallWait t).2.IsBlocked i
  rw [Kernel.syscallWait_of_some hget]
  unfold Kernel.blockCurrent
  rw [h.current]
  exact congrArg Pcb.state Kernel.pcb_modifyPcb_self

/-- After a process started to wait for another one, it is blocked while that one lives, and ready and queued
when that one has ended, in all states of a run, if and only if all actions of the run, as long as the two
processes live, meet the condition. -/
theorem waitProtocol_sound_iff (hr : s.Reachable fun _ _ => True) (hw : s.WaitsFor i t)
    (hs : s.step (.wait t) = some u) (as : List Action) :
    HoldsAlong (waitStep i s.kernel.ks.currentPid t)
        (fun s' => s'.kernel.WaitOutcome i s.kernel.ks.currentPid t) as u ↔
      MeetsAlong (waitStep i s.kernel.ks.currentPid t)
        (Action.KeepsWaiter i s.kernel.ks.currentPid t) as u := by
  obtain ⟨hcurrent, ht, hpending, hblocked⟩ := hw.blocked hs
  have hru : u.Reachable fun _ _ => True := Reaches.tail hr trivial hs
  refine holdsAlong_iff (fun _ _ => True)
    (J := fun s => s.kernel.SlotPids ∧ s.kernel.ReadyValid ∧ s.ReceivesOwn) ?_ ?_ (fun _ _ _ => trivial)
    ⟨hru.slotPids, hru.readyValid, hru.receivesOwn⟩ (hpending.outcome_iff.2 hblocked)
  · rintro a s₁ s₂ - ⟨hslots, hv, hown⟩ hs₂
    obtain ⟨-, hs₂⟩ := waitStep_eq_some.1 hs₂
    exact ⟨hslots.step hs₂, hv.step hs₂, hown.step hs₂⟩
  · rintro a s₁ s₂ - ⟨hslots, hv, hown⟩ ho hs₂
    obtain ⟨hpend, hs₂⟩ := waitStep_eq_some.1 hs₂
    exact System.waitOutcome_step_iff hslots hv hown hcurrent ht hpend (hpend.outcome_iff.1 ho) hs₂

/-- Processes 2 and 3 are spawned, and process 2 runs. -/
def waiterRun : List Action := [.spawn 0 0 false, .spawn 0 0 false, .schedule]

theorem waiterRun_state : ((execute System.step waiterRun bootSystem).map fun s =>
    (s.kernel.procs.fluxGetPcb s.kernel.ks.currentPid, (s.kernel.pcb 1).pid, s.kernel.ks.currentPid,
      decide (s.kernel.Live 3), (s.kernel.syscallWait 3).1)) = some (some 1, 2, 2, true, .ok) := by
  decide +kernel

theorem waiterRun_waitsFor : ∃ s : System, execute System.step waiterRun bootSystem = some s ∧
    s.Reachable (fun _ _ => True) ∧ s.WaitsFor 1 3 ∧ s.kernel.ks.currentPid = 2 := by
  obtain ⟨s, hs, hstates⟩ := Option.map_eq_some_iff.1 waiterRun_state
  obtain ⟨hget, hpid, hcurrent, hlive, hok⟩ : s.kernel.procs.fluxGetPcb s.kernel.ks.currentPid = some 1 ∧
      (s.kernel.pcb 1).pid = 2 ∧ s.kernel.ks.currentPid = 2 ∧ s.kernel.Live 3 ∧
      (s.kernel.syscallWait 3).1 = .ok := by simpa using hstates
  exact ⟨s, hs, reaches_of_execute hs, ⟨hget, hpid.trans hcurrent.symm, hlive, hok⟩, hcurrent⟩

theorem waitProtocol_sound_iff_kill : ∃ s u : System, s.step (.wait 3) = some u ∧ s.kernel.ks.currentPid = 2 ∧
    (HoldsAlong (waitStep 1 s.kernel.ks.currentPid 3)
        (fun s' => s'.kernel.WaitOutcome 1 s.kernel.ks.currentPid 3) [.kill 3] u ↔
      MeetsAlong (waitStep 1 s.kernel.ks.currentPid 3)
        (Action.KeepsWaiter 1 s.kernel.ks.currentPid 3) [.kill 3] u) := by
  obtain ⟨s, -, hr, hwaits, hcurrent⟩ := waiterRun_waitsFor
  exact ⟨s, _, rfl, hcurrent, waitProtocol_sound_iff hr hwaits rfl [.kill 3]⟩

theorem waiterRun_killed : (((execute System.step waiterRun bootSystem).bind
    (execute System.step [.wait 3, .kill 3])).map fun s =>
      ((s.kernel.pcb 1).pid, (s.kernel.pcb 1).state, decide (s.kernel.Live 3))) =
    some (2, .blocked, false) := by
  decide +kernel

/-- Process 3 is killed, and process 2, which waits for it, stays blocked. -/
theorem waiterRun_not_woken : ∃ s v : System, s.Reachable (fun _ _ => True) ∧ s.WaitsFor 1 3 ∧
    s.kernel.ks.currentPid = 2 ∧ execute System.step [.wait 3, .kill 3] s = some v ∧
    ¬v.kernel.WaitOutcome 1 2 3 := by
  obtain ⟨s, hs, hr, hwaits, hcurrent⟩ := waiterRun_waitsFor
  obtain ⟨v, hv, hstates⟩ := Option.map_eq_some_iff.1 waiterRun_killed
  rw [hs, Option.bind_some] at hv
  obtain ⟨hpid, hstate, hlive⟩ : (v.kernel.pcb 1).pid = 2 ∧ (v.kernel.pcb 1).state = .blocked ∧
      ¬v.kernel.Live 3 := by simpa using hstates
  refine ⟨s, v, hr, hwaits, hcurrent, hv, fun houtcome => ?_⟩
  have hready := ((houtcome hpid).2 hlive).1
  rw [hstate] at hready
  cases hready

end FluxOs
