import FluxOs.Kernel.Messages

/-!
# Delivery

A process receives from the queue of its pid, and there are queues for the pids up to the size of the table
only.  As long as all processes have such pids, a send reaches its target and a broadcast reaches the agents;
a process with a larger pid has no queue, and broadcasts to it go to a queue that nobody reads.
-/

namespace FluxOs

open Rings Actions Mailboxes

namespace Kernel

variable {k k' : Kernel} {i j : Slot} {pid : UInt32} {msg : List UInt8}

/-! ## Pids and slots in all runs -/

/-- A slot has no pid or one of its own.  This survives a receive that wakes up a slot that is free. -/
def SlotPids (k : Kernel) : Prop := ∀ i, (k.pcb i).pid = 0 ∨ slotOf (k.pcb i).pid = some i

theorem SlotPids.of_pid (h : k.SlotPids) (hpid : ∀ i, (k'.pcb i).pid = (k.pcb i).pid) : k'.SlotPids := by
  intro i
  rw [hpid]
  exact h i

theorem SlotPids.update (h : k.SlotPids) {p : Pcb} (hp : p.pid = 0 ∨ slotOf p.pid = some i)
    (hpcb : k'.pcb = Function.update k.pcb i p) : k'.SlotPids := by
  intro j
  rw [hpcb, Function.update_apply]
  split_ifs with hj
  · rw [hj]
    exact hp
  · exact h j

theorem pid_poll (r : Receive) (i : Slot) : ((k.recvPoll r).2.pcb i).pid = (k.pcb i).pid := by
  have hset {k : Kernel} {j : Slot} (f : Pcb → Pcb) (hf : ∀ p, (f p).pid = p.pid) :
      ((k.modifyPcb j f).pcb i).pid = (k.pcb i).pid := by
    rw [pcb_modifyPcb]
    split_ifs with hij
    · rw [hf, hij]
    · rfl
  rcases recvPoll_cases k r with ⟨-, h⟩ | ⟨-, ⟨n, -, h⟩ | ⟨-, h⟩⟩
  · rw [h]
    unfold expire
    split
    · split_ifs
      · exact ((sameProcesses_enqueue _).pid i).trans (hset _ fun _ => rfl)
      · rfl
    · rfl
  · rw [h]
    unfold resume
    split
    · exact hset _ fun _ => rfl
    · rfl
  · rw [h]

end Kernel

theorem Kernel.SlotPids.step {s t : System} {a : Action} (h : s.kernel.SlotPids) (hs : s.step a = some t) :
    t.kernel.SlotPids := by
  by_cases ha : a.NotPoll s
  · cases System.processStep ha hs with
    | same hsame => exact h.of_pid hsame.pid
    | born k i p hsame hfree hslot _ hsame' =>
      exact ((h.of_pid hsame.pid).update (Or.inr hslot) rfl).of_pid hsame'.pid
    | ended k i pid hsame _ _ _ hsame' =>
      exact ((h.of_pid hsame.pid).update (Or.inl rfl) rfl).of_pid hsame'.pid
  · obtain ⟨r, rfl⟩ := not_forall_not.1 ha
    obtain ⟨-, rfl⟩ := System.step_poll_eq_some.1 hs
    exact h.of_pid (Kernel.pid_poll r)

theorem bootKernel_slotPids : bootKernel.SlotPids := by
  intro i
  by_cases hi : bootKernel.Used i
  · exact Or.inr (Kernel.OwnPids.boot.slot i hi)
  · refine Or.inl ?_
    by_cases h0 : i.val = 0
    · exact absurd (show bootKernel.Used i by rw [show i = 0 from Fin.ext h0]; exact nofun) hi
    · exact congrArg Pcb.pid (if_neg h0)

theorem System.Reachable.slotPids {s : System} (hr : s.Reachable fun _ _ => True) : s.kernel.SlotPids :=
  Reaches.invariant (I := fun s => s.kernel.SlotPids) hr (fun _ _ _ _ h hs => h.step hs) bootKernel_slotPids

namespace Kernel

variable {k : Kernel} {i j : Slot} {msg : List UInt8}

/-! ## What delivery means -/

/-- The process in slot `i` receives from queue `j`. -/
def ReceivesFrom (k : Kernel) (i j : Slot) : Prop := k.Used i ∧ ipcGetQueue (k.pcb i).pid = some j

/-- A broadcast goes to this process, if there is room. -/
def IsAddressee (k : Kernel) (i : Slot) : Prop :=
  (k.pcb i).isAgent = true ∧ (k.pcb i).pid ≠ k.ks.currentPid

/-- The process in slot `i` has a queue of its own, and a send to it ends up there. -/
structure Served (k : Kernel) (i j : Slot) : Prop where
  receives : k.ReceivesFrom i j
  own i' : k.ReceivesFrom i' j → i' = i
  sent msg : k.CanBroadcast msg → (k.ipc.queues j).isFull = false →
    (k.fluxA2aSend (k.pcb i).pid msg).1 = .ok ∧
      (k.fluxA2aSend (k.pcb i).pid msg).2.pending j =
        k.pending j ++ [k.buildMessage k.ks.currentPid (k.pcb i).pid msg] ∧
      ∀ j' ≠ j, (k.fluxA2aSend (k.pcb i).pid msg).2.pending j' = k.pending j'

/-- A broadcast puts one copy of the message into the queue of each agent but the sender, if there is room,
and nothing elsewhere. -/
structure BroadcastSound (k : Kernel) (msg : List UInt8) : Prop where
  ok : (k.fluxA2aBroadcast msg).1 = .ok
  copies i j : k.ReceivesFrom i j → k.IsAddressee i → (k.ipc.queues j).isFull = false →
    (k.fluxA2aBroadcast msg).2.pending j =
      k.pending j ++ [k.buildMessage k.ks.currentPid fluxPidInvalid msg]
  elsewhere j : (∀ i, k.ReceivesFrom i j → k.IsAddressee i → (k.ipc.queues j).isFull = true) →
    (k.fluxA2aBroadcast msg).2.pending j = k.pending j

/-- Every process is served by some queue, and the broadcasts that pass the checks are delivered. -/
structure DeliverySound (k : Kernel) : Prop where
  served i : k.Used i → ∃ j, k.Served i j
  broadcasts msg : k.CanBroadcast msg → k.BroadcastSound msg

/-- Every process has a pid with a queue, and no broadcast misses an agent with pid 1. -/
structure PidsInQueues (k : Kernel) : Prop where
  pids i : k.Used i → (k.pcb i).pid ≠ 0 ∧ (k.pcb i).pid.toNat ≤ fluxMaxProcesses
  first : k.Used 0 → k.IsAddressee 0 → (k.pcb 0).pid = fluxPidKernel → (k.ipc.queues 0).isFull = false →
    k.ks.currentPid = fluxPidInvalid ∨ k.ipcCheckCapability k.ks.currentPid = false

/-! ## Delivery with small pids -/

theorem SlotPids.pid_eq (h : k.SlotPids) (hpid : (k.pcb i).pid ≠ 0)
    (hle : (k.pcb i).pid.toNat ≤ fluxMaxProcesses) : (k.pcb i).pid = queuePid i := by
  obtain ⟨-, hmod, -⟩ := slotOf_eq_some.1 ((h i).resolve_left hpid)
  have hi : i.val < 256 := i.isLt
  have hpos : (k.pcb i).pid.toNat ≠ 0 := fun h0 => hpid (UInt32.toNat_inj.1 h0)
  refine UInt32.toNat_inj.1 ?_
  rw [toNat_queuePid]
  dsimp only [fluxMaxProcesses] at hmod hle
  omega

theorem PidsInQueues.pid_eq (hc : k.PidsInQueues) (h : k.SlotPids) (hi : k.Used i) :
    (k.pcb i).pid = queuePid i := h.pid_eq (hc.pids i hi).1 (hc.pids i hi).2

theorem PidsInQueues.receivesFrom_iff (hc : k.PidsInQueues) (h : k.SlotPids) :
    k.ReceivesFrom i j ↔ k.Used i ∧ i = j := by
  refine and_congr_right fun hi => ?_
  rw [hc.pid_eq h hi, ipcGetQueue_eq_some]
  refine ⟨fun heq => Fin.ext ?_, fun heq => heq ▸ rfl⟩
  have := congrArg UInt32.toNat heq
  rw [toNat_queuePid, toNat_queuePid] at this
  exact Nat.succ.inj this

theorem fluxGetPcb_queuePid (hi : k.Used i) : k.procs.fluxGetPcb (queuePid i) = some i :=
  fluxGetPcb_eq_some.2 ⟨slotOf_succ i, hi⟩

/-- Then the queues that a broadcast visits are those of the agents. -/
theorem PidsInQueues.addressed_iff (hc : k.PidsInQueues) (h : k.SlotPids) :
    k.Addressed k.ks.currentPid j ↔ k.Used j ∧ k.IsAddressee j := by
  constructor
  · rintro ⟨hself, i, hget, hagent⟩
    obtain ⟨hslot, hi⟩ := fluxGetPcb_eq_some.1 hget
    cases Option.some.inj (hslot.symm.trans (slotOf_succ j))
    exact ⟨hi, hagent, hc.pid_eq h hi ▸ hself⟩
  · rintro ⟨hj, hagent, hself⟩
    exact ⟨hc.pid_eq h hj ▸ hself, j, fluxGetPcb_queuePid hj, hagent⟩

theorem pending_of_stepOnly {m : IpcMessage}
    (hs : QueuesStep (only j (.accept m)) k k') : k'.pending j = k.pending j ++ [m] ∧
      ∀ j' ≠ j, k'.pending j' = k.pending j' := by
  refine ⟨?_, fun j' hj' => ?_⟩
  · have hstep := hs.step j
    rw [only, if_pos rfl] at hstep
    exact hstep.accept_eq
  · have hstep := hs.step j'
    rw [only, if_neg hj'] at hstep
    exact hstep.idle_eq

theorem PidsInQueues.served (hc : k.PidsInQueues) (h : k.SlotPids) (hv : k.QueuesValid) (hi : k.Used i) :
    k.Served i i := by
  have hpid := hc.pid_eq h hi
  refine ⟨(hc.receivesFrom_iff h).2 ⟨hi, rfl⟩, fun i' hi' => ((hc.receivesFrom_iff h).1 hi').2, ?_⟩
  intro msg hcan hroom
  have hsend : k.CanSend (k.pcb i).pid msg i i :=
    ⟨hcan.length, hcan.sender, hcan.capability, hpid ▸ fluxGetPcb_queuePid hi,
      ipcGetQueue_eq_some.2 hpid, hroom⟩
  rw [fluxA2aSend_of_canSend hsend]
  exact ⟨rfl, pending_of_stepOnly
    ((storeMessage_spec hv hroom).congr (SameMessages.of_ipc ipc_wakeTarget))⟩

theorem pending_broadcast (hcan : k.CanBroadcast msg) (j : Slot) :
    (k.fluxA2aBroadcast msg).2.pending j = (k.broadcastAll msg).pending j := by
  rw [fluxA2aBroadcast_of_can hcan]

theorem PidsInQueues.broadcastSound (hc : k.PidsInQueues) (h : k.SlotPids) (hv : k.QueuesValid)
    (hcan : k.CanBroadcast msg) : k.BroadcastSound msg := by
  have hstep := broadcastAll_spec hv msg
  -- slot 0 is passed over, which is right as there is no agent with pid 1 that should get a copy
  have hfirst (hused : k.Used 0) (hto : k.IsAddressee 0) : (k.ipc.queues 0).isFull = true := by
    by_contra hroom
    rcases hc.first hused hto (hc.pid_eq h hused) (Bool.eq_false_of_not_eq_true hroom) with hinv | hdeny
    · exact hcan.sender hinv
    · rw [hcan.capability] at hdeny
      exact absurd hdeny nofun
  refine ⟨congrArg Prod.fst (fluxA2aBroadcast_of_can hcan), fun i j hfrom hto hroom => ?_, fun j hnone => ?_⟩
  · obtain ⟨hused, rfl⟩ := (hc.receivesFrom_iff h).1 hfrom
    have hi : i ≠ 0 := by
      rintro rfl
      rw [hfirst hused hto] at hroom
      exact absurd hroom nofun
    have hqueue := hstep.step i
    rw [broadcastEvent, if_pos ⟨hi, (hc.addressed_iff h).2 ⟨hused, hto⟩, hroom⟩] at hqueue
    rw [pending_broadcast hcan, hqueue.accept_eq]
  · have hqueue := hstep.step j
    rw [broadcastEvent, if_neg] at hqueue
    · rw [pending_broadcast hcan, hqueue.idle_eq]
    · rintro ⟨-, haddr, hroom⟩
      obtain ⟨hused, hto⟩ := (hc.addressed_iff h).1 haddr
      rw [hnone j ((hc.receivesFrom_iff h).2 ⟨hused, rfl⟩) hto] at hroom
      exact absurd hroom nofun

/-! ## The exact condition -/

theorem ReceivesFrom.pid_le (h : k.ReceivesFrom i j) :
    (k.pcb i).pid ≠ 0 ∧ (k.pcb i).pid.toNat ≤ fluxMaxProcesses := by
  have hpid := ipcGetQueue_eq_some.1 h.2
  rw [hpid, toNat_queuePid]
  refine ⟨fun h0 => ?_, j.isLt⟩
  have := congrArg UInt32.toNat h0
  rw [toNat_queuePid] at this
  exact Nat.succ_ne_zero _ this

/-- A message of one byte. -/
theorem canBroadcast_singleton (hpid : k.ks.currentPid ≠ fluxPidInvalid)
    (hcap : k.ipcCheckCapability k.ks.currentPid ≠ false) : k.CanBroadcast [0] :=
  ⟨⟨by decide, by decide⟩, hpid, Bool.eq_true_of_not_eq_false hcap⟩

theorem DeliverySound.pidsInQueues (hs : k.DeliverySound) (hv : k.QueuesValid) : k.PidsInQueues := by
  refine ⟨fun i hi => ?_, fun hused hto hpid hroom => ?_⟩
  · obtain ⟨j, hserved⟩ := hs.served i hi
    exact hserved.receives.pid_le
  · by_contra hcan
    obtain ⟨hinv, hcap⟩ := not_or.1 hcan
    have hbroadcast := canBroadcast_singleton hinv hcap
    have hfrom : k.ReceivesFrom 0 0 := ⟨hused, hpid ▸ rfl⟩
    have hcopy := (hs.broadcasts [0] hbroadcast).copies 0 0 hfrom hto hroom
    have hqueue := (broadcastAll_spec hv [0]).step 0
    rw [broadcastEvent, if_neg fun h => h.1 rfl] at hqueue
    rw [pending_broadcast hbroadcast, hqueue.idle_eq] at hcopy
    exact absurd hcopy (by simp)

end Kernel

/-- In every reachable state, delivery works exactly if all processes have pids with a queue and no broadcast
misses an agent with pid 1. -/
theorem messageDelivery_sound_iff {s : System} (hr : s.Reachable fun _ _ => True) :
    s.kernel.DeliverySound ↔ s.kernel.PidsInQueues := by
  obtain ⟨l, hl⟩ := hr.history
  have hv := hl.queuesValid
  have hslot := hr.slotPids
  refine ⟨fun hs => hs.pidsInQueues hv, fun hc => ⟨fun i hi => ⟨i, hc.served hslot hv hi⟩, ?_⟩⟩
  exact fun msg hcan => hc.broadcastSound hslot hv hcan

/-- Processes 2 and 3 have queues, and a message is left for process 3. -/
theorem messageDelivery_sound_iff_sent : ∃ s, execute System.step twoSent bootSystem = some s ∧
    (s.kernel.pending 2).map IpcMessage.payload = [[7]] ∧ s.kernel.DeliverySound := by
  have hrun : (execute System.step twoSent bootSystem).map (fun s =>
      ((s.kernel.pending 2).map IpcMessage.payload,
        decide (∀ i, s.kernel.Used i → (s.kernel.pcb i).pid ≠ 0 ∧ (s.kernel.pcb i).pid.toNat ≤ fluxMaxProcesses),
        (s.kernel.pcb 0).isAgent)) = some ([[7]], true, false) := by decide +kernel
  obtain ⟨s, hs, hfacts⟩ := Option.map_eq_some_iff.1 hrun
  simp only [Prod.mk.injEq, decide_eq_true_eq] at hfacts
  obtain ⟨hpending, hpids, hkernel⟩ := hfacts
  refine ⟨s, hs, hpending, (messageDelivery_sound_iff (reaches_of_execute hs)).2 ⟨hpids, fun _ haddressee => ?_⟩⟩
  simp [haddressee.1] at hkernel

/-- 255 spawns of processes with stacks that are too large, which use up their pids, and one more spawn. -/
def latePidRun : List Action :=
  List.replicate 255 (.spawn 0 1099511627776 false) ++ [.spawn 0 0 false]

theorem latePidRun_pid : ((execute System.step latePidRun bootSystem).map fun s =>
    ((s.kernel.pcb 1).pid, (s.kernel.pcb 1).state)) = some (258, .ready) := by
  decide +kernel

/-- The process with pid 258 has no queue. -/
theorem latePidRun_not_delivered : ∃ s, execute System.step latePidRun bootSystem = some s ∧
    s.Reachable (fun _ _ => True) ∧ (s.kernel.pcb 1).pid = 258 ∧ ¬s.kernel.DeliverySound := by
  obtain ⟨s, hs, hpid⟩ := Option.map_eq_some_iff.1 latePidRun_pid
  obtain ⟨hpid, hstate⟩ := Prod.mk.inj hpid
  refine ⟨s, hs, reaches_of_execute hs, hpid, fun hsound => ?_⟩
  obtain ⟨j, hserved⟩ := hsound.served 1 (by rw [Kernel.Used, hstate]; decide)
  have hle := hserved.receives.pid_le.2
  rw [hpid] at hle
  exact absurd hle (by decide)

end FluxOs
