import FluxOs.Kernel.ReadyStates

/-!
# The ready queue over runs

A dequeue and an iteration of the scheduler loop keep the ready processes and the queue in step if they
remove just the selected entry.  With the other operations, this gives the invariant along every run whose
actions meet their conditions.
-/

namespace FluxOs

open Rings RingBuffer Actions

namespace Kernel

variable {k k' : Kernel} {i j m : Slot} {pid : UInt32} {e : SchedEntry}

/-! ## Dequeuing -/

theorem map_pid_agedReady : k.agedReady.map SchedEntry.pid = k.queued := by
  unfold agedReady
  split_ifs
  · rw [List.map_map, queued]
    refine List.map_congr_left fun e _ => ?_
    show (agedEntry _ e).pid = e.pid
    unfold agedEntry
    split_ifs <;> rfl
  · rfl

/-- A dequeue removes the pid of the selected entry from the queue. -/
theorem queued_dequeue (hv : k.ReadyValid) (hnodup : k.queued.Nodup)
    (hpos : 0 < k.sched.readyQueue.count) (hc : k.DequeueSound) :
    ∃ j e, IsFirstMax k.agedReady j e ∧ k.fluxSchedDequeue.1 = e.pid ∧ e.pid ∈ k.queued ∧
      k.fluxSchedDequeue.2.queued.Nodup ∧
      ∀ p, p ∈ k.fluxSchedDequeue.2.queued ↔ p ∈ k.queued ∧ p ≠ e.pid := by
  obtain ⟨j, e, hmax, hpid, -, hready⟩ := fluxSchedDequeue_spec hv hpos
  have hlt : j < k.queued.length := by
    rw [← map_pid_agedReady, List.length_map]
    exact hmax.lt
  have hget : k.queued[j] = e.pid := by
    refine Option.some.inj ((List.getElem?_eq_getElem hlt).symm.trans ?_)
    rw [← map_pid_agedReady, List.getElem?_map, hmax.1]
    rfl
  have herase : (k.agedReady.eraseIdx j).map SchedEntry.pid = k.queued.erase e.pid := by
    rw [← List.eraseIdx_map, map_pid_agedReady, ← hget, hnodup.erase_getElem]
  have hperm : k.fluxSchedDequeue.2.queued.Perm (k.queued.erase e.pid) := by
    rw [queued, hready, ← herase]
    by_cases hj : j < fluxSchedQueueSize - k.sched.readyQueue.head
    · rw [if_pos hj]
    · rw [if_neg hj]
      have hhead := hc.resolve_left (fun hall => hj (hmax.lt_iff.2 hall)) j e hmax
      cases hrest : k.agedReady.eraseIdx j with
      | nil => exact List.Perm.refl _
      | cons x l =>
        rw [hrest] at hhead
        rw [List.cons_append, List.tail_cons, List.map_append, List.map_cons, List.map_cons, List.map_nil,
          ← hhead x rfl]
        exact List.perm_append_singleton _ _
  refine ⟨j, e, hmax, hpid, hget ▸ List.getElem_mem hlt, hperm.nodup_iff.2 (hnodup.erase _), fun p => ?_⟩
  rw [hperm.mem_iff, hnodup.mem_erase_iff, and_comm]

theorem QueueInv.dequeue (h : k.QueueInv) (hc : k.sched.readyQueue.count ≠ 0 → k.DequeueSound) :
    k.fluxSchedDequeue.2.QueueInv := by
  rcases Nat.eq_zero_or_pos k.sched.readyQueue.count with hzero | hpos
  · rw [show k.fluxSchedDequeue = (fluxPidInvalid, k) from if_pos hzero]
    exact h
  · obtain ⟨j, e, -, hpid, hin, hnodup, hqueue⟩ := queued_dequeue h.valid h.nodup hpos (hc hpos.ne')
    obtain ⟨i, hget, hi⟩ := h.live e.pid hin
    obtain ⟨pri, sched, -, heq⟩ := exists_dispatched k
    have hpcb (m : Slot) : (k.fluxSchedDequeue.2.pcb m).pid = (k.pcb m).pid ∧
        (k.fluxSchedDequeue.2.pcb m).state = if m = i then .running else (k.pcb m).state := by
      rw [heq, hpid]
      refine ⟨rfl, ?_⟩
      show (if k.procs.fluxGetPcb e.pid = some m then ProcState.running else (k.pcb m).state) = _
      rw [hget]
      simp only [Option.some.injEq, eq_comm]
    have hself : (k.fluxSchedDequeue.2.pcb i).state = .running := by rw [(hpcb i).2, if_pos rfl]
    have hout : (k.fluxSchedDequeue.2.pcb i).pid ∉ k.fluxSchedDequeue.2.queued := by
      rw [(hpcb i).1, hi]
      exact fun hq => ((hqueue _).1 hq).2 rfl
    refine h.update (i := i) h.valid.dequeue (fun m hm => ?_) hnodup (fun p _ => ?_) ?_ ?_ ?_ ?_ ?_
    · rw [(hpcb m).1, (hpcb m).2, if_neg hm]
      exact ⟨rfl, rfl⟩
    · rw [hqueue, hi]
    · rw [(hpcb i).1]
      exact h.slots i
    · rw [hself]
      exact nofun
    · rw [hself]
      exact Or.inr (Or.inr (Or.inl rfl))
    · rw [hself]
      exact fun _ => iff_of_false nofun hout
    · exact fun hq => absurd hq hout

/-! ## The scheduler loop -/

theorem requeueCurrent_of_preempts (hp : k.Preempts) :
    k.requeueCurrent = (k.fluxSchedEnqueue k.sched.currentPid).2 := by
  obtain ⟨hzero, hkernel, i, hget, hrun⟩ := hp
  unfold requeueCurrent
  rw [if_pos ⟨hzero, hkernel⟩, hget]
  exact if_pos hrun

theorem requeueCurrent_of_not_preempts (hp : ¬k.Preempts) : k.requeueCurrent = k := by
  unfold requeueCurrent
  split_ifs with hcur
  · split
    · rename_i i hget
      exact if_neg fun hrun => hp ⟨hcur.1, hcur.2, i, hget, hrun⟩
    · rfl
  · rfl

theorem queued_switchTo (next : UInt32) : (k.switchTo next).sched.readyQueue = k.sched.readyQueue := by
  unfold switchTo
  split_ifs <;> rfl

/-- A process that is put back and selected again leaves the queue as it was. -/
theorem QueueInv.preempted (h : k.QueueInv) (htime : ¬k.TimeLeft) (hp : k.Preempts) (hc : k.IterationSound) :
    k.schedIteration.QueueInv := by
  obtain ⟨hzero, hkernel, i, hget, hrun⟩ := id hp
  have hreq : k.tick.requeueCurrent = (k.tick.fluxSchedEnqueue k.sched.currentPid).2 :=
    requeueCurrent_of_preempts (k := k.tick) hp
  have hv : k.tick.requeueCurrent.ReadyValid := ReadyValid.requeueCurrent (k := k.tick) h.valid
  have hnew : k.sched.currentPid ∉ k.queued := by
    intro hq
    have hpid := h.pid_of_slot hq (fluxGetPcb_eq_some.1 hget).1
    have hready := (h.ready_iff i (hpid.symm ▸ hkernel)).2 (hpid.symm ▸ hq)
    rw [hrun] at hready
    cases hready
  rcases fluxSchedEnqueue_cases k.tick k.sched.currentPid with ⟨heq, hcase⟩ | ⟨i', -, hroom, -, heq⟩
  · -- the queue is full, and then the process cannot be selected
    have hfull : fluxSchedQueueSize ≤ k.tick.sched.readyQueue.count := by
      rcases hcase with h0 | hin | hfull | hnone
      · exact absurd h0 hzero
      · exact absurd hin hnew
      · exact hfull
      · rw [show k.tick.procs.fluxGetPcb k.sched.currentPid = some i from hget] at hnone
        cases hnone
    rw [heq] at hreq
    obtain ⟨j, e, hmax, -⟩ := fluxSchedDequeue_spec (k := k.tick) h.valid
      (Nat.lt_of_lt_of_le (by decide) hfull)
    have hmem : e.pid ∈ k.tick.queued := by
      rw [← map_pid_agedReady]
      exact List.mem_map_of_mem hmax.mem
    rw [hc.resumes j e hp (hreq.symm ▸ hmax)] at hmem
    exact absurd hmem hnew
  · have hpush : k.tick.requeueCurrent.sched.readyQueue = k.tick.sched.readyQueue.push fluxSchedQueueSize
        (k.tick.newEntry k.sched.currentPid i') := by rw [hreq, heq]
    have hqueued : k.tick.requeueCurrent.queued = k.queued ++ [k.sched.currentPid] :=
      queued_push (k := k.tick) h.valid hroom hpush
    have hnodup : k.tick.requeueCurrent.queued.Nodup := by
      rw [hqueued]
      refine List.nodup_append.2 ⟨h.nodup, List.nodup_singleton _, fun p hp p' hp' => ?_⟩
      rintro rfl
      exact hnew (List.mem_singleton.1 hp' ▸ hp)
    have hpos : 0 < k.tick.requeueCurrent.sched.readyQueue.count := by
      rw [hpush]
      exact Nat.succ_pos _
    obtain ⟨j, e, hmax, -, -, hnodup', hmem⟩ := queued_dequeue hv hnodup hpos hc.removes
    have hpid : e.pid = k.sched.currentPid := hc.resumes j e hp hmax
    obtain ⟨next, hpcb, -, -, hnext⟩ := iteration_switch h.valid htime
    have hsame : next = k.sched.currentPid := by
      rcases hnext with ⟨-, hcount⟩ | ⟨j', e', hmax', heq'⟩
      · exact absurd hcount hpos.ne'
      · rw [heq', (hmax'.unique hmax).2, hpid]
    have hqueue : k.schedIteration.queued = k.tick.requeueCurrent.fluxSchedDequeue.2.queued := by
      refine queued_congr ?_
      rw [schedIteration_eq, if_neg htime, queued_switchTo]
    refine h.of_same h.valid.iteration (fun m => ⟨(hpcb m).1, ?_⟩) (hqueue.symm ▸ hnodup') fun p => ?_
    · rw [(hpcb m).2, hsame]
      split_ifs with hm
      · rw [← Option.some.inj (hget.symm.trans hm), hrun]
      · rfl
    · rw [hqueue, hmem, hqueued, hpid, List.mem_append, List.mem_singleton]
      constructor
      · exact fun hq => hq.1.resolve_right hq.2
      · intro hq
        refine ⟨Or.inl hq, ?_⟩
        rintro rfl
        exact hnew hq

theorem QueueInv.iteration (h : k.QueueInv) (hc : ¬k.TimeLeft → k.IterationSound) :
    k.schedIteration.QueueInv := by
  by_cases htime : k.TimeLeft
  · have hqueue : k.tick.spendTick.sched.readyQueue = k.sched.readyQueue := sched_spendTick.1
    rw [schedIteration_eq, if_pos htime]
    refine h.of_same (h.valid.of_queue hqueue) (states_spendTick (k := k.tick)) ?_ fun p => ?_
    · rw [queued_congr hqueue]
      exact h.nodup
    · rw [queued_congr hqueue]
  · by_cases hp : k.Preempts
    · exact h.preempted htime hp (hc htime)
    · have htick : k.tick.requeueCurrent = k.tick := requeueCurrent_of_not_preempts (k := k.tick) hp
      have hnext : k.tick.fluxSchedDequeue.2.QueueInv :=
        dequeue (k := k.tick) (h.of_procs_sched rfl rfl) fun _ => htick ▸ (hc htime).removes
      rw [schedIteration_eq, if_neg htime, htick]
      exact hnext.of_procs_sched (switchTo_currents _).1 (queued_switchTo _)

end Kernel

/-! ## Runs -/

/-- The condition on an action for the ready processes to stay those in the queue. -/
def Action.KeepsQueue (a : Action) (s : System) : Prop :=
  match a with
  | .exit => s.kernel.ExitSound
  | .kill pid => ∀ i, s.kernel.procs.usedSlot pid = some i → s.kernel.EndSound i
  | .yield => s.kernel.YieldSound
  | .wait target => s.kernel.procs.fluxGetPcb target ≠ none → s.kernel.BlockSound
  | .send target msg => s.kernel.SendSound target msg
  | .recv filter _ timeout => s.kernel.StartsToWait filter timeout → s.kernel.BlockSound
  | .poll r => s.kernel.PollSound r
  | .enqueue pid => s.kernel.EnqueueSound pid
  | .dequeue => s.kernel.sched.readyQueue.count ≠ 0 → s.kernel.DequeueSound
  | .schedule => ¬s.kernel.TimeLeft → s.kernel.IterationSound
  | _ => True

theorem Kernel.QueueInv.step {s t : System} {a : Action} (h : s.kernel.QueueInv) (hown : s.ReceivesOwn)
    (ha : a.KeepsQueue s) (hs : s.step a = some t) : t.kernel.QueueInv := by
  cases a with
  | spawn entry stackSize isAgent =>
    obtain ⟨r, hr, rfl⟩ := Option.map_eq_some_iff.1 hs
    exact h.spawn hr
  | exit =>
    obtain ⟨r, hr, rfl⟩ := Option.map_eq_some_iff.1 hs
    exact h.exit ha hr
  | kill pid =>
    cases hs
    exact h.kill ha
  | yield =>
    cases hs
    exact h.yield ha
  | wait target =>
    cases hs
    exact h.wait ha
  | send target msg =>
    cases hs
    exact h.send ha
  | recv filter len timeout =>
    cases hs
    exact h.recv ha
  | poll r =>
    obtain ⟨hr, rfl⟩ := System.step_poll_eq_some.1 hs
    exact h.poll (hown r hr).1 ha
  | broadcast msg =>
    cases hs
    exact h.broadcast msg
  | enqueue pid =>
    cases hs
    exact h.enqueue ha
  | dequeue =>
    cases hs
    exact h.dequeue ha
  | schedule =>
    cases hs
    exact h.iteration ha
  | alloc size type =>
    obtain ⟨r, -, rfl⟩ := Option.map_eq_some_iff.1 hs
    exact h.of_procs_sched rfl rfl
  | free p =>
    obtain ⟨heap, -, rfl⟩ := Option.map_eq_some_iff.1 hs
    exact h.of_procs_sched rfl rfl

theorem bootKernel_queueInv : bootKernel.QueueInv := by
  have hother (i : Slot) (h0 : i.val ≠ 0) : bootKernel.pcb i = Pcb.zero := if_neg h0
  have hkernel (i : Slot) (h0 : i.val = 0) : bootKernel.pcb i = Kernel.kernelPcb := if_pos h0
  refine ⟨bootKernel_readyValid, bootKernel_slotPids, fun i hi => ?_, fun i => ?_, List.nodup_nil,
    fun i hi => ?_, nofun⟩
  · by_cases h0 : i.val = 0
    · rw [hkernel i h0] at hi
      cases hi
    · rw [hother i h0]
      rfl
  · by_cases h0 : i.val = 0
    · rw [hkernel i h0]
      exact Or.inr (Or.inr (Or.inl rfl))
    · rw [hother i h0]
      exact Or.inl rfl
  · by_cases h0 : i.val = 0
    · rw [hkernel i h0] at hi
      exact absurd rfl hi
    · rw [hother i h0]
      exact iff_of_false nofun nofun

/-- In every state of a run whose actions meet the condition, the processes besides the kernel are ready
exactly while their pids are queued, once, and all queued pids are those of processes. -/
theorem readyQueue_sound_of_run {s : System} (hr : s.Reachable Action.KeepsQueue) : s.kernel.QueueSound :=
  (Reaches.invariant_of (I := fun s : System => s.kernel.QueueInv) (J := System.ReceivesOwn) hr
    (fun _ ht => System.Reachable.receivesOwn ht) (fun _ _ _ ha hown h hs => h.step hown ha hs)
    bootKernel_queueInv).queueSound

theorem spawn_from_boot : (System.step (.spawn 0 0 false) bootSystem).isSome := by
  decide +kernel

theorem readyQueue_sound_of_run_spawn :
    ∃ s, System.step (.spawn 0 0 false) bootSystem = some s ∧ s.kernel.QueueSound := by
  obtain ⟨s, hs⟩ := Option.isSome_iff_exists.1 spawn_from_boot
  exact ⟨s, hs, readyQueue_sound_of_run (Reaches.tail (a := .spawn 0 0 false) (Reaches.refl _) trivial hs)⟩

/-- A process is spawned and killed. -/
def killRun : List Action := [.spawn 0 0 false, .kill 2]

theorem killRun_queued : ((execute System.step killRun bootSystem).map fun s =>
    (s.kernel.queued, (s.kernel.pcb 1).pid)) = some ([2], 0) := by
  decide +kernel

/-- The pid of the killed process stays in the queue. -/
theorem killRun_not_queueSound : ∃ s, execute System.step killRun bootSystem = some s ∧
    s.Reachable (fun _ _ => True) ∧ ¬s.kernel.QueueSound := by
  obtain ⟨s, hs, hstates⟩ := Option.map_eq_some_iff.1 killRun_queued
  obtain ⟨hqueued, hpid⟩ := Prod.mk.inj hstates
  have hr : s.Reachable fun _ _ => True := reaches_of_execute hs
  refine ⟨s, hs, hr, fun hsound => ?_⟩
  obtain ⟨i, -, hi⟩ := hsound.live 2 (by rw [hqueued]; exact List.mem_singleton_self _)
  have hslot := hr.slotPids i
  rw [hi] at hslot
  cases Option.some.inj ((hslot.resolve_left (by decide)).symm.trans (by decide : slotOf 2 = some 1))
  rw [hpid] at hi
  exact absurd hi (by decide)

end FluxOs
