import FluxOs.Kernel.Delivery
import FluxOs.Kernel.Running

/-!
# Ready processes and the ready queue

A process should be ready exactly while its pid is in the ready queue, once, and all queued pids should be
those of processes.  The operations change the state of a process and the queue in different places, so this
holds only under a condition on each of them.
-/

namespace FluxOs

open Rings RingBuffer Actions

namespace Kernel

variable {k k' : Kernel} {i j m : Slot} {pid : UInt32} {e : SchedEntry}

theorem queued_congr (h : k'.sched.readyQueue = k.sched.readyQueue) : k'.queued = k.queued := by
  rw [queued, ready, h]
  rfl

/-- The ready processes are those in the queue. -/
structure QueueSound (k : Kernel) : Prop where
  ready i : k.Used i → (k.pcb i).pid ≠ fluxPidKernel →
    ((k.pcb i).state = .ready ↔ (k.pcb i).pid ∈ k.queued)
  once i : k.Used i → (k.pcb i).pid ≠ fluxPidKernel → (k.pcb i).pid ∈ k.queued →
    k.queued.count (k.pcb i).pid = 1
  live pid : pid ∈ k.queued → k.Live pid

/-- The states that the operations use, besides `zombie` for a moment. -/
def IsPlain (s : ProcState) : Prop := s = .unused ∨ s = .ready ∨ s = .running ∨ s = .blocked

/-- Of these states only `blocked` is woken up. -/
theorem IsPlain.blocked {s : ProcState} (h : IsPlain s) (hs : s = .blocked ∨ s = .agentIdle) :
    s = .blocked := by
  rcases hs with hs | hs
  · exact hs
  · rcases h with hp | hp | hp | hp <;> rw [hp] at hs <;> cases hs

/-- What is invariant: every queued pid is looked up as the process with this pid. -/
structure QueueInv (k : Kernel) : Prop where
  valid : k.ReadyValid
  slots : k.SlotPids
  cleared i : (k.pcb i).state = .unused → (k.pcb i).pid = 0
  plain i : IsPlain (k.pcb i).state
  nodup : k.queued.Nodup
  ready_iff i : (k.pcb i).pid ≠ fluxPidKernel → ((k.pcb i).state = .ready ↔ (k.pcb i).pid ∈ k.queued)
  live pid : pid ∈ k.queued → ∃ i, k.procs.fluxGetPcb pid = some i ∧ (k.pcb i).pid = pid

theorem queued_push (hv : k.ReadyValid) (hroom : k.sched.readyQueue.count < fluxSchedQueueSize)
    (hq : k'.sched.readyQueue = k.sched.readyQueue.push fluxSchedQueueSize e) :
    k'.queued = k.queued ++ [e.pid] := by
  rw [queued, ready, hq, contents_push hv hroom, List.map_append]
  rfl

theorem wokenPcb_pid {p : Pcb} : (wokenPcb p).pid = p.pid := by
  unfold wokenPcb
  split_ifs <;> rfl

theorem wokenPcb_used {p : Pcb} (h : p.state ≠ .unused) : (wokenPcb p).state ≠ .unused := by
  unfold wokenPcb
  split_ifs
  · exact nofun
  · exact h

theorem wokenPcb_plain {p : Pcb} (h : IsPlain p.state) : IsPlain (wokenPcb p).state := by
  unfold wokenPcb
  split_ifs
  · exact Or.inr (Or.inl rfl)
  · exact h

namespace QueueInv

theorem queueSound (h : k.QueueInv) : k.QueueSound where
  ready i _ := h.ready_iff i
  once _ _ _ hq := List.count_eq_one_of_mem h.nodup hq
  live pid hq := by
    obtain ⟨i, hget, hpid⟩ := h.live pid hq
    exact ⟨i, (fluxGetPcb_eq_some.1 hget).2, hpid⟩

theorem zero_not_queued (h : k.QueueInv) : (0 : UInt32) ∉ k.queued := by
  intro hq
  obtain ⟨i, hget, -⟩ := h.live 0 hq
  cases hget

/-- A queued pid is that of its slot. -/
theorem pid_of_slot (h : k.QueueInv) (hq : pid ∈ k.queued) (hslot : slotOf pid = some i) :
    (k.pcb i).pid = pid := by
  obtain ⟨i', hget, hpid⟩ := h.live pid hq
  cases Option.some.inj ((fluxGetPcb_eq_some.1 hget).1.symm.trans hslot)
  exact hpid

theorem used (h : k.QueueInv) (hpid : (k.pcb i).pid ≠ 0) : k.Used i := fun hu => hpid (h.cleared i hu)

theorem getPcb (h : k.QueueInv) (hpid : (k.pcb i).pid ≠ 0) : k.procs.fluxGetPcb (k.pcb i).pid = some i :=
  fluxGetPcb_eq_some.2 ⟨(h.slots i).resolve_left hpid, h.used hpid⟩

/-- A process that is not ready is not queued. -/
theorem not_queued (h : k.QueueInv) (hpid : (k.pcb i).pid ≠ fluxPidKernel)
    (hstate : (k.pcb i).state ≠ .ready) : (k.pcb i).pid ∉ k.queued := fun hq => hstate ((h.ready_iff i hpid).2 hq)

/-- Each queued pid takes a slot of its own, so there is room for one more. -/
theorem room (h : k.QueueInv) (hslot : slotOf pid = some i) (hq : pid ∉ k.queued)
    (hold : (k.pcb i).pid = pid ∨ (k.pcb i).pid = 0) :
    k.sched.readyQueue.count < fluxSchedQueueSize := by
  have hfound (p : UInt32) (hp : p ∈ k.queued) : ∃ j, slotOf p = some j ∧ j ≠ i ∧ (k.pcb j).pid = p := by
    obtain ⟨j, hget, hpid⟩ := h.live p hp
    refine ⟨j, (fluxGetPcb_eq_some.1 hget).1, ?_, hpid⟩
    rintro rfl
    rcases hold with hold | hold
    · exact hq (hold.symm.trans hpid ▸ hp)
    · exact h.zero_not_queued (hold.symm.trans hpid ▸ hp)
  have hnodup : (k.queued.map slotOf).Nodup := by
    refine List.Nodup.map_on (fun p hp p' hp' heq => ?_) h.nodup
    obtain ⟨j, hj, -, hpid⟩ := hfound p hp
    obtain ⟨j', hj', -, hpid'⟩ := hfound p' hp'
    cases Option.some.inj (hj.symm.trans (heq.trans hj'))
    exact hpid.symm.trans hpid'
  have hsub : k.queued.map slotOf ⊆ (List.finRange fluxMaxProcesses).map some := by
    intro s hs
    obtain ⟨p, hp, rfl⟩ := List.mem_map.1 hs
    obtain ⟨j, hj, -⟩ := hfound p hp
    exact List.mem_map.2 ⟨j, List.mem_finRange j, hj.symm⟩
  have hnotin : some i ∉ k.queued.map slotOf := by
    intro hs
    obtain ⟨p, hp, hpi⟩ := List.mem_map.1 hs
    obtain ⟨j, hj, hne, -⟩ := hfound p hp
    exact hne (Option.some.inj (hj.symm.trans hpi))
  have hlen := (List.Nodup.subperm (List.nodup_cons.2 ⟨hnotin, hnodup⟩)
    (List.cons_subset.2 ⟨List.mem_map.2 ⟨i, List.mem_finRange i, rfl⟩, hsub⟩)).length_le
  rw [List.length_cons, List.length_map, List.length_map, List.length_finRange, queued, List.length_map,
    ready, length_contents] at hlen
  exact hlen

/-! ## Changing one slot and the queue -/

/-- Only slot `i` changes, and in the queue only the pids of this slot. -/
theorem update (h : k.QueueInv) (hv : k'.ReadyValid)
    (hothers : ∀ j ≠ i, (k'.pcb j).pid = (k.pcb j).pid ∧ (k'.pcb j).state = (k.pcb j).state)
    (hnodup : k'.queued.Nodup)
    (hqueue : ∀ p, p ≠ (k'.pcb i).pid → (p ∈ k'.queued ↔ p ∈ k.queued ∧ p ≠ (k.pcb i).pid))
    (hslot : (k'.pcb i).pid = 0 ∨ slotOf (k'.pcb i).pid = some i)
    (hcleared : (k'.pcb i).state = .unused → (k'.pcb i).pid = 0)
    (hplain : IsPlain (k'.pcb i).state)
    (hready : (k'.pcb i).pid ≠ fluxPidKernel → ((k'.pcb i).state = .ready ↔ (k'.pcb i).pid ∈ k'.queued))
    (hlive : (k'.pcb i).pid ∈ k'.queued → (k'.pcb i).pid ≠ 0) : k'.QueueInv := by
  have hzero : (0 : UInt32) ∉ k'.queued := by
    intro hq
    by_cases hi : (k'.pcb i).pid = 0
    · exact hlive (hi.symm ▸ hq) hi
    · exact h.zero_not_queued ((hqueue 0 fun h0 => hi h0.symm).1 hq).1
  -- the pid of another slot, if there is one, is not that of slot `i`
  have hother (j : Slot) (hj : j ≠ i) (hpid : (k.pcb j).pid ≠ 0) :
      (k.pcb j).pid ≠ (k'.pcb i).pid ∧ (k.pcb j).pid ≠ (k.pcb i).pid := by
    have hjslot := (h.slots j).resolve_left hpid
    constructor
    · intro heq
      have hislot := hslot.resolve_left (heq ▸ hpid)
      exact hj (Option.some.inj (hjslot.symm.trans (heq ▸ hislot)))
    · intro heq
      have hislot := (h.slots i).resolve_left (heq ▸ hpid)
      exact hj (Option.some.inj (hjslot.symm.trans (heq ▸ hislot)))
  refine ⟨hv, fun j => ?_, fun j hj => ?_, fun j => ?_, hnodup, fun j hj => ?_, fun p hp => ?_⟩
  · by_cases hji : j = i
    · exact hji ▸ hslot
    · rw [(hothers j hji).1]
      exact h.slots j
  · by_cases hji : j = i
    · exact hji ▸ hcleared (hji ▸ hj)
    · rw [(hothers j hji).2] at hj
      rw [(hothers j hji).1]
      exact h.cleared j hj
  · by_cases hji : j = i
    · exact hji ▸ hplain
    · rw [(hothers j hji).2]
      exact h.plain j
  · by_cases hji : j = i
    · exact hji ▸ hready (hji ▸ hj)
    · rw [(hothers j hji).1] at hj ⊢
      rw [(hothers j hji).2, h.ready_iff j hj]
      by_cases hpid : (k.pcb j).pid = 0
      · rw [hpid]
        exact iff_of_false h.zero_not_queued hzero
      · obtain ⟨hne', hne⟩ := hother j hji hpid
        rw [hqueue _ hne']
        exact ⟨fun hq => ⟨hq, hne⟩, fun hq => hq.1⟩
  · by_cases hpi : p = (k'.pcb i).pid
    · subst hpi
      have hpid := hlive hp
      exact ⟨i, fluxGetPcb_eq_some.2 ⟨hslot.resolve_left hpid, fun hu => hpid (hcleared hu)⟩, rfl⟩
    · obtain ⟨hq, hne⟩ := (hqueue p hpi).1 hp
      obtain ⟨j, hget, hpid⟩ := h.live p hq
      have hji : j ≠ i := by
        rintro rfl
        exact hne hpid.symm
      obtain ⟨hjslot, hjused⟩ := fluxGetPcb_eq_some.1 hget
      refine ⟨j, fluxGetPcb_eq_some.2 ⟨hjslot, ?_⟩, (hothers j hji).1.trans hpid⟩
      rw [(hothers j hji).2]
      exact hjused

/-- The slots and the queue stay the same. -/
theorem of_same (h : k.QueueInv) (hv : k'.ReadyValid)
    (hpcb : ∀ j, (k'.pcb j).pid = (k.pcb j).pid ∧ (k'.pcb j).state = (k.pcb j).state)
    (hnodup : k'.queued.Nodup) (hqueue : ∀ p, p ∈ k'.queued ↔ p ∈ k.queued) : k'.QueueInv := by
  refine ⟨hv, h.slots.of_pid fun j => (hpcb j).1, fun j hj => ?_, fun j => ?_, hnodup, fun j hj => ?_,
    fun p hp => ?_⟩
  · rw [(hpcb j).1]
    exact h.cleared j ((hpcb j).2 ▸ hj)
  · rw [(hpcb j).2]
    exact h.plain j
  · rw [(hpcb j).1] at hj ⊢
    rw [(hpcb j).2, hqueue]
    exact h.ready_iff j hj
  · obtain ⟨i, hget, hpid⟩ := h.live p ((hqueue p).1 hp)
    obtain ⟨hslot, hused⟩ := fluxGetPcb_eq_some.1 hget
    exact ⟨i, fluxGetPcb_eq_some.2 ⟨hslot, (hpcb i).2 ▸ hused⟩, (hpcb i).1.trans hpid⟩

/-- Nothing that matters changes. -/
theorem of_procs_sched (h : k.QueueInv) (hprocs : k'.pcb = k.pcb)
    (hsched : k'.sched.readyQueue = k.sched.readyQueue) : k'.QueueInv := by
  have hqueued : k'.queued = k.queued := queued_congr hsched
  refine h.of_same (h.valid.of_queue hsched) (fun j => ?_) (hqueued ▸ h.nodup) fun p => ?_
  · rw [hprocs]
    exact ⟨rfl, rfl⟩
  · rw [hqueued]

/-! ## The changes that occur -/

/-- A process stops being ready without a change of the queue. -/
theorem setState (h : k.QueueInv) {f : Pcb → Pcb} (hpid : (f (k.pcb i)).pid = (k.pcb i).pid)
    (hstate : (f (k.pcb i)).state = .running ∨ (f (k.pcb i)).state = .blocked)
    (hcond : (k.pcb i).state = .ready → (k.pcb i).pid = fluxPidKernel) : (k.modifyPcb i f).QueueInv := by
  have hnot : (f (k.pcb i)).state ≠ .unused ∧ (f (k.pcb i)).state ≠ .ready := by
    rcases hstate with hs | hs <;> rw [hs] <;> exact ⟨nofun, nofun⟩
  refine h.update (i := i) h.valid (fun j hj => ?_) h.nodup (fun p hp => ?_) ?_ ?_ ?_ ?_ ?_
  · rw [pcb_modifyPcb_of_ne hj]
    exact ⟨rfl, rfl⟩
  · rw [pcb_modifyPcb_self, hpid] at hp
    exact (and_iff_left hp).symm
  · rw [pcb_modifyPcb_self, hpid]
    exact h.slots i
  · rw [pcb_modifyPcb_self]
    exact fun hu => absurd hu hnot.1
  · rw [pcb_modifyPcb_self]
    exact Or.inr (Or.inr hstate)
  · rw [pcb_modifyPcb_self, hpid]
    exact fun hk => iff_of_false hnot.2 (h.not_queued hk fun hs => hk (hcond hs))
  · rw [pcb_modifyPcb_self, hpid]
    exact fun hq h0 => h.zero_not_queued (h0 ▸ hq)

/-- The process in a slot is gone. -/
theorem remove (h : k.QueueInv) (hq : (k.pcb i).pid ∉ k.queued) : (k.removeProcess i).QueueInv := by
  have hself : (k.removeProcess i).pcb i = ProcTable.cleanedPcb (k.pcb i) := Function.update_self ..
  refine h.update (i := i) h.valid (fun j hj => ?_) h.nodup (fun p hp => ?_) ?_ ?_ ?_ ?_ ?_
  · rw [show (k.removeProcess i).pcb j = k.pcb j from Function.update_of_ne hj ..]
    exact ⟨rfl, rfl⟩
  · refine (and_iff_left_of_imp fun hp' => ?_).symm
    rintro rfl
    exact hq hp'
  · rw [hself]
    exact Or.inl rfl
  · rw [hself]
    exact fun _ => rfl
  · rw [hself]
    exact Or.inl rfl
  · rw [hself]
    exact fun _ => iff_of_false nofun h.zero_not_queued
  · rw [hself]
    exact fun hq => absurd hq h.zero_not_queued

/-- A process is made ready, and queued if it is not. -/
theorem enqueue_ready (h : k.QueueInv) (hv : k'.ReadyValid) (hqueue : k'.queued = k.queued)
    (hothers : ∀ j ≠ i, (k'.pcb j).pid = (k.pcb j).pid ∧ (k'.pcb j).state = (k.pcb j).state)
    (hroom : k'.sched.readyQueue.count = k.sched.readyQueue.count)
    (hslot : slotOf pid = some i) (hpid : (k'.pcb i).pid = pid)
    (hold : (k.pcb i).pid = pid ∨ (k.pcb i).pid = 0) (hused : (k'.pcb i).state ≠ .unused)
    (hplain : IsPlain (k'.pcb i).state)
    (hready : pid ≠ fluxPidKernel → (wokenPcb (k'.pcb i)).state = .ready)
    (hkeep : (k'.pcb i).state = .ready ∨ (k'.pcb i).state = (k.pcb i).state) :
    (k'.fluxSchedEnqueue pid).2.QueueInv := by
  have hzero : pid ≠ 0 := (slotOf_eq_some.1 hslot).1
  rcases fluxSchedEnqueue_cases k' pid with ⟨heq, hcase⟩ | ⟨i', hnew, -, hget, heq⟩
  · -- nothing is added, so the pid was queued before
    have hin : pid ∈ k.queued := by
      rcases hcase with h0 | hin | hfull | hnone
      · exact absurd h0 hzero
      · exact hqueue ▸ hin
      · by_contra hq
        have := h.room hslot hq hold
        omega
      · rw [fluxGetPcb_eq_some.2 ⟨hslot, hused⟩] at hnone
        cases hnone
    have hpidk : (k.pcb i).pid = pid := h.pid_of_slot hin hslot
    rw [heq]
    refine h.update hv hothers (hqueue.symm ▸ h.nodup) (fun p hp => ?_) (Or.inr (hpid.symm ▸ hslot))
      (fun hu => absurd hu hused) hplain (fun hk => ?_) fun _ => hpid.symm ▸ hzero
    · rw [hqueue, hpidk, ← hpid]
      exact (and_iff_left hp).symm
    · rw [hpid] at hk ⊢
      rw [hqueue]
      refine iff_of_true ?_ hin
      rcases hkeep with hs | hs
      · exact hs
      · rw [hs, h.ready_iff i (hpidk.symm ▸ hk), hpidk]
        exact hin
  · cases Option.some.inj (hslot.symm.trans (fluxGetPcb_eq_some.1 hget).1)
    have hself : (k'.fluxSchedEnqueue pid).2.pcb i = wokenPcb (k'.pcb i) := by
      rw [heq]
      exact Function.update_self ..
    have hqueued : (k'.fluxSchedEnqueue pid).2.queued = k.queued ++ [pid] := by
      have hpush : (k'.fluxSchedEnqueue pid).2.sched.readyQueue =
          k'.sched.readyQueue.push fluxSchedQueueSize (k'.newEntry pid i) := by rw [heq]
      rw [← hqueue, queued_push hv (by rw [hroom]; exact h.room hslot (hqueue ▸ hnew) hold) hpush]
      rfl
    have hmem : pid ∈ (k'.fluxSchedEnqueue pid).2.queued := by
      rw [hqueued]
      exact List.mem_append_right _ (List.mem_singleton_self pid)
    refine h.update (i := i) (hv.enqueue pid) (fun j hj => ?_) ?_ (fun p hp => ?_) ?_ ?_ ?_ ?_ ?_
    · have hsame : (k'.fluxSchedEnqueue pid).2.pcb j = k'.pcb j := by
        rw [heq]
        exact Function.update_of_ne hj ..
      rw [hsame]
      exact hothers j hj
    · rw [hqueued]
      refine List.nodup_append.2 ⟨h.nodup, List.nodup_singleton _, fun p hp p' hp' => ?_⟩
      rintro rfl
      rw [List.mem_singleton.1 hp', ← hqueue] at hp
      exact hnew hp
    · rw [hself, wokenPcb_pid, hpid] at hp
      rw [hqueued, List.mem_append, List.mem_singleton, or_iff_left hp]
      refine (and_iff_left_of_imp fun hq => ?_).symm
      rintro rfl
      rcases hold with hold | hold
      · exact hp hold
      · exact h.zero_not_queued (hold ▸ hq)
    · rw [hself, wokenPcb_pid, hpid]
      exact Or.inr hslot
    · rw [hself]
      exact fun hu => absurd hu (wokenPcb_used hused)
    · rw [hself]
      exact wokenPcb_plain hplain
    · rw [hself, wokenPcb_pid, hpid]
      exact fun hk => iff_of_true (hready hk) hmem
    · rw [hself, wokenPcb_pid, hpid]
      exact fun _ => hzero

/-- A process is set ready and enqueued under its pid. -/
theorem setReady (h : k.QueueInv) {f : Pcb → Pcb} (hslot : slotOf pid = some i) (hpid : (k.pcb i).pid = pid)
    (hf : (f (k.pcb i)).pid = (k.pcb i).pid) (hstate : (f (k.pcb i)).state = .ready) :
    ((k.modifyPcb i f).fluxSchedEnqueue pid).2.QueueInv := by
  have hready : ((k.modifyPcb i f).pcb i).state = .ready := by
    rw [pcb_modifyPcb_self]
    exact hstate
  refine h.enqueue_ready h.valid rfl (fun j hj => ?_) rfl hslot ?_ (Or.inl hpid) ?_ ?_ (fun _ => ?_)
    (Or.inl hready)
  · rw [pcb_modifyPcb_of_ne hj]
    exact ⟨rfl, rfl⟩
  · rw [pcb_modifyPcb_self, hf, hpid]
  · rw [hready]
    exact nofun
  · rw [hready]
    exact Or.inr (Or.inl rfl)
  · rw [wokenPcb_of_ne (by rw [hready]; exact nofun) (by rw [hready]; exact nofun), hready]

end QueueInv

/-! ## Conditions on the operations -/

/-- The process of a pid that is enqueued has this pid, and does not run. -/
def EnqueueSound (k : Kernel) (pid : UInt32) : Prop := ∀ i, k.procs.fluxGetPcb pid = some i → pid ∉ k.queued →
  (k.pcb i).pid = pid ∧ (pid = fluxPidKernel ∨ (k.pcb i).state ≠ .running)

/-- The process in a slot is not in the queue when it ends. -/
def EndSound (k : Kernel) (i : Slot) : Prop := (k.pcb i).pid ∉ k.queued

/-- An exit wakes up no parent but the kernel, as it does not queue it. -/
structure ExitSound (k : Kernel) : Prop where
  ends i : k.procs.usedSlot k.ks.currentPid = some i → k.EndSound i
  parent i m : k.procs.usedSlot k.ks.currentPid = some i → slotOf (k.pcb i).parentPid = some m → m ≠ i →
    (k.pcb m).state = .blocked → (k.pcb m).waitingFor = k.ks.currentPid → (k.pcb m).pid = fluxPidKernel

/-- The process that yields has the current pid. -/
def YieldSound (k : Kernel) : Prop := ∀ i, slotOf k.ks.currentPid = some i → k.Used i →
  (k.pcb i).pid = k.ks.currentPid

/-- The process that blocks is not ready. -/
def BlockSound (k : Kernel) : Prop := ∀ i, k.procs.fluxGetPcb k.ks.currentPid = some i →
  (k.pcb i).state = .ready → (k.pcb i).pid = fluxPidKernel

/-- The process that a message wakes up has the target's pid. -/
def SendSound (k : Kernel) (target : UInt32) (msg : List UInt8) : Prop := ∀ i j, k.CanSend target msg i j →
  (k.pcb i).state = .blocked → (k.pcb i).pid = target

/-- A receive that starts to wait. -/
def StartsToWait (k : Kernel) (filter : UInt32) (timeout : UInt64) : Prop := timeout ≠ 0 ∧
  ∃ j, ipcGetQueue k.ks.currentPid = some j ∧ (k.ipc.queues j).findMessage filter = none

/-- The process of a waiting receive still has its pid when the time is over, and is not ready when a
message comes. -/
structure PollSound (k : Kernel) (r : Receive) : Prop where
  expires i : k.Expired r → r.pcb = some i → (k.pcb i).state = .blocked → (k.pcb i).pid = r.pid
  resumes i : ¬k.Expired r → k.awaited r ≠ none → r.pcb = some i → (k.pcb i).state = .ready →
    (k.pcb i).pid = fluxPidKernel

/-- The removal of the selected entry leaves the other pids: the entry is stored before the end of the array,
or the slot at the tail happens to have the pid of the first of the other entries. -/
def DequeueSound (k : Kernel) : Prop :=
  (∀ x ∈ k.agedReady.drop (fluxSchedQueueSize - k.sched.readyQueue.head),
    ∃ y ∈ k.agedReady.take (fluxSchedQueueSize - k.sched.readyQueue.head), x.priority ≤ y.priority) ∨
  ∀ j e, IsFirstMax k.agedReady j e → ∀ x ∈ (k.agedReady.eraseIdx j).head?,
    x.pid = (k.agedQueue.slots k.sched.readyQueue.tail).pid

/-- The current process is running, so that it is put back into the queue when its time is over. -/
def Preempts (k : Kernel) : Prop := k.sched.currentPid ≠ fluxPidInvalid ∧ k.sched.currentPid ≠ fluxPidKernel ∧
  ∃ i, k.procs.fluxGetPcb k.sched.currentPid = some i ∧ (k.pcb i).state = .running

/-- A process that is put back is selected again. -/
structure IterationSound (k : Kernel) : Prop where
  resumes j e : k.Preempts → IsFirstMax k.tick.requeueCurrent.agedReady j e → e.pid = k.sched.currentPid
  removes : k.tick.requeueCurrent.DequeueSound

/-! ## The operations -/

namespace QueueInv

theorem enqueue (h : k.QueueInv) (hc : k.EnqueueSound pid) : (k.fluxSchedEnqueue pid).2.QueueInv := by
  rcases fluxSchedEnqueue_cases k pid with ⟨heq, -⟩ | ⟨i, hnew, -, hget, -⟩
  · rw [heq]
    exact h
  · obtain ⟨hpid, hrun⟩ := hc i hget hnew
    obtain ⟨hslot, hused⟩ := fluxGetPcb_eq_some.1 hget
    refine h.enqueue_ready h.valid rfl (fun _ _ => ⟨rfl, rfl⟩) rfl hslot hpid (Or.inl hpid) hused (h.plain i)
      (fun hk => ?_) (Or.inr rfl)
    rcases h.plain i with hs | hs | hs | hs
    · exact absurd hs hused
    · rw [wokenPcb_of_ne (by rw [hs]; exact nofun) (by rw [hs]; exact nofun), hs]
    · exact absurd hs (hrun.resolve_left hk)
    · rw [wokenPcb, if_pos (Or.inl hs)]

theorem spawn (h : k.QueueInv) {entry stackSize : UInt64} {isAgent : Bool} {r : UInt32 × Kernel}
    (hr : k.fluxSpawn entry stackSize isAgent = some r) : r.2.QueueInv := by
  rcases kernel_of_spawn hr with heq | ⟨n, heap, heq⟩ | ⟨n, heap, top, pid, i, hslot, hfree, heq⟩
  · rw [heq]
    exact h
  · rw [heq]
    exact h.of_procs_sched rfl rfl
  · rw [heq]
    have hself : ((k.withAllocated n heap).placed i (k.spawnedPcb pid entry top isAgent)).pcb i =
        k.spawnedPcb pid entry top isAgent := Function.update_self ..
    show (((k.withAllocated n heap).placed i (k.spawnedPcb pid entry top isAgent)).fluxSchedEnqueue pid).2.QueueInv
    refine h.enqueue_ready h.valid rfl (fun j hj => ?_) rfl hslot ?_ (Or.inr (h.cleared i hfree)) ?_ ?_
      (fun _ => ?_) ?_
    · rw [show ((k.withAllocated n heap).placed i (k.spawnedPcb pid entry top isAgent)).pcb j = k.pcb j from
        Function.update_of_ne hj ..]
      exact ⟨rfl, rfl⟩
    · rw [hself]
      rfl
    · rw [hself]
      exact nofun
    · rw [hself]
      exact Or.inr (Or.inl rfl)
    · rw [hself]
      rfl
    · rw [hself]
      exact Or.inl rfl

/-- The state of the kernel process does not matter. -/
theorem kernelState (h : k.QueueInv) (hqueue : k'.sched.readyQueue = k.sched.readyQueue)
    (hothers : ∀ j ≠ m, (k'.pcb j).pid = (k.pcb j).pid ∧ (k'.pcb j).state = (k.pcb j).state)
    (hpid : (k'.pcb m).pid = (k.pcb m).pid) (hkernel : (k.pcb m).pid = fluxPidKernel)
    (hplain : IsPlain (k'.pcb m).state) (hused : (k'.pcb m).state ≠ .unused) : k'.QueueInv := by
  have hqueued : k'.queued = k.queued := queued_congr hqueue
  refine h.update (h.valid.of_queue hqueue) hothers (hqueued.symm ▸ h.nodup) (fun p hp => ?_) ?_
    (fun hu => absurd hu hused) hplain (fun hk => absurd (hpid.trans hkernel) hk) fun _ => ?_
  · rw [hqueued, ← hpid]
    exact (and_iff_left hp).symm
  · rw [hpid]
    exact h.slots m
  · rw [hpid, hkernel]
    decide

/-- An exit leaves the other processes as they are, but for the kernel. -/
theorem exit (h : k.QueueInv) (hc : k.ExitSound) {r : FluxStatus × Kernel} (hr : k.fluxExit = some r) :
    r.2.QueueInv := by
  rcases fluxExit_cases hr with ⟨-, heq⟩ | ⟨i, hi, -, heq⟩
  · rw [heq]
    exact h
  · have hgone : (k.removeProcess i).QueueInv := h.remove (hc.ends i hi)
    have hpcb (j : Slot) : (k.removeProcess i).pcb j =
        if j = i then ProcTable.cleanedPcb (k.pcb i) else k.pcb j := Function.update_apply ..
    -- the slots that are not woken up are those after the removal
    have hsame (j : Slot) (hj : ¬k.WokenByExit i j) : (k.exited i).pcb j = (k.removeProcess i).pcb j := by
      rw [pcb_exited, hpcb, if_neg hj]
    rw [heq]
    by_cases hwoken : ∃ m, k.WokenByExit i m
    · obtain ⟨m, hm⟩ := hwoken
      have hself : (k.exited i).pcb m = { k.pcb m with state := .ready, waitingFor := fluxPidInvalid } := by
        rw [pcb_exited, if_neg hm.1, if_pos hm]
      have hkernel := hc.parent i m hi hm.2.1 hm.1 ((h.plain m).blocked hm.2.2.1) hm.2.2.2
      refine hgone.kernelState (m := m) frame_exited.1 (fun j hj => ?_) ?_ ?_ ?_ ?_
      · rw [hsame j fun hwoken => hj (Option.some.inj (hwoken.2.1.symm.trans hm.2.1))]
        exact ⟨rfl, rfl⟩
      · rw [hself, hpcb, if_neg hm.1]
      · rw [hpcb, if_neg hm.1]
        exact hkernel
      · rw [hself]
        exact Or.inr (Or.inl rfl)
      · rw [hself]
        exact nofun
    · exact hgone.of_procs_sched (funext fun j => hsame j fun hj => hwoken ⟨j, hj⟩) frame_exited.1

theorem kill (h : k.QueueInv) (hc : ∀ i, k.procs.usedSlot pid = some i → k.EndSound i) :
    (k.fluxKill pid).2.QueueInv := by
  rcases fluxKill_cases k pid with ⟨heq, -⟩ | ⟨i, hi, -, heq⟩
  · rw [heq]
    exact h
  · rw [heq]
    exact h.remove (hc i hi)

theorem yield (h : k.QueueInv) (hc : k.YieldSound) : k.fluxYield.2.QueueInv := by
  unfold fluxYield
  split_ifs with hzero
  · exact h
  · split
    · exact h
    · rename_i i hslot
      dsimp only
      split_ifs with hrun
      · have hpid := hc i hslot (by rw [Used, hrun]; decide)
        exact of_procs_sched (h.setReady (f := fun pcb => { pcb with state := .ready }) hslot hpid rfl rfl)
          rfl rfl
      · refine of_procs_sched (h.enqueue fun i' hget _ => ?_) rfl rfl
        obtain ⟨hslot', hused⟩ := fluxGetPcb_eq_some.1 hget
        cases Option.some.inj (hslot.symm.trans hslot')
        exact ⟨hc i hslot hused, Or.inr hrun⟩

theorem blockCurrent (h : k.QueueInv) (hc : k.BlockSound) (waitingFor : UInt32) :
    (k.blockCurrent waitingFor).QueueInv := by
  unfold Kernel.blockCurrent
  split
  · rename_i i hget
    exact h.setState (f := fun pcb => { pcb with state := .blocked, waitingFor }) rfl (Or.inr rfl) (hc i hget)
  · exact h

theorem wait (h : k.QueueInv) {target : UInt32}
    (hc : k.procs.fluxGetPcb target ≠ none → k.BlockSound) : (k.syscallWait target).2.QueueInv := by
  cases hget : k.procs.fluxGetPcb target with
  | none =>
    rw [syscallWait_of_none hget]
    exact h
  | some i =>
    rw [syscallWait_of_some hget]
    exact h.blockCurrent (hc (by rw [hget]; exact nofun)) target

theorem send (h : k.QueueInv) {target : UInt32} {msg : List UInt8} (hc : k.SendSound target msg) :
    (k.fluxA2aSend target msg).2.QueueInv := by
  rcases fluxA2aSend_cases k target msg with ⟨-, heq, -⟩ | ⟨i, j, hcan⟩
  · rw [heq]
    exact h
  · rw [fluxA2aSend_of_canSend hcan]
    have hpcb : (k.storeMessage j (k.buildMessage k.ks.currentPid target msg) k.ks.currentPid).pcb = k.pcb :=
      congrArg ProcTable.pcb storeMessage_procs
    have hstored : (k.storeMessage j (k.buildMessage k.ks.currentPid target msg)
        k.ks.currentPid).QueueInv :=
      h.of_procs_sched hpcb (congrArg Sched.readyQueue ReadyValid.storeMessage_queue)
    dsimp only
    unfold wakeTarget
    split_ifs with hwake
    · rw [hpcb] at hwake
      have hblocked : (k.pcb i).state = .blocked := (h.plain i).blocked hwake
      refine hstored.setReady (fluxGetPcb_eq_some.1 hcan.pcb).1 ?_ rfl rfl
      rw [hpcb]
      exact hc i j hcan hblocked
    · exact hstored

theorem recv (h : k.QueueInv) {filter : UInt32} {len timeout : UInt64}
    (hc : k.StartsToWait filter timeout → k.BlockSound) : (k.fluxA2aRecv filter len timeout).2.QueueInv := by
  rcases fluxA2aRecv_cases k filter len timeout with ⟨⟨_, heq⟩, -⟩ | ⟨j, n, -, -, heq⟩ |
    ⟨j, hj, hn, htimeout, heq⟩
  · rw [heq]
    exact h
  · rw [heq]
    exact h.of_procs_sched rfl rfl
  · rw [heq]
    exact h.blockCurrent (hc ⟨htimeout, j, hj, hn⟩) filter

theorem poll (h : k.QueueInv) {r : Receive} (hr : r.pid ≠ 0) (hc : k.PollSound r) :
    (k.recvPoll r).2.QueueInv := by
  rcases recvPoll_cases k r with ⟨hexp, heq⟩ | ⟨hexp, ⟨n, hn, heq⟩ | ⟨-, heq⟩⟩
  · rw [heq]
    unfold expire
    split
    · rename_i i hi
      split_ifs with hblocked
      · have hpid := hc.expires i hexp hi hblocked
        exact h.setReady ((hpid ▸ h.slots i).resolve_left hr) hpid rfl rfl
      · exact h
    · exact h
  · rw [heq]
    unfold resume
    split
    · rename_i i hi
      have htaken : (k.takeMessage r.queue n r.len).2.QueueInv := h.of_procs_sched rfl rfl
      exact htaken.setState (f := fun pcb => { pcb with state := .running, waitingFor := fluxPidInvalid }) rfl
        (Or.inl rfl) (hc.resumes i hexp (by rw [hn]; exact nofun) hi)
    · exact h.of_procs_sched rfl rfl
  · rw [heq]
    exact h

theorem visit (h : k.QueueInv) (sender : UInt32) (bmsg : IpcMessage) (pid : UInt32) :
    (broadcastVisit sender bmsg k pid).QueueInv := by
  rcases broadcastVisit_cases sender bmsg k pid with ⟨heq, -⟩ | ⟨i, j, -, -, -, -, ⟨-, heq⟩ | ⟨-, heq⟩⟩
  · rw [heq]
    exact h
  · rw [heq]
    exact h.of_procs_sched rfl rfl
  · rw [heq]
    unfold wakeAgent
    split_ifs with hidle
    · have hblocked := (h.plain i).blocked (Or.inr hidle)
      rw [show (k.pcb i).state = .agentIdle from hidle] at hblocked
      cases hblocked
    · exact h.of_procs_sched rfl rfl

theorem broadcast (h : k.QueueInv) (msg : List UInt8) : (k.fluxA2aBroadcast msg).2.QueueInv :=
  broadcast_keeps (P := QueueInv) h (h.of_procs_sched rfl rfl)
    (fun _ sender bmsg pid h => h.visit sender bmsg pid) msg

end QueueInv

end Kernel

end FluxOs
