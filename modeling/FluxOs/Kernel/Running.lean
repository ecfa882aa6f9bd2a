import FluxOs.Kernel.QueueRuns

/-!
# The running process

At most one process besides the kernel should be running, the one that the scheduler and the kernel state
call the current one.  An iteration of the scheduler loop puts the process whose time is over back into the
queue without changing its state, so this holds only as long as that process is selected again.
-/

namespace FluxOs

open Rings Actions

namespace Kernel

variable {k k' k'' : Kernel} {i j : Slot} {pid : UInt32} {e : SchedEntry} {n : Nat}

/-- A process other than the kernel is running in the slot. -/
def Runs (k : Kernel) (i : Slot) : Prop := (k.pcb i).pid ≠ fluxPidKernel ∧ (k.pcb i).state = .running

theorem Runs.used (h : k.Runs i) : k.Used i := by
  rw [Used, h.2]
  decide

/-- At most one process is running, and it is the current one everywhere. -/
structure RunningSound (k : Kernel) : Prop where
  one i j : k.Runs i → k.Runs j → i = j
  current i : k.Runs i → (k.pcb i).pid = k.sched.currentPid ∧ (k.pcb i).pid = k.ks.currentPid

/-- As all processes have different pids, only the second part has to be proved. -/
theorem OwnPids.runningSound (h : k.OwnPids)
    (hcur : ∀ i, k.Runs i → (k.pcb i).pid = k.sched.currentPid ∧ (k.pcb i).pid = k.ks.currentPid) :
    k.RunningSound where
  one i j hi hj := h.pid_inj hi.used hj.used ((hcur i hi).1.trans (hcur j hj).1.symm)
  current := hcur

/-! ## Operations that start no process -/

/-- No process starts to run. -/
def NoneStarts (k k' : Kernel) : Prop := ∀ i, k'.Runs i → k.Runs i ∧ (k'.pcb i).pid = (k.pcb i).pid

namespace NoneStarts

theorem refl (k : Kernel) : NoneStarts k k := fun _ h => ⟨h, rfl⟩

theorem trans (h : NoneStarts k k') (h' : NoneStarts k' k'') : NoneStarts k k'' := by
  intro i hi
  obtain ⟨hi', hpid'⟩ := h' i hi
  obtain ⟨hi'', hpid⟩ := h i hi'
  exact ⟨hi'', hpid'.trans hpid⟩

theorem of_pcb (h : k'.pcb = k.pcb) : NoneStarts k k' := by
  intro i hi
  rw [Runs, h] at hi
  rw [h]
  exact ⟨hi, rfl⟩

/-- One slot changes, and the process there does not run. -/
theorem update {p : Pcb} (h : k'.pcb = Function.update k.pcb i p) (hp : p.state ≠ .running) :
    NoneStarts k k' := by
  intro j hj
  rw [Runs, h] at hj
  rw [h]
  by_cases hji : j = i
  · rw [hji, Function.update_self] at hj
    exact absurd hj.2 hp
  · rw [Function.update_of_ne hji] at hj ⊢
    exact ⟨hj, rfl⟩

end NoneStarts

theorem noneStarts_enqueue (pid : UInt32) : NoneStarts k (k.fluxSchedEnqueue pid).2 := by
  intro i hi
  rcases pcb_enqueue (k := k) pid i with h | ⟨-, h⟩
  · rw [Runs, h] at hi
    rw [h]
    exact ⟨hi, rfl⟩
  · rw [Runs, h] at hi
    rw [h]
    unfold wokenPcb at hi ⊢
    split_ifs at hi ⊢
    · exact absurd hi.2 nofun
    · exact ⟨hi, rfl⟩

theorem currents_enqueue (pid : UInt32) : (k.fluxSchedEnqueue pid).2.sched.currentPid = k.sched.currentPid ∧
    (k.fluxSchedEnqueue pid).2.ks = k.ks := by
  rcases fluxSchedEnqueue_cases k pid with ⟨h, -⟩ | ⟨_, -, -, -, h⟩ <;> rw [h]
  · exact ⟨rfl, rfl⟩
  · exact ⟨rfl, rfl⟩

theorem noneStarts_remove : NoneStarts k (k.removeProcess i) := NoneStarts.update rfl nofun

/-- A spawn starts no process and keeps the current one. -/
theorem noneStarts_spawn {entry stackSize : UInt64} {isAgent : Bool} {r : UInt32 × Kernel}
    (hr : k.fluxSpawn entry stackSize isAgent = some r) :
    NoneStarts k r.2 ∧ r.2.sched.currentPid = k.sched.currentPid ∧ r.2.ks.currentPid = k.ks.currentPid := by
  rcases kernel_of_spawn hr with h | ⟨n, heap, h⟩ | ⟨n, heap, top, pid, i, -, -, h⟩
  · rw [h]
    exact ⟨NoneStarts.refl k, rfl, rfl⟩
  · rw [h]
    exact ⟨NoneStarts.of_pcb rfl, rfl, rfl⟩
  · rw [h]
    have hplaced : NoneStarts k ((k.withAllocated n heap).placed i (k.spawnedPcb pid entry top isAgent)) :=
      NoneStarts.update rfl nofun
    obtain ⟨hsched, hks⟩ :=
      currents_enqueue (k := (k.withAllocated n heap).placed i (k.spawnedPcb pid entry top isAgent)) pid
    exact ⟨hplaced.trans (noneStarts_enqueue pid), hsched, (congrArg KernelState.currentPid hks).trans rfl⟩

theorem noneStarts_kill (pid : UInt32) :
    NoneStarts k (k.fluxKill pid).2 ∧ (k.fluxKill pid).2.sched.currentPid = k.sched.currentPid ∧
      (k.fluxKill pid).2.ks.currentPid = k.ks.currentPid := by
  rcases fluxKill_cases k pid with ⟨h, -⟩ | ⟨i, -, -, h⟩
  · rw [h]
    exact ⟨NoneStarts.refl k, rfl, rfl⟩
  · rw [h]
    exact ⟨noneStarts_remove, rfl, rfl⟩

/-! ## The current process stops -/

/-- The running process is the one in the slot of the current pid. -/
theorem RunningSound.slot (h : k.RunningSound) (hown : k.OwnPids) (hi : k.Runs i) :
    slotOf k.ks.currentPid = some i := by
  rw [← (h.current i hi).2]
  exact hown.slot i hi.used

/-- After an exit no process is running. -/
theorem RunningSound.exit (h : k.RunningSound) (hown : k.OwnPids) {r : FluxStatus × Kernel}
    (hr : k.fluxExit = some r) : ¬r.2.Runs j := by
  intro hj
  have hslot (hrun : k.Runs j) : k.procs.usedSlot k.ks.currentPid = some j :=
    usedSlot_eq_some.2 ⟨h.slot hown hrun, hrun.used⟩
  rcases fluxExit_cases hr with ⟨hnone, heq⟩ | ⟨i, hi, -, heq⟩
  · rw [heq] at hj
    rw [hslot hj] at hnone
    cases hnone
  · rw [heq, Runs, pcb_exited] at hj
    split_ifs at hj with hji hwoken
    · exact absurd hj.2 nofun
    · exact absurd hj.2 nofun
    · exact hji (Option.some.inj ((hslot hj).symm.trans hi))

/-- After a yield no process is running. -/
theorem RunningSound.yield (h : k.RunningSound) (hown : k.OwnPids) : ¬k.fluxYield.2.Runs j := by
  intro hj
  have hne : k.ks.currentPid ≠ fluxPidInvalid ∨ ¬k.Runs j := by
    by_contra hboth
    obtain ⟨hzero, hrun⟩ := not_or.1 hboth
    have hslot := h.slot hown (not_not.1 hrun)
    rw [not_not.1 hzero] at hslot
    cases hslot
  unfold fluxYield at hj
  split_ifs at hj with hzero
  · exact hne.elim (fun h => h hzero) fun h => h hj
  · split at hj
    · rename_i hnone
      rw [h.slot hown hj] at hnone
      cases hnone
    · rename_i i hi
      dsimp only at hj
      split_ifs at hj with hrun
      · have hset := noneStarts_enqueue (k := k.modifyPcb i fun pcb => { pcb with state := .ready })
          k.ks.currentPid j hj
        obtain ⟨hold, -⟩ := (NoneStarts.update (k := k) (p := { k.pcb i with state := .ready }) rfl nofun) j hset.1
        rw [← Option.some.inj (hi.symm.trans (h.slot hown hold)), Runs, pcb_modifyPcb_self] at hset
        exact absurd hset.1.2 nofun
      · have hold := noneStarts_enqueue (k := k) k.ks.currentPid j hj
        rw [Option.some.inj (hi.symm.trans (h.slot hown hold.1))] at hrun
        exact hrun hold.1.2

/-! ## An iteration of the scheduler loop -/

/-- The pids and states are the same, and so is the current process. -/
theorem RunningSound.of_states (h : k.RunningSound)
    (hpcb : ∀ i, (k'.pcb i).pid = (k.pcb i).pid ∧ (k'.pcb i).state = (k.pcb i).state)
    (hsched : k'.sched.currentPid = k.sched.currentPid) (hks : k'.ks.currentPid = k.ks.currentPid) :
    k'.RunningSound := by
  have hruns (i : Slot) : k'.Runs i ↔ k.Runs i := by rw [Runs, Runs, (hpcb i).1, (hpcb i).2]
  refine ⟨fun i j hi hj => h.one i j ((hruns i).1 hi) ((hruns j).1 hj), fun i hi => ?_⟩
  rw [(hpcb i).1, hsched, hks]
  exact h.current i ((hruns i).1 hi)

/-- When the current process goes on, no process changes its state. -/
theorem states_spendTick (i : Slot) : (k.spendTick.pcb i).pid = (k.pcb i).pid ∧
    (k.spendTick.pcb i).state = (k.pcb i).state := by
  unfold Kernel.spendTick
  dsimp only
  split
  · rename_i j _
    rw [pcb_modifyPcb]
    split_ifs with hi
    · rw [hi]
      exact ⟨rfl, rfl⟩
    · exact ⟨rfl, rfl⟩
  · exact ⟨rfl, rfl⟩

theorem sched_spendTick : k.spendTick.sched.readyQueue = k.sched.readyQueue ∧
    k.spendTick.sched.currentPid = k.sched.currentPid ∧ k.spendTick.ks = k.ks := by
  unfold Kernel.spendTick
  dsimp only
  split <;> exact ⟨rfl, rfl, rfl⟩

theorem RunningSound.spendTick (h : k.RunningSound) : k.tick.spendTick.RunningSound := by
  obtain ⟨-, hsched, hks⟩ := sched_spendTick (k := k.tick)
  exact h.of_states (states_spendTick (k := k.tick)) hsched ((congrArg KernelState.currentPid hks).trans rfl)

/-- Putting the current process back into the queue changes no process. -/
theorem pcb_requeueCurrent : k.requeueCurrent.pcb = k.pcb := by
  unfold requeueCurrent
  split_ifs
  · split
    · rename_i i hget
      split_ifs with hrun
      · funext j
        rcases pcb_enqueue (k := k) k.sched.currentPid j with h | ⟨hj, h⟩
        · exact h
        · rw [Option.some.inj (hget.symm.trans hj)] at hrun
          rw [h, wokenPcb_of_ne (by rw [hrun]; exact nofun) (by rw [hrun]; exact nofun)]
      · rfl
    · rfl
  · rfl

theorem getPcb_requeueCurrent (pid : UInt32) :
    k.requeueCurrent.procs.fluxGetPcb pid = k.procs.fluxGetPcb pid := by
  refine Option.ext fun i => ?_
  rw [fluxGetPcb_eq_some, fluxGetPcb_eq_some, pcb_requeueCurrent]

/-- A running process that is put back is in the queue. -/
theorem requeueCurrent_pos (hi : k.Runs i) (hget : k.procs.fluxGetPcb k.sched.currentPid = some i)
    (hkernel : k.sched.currentPid ≠ fluxPidKernel) : 0 < k.requeueCurrent.sched.readyQueue.count := by
  have hzero : k.sched.currentPid ≠ fluxPidInvalid := by
    intro h0
    rw [h0] at hget
    cases hget
  have heq : k.requeueCurrent = (k.fluxSchedEnqueue k.sched.currentPid).2 := by
    unfold requeueCurrent
    rw [if_pos ⟨hzero, hkernel⟩, hget]
    exact if_pos hi.2
  rw [heq]
  rcases fluxSchedEnqueue_cases k k.sched.currentPid with ⟨h, hcase⟩ | ⟨i', -, -, -, h⟩
  · rw [h]
    rcases hcase with h0 | hin | hfull | hnone
    · exact absurd h0 hzero
    · rw [queued, ready] at hin
      have hlen := List.length_pos_of_mem hin
      rwa [List.length_map, RingBuffer.length_contents] at hlen
    · exact Nat.lt_of_lt_of_le (by decide) hfull
    · rw [hnone] at hget
      cases hget
  · rw [h]
    exact Nat.succ_pos _

/-- The entries from which an iteration chooses when the time of the current process is over: the aged queue,
with the current process put back. -/
def nextReady (k : Kernel) : List SchedEntry := k.tick.requeueCurrent.agedReady

theorem agedReady_eq_nil (h : k.sched.readyQueue.count = 0) : k.agedReady = [] := by
  have hready : k.ready = [] := by
    rw [ready, RingBuffer.contents, h]
    rfl
  unfold agedReady
  rw [hready]
  split_ifs <;> rfl

theorem nextReady_eq_nil (h : k.tick.requeueCurrent.sched.readyQueue.count = 0) : k.nextReady = [] :=
  agedReady_eq_nil h

/-- The pid that is the current one when `next` was dequeued. -/
def currentAfter (next : UInt32) : UInt32 := if next = fluxPidInvalid then fluxPidKernel else next

theorem currentAfter_of_ne (h : pid ≠ 0) : currentAfter pid = pid := if_neg h

theorem switchTo_currents (next : UInt32) :
    (k.switchTo next).pcb = k.pcb ∧ (k.switchTo next).sched.currentPid = currentAfter next ∧
      (k.switchTo next).ks.currentPid = currentAfter next := by
  unfold switchTo currentAfter
  by_cases h : next = fluxPidInvalid
  · rw [if_pos h, if_pos h]
    exact ⟨rfl, rfl, rfl⟩
  · rw [if_neg h, if_neg h]
    exact ⟨rfl, rfl, rfl⟩

/-- What an iteration does when the time of the current process is over: nothing is selected if the queue is
empty, and otherwise the process of the first entry of greatest priority runs and is the current one. -/
theorem iteration_switch (hv : k.ReadyValid) (htime : ¬k.TimeLeft) : ∃ next,
    (∀ i, (k.schedIteration.pcb i).pid = (k.pcb i).pid ∧ (k.schedIteration.pcb i).state =
      if k.procs.fluxGetPcb next = some i then .running else (k.pcb i).state) ∧
    k.schedIteration.sched.currentPid = currentAfter next ∧
    k.schedIteration.ks.currentPid = currentAfter next ∧
    (next = 0 ∧ k.tick.requeueCurrent.sched.readyQueue.count = 0 ∨
      ∃ j e, IsFirstMax k.nextReady j e ∧ next = e.pid) := by
  have hvalid : k.tick.requeueCurrent.ReadyValid := ReadyValid.requeueCurrent (k := k.tick) hv
  have hpcb : k.tick.requeueCurrent.pcb = k.pcb := pcb_requeueCurrent (k := k.tick)
  have hget (pid : UInt32) : k.tick.requeueCurrent.procs.fluxGetPcb pid = k.procs.fluxGetPcb pid :=
    getPcb_requeueCurrent (k := k.tick) pid
  obtain ⟨pri, sched, -, hdispatched⟩ := exists_dispatched k.tick.requeueCurrent
  obtain ⟨hswitch, hsched, hks⟩ := switchTo_currents (k := k.tick.requeueCurrent.fluxSchedDequeue.2)
    k.tick.requeueCurrent.fluxSchedDequeue.1
  rw [schedIteration_eq, if_neg htime]
  refine ⟨k.tick.requeueCurrent.fluxSchedDequeue.1, fun i => ?_, hsched, hks, ?_⟩
  · rw [hswitch, hdispatched, ← hpcb, ← hget]
    exact ⟨rfl, rfl⟩
  · rcases Nat.eq_zero_or_pos k.tick.requeueCurrent.sched.readyQueue.count with hzero | hpos
    · exact Or.inl ⟨congrArg Prod.fst (if_pos hzero : k.tick.requeueCurrent.fluxSchedDequeue = _), hzero⟩
    · obtain ⟨j, e, hmax, hpid, -⟩ := fluxSchedDequeue_spec hvalid hpos
      exact Or.inr ⟨j, e, hmax, hpid⟩

/-- The process that an iteration selects is the one that is running, if there is one, and it is found in its
slot. -/
structure SwitchSound (k : Kernel) : Prop where
  resumes i j e : k.Runs i → IsFirstMax k.nextReady j e → e.pid = (k.pcb i).pid
  named i j e : IsFirstMax k.nextReady j e → k.procs.fluxGetPcb e.pid = some i →
    (k.pcb i).pid ≠ fluxPidKernel → (k.pcb i).pid = e.pid

/-- The exact condition for an iteration. -/
theorem RunningSound.iteration_iff (h : k.RunningSound) (hown : k.OwnPids) (hv : k.ReadyValid)
    (htime : ¬k.TimeLeft) : k.schedIteration.RunningSound ↔ k.SwitchSound := by
  obtain ⟨next, hpcb, hsched, hks, hnext⟩ := iteration_switch hv htime
  -- the entry that is selected
  have hselected (j : Nat) (e : SchedEntry) (hmax : IsFirstMax k.nextReady j e) : next = e.pid := by
    rcases hnext with ⟨-, hcount⟩ | ⟨j', e', hmax', heq⟩
    · rw [nextReady_eq_nil hcount] at hmax
      cases hmax.mem
    · rw [heq, (hmax'.unique hmax).2]
  constructor
  · intro h'
    have hcurrent (i : Slot) (hpid : (k.pcb i).pid ≠ fluxPidKernel)
        (hrun : (k.schedIteration.pcb i).state = .running) : (k.pcb i).pid = currentAfter next := by
      rw [← (hpcb i).1] at hpid ⊢
      rw [← hsched]
      exact (h'.current i ⟨hpid, hrun⟩).1
    refine ⟨fun i j e hi hmax => ?_, fun i j e hmax hget hpid => ?_⟩
    · have hrun : (k.schedIteration.pcb i).state = .running := by
        rw [(hpcb i).2, hi.2, ite_self]
      have hcur := hcurrent i hi.1 hrun
      have hzero : next ≠ 0 := fun h0 => hi.1 (hcur.trans (if_pos h0))
      rw [hcur, currentAfter_of_ne hzero, hselected j e hmax]
    · rw [← hselected j e hmax] at hget ⊢
      have hzero : next ≠ 0 := by
        rintro rfl
        cases hget
      rw [hcurrent i hpid (by rw [(hpcb i).2, if_pos hget]), currentAfter_of_ne hzero]
  · intro hc
    refine (hown.of_same sameProcesses_iteration).runningSound fun i hi => ?_
    suffices hnamed : next ≠ 0 ∧ (k.pcb i).pid = next by
      rw [hsched, hks, (hpcb i).1, currentAfter_of_ne hnamed.1]
      exact ⟨hnamed.2, hnamed.2⟩
    have hpid : (k.pcb i).pid ≠ fluxPidKernel := (hpcb i).1 ▸ hi.1
    have hstate := hi.2
    rw [(hpcb i).2] at hstate
    rcases hnext with ⟨rfl, hcount⟩ | ⟨j, e, hmax, rfl⟩
    · -- the queue is empty, but a running process would have been put back
      have hrun : k.Runs i := ⟨hpid, hstate⟩
      have hcur := (h.current i hrun).1
      have hpos := requeueCurrent_pos (k := k.tick) hrun
        (by rw [show k.tick.sched.currentPid = (k.pcb i).pid from hcur.symm]; exact hown.getPcb_of_pid hrun.used)
        (by rw [show k.tick.sched.currentPid = (k.pcb i).pid from hcur.symm]; exact hpid)
      exact absurd hcount (Nat.ne_of_gt hpos)
    · by_cases hget : k.procs.fluxGetPcb e.pid = some i
      · refine ⟨?_, hc.named i j e hmax hget hpid⟩
        intro h0
        rw [h0] at hget
        cases hget
      · rw [if_neg hget] at hstate
        have hrun : k.Runs i := ⟨hpid, hstate⟩
        have heq := hc.resumes i j e hrun hmax
        exact ⟨heq ▸ hown.pid_ne_zero hrun.used, heq.symm⟩

end Kernel

/-! ## Runs -/

/-- The actions of the scheduler loop and of processes that start, yield and end. -/
def Action.isScheduling : Action → Bool
  | .spawn .. | .exit | .kill _ | .yield | .schedule => true
  | _ => false

/-- An iteration that ends the time of a process switches as it should. -/
def Action.SwitchesSoundly (a : Action) (s : System) : Prop :=
  a = .schedule → s.kernel.TimeLeft ∨ s.kernel.SwitchSound

variable {s t : System} {a : Action}

theorem Action.notPoll_of_isScheduling (ha : a.isScheduling) : a.NotPoll s := by
  rintro r rfl
  exact absurd ha nofun

/-- The condition is exact for one action. -/
theorem System.runningSound_step_iff (ha : a.isScheduling) (hown : s.kernel.OwnPids) (hv : s.kernel.ReadyValid)
    (h : s.kernel.RunningSound) (hs : s.step a = some t) :
    t.kernel.RunningSound ↔ a.SwitchesSoundly s := by
  have hown' : t.kernel.OwnPids := hown.step (System.processStep (Action.notPoll_of_isScheduling ha) hs)
  -- no process starts and the current one stays
  have hkeep (hnone : Kernel.NoneStarts s.kernel t.kernel)
      (hsched : t.kernel.sched.currentPid = s.kernel.sched.currentPid)
      (hks : t.kernel.ks.currentPid = s.kernel.ks.currentPid) : t.kernel.RunningSound := by
    refine hown'.runningSound fun i hi => ?_
    obtain ⟨hrun, hpid⟩ := hnone i hi
    rw [hsched, hks, hpid]
    exact h.current i hrun
  cases a with
  | spawn entry stackSize isAgent =>
    obtain ⟨r, hr, rfl⟩ := Option.map_eq_some_iff.1 hs
    obtain ⟨hnone, hsched, hks⟩ := Kernel.noneStarts_spawn hr
    exact iff_of_true (hkeep hnone hsched hks) nofun
  | exit =>
    obtain ⟨r, hr, rfl⟩ := Option.map_eq_some_iff.1 hs
    exact iff_of_true (hown'.runningSound fun i hi => absurd hi (h.exit hown hr)) nofun
  | kill pid =>
    cases hs
    obtain ⟨hnone, hsched, hks⟩ := s.kernel.noneStarts_kill pid
    exact iff_of_true (hkeep hnone hsched hks) nofun
  | yield =>
    cases hs
    exact iff_of_true (hown'.runningSound fun i hi => absurd hi (h.yield hown)) nofun
  | schedule =>
    cases hs
    by_cases htime : s.kernel.TimeLeft
    · refine iff_of_true ?_ fun _ => Or.inl htime
      show s.kernel.schedIteration.RunningSound
      rw [Kernel.schedIteration_eq, if_pos htime]
      exact h.spendTick
    · refine (h.iteration_iff hown hv htime).trans ⟨fun hc _ => Or.inr hc, fun hc => ?_⟩
      exact (hc rfl).resolve_left htime
  | _ => exact absurd ha nofun

theorem bootKernel_runningSound : bootKernel.RunningSound := by
  refine Kernel.OwnPids.boot.runningSound fun i hi => ?_
  by_cases h0 : i.val = 0
  · exact absurd (show (bootKernel.pcb i).pid = fluxPidKernel from congrArg Pcb.pid (if_pos h0)) hi.1
  · have hstate := hi.2
    rw [show bootKernel.pcb i = Pcb.zero from if_neg h0] at hstate
    cases hstate

/-- In every run, at most one process besides the kernel is running in any state, the current one, if and
only if every iteration that ends the time of a process selects it again, and a process that is selected is
found in its slot. -/
theorem runningProcess_sound_iff (as : List Action) (has : ∀ a ∈ as, a.isScheduling) :
    HoldsAlong System.step (fun s => s.kernel.RunningSound) as bootSystem ↔
      MeetsAlong System.step Action.SwitchesSoundly as bootSystem := by
  refine holdsAlong_iff (fun a _ => a.isScheduling)
    (J := fun s => s.kernel.OwnPids ∧ s.kernel.ReadyValid) ?_ ?_ (fun a ha _ => has a ha)
    ⟨Kernel.OwnPids.boot, bootKernel_readyValid⟩ bootKernel_runningSound
  · rintro a s t ha ⟨hown, hv⟩ hs
    exact ⟨hown.step (System.processStep (Action.notPoll_of_isScheduling ha) hs), hv.step hs⟩
  · rintro a s t ha ⟨hown, hv⟩ h hs
    exact System.runningSound_step_iff ha hown hv h hs

/-- Two processes of equal priority, and the time slice of the first one. -/
def preemptRun : List Action :=
  [.spawn 0 0 false, .spawn 0 0 false] ++ List.replicate 12 .schedule

theorem runningProcess_sound_iff_preempt :
    HoldsAlong System.step (fun s => s.kernel.RunningSound) preemptRun bootSystem ↔
      MeetsAlong System.step Action.SwitchesSoundly preemptRun bootSystem :=
  runningProcess_sound_iff preemptRun (by decide)

theorem preemptRun_states : ((execute System.step preemptRun bootSystem).map fun s =>
    ((s.kernel.pcb 1).pid, (s.kernel.pcb 1).state, (s.kernel.pcb 2).pid, (s.kernel.pcb 2).state)) =
      some (2, .running, 3, .running) := by
  decide +kernel

/-- After the time slice of process 2, both process 2 and process 3 are running. -/
theorem preemptRun_two_running : (∀ a ∈ preemptRun, a.isScheduling) ∧
    ∃ s, execute System.step preemptRun bootSystem = some s ∧ ¬s.kernel.RunningSound := by
  refine ⟨by decide, ?_⟩
  obtain ⟨s, hs, hstates⟩ := Option.map_eq_some_iff.1 preemptRun_states
  obtain ⟨hpid₁, hstate₁, hpid₂, hstate₂⟩ : (s.kernel.pcb 1).pid = 2 ∧ (s.kernel.pcb 1).state = .running ∧
      (s.kernel.pcb 2).pid = 3 ∧ (s.kernel.pcb 2).state = .running := by simpa using hstates
  refine ⟨s, hs, fun hsound => ?_⟩
  have heq := hsound.one 1 2 ⟨by rw [hpid₁]; decide, hstate₁⟩ ⟨by rw [hpid₂]; decide, hstate₂⟩
  exact absurd heq (by decide)

end FluxOs
