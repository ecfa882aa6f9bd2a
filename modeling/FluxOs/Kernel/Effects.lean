import FluxOs.Kernel.ReadyQueue

/-!
# What the operations change

One lemma for each operation of the scheduler says what it makes of the process table and the ready queue.
All operations but spawning and terminating keep the processes in their slots.
-/

namespace FluxOs

open Rings RingBuffer

namespace Kernel

variable {k k' k'' : Kernel} {i j : Slot} {f : Pcb → Pcb} {pid : UInt32}

/-! ## Changing one process -/

theorem pcb_modifyPcb : (k.modifyPcb i f).pcb j = if j = i then f (k.pcb i) else k.pcb j :=
  Function.update_apply ..

@[simp] theorem pcb_modifyPcb_self : (k.modifyPcb i f).pcb i = f (k.pcb i) := Function.update_self ..

theorem pcb_modifyPcb_of_ne (h : j ≠ i) : (k.modifyPcb i f).pcb j = k.pcb j := Function.update_of_ne h ..

theorem modifyPcb_id (h : f (k.pcb i) = k.pcb i) : k.modifyPcb i f = k := by
  have hpcb : Function.update k.procs.pcb i (f (k.procs.pcb i)) = k.procs.pcb := by
    rw [show f (k.procs.pcb i) = k.procs.pcb i from h, Function.update_eq_self]
  unfold modifyPcb ProcTable.modify
  rw [hpcb]

theorem usedSlot_eq_some {t : ProcTable} :
    t.usedSlot pid = some i ↔ slotOf pid = some i ∧ (t.pcb i).state ≠ .unused := by
  rw [ProcTable.usedSlot, Option.filter_eq_some_iff, decide_eq_true_iff]

theorem slotOf_zero : slotOf 0 = none := rfl

theorem fluxGetPcb_eq_usedSlot {t : ProcTable} : t.fluxGetPcb pid = t.usedSlot pid := by
  unfold ProcTable.fluxGetPcb
  split_ifs with h
  · rw [h, ProcTable.usedSlot, show slotOf fluxPidInvalid = none from slotOf_zero]
    rfl
  · rfl

theorem fluxGetPcb_eq_some :
    k.procs.fluxGetPcb pid = some i ↔ slotOf pid = some i ∧ (k.pcb i).state ≠ .unused := by
  rw [fluxGetPcb_eq_usedSlot, usedSlot_eq_some]
  rfl

/-! ## Enqueuing -/

/-- The pids in the ready queue. -/
def queued (k : Kernel) : List UInt32 := k.ready.map SchedEntry.pid

/-- What `flux_sched_enqueue` makes of a process. -/
def wokenPcb (pcb : Pcb) : Pcb :=
  if pcb.state = .blocked ∨ pcb.state = .agentIdle then { pcb with state := .ready } else pcb

/-- The entry that `flux_sched_enqueue` adds. -/
def newEntry (k : Kernel) (pid : UInt32) (i : Slot) : SchedEntry where
  pid
  priority := (k.pcb i).priority
  waitStart := k.schedCurrentTick
  timeSlice := if (k.pcb i).isAgent && (k.pcb i).state = .agentThinking then
    k.sched.defaultTimeslice + fluxSchedAgentThinkBonus else k.sched.defaultTimeslice
  isAgentThinking := (k.pcb i).isAgent && (k.pcb i).state = .agentThinking

/-- Either nothing happens, or an entry is added for a process that is looked up. -/
theorem fluxSchedEnqueue_cases (k : Kernel) (pid : UInt32) :
    ((k.fluxSchedEnqueue pid).2 = k ∧ (pid = 0 ∨ pid ∈ k.queued ∨
      fluxSchedQueueSize ≤ k.sched.readyQueue.count ∨ k.procs.fluxGetPcb pid = none)) ∨
    ∃ i, pid ∉ k.queued ∧ k.sched.readyQueue.count < fluxSchedQueueSize ∧
      k.procs.fluxGetPcb pid = some i ∧
      (k.fluxSchedEnqueue pid).2 = { k.modifyPcb i wokenPcb with sched := { k.sched with
        readyQueue := k.sched.readyQueue.push fluxSchedQueueSize (k.newEntry pid i) } } := by
  have hqueued : ((k.sched.readyQueue.contents fluxSchedQueueSize).any fun entry => entry.pid = pid) ↔
      pid ∈ k.queued := by
    rw [List.any_eq_true, queued, List.mem_map]
    simp only [decide_eq_true_iff]
    rfl
  unfold fluxSchedEnqueue
  dsimp only
  by_cases hzero : pid = fluxPidInvalid
  · rw [if_pos hzero]
    exact Or.inl ⟨rfl, Or.inl hzero⟩
  rw [if_neg hzero]
  by_cases hin : pid ∈ k.queued
  · rw [if_pos (hqueued.2 hin)]
    exact Or.inl ⟨rfl, Or.inr (Or.inl hin)⟩
  rw [if_neg fun h => hin (hqueued.1 h)]
  by_cases hfull : k.sched.readyQueue.count ≥ fluxSchedQueueSize
  · rw [if_pos hfull]
    exact Or.inl ⟨rfl, Or.inr (Or.inr (Or.inl hfull))⟩
  rw [if_neg hfull]
  cases hget : k.procs.fluxGetPcb pid with
  | none => exact Or.inl ⟨rfl, Or.inr (Or.inr (Or.inr rfl))⟩
  | some i =>
    refine Or.inr ⟨i, hin, Nat.not_le.1 hfull, rfl, ?_⟩
    by_cases hwake : (k.pcb i).state = .blocked ∨ (k.pcb i).state = .agentIdle
    · have hwoken : k.modifyPcb i wokenPcb = k.modifyPcb i fun pcb => { pcb with state := .ready } := by
        unfold modifyPcb ProcTable.modify
        rw [show wokenPcb (k.procs.pcb i) = { k.procs.pcb i with state := .ready } from if_pos hwake]
      dsimp only
      rw [if_pos hwake, hwoken]
      rfl
    · dsimp only
      rw [if_neg hwake, modifyPcb_id (show wokenPcb (k.pcb i) = k.pcb i from if_neg hwake)]
      rfl

theorem pcb_enqueue (pid : UInt32) (j : Slot) : (k.fluxSchedEnqueue pid).2.pcb j = k.pcb j ∨
    k.procs.fluxGetPcb pid = some j ∧ (k.fluxSchedEnqueue pid).2.pcb j = wokenPcb (k.pcb j) := by
  rcases fluxSchedEnqueue_cases k pid with ⟨h, -⟩ | ⟨i, -, -, hget, h⟩
  · rw [h]
    exact Or.inl rfl
  · rw [h]
    by_cases hji : j = i
    · subst hji
      exact Or.inr ⟨hget, pcb_modifyPcb_self⟩
    · exact Or.inl (pcb_modifyPcb_of_ne hji)

theorem wokenPcb_of_ne {p : Pcb} (h : p.state ≠ .blocked) (h' : p.state ≠ .agentIdle) : wokenPcb p = p :=
  if_neg fun hor => hor.elim h h'

/-! ## Dequeuing -/

/-- The kernel with new priorities of the processes, a new ready queue and a new boost timer. -/
def aged (k : Kernel) (pri : Slot → UInt8) (q : RingBuffer SchedEntry) (timer : UInt32) : Kernel :=
  { k with
    procs := { k.procs with pcb := fun i => { k.pcb i with priority := pri i } }
    sched := { k.sched with readyQueue := q, boostTimer := timer } }

theorem exists_aged_self (q : RingBuffer SchedEntry) (timer : UInt32) :
    ∃ pri, { k with sched := { k.sched with readyQueue := q, boostTimer := timer } } = k.aged pri q timer :=
  ⟨fun i => (k.pcb i).priority, rfl⟩

theorem exists_aged_modifyPcb (q : RingBuffer SchedEntry) (priority : UInt8) :
    ∃ pri, ({ k with sched := { k.sched with readyQueue := q } } : Kernel).modifyPcb j
      (fun pcb => { pcb with priority }) = k.aged pri q k.sched.boostTimer := by
  refine ⟨fun i => if i = j then priority else (k.pcb i).priority, ?_⟩
  unfold modifyPcb ProcTable.modify aged
  congr
  funext i
  by_cases hij : i = j
  · subst hij
    rw [Function.update_self]
    simp only [if_true]
    rfl
  · rw [Function.update_of_ne hij]
    simp only [hij, if_false]
    rfl

/-- A starving process gets the priority of its boosted entry. -/
theorem exists_aged_starved (now : UInt64) (q : RingBuffer SchedEntry) (entry : SchedEntry) :
    ∃ pri, (if starves now entry then
      match k.procs.fluxGetPcb entry.pid with
      | some j => ({ k with sched := { k.sched with readyQueue := q } } : Kernel).modifyPcb j fun pcb =>
          { pcb with priority := boostedPriority entry.priority }
      | none => { k with sched := { k.sched with readyQueue := q } }
    else { k with sched := { k.sched with readyQueue := q } }) = k.aged pri q k.sched.boostTimer := by
  split_ifs
  · split
    · exact exists_aged_modifyPcb q _
    · exact exists_aged_self q _
  · exact exists_aged_self q _

theorem exists_aged_ageVisit (now : UInt64) (m : Nat) :
    ∃ pri q, ageVisit now k m = k.aged pri q k.sched.boostTimer := by
  obtain ⟨pri, h⟩ := exists_aged_starved now
    { k.sched.readyQueue with
      slots := Function.update k.sched.readyQueue.slots (k.sched.readyQueue.index fluxSchedQueueSize m)
        (agedEntry now (k.sched.readyQueue.slots (k.sched.readyQueue.index fluxSchedQueueSize m))) }
    (k.sched.readyQueue.slots (k.sched.readyQueue.index fluxSchedQueueSize m))
  exact ⟨pri, _, h⟩

theorem exists_aged_foldl (now : UInt64) (l : List Nat) :
    ∃ pri q, l.foldl (ageVisit now) k = k.aged pri q k.sched.boostTimer := by
  induction l generalizing k with
  | nil =>
    obtain ⟨pri, h⟩ := exists_aged_self (k := k) k.sched.readyQueue k.sched.boostTimer
    exact ⟨pri, _, h⟩
  | cons m l ih =>
    obtain ⟨pri, q, h⟩ := exists_aged_ageVisit (k := k) now m
    obtain ⟨pri', q', h'⟩ := ih (k := ageVisit now k m)
    rw [List.foldl_cons, h']
    rw [h]
    exact ⟨pri', q', rfl⟩

/-- Aging changes priorities only. -/
theorem exists_aged (k : Kernel) :
    ∃ pri timer, k.schedAgePriorities = k.aged pri k.agedQueue timer := by
  have hsome : ∃ pri q timer, k.schedAgePriorities = k.aged pri q timer := by
    unfold schedAgePriorities
    dsimp only
    split_ifs
    · obtain ⟨pri, h⟩ := exists_aged_self (k := k) k.sched.readyQueue (k.sched.boostTimer + 1)
      exact ⟨pri, _, _, h⟩
    · obtain ⟨pri, q, h⟩ := exists_aged_foldl
        (k := { k with sched := { k.sched with boostTimer := 0 } }) k.schedCurrentTick
        (List.range k.sched.readyQueue.count)
      exact ⟨pri, q, 0, h⟩
  obtain ⟨pri, q, timer, h⟩ := hsome
  have hq : k.agedQueue = q := by rw [agedQueue, h, aged]
  exact ⟨pri, timer, hq ▸ h⟩

/-- The kernel with new priorities of the processes, a new scheduler state and the process of a pid
running. -/
def dispatched (k : Kernel) (pid : UInt32) (pri : Slot → UInt8) (sched : Sched) : Kernel :=
  { k with
    procs := { k.procs with pcb := fun i => { k.pcb i with
      priority := pri i
      state := if k.procs.fluxGetPcb pid = some i then .running else (k.pcb i).state } }
    sched }

/-- The last part of `flux_sched_dequeue`, with the new ready queue. -/
def dispatch (k : Kernel) (q : RingBuffer SchedEntry) (selected : SchedEntry) : UInt32 × Kernel :=
  let k := { k with sched := { k.sched with readyQueue := q } }
  match k.procs.fluxGetPcb selected.pid with
  | some i =>
    let k := k.modifyPcb i fun pcb => { pcb with state := .running }
    (selected.pid, { k with sched := { k.sched with currentTimeslice := selected.timeSlice.toUInt32 } })
  | none => (selected.pid, k)

theorem fluxSchedDequeue_of_pos (h : k.sched.readyQueue.count ≠ 0) : k.fluxSchedDequeue =
    k.schedAgePriorities.dispatch (schedRemove k.agedQueue (schedFindHighestPriority k.agedQueue))
      (k.agedQueue.slots (schedFindHighestPriority k.agedQueue)) := by
  unfold fluxSchedDequeue
  rw [if_neg h]
  rfl

theorem update_running (pcb : Slot → Pcb) (j : Slot) :
    Function.update pcb j { pcb j with state := .running } =
      fun i => { pcb i with state := if some j = some i then .running else (pcb i).state } := by
  funext i
  by_cases hij : i = j
  · rw [hij, Function.update_self, if_pos rfl]
  · rw [Function.update_of_ne hij, if_neg fun h => hij (Option.some.inj h).symm]

theorem exists_dispatched_dispatch (k : Kernel) (q : RingBuffer SchedEntry) (selected : SchedEntry) :
    (k.dispatch q selected).1 = selected.pid ∧ ∃ sched, sched.currentPid = k.sched.currentPid ∧
      (k.dispatch q selected).2 = k.dispatched selected.pid (fun i => (k.pcb i).priority) sched := by
  unfold dispatch dispatched
  dsimp only
  cases h : k.procs.fluxGetPcb selected.pid with
  | none =>
    dsimp only
    refine ⟨rfl, { k.sched with readyQueue := q }, rfl, ?_⟩
    simp only [reduceCtorEq, if_false]
    rfl
  | some j =>
    dsimp only
    refine ⟨rfl, { k.sched with readyQueue := q, currentTimeslice := selected.timeSlice.toUInt32 }, rfl, ?_⟩
    unfold modifyPcb ProcTable.modify
    dsimp only
    rw [update_running]
    rfl

/-- A dequeue changes priorities and sets the selected process running. -/
theorem exists_dispatched (k : Kernel) :
    ∃ pri sched, sched.currentPid = k.sched.currentPid ∧
      k.fluxSchedDequeue.2 = k.dispatched k.fluxSchedDequeue.1 pri sched := by
  by_cases hcount : k.sched.readyQueue.count = 0
  · refine ⟨fun i => (k.pcb i).priority, k.sched, rfl, ?_⟩
    rw [show k.fluxSchedDequeue = (fluxPidInvalid, k) from if_pos hcount]
    rfl
  · obtain ⟨pri, timer, haged⟩ := exists_aged k
    obtain ⟨hpid, sched, hsched, heq⟩ := exists_dispatched_dispatch k.schedAgePriorities
      (schedRemove k.agedQueue (schedFindHighestPriority k.agedQueue))
      (k.agedQueue.slots (schedFindHighestPriority k.agedQueue))
    rw [fluxSchedDequeue_of_pos hcount, heq, hpid]
    refine ⟨pri, sched, ?_, ?_⟩
    · rw [hsched, haged]
      rfl
    · rw [haged]
      rfl

/-! ## The scheduler loop -/

def tick (k : Kernel) : Kernel := { k with ks := { k.ks with tickCount := k.ks.tickCount + 1 } }

/-- The current process goes on. -/
def spendTick (k : Kernel) : Kernel :=
  let k := { k with sched := { k.sched with currentTimeslice := k.sched.currentTimeslice - 1 } }
  match k.procs.fluxGetPcb k.sched.currentPid with
  | some i => k.modifyPcb i fun pcb => { pcb with cpuTime := pcb.cpuTime + 1 }
  | none => k

/-- The current process is put back into the queue if it is running. -/
def requeueCurrent (k : Kernel) : Kernel :=
  if k.sched.currentPid ≠ fluxPidInvalid ∧ k.sched.currentPid ≠ fluxPidKernel then
    match k.procs.fluxGetPcb k.sched.currentPid with
    | some i => if (k.pcb i).state = .running then (k.fluxSchedEnqueue k.sched.currentPid).2 else k
    | none => k
  else k

/-- The dequeued process becomes the current one, or the kernel if there is none. -/
def switchTo (k : Kernel) (nextPid : UInt32) : Kernel :=
  if nextPid = fluxPidInvalid then
    { k with
      sched := { k.sched with currentPid := fluxPidKernel, currentTimeslice := 1 }
      ks := { k.ks with currentPid := fluxPidKernel } }
  else
    { k with
      sched := { k.sched with currentPid := nextPid }
      ks := { k.ks with currentPid := nextPid } }

/-- The time slice of the current process is not over. -/
def TimeLeft (k : Kernel) : Prop := k.sched.currentPid ≠ fluxPidInvalid ∧ k.sched.currentTimeslice > 0

instance : Decidable k.TimeLeft := inferInstanceAs (Decidable (_ ∧ _))

theorem schedIteration_eq (k : Kernel) : k.schedIteration =
    if k.TimeLeft then k.tick.spendTick
    else k.tick.requeueCurrent.fluxSchedDequeue.2.switchTo k.tick.requeueCurrent.fluxSchedDequeue.1 := rfl

/-! ## Processes stay in their slots -/

/-- The same processes live in the same slots. -/
structure SameProcesses (k k' : Kernel) : Prop where
  pid i : (k'.pcb i).pid = (k.pcb i).pid
  unused i : (k'.pcb i).state = .unused ↔ (k.pcb i).state = .unused
  isAgent i : (k'.pcb i).isAgent = (k.pcb i).isAgent
  activeCount : k'.procs.activeCount = k.procs.activeCount

namespace SameProcesses

theorem refl (k : Kernel) : SameProcesses k k :=
  ⟨fun _ => rfl, fun _ => Iff.rfl, fun _ => rfl, rfl⟩

theorem trans (h : SameProcesses k k') (h' : SameProcesses k' k'') : SameProcesses k k'' where
  pid i := (h'.pid i).trans (h.pid i)
  unused i := (h'.unused i).trans (h.unused i)
  isAgent i := (h'.isAgent i).trans (h.isAgent i)
  activeCount := h'.activeCount.trans h.activeCount

/-- Nothing but the process table matters. -/
theorem of_procs (h : k'.procs = k.procs) : SameProcesses k k' where
  pid i := by rw [pcb, h]; rfl
  unused i := by rw [pcb, h]; rfl
  isAgent i := by rw [pcb, h]; rfl
  activeCount := by rw [h]

/-- Lookups find the same slots. -/
theorem getPcb (h : SameProcesses k k') (pid : UInt32) :
    k'.procs.fluxGetPcb pid = k.procs.fluxGetPcb pid := by
  refine Option.ext fun i => ?_
  rw [fluxGetPcb_eq_some, fluxGetPcb_eq_some, ne_eq, h.unused]

theorem modifyPcb (hpid : (f (k.pcb i)).pid = (k.pcb i).pid)
    (hunused : (f (k.pcb i)).state = .unused ↔ (k.pcb i).state = .unused)
    (hagent : (f (k.pcb i)).isAgent = (k.pcb i).isAgent) : SameProcesses k (k.modifyPcb i f) where
  pid j := by
    rw [pcb_modifyPcb]
    split_ifs with hij
    · rw [hpid, hij]
    · rfl
  unused j := by
    rw [pcb_modifyPcb]
    split_ifs with hij
    · rw [hunused, hij]
    · rfl
  isAgent j := by
    rw [pcb_modifyPcb]
    split_ifs with hij
    · rw [hagent, hij]
    · rfl
  activeCount := rfl

/-- A process that lives gets another state. -/
theorem setState (hlive : (k.pcb i).state ≠ .unused) (hpid : (f (k.pcb i)).pid = (k.pcb i).pid)
    (hstate : (f (k.pcb i)).state ≠ .unused) (hagent : (f (k.pcb i)).isAgent = (k.pcb i).isAgent) :
    SameProcesses k (k.modifyPcb i f) :=
  modifyPcb hpid (iff_of_false hstate hlive) hagent

end SameProcesses

theorem sameProcesses_enqueue (pid : UInt32) : SameProcesses k (k.fluxSchedEnqueue pid).2 := by
  rcases fluxSchedEnqueue_cases k pid with ⟨h, -⟩ | ⟨i, -, -, -, h⟩
  · rw [h]
    exact SameProcesses.refl k
  · rw [h]
    refine (SameProcesses.modifyPcb (i := i) (f := wokenPcb) ?_ ?_ ?_).trans (SameProcesses.of_procs rfl)
    · unfold wokenPcb
      split_ifs <;> rfl
    · unfold wokenPcb
      split_ifs with hwake
      · rcases hwake with hwake | hwake <;> simp [hwake]
      · rfl
    · unfold wokenPcb
      split_ifs <;> rfl

theorem sameProcesses_dequeue : SameProcesses k k.fluxSchedDequeue.2 := by
  obtain ⟨pri, sched, -, h⟩ := exists_dispatched k
  rw [h]
  refine ⟨fun i => rfl, fun i => ?_, fun i => rfl, rfl⟩
  show (if k.procs.fluxGetPcb k.fluxSchedDequeue.1 = some i then ProcState.running
    else (k.pcb i).state) = .unused ↔ _
  split_ifs with hget
  · exact iff_of_false (by decide) (fluxGetPcb_eq_some.1 hget).2
  · rfl

theorem sameProcesses_switchTo (pid : UInt32) : SameProcesses k (k.switchTo pid) := by
  unfold switchTo
  split_ifs <;> exact SameProcesses.of_procs rfl

theorem sameProcesses_requeueCurrent : SameProcesses k k.requeueCurrent := by
  unfold requeueCurrent
  split_ifs
  · split
    · split_ifs
      · exact sameProcesses_enqueue _
      · exact SameProcesses.refl k
    · exact SameProcesses.refl k
  · exact SameProcesses.refl k

theorem sameProcesses_spendTick : SameProcesses k k.spendTick := by
  unfold spendTick
  dsimp only
  split
  · refine SameProcesses.trans ?_ (SameProcesses.modifyPcb rfl Iff.rfl rfl)
    exact SameProcesses.of_procs rfl
  · exact SameProcesses.of_procs rfl

theorem sameProcesses_iteration : SameProcesses k k.schedIteration := by
  have htick : SameProcesses k k.tick := SameProcesses.of_procs rfl
  rw [schedIteration_eq]
  split_ifs
  · exact htick.trans sameProcesses_spendTick
  · exact ((htick.trans sameProcesses_requeueCurrent).trans sameProcesses_dequeue).trans
      (sameProcesses_switchTo _)

/-! ## Yielding, waiting and messages -/

theorem sameProcesses_yield : SameProcesses k k.fluxYield.2 := by
  unfold fluxYield
  split_ifs
  · exact SameProcesses.refl k
  · split
    · exact SameProcesses.refl k
    · rename_i i _
      have hready : SameProcesses k (if (k.pcb i).state = .running then
          k.modifyPcb i fun pcb => { pcb with state := .ready } else k) := by
        split_ifs with hrun
        · exact SameProcesses.setState (by rw [hrun]; decide) rfl nofun rfl
        · exact SameProcesses.refl k
      exact (hready.trans (sameProcesses_enqueue _)).trans (SameProcesses.of_procs rfl)

/-- The current process starts to wait. -/
def blockCurrent (k : Kernel) (waitingFor : UInt32) : Kernel :=
  match k.procs.fluxGetPcb k.ks.currentPid with
  | some i => k.modifyPcb i fun pcb => { pcb with state := .blocked, waitingFor }
  | none => k

theorem blockCurrent_tick (waitingFor : UInt32) :
    (k.blockCurrent waitingFor).schedCurrentTick = k.schedCurrentTick := by
  unfold blockCurrent
  split <;> rfl

theorem sameProcesses_blockCurrent (waitingFor : UInt32) : SameProcesses k (k.blockCurrent waitingFor) := by
  unfold blockCurrent
  split
  · rename_i i hget
    exact SameProcesses.setState (fluxGetPcb_eq_some.1 hget).2 rfl nofun rfl
  · exact SameProcesses.refl k

theorem syscallWait_of_some {target : UInt32} (h : k.procs.fluxGetPcb target = some i) :
    k.syscallWait target = (.ok, k.blockCurrent target) := by
  unfold syscallWait
  rw [h]
  rfl

theorem syscallWait_of_none {target : UInt32} (h : k.procs.fluxGetPcb target = none) :
    k.syscallWait target = (.errNotfound, k) := by
  unfold syscallWait
  rw [h]

theorem sameProcesses_wait (target : UInt32) : SameProcesses k (k.syscallWait target).2 := by
  cases h : k.procs.fluxGetPcb target with
  | none =>
    rw [syscallWait_of_none h]
    exact SameProcesses.refl k
  | some i =>
    rw [syscallWait_of_some h]
    exact sameProcesses_blockCurrent target

/-- The part of `flux_a2a_send` that stores the message. -/
def storeMessage (k : Kernel) (j : Slot) (imsg : IpcMessage) (sender : UInt32) : Kernel :=
  let k := k.countMessage.modifyQueue j fun q => (q.ipcEnqueueMessage imsg).2
  match ipcGetQueue sender with
  | some s => k.modifyQueue s fun q => { q with totalSent := q.totalSent + 1 }
  | none => k

/-- The part of `flux_a2a_send` that wakes up the target. -/
def wakeTarget (k : Kernel) (i : Slot) (target : UInt32) : Kernel :=
  if (k.pcb i).state = .blocked ∨ (k.pcb i).state = .agentIdle then
    ((k.modifyPcb i fun pcb => { pcb with state := .ready, waitingFor := fluxPidInvalid }).fluxSchedEnqueue
      target).2
  else k

/-- What `flux_a2a_send` checks. -/
structure CanSend (k : Kernel) (target : UInt32) (msg : List UInt8) (i j : Slot) : Prop where
  length : msg.length ≠ 0 ∧ msg.length ≤ fluxIpcMaxPayload
  sender : k.ks.currentPid ≠ fluxPidInvalid
  capability : k.ipcCheckCapability k.ks.currentPid = true
  pcb : k.procs.fluxGetPcb target = some i
  queue : ipcGetQueue target = some j
  room : (k.ipc.queues j).isFull = false

theorem fluxA2aSend_of_canSend {target : UInt32} {msg : List UInt8} (h : k.CanSend target msg i j) :
    k.fluxA2aSend target msg =
      (.ok, (k.storeMessage j (k.buildMessage k.ks.currentPid target msg) k.ks.currentPid).wakeTarget i
        target) := by
  have htarget : target ≠ fluxPidInvalid := by
    rintro rfl
    exact absurd h.pcb nofun
  unfold fluxA2aSend
  rw [if_neg (by have := h.length; omega), if_neg htarget]
  dsimp only
  rw [if_neg h.sender, h.capability, h.pcb, h.queue]
  dsimp only
  rw [h.room]
  rfl

/-- A send fails and changes nothing, or stores the message and wakes up the target. -/
theorem fluxA2aSend_cases (k : Kernel) (target : UInt32) (msg : List UInt8) :
    ((k.fluxA2aSend target msg).1 ≠ .ok ∧ (k.fluxA2aSend target msg).2 = k ∧
      ∀ i j, ¬k.CanSend target msg i j) ∨ ∃ i j, k.CanSend target msg i j := by
  by_cases h : ∃ i j, k.CanSend target msg i j
  · exact Or.inr h
  refine Or.inl ?_
  have hnone (i j : Slot) (hc : k.CanSend target msg i j) : False := h ⟨i, j, hc⟩
  suffices (k.fluxA2aSend target msg).1 ≠ .ok ∧ (k.fluxA2aSend target msg).2 = k from
    ⟨this.1, this.2, hnone⟩
  unfold fluxA2aSend
  dsimp only
  split_ifs with hlength htarget hsender hcap
  · exact ⟨nofun, rfl⟩
  · exact ⟨nofun, rfl⟩
  · exact ⟨nofun, rfl⟩
  · exact ⟨nofun, rfl⟩
  · split
    · rename_i i j hi hj
      cases hfull : (k.ipc.queues j).isFull with
      | true => exact ⟨nofun, rfl⟩
      | false =>
        exact (hnone i j ⟨⟨by omega, by omega⟩, hsender, by simpa using hcap, hi, hj, hfull⟩).elim
    · exact ⟨nofun, rfl⟩

theorem storeMessage_procs {imsg : IpcMessage} {sender : UInt32} :
    (k.storeMessage j imsg sender).procs = k.procs := by
  unfold storeMessage
  dsimp only
  split <;> rfl

theorem sameProcesses_wakeTarget {target : UInt32} : SameProcesses k (k.wakeTarget i target) := by
  unfold wakeTarget
  split_ifs with hwake
  · refine (SameProcesses.setState ?_ rfl ?_ rfl).trans (sameProcesses_enqueue target)
    · rcases hwake with hwake | hwake <;> rw [hwake] <;> decide
    · exact nofun
  · exact SameProcesses.refl k

theorem sameProcesses_send (target : UInt32) (msg : List UInt8) :
    SameProcesses k (k.fluxA2aSend target msg).2 := by
  rcases fluxA2aSend_cases k target msg with ⟨-, h, -⟩ | ⟨i, j, h⟩
  · rw [h]
    exact SameProcesses.refl k
  · rw [fluxA2aSend_of_canSend h]
    exact (SameProcesses.of_procs storeMessage_procs).trans sameProcesses_wakeTarget

/-! ## Terminating -/

/-- A kill fails and changes nothing, or ends the process that the pid stands for. -/
theorem fluxKill_cases (k : Kernel) (pid : UInt32) :
    ((k.fluxKill pid).2 = k ∧ (pid = fluxPidKernel ∨ k.procs.usedSlot pid = none)) ∨
      ∃ i, k.procs.usedSlot pid = some i ∧ pid ≠ fluxPidKernel ∧ (k.fluxKill pid).2 = k.removeProcess i := by
  unfold fluxKill
  split_ifs with hpid
  · refine Or.inl ⟨rfl, ?_⟩
    rcases hpid with rfl | hkernel
    · exact Or.inr rfl
    · exact Or.inl hkernel
  · cases hi : k.procs.usedSlot pid with
    | none => exact Or.inl ⟨rfl, Or.inr rfl⟩
    | some i => exact Or.inr ⟨i, rfl, (not_or.1 hpid).2, rfl⟩

/-- The process in slot `i` before it is cleaned up by its exit. -/
def dying (k : Kernel) (i : Slot) : Kernel :=
  (k.modifyPcb i fun pcb => { pcb with state := .zombie }).wakeParent (k.pcb i).parentPid k.ks.currentPid

/-- The state that the exit of the process in slot `i` leaves. -/
def exited (k : Kernel) (i : Slot) : Kernel := ((k.dying i).removeProcess i).fluxSchedYieldCurrent

/-- An exit fails and changes nothing, or ends the process that the current pid stands for. -/
theorem fluxExit_cases {r : FluxStatus × Kernel} (hr : k.fluxExit = some r) :
    (k.procs.usedSlot k.ks.currentPid = none ∧ r.2 = k) ∨
      ∃ i, k.procs.usedSlot k.ks.currentPid = some i ∧ k.ks.currentPid ≠ fluxPidKernel ∧ r.2 = k.exited i := by
  unfold fluxExit at hr
  dsimp only at hr
  split_ifs at hr with hzero hkernel
  · cases hr
    rw [hzero]
    exact Or.inl ⟨rfl, rfl⟩
  · cases hi : k.procs.usedSlot k.ks.currentPid with
    | none =>
      rw [hi] at hr
      cases hr
      exact Or.inl ⟨rfl, rfl⟩
    | some i =>
      rw [hi] at hr
      dsimp only at hr
      rw [pcb_modifyPcb_self] at hr
      cases hr
      exact Or.inr ⟨i, rfl, hkernel, rfl⟩

/-- The process in slot `j` waits for the current one, and is its parent. -/
def WokenByExit (k : Kernel) (i j : Slot) : Prop := j ≠ i ∧ slotOf (k.pcb i).parentPid = some j ∧
  ((k.pcb j).state = .blocked ∨ (k.pcb j).state = .agentIdle) ∧ (k.pcb j).waitingFor = k.ks.currentPid

instance : Decidable (k.WokenByExit i j) := inferInstanceAs (Decidable (_ ∧ _))

theorem wakeParent_cases (k : Kernel) (parent pid : UInt32) :
    (k.wakeParent parent pid = k ∧ ∀ j, slotOf parent = some j →
      (k.pcb j).state = .blocked ∨ (k.pcb j).state = .agentIdle → (k.pcb j).waitingFor ≠ pid) ∨
    ∃ j, slotOf parent = some j ∧ ((k.pcb j).state = .blocked ∨ (k.pcb j).state = .agentIdle) ∧
      (k.pcb j).waitingFor = pid ∧ k.wakeParent parent pid =
        k.modifyPcb j fun pcb => { pcb with state := .ready, waitingFor := fluxPidInvalid } := by
  unfold wakeParent
  split_ifs with hzero
  · rw [hzero]
    exact Or.inl ⟨rfl, nofun⟩
  · cases hj : slotOf parent with
    | none => exact Or.inl ⟨rfl, nofun⟩
    | some j =>
      dsimp only
      split_ifs with hwake
      · exact Or.inr ⟨j, rfl, hwake.1, hwake.2, rfl⟩
      · refine Or.inl ⟨rfl, fun j' hj' hwaits hfor => ?_⟩
        cases hj'
        exact hwake ⟨hwaits, hfor⟩

/-- The exit cleans up the process and wakes up its parent if that waits for it. -/
theorem pcb_exited : (k.exited i).pcb j =
    if j = i then ProcTable.cleanedPcb (k.pcb i)
    else if k.WokenByExit i j then { k.pcb j with state := .ready, waitingFor := fluxPidInvalid }
    else k.pcb j := by
  have hzombie (j : Slot) (hj : j ≠ i) : (k.modifyPcb i fun pcb => { pcb with state := .zombie }).pcb j =
      k.pcb j := pcb_modifyPcb_of_ne hj
  have hself : (k.exited i).pcb i = ProcTable.cleanedPcb ((k.dying i).pcb i) := Function.update_self ..
  have hother (j : Slot) (hj : j ≠ i) : (k.exited i).pcb j = (k.dying i).pcb j := Function.update_of_ne hj ..
  rcases wakeParent_cases (k.modifyPcb i fun pcb => { pcb with state := .zombie }) (k.pcb i).parentPid
    k.ks.currentPid with ⟨heq, hnone⟩ | ⟨m, hm, hwaits, hfor, heq⟩
  · have hdying : k.dying i = k.modifyPcb i fun pcb => { pcb with state := .zombie } := heq
    by_cases hj : j = i
    · rw [if_pos hj, hj, hself, hdying, pcb_modifyPcb_self]
      rfl
    · rw [if_neg hj, if_neg, hother j hj, hdying, hzombie j hj]
      rintro ⟨-, hslot, hwaits, hfor⟩
      refine hnone j hslot ?_ ?_
      · rwa [hzombie j hj]
      · rwa [hzombie j hj]
  · have hmi : m ≠ i := by
      rintro rfl
      rw [pcb_modifyPcb_self] at hwaits
      rcases hwaits with hs | hs <;> cases hs
    have hdying : k.dying i = (k.modifyPcb i fun pcb => { pcb with state := .zombie }).modifyPcb m fun pcb =>
      { pcb with state := .ready, waitingFor := fluxPidInvalid } := heq
    rw [hzombie m hmi] at hwaits hfor
    by_cases hj : j = i
    · rw [if_pos hj, hj, hself, hdying, pcb_modifyPcb_of_ne (Ne.symm hmi), pcb_modifyPcb_self]
      rfl
    · rw [if_neg hj, hother j hj, hdying]
      by_cases hjm : j = m
      · rw [hjm, if_pos ⟨hmi, hm, hwaits, hfor⟩, pcb_modifyPcb_self, hzombie m hmi]
      · rw [if_neg fun h => hjm (Option.some.inj (h.2.1.symm.trans hm)), pcb_modifyPcb_of_ne hjm, hzombie j hj]

/-- Nothing but the process table and the current process changes. -/
theorem frame_exited : (k.exited i).sched.readyQueue = k.sched.readyQueue ∧ (k.exited i).ipc = k.ipc ∧
    (k.exited i).heap = k.heap ∧ (k.exited i).ks.currentPid = k.ks.currentPid := by
  rcases wakeParent_cases (k.modifyPcb i fun pcb => { pcb with state := .zombie }) (k.pcb i).parentPid
    k.ks.currentPid with ⟨heq, -⟩ | ⟨m, -, -, -, heq⟩
  · unfold exited dying
    rw [heq]
    exact ⟨rfl, rfl, rfl, rfl⟩
  · unfold exited dying
    rw [heq]
    exact ⟨rfl, rfl, rfl, rfl⟩

theorem sameProcesses_dying (hi : (k.pcb i).state ≠ .unused) : SameProcesses k (k.dying i) := by
  have hzombie : SameProcesses k (k.modifyPcb i fun pcb => { pcb with state := .zombie }) :=
    SameProcesses.setState hi rfl nofun rfl
  unfold dying
  rcases wakeParent_cases (k.modifyPcb i fun pcb => { pcb with state := .zombie }) (k.pcb i).parentPid
    k.ks.currentPid with ⟨heq, -⟩ | ⟨m, -, hwaits, -, heq⟩
  · rw [heq]
    exact hzombie
  · rw [heq]
    refine hzombie.trans (SameProcesses.setState ?_ rfl nofun rfl)
    rcases hwaits with hs | hs <;> rw [hs] <;> exact nofun

/-! ## Receiving -/

/-- A receive fails, takes a message or starts to wait. -/
theorem fluxA2aRecv_cases (k : Kernel) (filter : UInt32) (len timeout : UInt64) :
    ((∃ status, k.fluxA2aRecv filter len timeout = (.done status none, k)) ∧
      ∀ j, ipcGetQueue k.ks.currentPid = some j → (k.ipc.queues j).findMessage filter = none) ∨
    (∃ j n, ipcGetQueue k.ks.currentPid = some j ∧ (k.ipc.queues j).findMessage filter = some n ∧
      k.fluxA2aRecv filter len timeout =
        (.done .ok (some (k.takeMessage j n len).1), (k.takeMessage j n len).2)) ∨
    ∃ j, ipcGetQueue k.ks.currentPid = some j ∧ (k.ipc.queues j).findMessage filter = none ∧ timeout ≠ 0 ∧
      k.fluxA2aRecv filter len timeout =
        (.waiting ⟨k.ks.currentPid, j, k.procs.fluxGetPcb k.ks.currentPid, filter, len, timeout,
          k.schedCurrentTick⟩, k.blockCurrent filter) := by
  unfold fluxA2aRecv
  dsimp only
  by_cases hpid : k.ks.currentPid = fluxPidInvalid
  · rw [if_pos hpid, hpid]
    exact Or.inl ⟨⟨_, rfl⟩, nofun⟩
  rw [if_neg hpid]
  cases hj : ipcGetQueue k.ks.currentPid with
  | none => exact Or.inl ⟨⟨_, rfl⟩, nofun⟩
  | some j =>
    dsimp only
    cases hn : (k.ipc.queues j).findMessage filter with
    | some n => exact Or.inr (Or.inl ⟨j, n, rfl, hn, rfl⟩)
    | none =>
      dsimp only
      by_cases htimeout : timeout = 0
      · rw [if_pos htimeout]
        exact Or.inl ⟨⟨_, rfl⟩, fun j' hj' => Option.some.inj hj' ▸ hn⟩
      · rw [if_neg htimeout]
        refine Or.inr (Or.inr ⟨j, rfl, hn, htimeout, ?_⟩)
        rw [← blockCurrent_tick (k := k) filter]
        rfl

theorem sameProcesses_takeMessage (n : Nat) (len : UInt64) : SameProcesses k (k.takeMessage j n len).2 :=
  SameProcesses.of_procs rfl

theorem sameProcesses_recv (filter : UInt32) (len timeout : UInt64) :
    SameProcesses k (k.fluxA2aRecv filter len timeout).2 := by
  rcases fluxA2aRecv_cases k filter len timeout with ⟨⟨_, h⟩, -⟩ | ⟨j, n, -, -, h⟩ | ⟨j, -, -, -, h⟩
  · rw [h]
    exact SameProcesses.refl k
  · rw [h]
    exact sameProcesses_takeMessage n len
  · rw [h]
    exact sameProcesses_blockCurrent filter

/-- A receive that has waited too long. -/
def expire (k : Kernel) (r : Receive) : Kernel :=
  match r.pcb with
  | some i =>
    if (k.pcb i).state = .blocked then
      ((k.modifyPcb i fun pcb => { pcb with state := .ready, waitingFor := fluxPidInvalid }).fluxSchedEnqueue
        r.pid).2
    else k
  | none => k

/-- A receive that gets a message while it waits. -/
def resume (k : Kernel) (r : Receive) : Kernel :=
  match r.pcb with
  | some i => k.modifyPcb i fun pcb => { pcb with state := .running, waitingFor := fluxPidInvalid }
  | none => k

/-- The number of the message that a receive in its loop takes. -/
def awaited (k : Kernel) (r : Receive) : Option Nat :=
  ((k.ipc.queues r.queue).ipcPeekMessage r.filter).bind (k.ipc.queues r.queue).numberOfSlot

/-- The time of a receive is over. -/
def Expired (k : Kernel) (r : Receive) : Prop :=
  r.timeout ≠ fluxIpcTimeoutInfinite ∧ k.schedCurrentTick - r.start ≥ r.timeout

/-- A round of the loop gives up, takes a message or goes on. -/
theorem recvPoll_cases (k : Kernel) (r : Receive) :
    (k.Expired r ∧ k.recvPoll r = (.done .errTimeout none, k.expire r)) ∨
    ¬k.Expired r ∧ ((∃ n, k.awaited r = some n ∧ k.recvPoll r =
      (.done .ok (some (k.takeMessage r.queue n r.len).1), (k.takeMessage r.queue n r.len).2.resume r)) ∨
    k.awaited r = none ∧ k.recvPoll r = (.waiting r, k)) := by
  unfold recvPoll
  split_ifs with htime
  · exact Or.inl ⟨htime, rfl⟩
  · refine Or.inr ⟨htime, ?_⟩
    cases hn : k.awaited r with
    | some n =>
      refine Or.inl ⟨n, rfl, ?_⟩
      rw [show ((k.ipc.queues r.queue).ipcPeekMessage r.filter).bind
        (k.ipc.queues r.queue).numberOfSlot = some n from hn]
      rfl
    | none =>
      refine Or.inr ⟨rfl, ?_⟩
      rw [show ((k.ipc.queues r.queue).ipcPeekMessage r.filter).bind
        (k.ipc.queues r.queue).numberOfSlot = none from hn]

/-! ## Broadcasting -/

/-- The part of `flux_a2a_broadcast` that wakes up an agent. -/
def wakeAgent (k : Kernel) (i : Slot) (pid : UInt32) : Kernel :=
  if (k.pcb i).state = .agentIdle then
    ((k.modifyPcb i fun pcb => { pcb with state := .ready }).fluxSchedEnqueue pid).2
  else k

theorem broadcastVisit_cases (sender : UInt32) (bmsg : IpcMessage) (k : Kernel) (pid : UInt32) :
    (broadcastVisit sender bmsg k pid = k ∧ ∀ i j, k.procs.fluxGetPcb pid = some i →
      (k.pcb i).isAgent = true → pid ≠ sender → ipcGetQueue pid ≠ some j) ∨
    ∃ i j, k.procs.fluxGetPcb pid = some i ∧ (k.pcb i).isAgent = true ∧ pid ≠ sender ∧
      ipcGetQueue pid = some j ∧
      ((k.ipc.queues j).isFull = true ∧ broadcastVisit sender bmsg k pid =
        k.modifyQueue j (fun q => { q with dropped := q.dropped + 1 }) ∨
      (k.ipc.queues j).isFull = false ∧ broadcastVisit sender bmsg k pid =
        (k.modifyQueue j fun q => (q.ipcEnqueueMessage bmsg).2).wakeAgent i pid) := by
  unfold broadcastVisit
  cases hi : k.procs.fluxGetPcb pid with
  | none => exact Or.inl ⟨rfl, nofun⟩
  | some i =>
    dsimp only
    cases hagent : (k.pcb i).isAgent with
    | false =>
      refine Or.inl ⟨rfl, fun i' j hi' hagent' => ?_⟩
      rw [← Option.some.inj hi', hagent] at hagent'
      exact absurd hagent' nofun
    | true =>
      rw [if_neg (by decide)]
      split_ifs with hself
      · exact Or.inl ⟨rfl, fun _ _ _ _ hne => absurd hself hne⟩
      cases hj : ipcGetQueue pid with
      | none => exact Or.inl ⟨rfl, fun _ _ _ _ _ => nofun⟩
      | some j =>
        refine Or.inr ⟨i, j, rfl, hagent, hself, rfl, ?_⟩
        cases hfull : (k.ipc.queues j).isFull with
        | true => exact Or.inl ⟨rfl, by dsimp only; rw [if_pos hfull]⟩
        | false =>
          refine Or.inr ⟨rfl, ?_⟩
          dsimp only
          rw [if_neg (by rw [hfull]; decide)]
          rfl

theorem sameProcesses_wakeAgent : SameProcesses k (k.wakeAgent i pid) := by
  unfold wakeAgent
  split_ifs with hidle
  · refine (SameProcesses.setState ?_ rfl ?_ rfl).trans (sameProcesses_enqueue pid)
    · rw [hidle]
      decide
    · exact nofun
  · exact SameProcesses.refl k

theorem sameProcesses_broadcastVisit (sender : UInt32) (bmsg : IpcMessage) (pid : UInt32) :
    SameProcesses k (broadcastVisit sender bmsg k pid) := by
  rcases broadcastVisit_cases sender bmsg k pid with ⟨h, -⟩ | ⟨i, j, -, -, -, -, ⟨-, h⟩ | ⟨-, h⟩⟩
  · rw [h]
    exact SameProcesses.refl k
  · rw [h]
    exact SameProcesses.of_procs rfl
  · rw [h]
    refine SameProcesses.trans ?_ sameProcesses_wakeAgent
    exact SameProcesses.of_procs rfl

/-- What `flux_a2a_broadcast` checks. -/
structure CanBroadcast (k : Kernel) (msg : List UInt8) : Prop where
  length : msg.length ≠ 0 ∧ msg.length ≤ fluxIpcMaxPayload
  sender : k.ks.currentPid ≠ fluxPidInvalid
  capability : k.ipcCheckCapability k.ks.currentPid = true

/-- The state that a broadcast leaves. -/
def broadcastAll (k : Kernel) (msg : List UInt8) : Kernel :=
  broadcastPids.foldl
    (broadcastVisit k.ks.currentPid (k.buildMessage k.ks.currentPid fluxPidInvalid msg)) k.countMessage

theorem fluxA2aBroadcast_of_can {msg : List UInt8} (h : k.CanBroadcast msg) :
    k.fluxA2aBroadcast msg = (.ok, k.broadcastAll msg) := by
  unfold fluxA2aBroadcast broadcastAll
  rw [if_neg (by have := h.length; omega)]
  dsimp only
  rw [if_neg h.sender, h.capability]
  rfl

/-- A broadcast fails and changes nothing, or visits all pids. -/
theorem fluxA2aBroadcast_cases (k : Kernel) (msg : List UInt8) :
    ((k.fluxA2aBroadcast msg).1 ≠ .ok ∧ (k.fluxA2aBroadcast msg).2 = k ∧ ¬k.CanBroadcast msg) ∨
      k.CanBroadcast msg := by
  by_cases h : k.CanBroadcast msg
  · exact Or.inr h
  suffices (k.fluxA2aBroadcast msg).1 ≠ .ok ∧ (k.fluxA2aBroadcast msg).2 = k from
    Or.inl ⟨this.1, this.2, h⟩
  unfold fluxA2aBroadcast
  by_cases hlength : msg.length = 0 ∨ msg.length > fluxIpcMaxPayload
  · rw [if_pos hlength]
    exact ⟨nofun, rfl⟩
  rw [if_neg hlength]
  dsimp only
  by_cases hsender : k.ks.currentPid = fluxPidInvalid
  · rw [if_pos hsender]
    exact ⟨nofun, rfl⟩
  rw [if_neg hsender]
  cases hcap : k.ipcCheckCapability k.ks.currentPid with
  | false => exact ⟨nofun, rfl⟩
  | true => exact (h ⟨⟨by omega, by omega⟩, hsender, hcap⟩).elim

/-- A broadcast keeps what counting the message and each visit keep. -/
theorem broadcast_keeps {P : Kernel → Prop} (hk : P k) (hcount : P k.countMessage)
    (hvisit : ∀ k' sender bmsg pid, P k' → P (broadcastVisit sender bmsg k' pid)) (msg : List UInt8) :
    P (k.fluxA2aBroadcast msg).2 := by
  rcases fluxA2aBroadcast_cases k msg with ⟨-, h, -⟩ | h
  · rw [h]
    exact hk
  · rw [fluxA2aBroadcast_of_can h]
    dsimp only [broadcastAll]
    generalize broadcastPids = pids
    exact List.foldlRecOn pids _ hcount fun k' hk' pid _ => hvisit k' _ _ pid hk'

theorem sameProcesses_broadcast (msg : List UInt8) : SameProcesses k (k.fluxA2aBroadcast msg).2 :=
  broadcast_keeps (P := SameProcesses k) (SameProcesses.refl k) (SameProcesses.of_procs rfl)
    (fun _ sender bmsg pid h => h.trans (sameProcesses_broadcastVisit sender bmsg pid)) msg

/-! ## The heap and the clock -/

/-- Neither the heap nor the clock changes. -/
structure SameBase (k k' : Kernel) : Prop where
  heap : k'.heap = k.heap
  tickCount : k'.ks.tickCount = k.ks.tickCount

theorem SameBase.refl (k : Kernel) : SameBase k k := ⟨rfl, rfl⟩

theorem SameBase.trans (h : SameBase k k') (h' : SameBase k' k'') : SameBase k k'' :=
  ⟨h'.heap.trans h.heap, h'.tickCount.trans h.tickCount⟩

theorem base_modifyPcb : SameBase k (k.modifyPcb i f) := ⟨rfl, rfl⟩

theorem base_enqueue (pid : UInt32) : SameBase k (k.fluxSchedEnqueue pid).2 := by
  rcases fluxSchedEnqueue_cases k pid with ⟨h, -⟩ | ⟨i, -, -, -, h⟩
  · rw [h]
    exact .refl k
  · rw [h]
    exact ⟨rfl, rfl⟩

theorem base_dequeue : SameBase k k.fluxSchedDequeue.2 := by
  obtain ⟨pri, sched, -, h⟩ := exists_dispatched k
  rw [h]
  exact ⟨rfl, rfl⟩

theorem base_spendTick : SameBase k k.spendTick := by
  unfold spendTick
  dsimp only
  split <;> exact ⟨rfl, rfl⟩

theorem base_requeueCurrent : SameBase k k.requeueCurrent := by
  unfold requeueCurrent
  split_ifs
  · split
    · split_ifs
      · exact base_enqueue _
      · exact .refl k
    · exact .refl k
  · exact .refl k

theorem base_switchTo (pid : UInt32) : SameBase k (k.switchTo pid) := by
  unfold switchTo
  split_ifs <;> exact ⟨rfl, rfl⟩

/-- An iteration of the scheduler is one tick. -/
theorem base_iteration : SameBase k.tick k.schedIteration := by
  rw [schedIteration_eq]
  split_ifs
  · exact base_spendTick
  · exact (base_requeueCurrent.trans base_dequeue).trans (base_switchTo _)

theorem base_kill (pid : UInt32) : SameBase k (k.fluxKill pid).2 := by
  rcases k.fluxKill_cases pid with ⟨h, -⟩ | ⟨i, -, -, h⟩
  · rw [h]
    exact .refl k
  · rw [h]
    exact ⟨rfl, rfl⟩

theorem base_exit {r : FluxStatus × Kernel} (hr : k.fluxExit = some r) : SameBase k r.2 := by
  rcases fluxExit_cases hr with ⟨-, h⟩ | ⟨i, -, -, h⟩
  · rw [h]
    exact .refl k
  · rw [h]
    unfold exited dying
    rcases wakeParent_cases (k.modifyPcb i fun pcb => { pcb with state := .zombie }) (k.pcb i).parentPid
      k.ks.currentPid with ⟨heq, -⟩ | ⟨m, -, -, -, heq⟩
    · rw [heq]
      exact ⟨rfl, rfl⟩
    · rw [heq]
      exact ⟨rfl, rfl⟩

theorem base_yield : SameBase k k.fluxYield.2 := by
  unfold fluxYield
  split_ifs
  · exact .refl k
  · split
    · exact .refl k
    · rename_i i _
      have hready : SameBase k (if (k.pcb i).state = .running then
          k.modifyPcb i fun pcb => { pcb with state := .ready } else k) := by
        split_ifs <;> exact ⟨rfl, rfl⟩
      exact (hready.trans (base_enqueue _)).trans ⟨rfl, rfl⟩

theorem base_blockCurrent (waitingFor : UInt32) : SameBase k (k.blockCurrent waitingFor) := by
  unfold blockCurrent
  split <;> exact ⟨rfl, rfl⟩

theorem base_wait (target : UInt32) : SameBase k (k.syscallWait target).2 := by
  cases h : k.procs.fluxGetPcb target with
  | none =>
    rw [syscallWait_of_none h]
    exact .refl k
  | some i =>
    rw [syscallWait_of_some h]
    exact base_blockCurrent target

theorem base_send (target : UInt32) (msg : List UInt8) : SameBase k (k.fluxA2aSend target msg).2 := by
  rcases fluxA2aSend_cases k target msg with ⟨-, h, -⟩ | ⟨i, j, h⟩
  · rw [h]
    exact .refl k
  · rw [fluxA2aSend_of_canSend h]
    have hstore (imsg : IpcMessage) : SameBase k (k.storeMessage j imsg k.ks.currentPid) := by
      unfold storeMessage
      dsimp only
      split <;> exact ⟨rfl, rfl⟩
    dsimp only
    unfold wakeTarget
    split_ifs
    · exact ((hstore _).trans base_modifyPcb).trans (base_enqueue _)
    · exact hstore _

theorem base_recv (filter : UInt32) (len timeout : UInt64) :
    SameBase k (k.fluxA2aRecv filter len timeout).2 := by
  rcases fluxA2aRecv_cases k filter len timeout with ⟨⟨_, h⟩, -⟩ | ⟨j, n, -, -, h⟩ | ⟨j, -, -, -, h⟩
  · rw [h]
    exact .refl k
  · rw [h]
    exact ⟨rfl, rfl⟩
  · rw [h]
    exact base_blockCurrent filter

theorem base_poll (r : Receive) : SameBase k (k.recvPoll r).2 := by
  rcases recvPoll_cases k r with ⟨-, h⟩ | ⟨-, ⟨n, -, h⟩ | ⟨-, h⟩⟩
  · rw [h]
    dsimp only [expire]
    split
    · split_ifs
      · exact base_modifyPcb.trans (base_enqueue _)
      · exact .refl k
    · exact .refl k
  · rw [h]
    dsimp only [resume]
    split <;> exact ⟨rfl, rfl⟩
  · rw [h]
    exact .refl k

theorem base_broadcastVisit (sender : UInt32) (bmsg : IpcMessage) (pid : UInt32) :
    SameBase k (broadcastVisit sender bmsg k pid) := by
  rcases broadcastVisit_cases sender bmsg k pid with ⟨h, -⟩ | ⟨i, j, -, -, -, -, ⟨-, h⟩ | ⟨-, h⟩⟩
  · rw [h]
    exact .refl k
  · rw [h]
    exact ⟨rfl, rfl⟩
  · rw [h]
    unfold wakeAgent
    split_ifs
    · have hqueue : SameBase k (k.modifyQueue j fun q => (q.ipcEnqueueMessage bmsg).2) := ⟨rfl, rfl⟩
      exact (hqueue.trans base_modifyPcb).trans (base_enqueue _)
    · exact ⟨rfl, rfl⟩

theorem base_broadcast (msg : List UInt8) : SameBase k (k.fluxA2aBroadcast msg).2 :=
  broadcast_keeps (P := SameBase k) (.refl k) ⟨rfl, rfl⟩
    (fun _ sender bmsg pid h => h.trans (base_broadcastVisit sender bmsg pid)) msg

end Kernel

end FluxOs
