import FluxOs.Kernel.State

/-!
# The scheduler

The lookup of a process by its pid and the functions of `kernel/sched.c`: the ready queue with priority
aging, and one iteration of the scheduler loop.
-/

namespace FluxOs

open Rings

/-! ## Looking up a process -/

/-- `proc_pid_to_index`: the remainder of a signed division. -/
def procPidToIndex (pid : UInt32) : Int :=
  if pid = fluxPidInvalid then -1 else (pid - 1).toBitVec.toInt.tmod fluxMaxProcesses

theorem procPidToIndex_lt (pid : UInt32) : procPidToIndex pid < fluxMaxProcesses := by
  unfold procPidToIndex
  split_ifs
  · decide
  · exact Int.tmod_lt_of_pos _ (by decide)

/-- The slot of a pid, if its index is not negative. -/
def slotOf (pid : UInt32) : Option Slot :=
  if h : 0 ≤ procPidToIndex pid then
    some ⟨(procPidToIndex pid).toNat, by have := procPidToIndex_lt pid; omega⟩
  else none

namespace ProcTable

variable (t : ProcTable)

/-- Change the process in a slot. -/
def modify (i : Slot) (f : Pcb → Pcb) : ProcTable :=
  { t with pcb := Function.update t.pcb i (f (t.pcb i)) }

/-- The slot of the process that a function other than `flux_get_pcb` acts on. -/
def usedSlot (pid : UInt32) : Option Slot :=
  (slotOf pid).filter fun i => (t.pcb i).state ≠ .unused

/-- `flux_get_pcb`. -/
def fluxGetPcb (pid : UInt32) : Option Slot :=
  if pid = fluxPidInvalid then none else t.usedSlot pid

end ProcTable

namespace Kernel

variable (k : Kernel)

/-- The process in a slot. -/
def pcb (i : Slot) : Pcb := k.procs.pcb i

/-- Change the process in a slot. -/
def modifyPcb (i : Slot) (f : Pcb → Pcb) : Kernel := { k with procs := k.procs.modify i f }

/-! ## The ready queue -/

/-- `sched_current_tick`. -/
def schedCurrentTick : UInt64 := k.ks.tickCount.toUInt64

/-- `sched_find_highest_priority` on a queue that is not empty: the slot of the best entry. -/
def schedFindHighestPriority (q : RingBuffer SchedEntry) : Nat :=
  ((List.range q.count).foldl (fun best i =>
    let idx := q.index fluxSchedQueueSize i
    let pri := (q.slots idx).priority
    if pri > best.2 then (idx, pri) else best) (q.head, (q.slots q.head).priority)).1

/-- Whether an entry has waited too long and is not boosted to the maximum. -/
def starves (now : UInt64) (entry : SchedEntry) : Bool :=
  now - entry.waitStart > fluxSchedPriorityBoostInterval && entry.priority < fluxSchedMaxPriorityBoost

def boostedPriority (priority : UInt8) : UInt8 :=
  let priority := priority + fluxSchedPriorityBoostAmount
  if priority > fluxSchedMaxPriorityBoost then fluxSchedMaxPriorityBoost else priority

/-- What `sched_age_priorities` makes of an entry. -/
def agedEntry (now : UInt64) (entry : SchedEntry) : SchedEntry :=
  if starves now entry then { entry with priority := boostedPriority entry.priority } else entry

/-- The body of the loop of `sched_age_priorities` for the entry number `i`. -/
def ageVisit (now : UInt64) (k : Kernel) (i : Nat) : Kernel :=
  let q := k.sched.readyQueue
  let idx := q.index fluxSchedQueueSize i
  let entry := q.slots idx
  let k := { k with sched := { k.sched with
    readyQueue := { q with slots := Function.update q.slots idx (agedEntry now entry) } } }
  if starves now entry then
    match k.procs.fluxGetPcb entry.pid with
    | some j => k.modifyPcb j fun pcb => { pcb with priority := boostedPriority entry.priority }
    | none => k
  else k

/-- `sched_age_priorities`. -/
def schedAgePriorities : Kernel :=
  let boostTimer := k.sched.boostTimer + 1
  let k := { k with sched := { k.sched with boostTimer } }
  if boostTimer.toUInt64 < fluxSchedPriorityBoostInterval then k
  else
    let k := { k with sched := { k.sched with boostTimer := 0 } }
    (List.range k.sched.readyQueue.count).foldl (ageVisit k.schedCurrentTick) k

/-- `flux_sched_enqueue`. -/
def fluxSchedEnqueue (pid : UInt32) : FluxStatus × Kernel :=
  let q := k.sched.readyQueue
  if pid = fluxPidInvalid then (.errInvalid, k)
  else if (q.contents fluxSchedQueueSize).any fun entry => entry.pid = pid then (.ok, k)
  else if q.count ≥ fluxSchedQueueSize then (.errOverflow, k)
  else
    match k.procs.fluxGetPcb pid with
    | none => (.errNotfound, k)
    | some i =>
      let pcb := k.pcb i
      let isAgentThinking := pcb.isAgent && pcb.state = .agentThinking
      let entry := {
        pid
        priority := pcb.priority
        waitStart := k.schedCurrentTick
        timeSlice := if isAgentThinking then k.sched.defaultTimeslice + fluxSchedAgentThinkBonus
          else k.sched.defaultTimeslice
        isAgentThinking }
      let k := { k with sched := { k.sched with readyQueue := q.push fluxSchedQueueSize entry } }
      (.ok, if pcb.state = .blocked ∨ pcb.state = .agentIdle then
        k.modifyPcb i fun pcb => { pcb with state := .ready }
      else k)

/-- The removal of the entry in slot `best` in `flux_sched_dequeue`. -/
def schedRemove (q : RingBuffer SchedEntry) (best : Nat) : RingBuffer SchedEntry :=
  if best = q.head then q.popHead fluxSchedQueueSize
  else
    let countToMove : Int := (q.count : Int) - ((best : Int) - q.head + 1)
    q.closeGap fluxSchedQueueSize best countToMove.toNat

/-- `flux_sched_dequeue`. -/
def fluxSchedDequeue : UInt32 × Kernel :=
  if k.sched.readyQueue.count = 0 then (fluxPidInvalid, k)
  else
    let k := k.schedAgePriorities
    let q := k.sched.readyQueue
    let best := schedFindHighestPriority q
    let selected := q.slots best
    let k := { k with sched := { k.sched with readyQueue := schedRemove q best } }
    match k.procs.fluxGetPcb selected.pid with
    | some i =>
      let k := k.modifyPcb i fun pcb => { pcb with state := .running }
      (selected.pid, { k with sched := { k.sched with currentTimeslice := selected.timeSlice.toUInt32 } })
    | none => (selected.pid, k)

/-- `flux_sched_yield_current`. -/
def fluxSchedYieldCurrent : Kernel := { k with sched := { k.sched with currentPid := fluxPidInvalid } }

/-! ## The scheduler loop -/

/-- One iteration of `flux_sched_run`. -/
def schedIteration : Kernel :=
  let k := { k with ks := { k.ks with tickCount := k.ks.tickCount + 1 } }
  if k.sched.currentPid ≠ fluxPidInvalid ∧ k.sched.currentTimeslice > 0 then
    let k := { k with sched := { k.sched with currentTimeslice := k.sched.currentTimeslice - 1 } }
    match k.procs.fluxGetPcb k.sched.currentPid with
    | some i => k.modifyPcb i fun pcb => { pcb with cpuTime := pcb.cpuTime + 1 }
    | none => k
  else
    let prevPid := k.sched.currentPid
    let k :=
      if prevPid ≠ fluxPidInvalid ∧ prevPid ≠ fluxPidKernel then
        match k.procs.fluxGetPcb prevPid with
        | some i => if (k.pcb i).state = .running then (k.fluxSchedEnqueue prevPid).2 else k
        | none => k
      else k
    let (nextPid, k) := k.fluxSchedDequeue
    if nextPid = fluxPidInvalid then
      { k with
        sched := { k.sched with currentPid := fluxPidKernel, currentTimeslice := 1 }
        ks := { k.ks with currentPid := fluxPidKernel } }
    else
      { k with
        sched := { k.sched with currentPid := nextPid }
        ks := { k.ks with currentPid := nextPid } }

end Kernel

end FluxOs
