import FluxOs.Kernel.Sched

/-!
# Processes

The functions of `kernel/proc.c`: pid allocation, spawning, termination and yielding.
-/

namespace FluxOs

namespace ProcTable

variable (t : ProcTable)

/-! ## Pid allocation -/

/-- `s_next_pid` after the candidate `pid`. -/
def nextCandidate (pid : UInt32) : UInt32 :=
  if pid + 1 ≤ fluxPidKernel then fluxPidFirstApp else pid + 1

/-- The loop of `proc_allocate_pid`, with its remaining iterations. -/
def allocateFrom : Nat → ProcTable → UInt32 × ProcTable
  | 0, t => (fluxPidInvalid, t)
  | fuel + 1, t =>
    let candidate := t.nextPid
    if candidate ≤ fluxPidKernel then allocateFrom fuel { t with nextPid := fluxPidFirstApp }
    else
      match slotOf candidate with
      | some i =>
        if (t.pcb i).state = .unused then (candidate, { t with nextPid := nextCandidate candidate })
        else allocateFrom fuel { t with nextPid := nextCandidate candidate }
      | none => allocateFrom fuel { t with nextPid := nextCandidate candidate }

/-- `proc_allocate_pid`. -/
def procAllocatePid : UInt32 × ProcTable := allocateFrom fluxMaxProcesses t

/-- `proc_find_unused_slot`. -/
def procFindUnusedSlot : Option Slot :=
  (List.finRange fluxMaxProcesses).find? fun i => (t.pcb i).state = .unused

/-- The pid that `flux_spawn` takes: the next free one, or the one of the first free slot. -/
def spawnPid : Option UInt32 × ProcTable :=
  let (pid, t) := t.procAllocatePid
  if pid = fluxPidInvalid then
    (t.procFindUnusedSlot.map fun slot => UInt32.ofNat (slot.val + 1), t)
  else (some pid, t)

/-! ## Cleaning up -/

/-- What `proc_cleanup` makes of a process. -/
def cleanedPcb (pcb : Pcb) : Pcb :=
  { pcb with
    stackPtr := 0
    bc := if pcb.bc.active then ⟨false, 0, 0, 0⟩ else pcb.bc
    isAgent := false
    state := .unused
    pid := fluxPidInvalid
    waitingFor := fluxPidInvalid }

/-- `proc_cleanup`. -/
def procCleanup (i : Slot) : ProcTable :=
  let agentCount := if (t.pcb i).isAgent then t.agentCount - 1 else t.agentCount
  { t.modify i cleanedPcb with agentCount, activeCount := t.activeCount - 1 }

/-- `flux_proc_set_state`. -/
def fluxProcSetState (pid : UInt32) (newState : ProcState) : FluxStatus × ProcTable :=
  if pid = fluxPidInvalid then (.errInvalid, t)
  else
    match t.usedSlot pid with
    | some i => (.ok, t.modify i fun pcb => { pcb with state := newState })
    | none => (.errNotfound, t)

/-- `flux_proc_set_priority`. -/
def fluxProcSetPriority (pid : UInt32) (priority : UInt8) : FluxStatus × ProcTable :=
  if pid = fluxPidInvalid then (.errInvalid, t)
  else
    match t.usedSlot pid with
    | some i => (.ok, t.modify i fun pcb => { pcb with priority })
    | none => (.errNotfound, t)

end ProcTable

namespace Kernel

variable (k : Kernel)

/-! ## Initialisation -/

/-- The process that `flux_proc_init` creates. -/
def kernelPcb : Pcb :=
  { Pcb.zero with
    pid := fluxPidKernel
    state := .running
    priority := 255
    capabilities := fluxCapAll
    memPermissions := fluxPermRwx }

/-- `flux_proc_init`. -/
def fluxProcInit : Kernel :=
  { k with
    procs := {
      pcb := fun i => if i.val = 0 then kernelPcb else Pcb.zero
      nextPid := fluxPidFirstApp
      activeCount := 1
      agentCount := 0 }
    ks := { k.ks with numProcesses := 1, currentPid := fluxPidKernel, nextPid := fluxPidFirstApp } }

/-- `flux_sched_init`. -/
def fluxSchedInit : Kernel :=
  { k with sched := {
      readyQueue := ⟨fun _ => ⟨0, 0, 0, 0, false⟩, 0, 0, 0⟩
      currentPid := fluxPidKernel
      currentTimeslice := 0
      boostTimer := 0
      defaultTimeslice := fluxSchedDefaultTimeslice } }

/-! ## Spawning -/

/-- The process that `flux_spawn` creates. -/
def spawnedPcb (pid : UInt32) (entry stackTop : UInt64) (isAgent : Bool) : Pcb :=
  { Pcb.zero with
    pid
    parentPid := k.ks.currentPid
    state := .ready
    priority := 128
    createTime := k.ks.tickCount.toUInt64
    capabilities := fluxCapSpawn ||| fluxCapCommunicate
    memPermissions := if isAgent then fluxPermRw else fluxPermRwx
    stackPtr := stackTop
    instrPtr := entry
    agentId := if isAgent then pid else 0
    isAgent }

/-- The size of the stack that `flux_spawn` allocates. -/
def spawnStackSize (stackSize : UInt64) : UInt64 :=
  let stackSize := if stackSize = 0 then fluxStackSizeDefault else stackSize
  if stackSize < fluxStackSizeMin then fluxStackSizeMin else stackSize

/-- The part of `flux_spawn` after its allocations. -/
def installPcb (i : Slot) (pcb : Pcb) : Kernel :=
  let procs := { k.procs.modify i fun _ => pcb with
    agentCount := if pcb.isAgent then k.procs.agentCount + 1 else k.procs.agentCount
    activeCount := k.procs.activeCount + 1 }
  let k := { k with
    procs
    ks := { k.ks with numProcesses := procs.activeCount, nextPid := procs.nextPid } }
  (k.fluxSchedEnqueue pcb.pid).2

/-- `flux_spawn`; the pid 0 is a failure. -/
def fluxSpawn (entry stackSize : UInt64) (isAgent : Bool) : Option (UInt32 × Kernel) :=
  if k.procs.activeCount.toNat ≥ fluxMaxProcesses then some (fluxPidInvalid, k)
  else
    let stackSize := spawnStackSize stackSize
    match k.procs.spawnPid with
    | (none, procs) => some (fluxPidInvalid, { k with procs })
    | (some pid, procs) =>
      let k := { k with procs }
      match slotOf pid with
      | none => some (fluxPidInvalid, k)
      | some i =>
        (k.heap.fluxAlloc stackSize (if isAgent then fluxMemAgent else fluxMemKernel) k.ks.currentPid).map
          fun r =>
            let k := { k with heap := r.2 }
            if r.1 = 0 then (fluxPidInvalid, k)
            else (pid, k.installPcb i (k.spawnedPcb pid entry (r.1 + stackSize) isAgent))

/-! ## Termination -/

/-- Wake the parent of a process that exits, if it waits for it. -/
def wakeParent (parentPid pid : UInt32) : Kernel :=
  if parentPid = fluxPidInvalid then k
  else
    match slotOf parentPid with
    | some i =>
      let parent := k.pcb i
      if (parent.state = .blocked ∨ parent.state = .agentIdle) ∧ parent.waitingFor = pid then
        k.modifyPcb i fun pcb => { pcb with state := .ready, waitingFor := fluxPidInvalid }
      else k
    | none => k

/-- Clean up the process in a slot and count the processes. -/
def removeProcess (i : Slot) : Kernel :=
  let procs := k.procs.procCleanup i
  { k with procs, ks := { k.ks with numProcesses := procs.activeCount } }

/-- `flux_exit`; it does not return if the kernel process exits. -/
def fluxExit : Option (FluxStatus × Kernel) :=
  let pid := k.ks.currentPid
  if pid = fluxPidInvalid then some (.errInvalid, k)
  else if pid = fluxPidKernel then none
  else
    match k.procs.usedSlot pid with
    | none => some (.errInvalid, k)
    | some i =>
      let k := k.modifyPcb i fun pcb => { pcb with state := .zombie }
      let k := k.wakeParent (k.pcb i).parentPid pid
      some (.ok, (k.removeProcess i).fluxSchedYieldCurrent)

/-- `flux_kill`. -/
def fluxKill (pid : UInt32) : FluxStatus × Kernel :=
  if pid = fluxPidInvalid ∨ pid = fluxPidKernel then (.errDenied, k)
  else
    match k.procs.usedSlot pid with
    | none => (.errNotfound, k)
    | some i => (.ok, k.removeProcess i)

/-! ## Yielding -/

/-- `flux_yield`. -/
def fluxYield : FluxStatus × Kernel :=
  if k.ks.currentPid = fluxPidInvalid then (.errInvalid, k)
  else
    match slotOf k.ks.currentPid with
    | none => (.errInvalid, k)
    | some i =>
      let k := if (k.pcb i).state = .running then k.modifyPcb i fun pcb => { pcb with state := .ready } else k
      (.ok, (k.fluxSchedEnqueue k.ks.currentPid).2.fluxSchedYieldCurrent)

end Kernel

end FluxOs
