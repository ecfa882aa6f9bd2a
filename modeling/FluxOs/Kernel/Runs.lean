import FluxOs.Kernel.HeapRuns
import FluxOs.Kernel.Ipc
import FluxOs.Lib.Actions

/-!
# Runs of the kernel

The operations of the kernel on processes, messages and the heap as actions of one machine, from the state
after the boot.  A receive that waits takes one round of its loop at a time.
-/

namespace FluxOs

open Rings Actions

/-- The kernel, with the receives that wait. -/
structure System where
  kernel : Kernel
  receives : List Receive

/-- A call of an operation of the kernel by the current process, or a round of a loop. -/
inductive Action
  | spawn (entry stackSize : UInt64) (isAgent : Bool)
  | exit
  | kill (pid : UInt32)
  | yield
  | wait (target : UInt32)
  | send (target : UInt32) (msg : List UInt8)
  | recv (filter : UInt32) (len timeout : UInt64)
  | poll (r : Receive)
  | broadcast (msg : List UInt8)
  | enqueue (pid : UInt32)
  | dequeue
  | schedule
  | alloc (size : UInt64) (type : UInt32)
  | free (p : UInt64)
  deriving DecidableEq

namespace RecvOutcome

/-- The receives that wait after the first part of `flux_a2a_recv`. -/
def enter (receives : List Receive) : RecvOutcome → List Receive
  | .done .. => receives
  | .waiting r => r :: receives

/-- The receives that wait after a round of the loop of `r`. -/
def leave (r : Receive) (receives : List Receive) : RecvOutcome → List Receive
  | .done .. => receives.erase r
  | .waiting _ => receives

end RecvOutcome

namespace System

variable (s : System)

def withKernel (k : Kernel) : System := { s with kernel := k }

/-- One action.  It is not possible if the code faults or panics there. -/
def step : Action → System → Option System
  | .spawn entry stackSize isAgent, s =>
    (s.kernel.fluxSpawn entry stackSize isAgent).map fun r => s.withKernel r.2
  | .exit, s => s.kernel.fluxExit.map fun r => s.withKernel r.2
  | .kill pid, s => some (s.withKernel (s.kernel.fluxKill pid).2)
  | .yield, s => some (s.withKernel s.kernel.fluxYield.2)
  | .wait target, s => some (s.withKernel (s.kernel.syscallWait target).2)
  | .send target msg, s => some (s.withKernel (s.kernel.fluxA2aSend target msg).2)
  | .recv filter len timeout, s =>
    let r := s.kernel.fluxA2aRecv filter len timeout
    some ⟨r.2, r.1.enter s.receives⟩
  | .poll p, s =>
    if p ∈ s.receives then
      let r := s.kernel.recvPoll p
      some ⟨r.2, r.1.leave p s.receives⟩
    else none
  | .broadcast msg, s => some (s.withKernel (s.kernel.fluxA2aBroadcast msg).2)
  | .enqueue pid, s => some (s.withKernel (s.kernel.fluxSchedEnqueue pid).2)
  | .dequeue, s => some (s.withKernel s.kernel.fluxSchedDequeue.2)
  | .schedule, s => some (s.withKernel s.kernel.schedIteration)
  | .alloc size type, s =>
    (s.kernel.heap.fluxAlloc size type s.kernel.ks.currentPid).map fun r =>
      s.withKernel { s.kernel with heap := r.2 }
  | .free p, s => (s.kernel.heap.fluxFree p).map fun heap => s.withKernel { s.kernel with heap }

/-- A round of a receive is possible while it waits. -/
theorem step_poll_eq_some {s t : System} {r : Receive} : s.step (.poll r) = some t ↔
    r ∈ s.receives ∧ t = ⟨(s.kernel.recvPoll r).2, (s.kernel.recvPoll r).1.leave r s.receives⟩ := by
  show (if r ∈ s.receives then some _ else none) = some t ↔ _
  split_ifs with hr
  · rw [Option.some.injEq, eq_comm, and_iff_right hr]
  · exact iff_of_false nofun fun h => hr h.1

end System

/-- The kernel before its initialisation, with all static variables cleared. -/
def clearedKernel (heap : MemHeap) : Kernel where
  procs := ⟨fun _ => Pcb.zero, 0, 0, 0⟩
  sched := ⟨⟨fun _ => ⟨0, 0, 0, 0, false⟩, 0, 0, 0⟩, 0, 0, 0, 0⟩
  ipc := ⟨fun _ => ⟨⟨fun _ => ⟨0, 0, 0, 0, 0, []⟩, 0, 0, 0⟩, 0, 0, 0⟩, 0⟩
  ks := ⟨0, 0, 0, 0, 0⟩
  heap := heap

/-- The kernel after `init_subsystems`. -/
def bootKernel : Kernel := (clearedKernel bootHeap).fluxProcInit.fluxIpcInit.fluxSchedInit

def bootSystem : System := ⟨bootKernel, []⟩

/-- The states that a run with the allowed actions reaches. -/
def System.Reachable (allowed : Action → System → Prop) (s : System) : Prop :=
  Reaches System.step allowed bootSystem s

end FluxOs
