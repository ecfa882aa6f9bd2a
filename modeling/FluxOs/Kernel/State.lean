import FluxOs.Kernel.Mem
import FluxOs.Lib.Rings
import FluxOs.Vm.State

/-!
# The kernel state

The process table of `proc.c`, the ready queue of `sched.c`, the message queues of `ipc.c` and the boot
state of `kernel.h`, with the heap.  Names, registers, page tables and the counters that only the dumps
print are left out.
-/

namespace FluxOs

open Rings

/-! ## Processes -/

abbrev fluxMaxProcesses : Nat := 256

def fluxPidFirstApp : UInt32 := 2

def fluxStackSizeDefault : UInt64 := 64 * 1024

def fluxStackSizeMin : UInt64 := 4 * 1024

def fluxCapSpawn : UInt64 := 0x1

def fluxCapCommunicate : UInt64 := 0x2

def fluxCapCompile : UInt64 := 0x4

def fluxCapIoRead : UInt64 := 0x8

def fluxCapIoWrite : UInt64 := 0x10

def fluxCapHardware : UInt64 := 0x40

def fluxCapSupervisor : UInt64 := 0x400

def fluxCapAll : UInt64 := 0xFFFFFFFFFFFFFFFF

def fluxMemBytecode : UInt32 := 4

def fluxMemAgent : UInt32 := 5

/-- `FLUX_PERM_RW`. -/
def fluxPermRw : UInt32 := 3

/-- `flux_proc_state_t`. -/
inductive ProcState
  | unused | ready | running | blocked | zombie | agentIdle | agentThinking | compiled
  deriving DecidableEq, Repr

/-- The bytecode execution state of a process. -/
structure BcState where
  active : Bool
  bytecodeBase : UInt64
  bytecodeLen : UInt64
  pc : UInt64
  deriving DecidableEq

/-- `flux_pcb_t`. -/
structure Pcb where
  pid : UInt32
  parentPid : UInt32
  state : ProcState
  priority : UInt8
  cpuTime : UInt64
  createTime : UInt64
  capabilities : UInt64
  memPermissions : UInt32
  stackPtr : UInt64
  instrPtr : UInt64
  agentId : UInt32
  isAgent : Bool
  isCompiled : Bool
  bc : BcState
  waitingFor : UInt32
  deriving DecidableEq

/-- A cleared `flux_pcb_t`. -/
def Pcb.zero : Pcb where
  pid := 0
  parentPid := 0
  state := .unused
  priority := 0
  cpuTime := 0
  createTime := 0
  capabilities := 0
  memPermissions := 0
  stackPtr := 0
  instrPtr := 0
  agentId := 0
  isAgent := false
  isCompiled := false
  bc := ⟨false, 0, 0, 0⟩
  waitingFor := 0

instance : NeZero fluxMaxProcesses := ⟨by decide⟩

/-- An index of `s_pcb_table`. -/
abbrev Slot := Fin fluxMaxProcesses

/-- The static variables of `proc.c`. -/
structure ProcTable where
  pcb : Slot → Pcb
  nextPid : UInt32
  activeCount : UInt32
  agentCount : UInt32

/-! ## Scheduler -/

def fluxSchedQueueSize : Nat := 256

def fluxSchedDefaultTimeslice : UInt64 := 10

def fluxSchedAgentThinkBonus : UInt64 := 20

def fluxSchedPriorityBoostInterval : UInt64 := 1000

def fluxSchedPriorityBoostAmount : UInt8 := 10

def fluxSchedMaxPriorityBoost : UInt8 := 200

/-- `sched_entry_t`. -/
structure SchedEntry where
  pid : UInt32
  priority : UInt8
  waitStart : UInt64
  timeSlice : UInt64
  isAgentThinking : Bool
  deriving DecidableEq

/-- The static variables of `sched.c`. -/
structure Sched where
  readyQueue : RingBuffer SchedEntry
  currentPid : UInt32
  currentTimeslice : UInt32
  boostTimer : UInt32
  defaultTimeslice : UInt64

/-! ## Messages -/

def fluxIpcQueueDepth : Nat := 64

def fluxIpcMaxPayload : Nat := 4096

def fluxIpcTimeoutInfinite : UInt64 := 0xFFFFFFFF

/-- `ipc_message_t`; the payload is the list of its `payload_len` bytes. -/
structure IpcMessage where
  msgId : UInt32
  sender : UInt32
  target : UInt32
  senderCaps : UInt64
  sendTick : UInt64
  payload : List UInt8
  deriving DecidableEq

/-- `ipc_queue_t`. -/
structure IpcQueue where
  messages : RingBuffer IpcMessage
  totalSent : UInt32
  totalRecv : UInt32
  dropped : UInt32

/-- The static variables of `ipc.c`. -/
structure Ipc where
  queues : Slot → IpcQueue
  globalMsgId : UInt32

/-! ## The kernel -/

/-- The fields of `flux_kernel_state_t` that the process functions use. -/
structure KernelState where
  numProcesses : UInt32
  nextPid : UInt32
  currentPid : UInt32
  tickCount : UInt32
  syscallCount : UInt32

structure Kernel where
  procs : ProcTable
  sched : Sched
  ipc : Ipc
  ks : KernelState
  heap : MemHeap

end FluxOs
