import FluxOs.Kernel.Proc

/-!
# Messages

The functions of `kernel/ipc.c`.  A receive that blocks is a value of its own, `Receive`, which holds the
local variables of the waiting loop; `recvPoll` is one iteration of that loop, so that anything may happen
between two of them.
-/

namespace FluxOs

open Rings

/-- `ipc_get_queue`. -/
def ipcGetQueue (pid : UInt32) : Option Slot :=
  if h : pid.toNat = 0 ∨ pid.toNat > fluxMaxProcesses then none
  else some ⟨pid.toNat - 1, by omega⟩

namespace IpcQueue

variable (q : IpcQueue)

/-- `ipc_queue_is_full`. -/
def isFull : Bool := q.messages.count ≥ fluxIpcQueueDepth

/-- `ipc_enqueue_message`. -/
def ipcEnqueueMessage (msg : IpcMessage) : FluxStatus × IpcQueue :=
  if q.isFull then (.errOverflow, { q with dropped := q.dropped + 1 })
  else
    (.ok, { q with messages := q.messages.push fluxIpcQueueDepth msg, totalRecv := q.totalRecv + 1 })

/-- `ipc_remove_message`. -/
def ipcRemoveMessage (msgIndex : Nat) : FluxStatus × IpcQueue :=
  let r := q.messages
  if msgIndex ≥ r.count then (.errInvalid, q)
  else
    (.ok, { q with
      messages := r.closeGap fluxIpcQueueDepth (r.head + msgIndex) (r.count - 1 - msgIndex) })

/-- The search at the start of `flux_a2a_recv`: the number of the message. -/
def findMessage (filter : UInt32) : Option Nat :=
  if filter ≠ fluxPidInvalid then
    (List.range q.messages.count).find? fun i =>
      (q.messages.slots (q.messages.index fluxIpcQueueDepth i)).sender = filter
  else if q.messages.count > 0 then some 0 else none

/-- `ipc_peek_message`: the slot of the message. -/
def ipcPeekMessage (sender : UInt32) : Option Nat :=
  if q.messages.count = 0 then none
  else if sender = fluxPidInvalid then some q.messages.head
  else
    ((List.range q.messages.count).map (q.messages.index fluxIpcQueueDepth)).find? fun idx =>
      (q.messages.slots idx).sender = sender

/-- The search for the number of the message in a slot, in the waiting loop of `flux_a2a_recv`. -/
def numberOfSlot (slot : Nat) : Option Nat :=
  (List.range q.messages.count).find? fun i => q.messages.index fluxIpcQueueDepth i = slot

end IpcQueue

/-- What a receive returns with `FLUX_OK`. -/
structure Received where
  payload : List UInt8
  len : Nat
  sender : UInt32
  deriving DecidableEq

/-- Copy a message to a buffer of `len` bytes. -/
def IpcMessage.deliver (msg : IpcMessage) (len : UInt64) : Received where
  payload := msg.payload.take len.toNat
  len := msg.payload.length
  sender := msg.sender

/-- The local variables of a receive that waits. -/
structure Receive where
  pid : UInt32
  queue : Slot
  pcb : Option Slot
  filter : UInt32
  len : UInt64
  timeout : UInt64
  start : UInt64
  deriving DecidableEq

/-- What a receive does: it returns or goes on waiting. -/
inductive RecvOutcome
  | done (status : FluxStatus) (received : Option Received)
  | waiting (r : Receive)
  deriving DecidableEq

namespace Kernel

variable (k : Kernel)

/-- Change a message queue. -/
def modifyQueue (j : Slot) (f : IpcQueue → IpcQueue) : Kernel :=
  { k with ipc := { k.ipc with queues := Function.update k.ipc.queues j (f (k.ipc.queues j)) } }

/-- `ipc_check_capability`. -/
def ipcCheckCapability (sender : UInt32) : Bool :=
  match k.procs.fluxGetPcb sender with
  | some i => (k.pcb i).capabilities &&& fluxCapCommunicate ≠ 0
  | none => false

/-- The message that `flux_a2a_send` and `flux_a2a_broadcast` build. -/
def buildMessage (sender target : UInt32) (payload : List UInt8) : IpcMessage where
  msgId := k.ipc.globalMsgId
  sender := sender
  target := target
  senderCaps :=
    match k.procs.fluxGetPcb sender with
    | some i => (k.pcb i).capabilities
    | none => 0
  sendTick := k.schedCurrentTick
  payload := payload

/-- `ipc_alloc_msg_id`. -/
def countMessage : Kernel := { k with ipc := { k.ipc with globalMsgId := k.ipc.globalMsgId + 1 } }

/-! ## Sending -/

/-- `flux_a2a_send`; a message that is `NULL` is an empty one here. -/
def fluxA2aSend (target : UInt32) (msg : List UInt8) : FluxStatus × Kernel :=
  if msg.length = 0 ∨ msg.length > fluxIpcMaxPayload then (.errInvalid, k)
  else if target = fluxPidInvalid then (.errInvalid, k)
  else
    let sender := k.ks.currentPid
    if sender = fluxPidInvalid then (.errInvalid, k)
    else if !k.ipcCheckCapability sender then (.errDenied, k)
    else
      match k.procs.fluxGetPcb target, ipcGetQueue target with
      | some i, some j =>
        if (k.ipc.queues j).isFull then (.errOverflow, k)
        else
          let imsg := k.buildMessage sender target msg
          let k := k.countMessage
          let k := k.modifyQueue j fun q => (q.ipcEnqueueMessage imsg).2
          let k :=
            match ipcGetQueue sender with
            | some s => k.modifyQueue s fun q => { q with totalSent := q.totalSent + 1 }
            | none => k
          (.ok,
            if (k.pcb i).state = .blocked ∨ (k.pcb i).state = .agentIdle then
              let k := k.modifyPcb i fun pcb => { pcb with state := .ready, waitingFor := fluxPidInvalid }
              (k.fluxSchedEnqueue target).2
            else k)
      | _, _ => (.errNotfound, k)

/-! ## Receiving -/

/-- Remove the message number `i` from a queue and copy it to the caller. -/
def takeMessage (j : Slot) (i : Nat) (len : UInt64) : Received × Kernel :=
  let q := k.ipc.queues j
  ((q.messages.entry fluxIpcQueueDepth i).deliver len, k.modifyQueue j fun q => (q.ipcRemoveMessage i).2)

/-- `flux_a2a_recv` until it returns or starts to wait. -/
def fluxA2aRecv (filter : UInt32) (len timeout : UInt64) : RecvOutcome × Kernel :=
  let myPid := k.ks.currentPid
  if myPid = fluxPidInvalid then (.done .errInvalid none, k)
  else
    match ipcGetQueue myPid with
    | none => (.done .errInvalid none, k)
    | some j =>
      match (k.ipc.queues j).findMessage filter with
      | some i =>
        let (received, k) := k.takeMessage j i len
        (.done .ok received, k)
      | none =>
        if timeout = 0 then (.done .errTimeout none, k)
        else
          let myPcb := k.procs.fluxGetPcb myPid
          let k :=
            match myPcb with
            | some i => k.modifyPcb i fun pcb => { pcb with state := .blocked, waitingFor := filter }
            | none => k
          (.waiting ⟨myPid, j, myPcb, filter, len, timeout, k.schedCurrentTick⟩, k)

/-- One iteration of the waiting loop of `flux_a2a_recv`. -/
def recvPoll (r : Receive) : RecvOutcome × Kernel :=
  if r.timeout ≠ fluxIpcTimeoutInfinite ∧ k.schedCurrentTick - r.start ≥ r.timeout then
    (.done .errTimeout none,
      match r.pcb with
      | some i =>
        if (k.pcb i).state = .blocked then
          let k := k.modifyPcb i fun pcb => { pcb with state := .ready, waitingFor := fluxPidInvalid }
          (k.fluxSchedEnqueue r.pid).2
        else k
      | none => k)
  else
    match ((k.ipc.queues r.queue).ipcPeekMessage r.filter).bind (k.ipc.queues r.queue).numberOfSlot with
    | some i =>
      let (received, k) := k.takeMessage r.queue i r.len
      (.done .ok received,
        match r.pcb with
        | some i => k.modifyPcb i fun pcb => { pcb with state := .running, waitingFor := fluxPidInvalid }
        | none => k)
    | none => (.waiting r, k)

/-! ## Broadcast -/

/-- The body of the loop of `flux_a2a_broadcast`. -/
def broadcastVisit (sender : UInt32) (bmsg : IpcMessage) (k : Kernel) (pid : UInt32) : Kernel :=
  match k.procs.fluxGetPcb pid with
  | none => k
  | some i =>
    if !(k.pcb i).isAgent then k
    else if pid = sender then k
    else
      match ipcGetQueue pid with
      | none => k
      | some j =>
        if (k.ipc.queues j).isFull then k.modifyQueue j fun q => { q with dropped := q.dropped + 1 }
        else
          let k := k.modifyQueue j fun q => (q.ipcEnqueueMessage bmsg).2
          if (k.pcb i).state = .agentIdle then
            let k := k.modifyPcb i fun pcb => { pcb with state := .ready }
            (k.fluxSchedEnqueue pid).2
          else k

/-- The pids from `FLUX_PID_FIRST_APP` to 256. -/
def broadcastPids : List UInt32 := (List.range (fluxMaxProcesses - 1)).map fun i => UInt32.ofNat (i + 2)

/-- `flux_a2a_broadcast`. -/
def fluxA2aBroadcast (msg : List UInt8) : FluxStatus × Kernel :=
  if msg.length = 0 ∨ msg.length > fluxIpcMaxPayload then (.errInvalid, k)
  else
    let sender := k.ks.currentPid
    if sender = fluxPidInvalid then (.errInvalid, k)
    else if !k.ipcCheckCapability sender then (.errDenied, k)
    else
      let bmsg := k.buildMessage sender fluxPidInvalid msg
      (.ok, broadcastPids.foldl (broadcastVisit sender bmsg) k.countMessage)

/-- `flux_ipc_init`. -/
def fluxIpcInit : Kernel :=
  { k with ipc := { queues := fun _ => ⟨⟨fun _ => ⟨0, 0, 0, 0, 0, []⟩, 0, 0, 0⟩, 0, 0, 0⟩, globalMsgId := 0 } }

/-! ## Waiting for a process -/

/-- The case `FLUX_SYSCALL_WAIT` of `handle_process_syscall`. -/
def syscallWait (target : UInt32) : FluxStatus × Kernel :=
  match k.procs.fluxGetPcb target with
  | none => (.errNotfound, k)
  | some _ =>
    (.ok,
      match k.procs.fluxGetPcb k.ks.currentPid with
      | some i => k.modifyPcb i fun pcb => { pcb with state := .blocked, waitingFor := target }
      | none => k)

end Kernel

end FluxOs
