import FluxOs.Agent.State

/-!
# Agent-to-agent messages

The functions of `agent/a2a.c`.  An argument `mem` says whether the host has memory for a message when the
pool is exhausted.  All five functions that build a message allocate it, fill it in, put it in an inbox and
free it again if the inbox is full: this is `post`.

A receive that waits is a value of its own, `A2aReceive`, which holds the local variables of the waiting
loop.  The loop takes the lock twice in a round, to look for a message and to mark the agent as waiting, and
anything may happen in between.
-/

namespace FluxOs

open Rings

/-! ## The messages that are built -/

/-- The message of `flux_a2a_send`. -/
def sendMsg (now : UInt64) (sender target : UInt32) (type : A2aType) (payload : List UInt8)
    (id : UInt32) : A2aMsg :=
  { A2aMsg.zero with msgId := id, type, sender, target, timestamp := now, payload }

/-- The message of `flux_a2a_broadcast`. -/
def eventMsg (now : UInt64) (sender target : UInt32) (topic : CString) (payload : List UInt8)
    (id : UInt32) : A2aMsg :=
  { A2aMsg.zero with
    msgId := id
    type := .event
    sender
    target
    timestamp := now
    priority := 1
    topic := topic.toBuffer fluxA2aMaxTopic
    payload }

/-- The message of `flux_a2a_reply`: the agent that replies is the target of the original. -/
def replyMsg (now : UInt64) (original : A2aMsg) (payload : List UInt8) (id : UInt32) : A2aMsg :=
  { A2aMsg.zero with
    msgId := id
    replyTo := original.msgId
    type := .reply
    sender := original.target
    target := original.sender
    timestamp := now
    deadline := original.deadline
    priority := original.priority
    topic := original.topic
    payload }

/-- The message of `flux_a2a_delegate`. -/
def delegateMsg (now : UInt64) (source target : UInt32) (task : List UInt8) (id : UInt32) : A2aMsg :=
  { A2aMsg.zero with
    msgId := id
    type := .delegate
    sender := source
    target
    timestamp := now
    priority := 2
    payload := task }

/-- The message of `flux_a2a_delegate_result`. -/
def resultMsg (now : UInt64) (worker delegator delegateMsgId : UInt32) (result : List UInt8)
    (id : UInt32) : A2aMsg :=
  { A2aMsg.zero with
    msgId := id
    replyTo := delegateMsgId
    type := .result
    sender := worker
    target := delegator
    timestamp := now
    priority := 2
    payload := result }

/-! ## The message pool -/

namespace MsgPool

variable (p : MsgPool)

/-- The message is marked as allocated, or lives on the heap. -/
def Allocated : MsgRef → Bool
  | .pool k => p.allocated k
  | .heap n => (p.heap n).isSome

/-- `*msg`. -/
def read : MsgRef → A2aMsg
  | .pool k => p.messages k
  | .heap n => (p.heap n).getD .zero

/-- `*msg = m`. -/
def write (ref : MsgRef) (m : A2aMsg) : MsgPool :=
  match ref with
  | .pool k => { p with messages := Function.update p.messages k m }
  | .heap n => { p with heap := Function.update p.heap n (some m) }

/-- The first free slot of the pool. -/
def freeSlot : Option (Fin fluxMsgPoolSize) := (List.finRange fluxMsgPoolSize).find? fun k => !p.allocated k

/-- `msg_pool_alloc`. -/
def msgPoolAlloc (mem : Bool) : Option (MsgRef × MsgPool) :=
  match p.freeSlot with
  | some k => some (.pool k, { p with
      allocated := Function.update p.allocated k true
      messages := Function.update p.messages k .zero })
  | none =>
    if mem then some (.heap p.heapSerial, { p with
      heap := Function.update p.heap p.heapSerial (some .zero)
      heapSerial := p.heapSerial + 1 })
    else none

/-- `msg_pool_free`, for a message that is not `NULL`. -/
def msgPoolFree (ref : MsgRef) : MsgPool :=
  match ref with
  | .pool k => { p with
      messages := Function.update p.messages k .zero
      allocated := Function.update p.allocated k false
      doubleFree := p.doubleFree || !p.Allocated ref }
  | .heap n => { p with
      heap := Function.update p.heap n none
      doubleFree := p.doubleFree || !p.Allocated ref }

/-- `if (msg) msg_pool_free(msg)`. -/
def freeUnlessNull : Option MsgRef → MsgPool
  | some ref => p.msgPoolFree ref
  | none => p

end MsgPool

namespace AgentRuntime

variable (rt : AgentRuntime)

/-- Take a value of the id counter. -/
def fetchMsgId : UInt32 × AgentRuntime := (rt.nextMsgId, { rt with nextMsgId := rt.nextMsgId + 1 })

/-- `msg_generate_id`. -/
def msgGenerateId : UInt32 × AgentRuntime :=
  let (id, rt) := rt.fetchMsgId
  let (id, rt) := if id = 0 then rt.fetchMsgId else (id, rt)
  (id, { rt with history := { rt.history with generated := rt.history.generated + 1 } })

/-! ## Inboxes -/

/-- `inbox_enqueue`. -/
def inboxEnqueue (j : AgentIdx) (ref : MsgRef) : FluxStatus × AgentRuntime :=
  if (rt.agents j).inbox.count ≥ fluxInboxSize then (.errOverflow, rt)
  else
    (.ok, (rt.modifySlot j fun slot =>
      { slot with inbox := slot.inbox.push fluxInboxSize (some ref) }).record
        (.enqueue j (rt.msgPool.read ref)))

/-- `inbox_dequeue`; `none` if the inbox is empty. -/
def inboxDequeue (i : AgentIdx) : Option (Option MsgRef × AgentRuntime) :=
  let inbox := (rt.agents i).inbox
  if inbox.count = 0 then none
  else
    some (inbox.slots inbox.head, rt.modifySlot i fun slot =>
      { slot with inbox := slot.inbox.takeHead fluxInboxSize none })

/-- Allocate a message, fill it in for its id and put it in the inbox of `j`. -/
def post (mem : Bool) (j : AgentIdx) (fill : UInt32 → A2aMsg) : FluxStatus × UInt32 × AgentRuntime :=
  match rt.msgPool.msgPoolAlloc mem with
  | none => (.errNomem, 0, rt)
  | some (ref, pool) =>
    let (id, rt) := ({ rt with msgPool := pool } : AgentRuntime).msgGenerateId
    let rt := { rt with msgPool := rt.msgPool.write ref (fill id) }
    match rt.inboxEnqueue j ref with
    | (.ok, rt) => (.ok, id, rt)
    | (status, rt) => (status, id, { rt with msgPool := rt.msgPool.msgPoolFree ref })

/-! ## Counters and wake-up -/

/-- Count messages that an agent sent. -/
def noteSent (i : AgentIdx) (n : UInt32) : AgentRuntime :=
  rt.modifyDesc i fun d => { d with msgCountSent := d.msgCountSent + n, lastActive := rt.agentNow }

/-- Count a message that an agent received. -/
def noteReceived (j : AgentIdx) : AgentRuntime :=
  rt.modifyDesc j fun d => { d with msgCountRecv := d.msgCountRecv + 1, lastActive := rt.agentNow }

/-- Wake an agent that waits. -/
def wake (j : AgentIdx) : AgentRuntime :=
  rt.modifyDesc j fun d => if d.state = .waiting then { d with state := .idle } else d

/-! ## Direct messages -/

/-- `flux_a2a_send`; a message that was sent comes with its id. -/
def fluxA2aSend (mem : Bool) (sender target : UInt32) (type : A2aType) (payload : List UInt8) :
    Except FluxStatus UInt32 × AgentRuntime :=
  if !rt.initialized then (.error .errInvalid, rt)
  else if payload.length > fluxA2aMaxPayload then (.error .errOverflow, rt)
  else
    match rt.agentSlotById sender, rt.agentSlotById target with
    | none, _ => (.error .errNotfound, rt)
    | some _, none => (.error .errNotfound, rt)
    | some i, some j =>
      if !rt.holds i fluxCapCommunicate then (.error .errDenied, rt)
      else if sender = target then (.error .errInvalid, rt)
      else
        match rt.post mem j (sendMsg rt.agentNow sender target type payload) with
        | (.ok, id, rt) => (.ok id, ((rt.noteSent i 1).noteReceived j).wake j)
        | (status, _, rt) => (.error status, rt)

/-! ## Receiving -/

/-- The local variables of a receive that waits, and which of the two sections comes next. -/
structure A2aReceive where
  agentId : UInt32
  timeoutMs : UInt32
  start : UInt64
  marking : Bool
  deriving DecidableEq

end AgentRuntime

/-- What a receive does: it returns or goes on waiting. -/
inductive A2aRecvOutcome
  | done (status : FluxStatus) (msg : Option A2aMsg)
  | waiting (r : AgentRuntime.A2aReceive)

namespace AgentRuntime

variable (rt : AgentRuntime)

/-- Take a message out of the inbox and free it; the copy is what the receive returns. -/
def takeMessage (i : AgentIdx) : Option A2aMsg × AgentRuntime :=
  match rt.inboxDequeue i with
  | none => (none, rt)
  | some (none, rt) => (none, rt)
  | some (some ref, rt) =>
    let msg := rt.msgPool.read ref
    let rt := ({ rt with msgPool := rt.msgPool.msgPoolFree ref } : AgentRuntime).record (.dequeue i msg)
    (some msg, rt.modifyDesc i fun d => { d with lastActive := rt.agentNow })

/-- `flux_a2a_recv` up to the waiting loop. -/
def fluxA2aRecv (agentId timeoutMs : UInt32) : A2aRecvOutcome × AgentRuntime :=
  if !rt.initialized then (.done .errInvalid none, rt)
  else
    match rt.agentSlotById agentId with
    | none => (.done .errNotfound none, rt)
    | some i =>
      match rt.takeMessage i with
      | (some msg, rt) => (.done .ok (some msg), rt)
      | (none, rt) =>
        if timeoutMs = 0 then (.done .errTimeout none, rt)
        else (.waiting ⟨agentId, timeoutMs, rt.agentNow, false⟩, rt)

/-- The first section of a round of the loop of `flux_a2a_recv`, up to the timeout. -/
def recvRetry (r : A2aReceive) : A2aRecvOutcome × AgentRuntime :=
  match rt.agentSlotById r.agentId with
  | none => (.done .errNotfound none, rt)
  | some i =>
    match rt.takeMessage i with
    | (some msg, rt) => (.done .ok (some msg), rt)
    | (none, rt) =>
      if r.timeoutMs > 0 ∧ rt.agentNow - r.start ≥ r.timeoutMs.toUInt64 then (.done .errTimeout none, rt)
      else (.waiting { r with marking := true }, rt)

/-- Mark an agent as waiting, unless it has ended. -/
def markWaiting (i : AgentIdx) : AgentRuntime :=
  rt.modifyDesc i fun d =>
    if d.state ≠ .terminated ∧ d.state ≠ .failed then { d with state := .waiting } else d

/-- The second section of a round. -/
def recvMark (r : A2aReceive) : A2aRecvOutcome × AgentRuntime :=
  (.waiting { r with marking := false },
    match rt.agentSlotById r.agentId with
    | none => rt
    | some i => rt.markWaiting i)

/-- The next section of a round. -/
def recvRound (r : A2aReceive) : A2aRecvOutcome × AgentRuntime :=
  if r.marking then rt.recvMark r else rt.recvRetry r

/-! ## Broadcast -/

/-- The topic that `flux_a2a_broadcast` finds. -/
def findTopic (name : CString) : Option FluxTopic := rt.topics.find? fun tp => tp.name = name

/-- The delivery to one subscriber, and whether the event was put in its inbox. -/
def deliverEvent (mem : Bool) (sender : UInt32) (topic : CString) (payload : List UInt8) (sub : UInt32) :
    Bool × AgentRuntime :=
  if sub = sender then (false, rt)
  else
    match rt.agentSlotById sub with
    | none => (false, rt)
    | some j =>
      match rt.post mem j (eventMsg rt.agentNow sender sub topic payload) with
      | (.ok, _, rt) => (true, (rt.noteReceived j).wake j)
      | (_, _, rt) => (false, rt)

/-- The delivery loop of `flux_a2a_broadcast`, with the number of events delivered. -/
def deliverEvents (mem : Nat → Bool) (sender : UInt32) (topic : CString) (payload : List UInt8) :
    List UInt32 → Nat → UInt32 → AgentRuntime → UInt32 × AgentRuntime
  | [], _, sent, rt => (sent, rt)
  | sub :: subs, k, sent, rt =>
    let r := rt.deliverEvent (mem k) sender topic payload sub
    deliverEvents mem sender topic payload subs (k + 1) (if r.1 then sent + 1 else sent) r.2

/-- `flux_a2a_broadcast`; `mem` answers for each subscriber. -/
def fluxA2aBroadcast (mem : Nat → Bool) (sender : UInt32) (topic : CString) (payload : List UInt8) :
    FluxStatus × AgentRuntime :=
  if !rt.initialized then (.errInvalid, rt)
  else if topic.bytes = [] then (.errInvalid, rt)
  else if payload.length > fluxA2aMaxPayload then (.errOverflow, rt)
  else
    match rt.agentSlotById sender with
    | none => (.errNotfound, rt)
    | some i =>
      if !rt.holds i fluxCapCommunicate then (.errDenied, rt)
      else
        match rt.findTopic topic with
        | none => (.ok, rt)
        | some tp =>
          if tp.subscribers = [] then (.ok, rt)
          else
            let (sent, rt) := deliverEvents mem sender topic payload tp.subscribers 0 0 rt
            (.ok, rt.noteSent i sent)

/-! ## Reply -/

/-- `flux_a2a_reply`. -/
def fluxA2aReply (mem : Bool) (original : A2aMsg) (payload : List UInt8) : FluxStatus × AgentRuntime :=
  if !rt.initialized then (.errInvalid, rt)
  else if payload.length > fluxA2aMaxPayload then (.errOverflow, rt)
  else
    match rt.agentSlotById original.target with
    | none => (.errNotfound, rt)
    | some i =>
      if !rt.holds i fluxCapCommunicate then (.errDenied, rt)
      else
        match rt.agentSlotById original.sender with
        | none => (.errNotfound, rt)
        | some j =>
          match rt.post mem j (replyMsg rt.agentNow original payload) with
          | (.ok, _, rt) => (.ok, ((rt.noteSent i 1).noteReceived j).wake j)
          | (status, _, rt) => (status, rt)

/-! ## Delegation -/

/-- Keep track of a task that was delegated. -/
def trackDelegation (i : AgentIdx) (id target : UInt32) : AgentRuntime :=
  rt.modifySlot i fun slot => { slot with
    delegations := slot.delegations ++ [⟨id, target, true⟩]
    desc := { slot.desc with delegateCount := slot.desc.delegateCount + 1, state := .delegating } }

/-- `flux_a2a_delegate`; a task that was delegated comes with its id. -/
def fluxA2aDelegate (mem : Bool) (source target : UInt32) (task : List UInt8) :
    Except FluxStatus UInt32 × AgentRuntime :=
  if !rt.initialized then (.error .errInvalid, rt)
  else if task.length > fluxA2aMaxPayload then (.error .errOverflow, rt)
  else
    match rt.agentSlotById source with
    | none => (.error .errNotfound, rt)
    | some i =>
      if !rt.holds i fluxCapCommunicate then (.error .errDenied, rt)
      else
        match rt.agentSlotById target with
        | none => (.error .errNotfound, rt)
        | some j =>
          if source = target then (.error .errInvalid, rt)
          else if (rt.agents i).delegations.length ≥ fluxDelegationsMax then (.error .errOverflow, rt)
          else
            match rt.post mem j (delegateMsg rt.agentNow source target task) with
            | (.ok, id, rt) =>
              (.ok id, (((rt.noteSent i 1).noteReceived j).trackDelegation i id target).wake j)
            | (status, _, rt) => (.error status, rt)

/-- The search of `flux_a2a_delegate_result`: the delegating agent and the number of its entry.  The id of an
active agent is never `FLUX_AGENT_ID_INVALID`, so that the search ends with the first entry it finds. -/
def findDelegation (id : UInt32) : Option (AgentIdx × Nat) :=
  (List.finRange fluxAgentMax).findSome? fun i =>
    if (rt.agents i).active then
      ((rt.agents i).delegations.findIdx? fun d => d.originalMsgId = id).map fun k => (i, k)
    else none

/-- Mark a delegation as complete. -/
def completeDelegation (i : AgentIdx) (k : Nat) : AgentRuntime :=
  rt.modifySlot i fun slot =>
    { slot with delegations := slot.delegations.modify k fun d => { d with active := false } }

/-- Wake an agent that waits or has delegated. -/
def wakeDelegator (j : AgentIdx) : AgentRuntime :=
  rt.modifyDesc j fun d =>
    if d.state = .waiting ∨ d.state = .delegating then { d with state := .idle } else d

/-- `flux_a2a_delegate_result`. -/
def fluxA2aDelegateResult (mem : Bool) (worker delegateMsgId : UInt32) (result : List UInt8) :
    FluxStatus × AgentRuntime :=
  if !rt.initialized then (.errInvalid, rt)
  else if result.length > fluxA2aMaxPayload then (.errOverflow, rt)
  else
    match rt.agentSlotById worker with
    | none => (.errNotfound, rt)
    | some i =>
      if !rt.holds i fluxCapCommunicate then (.errDenied, rt)
      else
        match rt.findDelegation delegateMsgId with
        | none => (.errNotfound, rt)
        | some (d, k) =>
          let delegator := (rt.agents d).desc.agentId
          let rt := rt.completeDelegation d k
          match rt.agentSlotById delegator with
          | none => (.errNotfound, rt)
          | some j =>
            match rt.post mem j (resultMsg rt.agentNow worker delegator delegateMsgId result) with
            | (.ok, _, rt) => (.ok, ((rt.noteSent i 1).noteReceived j).wakeDelegator j)
            | (status, _, rt) => (status, rt)

end AgentRuntime

end FluxOs
