import FluxOs.Agent.State

/-!
# Capabilities of agents

The functions of `agent/capability.c` that read or change the capability bits, and the audit log.
-/

namespace FluxOs

/-! ## The audit log -/

namespace AgentSlot

/-- A slot of the audit log. -/
def auditIndex (k : Nat) : Fin fluxAuditLogSize := ⟨k % fluxAuditLogSize, Nat.mod_lt _ (by decide)⟩

variable (slot : AgentSlot)

/-- Write an action to the audit log: an action equal to the last one only renews its time. -/
def audit (now : UInt64) (agentId targetId : UInt32) (cap : UInt64) (action : AuditAction) : AgentSlot :=
  let last := auditIndex (slot.auditCount - 1)
  let entry := slot.auditLog last
  if slot.auditCount > 0 ∧ entry.cap = cap ∧ entry.action = action ∧ entry.targetId = targetId then
    { slot with auditLog := Function.update slot.auditLog last { entry with timestamp := now } }
  else
    { slot with
      auditLog := Function.update slot.auditLog (auditIndex slot.auditCount)
        ⟨now, agentId, targetId, cap, action⟩
      auditCount := slot.auditCount + 1 }

end AgentSlot

namespace AgentRuntime

variable (rt : AgentRuntime)

/-- `audit_log_record`. -/
def auditLogRecord (agentId targetId : UInt32) (cap : UInt64) (action : AuditAction) : AgentRuntime :=
  match rt.agentSlotById agentId with
  | none => rt
  | some i => rt.modifySlot i fun slot => slot.audit rt.agentNow agentId targetId cap action

/-! ## Granting and revoking -/

/-- Change the capability bits of an agent. -/
def modifyCaps (i : AgentIdx) (f : UInt64 → UInt64) : AgentRuntime :=
  rt.modifyDesc i fun d => { d with capabilities := f d.capabilities }

/-- `flux_agent_grant_cap`. -/
def fluxAgentGrantCap (agentId : UInt32) (cap : UInt64) : FluxStatus × AgentRuntime :=
  if !rt.initialized then (.errInvalid, rt)
  else if cap = fluxCapNone then (.ok, rt)
  else
    match rt.agentSlotById agentId with
    | none => (.errNotfound, rt)
    | some i => (.ok, (rt.modifyCaps i fun c => c ||| cap).auditLogRecord agentId 0 cap .grant)

/-- `flux_agent_revoke_cap`. -/
def fluxAgentRevokeCap (agentId : UInt32) (cap : UInt64) : FluxStatus × AgentRuntime :=
  if !rt.initialized then (.errInvalid, rt)
  else if cap = fluxCapNone then (.ok, rt)
  else
    match rt.agentSlotById agentId with
    | none => (.errNotfound, rt)
    | some i =>
      if agentId ≤ fluxAgentIdCompiler then (.errDenied, rt)
      else (.ok, (rt.modifyCaps i fun c => c &&& ~~~cap).auditLogRecord agentId 0 cap .revoke)

/-- `flux_agent_has_cap`. -/
def fluxAgentHasCap (agentId : UInt32) (cap : UInt64) : Bool × AgentRuntime :=
  if !rt.initialized then (false, rt)
  else if cap = fluxCapNone then (true, rt)
  else
    match rt.agentSlotById agentId with
    | none => (false, rt)
    | some i => ((rt.agents i).desc.capabilities &&& cap = cap, rt.auditLogRecord agentId 0 cap .check)

/-! ## Transfer and inheritance -/

/-- `flux_agent_transfer_cap`. -/
def fluxAgentTransferCap (source target : UInt32) (cap : UInt64) : FluxStatus × AgentRuntime :=
  if !rt.initialized then (.errInvalid, rt)
  else if cap = fluxCapNone then (.ok, rt)
  else if cap &&& fluxCapSupervisor ≠ 0 then (.errDenied, rt)
  else
    match rt.agentSlotById source, rt.agentSlotById target with
    | none, _ => (.errNotfound, rt)
    | some _, none => (.errNotfound, rt)
    | some i, some j =>
      if source = target then (.errInvalid, rt)
      else if (rt.agents i).desc.capabilities &&& cap ≠ cap then (.errDenied, rt)
      else if source ≤ fluxAgentIdCompiler then (.errDenied, rt)
      else
        let rt := rt.modifyCaps i fun c => c &&& ~~~cap
        let rt := rt.modifyCaps j fun c => c ||| cap
        (.ok, (rt.auditLogRecord source target cap .transfer).auditLogRecord target source cap .transfer)

/-- `flux_agent_inherit_caps`. -/
def fluxAgentInheritCaps (parentId childId : UInt32) : FluxStatus × AgentRuntime :=
  if !rt.initialized then (.errInvalid, rt)
  else
    match rt.agentSlotById parentId, rt.agentSlotById childId with
    | none, _ => (.errNotfound, rt)
    | some _, none => (.errNotfound, rt)
    | some i, some j =>
      let caps := (rt.agents i).desc.capabilities
      let rt := rt.modifyCaps j fun _ => caps
      (.ok, (rt.auditLogRecord parentId childId caps .grant).auditLogRecord childId parentId caps .check)

end AgentRuntime

/-! ## Printing the log -/

/-- An entry of `action_names`. -/
def AuditAction.name : AuditAction → List Char
  | grant => "GRANT".toList
  | revoke => "REVOKE".toList
  | transfer => "TRANSFER".toList
  | check => "CHECK".toList

/-- A line of a dump: `[%llu] %s cap=0x%llx target=%u`. -/
def AuditEntry.line (e : AuditEntry) : List Char :=
  ['['] ++ Nat.toDigits 10 e.timestamp.toNat ++ "] ".toList ++ e.action.name ++ " cap=0x".toList ++
    Nat.toDigits 16 e.cap.toNat ++ " target=".toList ++ Nat.toDigits 10 e.targetId.toNat ++ ['\n']

/-- The loop of `flux_agent_audit_dump` from entry `i` on: `pos` is where the next line goes, and a line is cut off
where the buffer ends. -/
def AgentSlot.auditDumpLoop (slot : AgentSlot) (buflen : Int) (start : Nat) :
    Nat → Nat → List Char × Int → List Char × Int
  | 0, _, r => r
  | left + 1, i, (text, pos) =>
    if pos < buflen - 1 then
      let line := (slot.auditLog (auditIndex (start + i))).line
      slot.auditDumpLoop buflen start left (i + 1) (text ++ line.take (buflen - pos - 1).toNat, pos + line.length)
    else (text, pos)

/-- `flux_agent_audit_dump`, with a buffer: the characters that it writes, and what it returns. -/
def AgentRuntime.fluxAgentAuditDump (rt : AgentRuntime) (agentId : UInt32) (buflen : Int) : List Char × Int :=
  if !rt.initialized ∨ buflen ≤ 0 then ([], 0)
  else
    match rt.agentSlotById agentId with
    | none => ([], 0)
    | some i =>
      let slot := rt.agents i
      let count := slot.auditCount
      let start := if count > fluxAuditLogSize then count - fluxAuditLogSize else 0
      let entries := if count - start > fluxAuditLogSize then fluxAuditLogSize else count - start
      slot.auditDumpLoop buflen start entries 0 ([], 0)

end FluxOs
