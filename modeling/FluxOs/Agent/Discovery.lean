import FluxOs.Agent.State

/-!
# Topics and published capabilities

The functions of `agent/discovery.c`.  A name that is `NULL` is an empty one here.
-/

namespace FluxOs

namespace AgentRuntime

variable (rt : AgentRuntime)

/-! ## Topics -/

/-- `find_topic_by_name`: the number of the topic. -/
def findTopicByName (name : CString) : Option Nat :=
  if name.bytes = [] then none else rt.topics.findIdx? fun tp => tp.name = name

/-- `find_or_create_topic`: the number of the topic. -/
def findOrCreateTopic (name : CString) : Option Nat × AgentRuntime :=
  if name.bytes = [] then (none, rt)
  else
    match rt.findTopicByName name with
    | some k => (some k, rt)
    | none =>
      if rt.topics.length ≥ fluxTopicMax then (none, rt)
      else (some rt.topics.length, { rt with topics := rt.topics ++ [⟨name.copyTo fluxTopicMax, []⟩] })

/-- The subscribers of a topic. -/
def subscribersOf (k : Nat) : List UInt32 := (rt.topics[k]?.map FluxTopic.subscribers).getD []

/-- Change the subscribers of a topic. -/
def modifySubscribers (k : Nat) (f : List UInt32 → List UInt32) : AgentRuntime :=
  { rt with topics := rt.topics.modify k fun tp => { tp with subscribers := f tp.subscribers } }

/-- `flux_agent_subscribe`. -/
def fluxAgentSubscribe (agentId : UInt32) (topic : CString) : FluxStatus × AgentRuntime :=
  if !rt.initialized then (.errInvalid, rt)
  else if topic.bytes = [] then (.errInvalid, rt)
  else
    match rt.agentSlotById agentId with
    | none => (.errNotfound, rt)
    | some _ =>
      match rt.findOrCreateTopic topic with
      | (none, rt) => (.errOverflow, rt)
      | (some k, rt) =>
        if agentId ∈ rt.subscribersOf k then (.ok, rt)
        else if (rt.subscribersOf k).length ≥ fluxTopicSubsMax then (.errOverflow, rt)
        else (.ok, rt.modifySubscribers k (· ++ [agentId]))

/-- `flux_agent_unsubscribe`. -/
def fluxAgentUnsubscribe (agentId : UInt32) (topic : CString) : FluxStatus × AgentRuntime :=
  if !rt.initialized then (.errInvalid, rt)
  else if topic.bytes = [] then (.errInvalid, rt)
  else
    match rt.findTopicByName topic with
    | none => (.errNotfound, rt)
    | some k =>
      if agentId ∈ rt.subscribersOf k then (.ok, rt.modifySubscribers k (·.erase agentId))
      else (.errNotfound, rt)

/-! ## Published capabilities -/

/-- The entries of the registry that a search visits. -/
def pubCapIndices : List (Fin fluxPubCapsMax) := (List.finRange fluxPubCapsMax).filter fun k => k.val < rt.numPubCaps

/-- `find_pub_cap`: the number of the entry. -/
def findPubCap (name : CString) : Option (Fin fluxPubCapsMax) :=
  if name.bytes = [] then none
  else rt.pubCapIndices.find? fun k => (rt.pubCaps k).active && (rt.pubCaps k).name = name

/-- Change an entry of the registry. -/
def modifyPubCap (k : Fin fluxPubCapsMax) (f : PublishedCap → PublishedCap) : AgentRuntime :=
  { rt with pubCaps := Function.update rt.pubCaps k (f (rt.pubCaps k)) }

/-- The first free entry of the registry. -/
def freePubCap : Option (Fin fluxPubCapsMax) :=
  (List.finRange fluxPubCapsMax).find? fun k => !(rt.pubCaps k).active

/-- Add an entry to the registry. -/
def addPubCap (k : Fin fluxPubCapsMax) (entry : PublishedCap) : AgentRuntime :=
  { rt.modifyPubCap k fun _ => entry with
    numPubCaps := if k.val ≥ rt.numPubCaps then k.val + 1 else rt.numPubCaps }

/-- Change the capability list of an agent. -/
def modifyCapList (i : AgentIdx) (f : List CapDesc → List CapDesc) : AgentRuntime :=
  rt.modifyDesc i fun d => { d with caps := f d.caps }

/-- `flux_agent_publish_cap`. -/
def fluxAgentPublishCap (agentId : UInt32) (name : CString) (description : Option CString) :
    FluxStatus × AgentRuntime :=
  if !rt.initialized then (.errInvalid, rt)
  else if name.bytes = [] then (.errInvalid, rt)
  else
    match rt.agentSlotById agentId with
    | none => (.errNotfound, rt)
    | some i =>
      match rt.findPubCap name with
      | some k =>
        if (rt.pubCaps k).agentId = agentId then
          (.ok,
            match description with
            | some text => rt.modifyPubCap k fun e => { e with description := text.copyTo fluxPubCapDescMax }
            | none => rt)
        else (.errExists, rt)
      | none =>
        if (rt.agents i).desc.caps.length ≥ fluxAgentMaxCaps then (.errOverflow, rt)
        else
          match rt.freePubCap with
          | none => (.errOverflow, rt)
          | some k =>
            let copy := name.copyTo fluxPubCapNameMax
            let text := (description.getD .empty).copyTo fluxPubCapDescMax
            let rt := rt.addPubCap k ⟨copy, agentId, text, true⟩
            (.ok, rt.modifyCapList i (· ++ [⟨copy, text⟩]))

/-- `flux_agent_unpublish_cap`. -/
def fluxAgentUnpublishCap (agentId : UInt32) (name : CString) : FluxStatus × AgentRuntime :=
  if !rt.initialized then (.errInvalid, rt)
  else if name.bytes = [] then (.errInvalid, rt)
  else
    match rt.findPubCap name with
    | none => (.errNotfound, rt)
    | some k =>
      if (rt.pubCaps k).agentId ≠ agentId then (.errNotfound, rt)
      else
        let rt := rt.modifyPubCap k fun _ => .zero
        (.ok,
          match rt.agentSlotById agentId with
          | none => rt
          | some i => rt.modifyCapList i (·.eraseP fun c => c.name = name))

/-! ## Discovery -/

/-- The comparison of `flux_agent_discover`: of the whole name, or of what stands in front of the `'*'`. -/
def capMatches (capability name : CString) : Bool :=
  if capability.bytes.getLast? = some 42 then
    let n := capability.bytes.length - 1
    name.bytes.take n = capability.bytes.take n
  else name = capability

/-- `flux_agent_discover`, with the descriptors that it copies. -/
def fluxAgentDiscover (capability : CString) (max : Nat) : FluxStatus × List AgentDesc :=
  if !rt.initialized then (.errInvalid, [])
  else if capability.bytes = [] then (.errInvalid, [])
  else
    let found := rt.pubCapIndices.filterMap fun k =>
      if (rt.pubCaps k).active && capMatches capability (rt.pubCaps k).name then
        (rt.agentSlotById (rt.pubCaps k).agentId).map fun i => (rt.agents i).desc
      else none
    let results := found.take max
    (if results.length > 0 then .ok else .errNotfound, results)

end AgentRuntime

end FluxOs
