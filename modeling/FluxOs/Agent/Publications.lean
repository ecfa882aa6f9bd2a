import FluxOs.Agent.Registrations
import FluxOs.Lib.Catalogs

/-!
# The registry of capabilities

The registry is a catalog with the names as keys, of which each agent has its own entries in a list.
`flux_agent_publish_cap` stores 31 bytes of a name, while all searches compare the whole one; it changes a
description in the registry only; and the entries of an agent that was terminated stay for the next one with its id.
Apart from this, publishing, discovering and unpublishing agree, and the lists agree with the registry
(`registry_agrees_iff`).
-/

namespace FluxOs

open Actions AgentRuntime AgentView Catalogs

/-- What the catalog has in the place of an entry. -/
def PublishedCap.listed (entry : PublishedCap) : Option (UInt32 × CapDesc) :=
  if entry.active then some (entry.agentId, ⟨entry.name, entry.description⟩) else none

theorem PublishedCap.listed_eq_some {entry : PublishedCap} {id : UInt32} {c : CapDesc} :
    entry.listed = some (id, c) ↔
      entry.active = true ∧ entry.agentId = id ∧ entry.name = c.name ∧ entry.description = c.description := by
  obtain ⟨name, owner, description, active⟩ := entry
  obtain ⟨name', description'⟩ := c
  cases active <;> simp [listed]

theorem PublishedCap.listed_eq_none {entry : PublishedCap} : entry.listed = none ↔ entry.active = false := by
  obtain ⟨name, owner, description, active⟩ := entry
  cases active <;> simp [listed]

namespace AgentRuntime

/-- The registry of capabilities as a catalog. -/
def catalog (rt : AgentRuntime) (k : Fin fluxPubCapsMax) : Option (UInt32 × CapDesc) := (rt.pubCaps k).listed

/-- No name is active twice, and the capability list of each active agent is the list of its entries. -/
structure CapsAgree (rt : AgentRuntime) : Prop where
  unique : KeysUnique CapDesc.name rt.catalog
  lists : ∀ i, (rt.agents i).active = true → Lists rt.catalog (agentIdOf i) (rt.agents i).desc.caps

/-- The active entries are in front of `num_pub_caps`, and their names are terminated. -/
structure CapsStored (rt : AgentRuntime) : Prop where
  inRange : ∀ k, (rt.pubCaps k).active = true → k.val < rt.numPubCaps
  fits : ∀ k, (rt.pubCaps k).active = true → (rt.pubCaps k).name.bytes.length < fluxPubCapNameMax

variable {rt rt' : AgentRuntime} {id : UInt32} {name : CString} {description : Option CString} {i : AgentIdx}
  {k : Fin fluxPubCapsMax}

theorem CapsAgree.congr (h : rt.CapsAgree) (hcaps : rt'.pubCaps = rt.pubCaps)
    (hlists : ∀ i, (rt'.agents i).active = true →
      (rt.agents i).active = true ∧ (rt'.agents i).desc.caps = (rt.agents i).desc.caps) : rt'.CapsAgree := by
  have hcatalog : rt'.catalog = rt.catalog := by
    funext k
    rw [catalog, catalog, hcaps]
  refine ⟨?_, fun i hact => ?_⟩
  · rw [hcatalog]
    exact h.unique
  · obtain ⟨hold, hsame⟩ := hlists i hact
    rw [hcatalog, hsame]
    exact h.lists i hold

theorem CapsStored.congr (h : rt.CapsStored) (hcaps : rt'.pubCaps = rt.pubCaps)
    (hnum : rt'.numPubCaps = rt.numPubCaps) : rt'.CapsStored := by
  constructor
  · rw [hcaps, hnum]
    exact h.inRange
  · rw [hcaps]
    exact h.fits

/-! ## Searching -/

theorem catalog_of_active (hact : (rt.pubCaps k).active = true) :
    rt.catalog k = some ((rt.pubCaps k).agentId, ⟨(rt.pubCaps k).name, (rt.pubCaps k).description⟩) :=
  if_pos hact

theorem CapsAgree.eq_of_name (h : rt.CapsAgree) {l : Fin fluxPubCapsMax} (hk : (rt.pubCaps k).active = true)
    (hl : (rt.pubCaps l).active = true) (hname : (rt.pubCaps k).name = (rt.pubCaps l).name) : k = l :=
  h.unique k l _ _ (catalog_of_active hk) (catalog_of_active hl) hname

theorem findPubCap_spec (h : rt.findPubCap name = some k) :
    (rt.pubCaps k).active = true ∧ (rt.pubCaps k).name = name := by
  unfold findPubCap at h
  split_ifs at h
  simpa using List.find?_some h

theorem findPubCap_eq_none_iff (h : rt.CapsStored) (hne : name.bytes ≠ []) :
    rt.findPubCap name = none ↔ ∀ k, (rt.pubCaps k).active = true → (rt.pubCaps k).name ≠ name := by
  rw [findPubCap, if_neg hne, List.find?_eq_none]
  constructor
  · intro hall k hact heq
    have hmem : k ∈ rt.pubCapIndices :=
      List.mem_filter.2 ⟨List.mem_finRange k, decide_eq_true (h.inRange k hact)⟩
    exact hall k hmem (by simp [hact, heq])
  · intro hall k _ hfound
    rw [Bool.and_eq_true, decide_eq_true_eq] at hfound
    exact hall k hfound.1 hfound.2

theorem findPubCap_eq_some (h : rt.CapsAgree) (hstored : rt.CapsStored) (hne : name.bytes ≠ [])
    (hact : (rt.pubCaps k).active = true) (hname : (rt.pubCaps k).name = name) : rt.findPubCap name = some k := by
  cases hfind : rt.findPubCap name with
  | none => exact absurd hname ((findPubCap_eq_none_iff hstored hne).1 hfind k hact)
  | some l =>
    obtain ⟨hactl, hnamel⟩ := findPubCap_spec hfind
    rw [h.eq_of_name hactl hact (hnamel.trans hname.symm)]

/-- The descriptors of all agents with a capability that matches. -/
def matching (rt : AgentRuntime) (capability : CString) : List AgentDesc :=
  rt.pubCapIndices.filterMap fun k =>
    if (rt.pubCaps k).active && capMatches capability (rt.pubCaps k).name then
      (rt.agentSlotById (rt.pubCaps k).agentId).map fun i => (rt.agents i).desc
    else none

theorem fluxAgentDiscover_eq (hinit : rt.initialized = true) (hne : name.bytes ≠ []) (max : Nat) :
    rt.fluxAgentDiscover name max =
      (if ((rt.matching name).take max).length > 0 then .ok else .errNotfound, (rt.matching name).take max) := by
  rw [fluxAgentDiscover, if_neg (by simp [hinit]), if_neg hne]
  rfl

theorem mem_matching (hstored : rt.CapsStored) (hstar : name.bytes.getLast? ≠ some 42) {d : AgentDesc} :
    d ∈ rt.matching name ↔ ∃ k i, (rt.pubCaps k).active = true ∧ (rt.pubCaps k).name = name ∧
      rt.agentSlotById (rt.pubCaps k).agentId = some i ∧ (rt.agents i).desc = d := by
  rw [matching, List.mem_filterMap]
  refine exists_congr fun k => ?_
  rw [capMatches, if_neg hstar]
  constructor
  · rintro ⟨-, hfound⟩
    split_ifs at hfound with hmatch
    rw [Bool.and_eq_true, decide_eq_true_eq] at hmatch
    obtain ⟨i, hslot, hdesc⟩ := Option.map_eq_some_iff.1 hfound
    exact ⟨i, hmatch.1, hmatch.2, hslot, hdesc⟩
  · rintro ⟨i, hact, hname, hslot, hdesc⟩
    refine ⟨List.mem_filter.2 ⟨List.mem_finRange k, decide_eq_true (hstored.inRange k hact)⟩, ?_⟩
    rw [if_pos (by simp [hact, hname]), hslot, Option.map_some, hdesc]

/-! ## Changing the catalog -/

theorem catalog_modifyPubCap {f : PublishedCap → PublishedCap} :
    (rt.modifyPubCap k f).catalog = Function.update rt.catalog k (f (rt.pubCaps k)).listed := by
  funext j
  rw [catalog, modifyPubCap]
  by_cases hj : j = k
  · subst hj
    simp
  · simp [hj, catalog]

theorem modifyCapList_self {f : List CapDesc → List CapDesc} :
    ((rt.modifyCapList i f).agents i).desc.caps = f (rt.agents i).desc.caps := by
  rw [modifyCapList, modifyDesc, modifySlot_self]

theorem modifyCapList_of_ne {f : List CapDesc → List CapDesc} {j : AgentIdx} (hj : j ≠ i) :
    (rt.modifyCapList i f).agents j = rt.agents j := by
  rw [modifyCapList, modifyDesc, modifySlot_of_ne hj]

/-- An entry is removed, and its copy in the list of the agent. -/
theorem CapsAgree.unpublish (h : rt.CapsAgree) : (rt.fluxAgentUnpublishCap id name).2.CapsAgree := by
  unfold fluxAgentUnpublishCap
  split
  · exact h
  split
  · exact h
  cases hfind : rt.findPubCap name with
  | none => exact h
  | some k =>
    obtain ⟨hact, hname⟩ := findPubCap_spec hfind
    simp only
    split_ifs with hid
    · exact h
    have hid : (rt.pubCaps k).agentId = id := not_not.1 hid
    have hcatalog : (rt.modifyPubCap k fun _ => .zero).catalog = Function.update rt.catalog k none :=
      catalog_modifyPubCap
    have hk : rt.catalog k = some (id, ⟨name, (rt.pubCaps k).description⟩) :=
      PublishedCap.listed_eq_some.2 ⟨hact, hid, hname, rfl⟩
    have hother (j : AgentIdx) (hj : agentIdOf j ≠ id) (hactive : (rt.agents j).active = true) :
        Lists (Function.update rt.catalog k none) (agentIdOf j) (rt.agents j).desc.caps := by
      refine (h.lists j hactive).update_other (fun c hc => ?_) (fun c hc => by cases hc)
      rw [hk] at hc
      cases hc
      exact hj rfl
    cases hslot : (rt.modifyPubCap k fun _ => .zero).agentSlotById id with
    | none =>
      refine ⟨?_, fun j hactive => ?_⟩
      · rw [hcatalog]
        exact h.unique.clear
      · rw [hcatalog]
        refine hother j ?_ hactive
        rintro rfl
        rw [agentSlotById_eq_some.2 ⟨rfl, hactive⟩] at hslot
        cases hslot
    | some i =>
      obtain ⟨rfl, hactive⟩ := agentSlotById_eq_some.1 hslot
      have hsame : ((rt.modifyPubCap k fun _ => .zero).modifyCapList i
          (·.eraseP fun c => c.name = name)).catalog = Function.update rt.catalog k none := hcatalog
      refine ⟨?_, fun j hactj => ?_⟩
      · rw [hsame]
        exact h.unique.clear
      · rw [hsame]
        by_cases hj : j = i
        · subst hj
          rw [modifyCapList_self]
          exact (h.lists j hactive).clear h.unique hk
        · rw [modifyCapList_of_ne hj] at hactj ⊢
          exact hother j (fun heq => hj (agentIdOf_inj.1 heq)) hactj

theorem CapsStored.modifyPubCap {f : PublishedCap → PublishedCap} (h : rt.CapsStored)
    (hf : (f (rt.pubCaps k)).active = true → k.val < rt.numPubCaps ∧
      (f (rt.pubCaps k)).name.bytes.length < fluxPubCapNameMax) : (rt.modifyPubCap k f).CapsStored := by
  have hat (l : Fin fluxPubCapsMax) (hact : ((rt.modifyPubCap k f).pubCaps l).active = true) :
      l.val < rt.numPubCaps ∧ ((rt.modifyPubCap k f).pubCaps l).name.bytes.length < fluxPubCapNameMax := by
    unfold AgentRuntime.modifyPubCap at hact ⊢
    dsimp only at hact ⊢
    by_cases hl : l = k
    · subst hl
      rw [Function.update_self] at hact ⊢
      exact hf hact
    · rw [Function.update_of_ne hl] at hact ⊢
      exact ⟨h.inRange l hact, h.fits l hact⟩
  exact ⟨fun l hact => (hat l hact).1, fun l hact => (hat l hact).2⟩

theorem CapsStored.unpublish (h : rt.CapsStored) : (rt.fluxAgentUnpublishCap id name).2.CapsStored := by
  unfold fluxAgentUnpublishCap
  split
  · exact h
  split
  · exact h
  split
  · exact h
  split_ifs
  · exact h
  rename_i k _ _
  have hzero : (rt.modifyPubCap k fun _ => .zero).CapsStored := h.modifyPubCap fun hact => by cases hact
  simp only
  split
  · exact hzero
  · exact hzero.congr rfl rfl

/-! ## Publishing -/

/-- The agent may have one more capability, and the registry has a place for it. -/
def HasRoom (rt : AgentRuntime) (i : AgentIdx) : Prop :=
  (rt.agents i).desc.caps.length < fluxAgentMaxCaps ∧ ∃ k, (rt.pubCaps k).active = false

/-- The runtime after a new entry. -/
def published (rt : AgentRuntime) (i : AgentIdx) (k : Fin fluxPubCapsMax) (c : CapDesc) : AgentRuntime :=
  (rt.addPubCap k ⟨c.name, agentIdOf i, c.description, true⟩).modifyCapList i (· ++ [c])

/-- What `flux_agent_publish_cap` stores of its arguments. -/
def capCopy (name : CString) (description : Option CString) : CapDesc :=
  ⟨name.copyTo fluxPubCapNameMax, (description.getD .empty).copyTo fluxPubCapDescMax⟩

/-- The runtime after a new description. -/
def described (rt : AgentRuntime) (k : Fin fluxPubCapsMax) : Option CString → AgentRuntime
  | some text => rt.modifyPubCap k fun e => { e with description := text.copyTo fluxPubCapDescMax }
  | none => rt

/-- What `flux_agent_publish_cap` does: it refuses, it changes the description of the agent's own entry, or it adds
an entry. -/
inductive Publishes (rt : AgentRuntime) (id : UInt32) (name : CString) (description : Option CString) :
    FluxStatus × AgentRuntime → Prop
  | refused (status : FluxStatus) : status ≠ .ok →
      (∀ i, rt.agentSlotById id = some i → name.bytes ≠ [] →
        (∀ k, rt.findPubCap name = some k → (rt.pubCaps k).agentId ≠ id) ∧
        (rt.findPubCap name = none → ¬ rt.HasRoom i)) →
      Publishes rt id name description (status, rt)
  | updated (i : AgentIdx) (k : Fin fluxPubCapsMax) : rt.agentSlotById id = some i →
      rt.findPubCap name = some k → (rt.pubCaps k).agentId = id → name.bytes ≠ [] →
      Publishes rt id name description (.ok, rt.described k description)
  | added (i : AgentIdx) (k : Fin fluxPubCapsMax) : rt.agentSlotById id = some i →
      rt.findPubCap name = none → rt.HasRoom i → (rt.pubCaps k).active = false → name.bytes ≠ [] →
      Publishes rt id name description (.ok, rt.published i k (capCopy name description))

theorem freePubCap_eq_none_iff : rt.freePubCap = none ↔ ¬ ∃ k, (rt.pubCaps k).active = false := by
  rw [freePubCap, List.find?_eq_none]
  constructor
  · rintro hall ⟨k, hk⟩
    exact hall k (List.mem_finRange k) (by simp [hk])
  · intro hnone k _ hfree
    exact hnone ⟨k, by simpa using hfree⟩

variable (id name description) in
theorem fluxAgentPublishCap_publishes (hinit : rt.initialized = true) :
    Publishes rt id name description (rt.fluxAgentPublishCap id name description) := by
  unfold fluxAgentPublishCap
  rw [if_neg (by simp [hinit])]
  by_cases hne : name.bytes = []
  · rw [if_pos hne]
    exact .refused _ (by decide) fun _ _ h => absurd hne h
  rw [if_neg hne]
  cases hslot : rt.agentSlotById id with
  | none => exact .refused _ (by decide) fun i h => by rw [hslot] at h; cases h
  | some i =>
    simp only
    cases hfind : rt.findPubCap name with
    | some k =>
      simp only
      by_cases hid : (rt.pubCaps k).agentId = id
      · rw [if_pos hid]
        cases description with
        | none => exact Publishes.updated i k hslot hfind hid hne
        | some text => exact Publishes.updated i k hslot hfind hid hne
      · rw [if_neg hid]
        refine .refused _ (by decide) fun j _ _ => ⟨fun l hl => ?_, fun h => ?_⟩
        · rw [hfind] at hl
          cases hl
          exact hid
        · rw [hfind] at h
          cases h
    | none =>
      simp only
      have hnone (l : Fin fluxPubCapsMax) (hl : rt.findPubCap name = some l) : (rt.pubCaps l).agentId ≠ id := by
        rw [hfind] at hl
        cases hl
      have hsame {j : AgentIdx} (hj : rt.agentSlotById id = some j) : j = i := by
        rw [hslot] at hj
        cases hj
        rfl
      by_cases hfull : (rt.agents i).desc.caps.length ≥ fluxAgentMaxCaps
      · rw [if_pos hfull]
        refine .refused _ (by decide) fun j hj _ => ⟨hnone, fun _ hroom => ?_⟩
        rw [hsame hj] at hroom
        exact absurd hroom.1 (by omega)
      rw [if_neg hfull]
      cases hfree : rt.freePubCap with
      | none =>
        exact .refused _ (by decide) fun j _ _ => ⟨hnone, fun _ hroom =>
          freePubCap_eq_none_iff.1 hfree hroom.2⟩
      | some k =>
        have hk : (rt.pubCaps k).active = false := by simpa using List.find?_some hfree
        obtain ⟨rfl, -⟩ := agentSlotById_eq_some.1 hslot
        exact .added i k hslot hfind ⟨by omega, k, hk⟩ hk hne

theorem catalog_published {c : CapDesc} :
    (rt.published i k c).catalog = Function.update rt.catalog k (some (agentIdOf i, c)) := by
  have h : (rt.published i k c).catalog =
      (rt.modifyPubCap k fun _ => ⟨c.name, agentIdOf i, c.description, true⟩).catalog := rfl
  rw [h, catalog_modifyPubCap]
  rfl

theorem active_published {c : CapDesc} {j : AgentIdx} :
    ((rt.published i k c).agents j).active = (rt.agents j).active :=
  modifySlot_keeps (f := fun slot => { slot with desc := { slot.desc with caps := slot.desc.caps ++ [c] } })
    AgentSlot.active (fun _ => rfl) j

/-- A new entry agrees unless its name is there already. -/
theorem capsAgree_published_iff {c : CapDesc} (h : rt.CapsAgree) (hactive : (rt.agents i).active = true)
    (hfree : (rt.pubCaps k).active = false) :
    (rt.published i k c).CapsAgree ↔ ∀ l, (rt.pubCaps l).active = true → (rt.pubCaps l).name ≠ c.name := by
  have hk : rt.catalog k = none := PublishedCap.listed_eq_none.2 hfree
  constructor
  · intro h' l hact hname
    have hunique := h'.unique
    rw [catalog_published] at hunique
    exact not_keysUnique_add (catalog_of_active hact) hk hname hunique
  · intro hnew
    have hkeys (l : Fin fluxPubCapsMax) (x : UInt32 × CapDesc) (hl : rt.catalog l = some x) :
        x.2.name ≠ c.name := by
      obtain ⟨hact, -, hname, -⟩ := PublishedCap.listed_eq_some.1 hl
      rw [← hname]
      exact hnew l hact
    refine ⟨?_, fun j hactj => ?_⟩
    · rw [catalog_published]
      exact h.unique.add hkeys
    rw [catalog_published]
    by_cases hj : j = i
    · subst hj
      rw [published, modifyCapList_self]
      exact (h.lists j hactive).add hk fun l hl => hkeys l _ hl rfl
    · rw [published, modifyCapList_of_ne hj] at hactj ⊢
      refine (h.lists j hactj).update_other (fun e he => ?_) (fun e he => ?_)
      · rw [hk] at he
        cases he
      · exact hj (agentIdOf_inj.1 (congrArg Prod.fst (Option.some.inj he)).symm)

variable (description) in
/-- A new description is only in the registry. -/
theorem capsAgree_described_iff (h : rt.CapsAgree) (hactive : (rt.agents i).active = true)
    (hk : (rt.pubCaps k).active = true) (hid : (rt.pubCaps k).agentId = agentIdOf i) :
    (rt.described k description).CapsAgree ↔
      ∀ text, description = some text → text.copyTo fluxPubCapDescMax = (rt.pubCaps k).description := by
  cases description with
  | none => exact iff_of_true h fun text htext => by cases htext
  | some text =>
    have hold : rt.catalog k = some (agentIdOf i, ⟨(rt.pubCaps k).name, (rt.pubCaps k).description⟩) :=
      hid ▸ catalog_of_active hk
    have hnew : (rt.described k (some text)).catalog = Function.update rt.catalog k
        (some (agentIdOf i, ⟨(rt.pubCaps k).name, text.copyTo fluxPubCapDescMax⟩)) := by
      rw [described, catalog_modifyPubCap, ← hid]
      congr 1
      exact if_pos hk
    constructor
    · rintro h' _ ⟨⟩
      have hlists := h'.lists i hactive
      rw [hnew] at hlists
      have hkey : CapDesc.name ⟨(rt.pubCaps k).name, text.copyTo fluxPubCapDescMax⟩ = (rt.pubCaps k).name := rfl
      exact congrArg CapDesc.description (((h.lists i hactive).replace_iff h.unique hold hkey).1 hlists)
    · intro hsame
      have hcatalog : (rt.described k (some text)).catalog = rt.catalog := by
        rw [hnew, hsame text rfl, ← hold, Function.update_eq_self]
      refine ⟨?_, fun j hactj => ?_⟩
      · rw [hcatalog]
        exact h.unique
      · rw [hcatalog]
        exact h.lists j hactj

variable (id name description) in
theorem CapsStored.publish (h : rt.CapsStored) (hinit : rt.initialized = true) :
    (rt.fluxAgentPublishCap id name description).2.CapsStored := by
  have hpub := fluxAgentPublishCap_publishes id name description hinit
  generalize rt.fluxAgentPublishCap id name description = r at hpub
  cases hpub with
  | refused => exact h
  | updated i k _ hfind _ _ =>
    cases description with
    | none => exact h
    | some text =>
      have hact := (findPubCap_spec hfind).1
      exact h.modifyPubCap (f := fun e => { e with description := text.copyTo fluxPubCapDescMax })
        fun _ => ⟨h.inRange k hact, h.fits k hact⟩
  | added i k _ _ _ _ _ =>
    have hraised : ({ rt with numPubCaps := if k.val ≥ rt.numPubCaps then k.val + 1 else rt.numPubCaps } :
        AgentRuntime).CapsStored := by
      refine ⟨fun l hact => ?_, h.fits⟩
      have hl : l.val < rt.numPubCaps := h.inRange l hact
      show l.val < if k.val ≥ rt.numPubCaps then k.val + 1 else rt.numPubCaps
      split_ifs <;> omega
    refine (hraised.modifyPubCap (k := k) (f := fun _ => ⟨(capCopy name description).name, agentIdOf i,
      (capCopy name description).description, true⟩) fun _ => ⟨?_, ?_⟩).congr rfl rfl
    · show k.val < if k.val ≥ rt.numPubCaps then k.val + 1 else rt.numPubCaps
      split_ifs <;> omega
    · exact CString.length_copyTo_lt (by decide)

/-! ## Finding and removing -/

/-- The agent is found by the name, can remove it, and then nobody has it, while all other entries stay. -/
structure RoundTrip (rt : AgentRuntime) (id : UInt32) (name : CString) : Prop where
  found : ∀ max, 0 < max → (rt.fluxAgentDiscover name max).1 = .ok ∧
    ∃ i, rt.agentSlotById id = some i ∧ (rt.agents i).desc ∈ (rt.fluxAgentDiscover name max).2
  removed : (rt.fluxAgentUnpublishCap id name).1 = .ok
  gone : ∀ max, (rt.fluxAgentUnpublishCap id name).2.fluxAgentDiscover name max = (.errNotfound, [])
  others : ∀ k, (rt.fluxAgentUnpublishCap id name).2.pubCaps k ≠ rt.pubCaps k →
    (rt.pubCaps k).name = name ∧ (rt.pubCaps k).agentId = id

theorem fluxAgentUnpublishCap_eq (hinit : rt.initialized = true) (hne : name.bytes ≠ [])
    (hfind : rt.findPubCap name = some k) (hid : (rt.pubCaps k).agentId = id) :
    (rt.fluxAgentUnpublishCap id name).1 = .ok ∧
      (rt.fluxAgentUnpublishCap id name).2.initialized = true ∧
      (rt.fluxAgentUnpublishCap id name).2.pubCaps = Function.update rt.pubCaps k .zero := by
  rw [fluxAgentUnpublishCap, if_neg (by simp [hinit]), if_neg hne, hfind]
  simp only
  rw [if_neg (by simp [hid])]
  refine ⟨rfl, ?_⟩
  split
  · exact ⟨hinit, rfl⟩
  · exact ⟨hinit, rfl⟩

theorem roundTrip (h : rt.CapsAgree) (hstored : rt.CapsStored) (hinit : rt.initialized = true)
    (hslot : rt.agentSlotById id = some i) (hne : name.bytes ≠ []) (hstar : name.bytes.getLast? ≠ some 42)
    (hact : (rt.pubCaps k).active = true) (hname : (rt.pubCaps k).name = name)
    (hid : (rt.pubCaps k).agentId = id) : rt.RoundTrip id name := by
  have hfind := findPubCap_eq_some h hstored hne hact hname
  obtain ⟨hok, hinit', hcaps⟩ := fluxAgentUnpublishCap_eq hinit hne hfind hid
  refine ⟨fun max hmax => ?_, hok, fun max => ?_, fun l hl => ?_⟩
  · have hmem : (rt.agents i).desc ∈ rt.matching name :=
      (mem_matching hstored hstar).2 ⟨k, i, hact, hname, hid ▸ hslot, rfl⟩
    have hall (d : AgentDesc) (hd : d ∈ rt.matching name) : d = (rt.agents i).desc := by
      obtain ⟨l, j, hactl, hnamel, hslotl, hdesc⟩ := (mem_matching hstored hstar).1 hd
      rw [h.eq_of_name hactl hact (hnamel.trans hname.symm), hid, hslot] at hslotl
      cases hslotl
      exact hdesc.symm
    rw [fluxAgentDiscover_eq hinit hne]
    obtain ⟨n, rfl⟩ : ∃ n, max = n + 1 := ⟨max - 1, by omega⟩
    generalize rt.matching name = found at hmem hall
    cases found with
    | nil => exact absurd hmem List.not_mem_nil
    | cons d rest =>
      rw [hall d List.mem_cons_self, List.take_succ_cons]
      exact ⟨by simp, i, hslot, List.mem_cons_self⟩
  · have hnone : (rt.fluxAgentUnpublishCap id name).2.matching name = [] := by
      refine List.eq_nil_iff_forall_not_mem.2 fun d hd => ?_
      obtain ⟨l, -, hactl, hnamel, -⟩ := (mem_matching hstored.unpublish hstar).1 hd
      rw [hcaps, Function.update_apply] at hactl hnamel
      split_ifs at hactl hnamel with hl
      · cases hactl
      · exact hl (h.eq_of_name hactl hact (hnamel.trans hname.symm))
    rw [fluxAgentDiscover_eq hinit' hne, hnone, List.take_nil]
    rfl
  · rw [hcaps, Function.update_apply] at hl
    split_ifs at hl with hlk
    · subst hlk
      exact ⟨hname, hid⟩
    · exact absurd rfl hl

/-- A name that is found is not longer than the ones that are stored. -/
theorem RoundTrip.fits (h : rt.RoundTrip id name) (hstored : rt.CapsStored) (hinit : rt.initialized = true)
    (hne : name.bytes ≠ []) (hstar : name.bytes.getLast? ≠ some 42) : name.bytes.length < fluxPubCapNameMax := by
  obtain ⟨-, j, -, hmem⟩ := h.found 1 (by decide)
  rw [fluxAgentDiscover_eq hinit hne] at hmem
  obtain ⟨l, -, hact, hname, -⟩ := (mem_matching hstored hstar).1 (List.mem_of_mem_take hmem)
  rw [← hname]
  exact hstored.fits l hact

/-! ## What agrees after publishing -/

/-- The name is stored whole, or it is a pattern, and the name that is stored instead is free. -/
def NameKept (rt : AgentRuntime) (name : CString) : Prop :=
  name.bytes.length < fluxPubCapNameMax ∨
    name.bytes.getLast? = some 42 ∧ rt.findPubCap (name.copyTo fluxPubCapNameMax) = none

/-- Publishing does not give the agent's own entry another description, and keeps the name of a new one. -/
def StoresWhole (rt : AgentRuntime) (id : UInt32) (name : CString) (description : Option CString) : Prop :=
  ∀ i, rt.agentSlotById id = some i →
    (∀ k, rt.findPubCap name = some k → (rt.pubCaps k).agentId = id → ∀ text, description = some text →
      text.copyTo fluxPubCapDescMax = (rt.pubCaps k).description) ∧
    (rt.findPubCap name = none → rt.HasRoom i → rt.NameKept name)

theorem copyTo_ne_nil {size : Nat} (hsize : 2 ≤ size) (hne : name.bytes ≠ []) :
    (name.copyTo size).bytes ≠ [] := by
  show name.bytes.take (size - 1) ≠ []
  rw [Ne, List.take_eq_nil_iff]
  rintro (h | h)
  · omega
  · exact hne h

theorem findPubCap_copyTo_eq_none_iff (hstored : rt.CapsStored) (hne : name.bytes ≠ []) :
    rt.findPubCap (name.copyTo fluxPubCapNameMax) = none ↔
      ∀ l, (rt.pubCaps l).active = true → (rt.pubCaps l).name ≠ name.copyTo fluxPubCapNameMax :=
  findPubCap_eq_none_iff hstored (copyTo_ne_nil (by decide) hne)

/-- What is refused is an empty name, the name of another agent, or one more than there is room for. -/
theorem storesWhole_of_refused (h : ∀ i, rt.agentSlotById id = some i → name.bytes ≠ [] →
    (∀ k, rt.findPubCap name = some k → (rt.pubCaps k).agentId ≠ id) ∧
    (rt.findPubCap name = none → ¬ rt.HasRoom i)) : rt.StoresWhole id name description := by
  intro i hi
  by_cases hne : name.bytes = []
  · refine ⟨fun k hk => ?_, fun _ _ => .inl ?_⟩
    · rw [findPubCap, if_pos hne] at hk
      cases hk
    · rw [hne]
      decide
  · obtain ⟨hother, hfull⟩ := h i hi hne
    exact ⟨fun k hk hid => absurd hid (hother k hk), fun hnone hroom => absurd hroom (hfull hnone)⟩

/-- The agent's own entry gets another description. -/
theorem described_agrees_iff (h : rt.CapsAgree) (hstored : (rt.described k description).CapsStored)
    (hinit : rt.initialized = true) (hslot : rt.agentSlotById id = some i) (hfind : rt.findPubCap name = some k)
    (hid : (rt.pubCaps k).agentId = id) (hne : name.bytes ≠ []) :
    (name.bytes.getLast? ≠ some 42 → (rt.described k description).RoundTrip id name) ∧
      (rt.described k description).CapsAgree ↔ rt.StoresWhole id name description := by
  obtain ⟨hact, hname⟩ := findPubCap_spec hfind
  obtain ⟨rfl, hactive⟩ := agentSlotById_eq_some.1 hslot
  have hcaps := capsAgree_described_iff description h hactive hact hid
  constructor
  · rintro ⟨-, hagree⟩ j hj
    refine ⟨fun l hl _ => ?_, fun hnone => ?_⟩
    · rw [hfind] at hl
      cases hl
      exact hcaps.1 hagree
    · rw [hfind] at hnone
      cases hnone
  · intro hwhole
    have hagree := hcaps.2 ((hwhole i hslot).1 k hfind hid)
    refine ⟨fun hstar => ?_, hagree⟩
    cases description with
    | none => exact roundTrip hagree hstored hinit hslot hne hstar hact hname hid
    | some text =>
      have hentry : ((rt.described k (some text)).pubCaps k) =
          { rt.pubCaps k with description := text.copyTo fluxPubCapDescMax } := Function.update_self ..
      refine roundTrip (i := i) (k := k) hagree hstored hinit hslot hne hstar ?_ ?_ ?_
      · rw [hentry]
        exact hact
      · rw [hentry]
        exact hname
      · rw [hentry]
        exact hid

/-- A new entry is added. -/
theorem published_agrees_iff (h : rt.CapsAgree) (hstored : rt.CapsStored)
    (hstored' : (rt.published i k (capCopy name description)).CapsStored) (hinit : rt.initialized = true)
    (hslot : rt.agentSlotById id = some i) (hfind : rt.findPubCap name = none) (hroom : rt.HasRoom i)
    (hfree : (rt.pubCaps k).active = false) (hne : name.bytes ≠ []) :
    (name.bytes.getLast? ≠ some 42 → (rt.published i k (capCopy name description)).RoundTrip id name) ∧
      (rt.published i k (capCopy name description)).CapsAgree ↔ rt.StoresWhole id name description := by
  obtain ⟨rfl, hactive⟩ := agentSlotById_eq_some.1 hslot
  have hcaps := capsAgree_published_iff (c := capCopy name description) h hactive hfree
  have hkept : rt.StoresWhole (agentIdOf i) name description ↔ rt.NameKept name := by
    constructor
    · intro hwhole
      exact (hwhole i hslot).2 hfind hroom
    · intro hkept j _
      refine ⟨fun l hl => ?_, fun _ _ => hkept⟩
      rw [hfind] at hl
      cases hl
  rw [hkept, hcaps]
  constructor
  · rintro ⟨hround, hnew⟩
    by_cases hstar : name.bytes.getLast? = some 42
    · exact .inr ⟨hstar, (findPubCap_copyTo_eq_none_iff hstored hne).2 hnew⟩
    exact .inl ((hround hstar).fits hstored' hinit hne hstar)
  · intro hname
    have hnew : ∀ l, (rt.pubCaps l).active = true → (rt.pubCaps l).name ≠ name.copyTo fluxPubCapNameMax := by
      rcases hname with hlt | ⟨-, hnone⟩
      · rw [CString.copyTo_of_lt hlt]
        exact (findPubCap_eq_none_iff hstored hne).1 hfind
      · exact (findPubCap_copyTo_eq_none_iff hstored hne).1 hnone
    refine ⟨fun hstar => ?_, hnew⟩
    have hlt := hname.resolve_right fun hpattern => hstar hpattern.1
    have hentry : (rt.published i k (capCopy name description)).pubCaps k =
        ⟨(capCopy name description).name, agentIdOf i, (capCopy name description).description, true⟩ :=
      Function.update_self ..
    have hslot' : (rt.published i k (capCopy name description)).agentSlotById (agentIdOf i) = some i :=
      agentSlotById_eq_some.2 ⟨rfl, active_published.trans hactive⟩
    refine roundTrip (hcaps.2 hnew) hstored' hinit hslot' hne hstar (k := k) ?_ ?_ ?_
    · rw [hentry]
    · rw [hentry]
      exact CString.copyTo_of_lt hlt
    · rw [hentry]

variable (id name description) in
theorem publish_agrees_iff (h : rt.CapsAgree) (hstored : rt.CapsStored) (hinit : rt.initialized = true) :
    (name.bytes.getLast? ≠ some 42 → (rt.fluxAgentPublishCap id name description).1 = .ok →
        (rt.fluxAgentPublishCap id name description).2.RoundTrip id name) ∧
      (rt.fluxAgentPublishCap id name description).2.CapsAgree ↔ rt.StoresWhole id name description := by
  have hpub := fluxAgentPublishCap_publishes id name description hinit
  have hstored' := hstored.publish id name description hinit
  generalize rt.fluxAgentPublishCap id name description = r at hpub hstored'
  cases hpub with
  | refused status hstatus hrefused =>
    exact iff_of_true ⟨fun _ hok => absurd hok hstatus, h⟩ (storesWhole_of_refused hrefused)
  | updated i k hslot hfind hid hne =>
    refine Iff.trans ?_ (described_agrees_iff h hstored' hinit hslot hfind hid hne)
    exact and_congr_left' (forall_congr' fun _ => forall_prop_of_true rfl)
  | added i k hslot hfind hroom hfree hne =>
    refine Iff.trans ?_ (published_agrees_iff h hstored hstored' hinit hslot hfind hroom hfree hne)
    exact and_congr_left' (forall_congr' fun _ => forall_prop_of_true rfl)

end AgentRuntime

/-! ## Actions -/

/-- What the registry has to agree with. -/
def SlotView.listing (slot : SlotView) : Bool × List CapDesc := (slot.active, slot.caps)

theorem AgentView.Change.listing_eq {kind : ChangeKind} {V V' : AgentView} (h : Change kind V V')
    (hlifecycle : kind ≠ .lifecycle) (hregistry : kind ≠ .registry) (m : AgentIdx) :
    (V'.slots m).listing = (V.slots m).listing := by
  cases kind with
  | mail => exact h.mail_keeps (g := SlotView.listing) (fun _ _ _ => rfl) m
  | lifecycle => exact absurd rfl hlifecycle
  | capabilities =>
    cases h
    rfl
  | registry => exact absurd rfl hregistry
  | execution =>
    cases h
    exact withUsage_keeps SlotView.listing (fun _ _ _ _ => rfl) m

namespace AgentRuntime

variable {rt rt' : AgentRuntime} {id : UInt32} {topic : CString}

variable (rt topic) in
theorem findOrCreateTopic_keeps : (rt.findOrCreateTopic topic).2.agents = rt.agents ∧
    (rt.findOrCreateTopic topic).2.pubCaps = rt.pubCaps ∧
    (rt.findOrCreateTopic topic).2.numPubCaps = rt.numPubCaps := by
  unfold findOrCreateTopic
  split
  · exact ⟨rfl, rfl, rfl⟩
  split
  · exact ⟨rfl, rfl, rfl⟩
  split_ifs
  · exact ⟨rfl, rfl, rfl⟩
  · exact ⟨rfl, rfl, rfl⟩

variable (rt id topic) in
theorem fluxAgentSubscribe_keeps : (rt.fluxAgentSubscribe id topic).2.agents = rt.agents ∧
    (rt.fluxAgentSubscribe id topic).2.pubCaps = rt.pubCaps ∧
    (rt.fluxAgentSubscribe id topic).2.numPubCaps = rt.numPubCaps := by
  unfold fluxAgentSubscribe
  split
  · exact ⟨rfl, rfl, rfl⟩
  split
  · exact ⟨rfl, rfl, rfl⟩
  split
  · exact ⟨rfl, rfl, rfl⟩
  have hcreate := findOrCreateTopic_keeps rt topic
  generalize rt.findOrCreateTopic topic = r at hcreate
  obtain ⟨k, rt'⟩ := r
  cases k with
  | none => exact hcreate
  | some k =>
    simp only
    split_ifs
    · exact hcreate
    · exact hcreate
    · exact hcreate

variable (rt id topic) in
theorem fluxAgentUnsubscribe_keeps : (rt.fluxAgentUnsubscribe id topic).2.agents = rt.agents ∧
    (rt.fluxAgentUnsubscribe id topic).2.pubCaps = rt.pubCaps ∧
    (rt.fluxAgentUnsubscribe id topic).2.numPubCaps = rt.numPubCaps := by
  unfold fluxAgentUnsubscribe
  split
  · exact ⟨rfl, rfl, rfl⟩
  split
  · exact ⟨rfl, rfl, rfl⟩
  split
  · exact ⟨rfl, rfl, rfl⟩
  split_ifs
  · exact ⟨rfl, rfl, rfl⟩
  · exact ⟨rfl, rfl, rfl⟩

/-- An agent without a list has no entry in the registry. -/
theorem lists_nil_catalog_iff : Lists rt.catalog id [] ↔
    ∀ k, (rt.pubCaps k).active = true → (rt.pubCaps k).agentId ≠ id := by
  rw [lists_nil_iff]
  constructor
  · intro hnone k hk hid
    exact hnone k _ (hid ▸ catalog_of_active hk)
  · intro hnone k c hk
    obtain ⟨hk, hid, -, -⟩ := PublishedCap.listed_eq_some.1 hk
    exact hnone k hk hid

/-- A new agent agrees with the registry if nothing is left there under its id. -/
theorem capsAgree_spawn_iff {host : Host} {mem : Bool} {agentName model : Option CString} {caps : UInt64}
    {bytecode : Option (Nat → UInt8)} {len : UInt64} (h : rt.CapsAgree)
    (hcaps : (rt.fluxAgentSpawn host mem agentName model caps bytecode len).2.pubCaps = rt.pubCaps) :
    (rt.fluxAgentSpawn host mem agentName model caps bytecode len).2.CapsAgree ↔
      ((rt.fluxAgentSpawn host mem agentName model caps bytecode len).1 ≠ fluxAgentIdInvalid →
        ∀ k, (rt.pubCaps k).active = true →
          (rt.pubCaps k).agentId ≠ (rt.fluxAgentSpawn host mem agentName model caps bytecode len).1) := by
  have hspawns : Spawns rt.view caps _ (rt.fluxAgentSpawn host mem agentName model caps bytecode len).2.view :=
    fluxAgentSpawn_spawns
  generalize rt.fluxAgentSpawn host mem agentName model caps bytecode len = r at hspawns hcaps
  obtain ⟨id, rt'⟩ := r
  have hlists (hkept : ∀ j, (rt'.view.slots j).active = true →
      (rt.view.slots j).active = true ∧ (rt'.view.slots j).caps = (rt.view.slots j).caps) : rt'.CapsAgree :=
    h.congr hcaps hkept
  have hcatalog : rt'.catalog = rt.catalog := by
    funext k
    rw [catalog, catalog, hcaps]
  have hnew (j : AgentIdx) : (rt'.agents j).desc.caps = (rt'.view.slots j).caps := rfl
  have hactive (j : AgentIdx) : (rt'.agents j).active = (rt'.view.slots j).active := rfl
  simp only at hspawns ⊢
  generalize rt'.view = V at hspawns hlists hnew hactive
  cases hspawns with
  | refused => exact iff_of_true (hlists fun j hact => ⟨hact, rfl⟩) fun hid => absurd rfl hid
  | noMemory i _ =>
    refine iff_of_true (hlists fun j hact => ?_) fun hid => absurd rfl hid
    by_cases hj : j = i
    · subst hj
      rw [renewed_self] at hact
      cases hact
    · rw [renewed_of_ne hj] at hact ⊢
      exact ⟨hact, rfl⟩
  | spawned i slot _ hslot =>
    have hself : (rt.view.renewed i slot).slots i = slot := renewed_self
    have hother (j : AgentIdx) (hj : j ≠ i) : (rt.view.renewed i slot).slots j = rt.view.slots j := renewed_of_ne hj
    have hempty : (rt'.agents i).desc.caps = [] := (hnew i).trans ((congrArg SlotView.caps hself).trans hslot.caps)
    have hact : (rt'.agents i).active = true :=
      (hactive i).trans ((congrArg SlotView.active hself).trans hslot.active)
    constructor
    · intro h' _
      have hleft := h'.lists i hact
      rw [hcatalog, hempty] at hleft
      exact lists_nil_catalog_iff.1 hleft
    · intro hclean
      refine ⟨hcatalog ▸ h.unique, fun j hactj => ?_⟩
      by_cases hj : j = i
      · subst hj
        rw [hcatalog, hempty]
        exact lists_nil_catalog_iff.2 (hclean (agentIdOf_ne_invalid j))
      · have hstill : (rt'.agents j).active = (rt.agents j).active :=
          (hactive j).trans (congrArg SlotView.active (hother j hj))
        have hlist : (rt'.agents j).desc.caps = (rt.agents j).desc.caps :=
          (hnew j).trans (congrArg SlotView.caps (hother j hj))
        rw [hcatalog, hlist]
        exact h.lists j (hstill ▸ hactj)

end AgentRuntime

namespace AgentSystem

variable {s t : AgentSystem} {a : AgentAction}

/-- Other actions than publishing, unpublishing and spawning leave the registry alone, and the lists of the agents
that stay. -/
theorem step_listings (h : step a s = some t) (hpublish : ∀ id name description, a ≠ .publish id name description)
    (hunpublish : ∀ id name, a ≠ .unpublish id name)
    (hspawn : ∀ host mem name model caps bytecode len, a ≠ .spawn host mem name model caps bytecode len) :
    (t.rt.pubCaps = s.rt.pubCaps ∧ t.rt.numPubCaps = s.rt.numPubCaps) ∧
      ∀ i, (t.rt.agents i).active = true →
        (s.rt.agents i).active = true ∧ (t.rt.agents i).desc.caps = (s.rt.agents i).desc.caps := by
  have hagents {rt : AgentRuntime} (heq : rt.agents = s.rt.agents) (i : AgentIdx)
      (hact : (rt.agents i).active = true) :
      (s.rt.agents i).active = true ∧ (rt.agents i).desc.caps = (s.rt.agents i).desc.caps := by
    rw [heq] at hact ⊢
    exact ⟨hact, rfl⟩
  have hview {rt : AgentRuntime} (heq : rt.view = s.rt.view) (i : AgentIdx)
      (hact : (rt.agents i).active = true) :
      (s.rt.agents i).active = true ∧ (rt.agents i).desc.caps = (s.rt.agents i).desc.caps := by
    have hslot : rt.view.slots i = s.rt.view.slots i := by rw [heq]
    exact ⟨(congrArg SlotView.active hslot).symm.trans hact, congrArg SlotView.caps hslot⟩
  by_cases hregistry : a.kind = .registry
  · cases a with
    | publish id name description => exact absurd rfl (hpublish id name description)
    | unpublish id name => exact absurd rfl (hunpublish id name)
    | subscribe id topic =>
      obtain ⟨hsame, hcaps, hnum⟩ := fluxAgentSubscribe_keeps s.rt id topic
      cases h
      exact ⟨⟨hcaps, hnum⟩, hagents hsame⟩
    | unsubscribe id topic =>
      obtain ⟨hsame, hcaps, hnum⟩ := fluxAgentUnsubscribe_keeps s.rt id topic
      cases h
      exact ⟨⟨hcaps, hnum⟩, hagents hsame⟩
    | _ => cases hregistry
  refine ⟨(step_registries h hregistry).2, ?_⟩
  by_cases hlifecycle : a.kind = .lifecycle
  · cases a with
    | spawn host mem name model caps bytecode len => exact absurd rfl (hspawn host mem name model caps bytecode len)
    | terminate id =>
      have hterminates : Terminates s.rt.view id _ (s.rt.fluxAgentTerminate id).2.view :=
        fluxAgentTerminate_terminates
      cases h
      intro i hact
      have hact : ((s.rt.fluxAgentTerminate id).2.view.slots i).active = true := hact
      show (s.rt.view.slots i).active = true ∧
        ((s.rt.fluxAgentTerminate id).2.view.slots i).caps = (s.rt.view.slots i).caps
      generalize (s.rt.fluxAgentTerminate id).2.view = V at hterminates hact ⊢
      generalize (s.rt.fluxAgentTerminate id).1 = status at hterminates
      cases hterminates with
      | refused => exact ⟨hact, rfl⟩
      | terminated j lastOpCycles _ _ _ =>
        have hslots : (s.rt.view.cleaned j lastOpCycles).slots = (s.rt.view.renewed j _).slots := rfl
        rw [hslots] at hact ⊢
        by_cases hij : i = j
        · subst hij
          rw [renewed_self] at hact
          cases hact
        · rw [renewed_of_ne hij] at hact ⊢
          exact ⟨hact, rfl⟩
    | pause id =>
      cases h
      exact hview view_fluxAgentPause
    | resume id =>
      cases h
      exact hview view_fluxAgentResume
    | _ => cases hlifecycle
  · have hsame := step_keeps (g := fun V i => (V.slots i).listing) h fun V V' hchange =>
      funext fun i => hchange.listing_eq hlifecycle hregistry i
    intro i hact
    obtain ⟨hactive, hcaps⟩ := Prod.mk.inj (congrFun hsame i)
    exact ⟨hactive.symm.trans hact, hcaps⟩

/-! ## Runs -/

/-- After publishing a name that is no pattern, the agent is found by it and can remove it. -/
def PublishAgrees (a : AgentAction) (s : AgentSystem) : Prop := ∀ id name description,
  a = .publish id name description → name.bytes.getLast? ≠ some 42 →
  (s.rt.fluxAgentPublishCap id name description).1 = .ok →
  (s.rt.fluxAgentPublishCap id name description).2.RoundTrip id name

/-- Publishing, discovering and unpublishing agree, and afterwards the lists of the agents with the registry. -/
def RegistryAgrees (a : AgentAction) (s : AgentSystem) : Prop :=
  PublishAgrees a s ∧ ∀ t, step a s = some t → t.rt.CapsAgree

/-- What is published is stored whole, and a new agent finds nothing under its id. -/
structure RegistersWhole (a : AgentAction) (s : AgentSystem) : Prop where
  publish : ∀ id name description, a = .publish id name description → s.rt.StoresWhole id name description
  spawn : ∀ host mem name model caps bytecode len, a = .spawn host mem name model caps bytecode len →
    (s.rt.fluxAgentSpawn host mem name model caps bytecode len).1 ≠ fluxAgentIdInvalid →
    ∀ k, (s.rt.pubCaps k).active = true →
      (s.rt.pubCaps k).agentId ≠ (s.rt.fluxAgentSpawn host mem name model caps bytecode len).1

/-- The invariant of the registry. -/
structure RegistrySound (s : AgentSystem) : Prop where
  agree : s.rt.CapsAgree
  stored : s.rt.CapsStored
  ids : s.rt.view.IdsSound

theorem registryAgrees_iff (hs : s.RegistrySound) (h : step a s = some t) :
    RegistryAgrees a s ↔ RegistersWhole a s := by
  have hafter : (∀ u, step a s = some u → u.rt.CapsAgree) ↔ t.rt.CapsAgree := by
    constructor
    · intro hall
      exact hall t h
    · intro ht u hu
      rw [h] at hu
      cases hu
      exact ht
  rw [RegistryAgrees, hafter]
  by_cases hpublish : ∃ id name description, a = .publish id name description
  · obtain ⟨id, name, description, rfl⟩ := hpublish
    have hiff := publish_agrees_iff id name description hs.agree hs.stored
      hs.ids.initialized
    cases h
    constructor
    · rintro ⟨hround, hagree⟩
      refine ⟨?_, fun _ _ _ _ _ _ _ ha => by cases ha⟩
      rintro _ _ _ ⟨⟩
      exact hiff.1 ⟨hround id name description rfl, hagree⟩
    · intro hwhole
      obtain ⟨hround, hagree⟩ := hiff.2 (hwhole.publish id name description rfl)
      refine ⟨?_, hagree⟩
      rintro _ _ _ ⟨⟩
      exact hround
  have hround : PublishAgrees a s := fun id name description ha => absurd ⟨id, name, description, ha⟩ hpublish
  have hstored (id : UInt32) (name : CString) (description : Option CString)
      (ha : a = .publish id name description) : s.rt.StoresWhole id name description :=
    absurd ⟨id, name, description, ha⟩ hpublish
  rw [and_iff_right hround]
  by_cases hspawn : ∃ host mem name model caps bytecode len, a = .spawn host mem name model caps bytecode len
  · obtain ⟨host, mem, name, model, caps, bytecode, len, rfl⟩ := hspawn
    have hcaps := (step_registries h (by simp [AgentAction.kind])).2.1
    cases h
    refine (capsAgree_spawn_iff hs.agree hcaps).trans ⟨fun hclean => ⟨hstored, ?_⟩, fun hwhole => ?_⟩
    · rintro _ _ _ _ _ _ _ ⟨⟩
      exact hclean
    · exact hwhole.spawn host mem name model caps bytecode len rfl
  refine iff_of_true ?_ ⟨hstored, fun host mem name model caps bytecode len ha =>
    absurd ⟨host, mem, name, model, caps, bytecode, len, ha⟩ hspawn⟩
  by_cases hunpublish : ∃ id name, a = .unpublish id name
  · obtain ⟨id, name, rfl⟩ := hunpublish
    cases h
    exact hs.agree.unpublish
  · obtain ⟨⟨hcaps, -⟩, hlists⟩ := step_listings h
        (fun id name description ha => hpublish ⟨id, name, description, ha⟩)
      (fun id name ha => hunpublish ⟨id, name, ha⟩) fun host mem name model caps bytecode len ha =>
        hspawn ⟨host, mem, name, model, caps, bytecode, len, ha⟩
    exact hs.agree.congr hcaps hlists

theorem capsStored_step (hs : s.rt.CapsStored) (hids : s.rt.view.IdsSound) (h : step a s = some t) :
    t.rt.CapsStored := by
  by_cases hkind : a.kind = .registry
  · cases a with
    | publish => cases h; exact hs.publish _ _ _ hids.initialized
    | unpublish => cases h; exact hs.unpublish
    | subscribe id topic =>
      obtain ⟨-, hcaps, hnum⟩ := fluxAgentSubscribe_keeps s.rt id topic
      cases h
      exact hs.congr hcaps hnum
    | unsubscribe id topic =>
      obtain ⟨-, hcaps, hnum⟩ := fluxAgentUnsubscribe_keeps s.rt id topic
      cases h
      exact hs.congr hcaps hnum
    | _ => cases hkind
  · obtain ⟨-, hcaps, hnum⟩ := step_registries h hkind
    exact hs.congr hcaps hnum

theorem registrySound_boot (config : Option AgentConfig) : (boot config).RegistrySound where
  agree := by
    constructor
    · intro i j x y hx
      cases hx
    · intro i hact
      cases hact
  stored := by
    constructor
    · intro k hact
      cases hact
    · intro k hact
      cases hact
  ids := idsSound_init config

/-- In every run: after each action, publishing, discovering and unpublishing agree, no name is active twice, and the
lists of the agents are those of the registry, if and only if all names and descriptions are stored whole and no agent
is spawned with an id that has entries left. -/
theorem registry_agrees_iff (config : Option AgentConfig) (actions : List AgentAction) :
    MeetsAlong step RegistryAgrees actions (boot config) ↔ MeetsAlong step RegistersWhole actions (boot config) := by
  refine meetsAlong_iff_of_invariant (J := RegistrySound) (fun a s t hs hwhole h => ?_)
    (fun a s t hs h => registryAgrees_iff hs h) (registrySound_boot config)
  obtain ⟨-, hagree⟩ := (registryAgrees_iff hs h).2 hwhole
  exact ⟨hagree t h, capsStored_step hs.stored hs.ids h, idsSound_of_step hs.ids h⟩

/-- A capability with a name of 32 bytes is published. -/
def publishesLong : List AgentAction :=
  [.spawnBare 0, .publish 5 (.read (List.replicate 32 97)) none]

/-- It is not found by its name. -/
theorem publishesLong_not_found :
    (∃ s, execute step publishesLong (boot none) = some s ∧ (s.rt.pubCaps 0).active = true ∧
      s.rt.fluxAgentDiscover (.read (List.replicate 32 97)) 16 = (.errNotfound, [])) ∧
    ¬ MeetsAlong step RegistryAgrees publishesLong (boot none) := by
  have hrun : (execute step publishesLong (boot none)).map (fun s => ((s.rt.pubCaps 0).active,
      (s.rt.fluxAgentDiscover (.read (List.replicate 32 97)) 16).1,
      (s.rt.fluxAgentDiscover (.read (List.replicate 32 97)) 16).2.length)) = some (true, .errNotfound, 0) := by
    decide +kernel
  obtain ⟨s, hs, hfound⟩ := Option.map_eq_some_iff.1 hrun
  obtain ⟨hactive, hnone⟩ := Prod.mk.inj hfound
  obtain ⟨hstatus, hlength⟩ := Prod.mk.inj hnone
  refine ⟨⟨s, hs, hactive, Prod.ext hstatus (List.eq_nil_of_length_eq_zero hlength)⟩, fun hmeets => ?_⟩
  obtain ⟨-, hsecond⟩ := hmeets _ rfl
  obtain ⟨⟨hagrees, -⟩, -⟩ := hsecond _ rfl
  have hround := hagrees 5 (.read (List.replicate 32 97)) none rfl (by decide +kernel) (by decide +kernel)
  exact absurd (hround.found 1 (by decide)).1 (by decide +kernel)

end AgentSystem

end FluxOs
