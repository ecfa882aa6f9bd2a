import FluxOs.Agent.AgentIds
import FluxOs.Agent.CapabilityEffects

/-!
# What is left of an agent

The registries of `discovery.c` refer to agents by their ids.  `flux_agent_terminate` does not touch them, although
`discovery.c` has functions for it, so that the subscriptions and the published capabilities of an agent that was
terminated become those of the next agent with its id.  An id starts without any exactly when every agent has none
left as it is terminated (`terminated_clean_iff`).
-/

namespace FluxOs

open Actions AgentRuntime AgentView

namespace AgentRuntime

/-- The id is in no topic's list of subscribers and owns no active entry of the registry of capabilities. -/
structure Unregistered (rt : AgentRuntime) (id : UInt32) : Prop where
  topics : ∀ tp ∈ rt.topics, id ∉ tp.subscribers
  pubCaps : ∀ k, (rt.pubCaps k).active = true → (rt.pubCaps k).agentId ≠ id

variable {rt rt' : AgentRuntime} {id other : UInt32} {i : AgentIdx} {name : CString}

theorem Unregistered.congr (h : rt.Unregistered id) (htopics : rt'.topics = rt.topics)
    (hcaps : rt'.pubCaps = rt.pubCaps) : rt'.Unregistered id where
  topics := by
    rw [htopics]
    exact h.topics
  pubCaps := by
    rw [hcaps]
    exact h.pubCaps

/-! ## Topics -/

theorem Unregistered.findOrCreateTopic (h : rt.Unregistered id) :
    (rt.findOrCreateTopic name).2.Unregistered id := by
  unfold AgentRuntime.findOrCreateTopic
  split
  · exact h
  split
  · exact h
  split
  · exact h
  · refine ⟨fun tp htp => ?_, h.pubCaps⟩
    rcases List.mem_append.1 htp with hold | hnew
    · exact h.topics tp hold
    · rw [List.mem_singleton.1 hnew]
      exact List.not_mem_nil

theorem Unregistered.modifySubscribers {k : Nat} {f : List UInt32 → List UInt32} (h : rt.Unregistered id)
    (hf : ∀ subs, id ∉ subs → id ∉ f subs) : (rt.modifySubscribers k f).Unregistered id := by
  refine ⟨fun tp htp => ?_, h.pubCaps⟩
  obtain ⟨n, hn⟩ := List.mem_iff_getElem?.1 htp
  rw [AgentRuntime.modifySubscribers, List.getElem?_modify] at hn
  obtain ⟨old, hold, rfl⟩ := Option.map_eq_some_iff.1 hn
  have hfree := h.topics old (List.mem_of_getElem? hold)
  split_ifs
  · exact hf _ hfree
  · exact hfree

theorem Unregistered.subscribe {topic : CString} (h : rt.Unregistered other)
    (hfree : rt.agentSlotById other = none) : (rt.fluxAgentSubscribe id topic).2.Unregistered other := by
  unfold fluxAgentSubscribe
  split
  · exact h
  split
  · exact h
  cases hi : rt.agentSlotById id with
  | none => exact h
  | some i =>
    have hne : other ≠ id := by
      rintro rfl
      rw [hfree] at hi
      cases hi
    have hcreate : (rt.findOrCreateTopic topic).2.Unregistered other := h.findOrCreateTopic
    simp only
    generalize rt.findOrCreateTopic topic = r at hcreate
    obtain ⟨k, rt'⟩ := r
    have hnew : rt'.Unregistered other := hcreate
    cases k with
    | none => exact hnew
    | some k =>
      simp only
      split_ifs
      · exact hnew
      · exact hnew
      · show (rt'.modifySubscribers k (· ++ [id])).Unregistered other
        refine hnew.modifySubscribers fun subs hsubs hmem => ?_
        rcases List.mem_append.1 hmem with hold | hlast
        · exact hsubs hold
        · exact hne (List.mem_singleton.1 hlast)

theorem Unregistered.unsubscribe {topic : CString} (h : rt.Unregistered other) :
    (rt.fluxAgentUnsubscribe id topic).2.Unregistered other := by
  unfold fluxAgentUnsubscribe
  split
  · exact h
  split
  · exact h
  split
  · exact h
  split_ifs
  · exact h.modifySubscribers fun subs hsubs hmem => hsubs (List.mem_of_mem_erase hmem)
  · exact h

/-! ## Published capabilities -/

theorem Unregistered.modifyPubCap {k : Fin fluxPubCapsMax} {f : PublishedCap → PublishedCap}
    (h : rt.Unregistered id)
    (hf : (f (rt.pubCaps k)).active = true → (f (rt.pubCaps k)).agentId ≠ id) :
    (rt.modifyPubCap k f).Unregistered id := by
  refine ⟨h.topics, fun n => ?_⟩
  unfold AgentRuntime.modifyPubCap
  dsimp only
  by_cases hn : n = k
  · subst hn
    rw [Function.update_self]
    exact hf
  · rw [Function.update_of_ne hn]
    exact h.pubCaps n

theorem Unregistered.publish {description : Option CString} (h : rt.Unregistered other)
    (hfree : rt.agentSlotById other = none) :
    (rt.fluxAgentPublishCap id name description).2.Unregistered other := by
  unfold fluxAgentPublishCap
  split
  · exact h
  split
  · exact h
  cases hi : rt.agentSlotById id with
  | none => exact h
  | some i =>
    have hne : id ≠ other := by
      rintro rfl
      rw [hfree] at hi
      cases hi
    simp only
    cases hfind : rt.findPubCap name with
    | some k =>
      simp only
      split_ifs
      · cases description with
        | none => exact h
        | some text =>
          exact h.modifyPubCap (f := fun e => { e with description := text.copyTo fluxPubCapDescMax })
            (h.pubCaps k)
      · exact h
    | none =>
      simp only
      split_ifs
      · exact h
      cases rt.freePubCap with
      | none => exact h
      | some k =>
        exact (h.modifyPubCap (k := k) (f := fun _ => ⟨name.copyTo fluxPubCapNameMax, id,
          (description.getD .empty).copyTo fluxPubCapDescMax, true⟩) fun _ => hne).congr rfl rfl

theorem Unregistered.unpublish (h : rt.Unregistered other) :
    (rt.fluxAgentUnpublishCap id name).2.Unregistered other := by
  unfold fluxAgentUnpublishCap
  split
  · exact h
  split
  · exact h
  split
  · exact h
  split_ifs
  · exact h
  rename_i k _ _
  have hzero : (rt.modifyPubCap k fun _ => .zero).Unregistered other := by
    refine h.modifyPubCap fun hact => ?_
    cases hact
  simp only
  split
  · exact hzero
  · exact hzero.congr rfl rfl

/-! ## Termination -/

theorem fluxAgentTerminate_ok (hinit : rt.initialized = true) (hid : rt.agentSlotById id = some i) :
    (rt.fluxAgentTerminate id).1 = .ok := by
  simp [fluxAgentTerminate, hinit, hid, not_le_compiler hid]

end AgentRuntime

/-! ## Actions -/

/-- Only the functions of the registries change them. -/
theorem AgentView.Change.registries_eq {kind : ChangeKind} {V V' : AgentView} (h : Change kind V V')
    (hkind : kind ≠ .registry) : (V'.topics, V'.pubCaps, V'.numPubCaps) = (V.topics, V.pubCaps, V.numPubCaps) := by
  cases h with
  | posts i _ hposted =>
    obtain ⟨mem, j, fill, status, id, -, -, hposted⟩ := hposted
    cases hposted <;> rfl
  | takes i msg _ htakes => cases htakes <;> rfl
  | registry => exact absurd rfl hkind
  | _ => rfl

namespace AgentSystem

variable {s t : AgentSystem} {a : AgentAction} {i : AgentIdx}

theorem step_registries (h : step a s = some t) (hkind : a.kind ≠ .registry) :
    t.rt.topics = s.rt.topics ∧ t.rt.pubCaps = s.rt.pubCaps ∧ t.rt.numPubCaps = s.rt.numPubCaps := by
  have hsame := step_keeps (g := fun V => (V.topics, V.pubCaps, V.numPubCaps)) h fun V V' hchange =>
    hchange.registries_eq hkind
  obtain ⟨htopics, hcaps⟩ := Prod.mk.inj hsame
  obtain ⟨hpub, hnum⟩ := Prod.mk.inj hcaps
  exact ⟨htopics, hpub, hnum⟩

theorem unregistered_congr {id : UInt32} (h : step a s = some t) (hkind : a.kind ≠ .registry) :
    t.rt.Unregistered id ↔ s.rt.Unregistered id := by
  obtain ⟨htopics, hcaps, -⟩ := step_registries h hkind
  exact ⟨fun ht => ht.congr htopics.symm hcaps.symm, fun hs => hs.congr htopics hcaps⟩

/-- The id of a slot without an agent stays out of the registries. -/
theorem unregistered_step (h : step a s = some t) (hfree : (s.rt.agents i).active = false)
    (hs : s.rt.Unregistered (agentIdOf i)) : t.rt.Unregistered (agentIdOf i) := by
  have hnone : s.rt.agentSlotById (agentIdOf i) = none := by
    rw [agentSlotById, agentIndexFromId_agentIdOf, Option.filter_some, hfree]
    rfl
  cases a with
  | publish => cases h; exact hs.publish hnone
  | unpublish => cases h; exact hs.unpublish
  | subscribe => cases h; exact hs.subscribe hnone
  | unsubscribe => cases h; exact hs.unsubscribe
  | _ => exact (unregistered_congr h (by simp [AgentAction.kind])).2 hs

/-- An agent ends only by a termination. -/
theorem terminate_of_ended (h : step a s = some t) (hids : s.rt.view.IdsSound)
    (hact : (s.rt.agents i).active = true) (hended : (t.rt.agents i).active = false) :
    a = .terminate (agentIdOf i) := by
  by_cases hkind : a.kind = .lifecycle
  · have hlost (hsame : (t.rt.view.slots i).active = (s.rt.view.slots i).active) : False := by
      have hact : (s.rt.view.slots i).active = true := hact
      rw [← hsame] at hact
      rw [show (t.rt.view.slots i).active = false from hended] at hact
      cases hact
    have hbit : s.rt.view.bitmap i = true := (hids.bits i (hids.ne_zero_of_active hact)).trans hact
    cases a with
    | spawn host mem name model caps bytecode len =>
      have hspawns : Spawns s.rt.view caps _ (s.rt.fluxAgentSpawn host mem name model caps bytecode len).2.view :=
        fluxAgentSpawn_spawns
      cases h
      refine (hlost ?_).elim
      show ((s.rt.fluxAgentSpawn host mem name model caps bytecode len).2.view.slots i).active = _
      generalize (s.rt.fluxAgentSpawn host mem name model caps bytecode len).2.view = V at hspawns ⊢
      generalize (s.rt.fluxAgentSpawn host mem name model caps bytecode len).1 = id at hspawns
      have hne {j : AgentIdx} (hfree : s.rt.view.bitmap j = false) : i ≠ j := by
        rintro rfl
        rw [hbit] at hfree
        cases hfree
      cases hspawns with
      | refused => rfl
      | noMemory j hfree => rw [renewed_of_ne (hne hfree)]
      | spawned j slot hfree _ => rw [renewed_of_ne (hne hfree)]
    | terminate id =>
      have hterminates : Terminates s.rt.view id _ (s.rt.fluxAgentTerminate id).2.view :=
        fluxAgentTerminate_terminates
      cases h
      by_contra hne
      refine hlost ?_
      show ((s.rt.fluxAgentTerminate id).2.view.slots i).active = _
      generalize (s.rt.fluxAgentTerminate id).2.view = V at hterminates ⊢
      generalize (s.rt.fluxAgentTerminate id).1 = status at hterminates
      cases hterminates with
      | refused => rfl
      | terminated j lastOpCycles hid _ _ =>
        have hij : i ≠ j := by
          rintro rfl
          exact hne (congrArg _ hid)
        show ((s.rt.view.renewed j _).slots i).active = _
        rw [renewed_of_ne hij]
    | pause id =>
      cases h
      exact (hlost (congrArg (fun V => (V.slots i).active) view_fluxAgentPause)).elim
    | resume id =>
      cases h
      exact (hlost (congrArg (fun V => (V.slots i).active) view_fluxAgentResume)).elim
    | _ => cases hkind
  · have hsame := Changes.active_eq (step_changes h) hkind i
    have hact : (s.rt.view.slots i).active = true := hact
    rw [← hsame, show (t.rt.view.slots i).active = false from hended] at hact
    cases hact

end AgentSystem

/-! ## Runs -/

namespace AgentSystem

variable {s t : AgentSystem} {a : AgentAction} {i : AgentIdx}

/-- After a termination that succeeds, the id of the agent is in no registry. -/
def TerminatesClean (a : AgentAction) (s : AgentSystem) : Prop := ∀ id, a = .terminate id →
  (s.rt.fluxAgentTerminate id).1 = .ok → (s.rt.fluxAgentTerminate id).2.Unregistered id

/-- After a spawn that succeeds, the id of the agent is in no registry. -/
def SpawnsClean (a : AgentAction) (s : AgentSystem) : Prop := ∀ host mem name model caps bytecode len,
  a = .spawn host mem name model caps bytecode len →
  (s.rt.fluxAgentSpawn host mem name model caps bytecode len).1 ≠ fluxAgentIdInvalid →
  (s.rt.fluxAgentSpawn host mem name model caps bytecode len).2.Unregistered
    (s.rt.fluxAgentSpawn host mem name model caps bytecode len).1

/-- An agent that is about to be terminated has no subscription and no published capability. -/
def EndsUnregistered (a : AgentAction) (s : AgentSystem) : Prop := ∀ id i, a = .terminate id →
  s.rt.agentSlotById id = some i → s.rt.Unregistered id

/-- The ids of slots without an agent are in no registry. -/
def VacantClean (s : AgentSystem) : Prop := ∀ i, (s.rt.agents i).active = false → s.rt.Unregistered (agentIdOf i)

theorem VacantClean.step (hs : s.VacantClean) (hids : s.rt.view.IdsSound) (hends : EndsUnregistered a s)
    (h : step a s = some t) : t.VacantClean := by
  intro i hfree
  cases hact : (s.rt.agents i).active with
  | false => exact unregistered_step h hact (hs i hact)
  | true =>
    have ha := terminate_of_ended h hids hact hfree
    subst ha
    have hclean := hends _ i rfl (agentSlotById_eq_some.2 ⟨rfl, hact⟩)
    exact (unregistered_congr h (by simp [AgentAction.kind])).2 hclean

/-- A termination leaves what there was. -/
theorem terminatesClean_iff (hids : s.rt.view.IdsSound) : TerminatesClean a s ↔ EndsUnregistered a s := by
  have hsame (id : UInt32) : (s.rt.fluxAgentTerminate id).2.Unregistered id ↔ s.rt.Unregistered id :=
    unregistered_congr (s := s) (a := .terminate id) rfl (by simp [AgentAction.kind])
  constructor
  · intro h id i ha hi
    exact (hsame id).1 (h id ha (fluxAgentTerminate_ok hids.initialized hi))
  · intro h id ha hok
    refine (hsame id).2 ?_
    have hterminates : Terminates s.rt.view id _ _ := fluxAgentTerminate_terminates
    rw [hok] at hterminates
    generalize (s.rt.fluxAgentTerminate id).2.view = V at hterminates
    cases hterminates with
    | refused _ hne => exact absurd rfl hne
    | terminated i _ hid hact _ => exact h id i ha (agentSlotById_eq_some.2 ⟨hid, hact⟩)

theorem VacantClean.spawnsClean (hs : s.VacantClean) (hids : s.rt.view.IdsSound) : SpawnsClean a s := by
  intro host mem name model caps bytecode len ha hvalid
  refine (unregistered_congr (s := s) (a := .spawn host mem name model caps bytecode len) rfl
    (by simp [AgentAction.kind])).2 ?_
  have hspawns : Spawns s.rt.view caps _ (s.rt.fluxAgentSpawn host mem name model caps bytecode len).2.view :=
    fluxAgentSpawn_spawns
  generalize (s.rt.fluxAgentSpawn host mem name model caps bytecode len).2.view = V at hspawns
  generalize (s.rt.fluxAgentSpawn host mem name model caps bytecode len).1 = id at hspawns hvalid ⊢
  cases hspawns with
  | refused | noMemory => exact absurd rfl hvalid
  | spawned i slot hfree _ =>
    refine hs i ?_
    have hbit := hids.bits i (hids.ne_zero_of_free hfree)
    exact hbit.symm.trans hfree

/-- In every run: no termination leaves an id in a registry, and no agent starts with what another one left, if and
only if each agent is out of the registries by the time it is terminated. -/
theorem terminated_clean_iff (config : Option AgentConfig) (actions : List AgentAction) :
    MeetsAlong step (fun a s => TerminatesClean a s ∧ SpawnsClean a s) actions (boot config) ↔
      MeetsAlong step EndsUnregistered actions (boot config) := by
  refine meetsAlong_iff_of_invariant (J := fun s => s.VacantClean ∧ s.rt.view.IdsSound)
    (fun a s t hs hends hstep => ⟨hs.1.step hs.2 hends hstep, idsSound_of_step hs.2 hstep⟩)
    (fun a s _ hs _ => ?_) ⟨fun i _ => ⟨?_, fun k hact => ?_⟩, idsSound_init config⟩
  · rw [terminatesClean_iff hs.2]
    exact and_iff_left (hs.1.spawnsClean hs.2)
  · exact List.forall_mem_nil _
  · cases hact

/-- The second agent has the subscription of the first one, whose id it gets. -/
def subscriberEnds : List AgentAction :=
  [.spawnBare 0, .subscribe 5 (.read [97]), .terminate 5, .spawnBare 0]

theorem subscriberEnds_left :
    (∃ s, execute step subscriberEnds (boot none) = some s ∧ s.rt.agentSlotById 5 = some 1 ∧
      s.rt.subscribersOf 0 = [5]) ∧
    ¬MeetsAlong step (fun a s => TerminatesClean a s ∧ SpawnsClean a s) subscriberEnds (boot none) := by
  have hrun : (execute step subscriberEnds (boot none)).map (fun s =>
      (s.rt.agentSlotById 5, s.rt.subscribersOf 0)) = some (some 1, [5]) := by decide +kernel
  obtain ⟨s, hs, hleft⟩ := Option.map_eq_some_iff.1 hrun
  obtain ⟨hid, hsubs⟩ := Prod.mk.inj hleft
  refine ⟨⟨s, hs, hid, hsubs⟩, fun hmeets => ?_⟩
  obtain ⟨-, hsecond⟩ := hmeets _ rfl
  obtain ⟨-, hthird⟩ := hsecond _ rfl
  obtain ⟨⟨hends, -⟩, -⟩ := hthird _ rfl
  have hclean := (hends 5 rfl (by decide +kernel)).topics
  exact absurd hclean (by decide +kernel)

end AgentSystem

end FluxOs
