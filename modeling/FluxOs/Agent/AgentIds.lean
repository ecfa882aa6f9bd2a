import FluxOs.Agent.Changes

/-!
# The ids of agents

`flux_agent_init` sets the bit of the first slot, whose id is then never given.  All other bits are exact, so
that at most 63 agents are active at a time, also where the configuration allows for 64.
-/

namespace FluxOs

open Actions AgentRuntime AgentView

/-! ## The bitmap -/

namespace AgentView

/-- The bit of the first slot, which is never active, is set; each other bit says whether the slot is active. -/
structure IdsSound (V : AgentView) : Prop where
  initialized : V.initialized = true
  firstBit : V.bitmap 0 = true
  firstSlot : (V.slots 0).active = false
  bits : ∀ i, i ≠ 0 → V.bitmap i = (V.slots i).active

variable {V V' : AgentView} {i : AgentIdx} {kind : ChangeKind}

theorem IdsSound.ne_zero_of_free (h : V.IdsSound) (hfree : V.bitmap i = false) : i ≠ 0 := by
  rintro rfl
  rw [h.firstBit] at hfree
  exact Bool.noConfusion hfree

theorem IdsSound.ne_zero_of_active (h : V.IdsSound) (hact : (V.slots i).active = true) : i ≠ 0 := by
  rintro rfl
  rw [h.firstSlot] at hact
  exact Bool.noConfusion hact

/-- A slot other than the first is replaced, and its bit is set as it is active. -/
theorem IdsSound.renew (h : V.IdsSound) (hi : i ≠ 0) (hinit : V'.initialized = V.initialized)
    (hother : ∀ k, k ≠ i → V'.bitmap k = V.bitmap k ∧ V'.slots k = V.slots k)
    (hself : V'.bitmap i = (V'.slots i).active) : V'.IdsSound where
  initialized := hinit.trans h.initialized
  firstBit := by
    rw [(hother 0 hi.symm).1]
    exact h.firstBit
  firstSlot := by
    rw [(hother 0 hi.symm).2]
    exact h.firstSlot
  bits k hk := by
    by_cases hki : k = i
    · subst hki
      exact hself
    · rw [(hother k hki).1, (hother k hki).2]
      exact h.bits k hk

theorem Change.idsSound (hchange : Change kind V V') (h : V.IdsSound) : V'.IdsSound := by
  by_cases hkind : kind = .lifecycle
  · subst hkind
    cases hchange with
    | clears i hfree =>
      refine h.renew (h.ne_zero_of_free hfree) rfl (fun k hk => ⟨rfl, renewed_of_ne hk⟩) ?_
      rw [renewed_self]
      exact hfree
    | spawns i slot caps hfree hnew =>
      refine h.renew (i := i) (h.ne_zero_of_free hfree) rfl
        (fun k hk => ⟨Function.update_of_ne hk .., renewed_of_ne hk⟩) ?_
      show Function.update V.bitmap i true i = ((V.renewed i slot).slots i).active
      rw [renewed_self, hnew.active, Function.update_self]
    | terminates i lastOpCycles hact _ =>
      refine h.renew (i := i) (h.ne_zero_of_active hact) rfl
        (fun k hk => ⟨Function.update_of_ne hk .., renewed_of_ne hk⟩) ?_
      show Function.update V.bitmap i false i = ((V.renewed i _).slots i).active
      rw [renewed_self, Function.update_self]
      rfl
  · have hbitmap : V'.bitmap = V.bitmap := hchange.bitmap_eq hkind
    have hactive (k : AgentIdx) : (V'.slots k).active = (V.slots k).active :=
      congrArg Prod.fst (hchange.identity_eq hkind k)
    refine ⟨hchange.config_eq.1.trans h.initialized, ?_, ?_, fun k hk => ?_⟩
    · rw [hbitmap]
      exact h.firstBit
    · rw [hactive]
      exact h.firstSlot
    · rw [hbitmap, hactive]
      exact h.bits k hk

theorem idsSound_init (config : Option AgentConfig) : (fluxAgentInit config).view.IdsSound where
  initialized := rfl
  firstBit := rfl
  firstSlot := rfl
  bits i hi := by
    show Function.update (fun _ => false) (0 : AgentIdx) true i = false
    exact Function.update_of_ne hi ..

end AgentView

theorem AgentSystem.idsSound_of_reachable {s : AgentSystem} {allowed : AgentAction → AgentSystem → Prop}
    (h : AgentSystem.Reachable allowed s) : s.rt.view.IdsSound := by
  obtain ⟨config, hrun⟩ := h
  exact AgentSystem.invariant_of_changes (fun _ _ _ hchange hV => hchange.idsSound hV) hrun
    (idsSound_init config)

theorem AgentSystem.idsSound_of_step {s t : AgentSystem} {a : AgentAction} (hs : s.rt.view.IdsSound)
    (h : AgentSystem.step a s = some t) : t.rt.view.IdsSound := by
  have hreaches : Reaches AgentSystem.step (fun _ _ => True) s t := (Reaches.refl s).tail trivial h
  exact invariant_of_changes (fun _ _ _ hchange hV => hchange.idsSound hV) hreaches hs

/-! ## The ids of the descriptors -/

/-- The descriptor in slot `i` has the id of the slot, if the agent is active. -/
def SlotView.NamedAt (i : AgentIdx) (slot : SlotView) : Prop := slot.active = true → slot.agentId = agentIdOf i

namespace AgentView

variable {V V' : AgentView} {kind : ChangeKind}

/-- The descriptor of an active agent has the id of its slot. -/
def Named (V : AgentView) : Prop := ∀ i, (V.slots i).NamedAt i

theorem Change.named (hchange : Change kind V V') (h : V.Named) : V'.Named := by
  have hempty (i : AgentIdx) (slot : SlotView) (hact : slot.active = false) : slot.NamedAt i := by
    intro hactive
    rw [hact] at hactive
    cases hactive
  by_cases hkind : kind = .lifecycle
  · subst hkind
    cases hchange with
    | clears i _ => exact forall_renewed (hempty i _ rfl) h
    | spawns i slot caps _ hnew => exact forall_renewed (fun _ => hnew.agentId) h
    | terminates i lastOpCycles _ _ => exact forall_renewed (hempty i _ rfl) h
  · intro i hact
    have hsame : (V'.slots i).identity = (V.slots i).identity := hchange.identity_eq hkind i
    obtain ⟨hactive, hid⟩ := Prod.mk.inj hsame
    exact (congrArg Prod.fst hid).trans (h i (hactive ▸ hact))

end AgentView

theorem AgentSystem.named_of_reachable {s : AgentSystem} {allowed : AgentAction → AgentSystem → Prop}
    (h : AgentSystem.Reachable allowed s) : s.rt.view.Named := by
  obtain ⟨config, hrun⟩ := h
  refine AgentSystem.invariant_of_changes (fun _ _ _ hchange hV => hchange.named hV) hrun fun i hact => ?_
  cases hact

/-! ## Spawning -/

namespace AgentRuntime

variable {rt : AgentRuntime}

/-- The slots whose id may be given. -/
def givenSlots : List AgentIdx := (List.finRange fluxAgentMax).filter (·.val ≠ 0)

theorem length_givenSlots : givenSlots.length = 63 := by decide

theorem activeSlots_sublist (h : rt.view.IdsSound) :
    ((List.finRange fluxAgentMax).filter fun i => (rt.agents i).active).Sublist givenSlots := by
  refine List.monotone_filter_right _ fun i hact => ?_
  exact decide_eq_true (Fin.val_ne_of_ne (h.ne_zero_of_active hact))

/-- All ids are in use when 63 agents are active. -/
theorem bitmap_full_iff (h : rt.view.IdsSound) :
    (∀ i, rt.agentBitmap i = true) ↔ rt.agentCountActive = 63 := by
  have hsub := activeSlots_sublist h
  have hbits (i : AgentIdx) (hi : i ≠ 0) : rt.agentBitmap i = (rt.agents i).active := h.bits i hi
  constructor
  · intro hfull
    have heq : (List.finRange fluxAgentMax).filter (fun i => (rt.agents i).active) = givenSlots := by
      refine List.filter_congr fun i _ => ?_
      by_cases hi : i = 0
      · subst hi
        exact h.firstSlot
      · rw [← hbits i hi, hfull i]
        simp [hi]
    rw [agentCountActive, heq, length_givenSlots]
  · intro hcount i
    have heq := hsub.eq_of_length (hcount.trans length_givenSlots.symm)
    by_cases hi : i = 0
    · subst hi
      exact h.firstBit
    · have hmem : i ∈ givenSlots := List.mem_filter.2 ⟨List.mem_finRange i, decide_eq_true (Fin.val_ne_of_ne hi)⟩
      rw [← heq] at hmem
      rw [hbits i hi]
      exact (List.mem_filter.1 hmem).2

theorem agentIdOf_ne_invalid (i : AgentIdx) : agentIdOf i ≠ fluxAgentIdInvalid := by
  intro h
  have := congrArg UInt32.toNat h
  rw [toNat_agentIdOf] at this
  exact absurd this (Nat.succ_ne_zero _)

/-- The cases in which `flux_agent_spawn` gives no id. -/
theorem fluxAgentSpawn_invalid_iff (hinit : rt.initialized = true) (host : Host) (mem : Bool)
    (name model : Option CString) (caps : UInt64) (bytecode : Option (Nat → UInt8)) (len : UInt64) :
    (rt.fluxAgentSpawn host mem name model caps bytecode len).1 = fluxAgentIdInvalid ↔
      rt.config.maxAgents.toNat ≤ rt.agentCountActive ∨ (∀ i, rt.agentBitmap i = true) ∨
        (bytecode.isSome = true ∧ len > 0) ∧ mem = false := by
  unfold fluxAgentSpawn agentAllocId
  rw [if_neg (by simp [hinit])]
  by_cases hcount : rt.config.maxAgents.toNat ≤ rt.agentCountActive
  · rw [if_pos hcount]
    exact iff_of_true rfl (.inl hcount)
  rw [if_neg hcount, or_iff_right hcount]
  cases hfind : (List.finRange fluxAgentMax).find? fun i => !rt.agentBitmap i with
  | none =>
    have hfull (i : AgentIdx) : rt.agentBitmap i = true := by
      simpa using List.find?_eq_none.1 hfind i (List.mem_finRange i)
    exact iff_of_true rfl (.inl hfull)
  | some i =>
    have hfree : rt.agentBitmap i = false := by simpa using List.find?_some hfind
    have hroom : ¬ ∀ i, rt.agentBitmap i = true := fun hfull => by simp [hfull i] at hfree
    rw [or_iff_right hroom]
    simp only
    split_ifs with hcode hmem
    · exact iff_of_false (agentIdOf_ne_invalid i) fun h => by simp [hmem] at h
    · exact iff_of_true rfl ⟨hcode, by simpa using hmem⟩
    · exact iff_of_false (agentIdOf_ne_invalid i) fun h => hcode h.1

/-- A bit of the bitmap is set exactly when the slot is active. -/
def BitmapExact (rt : AgentRuntime) : Prop := ∀ i, rt.agentBitmap i = true ↔ (rt.agents i).active = true

/-- `flux_agent_spawn` fails only if the configured number of agents is active or the bytecode cannot be
copied. -/
def SpawnsWithRoom (rt : AgentRuntime) : Prop :=
  ∀ host mem name model caps bytecode len,
    (rt.fluxAgentSpawn host mem name model caps bytecode len).1 = fluxAgentIdInvalid →
      rt.config.maxAgents.toNat ≤ rt.agentCountActive ∨ (bytecode.isSome = true ∧ len > 0) ∧ mem = false

theorem not_bitmapExact (h : rt.view.IdsSound) : ¬ rt.BitmapExact := by
  intro hexact
  have hact : (rt.agents 0).active = true := (hexact 0).1 h.firstBit
  rw [show (rt.agents 0).active = false from h.firstSlot] at hact
  exact Bool.noConfusion hact

/-- A spawn fails for another reason exactly when the configuration allows for the 64th agent. -/
theorem spawnsWithRoom_iff (h : rt.view.IdsSound) :
    rt.SpawnsWithRoom ↔ ¬ (rt.agentCountActive = 63 ∧ 63 < rt.config.maxAgents.toNat) := by
  have hinit : rt.initialized = true := h.initialized
  have hfails := fluxAgentSpawn_invalid_iff hinit
  constructor
  · rintro hroom ⟨hcount, hmax⟩
    have hfull : ∀ i, rt.agentBitmap i = true := (bitmap_full_iff h).2 hcount
    have := hroom ⟨fun _ _ => none, fun _ _ _ => none⟩ true none none 0 none 0
      ((hfails _ _ _ _ _ _ _).2 (.inr (.inl hfull)))
    rcases this with hle | ⟨-, hmem⟩
    · omega
    · exact Bool.noConfusion hmem
  · intro hnot host mem name model caps bytecode len hinvalid
    obtain hmax | hfull | hmem := (hfails _ _ _ _ _ _ _).1 hinvalid
    · exact .inl hmax
    · left
      have hcount := (bitmap_full_iff h).1 hfull
      omega
    · exact .inr hmem

end AgentRuntime

/-- In every state that is reached the bit of the first slot is wrong and all others are right, and a spawn
fails without a reason exactly when 63 agents are active and the configuration allows for one more. -/
theorem agentBitmap_not_exact {s : AgentSystem} (h : AgentSystem.Reachable (fun _ _ => True) s) :
    ¬ (s.rt.BitmapExact ∧ s.rt.SpawnsWithRoom) ∧ ¬ s.rt.BitmapExact ∧
      (∀ i, i ≠ 0 → (s.rt.agentBitmap i = true ↔ (s.rt.agents i).active = true)) ∧
      (s.rt.SpawnsWithRoom ↔ ¬ (s.rt.agentCountActive = 63 ∧ 63 < s.rt.config.maxAgents.toNat)) := by
  have hids : s.rt.view.IdsSound := AgentSystem.idsSound_of_reachable h
  have hbit : ¬ s.rt.BitmapExact := not_bitmapExact hids
  refine ⟨fun hboth => hbit hboth.1, hbit, fun i hi => ?_, spawnsWithRoom_iff hids⟩
  exact Bool.eq_iff_iff.1 (hids.bits i hi)

/-- After one spawn. -/
theorem agentBitmap_not_exact_spawn : ¬ ((fluxAgentInit none).withBare 0).BitmapExact := by
  have hboot : Reaches AgentSystem.step (fun _ _ => True) (AgentSystem.boot none) _ := Reaches.refl _
  have hspawn := hboot.tail (a := .spawnBare 0) trivial rfl
  obtain ⟨-, hbit, -⟩ := agentBitmap_not_exact ⟨none, hspawn⟩
  simpa only [AgentSystem.withRt, AgentSystem.boot, AgentRuntime.withBare] using hbit

/-- Right after `flux_agent_init` the bit of slot 0 is set, and the slot is not active. -/
theorem firstBit_set_inactive :
    (fluxAgentInit none).agentBitmap 0 = true ∧ ((fluxAgentInit none).agents 0).active = false ∧
      ¬ (fluxAgentInit none).BitmapExact := by
  refine ⟨rfl, rfl, fun h => ?_⟩
  have : ((fluxAgentInit none).agents 0).active = true := (h 0).1 rfl
  exact absurd this Bool.false_ne_true

end FluxOs
