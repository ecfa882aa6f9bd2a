import FluxOs.Agent.CapabilityEffects

/-!
# What the audit logs determine

Both sides of a transfer are logged alike.  So the log of an agent determines each of its capability bits,
except that a bit of which the last entry is a transfer may have come or gone.
-/

namespace FluxOs

open Actions Masks AgentRuntime

/-! ## Reading a log -/

/-- Where the value of a bit comes from. -/
inductive BitSource
  | fixed (value : Bool)
  | moved

/-- What an entry tells about a bit of the agent in whose log it is.  An entry with a target is one of an
inheritance: the parent's tells nothing, the child's has all its bits. -/
def AuditEntry.source? (e : AuditEntry) (n : Nat) : Option BitSource :=
  match e.action with
  | .grant => if e.targetId = 0 ∧ hasBit e.cap n = true then some (.fixed true) else none
  | .revoke => if hasBit e.cap n then some (.fixed false) else none
  | .check => if e.targetId = 0 then none else some (.fixed (hasBit e.cap n))
  | .transfer => if hasBit e.cap n then some .moved else none

namespace AuditTrail

variable {trail : AuditTrail} {e : AuditEntry} {n m : Nat}

/-- The first `m` entries. -/
def firstEntries (trail : AuditTrail) (m : Nat) : List AuditEntry :=
  (List.range m).map fun k => trail.log (AgentSlot.auditIndex k)

/-- The entries that were written, if they fit. -/
def entries (trail : AuditTrail) : List AuditEntry := trail.firstEntries trail.count

end AuditTrail

/-- The last entry that tells something about a bit. -/
def bitSource (n : Nat) (l : List AuditEntry) : Option BitSource :=
  l.foldl (fun source e => (e.source? n).or source) none

theorem bitSource_append {l : List AuditEntry} {e : AuditEntry} {n : Nat} :
    bitSource n (l ++ [e]) = (e.source? n).or (bitSource n l) := by
  rw [bitSource, List.foldl_append]
  rfl

namespace AuditTrail

variable {trail : AuditTrail} {e : AuditEntry} {n m : Nat}

theorem firstEntries_succ : trail.firstEntries (m + 1) =
    trail.firstEntries m ++ [trail.log (AgentSlot.auditIndex m)] := by
  simp only [firstEntries, List.range_succ, List.map_append, List.map_cons, List.map_nil]

/-- An entry written behind the first ones leaves them alone. -/
theorem firstEntries_update {log : Fin fluxAuditLogSize → AuditEntry} {count : Nat}
    (hm : m < fluxAuditLogSize) :
    firstEntries ⟨Function.update log (AgentSlot.auditIndex m) e, count⟩ m = firstEntries ⟨log, count⟩ m := by
  refine List.map_congr_left fun k hk => ?_
  have hkm : k < m := List.mem_range.1 hk
  have hne : AgentSlot.auditIndex k ≠ AgentSlot.auditIndex m := by
    intro heq
    have hval : k % fluxAuditLogSize = m % fluxAuditLogSize := congrArg Fin.val heq
    rw [Nat.mod_eq_of_lt hm, Nat.mod_eq_of_lt (hkm.trans hm)] at hval
    omega
  exact Function.update_of_ne hne ..

theorem count_le_note : trail.count ≤ (trail.note e).count := by
  unfold note
  simp only
  split_ifs
  · exact Nat.le_refl _
  · exact Nat.le_succ _

/-- Writing an entry, also where it is merged with the last one, is the last word on the bits it is about. -/
theorem bitSource_note (hroom : (trail.note e).count ≤ fluxAuditLogSize) :
    bitSource n (trail.note e).entries = (e.source? n).or (bitSource n trail.entries) := by
  obtain ⟨log, count⟩ := trail
  unfold note at hroom ⊢
  simp only at hroom ⊢
  split at hroom
  · rename_i hmerge
    obtain ⟨hpos, hcap, haction, htarget⟩ := hmerge
    rw [if_pos ⟨hpos, hcap, haction, htarget⟩]
    obtain ⟨m, rfl⟩ := Nat.exists_eq_succ_of_ne_zero (Nat.pos_iff_ne_zero.1 hpos)
    simp only [Nat.succ_eq_add_one, Nat.add_sub_cancel] at hcap haction htarget ⊢
    have hm : m < fluxAuditLogSize := hroom
    have hsame : (log (AgentSlot.auditIndex m)).source? n = e.source? n := by
      unfold AuditEntry.source?
      rw [hcap, haction, htarget]
    have hrenewed (time : UInt64) :
        ({ log (AgentSlot.auditIndex m) with timestamp := time } : AuditEntry).source? n = e.source? n := hsame
    unfold entries
    simp only [firstEntries_succ, bitSource_append, firstEntries_update hm, Function.update_self, hrenewed]
    cases e.source? n <;> rfl
  · rename_i hnew
    rw [if_neg hnew]
    have hm : count < fluxAuditLogSize := hroom
    unfold entries
    simp only [firstEntries_succ, bitSource_append, firstEntries_update hm, Function.update_self]
    rfl

end AuditTrail

/-! ## The direction of the last move -/

namespace CapEffect

variable {C : CapState} {c : AgentIdx → UInt64} {k : AgentIdx} {n : Nat} {d : Option Bool}

/-- What a call tells about bit `n` of agent `k`. -/
def tells (c : AgentIdx → UInt64) (k : AgentIdx) (n : Nat) : CapEffect → Option BitSource
  | grant i cap => if i = k ∧ hasBit cap n = true then some (.fixed true) else none
  | revoke i cap => if i = k ∧ hasBit cap n = true then some (.fixed false) else none
  | check .. => none
  | transfer i j cap => if (i = k ∨ j = k) ∧ hasBit cap n = true then some .moved else none
  | inherit i j => if j = k then some (.fixed (hasBit (c i) n)) else none

/-- The direction in which bit `n` of agent `k` was last moved, if its value comes from a transfer. -/
def direction (k : AgentIdx) (n : Nat) (d : Option Bool) : CapEffect → Option Bool
  | grant i cap | revoke i cap => if i = k ∧ hasBit cap n = true then none else d
  | check .. => d
  | transfer i j cap =>
    if j = k ∧ hasBit cap n = true then some true
    else if i = k ∧ hasBit cap n = true then some false
    else d
  | inherit _ j => if j = k then none else d

/-- The two sides of a transfer are different agents. -/
def Proper : CapEffect → Prop
  | transfer i j _ => i ≠ j
  | _ => True

/-- What a call tells is what it does to the bit. -/
structure Told (told : Option BitSource) (bit bit' : Bool) (d d' : Option Bool) : Prop where
  nothing : told = none → bit' = bit ∧ d' = d
  fixed : ∀ value, told = some (.fixed value) → bit' = value ∧ d' = none
  moved : told = some .moved → d' = some bit'

theorem told (e : CapEffect) (he : e.Proper) :
    Told (e.tells c k n) (hasBit (c k) n) (hasBit (e.masks c k) n) d (e.direction k n d) := by
  cases e with
  | grant i cap =>
    simp only [tells, direction, masks]
    by_cases hk : i = k
    · subst hk
      rw [Function.update_self, hasBit_or]
      cases hn : hasBit cap n <;> constructor <;> simp
    · rw [Function.update_of_ne (Ne.symm hk)]
      constructor <;> simp [hk]
  | revoke i cap =>
    simp only [tells, direction, masks]
    by_cases hk : i = k
    · subst hk
      rw [Function.update_self, hasBit_and_not]
      cases hn : hasBit cap n <;> constructor <;> simp
    · rw [Function.update_of_ne (Ne.symm hk)]
      constructor <;> simp [hk]
  | check i cap => constructor <;> simp [tells, direction, masks]
  | transfer i j cap =>
    simp only [tells, direction, masks]
    have hne : i ≠ j := he
    by_cases hj : j = k
    · subst hj
      rw [moved_target hne, hasBit_or]
      cases hn : hasBit cap n <;> constructor <;> simp
    by_cases hi : i = k
    · subst hi
      rw [moved_source hne, hasBit_and_not]
      cases hn : hasBit cap n <;> constructor <;> simp [hj]
    · rw [moved_of_ne (Ne.symm hi) (Ne.symm hj)]
      constructor <;> simp [hi, hj]
  | inherit i j =>
    simp only [tells, direction, masks]
    by_cases hj : j = k
    · subst hj
      rw [Function.update_self]
      constructor <;> simp
    · rw [Function.update_of_ne (Ne.symm hj)]
      constructor <;> simp [hj]

end CapEffect

/-! ## Logs and bits -/

namespace CapState

variable {C : CapState} {now : UInt64} {k : AgentIdx} {n : Nat}

/-- All entries fit in the logs. -/
def Fits (C : CapState) : Prop := ∀ k, (C.trails k).count ≤ fluxAuditLogSize

theorem trails_note_self {i : AgentIdx} {e : AuditEntry} : (C.note (i, e)).trails i = (C.trails i).note e :=
  Function.update_self ..

theorem trails_note_of_ne {i : AgentIdx} {e : AuditEntry} (h : k ≠ i) : (C.note (i, e)).trails k = C.trails k :=
  Function.update_of_ne h ..

theorem fits_of_note {r : AgentIdx × AuditEntry} (h : (C.note r).Fits) : C.Fits := by
  intro k
  refine Nat.le_trans ?_ (h k)
  by_cases hk : k = r.1
  · rw [hk, trails_note_self]
    exact AuditTrail.count_le_note
  · rw [trails_note_of_ne hk]

theorem fits_of_foldl_note {l : List (AgentIdx × AuditEntry)} (h : (l.foldl note C).Fits) : C.Fits := by
  induction l generalizing C with
  | nil => exact h
  | cons r l ih => exact fits_of_note (ih h)

theorem fits_of_perform {e : CapEffect} (h : (C.perform now e).Fits) : C.Fits :=
  fits_of_foldl_note (C := { C with masks := e.masks C.masks }) h

/-- The entries of an agent's log are those that were written for it, in order. -/
theorem bitSource_foldl_note {l : List (AgentIdx × AuditEntry)} (h : (l.foldl note C).Fits) :
    bitSource n ((l.foldl note C).trails k).entries =
      l.foldl (fun source r => if r.1 = k then (r.2.source? n).or source else source)
        (bitSource n (C.trails k).entries) := by
  induction l generalizing C with
  | nil => rfl
  | cons r l ih =>
    rw [List.foldl_cons, List.foldl_cons, ih h]
    congr 1
    have hfits : (C.note r).Fits := fits_of_foldl_note h
    by_cases hk : r.1 = k
    · subst hk
      have hroom := hfits r.1
      rw [if_pos rfl]
      rw [trails_note_self] at hroom ⊢
      exact AuditTrail.bitSource_note hroom
    · rw [if_neg hk, trails_note_of_ne (Ne.symm hk)]

theorem agentIdOf_ne_zero (i : AgentIdx) : agentIdOf i ≠ 0 := by
  intro h
  have := congrArg UInt32.toNat h
  rw [toNat_agentIdOf] at this
  exact absurd this (Nat.succ_ne_zero _)

/-- The log tells what the call does. -/
theorem bitSource_perform {e : CapEffect} (he : e.Proper) (h : (C.perform now e).Fits) :
    bitSource n ((C.perform now e).trails k).entries =
      (e.tells C.masks k n).or (bitSource n (C.trails k).entries) := by
  refine (bitSource_foldl_note h).trans ?_
  show _ = (e.tells C.masks k n).or (bitSource n (C.trails k).entries)
  generalize bitSource n (C.trails k).entries = source
  cases e with
  | grant i cap =>
    simp only [CapEffect.entries, List.foldl_cons, List.foldl_nil, AuditEntry.source?, CapEffect.tells]
    by_cases hk : i = k <;> simp [hk]
  | revoke i cap =>
    simp only [CapEffect.entries, List.foldl_cons, List.foldl_nil, AuditEntry.source?, CapEffect.tells]
    by_cases hk : i = k <;> simp [hk]
  | check i cap =>
    simp only [CapEffect.entries, List.foldl_cons, List.foldl_nil, AuditEntry.source?, CapEffect.tells]
    simp
  | transfer i j cap =>
    have hne : i ≠ j := he
    simp only [CapEffect.entries, List.foldl_cons, List.foldl_nil, AuditEntry.source?, CapEffect.tells]
    by_cases hi : i = k
    · subst hi
      simp [hne.symm]
    · by_cases hj : j = k <;> simp [hi, hj]
  | inherit i j =>
    simp only [CapEffect.entries, List.foldl_cons, List.foldl_nil, AuditEntry.source?, CapEffect.tells]
    by_cases hj : j = k <;> simp [hj, agentIdOf_ne_zero]

/-- What is known of a bit: its source in the log, whether it is set, whether it was at the start, and the
direction of the last move. -/
def Explains (source : Option BitSource) (bit start : Bool) (d : Option Bool) : Prop :=
  match source with
  | none => bit = start ∧ d = none
  | some (.fixed value) => bit = value ∧ d = none
  | some .moved => d = some bit

theorem Explains.or {source told : Option BitSource} {bit bit' start : Bool} {d d' : Option Bool}
    (h : Explains source bit start d) (htold : CapEffect.Told told bit bit' d d') :
    Explains (told.or source) bit' start d' := by
  cases told with
  | none =>
    obtain ⟨rfl, rfl⟩ := htold.nothing rfl
    exact h
  | some told =>
    cases told with
    | fixed value => exact htold.fixed value rfl
    | moved => exact htold.moved rfl

/-- The logs explain the bits, from those at the start and the directions of the moves. -/
def Explained (C : CapState) (start : AgentIdx → UInt64) (d : AgentIdx → Nat → Option Bool) : Prop :=
  ∀ k n, Explains (bitSource n (C.trails k).entries) (hasBit (C.masks k) n) (hasBit (start k) n) (d k n)

theorem Explained.perform {start : AgentIdx → UInt64} {d : AgentIdx → Nat → Option Bool} {e : CapEffect}
    (h : C.Explained start d) (he : e.Proper) (hfits : (C.perform now e).Fits) :
    (C.perform now e).Explained start fun k n => e.direction k n (d k n) := by
  intro k n
  rw [masks_perform, bitSource_perform he hfits]
  exact (h k n).or (e.told he)

/-- Logs without entries. -/
theorem explained_start (h : ∀ k, (C.trails k).count = 0) : C.Explained C.masks fun _ _ => none := by
  intro k n
  have hnil : (C.trails k).entries = [] := by rw [AuditTrail.entries, h k]; rfl
  rw [hnil]
  exact ⟨rfl, rfl⟩

/-- Equal logs explain equal bits if the moves agree. -/
theorem masks_eq_iff {C' : CapState} {start : AgentIdx → UInt64} {d d' : AgentIdx → Nat → Option Bool}
    (h : C.Explained start d) (h' : C'.Explained start d')
    (hlogs : ∀ k, (C.trails k).entries = (C'.trails k).entries) :
    C.masks = C'.masks ↔ ∀ k n v v', d k n = some v → d' k n = some v' → v = v' := by
  have hboth (k : AgentIdx) (n : Nat) := And.intro (h k n) (h' k n)
  simp only [← hlogs] at hboth
  constructor
  · intro hmasks k n v v' hv hv'
    obtain ⟨hone, htwo⟩ := hboth k n
    rw [← hmasks, hv'] at htwo
    rw [hv] at hone
    generalize bitSource n (C.trails k).entries = source at hone htwo
    cases source with
    | none => exact absurd hone.2 (by simp)
    | some source =>
      cases source with
      | fixed value => exact absurd hone.2 (by simp)
      | moved => exact Option.some.inj (Eq.trans hone (Eq.symm htwo))
  · intro hagree
    funext k
    refine eq_of_hasBit fun n => ?_
    obtain ⟨hone, htwo⟩ := hboth k n
    generalize bitSource n (C.trails k).entries = source at hone htwo
    cases source with
    | none => exact hone.1.trans htwo.1.symm
    | some source =>
      cases source with
      | fixed value => exact hone.1.trans htwo.1.symm
      | moved => exact hagree k n _ _ hone htwo

end CapState

/-! ## Histories -/

namespace AgentSystem

variable {s t : AgentSystem} {as : List AgentAction}

/-- The direction in which bit `n` of agent `k` was last moved in a history: `some true` or `some false` if the
last call that had an effect on the bit was a transfer to the agent or from it. -/
def lastMove (k : AgentIdx) (n : Nat) : Option Bool → List AgentAction → AgentSystem → Option Bool
  | d, [], _ => d
  | d, a :: as, s =>
    let d := match a.effect? s.rt with
      | some e => e.direction k n d
      | none => d
    match step a s with
    | some t => lastMove k n d as t
    | none => d

/-- The entries in the log of an agent. -/
def auditEntries (s : AgentSystem) (k : AgentIdx) : List AuditEntry := (s.rt.capState.trails k).entries

theorem proper_of_effect {e : CapEffect} {a : AgentAction} (h : a.effect? s.rt = some e) : e.Proper := by
  cases a with
  | grant | revoke | hasCap =>
    obtain ⟨i, rfl⟩ := effectOn_eq_some h
    trivial
  | transfer =>
    obtain ⟨i, j, rfl, -, -, hne, -⟩ := transferEffect_eq_some h
    exact hne
  | inherit =>
    obtain ⟨i, j, rfl⟩ := inheritEffect_eq_some h
    trivial
  | _ => cases h

/-- One call of a history. -/
theorem step_explained {a : AgentAction} (ha : a.kind = .capabilities) (h : step a s = some t) :
    (t.rt.capState.Fits → s.rt.capState.Fits) ∧
    ∀ start d, s.rt.capState.Explained start d → t.rt.capState.Fits →
      t.rt.capState.Explained start fun k n =>
        match a.effect? s.rt with
        | some e => e.direction k n (d k n)
        | none => d k n := by
  rw [step_capState h ha]
  cases heffect : a.effect? s.rt with
  | none => exact ⟨id, fun _ _ hold _ => hold⟩
  | some e =>
    exact ⟨CapState.fits_of_perform, fun _ _ hold hfits => hold.perform (proper_of_effect heffect) hfits⟩

theorem fits_of_execute (has : ∀ a ∈ as, a.kind = .capabilities) (h : execute step as s = some t)
    (hfits : t.rt.capState.Fits) : s.rt.capState.Fits := by
  induction as generalizing s with
  | nil =>
    cases h
    exact hfits
  | cons a as ih =>
    obtain ⟨u, hu, hrest⟩ := Option.bind_eq_some_iff.1 h
    refine (step_explained (has a List.mem_cons_self) hu).1 ?_
    exact ih (fun b hb => has b (List.mem_cons_of_mem a hb)) hrest

/-- A history whose entries fit in the logs. -/
theorem explained_of_execute (has : ∀ a ∈ as, a.kind = .capabilities) (h : execute step as s = some t)
    (hfits : t.rt.capState.Fits) {start : AgentIdx → UInt64} {d : AgentIdx → Nat → Option Bool}
    (hstart : s.rt.capState.Explained start d) :
    t.rt.capState.Explained start fun k n => lastMove k n (d k n) as s := by
  induction as generalizing s d with
  | nil =>
    cases h
    exact hstart
  | cons a as ih =>
    obtain ⟨u, hu, hrest⟩ := Option.bind_eq_some_iff.1 h
    have has' : ∀ b ∈ as, b.kind = .capabilities := fun b hb => has b (List.mem_cons_of_mem a hb)
    have hone := (step_explained (has a List.mem_cons_self) hu).2 start d hstart (fits_of_execute has' hrest hfits)
    have hall := ih has' hrest hone
    simp only [lastMove, hu]
    exact hall

end AgentSystem

/-- Two histories of calls of the capability functions, from the same capability bits and empty logs, that
leave the same entries in all logs, leave the same capability bits if and only if, for each bit of each agent
that was last affected by a transfer, the two transfers go in the same direction. -/
theorem auditLogs_determine_iff {as as' : List AgentAction} {s s' t t' : AgentSystem}
    (has : ∀ a ∈ as, a.kind = .capabilities) (has' : ∀ a ∈ as', a.kind = .capabilities)
    (hrun : execute AgentSystem.step as s = some t) (hrun' : execute AgentSystem.step as' s' = some t')
    (hmasks : s.rt.capState.masks = s'.rt.capState.masks)
    (hempty : ∀ k, (s.rt.agents k).auditCount = 0) (hempty' : ∀ k, (s'.rt.agents k).auditCount = 0)
    (hfits : ∀ k, (t.rt.agents k).auditCount ≤ fluxAuditLogSize)
    (hfits' : ∀ k, (t'.rt.agents k).auditCount ≤ fluxAuditLogSize)
    (hlogs : ∀ k, t.auditEntries k = t'.auditEntries k) :
    t.rt.capState.masks = t'.rt.capState.masks ↔
      ∀ k n v v', AgentSystem.lastMove k n none as s = some v →
        AgentSystem.lastMove k n none as' s' = some v' → v = v' := by
  have hone := AgentSystem.explained_of_execute has hrun hfits (CapState.explained_start hempty)
  have htwo := AgentSystem.explained_of_execute has' hrun' hfits' (CapState.explained_start hempty')
  rw [← hmasks] at htwo
  exact CapState.masks_eq_iff hone htwo hlogs

/-! ## Two agents that pass a bit on -/

/-- Two agents that both may spawn. -/
def twoSpawners : AgentRuntime := ((fluxAgentInit none).withBare fluxCapSpawn).withBare fluxCapSpawn

/-- The first agent gives the bit to the second. -/
def passOn : AgentSystem := ⟨(twoSpawners.fluxAgentTransferCap 5 6 fluxCapSpawn).2, []⟩

/-- The second agent gives the bit to the first. -/
def passBack : AgentSystem := ⟨(twoSpawners.fluxAgentTransferCap 6 5 fluxCapSpawn).2, []⟩

theorem auditLogs_determine_iff_pass :
    passOn.rt.capState.masks = passBack.rt.capState.masks ↔
      ∀ k n v v', AgentSystem.lastMove k n none [.transfer 5 6 fluxCapSpawn]
          ⟨twoSpawners, []⟩ = some v →
        AgentSystem.lastMove k n none [.transfer 6 5 fluxCapSpawn]
          ⟨twoSpawners, []⟩ = some v' → v = v' :=
  auditLogs_determine_iff (t := passOn) (by simp [AgentAction.kind]) (by simp [AgentAction.kind]) rfl rfl rfl
    (by decide +kernel) (by decide +kernel) (by decide +kernel) (by decide +kernel) (by decide +kernel)

/-- The two transfers leave the same logs, and each leaves the bit with another agent. -/
theorem passOn_passBack_same_logs :
    (∀ k, passOn.auditEntries k = passBack.auditEntries k) ∧
      (∀ k, (passOn.rt.agents k).auditCount ≤ 1 ∧ (passBack.rt.agents k).auditCount ≤ 1) ∧
      passOn.rt.capState.masks 1 ≠ passBack.rt.capState.masks 1 := by
  refine ⟨?_, ?_, ?_⟩ <;> decide +kernel

end FluxOs
