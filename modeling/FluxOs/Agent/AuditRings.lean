import FluxOs.Agent.AuditTrails
import FluxOs.Lib.Histories

/-!
# The ring of an audit log

The log of an agent holds the latest entries that the calls of the capability functions leave: an event that
repeats the action of the entry before it only renews the time of that entry.  A dump prints these entries,
the oldest first.
-/

namespace FluxOs

open Actions AgentRuntime Histories

/-! ## Merging -/

/-- The events are about the same action. -/
def AuditEntry.Repeats (e last : AuditEntry) : Prop :=
  last.cap = e.cap ∧ last.action = e.action ∧ last.targetId = e.targetId

instance (e last : AuditEntry) : Decidable (e.Repeats last) :=
  inferInstanceAs (Decidable (last.cap = e.cap ∧ last.action = e.action ∧ last.targetId = e.targetId))

/-- An event is merged into the entry before it, which gets its time, if it repeats the action. -/
def addEvent (entries : List AuditEntry) (e : AuditEntry) : List AuditEntry :=
  match entries.getLast? with
  | some last =>
    if e.Repeats last then entries.dropLast ++ [{ last with timestamp := e.timestamp }] else entries ++ [e]
  | none => [e]

/-- The entries that events leave. -/
def mergedEvents (events : List AuditEntry) : List AuditEntry := events.foldl addEvent []

/-- The text of a dump of entries. -/
def dumpText (entries : List AuditEntry) : List Char := entries.flatMap AuditEntry.line

namespace AuditTrail

variable {trail : AuditTrail} {entries events : List AuditEntry} {e last : AuditEntry} {k : Nat}

/-- The entries were written to the log, one after the other. -/
structure Records (trail : AuditTrail) (entries : List AuditEntry) : Prop where
  holds : Holds fluxAuditLogSize (fun i => trail.log (AgentSlot.auditIndex i)) entries
  count : trail.count = entries.length

theorem records_nil (h : trail.count = 0) : trail.Records [] := ⟨holds_nil, h⟩

theorem update_auditIndex {log : Fin fluxAuditLogSize → AuditEntry} {i : Nat} (hi : i < fluxAuditLogSize) :
    Function.update log (AgentSlot.auditIndex k) e (AgentSlot.auditIndex i) =
      Function.update (fun i => log (AgentSlot.auditIndex i)) (k % fluxAuditLogSize) e i := by
  by_cases hk : i = k % fluxAuditLogSize
  · have hslot : AgentSlot.auditIndex i = AgentSlot.auditIndex k := Fin.ext (by
      show i % fluxAuditLogSize = k % fluxAuditLogSize
      rw [hk, Nat.mod_mod])
    rw [hk, Function.update_self, ← hk, hslot, Function.update_self]
  · have hslot : AgentSlot.auditIndex i ≠ AgentSlot.auditIndex k := fun heq => hk (by
      have hval : i % fluxAuditLogSize = k % fluxAuditLogSize := congrArg Fin.val heq
      rwa [Nat.mod_eq_of_lt hi] at hval)
    rw [Function.update_of_ne hslot, Function.update_of_ne hk]

theorem auditIndex_mod : AgentSlot.auditIndex (k % fluxAuditLogSize) = AgentSlot.auditIndex k :=
  Fin.ext (Nat.mod_mod k fluxAuditLogSize)

/-- The entry that an event is compared with. -/
theorem Records.last_eq (h : trail.Records (entries ++ [last])) :
    0 < trail.count ∧ trail.log (AgentSlot.auditIndex (trail.count - 1)) = last := by
  have hcount := h.count
  rw [List.length_append, List.length_singleton] at hcount
  have hlast := h.holds entries.length (by simp) (by simp [fluxAuditLogSize])
  simp only [auditIndex_mod] at hlast
  rw [hcount]
  refine ⟨Nat.succ_pos _, hlast.trans ?_⟩
  exact List.getElem_concat_length rfl ..

/-- An event that is not merged is written behind the last entry. -/
theorem Records.write (h : trail.Records entries) :
    AuditTrail.Records ⟨Function.update trail.log (AgentSlot.auditIndex trail.count) e, trail.count + 1⟩
      (entries ++ [e]) := by
  refine ⟨(h.holds.write (x := e)).congr fun i hi => ?_, ?_⟩
  · rw [h.count]
    exact update_auditIndex hi
  · rw [h.count, List.length_append, List.length_singleton]

/-- An event that is merged changes the last entry. -/
theorem Records.rewrite (h : trail.Records (entries ++ [last])) :
    AuditTrail.Records ⟨Function.update trail.log (AgentSlot.auditIndex (trail.count - 1)) e, trail.count⟩
      (entries ++ [e]) := by
  have hcount := h.count
  rw [List.length_append, List.length_singleton] at hcount
  refine ⟨(h.holds.rewrite (x := e)).congr fun i hi => ?_, ?_⟩
  · rw [hcount]
    exact update_auditIndex hi
  · rw [hcount, List.length_append, List.length_singleton]

/-- A log records an event as it is merged. -/
theorem Records.note (h : trail.Records entries) : (trail.note e).Records (addEvent entries e) := by
  unfold AuditTrail.note addEvent
  simp only
  rcases List.eq_nil_or_concat entries with rfl | ⟨entries, last, rfl⟩
  · have hcount : ¬ trail.count > 0 := by
      rw [h.count]
      exact Nat.lt_irrefl 0
    rw [if_neg fun hmerge => hcount hmerge.1]
    exact h.write
  · rw [List.concat_eq_append] at h ⊢
    obtain ⟨hpos, hlast⟩ := h.last_eq
    rw [List.getLast?_concat, List.dropLast_concat, hlast]
    simp only
    by_cases hrepeats : e.Repeats last
    · rw [if_pos ⟨hpos, hrepeats⟩, if_pos hrepeats]
      exact h.rewrite
    · rw [if_neg fun hmerge => hrepeats hmerge.2, if_neg hrepeats]
      exact h.write

theorem Records.notes (h : trail.Records entries) :
    (events.foldl AuditTrail.note trail).Records (events.foldl addEvent entries) := by
  induction events generalizing trail entries with
  | nil => exact h
  | cons e events ih => exact ih h.note

/-- The latest entries, in the order of the dump. -/
theorem Records.latest (h : trail.Records entries) :
    (List.range (min entries.length fluxAuditLogSize)).map
      (fun i => trail.log (AgentSlot.auditIndex (entries.length - min entries.length fluxAuditLogSize + i))) =
    latest fluxAuditLogSize entries := by
  have hread := h.holds.read_latest (Nat.min_le_right entries.length fluxAuditLogSize) (Nat.min_le_left ..)
  simp only [auditIndex_mod] at hread
  rw [hread, latest_min]

end AuditTrail

/-! ## Dumping -/

theorem length_line (e : AuditEntry) : 2 ≤ e.line.length := by
  simp only [AuditEntry.line, List.length_append, List.length_singleton]
  omega

/-- In a buffer that is large enough no line is cut off. -/
theorem AgentSlot.auditDumpLoop_eq {slot : AgentSlot} {buflen pos : Int} {start left i : Nat} {text : List Char}
    (hroom : pos + (dumpText ((List.range' i left).map fun i =>
      slot.auditLog (auditIndex (start + i)))).length < buflen) :
    slot.auditDumpLoop buflen start left i (text, pos) =
      (text ++ dumpText ((List.range' i left).map fun i => slot.auditLog (auditIndex (start + i))),
        pos + (dumpText ((List.range' i left).map fun i => slot.auditLog (auditIndex (start + i)))).length) := by
  induction left generalizing i text pos with
  | zero => simp [auditDumpLoop, dumpText]
  | succ left ih =>
    have hline := length_line (slot.auditLog (auditIndex (start + i)))
    rw [List.range'_succ, List.map_cons, dumpText, List.flatMap_cons, List.length_append,
      Int.natCast_add] at hroom ⊢
    rw [auditDumpLoop, if_pos (by omega)]
    simp only
    rw [List.take_of_length_le (by omega), ih (by rw [dumpText]; omega), List.append_assoc, Int.add_assoc]
    rfl

/-- A dump prints the latest entries, the oldest first. -/
theorem AgentRuntime.fluxAgentAuditDump_eq {rt : AgentRuntime} {id : UInt32} {k : AgentIdx} {buflen : Int}
    {entries : List AuditEntry} (hinit : rt.initialized = true) (hid : rt.agentSlotById id = some k)
    (h : (rt.agents k).trail.Records entries)
    (hroom : (dumpText (latest fluxAuditLogSize entries)).length < buflen) :
    rt.fluxAgentAuditDump id buflen =
      (dumpText (latest fluxAuditLogSize entries),
        ((dumpText (latest fluxAuditLogSize entries)).length : Int)) := by
  have hlatest := h.latest
  have hcount : (rt.agents k).auditCount = entries.length := h.count
  have hstart : (if entries.length > fluxAuditLogSize then entries.length - fluxAuditLogSize else 0) =
      entries.length - min entries.length fluxAuditLogSize := by
    generalize fluxAuditLogSize = size
    split <;> omega
  have hentries : (if entries.length - (entries.length - min entries.length fluxAuditLogSize) > fluxAuditLogSize
      then fluxAuditLogSize else entries.length - (entries.length - min entries.length fluxAuditLogSize)) =
        min entries.length fluxAuditLogSize := by
    generalize fluxAuditLogSize = size
    split <;> omega
  unfold fluxAgentAuditDump
  rw [if_neg (by rw [hinit]; simp; omega), hid]
  simp only
  rw [hcount, hstart, hentries]
  rw [List.range_eq_range'] at hlatest
  have hloop := @AgentSlot.auditDumpLoop_eq (rt.agents k) buflen 0
    (entries.length - min entries.length fluxAuditLogSize) (min entries.length fluxAuditLogSize) 0 []
  rw [show (List.range' 0 (min entries.length fluxAuditLogSize)).map (fun i => (rt.agents k).auditLog
    (AgentSlot.auditIndex (entries.length - min entries.length fluxAuditLogSize + i))) =
      latest fluxAuditLogSize entries from hlatest] at hloop
  rw [hloop (by omega), List.nil_append, Int.zero_add]

/-! ## Runs -/

namespace CapState

variable {C : CapState} {k : AgentIdx}

/-- The entries for the log of an agent. -/
def entriesFor (k : AgentIdx) (l : List (AgentIdx × AuditEntry)) : List AuditEntry :=
  (l.filter (·.1 = k)).map (·.2)

theorem trails_foldl_note (l : List (AgentIdx × AuditEntry)) :
    (l.foldl note C).trails k = (entriesFor k l).foldl AuditTrail.note (C.trails k) := by
  induction l generalizing C with
  | nil => rfl
  | cons r l ih =>
    rw [List.foldl_cons, ih]
    by_cases hk : r.1 = k
    · subst hk
      rw [entriesFor, entriesFor, List.filter_cons_of_pos (by simp), List.map_cons, List.foldl_cons,
        trails_note_self]
    · rw [entriesFor, entriesFor, List.filter_cons_of_neg (by simpa using hk), trails_note_of_ne (Ne.symm hk)]

end CapState

namespace AgentSystem

variable {s t : AgentSystem} {a : AgentAction} {as : List AgentAction} {k : AgentIdx}

/-- The events that a call records for an agent. -/
def eventsOf (k : AgentIdx) (a : AgentAction) (s : AgentSystem) : List AuditEntry :=
  match a.effect? s.rt with
  | some e => CapState.entriesFor k (e.entries s.rt.agentNow s.rt.capState.masks)
  | none => []

/-- The events that a run records for an agent. -/
def auditEvents (k : AgentIdx) : List AgentAction → AgentSystem → List AuditEntry
  | [], _ => []
  | a :: as, s => eventsOf k a s ++ (step a s).elim [] (auditEvents k as)

/-- A call of a capability function, or time that passes. -/
def Audited (a : AgentAction) : Prop := a.kind = .capabilities ∨ a = .tick

theorem trails_step (ha : Audited a) (h : step a s = some t) :
    t.rt.capState.trails k = (eventsOf k a s).foldl AuditTrail.note (s.rt.capState.trails k) := by
  rcases ha with hkind | rfl
  · rw [step_capState h hkind, eventsOf]
    cases a.effect? s.rt with
    | none => rfl
    | some e => exact CapState.trails_foldl_note _
  · cases h
    rfl

theorem step_isSome (ha : Audited a) : ∃ t, step a s = some t := by
  rcases ha with hkind | rfl
  · cases a with
    | grant | revoke | hasCap | transfer | inherit => exact ⟨_, rfl⟩
    | _ => exact absurd hkind (by simp [AgentAction.kind])
  · exact ⟨_, rfl⟩

/-- What calls of capability functions and time leave alone. -/
structure Keeps (k : AgentIdx) (s t : AgentSystem) : Prop where
  initialized : t.rt.initialized = s.rt.initialized
  active : (t.rt.agents k).active = (s.rt.agents k).active

theorem keeps_of_step (ha : Audited a) (h : step a s = some t) : Keeps k s t := by
  have hkind : a.kind ≠ .lifecycle := by
    rcases ha with hkind | rfl
    · rw [hkind]
      decide
    · decide
  exact ⟨step_keeps (g := AgentView.initialized) h fun _ _ hchange => hchange.config_eq.1,
    step_active h hkind k⟩

/-- A run records the events of its calls. -/
theorem records_of_execute (has : ∀ a ∈ as, Audited a) {entries : List AuditEntry}
    (h : (s.rt.agents k).trail.Records entries) :
    ∃ t, execute step as s = some t ∧ Keeps k s t ∧
      (t.rt.agents k).trail.Records ((auditEvents k as s).foldl addEvent entries) := by
  induction as generalizing s entries with
  | nil => exact ⟨s, rfl, ⟨rfl, rfl⟩, h⟩
  | cons a as ih =>
    have ha : Audited a := has a List.mem_cons_self
    obtain ⟨t, ht⟩ := step_isSome (s := s) ha
    have hone : (t.rt.agents k).trail.Records ((eventsOf k a s).foldl addEvent entries) := by
      have htrail : (t.rt.agents k).trail = _ := trails_step (k := k) ha ht
      rw [htrail]
      exact h.notes
    obtain ⟨u, hu, hkeeps, hrest⟩ := ih (fun b hb => has b (List.mem_cons_of_mem a hb)) hone
    have hstep := keeps_of_step (k := k) ha ht
    refine ⟨u, execute_cons.2 ⟨t, ht, hu⟩, ⟨?_, ?_⟩, ?_⟩
    · exact hkeeps.initialized.trans hstep.initialized
    · exact hkeeps.active.trans hstep.active
    · rw [auditEvents, ht, Option.elim_some, List.foldl_append]
      exact hrest

end AgentSystem

/-- In every run of calls of the capability functions, at any times, the log of an agent holds the latest of the
entries that are left of the events of the agent when those that repeat the one before are merged, and a dump
to a buffer that is large enough prints just these, the oldest first. -/
theorem auditLog_latest (as : List AgentAction) (s : AgentSystem) (k : AgentIdx)
    (has : ∀ a ∈ as, AgentSystem.Audited a) (hinit : s.rt.initialized = true)
    (hactive : (s.rt.agents k).active = true)
    (hempty : (s.rt.agents k).auditCount = 0) :
    ∃ t entries, execute AgentSystem.step as s = some t ∧
      entries = mergedEvents (AgentSystem.auditEvents k as s) ∧
      (t.rt.agents k).auditCount = entries.length ∧
      (List.range (min entries.length fluxAuditLogSize)).map (fun i => (t.rt.agents k).auditLog
        (AgentSlot.auditIndex (entries.length - min entries.length fluxAuditLogSize + i))) =
          latest fluxAuditLogSize entries ∧
      ∀ buflen : Int, (dumpText (latest fluxAuditLogSize entries)).length < buflen →
        t.rt.fluxAgentAuditDump (agentIdOf k) buflen =
          (dumpText (latest fluxAuditLogSize entries),
            ((dumpText (latest fluxAuditLogSize entries)).length : Int)) := by
  obtain ⟨t, ht, hkeeps, hrecords⟩ := AgentSystem.records_of_execute has (AuditTrail.records_nil hempty)
  have hid : t.rt.agentSlotById (agentIdOf k) = some k :=
    agentSlotById_eq_some.2 ⟨rfl, hkeeps.active.trans hactive⟩
  exact ⟨t, _, ht, rfl, hrecords.count, hrecords.latest,
    fun buflen hroom => fluxAgentAuditDump_eq (hkeeps.initialized.trans hinit) hid hrecords hroom⟩

/-- An agent gets the same bits at two times, and they are revoked. -/
def grantedTwice : List AgentAction :=
  [.grant 5 fluxCapSpawn, .tick, .grant 5 fluxCapSpawn, .revoke 5 fluxCapSpawn]

theorem auditLog_latest_grantedTwice : ∃ t,
    execute AgentSystem.step grantedTwice ⟨twoSpawners, []⟩ = some t ∧ t.rt.fluxAgentAuditDump 5 100 =
      ("[1] GRANT cap=0x1 target=0\n[1] REVOKE cap=0x1 target=0\n".toList, 55) := by
  obtain ⟨t, entries, ht, rfl, -, -, hdump⟩ :=
    auditLog_latest grantedTwice ⟨twoSpawners, []⟩ 1
      (by simp [grantedTwice, AgentSystem.Audited, AgentAction.kind]) (by decide +kernel) (by decide +kernel)
      (by decide +kernel)
  exact ⟨t, ht, (hdump 100 (by decide +kernel)).trans (by decide +kernel)⟩

end FluxOs
