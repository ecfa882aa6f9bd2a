import FluxOs.Kernel.Log
import FluxOs.Lib.Histories

/-!
# The ring of the kernel log

The ring holds the latest 1024 records.  `flux_log_get_entry` and `flux_log_dump_ring` find the latest ones
once it is full: before that the first counts from the oldest entry, and the second prints all of them; a
dump of a part of a full ring prints the oldest part.
-/

namespace FluxOs

open Histories

/-- The calls that write to the log or change what is written. -/
inductive LogCall
  | format (r : LogRecord)
  | setLevel (level : Int32)
  deriving DecidableEq, Repr

def LogCall.run (log : KernelLog) : LogCall → KernelLog
  | .format r => log.fluxLogFormat r
  | .setLevel level => log.fluxLogSetLevel level

/-- What is stored of the records, with their numbers. -/
def history (recs : List LogRecord) : List LogEntry := recs.mapIdx fun i r => r.entry (UInt32.ofNat i)

namespace KernelLog

def runCalls (log : KernelLog) (calls : List LogCall) : KernelLog := calls.foldl LogCall.run log

/-- The records that some calls write. -/
def recorded (log : KernelLog) : List LogCall → List LogRecord
  | [] => []
  | .format r :: calls =>
    if r.level.toInt > log.minLevel.toInt then log.recorded calls
    else r :: (log.fluxLogRecord r).recorded calls
  | .setLevel level :: calls => (log.fluxLogSetLevel level).recorded calls

/-- The log has been written these records since it was cleared. -/
structure Records (log : KernelLog) (recs : List LogRecord) : Prop where
  holds : Holds fluxLogRingSize log.ring (history recs)
  head : log.head.toNat = recs.length % fluxLogRingSize
  count : log.count = UInt32.ofNat recs.length

variable {log : KernelLog} {recs : List LogRecord} {r : LogRecord} {calls : List LogCall} {i j k : Nat}

/-! ## Records -/

theorem length_history : (history recs).length = recs.length := List.length_mapIdx

theorem history_concat : history (recs ++ [r]) = history recs ++ [r.entry (UInt32.ofNat recs.length)] :=
  List.mapIdx_concat

theorem records_cleared (log : KernelLog) (hasColor : Bool) : (log.cleared hasColor).Records [] :=
  ⟨holds_nil, rfl, rfl⟩

theorem Records.record (h : log.Records recs) : (log.fluxLogRecord r).Records (recs ++ [r]) := by
  refine ⟨?_, ?_, ?_⟩
  · rw [history_concat, ← h.count]
    show Holds _ (Function.update log.ring log.head.toNat _) _
    rw [h.head, ← length_history]
    exact h.holds.write
  · show ((log.head + 1) % 1024).toNat = _
    have hlt : recs.length % fluxLogRingSize < 1024 := Nat.mod_lt _ (by decide)
    rw [UInt32.toNat_mod, UInt32.toNat_add, h.head, List.length_append, List.length_singleton]
    show (recs.length % 1024 + 1) % 2 ^ 32 % 1024 = _
    rw [Nat.mod_mod_of_dvd _ (by decide), Nat.mod_add_mod]
    rfl
  · show log.count + 1 = _
    rw [h.count, List.length_append, List.length_singleton, UInt32.ofNat_add]
    rfl

theorem Records.setLevel (h : log.Records recs) (level : Int32) : (log.fluxLogSetLevel level).Records recs := by
  unfold fluxLogSetLevel
  split
  · exact ⟨h.holds, h.head, h.count⟩
  split
  · exact ⟨h.holds, h.head, h.count⟩
  split
  · exact ⟨h.holds, h.head, h.count⟩
  split
  · exact ⟨h.holds, h.head, h.count⟩
  · exact h

theorem Records.runCalls (h : log.Records recs) (calls : List LogCall) :
    (log.runCalls calls).Records (recs ++ log.recorded calls) := by
  induction calls generalizing log recs with
  | nil =>
    rw [recorded, List.append_nil]
    exact h
  | cons call calls ih =>
    cases call with
    | format r =>
      show (runCalls (log.fluxLogFormat r) calls).Records _
      unfold fluxLogFormat recorded
      split
      · exact ih h
      · rw [List.append_cons]
        exact ih h.record
    | setLevel level => exact ih (h.setLevel level)

/-! ## Sequence numbers -/

theorem sequence_history (hi : i < (history recs).length) : (history recs)[i].sequence = UInt32.ofNat i := by
  simp only [history, List.getElem_mapIdx]
  rfl

/-- Records that are less than a round of the counter apart have different numbers. -/
theorem eq_of_sequence (h : UInt32.ofNat i = UInt32.ofNat j) (hij : i < j + 2 ^ 32) (hji : j < i + 2 ^ 32) :
    i = j := by
  have hmod : i % 2 ^ 32 = j % 2 ^ 32 := by
    have := congrArg UInt32.toNat h
    rwa [UInt32.toNat_ofNat', UInt32.toNat_ofNat'] at this
  by_contra hne
  rcases Nat.lt_or_gt_of_ne hne with hlt | hlt
  · exact mod_ne_mod hlt hji hmod
  · exact mod_ne_mod hlt hij hmod.symm

theorem history_inj (hi : i < (history recs).length) (hj : j < (history recs).length) (hij : i < j + 2 ^ 32)
    (hji : j < i + 2 ^ 32) : (history recs)[i] = (history recs)[j] ↔ i = j := by
  constructor
  · intro h
    have hseq := congrArg LogEntry.sequence h
    rw [sequence_history, sequence_history] at hseq
    exact eq_of_sequence hseq hij hji
  · rintro rfl
    rfl

/-- `s_log_count` has gone round some number of times. -/
theorem Records.count_toNat (h : log.Records recs) : log.count.toNat = recs.length % 2 ^ 32 := by
  rw [h.count, UInt32.toNat_ofNat']

/-- The slot of a record behind the last time that `s_log_count` was zero. -/
theorem mod_behind_round (n i : Nat) (hi : i < fluxLogRingSize) :
    (n - n % 2 ^ 32 + i) % fluxLogRingSize = i := by
  have hround : (n - n % 2 ^ 32) % fluxLogRingSize = 0 := by
    have hdvd : 2 ^ 32 ∣ n - n % 2 ^ 32 := Nat.dvd_sub_mod n
    exact Nat.mod_eq_zero_of_dvd (Nat.dvd_trans (by decide) hdvd)
  rw [Nat.add_mod, hround, Nat.zero_add, Nat.mod_mod, Nat.mod_eq_of_lt hi]

/-! ## Reading one entry -/

/-- `flux_log_get_entry` finds the entry with this number, counted from the latest one, and no other. -/
def EntryRight (log : KernelLog) (recs : List LogRecord) (index : Int32) : Prop :=
  log.fluxLogGetEntry index =
    if index < 0 then .error .errInvalid
    else match (latest fluxLogRingSize (history recs)).reverse[index.toNatClampNeg]? with
      | some e => .ok e
      | none => .error .errInvalid

theorem latest_reverse (i : Nat) : (latest fluxLogRingSize (history recs)).reverse[i]? =
    if i < min recs.length fluxLogRingSize then (history recs)[recs.length - 1 - i]? else none := by
  have hlen : (latest fluxLogRingSize (history recs)).length = min fluxLogRingSize recs.length := by
    rw [length_latest, length_history]
  split
  · next hi =>
    have hindex : recs.length - fluxLogRingSize + (min fluxLogRingSize recs.length - 1 - i) =
        recs.length - 1 - i := by omega
    rw [List.getElem?_reverse (by rw [hlen]; omega), hlen, latest, List.getElem?_drop, length_history, hindex]
  · next hi =>
    rw [List.getElem?_eq_none]
    rw [List.length_reverse, hlen]
    omega

theorem getEntry_eq (h : log.Records recs) {index : Int32} (hindex : ¬ index < 0)
    (hi : index.toNatClampNeg = i) : log.fluxLogGetEntry index =
      if recs.length % 2 ^ 32 ≤ i then .error .errInvalid
      else if recs.length % 2 ^ 32 < fluxLogRingSize then .ok (log.ring i)
      else .ok (log.ring ((log.head + 1024 - 1 - index.toUInt32) % 1024).toNat) := by
  have hnat : index.toUInt32.toNat = i := (Int32.toNat_toUInt32_of_le (Int32.not_lt.1 hindex)).trans hi
  have hle : log.count ≤ index.toUInt32 ↔ recs.length % 2 ^ 32 ≤ i := by
    rw [UInt32.le_iff_toNat_le, h.count_toNat, hnat]
  have hlt : log.count < 1024 ↔ recs.length % 2 ^ 32 < fluxLogRingSize := by
    rw [UInt32.lt_iff_toNat_lt, h.count_toNat]
    rfl
  unfold fluxLogGetEntry
  simp only [if_neg hindex, hle, hlt, hnat]

/-- The slot of the entry number `i` of a full ring, counted from the latest one. -/
theorem slot_from_head (h : log.Records recs) {index : UInt32} (hi : index.toNat < fluxLogRingSize)
    (hle : index.toNat < recs.length) :
    ((log.head + 1024 - 1 - index) % 1024).toNat = (recs.length - 1 - index.toNat) % fluxLogRingSize := by
  have hsize : fluxLogRingSize = 1024 := rfl
  have hhead : log.head.toNat < 1024 := by
    rw [h.head]
    exact Nat.mod_lt _ (by decide)
  have hsum : (log.head + 1024 - 1 - index).toNat = log.head.toNat + 1023 - index.toNat := by
    have h1024 : (log.head + 1024).toNat = log.head.toNat + 1024 := by
      rw [UInt32.toNat_add]
      show (log.head.toNat + 1024) % 2 ^ 32 = _
      omega
    have h1023 : (log.head + 1024 - 1).toNat = log.head.toNat + 1023 := by
      rw [UInt32.toNat_sub_of_le]
      · rw [h1024]
        rfl
      · rw [UInt32.le_iff_toNat_le, h1024]
        show 1 ≤ _
        omega
    rw [UInt32.toNat_sub_of_le, h1023]
    rw [UInt32.le_iff_toNat_le, h1023]
    omega
  rw [UInt32.toNat_mod, hsum, h.head]
  rw [hsize] at hi ⊢
  show _ % 1024 = _
  omega

/-- The indices for which the entry of a log of `n` records is found: the negative ones, those that are
neither in the ring nor below `s_log_count`, and of the others those of a ring that is full, and the middle
one of a ring that is not. -/
def EntryFound (n : Nat) (index : Int32) : Prop :=
  index < 0 ∨ (n % 2 ^ 32 ≤ index.toNatClampNeg ∧ min n fluxLogRingSize ≤ index.toNatClampNeg) ∨
    (index.toNatClampNeg < n % 2 ^ 32 ∧ index.toNatClampNeg < fluxLogRingSize ∧
      (fluxLogRingSize ≤ n % 2 ^ 32 ∨ 2 * index.toNatClampNeg + 1 = n % 2 ^ 32))

/-- The slot with the number of the index, as long as `s_log_count` is smaller than the ring. -/
theorem ring_of_small (h : log.Records recs) (hi : i < recs.length % 2 ^ 32)
    (hsmall : recs.length % 2 ^ 32 < fluxLogRingSize) :
    ∃ hlt : recs.length - recs.length % 2 ^ 32 + i < (history recs).length,
      log.ring i = (history recs)[recs.length - recs.length % 2 ^ 32 + i] := by
  have hle : recs.length % 2 ^ 32 ≤ recs.length := Nat.mod_le _ _
  have hlt : recs.length - recs.length % 2 ^ 32 + i < (history recs).length := by
    rw [length_history]
    omega
  have hslot := h.holds _ hlt (by rw [length_history]; omega)
  rw [mod_behind_round _ _ (Nat.lt_trans hi hsmall)] at hslot
  exact ⟨hlt, hslot⟩

theorem entryRight_iff (h : log.Records recs) (index : Int32) :
    EntryRight log recs index ↔ EntryFound recs.length index := by
  by_cases hindex : index < 0
  · refine iff_of_true ?_ (.inl hindex)
    unfold EntryRight fluxLogGetEntry
    rw [if_pos hindex, if_pos hindex]
  have hle : recs.length % 2 ^ 32 ≤ recs.length := Nat.mod_le _ _
  unfold EntryRight EntryFound
  rw [getEntry_eq h hindex rfl, if_neg hindex, latest_reverse, or_iff_right hindex]
  generalize hi : index.toNatClampNeg = i
  by_cases hcount : recs.length % 2 ^ 32 ≤ i
  · rw [if_pos hcount]
    by_cases hkept : i < min recs.length fluxLogRingSize
    · have hlt : recs.length - 1 - i < (history recs).length := by
        rw [length_history]
        omega
      rw [if_pos hkept, List.getElem?_eq_getElem hlt]
      refine iff_of_false (fun h => by cases h) ?_
      omega
    · rw [if_neg hkept]
      refine iff_of_true rfl (.inl ⟨hcount, ?_⟩)
      omega
  rw [if_neg hcount]
  by_cases hsmall : recs.length % 2 ^ 32 < fluxLogRingSize
  · obtain ⟨hlt, hring⟩ := ring_of_small h (Nat.not_le.1 hcount) hsmall
    have hlt' : recs.length - 1 - i < (history recs).length := by
      rw [length_history]
      omega
    rw [if_pos hsmall, if_pos (by omega), List.getElem?_eq_getElem hlt', hring]
    simp only [Except.ok.injEq]
    rw [history_inj _ _ (by omega) (by omega)]
    omega
  · rw [if_neg hsmall]
    by_cases hround : i < fluxLogRingSize
    · have hnat : index.toUInt32.toNat = i :=
        (Int32.toNat_toUInt32_of_le (Int32.not_lt.1 hindex)).trans hi
      have hlt : recs.length - 1 - i < (history recs).length := by
        rw [length_history]
        omega
      rw [slot_from_head h (by rwa [hnat]) (by rw [hnat]; omega), hnat, if_pos (by omega),
        List.getElem?_eq_getElem hlt, h.holds _ hlt (by rw [length_history]; omega)]
      refine iff_of_true rfl (.inr ⟨?_, hround, .inl ?_⟩)
      · omega
      · omega
    · rw [if_neg (by omega)]
      refine iff_of_false (fun h => by cases h) ?_
      omega

/-! ## What is printed for an entry -/

theorem digitChar_inj {m n : Nat} (hm : m < 10) (hn : n < 10) (h : Nat.digitChar m = Nat.digitChar n) :
    m = n := by
  have hall : ∀ m < 10, ∀ n < 10, Nat.digitChar m = Nat.digitChar n → m = n := by decide
  exact hall m hm n hn h

theorem itoaDigits_inj {fuel m n : Nat} (hm : m < 10 ^ fuel) (hn : n < 10 ^ fuel)
    (h : itoaDigits fuel m = itoaDigits fuel n) : m = n := by
  induction fuel generalizing m n with
  | zero =>
    rw [Nat.pow_zero] at hm hn
    omega
  | succ fuel ih =>
    unfold itoaDigits at h
    split at h
    · split at h
      · omega
      · cases h
    · split at h
      · cases h
      · obtain ⟨hdigit, hrest⟩ := List.cons.inj h
        have hlow := digitChar_inj (Nat.mod_lt m (by decide)) (Nat.mod_lt n (by decide)) hdigit
        have hhigh := ih (by rw [Nat.pow_succ] at hm; omega) (by rw [Nat.pow_succ] at hn; omega) hrest
        omega

theorem length_itoaDigits (fuel n : Nat) : (itoaDigits fuel n).length ≤ fuel := by
  induction fuel generalizing n with
  | zero => exact Nat.le_refl 0
  | succ fuel ih =>
    unfold itoaDigits
    split
    · exact Nat.zero_le _
    · exact Nat.succ_le_succ (ih _)

theorem mem_itoaDigits {fuel n : Nat} {c : Char} (h : c ∈ itoaDigits fuel n) :
    c ∈ (List.range 10).map Nat.digitChar := by
  induction fuel generalizing n with
  | zero => cases h
  | succ fuel ih =>
    unfold itoaDigits at h
    split at h
    · cases h
    · rcases List.mem_cons.1 h with rfl | h
      · exact List.mem_map_of_mem (List.mem_range.2 (Nat.mod_lt n (by decide)))
      · exact ih h

theorem fluxLogItoa_inj {v w : UInt32} (h : fluxLogItoa v = fluxLogItoa w) : v = w := by
  have hbound (v : UInt32) : v.toNat < 10 ^ 24 := Nat.lt_trans v.toNat_lt (by decide)
  -- the text of zero is that of no other number
  have hzero {v : UInt32} (h : ['0'] = (itoaDigits 24 v.toNat).reverse) : v = 0 := by
    have hdigits : ['0'] = itoaDigits 24 v.toNat := by
      rw [← List.reverse_reverse (itoaDigits 24 v.toNat), ← h]
      rfl
    unfold itoaDigits at hdigits
    split at hdigits
    · next hv => exact UInt32.toNat_inj.1 hv
    · obtain ⟨hdigit, hrest⟩ := List.cons.inj hdigits
      have hlow := digitChar_inj (m := 0) (by decide) (Nat.mod_lt v.toNat (by decide)) hdigit
      have hhigh : 0 = v.toNat / 10 :=
        itoaDigits_inj (show 0 < 10 ^ 23 by decide) (by have := hbound v; omega) hrest
      apply UInt32.toNat_inj.1
      show v.toNat = 0
      omega
  unfold fluxLogItoa at h
  split at h
  · next hv =>
    split at h
    · next hw => rw [hv, hw]
    · rw [hv, hzero h]
  · split at h
    · next hw => rw [hw, hzero h.symm]
    · exact UInt32.toNat_inj.1 (itoaDigits_inj (hbound v) (hbound w) (List.reverse_inj.1 h))

theorem length_fluxLogItoa (v : UInt32) : (fluxLogItoa v).length ≤ 24 := by
  unfold fluxLogItoa
  split
  · decide
  · rw [List.length_reverse]
    exact length_itoaDigits _ _

theorem not_mem_fluxLogItoa (v : UInt32) : ']' ∉ fluxLogItoa v ∧ ' ' ∉ fluxLogItoa v := by
  unfold fluxLogItoa
  split
  · decide
  · simp only [List.mem_reverse]
    exact ⟨fun h => absurd (mem_itoaDigits h) (by decide), fun h => absurd (mem_itoaDigits h) (by decide)⟩

/-- Two texts are split in the same way at the first of a mark. -/
theorem split_at_mark {c : Char} {x y r r' : List Char} (hx : c ∉ x) (hy : c ∉ y)
    (h : x ++ c :: r = y ++ c :: r') : x = y ∧ r = r' := by
  induction x generalizing y with
  | nil =>
    rcases y with - | ⟨d, y⟩
    · exact ⟨rfl, List.tail_eq_of_cons_eq h⟩
    · exact absurd (List.head_eq_of_cons_eq h ▸ List.mem_cons_self) hy
  | cons d x ih =>
    rcases y with - | ⟨d', y⟩
    · exact absurd (List.head_eq_of_cons_eq h ▸ List.mem_cons_self) hx
    · obtain ⟨hd, htail⟩ := List.cons.inj h
      obtain ⟨hxy, hr⟩ := ih (List.not_mem_of_not_mem_cons hx) (List.not_mem_of_not_mem_cons hy) htail
      exact ⟨by rw [hd, hxy], hr⟩

/-- The front of the line of an entry is not cut. -/
theorem dumpLine_eq (e : LogEntry) : ∃ r, dumpLine e = ' ' :: ' ' :: '[' :: (fluxLogItoa e.tick ++
    ']' :: ' ' :: '#' :: (fluxLogItoa e.sequence ++ ' ' :: r)) := by
  have hfront : "  [".toList = [' ', ' ', '['] ∧ "] #".toList = [']', ' ', '#'] ∧ " ".toList = [' '] := by
    decide
  obtain ⟨h₁, h₂, h₃⟩ := hfront
  have hlen : ("  [".toList ++ fluxLogItoa e.tick ++ "] #".toList ++ fluxLogItoa e.sequence ++
      " ".toList).length ≤ 511 := by
    have htick := length_fluxLogItoa e.tick
    have hseq := length_fluxLogItoa e.sequence
    simp only [h₁, h₂, h₃, List.length_append, List.length_cons, List.length_nil]
    omega
  unfold dumpLine
  rw [List.append_assoc, List.append_assoc, List.append_assoc, List.append_assoc, List.take_append,
    List.take_of_length_le hlen, h₁, h₂, h₃]
  generalize List.take _ _ = r
  exact ⟨r, by simp only [List.append_assoc, List.cons_append, List.nil_append]⟩

/-- The number of an entry can be read off its line. -/
theorem sequence_of_dumpLine {e e' : LogEntry} (h : dumpLine e = dumpLine e') : e.sequence = e'.sequence := by
  obtain ⟨r, hr⟩ := dumpLine_eq e
  obtain ⟨r', hr'⟩ := dumpLine_eq e'
  rw [hr, hr'] at h
  simp only [List.cons.injEq, true_and] at h
  obtain ⟨-, h⟩ := split_at_mark (not_mem_fluxLogItoa e.tick).1 (not_mem_fluxLogItoa e'.tick).1 h
  simp only [List.cons.injEq, true_and] at h
  obtain ⟨h, -⟩ := split_at_mark (not_mem_fluxLogItoa e.sequence).2 (not_mem_fluxLogItoa e'.sequence).2 h
  exact fluxLogItoa_inj h

theorem length_dumpEntry (b : Bool) (e : LogEntry) : (dumpEntry b e).length = if b then 3 else 1 := by
  cases b
  · rfl
  · rfl

/-- Dumps of as many entries are the same only if their first entries have the same number. -/
theorem eq_of_dump {b : Bool} {es es' : List LogEntry} (h : dump b es = dump b es') :
    es.length = es'.length ∧
      (es.head?.map LogEntry.sequence = es'.head?.map LogEntry.sequence) := by
  have hentries : es.flatMap (dumpEntry b) = es'.flatMap (dumpEntry b) :=
    List.append_cancel_right (List.tail_eq_of_cons_eq h)
  have hlen (es : List LogEntry) : (es.flatMap (dumpEntry b)).length = es.length * if b then 3 else 1 := by
    induction es with
    | nil => simp
    | cons e es ih =>
      rw [List.flatMap_cons, List.length_append, ih, List.length_cons, Nat.succ_mul, Nat.add_comm, length_dumpEntry]
  have hlength : es.length = es'.length := by
    have := congrArg List.length hentries
    rw [hlen, hlen] at this
    refine Nat.eq_of_mul_eq_mul_right ?_ this
    split <;> decide
  refine ⟨hlength, ?_⟩
  rcases es with - | ⟨e, es⟩
  · rw [List.length_nil] at hlength
    rw [List.eq_nil_of_length_eq_zero hlength.symm]
  rcases es' with - | ⟨e', es'⟩
  · cases hlength
  rw [List.flatMap_cons, List.flatMap_cons] at hentries
  have hfirst := (List.append_inj hentries (by rw [length_dumpEntry, length_dumpEntry])).1
  have hline : dumpLine e = dumpLine e' := by
    unfold dumpEntry at hfirst
    split at hfirst
    · simp only [List.cons.injEq] at hfirst
      exact hfirst.2.1
    · simp only [List.cons.injEq] at hfirst
      exact hfirst.1
  rw [List.head?_cons, List.head?_cons, Option.map_some, Option.map_some, sequence_of_dumpLine hline]

/-! ## Reading the ring -/

/-- `flux_log_dump_ring` prints the latest entries, so many as it is asked for. -/
def DumpRight (log : KernelLog) (recs : List LogRecord) (count : Int32) : Prop :=
  log.fluxLogDumpRing count = dump log.ansiEnabled (latest count.toNatClampNeg (history recs))

/-- A dump of `k` entries of a log of `n` records is complete: `s_log_count` is smaller than the ring and
there are no more entries than asked for, or it is not and the whole ring is asked for. -/
def DumpComplete (n k : Nat) : Prop :=
  (n % 2 ^ 32 < fluxLogRingSize ∧ min k n = n % 2 ^ 32) ∨
    (fluxLogRingSize ≤ n % 2 ^ 32 ∧ k = fluxLogRingSize)

theorem slot_from_start (start : UInt32) (i : Nat) :
    ((start + UInt32.ofNat i) % 1024).toNat = (start.toNat + i) % fluxLogRingSize := by
  have hsize : fluxLogRingSize = 1024 := rfl
  rw [hsize, UInt32.toNat_mod, UInt32.toNat_add, UInt32.toNat_ofNat']
  show (start.toNat + i % 2 ^ 32) % 2 ^ 32 % 1024 = _
  omega

/-- The entries that are dumped. -/
theorem dumpRing_eq (h : log.Records recs) {count : Int32} (hpos : 0 < count) (hle : count ≤ 1024) :
    log.fluxLogDumpRing count = dump log.ansiEnabled
      (if recs.length % 2 ^ 32 < fluxLogRingSize then latest (recs.length % 2 ^ 32) (history recs)
      else ((history recs).drop (recs.length - fluxLogRingSize)).take count.toNatClampNeg) := by
  have hmod : recs.length % 2 ^ 32 ≤ recs.length := Nat.mod_le _ _
  have hcount : count.toNatClampNeg ≤ fluxLogRingSize := by
    rw [Int32.le_iff_toInt_le] at hle
    rw [← Int32.toNat_toInt]
    exact Int.toNat_le.2 hle
  have hlt : log.count < 1024 ↔ recs.length % 2 ^ 32 < fluxLogRingSize := by
    rw [UInt32.lt_iff_toNat_lt, h.count_toNat]
    rfl
  have hasked : ¬ (count ≤ 0 ∨ 1024 < count) :=
    not_or.2 ⟨Int32.not_le.2 hpos, Int32.not_lt.2 hle⟩
  unfold fluxLogDumpRing
  simp only [if_neg hasked, hlt, Int32.toNat_toInt, h.count_toNat]
  congr 1
  by_cases hsmall : recs.length % 2 ^ 32 < fluxLogRingSize
  · rw [if_pos hsmall, if_pos hsmall, if_pos hsmall, ← h.holds.read_latest (Nat.le_of_lt hsmall)
      (by rwa [length_history]), length_history]
    refine List.map_congr_left fun i hi => ?_
    have hi : i < fluxLogRingSize := Nat.lt_trans (List.mem_range.1 hi) hsmall
    rw [slot_from_start, mod_behind_round _ _ hi]
    show log.ring ((0 + i) % fluxLogRingSize) = _
    rw [Nat.zero_add, Nat.mod_eq_of_lt hi]
  · rw [if_neg hsmall, if_neg hsmall, if_neg hsmall]
    rw [← h.holds.read (by rw [length_history]; omega) (by rw [length_history]; omega)]
    refine List.map_congr_left fun i hi => ?_
    have hslot : (recs.length % fluxLogRingSize + i) % fluxLogRingSize =
        (recs.length - fluxLogRingSize + i) % fluxLogRingSize := by
      have hsize : fluxLogRingSize = 1024 := rfl
      rw [hsize] at hsmall ⊢
      omega
    rw [slot_from_start, h.head, hslot]

theorem dumpRight_iff (h : log.Records recs) {count : Int32} (hpos : 0 < count) (hle : count ≤ 1024) :
    DumpRight log recs count ↔ DumpComplete recs.length count.toNatClampNeg := by
  have hmod : recs.length % 2 ^ 32 ≤ recs.length := Nat.mod_le _ _
  have hbound : 0 < count.toNatClampNeg ∧ count.toNatClampNeg ≤ fluxLogRingSize := by
    rw [Int32.le_iff_toInt_le] at hle
    rw [Int32.lt_iff_toInt_lt] at hpos
    rw [← Int32.toNat_toInt]
    exact ⟨Int.lt_toNat.2 hpos, Int.toNat_le.2 hle⟩
  unfold DumpRight DumpComplete
  rw [dumpRing_eq h hpos hle]
  generalize count.toNatClampNeg = k at hbound
  by_cases hsmall : recs.length % 2 ^ 32 < fluxLogRingSize
  · rw [if_pos hsmall]
    constructor
    · intro heq
      have hlen := (eq_of_dump heq).1
      rw [length_latest, length_latest, length_history] at hlen
      omega
    · intro hk
      have hmin : min k recs.length = recs.length % 2 ^ 32 := by omega
      have hdrop : recs.length - k = recs.length - recs.length % 2 ^ 32 := by omega
      rw [latest, latest, length_history, hdrop]
  · rw [if_neg hsmall]
    constructor
    · intro heq
      have hfirst := (eq_of_dump heq).2
      have hlen : (history recs).length = recs.length := length_history
      rw [latest, List.head?_take, if_neg (by omega), List.head?_drop, List.head?_drop, hlen,
        List.getElem?_eq_getElem (by omega), List.getElem?_eq_getElem (by omega), Option.map_some,
        Option.map_some, Option.some.injEq, sequence_history, sequence_history] at hfirst
      have hsame := eq_of_sequence hfirst (by omega) (by omega)
      omega
    · intro hk
      have hk : k = fluxLogRingSize := by omega
      rw [hk, latest, length_history, List.take_of_length_le]
      rw [List.length_drop, length_history]
      omega

end KernelLog

open KernelLog in
/-- Of the log after any calls, the entry with an index is found, and a dump is right, under these
conditions on the number of records, and no others. -/
theorem logRing_right_iff (log : KernelLog) (hasColor : Bool) (calls : List LogCall) :
    (∀ index,
      EntryRight ((log.cleared hasColor).runCalls calls) ((log.cleared hasColor).recorded calls) index ↔
        EntryFound ((log.cleared hasColor).recorded calls).length index) ∧
    ∀ count : Int32, 0 < count → count ≤ 1024 →
      (DumpRight ((log.cleared hasColor).runCalls calls) ((log.cleared hasColor).recorded calls) count ↔
        DumpComplete ((log.cleared hasColor).recorded calls).length count.toNatClampNeg) := by
  have h := (records_cleared log hasColor).runCalls calls
  exact ⟨entryRight_iff h, fun count hpos hle => dumpRight_iff h hpos hle⟩

open KernelLog in
/-- After two records, the entry with the index 0 is the first of them. -/
theorem latest_not_found : ¬ ∀ (log : KernelLog) (hasColor : Bool) (calls : List LogCall),
    (∀ index,
      EntryRight ((log.cleared hasColor).runCalls calls) ((log.cleared hasColor).recorded calls) index) ∧
    ∀ count : Int32, 0 < count → count ≤ 1024 →
      DumpRight ((log.cleared hasColor).runCalls calls) ((log.cleared hasColor).recorded calls) count := by
  intro h
  have hentry := (h ⟨fun _ => ⟨0, .info, 0, [], 0, []⟩, 0, 0, .info, true⟩ false
    [.format ⟨.info, 0, none, 0, ['a']⟩, .format ⟨.info, 1, none, 0, ['b']⟩]).1 0
  unfold EntryRight at hentry
  exact absurd hentry (by decide)

end FluxOs
