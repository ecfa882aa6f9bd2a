import Mathlib.Data.List.Range
import Mathlib.Data.Nat.ModEq
import Mathlib.Logic.Function.Basic
import Mathlib.Tactic.SplitIfs

/-!
# Circular buffers

A ring of `n` slots holds the list of its contents from `head` on.  `push` adds at the end, `popHead`
removes at the front, and `removeAt` removes anywhere by moving the later entries one slot towards the
head.  `shift` is the loop that moves them; run for longer than a round it damages the contents.
-/

namespace Rings

variable {α : Type}

/-- A circular buffer. -/
structure RingBuffer (α : Type) where
  slots : Nat → α
  head : Nat
  tail : Nat
  count : Nat

/-- Move `m` entries, each from the slot behind, starting with slot `b`. -/
def shift (n : Nat) (slots : Nat → α) (b m : Nat) : Nat → α :=
  (List.range m).foldl (fun s i => Function.update s ((b + i) % n) (s ((b + i + 1) % n))) slots

/-- What the slots have in common they keep. -/
theorem shift_keeps {P : α → Prop} {n b m : Nat} {slots : Nat → α} (h : ∀ i, P (slots i)) (i : Nat) :
    P (shift n slots b m i) := by
  unfold shift
  revert i
  refine List.foldlRecOn (motive := fun s : Nat → α => ∀ i, P (s i)) _ _ h fun s hs j _ i => ?_
  rw [Function.update_apply]
  split_ifs
  · exact hs _
  · exact hs i

namespace RingBuffer

variable (n : Nat) (r : RingBuffer α)

/-- The slot of the entry number `i`. -/
def index (i : Nat) : Nat := (r.head + i) % n

/-- The entry number `i`. -/
def entry (i : Nat) : α := r.slots (r.index n i)

/-- The entries from the head on. -/
def contents : List α := (List.range r.count).map (r.entry n)

/-- The counters agree with each other. -/
structure Valid : Prop where
  head_lt : r.head < n
  count_le : r.count ≤ n
  tail_eq : r.tail = (r.head + r.count) % n

/-- Add an entry at the end. -/
def push (x : α) : RingBuffer α where
  slots := Function.update r.slots r.tail x
  head := r.head
  tail := (r.tail + 1) % n
  count := r.count + 1

/-- Remove the first entry. -/
def popHead : RingBuffer α := { r with head := (r.head + 1) % n, count := r.count - 1 }

/-- Remove the first entry and leave `x` in its slot. -/
def takeHead (x : α) : RingBuffer α := { r.popHead n with slots := Function.update r.slots r.head x }

/-- Move `m` entries into the gap at slot `b` and shorten the ring. -/
def closeGap (b m : Nat) : RingBuffer α where
  slots := shift n r.slots b m
  head := r.head
  tail := (r.tail + n - 1) % n
  count := r.count - 1

/-- Change the entries in place, from the head on. -/
def mapEntries (f : α → α) : RingBuffer α where
  slots := (List.range r.count).foldl
    (fun s i => Function.update s (r.index n i) (f (s (r.index n i)))) r.slots
  head := r.head
  tail := r.tail
  count := r.count

variable {n r} {i j m b : Nat} {x : α}

/-! ## Indices -/

theorem length_contents : (r.contents n).length = r.count := by
  rw [contents, List.length_map, List.length_range]

theorem getElem_contents (hi : i < (r.contents n).length) : (r.contents n)[i] = r.entry n i := by
  simp only [contents, List.getElem_map, List.getElem_range]

theorem mod_eq_iff_of_lt {h k : Nat} (hi : i < n) (hk : k < n) :
    (h + i) % n = (h + k) % n ↔ i = k := by
  constructor
  · intro heq
    have := Nat.ModEq.add_left_cancel' h heq
    rwa [Nat.ModEq, Nat.mod_eq_of_lt hi, Nat.mod_eq_of_lt hk] at this
  · rintro rfl
    rfl

theorem index_inj {k : Nat} (hi : i < n) (hk : k < n) : r.index n i = r.index n k ↔ i = k :=
  mod_eq_iff_of_lt hi hk

theorem Valid.tail_eq_index (hv : r.Valid n) : r.tail = r.index n r.count := hv.tail_eq

/-- Rings are told apart by their entries. -/
theorem contents_eq_of_entries {l : List α} (hlen : l.length = r.count)
    (hentry : ∀ i (hi : i < l.length), r.entry n i = l[i]) : r.contents n = l := by
  refine List.ext_getElem (length_contents.trans hlen.symm) fun i hi hi' => ?_
  rw [getElem_contents, hentry i hi']

/-! ## Adding and removing at the ends -/

theorem Valid.push (hv : r.Valid n) (hroom : r.count < n) : (r.push n x).Valid n where
  head_lt := hv.head_lt
  count_le := hroom
  tail_eq := by
    show (r.tail + 1) % n = (r.head + (r.count + 1)) % n
    rw [hv.tail_eq, Nat.mod_add_mod, Nat.add_assoc]

theorem contents_push (hv : r.Valid n) (hroom : r.count < n) :
    (r.push n x).contents n = r.contents n ++ [x] := by
  refine contents_eq_of_entries (by simp [length_contents, RingBuffer.push]) fun i hi => ?_
  rw [List.length_append, length_contents, List.length_singleton] at hi
  show Function.update r.slots r.tail x (r.index n i) = _
  by_cases hlast : i = r.count
  · subst hlast
    rw [← hv.tail_eq_index, Function.update_self, List.getElem_append_right (by rw [length_contents])]
    simp [length_contents]
  · have hi' : i < (r.contents n).length := by
      rw [length_contents]
      omega
    have hne : r.index n i ≠ r.tail := by
      rw [hv.tail_eq_index]
      exact fun h => hlast ((index_inj (by omega) hroom).1 h)
    rw [Function.update_of_ne hne, List.getElem_append_left hi', getElem_contents]
    rfl

theorem Valid.popHead (hv : r.Valid n) (hpos : 0 < r.count) : (r.popHead n).Valid n where
  head_lt := Nat.mod_lt _ (by have := hv.head_lt; omega)
  count_le := Nat.le_trans (Nat.sub_le ..) hv.count_le
  tail_eq := by
    show r.tail = ((r.head + 1) % n + (r.count - 1)) % n
    rw [hv.tail_eq, Nat.mod_add_mod]
    congr 1
    omega

theorem contents_popHead : (r.popHead n).contents n = (r.contents n).tail := by
  refine contents_eq_of_entries (by simp [length_contents, RingBuffer.popHead]) fun i hi => ?_
  rw [List.getElem_tail, getElem_contents]
  show r.slots (((r.head + 1) % n + i) % n) = r.slots ((r.head + (i + 1)) % n)
  rw [Nat.mod_add_mod]
  congr 2
  omega

theorem Valid.takeHead (hv : r.Valid n) (hpos : 0 < r.count) : (r.takeHead n x).Valid n :=
  let h := hv.popHead hpos
  ⟨h.head_lt, h.count_le, h.tail_eq⟩

/-- The slot at the head is not that of a later entry. -/
theorem contents_takeHead (hv : r.Valid n) (hpos : 0 < r.count) :
    (r.takeHead n x).contents n = (r.contents n).tail := by
  rw [← contents_popHead]
  refine contents_eq_of_entries length_contents fun i hi => ?_
  rw [length_contents] at hi
  have hi : i < r.count - 1 := hi
  have hhead : r.head = r.index n 0 := (Nat.mod_eq_of_lt hv.head_lt).symm
  have hindex : (r.popHead n).index n i = r.index n (i + 1) := by
    show ((r.head + 1) % n + i) % n = (r.head + (i + 1)) % n
    rw [Nat.mod_add_mod]
    congr 1
    omega
  have hcount := hv.count_le
  have hne : (r.popHead n).index n i ≠ r.head := by
    rw [hindex, hhead]
    intro h
    have := (index_inj (by omega) (by omega)).1 h
    omega
  rw [getElem_contents]
  exact Function.update_of_ne hne x r.slots

/-- What is taken is the first entry. -/
theorem head?_contents (hv : r.Valid n) (hpos : 0 < r.count) :
    (r.contents n).head? = some (r.slots r.head) := by
  obtain ⟨k, hk⟩ : ∃ k, r.count = k + 1 := ⟨r.count - 1, by omega⟩
  rw [contents, hk, List.range_succ_eq_map, List.map_cons, List.head?_cons, entry]
  congr 2
  exact Nat.mod_eq_of_lt hv.head_lt

/-! ## Moving entries -/

theorem shift_succ (slots : Nat → α) : shift n slots b (m + 1) =
    Function.update (shift n slots b m) ((b + m) % n) (shift n slots b m ((b + m + 1) % n)) := by
  rw [shift, List.range_succ, List.foldl_append]
  rfl

/-- The start of a shift counts modulo the number of slots. -/
theorem shift_mod (slots : Nat → α) : shift n slots (b % n) m = shift n slots b m := by
  unfold shift
  congr 1
  funext s i
  have h₁ : (b % n + i) % n = (b + i) % n := Nat.mod_add_mod ..
  have h₂ : (b % n + i + 1) % n = (b + i + 1) % n := by
    rw [Nat.add_assoc, Nat.mod_add_mod, ← Nat.add_assoc]
  rw [h₁, h₂]

/-- Less than a round of moves: the moved slots hold what was one slot further. -/
theorem shift_apply (slots : Nat → α) (hm : m < n) {d : Nat} (hd : d < n) :
    shift n slots b m ((b + d) % n) = if d < m then slots ((b + d + 1) % n) else slots ((b + d) % n) := by
  induction m generalizing d with
  | zero => rfl
  | succ m ih =>
    rw [shift_succ, Function.update_apply]
    by_cases hdm : d = m
    · subst hdm
      have hsrc : shift n slots b d ((b + d + 1) % n) = slots ((b + d + 1) % n) := by
        have := ih (by omega) (d := d + 1) hm
        rwa [if_neg (by omega), ← Nat.add_assoc] at this
      rw [if_pos rfl, if_pos (Nat.lt_succ_self d), hsrc]
    · rw [if_neg fun h => hdm ((mod_eq_iff_of_lt hd (by omega)).1 h), ih (by omega) hd]
      by_cases hlt : d < m
      · rw [if_pos hlt, if_pos (by omega)]
      · rw [if_neg hlt, if_neg (by omega)]

/-- Moves one after the other. -/
theorem shift_add (slots : Nat → α) (k : Nat) :
    shift n slots b (m + k) = shift n (shift n slots b m) (b + m) k := by
  induction k with
  | zero => rfl
  | succ k ih => rw [← Nat.add_assoc, shift_succ, shift_succ, ih, ← Nat.add_assoc]

/-- A full round of moves: the last slot gets what the second one held. -/
theorem shift_round (slots : Nat → α) (hn : 1 < n) {d : Nat} (hd : d < n) :
    shift n slots b n ((b + d) % n) =
      if d + 1 < n then slots ((b + d + 1) % n) else slots ((b + 1) % n) := by
  obtain ⟨k, rfl⟩ : ∃ k, n = k + 1 := ⟨n - 1, by omega⟩
  have hfirst : shift (k + 1) slots b k ((b + k + 1) % (k + 1)) = slots ((b + 1) % (k + 1)) := by
    have := shift_apply slots (b := b) (Nat.lt_succ_self k) (Nat.succ_pos k)
    rw [if_pos (by omega), Nat.add_zero] at this
    rw [Nat.add_assoc, Nat.add_mod_right, this]
  rw [shift_succ, Function.update_apply]
  by_cases hdk : d = k
  · subst hdk
    rw [if_pos rfl, if_neg (Nat.lt_irrefl _), hfirst]
  · rw [if_neg fun h => hdk ((mod_eq_iff_of_lt hd (Nat.lt_succ_self k)).1 h),
      shift_apply slots (Nat.lt_succ_self k) hd, if_pos (by omega), if_pos (by omega)]

/-! ## Closing a gap -/

theorem Valid.closeGap (hv : r.Valid n) (hpos : 0 < r.count) : (r.closeGap n b m).Valid n where
  head_lt := hv.head_lt
  count_le := Nat.le_trans (Nat.sub_le ..) hv.count_le
  tail_eq := by
    have hn : 0 < n := Nat.lt_of_le_of_lt (Nat.zero_le _) hv.head_lt
    show (r.tail + n - 1) % n = (r.head + (r.count - 1)) % n
    rw [hv.tail_eq, Nat.add_sub_assoc hn, Nat.mod_add_mod, show r.head + r.count + (n - 1) =
      r.head + (r.count - 1) + n by omega, Nat.add_mod_right]

/-- An earlier entry, counted from a later one on. -/
theorem mod_add_wrap {h : Nat} (hj : j < n) : (h + i) % n = (h + j + (n + i - j)) % n := by
  rw [show h + j + (n + i - j) = h + i + n by omega, Nat.add_mod_right]

/-- Moving exactly the later entries removes entry number `j`. -/
theorem contents_closeGap (hv : r.Valid n) (hj : j < r.count) (hm : j + m + 1 = r.count)
    (hb : b % n = r.index n j) : (r.closeGap n b m).contents n = (r.contents n).eraseIdx j := by
  have hlen : ((r.contents n).eraseIdx j).length = r.count - 1 := by
    rw [List.length_eraseIdx, length_contents, if_pos hj]
  refine contents_eq_of_entries hlen fun i hi => ?_
  rw [hlen] at hi
  have hcount := hv.count_le
  have hshift : shift n r.slots b m = shift n r.slots (r.head + j) m := by
    rw [← shift_mod r.slots (b := b), hb, index, shift_mod]
  show shift n r.slots b m ((r.head + i) % n) = _
  rw [hshift, List.getElem_eraseIdx]
  by_cases hij : i < j
  · rw [dif_pos hij, getElem_contents, mod_add_wrap (j := j) (by omega), shift_apply _ (by omega) (by omega),
      if_neg (by omega), ← mod_add_wrap (j := j) (by omega)]
    rfl
  · rw [dif_neg hij, getElem_contents]
    have := shift_apply r.slots (b := r.head + j) (n := n) (m := m) (d := i - j) (by omega) (by omega)
    rw [if_pos (by omega), show r.head + j + (i - j) = r.head + i by omega] at this
    exact this

/-- A round too many moves the first entry out and the slot at the tail in. -/
theorem contents_closeGap_round (hv : r.Valid n) (hj : 0 < j) (hm : j + m + 1 = r.count)
    (hb : b % n = r.index n j) : (r.closeGap n b (n + m)).contents n =
      ((r.contents n).eraseIdx j ++ [r.slots r.tail]).tail := by
  have hcount := hv.count_le
  have hlen : ((r.contents n).eraseIdx j).length = r.count - 1 := by
    rw [List.length_eraseIdx, length_contents, if_pos (by omega)]
  have htail : r.slots r.tail = r.entry n r.count := by rw [hv.tail_eq_index, entry]
  have hshift : shift n r.slots b (n + m) =
      shift n (shift n r.slots (r.head + j) n) (r.head + j) m := by
    rw [shift_add, ← shift_mod (b := b + n), Nat.add_mod_right, ← shift_mod r.slots (b := b), hb, index,
      shift_mod, shift_mod]
  refine contents_eq_of_entries (by simp [hlen]; rfl) fun i hi => ?_
  have hi' : i < r.count - 1 := by simpa [hlen] using hi
  have hright : ((r.contents n).eraseIdx j ++ [r.slots r.tail]).tail[i] =
      r.entry n (if i + 1 < j then i + 1 else i + 2) := by
    rw [List.getElem_tail]
    by_cases hlast : i + 2 = r.count
    · rw [List.getElem_append_right (by omega), if_neg (by omega), hlast, ← htail]
      simp
    · rw [List.getElem_append_left (by omega), List.getElem_eraseIdx]
      by_cases hij : i + 1 < j
      · rw [dif_pos hij, if_pos hij, getElem_contents]
      · rw [dif_neg hij, if_neg hij, getElem_contents]
  rw [hright]
  show shift n r.slots b (n + m) ((r.head + i) % n) = _
  rw [hshift]
  by_cases hij : i < j
  · -- the entries before the gap move up by one, the last of them over the gap
    rw [mod_add_wrap (j := j) (by omega), shift_apply _ (by omega) (by omega), if_neg (by omega),
      shift_round _ (by omega) (by omega)]
    by_cases hlast : i + 1 < j
    · rw [if_pos (by omega), if_pos hlast, show r.head + j + (n + i - j) + 1 = r.head + (i + 1) + n by omega,
        Nat.add_mod_right]
      rfl
    · rw [if_neg (by omega), if_neg hlast, show r.head + j + 1 = r.head + (i + 2) by omega]
      rfl
  · -- the entries behind it move up by two
    have h₁ := shift_apply (shift n r.slots (r.head + j) n) (b := r.head + j) (n := n) (m := m)
      (d := i - j) (by omega) (by omega)
    have h₂ := shift_round r.slots (b := r.head + j) (n := n) (d := i - j + 1) (by omega) (by omega)
    rw [if_pos (by omega), show r.head + j + (i - j) = r.head + i by omega] at h₁
    rw [if_pos (by omega), show r.head + j + (i - j + 1) = r.head + i + 1 by omega] at h₂
    rw [if_neg (by omega), h₁, h₂]
    rfl

/-! ## Searching -/

theorem findIdx?_range (p : Nat → Bool) (m : Nat) :
    (List.range m).findIdx? p = (List.range m).find? p := by
  induction m with
  | zero => rfl
  | succ m ih =>
    rw [List.range_succ, List.findIdx?_append, List.find?_append, ih, List.length_range]
    cases (List.range m).find? p with
    | some i => rfl
    | none =>
      rw [List.findIdx?_singleton, List.find?_singleton]
      cases p m
      · rfl
      · simp

/-- The number of the first entry with a property. -/
theorem findIdx?_contents (p : α → Bool) :
    (r.contents n).findIdx? p = (List.range r.count).find? fun i => p (r.entry n i) := by
  rw [contents, List.findIdx?_map, findIdx?_range]
  rfl

/-- A slot within the contents is that of one entry. -/
theorem find?_index (hv : r.Valid n) (hi : i < r.count) :
    ((List.range r.count).find? fun k => decide (r.index n k = r.index n i)) = some i := by
  refine List.find?_range_eq_some.2 ⟨decide_eq_true rfl, List.mem_range.2 hi, fun k hk => ?_⟩
  have hcount := hv.count_le
  refine Bool.not_eq_true' _ |>.mpr (decide_eq_false fun h => ?_)
  exact Nat.ne_of_lt hk ((index_inj (by omega) (by omega)).1 h)

/-! ## Changing entries in place -/

theorem Valid.mapEntries {f : α → α} (hv : r.Valid n) : (r.mapEntries n f).Valid n :=
  ⟨hv.head_lt, hv.count_le, hv.tail_eq⟩

theorem foldl_update_apply {f : α → α} (slots : Nat → α) (hm : m ≤ n) (hi : i < n) :
    (List.range m).foldl (fun s i => Function.update s (r.index n i) (f (s (r.index n i)))) slots
      (r.index n i) = if i < m then f (slots (r.index n i)) else slots (r.index n i) := by
  induction m with
  | zero => rfl
  | succ m ih =>
    have ih := ih (by omega)
    rw [List.range_succ, List.foldl_append, List.foldl_cons, List.foldl_nil, Function.update_apply]
    by_cases him : i = m
    · subst him
      rw [if_neg (Nat.lt_irrefl _)] at ih
      rw [if_pos rfl, if_pos (Nat.lt_succ_self _), ih]
    · rw [if_neg fun h => him ((index_inj hi (by omega)).1 h), ih]
      by_cases hlt : i < m
      · rw [if_pos hlt, if_pos (by omega)]
      · rw [if_neg hlt, if_neg (by omega)]

theorem contents_mapEntries {f : α → α} (hv : r.Valid n) :
    (r.mapEntries n f).contents n = (r.contents n).map f := by
  refine contents_eq_of_entries (by simp [length_contents, RingBuffer.mapEntries]) fun i hi => ?_
  rw [List.length_map, length_contents] at hi
  have := foldl_update_apply (r := r) (f := f) r.slots hv.count_le (Nat.lt_of_lt_of_le hi hv.count_le)
  rw [if_pos hi] at this
  rw [List.getElem_map, getElem_contents]
  exact this

end RingBuffer

end Rings
