import Mathlib.Algebra.Order.Ring.Nat
import Mathlib.Data.List.Range
import Mathlib.Logic.Function.Basic

/-!
# Histories in a ring

A ring of `m` slots is written round and round: entry number `i` of the history goes to slot `i % m`, over
the entry that is `m` older.  `Holds` says that the latest `m` entries are where they should be.
-/

namespace Histories

variable {α : Type} {m k a i j : Nat} {slots : Nat → α} {h : List α} {x y : α}

/-- The slots hold the latest `m` entries of the history. -/
def Holds (m : Nat) (slots : Nat → α) (h : List α) : Prop :=
  ∀ i (hi : i < h.length), h.length ≤ i + m → slots (i % m) = h[i]

/-- The latest `k` entries, the oldest of them first. -/
def latest (k : Nat) (h : List α) : List α := h.drop (h.length - k)

theorem length_latest : (latest k h).length = min k h.length := by
  rw [latest, List.length_drop]
  omega

theorem latest_min : latest (min h.length m) h = latest m h := by
  rw [latest, latest]
  congr 1
  omega

/-- Entries less than a round apart have different slots. -/
theorem mod_ne_mod (hij : i < j) (hround : j < i + m) : i % m ≠ j % m := by
  intro heq
  have hzero := Nat.sub_mod_eq_zero_of_mod_eq heq.symm
  rw [Nat.mod_eq_of_lt (by omega)] at hzero
  omega

theorem holds_nil : Holds m slots [] := fun _ hi => absurd hi (Nat.not_lt_zero _)

theorem Holds.congr {slots' : Nat → α} (hh : Holds m slots h) (hslots : ∀ i, i < m → slots' i = slots i) :
    Holds m slots' h := by
  intro i hi hround
  rw [hslots _ (Nat.mod_lt i (by omega))]
  exact hh i hi hround

/-! ## Writing -/

/-- An entry is written behind those that its slots hold. -/
theorem holds_concat (hh : ∀ i (hi : i < h.length), h.length < i + m → slots (i % m) = h[i]) :
    Holds m (Function.update slots (h.length % m) x) (h ++ [x]) := by
  intro i hi hround
  rw [List.length_append, List.length_singleton] at hi hround
  by_cases hlast : i = h.length
  · subst hlast
    rw [Function.update_self, List.getElem_concat_length rfl]
  · have hlt : i < h.length := by omega
    rw [Function.update_of_ne (mod_ne_mod hlt (by omega)), List.getElem_append_left hlt]
    exact hh i hlt (by omega)

theorem Holds.write (hh : Holds m slots h) :
    Holds m (Function.update slots (h.length % m) x) (h ++ [x]) :=
  holds_concat fun i hi hround => hh i hi (Nat.le_of_lt hround)

/-- The latest entry is written again. -/
theorem Holds.rewrite (hh : Holds m slots (h ++ [y])) :
    Holds m (Function.update slots (h.length % m) x) (h ++ [x]) := by
  apply holds_concat
  intro i hi hround
  have hlen : (h ++ [y]).length = h.length + 1 := List.length_append
  rw [hh i (by omega) (by omega), List.getElem_append_left hi]

/-! ## Reading -/

/-- Slots that are read in a row hold entries of the history in a row. -/
theorem Holds.read (hh : Holds m slots h) (hround : h.length ≤ a + m) (hk : a + k ≤ h.length) :
    (List.range k).map (fun i => slots ((a + i) % m)) = (h.drop a).take k := by
  refine List.ext_getElem ?_ fun i hi _ => ?_
  · rw [List.length_map, List.length_range, List.length_take, List.length_drop]
    omega
  · rw [List.length_map, List.length_range] at hi
    rw [List.getElem_map, List.getElem_range, List.getElem_take, List.getElem_drop]
    exact hh (a + i) (by omega) (by omega)

/-- The slots of the latest `k` entries. -/
theorem Holds.read_latest (hh : Holds m slots h) (hm : k ≤ m) (hk : k ≤ h.length) :
    (List.range k).map (fun i => slots ((h.length - k + i) % m)) = latest k h := by
  rw [hh.read (by omega) (by omega), latest, List.take_of_length_le]
  rw [List.length_drop]
  omega

end Histories
