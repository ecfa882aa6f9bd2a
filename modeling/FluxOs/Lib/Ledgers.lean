import Mathlib.Data.List.Nodup
import Mathlib.Data.List.Perm.Basic
import Mathlib.Logic.Function.Basic

/-!
# Ledgers of allocated resources

Slots hold resources, each at most one.  `Balanced` says that what is allocated is what the slots hold
and what was there before, every resource as often as it is held: nothing leaks.  Storing, releasing and
exchanging a resource keep the balance; slots that forget what they hold keep it only if they hold nothing.
-/

namespace Ledgers

variable {ι ρ : Type} {slots : List ι} {held : ι → Option ρ} {alloc rest : List ρ} {k : ι} {r r' : ρ}

/-- The resources that the slots hold, in their order. -/
def inventory (slots : List ι) (held : ι → Option ρ) : List ρ := slots.filterMap held

/-- What is allocated is held by the slots or was there before. -/
def Balanced (slots : List ι) (held : ι → Option ρ) (rest alloc : List ρ) : Prop :=
  alloc.Perm (inventory slots held ++ rest)

theorem mem_inventory (hk : k ∈ slots) (hr : held k = some r) : r ∈ inventory slots held :=
  List.mem_filterMap.2 ⟨k, hk, hr⟩

theorem inventory_eq_nil_iff : inventory slots held = [] ↔ ∀ i ∈ slots, held i = none :=
  List.filterMap_eq_nil_iff

section

variable [DecidableEq ι]

theorem inventory_update_of_notMem (hk : k ∉ slots) (o : Option ρ) :
    inventory slots (Function.update held k o) = inventory slots held := by
  apply List.filterMap_congr
  intro i hi
  exact Function.update_of_ne (ne_of_mem_of_not_mem hi hk) _ _

/-- A resource in an empty slot is one more. -/
theorem inventory_store (hslots : slots.Nodup) (hk : k ∈ slots) (hempty : held k = none) :
    (inventory slots (Function.update held k (some r))).Perm (r :: inventory slots held) := by
  induction slots with
  | nil => exact absurd hk List.not_mem_nil
  | cons i slots ih =>
    obtain ⟨hi, hslots⟩ := List.nodup_cons.1 hslots
    by_cases hik : i = k
    · subst hik
      have hother : inventory slots (Function.update held i (some r)) = inventory slots held :=
        inventory_update_of_notMem hi (some r)
      rw [inventory, List.filterMap_cons_some (Function.update_self ..), inventory,
        List.filterMap_cons_none hempty]
      exact List.Perm.of_eq (congrArg (r :: ·) hother)
    · have hmem : k ∈ slots := (List.mem_cons.1 hk).resolve_left fun h => hik h.symm
      have hrest := ih hslots hmem
      have hsame : Function.update held k (some r) i = held i := Function.update_of_ne hik _ _
      unfold inventory at hrest ⊢
      cases hheld : held i with
      | none => rwa [List.filterMap_cons_none (hsame.trans hheld), List.filterMap_cons_none hheld]
      | some s =>
        rw [List.filterMap_cons_some (hsame.trans hheld), List.filterMap_cons_some hheld]
        exact (hrest.cons s).trans (List.Perm.swap ..)

/-- A resource that its slot gives up is one less. -/
theorem inventory_release (hslots : slots.Nodup) (hk : k ∈ slots) (hr : held k = some r) :
    (inventory slots held).Perm (r :: inventory slots (Function.update held k none)) := by
  have hback : Function.update (Function.update held k none) k (some r) = held := by
    rw [Function.update_idem, ← hr, Function.update_eq_self]
  have hstore : (inventory slots (Function.update (Function.update held k none) k (some r))).Perm
      (r :: inventory slots (Function.update held k none)) :=
    inventory_store hslots hk (Function.update_self ..)
  rwa [hback] at hstore

end

namespace Balanced

theorem mem (h : Balanced slots held rest alloc) (hk : k ∈ slots) (hr : held k = some r) : r ∈ alloc :=
  h.mem_iff.2 (List.mem_append_left _ (mem_inventory hk hr))

section

variable [DecidableEq ι]

theorem store (h : Balanced slots held rest alloc) (hslots : slots.Nodup) (hk : k ∈ slots)
    (hempty : held k = none) : Balanced slots (Function.update held k (some r)) rest (r :: alloc) :=
  (h.cons r).trans ((inventory_store hslots hk hempty).symm.append_right rest)

variable [DecidableEq ρ]

theorem release (h : Balanced slots held rest alloc) (hslots : slots.Nodup) (hk : k ∈ slots)
    (hr : held k = some r) : Balanced slots (Function.update held k none) rest (alloc.erase r) := by
  have hless := (inventory_release hslots hk hr).append_right rest
  have herase := (h.trans hless).erase r
  rwa [List.cons_append, List.erase_cons_head] at herase

variable (r') in
/-- A slot gets another resource for its own. -/
theorem exchange (h : Balanced slots held rest alloc) (hslots : slots.Nodup) (hk : k ∈ slots)
    (hr : held k = some r) :
    Balanced slots (Function.update held k (some r')) rest (r' :: alloc.erase r) := by
  have hstore := (h.release hslots hk hr).store (r := r') hslots hk (Function.update_self ..)
  rwa [Function.update_idem] at hstore

end

/-- Slots that forget what they hold leave a balance only if they held nothing. -/
theorem forget_iff (h : Balanced slots held rest alloc) :
    Balanced slots (fun _ => none) rest alloc ↔ ∀ i ∈ slots, held i = none := by
  have hnone : inventory slots (fun _ => (none : Option ρ)) = [] :=
    inventory_eq_nil_iff.2 fun _ _ => rfl
  unfold Balanced
  rw [hnone, List.nil_append, ← inventory_eq_nil_iff]
  constructor
  · intro hrest
    have hlen := (h.symm.trans hrest).length_eq
    rw [List.length_append] at hlen
    apply List.eq_nil_of_length_eq_zero
    omega
  · intro hnil
    unfold Balanced at h
    rwa [hnil, List.nil_append] at h

end Balanced

end Ledgers
