import Mathlib.Data.List.Nodup
import Mathlib.Data.List.Pairwise

/-!
# Memberships

A list of groups, each with a key and a list of members.  While no key is there twice and no group has a member twice,
joining and leaving a group change one membership.
-/

namespace Memberships

variable {γ κ ω : Type} (key : γ → κ) (members : γ → List ω)

/-- No key is there twice, and no group has a member twice. -/
structure Distinct (groups : List γ) : Prop where
  keys : groups.Pairwise fun g g' => key g ≠ key g'
  members : ∀ g ∈ groups, (members g).Nodup

/-- A group with the key has the member. -/
def Member (groups : List γ) (o : ω) (k : κ) : Prop := ∃ g ∈ groups, key g = k ∧ o ∈ members g

variable {key members} {l r groups : List γ} {g g' : γ} {o p : ω} {k : κ}

theorem Distinct.key_ne (h : Distinct key members (l ++ g :: r)) (hg' : g' ∈ l ++ r) : key g' ≠ key g := by
  have hkeys := h.keys
  rw [List.pairwise_append, List.pairwise_cons] at hkeys
  obtain ⟨-, ⟨hr, -⟩, hl⟩ := hkeys
  rcases List.mem_append.1 hg' with hmem | hmem
  · exact hl g' hmem g List.mem_cons_self
  · exact (hr g' hmem).symm

/-- The members of one group among the others. -/
theorem member_middle (h : Distinct key members (l ++ g :: r)) :
    Member key members (l ++ g :: r) o k ↔
      (k = key g ∧ o ∈ members g) ∨ (k ≠ key g ∧ Member key members (l ++ r) o k) := by
  constructor
  · rintro ⟨g', hg', rfl, ho⟩
    rw [List.mem_append, List.mem_cons] at hg'
    by_cases heq : g' = g
    · subst heq
      exact .inl ⟨rfl, ho⟩
    · have hother : g' ∈ l ++ r := by
        rw [List.mem_append]
        tauto
      exact .inr ⟨h.key_ne hother, g', hother, rfl, ho⟩
  · rintro (⟨rfl, ho⟩ | ⟨-, g', hg', rfl, ho⟩)
    · exact ⟨g, by simp, rfl, ho⟩
    · refine ⟨g', ?_, rfl, ho⟩
      rw [List.mem_append, List.mem_cons]
      rw [List.mem_append] at hg'
      tauto

theorem Distinct.replace (h : Distinct key members (l ++ g :: r)) (hkey : key g' = key g)
    (hmembers : (members g').Nodup) : Distinct key members (l ++ g' :: r) := by
  constructor
  · have hkeys := h.keys
    rw [List.pairwise_append, List.pairwise_cons] at hkeys ⊢
    obtain ⟨hl, ⟨hr, hpair⟩, hcross⟩ := hkeys
    refine ⟨hl, ⟨fun x hx => hkey ▸ hr x hx, hpair⟩, fun x hx y hy => ?_⟩
    rcases List.mem_cons.1 hy with rfl | hy
    · rw [hkey]
      exact hcross x hx g List.mem_cons_self
    · exact hcross x hx y (List.mem_cons_of_mem g hy)
  · intro x hx
    rw [List.mem_append, List.mem_cons] at hx
    by_cases heq : x = g'
    · subst heq
      exact hmembers
    · refine h.members x ?_
      rw [List.mem_append, List.mem_cons]
      tauto

theorem member_join (h : Distinct key members (l ++ g :: r)) (hkey : key g' = key g)
    (hmembers : members g' = members g ++ [p]) (hp : p ∉ members g) :
    Distinct key members (l ++ g' :: r) ∧
      ∀ o k, Member key members (l ++ g' :: r) o k ↔
        Member key members (l ++ g :: r) o k ∨ (o = p ∧ k = key g) := by
  have h' : Distinct key members (l ++ g' :: r) := by
    refine h.replace hkey ?_
    rw [hmembers, ← List.concat_eq_append]
    exact (h.members g (by simp)).concat hp
  refine ⟨h', fun o k => ?_⟩
  rw [member_middle h, member_middle h', hkey, hmembers, List.mem_append, List.mem_singleton]
  tauto

theorem member_leave [DecidableEq ω] (h : Distinct key members (l ++ g :: r)) (hkey : key g' = key g)
    (hmembers : members g' = (members g).erase p) :
    Distinct key members (l ++ g' :: r) ∧
      ∀ o k, Member key members (l ++ g' :: r) o k ↔
        Member key members (l ++ g :: r) o k ∧ ¬ (o = p ∧ k = key g) := by
  have hnodup : (members g).Nodup := h.members g (by simp)
  have h' : Distinct key members (l ++ g' :: r) := by
    refine h.replace hkey ?_
    rw [hmembers]
    exact hnodup.erase p
  refine ⟨h', fun o k => ?_⟩
  rw [member_middle h, member_middle h', hkey, hmembers, hnodup.mem_erase_iff]
  tauto

/-- A new group with one member. -/
theorem member_new (h : Distinct key members groups) (hnew : ∀ g' ∈ groups, key g' ≠ key g)
    (hmembers : members g = [p]) :
    Distinct key members (groups ++ [g]) ∧
      ∀ o k, Member key members (groups ++ [g]) o k ↔
        Member key members groups o k ∨ (o = p ∧ k = key g) := by
  constructor
  · constructor
    · rw [List.pairwise_append]
      refine ⟨h.keys, List.pairwise_singleton .., fun x hx y hy => ?_⟩
      rw [List.mem_singleton.1 hy]
      exact hnew x hx
    · intro x hx
      rcases List.mem_append.1 hx with hx | hx
      · exact h.members x hx
      · rw [List.mem_singleton.1 hx, hmembers]
        exact List.nodup_singleton p
  · intro o k
    constructor
    · rintro ⟨x, hx, rfl, ho⟩
      rcases List.mem_append.1 hx with hx | hx
      · exact .inl ⟨x, hx, rfl, ho⟩
      · rw [List.mem_singleton.1 hx] at ho ⊢
        rw [hmembers, List.mem_singleton] at ho
        exact .inr ⟨ho, rfl⟩
    · rintro (⟨x, hx, rfl, ho⟩ | ⟨rfl, rfl⟩)
      · exact ⟨x, List.mem_append_left _ hx, rfl, ho⟩
      · refine ⟨g, List.mem_append_right _ (List.mem_singleton_self g), rfl, ?_⟩
        rw [hmembers]
        exact List.mem_singleton_self o

/-- The members of the group that is found by its key. -/
theorem Distinct.member_iff (h : Distinct key members groups) (hg : g ∈ groups) :
    Member key members groups o (key g) ↔ o ∈ members g := by
  obtain ⟨l, r, rfl⟩ := List.append_of_mem hg
  rw [member_middle h]
  tauto

end Memberships
