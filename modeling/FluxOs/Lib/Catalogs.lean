import Mathlib.Data.List.Nodup
import Mathlib.Logic.Function.Basic

/-!
# Catalogs

A table whose places hold entries of several owners, and for each owner a list of the entries that it has in the
table.  Each entry has a key, and no key is there twice.
-/

namespace Catalogs

variable {ι ω κ ε : Type}

/-- No two places of the table have entries with the same key. -/
def KeysUnique (key : ε → κ) (T : ι → Option (ω × ε)) : Prop :=
  ∀ i j x y, T i = some x → T j = some y → key x.2 = key y.2 → i = j

/-- The list has each entry of the owner once, and no others. -/
structure Lists (T : ι → Option (ω × ε)) (o : ω) (l : List ε) : Prop where
  nodup : l.Nodup
  mem_iff : ∀ e, e ∈ l ↔ ∃ i, T i = some (o, e)

variable {key : ε → κ} {T : ι → Option (ω × ε)} {k i : ι} {o p : ω} {e e' : ε} {l : List ε} {x : ω × ε}

/-- No entry of the owner is in the table if its list is empty, and the other way around. -/
theorem lists_nil_iff : Lists T o [] ↔ ∀ i e, T i ≠ some (o, e) := by
  constructor
  · intro h i e hi
    exact absurd ((h.mem_iff e).2 ⟨i, hi⟩) List.not_mem_nil
  · intro h
    refine ⟨List.nodup_nil, fun e => iff_of_false List.not_mem_nil ?_⟩
    rintro ⟨i, hi⟩
    exact h i e hi

/-- Two entries of the list with the same key are the same. -/
theorem Lists.eq_of_key (h : Lists T o l) (hunique : KeysUnique key T) (hk : T k = some (o, e)) (he' : e' ∈ l)
    (hkey : key e' = key e) : e' = e := by
  obtain ⟨i, hi⟩ := (h.mem_iff e').1 he'
  have hik := hunique i k _ _ hi hk hkey
  rw [hik, hk] at hi
  cases hi
  rfl

variable [DecidableEq ι]

/-! ## Keys -/

theorem KeysUnique.add (h : KeysUnique key T) (hnew : ∀ i x, T i = some x → key x.2 ≠ key e) :
    KeysUnique key (Function.update T k (some (o, e))) := by
  intro i j x y hx hy hkey
  rw [Function.update_apply] at hx hy
  split_ifs at hx hy with hi hj hj
  · rw [hi, hj]
  · cases hx
    exact absurd hkey.symm (hnew j y hy)
  · cases hy
    exact absurd hkey (hnew i x hx)
  · exact h i j x y hx hy hkey

theorem KeysUnique.clear (h : KeysUnique key T) : KeysUnique key (Function.update T k none) := by
  intro i j x y hx hy hkey
  rw [Function.update_apply] at hx hy
  split_ifs at hx hy
  exact h i j x y hx hy hkey

/-- A key that is there already makes two of it. -/
theorem not_keysUnique_add (hx : T i = some x) (hfree : T k = none) (hkey : key x.2 = key e) :
    ¬ KeysUnique key (Function.update T k (some (o, e))) := by
  intro h
  have hne : i ≠ k := by
    rintro rfl
    rw [hfree] at hx
    cases hx
  refine hne (h i k x (o, e) ?_ (Function.update_self ..) hkey)
  rw [Function.update_of_ne hne, hx]

/-! ## Lists -/

/-- What happens at a place of another owner does not matter. -/
theorem Lists.update_other {z : Option (ω × ε)} (h : Lists T o l) (hold : ∀ e, T k ≠ some (o, e))
    (hnew : ∀ e, z ≠ some (o, e)) : Lists (Function.update T k z) o l := by
  refine ⟨h.nodup, fun e => (h.mem_iff e).trans (exists_congr fun i => ?_)⟩
  rw [Function.update_apply]
  split_ifs with hi
  · subst hi
    exact iff_of_false (hold e) (hnew e)
  · exact Iff.rfl

theorem Lists.add (h : Lists T o l) (hfree : T k = none) (hnew : ∀ i, T i ≠ some (o, e)) :
    Lists (Function.update T k (some (o, e))) o (l ++ [e]) := by
  have hnotMem : e ∉ l := by
    intro hmem
    obtain ⟨i, hi⟩ := (h.mem_iff e).1 hmem
    exact hnew i hi
  refine ⟨?_, fun d => ?_⟩
  · rw [← List.concat_eq_append]
    exact h.nodup.concat hnotMem
  rw [List.mem_append, List.mem_singleton, h.mem_iff]
  constructor
  · rintro (⟨i, hi⟩ | rfl)
    · have hne : i ≠ k := by
        rintro rfl
        rw [hfree] at hi
        cases hi
      exact ⟨i, (Function.update_of_ne hne ..).trans hi⟩
    · exact ⟨k, Function.update_self ..⟩
  · rintro ⟨i, hi⟩
    rw [Function.update_apply] at hi
    split_ifs at hi with hk
    · cases hi
      exact .inr rfl
    · exact .inl ⟨i, hi⟩

/-- An entry that goes away is found in the list by its key. -/
theorem Lists.clear [DecidableEq κ] (h : Lists T o l) (hunique : KeysUnique key T) (hk : T k = some (o, e)) :
    Lists (Function.update T k none) o (l.eraseP fun d => key d = key e) := by
  have hgone : e ∉ l.eraseP fun d => key d = key e := by
    have he : e ∈ l := (h.mem_iff e).2 ⟨k, hk⟩
    obtain ⟨d, l₁, l₂, -, hkey, hl, herase⟩ :=
      List.exists_of_eraseP (p := fun d => key d = key e) he (decide_eq_true rfl)
    have hd : d = e := h.eq_of_key hunique hk (by simp [hl]) (of_decide_eq_true hkey)
    have hnodup := h.nodup
    rw [hl, List.nodup_middle, List.nodup_cons, hd] at hnodup
    rw [herase]
    exact hnodup.1
  have hmem (d : ε) : d ∈ (l.eraseP fun d => key d = key e) ↔ d ∈ l ∧ d ≠ e := by
    by_cases hkey : key d = key e
    · constructor
      · intro hd
        have hne : d ≠ e := by
          rintro rfl
          exact hgone hd
        exact ⟨List.mem_of_mem_eraseP hd, hne⟩
      · rintro ⟨hd, hne⟩
        exact absurd (h.eq_of_key hunique hk hd hkey) hne
    · rw [List.mem_eraseP_of_neg (by simpa using hkey)]
      refine (and_iff_left ?_).symm
      rintro rfl
      exact hkey rfl
  refine ⟨h.nodup.sublist List.eraseP_sublist, fun d => ?_⟩
  rw [hmem, h.mem_iff]
  constructor
  · rintro ⟨⟨i, hi⟩, hne⟩
    have hik : i ≠ k := by
      rintro rfl
      rw [hk] at hi
      cases hi
      exact hne rfl
    exact ⟨i, (Function.update_of_ne hik ..).trans hi⟩
  · rintro ⟨i, hi⟩
    rw [Function.update_apply] at hi
    split_ifs at hi with hik
    refine ⟨⟨i, hi⟩, ?_⟩
    rintro rfl
    exact hik (hunique i k _ _ hi hk rfl)

/-- Replacing an entry without its copy in the list is only possible with the same one. -/
theorem Lists.replace_iff (h : Lists T o l) (hunique : KeysUnique key T) (hk : T k = some (o, e))
    (hkey : key e' = key e) : Lists (Function.update T k (some (o, e'))) o l ↔ e' = e := by
  constructor
  · intro h'
    exact h.eq_of_key hunique hk ((h'.mem_iff e').2 ⟨k, Function.update_self ..⟩) hkey
  · rintro rfl
    rw [← hk, Function.update_eq_self]
    exact h

end Catalogs
