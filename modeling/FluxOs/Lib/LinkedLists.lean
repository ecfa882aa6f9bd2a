import Mathlib.Data.List.Nodup
import Mathlib.Logic.Function.Basic

/-!
# Doubly linked lists

A list threaded through `next` and `prev` functions, with `null` at both ends: `next null` is the first
node.  What `prev null` is does not matter.  `Linked.unlink` and `Linked.insert` are the two edits.
-/

namespace LinkedLists

variable {α : Type} (null : α) (next prev : α → α)

/-- Consecutive elements are linked both ways. -/
def Links : List α → Prop
  | x :: y :: l => next x = y ∧ (y ≠ null → prev y = x) ∧ Links (y :: l)
  | _ => True

/-- The nodes `l` form a list from `null` to `null`. -/
def Linked (l : List α) : Prop := Links null next prev (null :: l ++ [null])

variable {null next prev} {next' prev' : α → α} {k l : List α} {a x y : α}

theorem links_cons_cons : Links null next prev (x :: y :: l) ↔
    next x = y ∧ (y ≠ null → prev y = x) ∧ Links null next prev (y :: l) := Iff.rfl

theorem links_append : Links null next prev (k ++ x :: l) ↔
    Links null next prev (k ++ [x]) ∧ Links null next prev (x :: l) := by
  induction k with
  | nil => exact (and_iff_right trivial).symm
  | cons u k ih =>
    cases k with
    | nil =>
      rw [List.nil_append] at ih
      simp only [List.cons_append, List.nil_append, Links, and_true]
      exact and_assoc.symm
    | cons v k =>
      simp only [List.cons_append, links_cons_cons] at ih ⊢
      rw [ih]
      simp only [and_assoc]

theorem Links.tail (h : Links null next prev (x :: l)) : Links null next prev l := by
  cases l with
  | nil => trivial
  | cons y l => exact h.2.2

/-- Links depend on `next` of all elements but the last, and on `prev` of all but the first. -/
theorem Links.congr (h : Links null next prev (x :: l))
    (hnext : ∀ u ∈ (x :: l).dropLast, next' u = next u)
    (hprev : ∀ u ∈ l, u ≠ null → prev' u = prev u) : Links null next' prev' (x :: l) := by
  induction l generalizing x with
  | nil => trivial
  | cons y l ih =>
    obtain ⟨hx, hy, hl⟩ := h
    refine ⟨(hnext x ?_).trans hx, fun hyn => (hprev y ?_ hyn).trans (hy hyn), ih hl ?_ ?_⟩
    · exact List.mem_cons_self
    · exact List.mem_cons_self
    · exact fun u hu => hnext u (List.mem_cons_of_mem _ hu)
    · exact fun u hu => hprev u (List.mem_cons_of_mem _ hu)

/-- What the seam between two parts of a list has to satisfy. -/
theorem linked_append : Linked null next prev (k ++ l) ↔
    Links null next prev (null :: k) ∧
      (next (k.getLastD null) = l.headD null ∧
        (l.headD null ≠ null → prev (l.headD null) = k.getLastD null)) ∧
      Links null next prev (l ++ [null]) := by
  obtain ⟨s, hs⟩ : ∃ s, null :: k = s ++ [k.getLastD null] := by
    rcases List.eq_nil_or_concat k with rfl | ⟨s, x, rfl⟩
    · exact ⟨[], rfl⟩
    · exact ⟨null :: s, by simp⟩
  obtain ⟨t, ht⟩ : ∃ t, l ++ [null] = l.headD null :: t := by
    cases l with
    | nil => exact ⟨[], rfl⟩
    | cons y l => exact ⟨l ++ [null], rfl⟩
  unfold Linked
  rw [← List.cons_append, List.append_assoc, hs, ht, List.append_assoc, List.singleton_append,
    links_append, links_cons_cons, and_assoc]

/-- Linked lists depend on the links of their nodes and on the first node. -/
theorem Linked.congr (h : Linked null next prev l) (hnext : ∀ u ∈ null :: l, next' u = next u)
    (hprev : ∀ u ∈ l, prev' u = prev u) : Linked null next' prev' l := by
  refine Links.congr h (fun u hu => hnext u ?_) (fun u hu hn => hprev u ?_)
  · have hu : u ∈ ((null :: l) ++ [null]).dropLast := hu
    rwa [List.dropLast_concat] at hu
  · have hu : u ∈ l ++ [null] := hu
    simpa [hn] using hu

theorem links_suffix_congr (h : Links null next prev (l ++ [null]))
    (hnext : ∀ u ∈ l, next' u = next u) (hprev : ∀ u ∈ l.tail, prev' u = prev u) :
    Links null next' prev' (l ++ [null]) := by
  cases l with
  | nil => trivial
  | cons y l =>
    refine Links.congr h (fun u hu => hnext u ?_) (fun u hu hn => hprev u ?_)
    · have hu : u ∈ ((y :: l) ++ [null]).dropLast := hu
      rwa [List.dropLast_concat] at hu
    · have hu : u ∈ l ++ [null] := hu
      simpa [hn] using hu

theorem Linked.next_node (h : Linked null next prev (k ++ a :: l)) : next a = l.headD null := by
  rw [List.append_cons] at h
  simpa using (linked_append.1 h).2.1.1

theorem Linked.prev_node (h : Linked null next prev (k ++ a :: l)) (ha : a ≠ null) :
    prev a = k.getLastD null :=
  (linked_append.1 h).2.1.2 ha

theorem headD_eq_or_mem (null : α) (l : List α) : l.headD null = null ∨ l.headD null ∈ l := by
  cases l with
  | nil => exact .inl rfl
  | cons y l => exact .inr List.mem_cons_self

theorem getLastD_mem (null : α) (k : List α) : k.getLastD null ∈ null :: k := by
  rcases List.eq_nil_or_concat k with rfl | ⟨s, x, rfl⟩
  · exact List.mem_cons_self
  · simp

theorem headD_mem (null : α) (l : List α) : l.headD null ∈ null :: l := by
  cases l with
  | nil => exact List.mem_cons_self
  | cons y l => exact List.mem_cons_of_mem _ List.mem_cons_self

theorem ne_getLastD (hk : (null :: k).Nodup) (hx : x ∈ (null :: k).dropLast) :
    x ≠ k.getLastD null := by
  rcases List.eq_nil_or_concat k with rfl | ⟨s, y, rfl⟩
  · cases hx
  · rw [List.concat_eq_append] at *
    have hx : x ∈ ((null :: s) ++ [y]).dropLast := hx
    have hk : ((null :: s) ++ [y]).Nodup := hk
    rw [List.dropLast_concat] at hx
    simpa using (List.nodup_append.1 hk).2.2 x hx y

theorem ne_headD (hl : l.Nodup) (hx : x ∈ l.tail) : x ≠ l.headD null := by
  cases l with
  | nil => cases hx
  | cons y l =>
    rintro rfl
    exact (List.nodup_cons.1 hl).1 hx

section Edits

variable [DecidableEq α]

/-- Take the node `a` out of the list. -/
theorem Linked.unlink (h : Linked null next prev (k ++ a :: l)) (hn : (null :: (k ++ a :: l)).Nodup) :
    Linked null (Function.update next (prev a) (next a)) (Function.update prev (next a) (prev a))
      (k ++ l) := by
  have hnil : (null :: k).Nodup ∧ (a :: l).Nodup ∧ ∀ u ∈ null :: k, ∀ v ∈ a :: l, u ≠ v := by
    rwa [← List.cons_append, List.nodup_append] at hn
  obtain ⟨hk, hal, hdisj⟩ := hnil
  have ha : a ≠ null := fun h => hdisj null List.mem_cons_self a List.mem_cons_self h.symm
  rw [h.prev_node ha, h.next_node]
  obtain ⟨hleft, -, hright⟩ := linked_append.1 h
  have hlast := getLastD_mem null k
  refine linked_append.2 ⟨?_, ⟨Function.update_self .., fun _ => Function.update_self ..⟩, ?_⟩
  · refine hleft.congr (fun u hu => ?_) (fun u hu hun => ?_)
    · exact Function.update_of_ne (ne_getLastD hk hu) ..
    · refine Function.update_of_ne (fun hul => ?_) ..
      rcases headD_eq_or_mem null l with hnull | hmem
      · exact hun (hul.trans hnull)
      · exact hdisj u (List.mem_cons_of_mem _ hu) _ (List.mem_cons_of_mem _ hmem) hul
  · refine links_suffix_congr (Links.tail hright) (fun u hu => ?_) (fun u hu => ?_)
    · exact Function.update_of_ne (hdisj _ hlast u (List.mem_cons_of_mem _ hu)).symm ..
    · exact Function.update_of_ne (ne_headD (List.nodup_cons.1 hal).2 hu) ..

/-- Put a new node `a` into the list. -/
theorem Linked.insert (h : Linked null next prev (k ++ l)) (hn : (null :: (k ++ a :: l)).Nodup) :
    Linked null (Function.update (Function.update next (k.getLastD null) a) a (l.headD null))
      (Function.update (Function.update prev (l.headD null) a) a (k.getLastD null)) (k ++ a :: l) := by
  have hnil : (null :: k).Nodup ∧ (a :: l).Nodup ∧ ∀ u ∈ null :: k, ∀ v ∈ a :: l, u ≠ v := by
    rwa [← List.cons_append, List.nodup_append] at hn
  obtain ⟨hk, hal, hdisj⟩ := hnil
  obtain ⟨hleft, -, hright⟩ := linked_append.1 h
  have hlast := getLastD_mem null k
  have hlasta : k.getLastD null ≠ a := hdisj _ hlast a List.mem_cons_self
  have hal' : ∀ u ∈ l, u ≠ a := fun u hu hua => (List.nodup_cons.1 hal).1 (hua ▸ hu)
  have ha : a ≠ null := fun h => hdisj null List.mem_cons_self a List.mem_cons_self h.symm
  have hheada : l.headD null ≠ a := by
    rcases headD_eq_or_mem null l with hnull | hmem
    · rw [hnull]
      exact ha.symm
    · exact hal' _ hmem
  refine linked_append.2 ⟨?_, ⟨?_, fun _ => Function.update_self ..⟩, ?_⟩
  · refine hleft.congr (fun u hu => ?_) (fun u hu hun => ?_)
    · have hua : u ≠ a := hdisj u (List.dropLast_subset _ hu) a List.mem_cons_self
      rw [Function.update_of_ne hua, Function.update_of_ne (ne_getLastD hk hu)]
    · have hmem : u ∈ null :: k := List.mem_cons_of_mem _ hu
      rw [Function.update_of_ne (hdisj u hmem a List.mem_cons_self), Function.update_of_ne fun hul => ?_]
      rcases headD_eq_or_mem null l with hnull | hmem'
      · exact hun (hul.trans hnull)
      · exact hdisj u hmem _ (List.mem_cons_of_mem _ hmem') hul
  · rw [Function.update_of_ne hlasta, Function.update_self]
    rfl
  · have hright : Links null
        (Function.update (Function.update next (k.getLastD null) a) a (l.headD null))
        (Function.update (Function.update prev (l.headD null) a) a (k.getLastD null)) (l ++ [null]) := by
      refine links_suffix_congr hright (fun u hu => ?_) (fun u hu => ?_)
      · rw [Function.update_of_ne (hal' u hu), Function.update_of_ne]
        exact (hdisj _ hlast u (List.mem_cons_of_mem _ hu)).symm
      · rw [Function.update_of_ne (hal' u (List.mem_of_mem_tail hu)), Function.update_of_ne]
        exact ne_headD (List.nodup_cons.1 hal).2 hu
    cases l with
    | nil => exact ⟨Function.update_self .., fun hnull => absurd rfl hnull, hright⟩
    | cons y l =>
      refine ⟨Function.update_self .., fun _ => ?_, hright⟩
      exact (Function.update_of_ne hheada ..).trans (Function.update_self ..)

end Edits

end LinkedLists
