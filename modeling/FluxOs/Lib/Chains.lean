import Mathlib.Data.List.Nodup
import Mathlib.Logic.Function.Basic

/-!
# Singly linked lists

A list threaded through a partial `next` function up to `null`.  `Chain.relink` is the one edit: a node of
the list gets another rest.
-/

namespace Chains

variable {α : Type} (null : α) (next : α → Option α)

/-- The nodes `l` are linked from `a` to `null`. -/
def Chain : α → List α → Prop
  | a, [] => a = null
  | a, x :: l => a = x ∧ x ≠ null ∧ ∃ b, next x = some b ∧ Chain b l

/-- The first node of a list, or `null`. -/
def first (l : List α) : α := l.head?.getD null

variable {null next} {next' : α → Option α} {a b x y : α} {k l m : List α}

theorem Chain.eq_first (h : Chain null next a l) : a = first null l := by
  cases l with
  | nil => exact h
  | cons x l => exact h.1

theorem Chain.ne_null (h : Chain null next a l) (hx : x ∈ l) : x ≠ null := by
  induction l generalizing a with
  | nil => cases hx
  | cons y l ih =>
    obtain ⟨-, hy, b, -, hl⟩ := h
    rcases List.mem_cons.1 hx with rfl | hx
    · exact hy
    · exact ih hl hx

/-- A list is empty exactly if it starts with `null`. -/
theorem Chain.eq_null_iff (h : Chain null next a l) : a = null ↔ l = [] := by
  cases l with
  | nil => exact iff_of_true h rfl
  | cons x l => exact iff_of_false (fun ha => h.2.1 (h.1 ▸ ha)) (List.cons_ne_nil x l)

/-- Links depend on `next` of the nodes alone. -/
theorem Chain.congr (h : Chain null next a l) (hnext : ∀ x ∈ l, next' x = next x) :
    Chain null next' a l := by
  induction l generalizing a with
  | nil => exact h
  | cons x l ih =>
    obtain ⟨ha, hx, b, hb, hl⟩ := h
    refine ⟨ha, hx, b, ?_, ih hl fun y hy => hnext y (List.mem_cons_of_mem x hy)⟩
    rw [hnext x List.mem_cons_self, hb]

/-- The rest of a list is one. -/
theorem Chain.rest (h : Chain null next a (k ++ l)) : Chain null next (first null l) l := by
  induction k generalizing a with
  | nil =>
    rw [List.nil_append] at h
    exact h.eq_first ▸ h
  | cons x k ih =>
    obtain ⟨-, -, b, -, hb⟩ := h
    exact ih hb

/-- A node links to the next one. -/
theorem Chain.next_eq (h : Chain null next a (k ++ x :: l)) : next x = some (first null l) := by
  obtain ⟨-, -, b, hb, hl⟩ := h.rest
  rw [hb, hl.eq_first]

/-- Every node links somewhere. -/
theorem Chain.next_ne_none (h : Chain null next a l) (hx : x ∈ l) : next x ≠ none := by
  obtain ⟨k, m, rfl⟩ := List.append_of_mem hx
  rw [h.next_eq]
  exact Option.some_ne_none _

/-- A node of a list gets the rest `m`. -/
theorem Chain.relink [DecidableEq α] (h : Chain null next a (k ++ x :: l)) (hk : x ∉ k)
    (hm : Chain null next b m) (hx : x ∉ m) :
    Chain null (Function.update next x (some b)) a (k ++ x :: m) := by
  induction k generalizing a with
  | nil =>
    obtain ⟨ha, hne, -⟩ := h
    refine ⟨ha, hne, b, Function.update_self x _ next, hm.congr fun y hy => ?_⟩
    exact Function.update_of_ne (fun heq : y = x => hx (heq ▸ hy)) _ next
  | cons y k ih =>
    obtain ⟨ha, hne, c, hc, hrest⟩ := h
    refine ⟨ha, hne, c, ?_, ih hrest (List.not_mem_of_not_mem_cons hk)⟩
    rw [Function.update_of_ne (fun heq : y = x => hk (heq ▸ List.mem_cons_self)), hc]

end Chains
