import Mathlib.Data.List.Perm.Basic

/-!
# Mailboxes

A mailbox is a list of at most `n` messages in the order in which they came.  A message is accepted at the
end if there is room, and the first one that satisfies a predicate can be taken out.  Over a run, what was
accepted is what was taken out and what is still there.
-/

namespace Mailboxes

variable {α : Type}

/-- What happens to a mailbox in one step. -/
inductive Event (α : Type)
  | idle
  | accept (m : α)
  | deliver (m : α)

/-- The message that an event adds. -/
def Event.accepted : Event α → List α
  | .accept m => [m]
  | _ => []

/-- The message that an event takes out. -/
def Event.delivered : Event α → List α
  | .deliver m => [m]
  | _ => []

/-- One step of a mailbox for `n` messages. -/
inductive Step (n : Nat) : Event α → List α → List α → Prop
  | idle (l : List α) : Step n .idle l l
  | accept (l : List α) (m : α) : l.length < n → Step n (.accept m) l (l ++ [m])
  | deliver (l : List α) (p : α → Bool) (m : α) : l.find? p = some m → Step n (.deliver m) l (l.eraseP p)

variable {n : Nat} {e : Event α} {l l' accepted delivered : List α} {p : α → Bool} {m : α}

/-- The message that is found is the one that is erased. -/
theorem perm_cons_eraseP (h : l.find? p = some m) : l.Perm (m :: l.eraseP p) := by
  induction l with
  | nil => cases h
  | cons x l ih =>
    by_cases hx : p x = true
    · rw [List.find?_cons_of_pos hx] at h
      cases h
      rw [List.eraseP_cons_of_pos hx]
    · rw [List.find?_cons_of_neg hx] at h
      rw [List.eraseP_cons_of_neg hx]
      exact ((ih h).cons x).trans (List.Perm.swap m x _)

/-- What is erased is the first copy of the message. -/
theorem eraseP_eq_erase [DecidableEq α] (h : l.find? p = some m) : l.eraseP p = l.erase m := by
  have hm := List.find?_some h
  induction l with
  | nil => cases h
  | cons x l ih =>
    by_cases hx : p x = true
    · rw [List.find?_cons_of_pos hx] at h
      cases h
      rw [List.eraseP_cons_of_pos hx, List.erase_cons_head]
    · have hne : x ≠ m := by
        rintro rfl
        exact hx hm
      rw [List.find?_cons_of_neg hx] at h
      rw [List.eraseP_cons_of_neg hx, ih h, List.erase_cons_tail]
      simpa using hne

theorem Step.idle_eq (h : Step n .idle l l') : l' = l := by
  cases h
  rfl

theorem Step.accept_eq (h : Step n (.accept m) l l') : l' = l ++ [m] := by
  cases h
  rfl

/-- The message that is taken out is the first one that is found, whatever it was looked for by. -/
theorem Step.deliver_eq [DecidableEq α] (h : Step n (.deliver m) l l') (hfind : l.find? p = some m) :
    l' = l.eraseP p := by
  cases h with
  | deliver _ p' _ hfind' => rw [eraseP_eq_erase hfind, eraseP_eq_erase hfind']

theorem Step.length_le (h : Step n e l l') (hl : l.length ≤ n) : l'.length ≤ n := by
  cases h with
  | idle => exact hl
  | accept _ _ hroom =>
    rw [List.length_append, List.length_singleton]
    exact hroom
  | deliver _ _ _ _ => exact Nat.le_trans List.length_eraseP_le hl

/-- A step moves messages, and neither loses nor repeats any. -/
theorem Step.perm (h : Step n e l l') : (l ++ e.accepted).Perm (e.delivered ++ l') := by
  cases h with
  | idle => exact List.Perm.of_eq (List.append_nil _)
  | accept _ _ _ => exact List.Perm.refl _
  | deliver _ p m hfind =>
    show (l ++ []).Perm (m :: l.eraseP p)
    rw [List.append_nil]
    exact perm_cons_eraseP hfind

/-- The messages that stay keep their order. -/
theorem Step.sublist (h : Step n e l l') : l'.Sublist (l ++ e.accepted) := by
  cases h with
  | idle => exact (List.append_nil l).symm ▸ List.Sublist.refl l
  | accept _ _ _ => exact List.Sublist.refl _
  | deliver _ _ _ _ => exact (List.append_nil l).symm ▸ List.eraseP_sublist

/-- What was accepted is what was delivered and what is there: every message is delivered once at most. -/
theorem Step.conservation (h : Step n e l l') (hperm : accepted.Perm (delivered ++ l)) :
    (accepted ++ e.accepted).Perm (delivered ++ e.delivered ++ l') := by
  have h₁ := (hperm.append_right e.accepted).trans (List.Perm.of_eq (List.append_assoc ..))
  refine h₁.trans ?_
  rw [List.append_assoc delivered]
  exact h.perm.append_left delivered

/-- The messages that are there are in the order in which they were accepted. -/
theorem Step.order (h : Step n e l l') (hsub : l.Sublist accepted) :
    l'.Sublist (accepted ++ e.accepted) := h.sublist.trans (hsub.append_right _)

end Mailboxes
