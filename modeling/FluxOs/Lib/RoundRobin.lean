import FluxOs.Lib.Diverging
import Mathlib.Logic.Function.Basic
import Mathlib.Tactic.Common

/-!
# Round robin

A table of entries, some of which are ready.  A round visits the entries in some order and takes a turn with each one
that is ready; rounds are repeated until one finds nothing ready, but only so many times.  A turn sees its own entry
only, so the order does not matter: the table ends as if each entry had its turns by itself.
-/

namespace RoundRobin

open Faulting Diverging

variable {ι α ε : Type} (ready : α → Bool) (turn : ι → α → Diverging ε α)

/-- What a round does to the entry at `i`. -/
def advance (i : ι) (a : α) : Diverging ε α := if ready a then turn i a else pure a

/-- What `n` rounds do to the entry at `i`. -/
def advances (i : ι) : Nat → α → Diverging ε α
  | 0, a => pure a
  | n + 1, a => advance ready turn i a >>= advances i n

variable [DecidableEq ι]

/-- A visit of the entry at `i`; the turns are counted. -/
def visit (state : (ι → α) × Nat) (i : ι) : Diverging ε ((ι → α) × Nat) :=
  if ready (state.1 i) then do
    let a ← turn i (state.1 i)
    return (Function.update state.1 i a, state.2 + 1)
  else pure state

def round (order : List ι) (table : ι → α) : Diverging ε ((ι → α) × Nat) :=
  order.foldlM (visit ready turn) (table, 0)

/-- At most `n` rounds, with their number counted from `k`. -/
def rounds (order : Nat → List ι) : Nat → Nat → (ι → α) → Diverging ε (Nat × (ι → α))
  | 0, k, table => pure (k, table)
  | n + 1, k, table => do
    let (table, turns) ← round ready turn (order k) table
    if 0 < turns then rounds order n (k + 1) table else pure (k + 1, table)

variable {ready turn} {i : ι} {a b : α} {n k k' turns turns' : Nat} {table table' : ι → α} {l : List ι}
  {order : Nat → List ι}

/-! ## One entry -/

omit [DecidableEq ι] in
theorem advance_of_not_ready (h : ready a = false) : advance ready turn i a = pure a := by simp [advance, h]

omit [DecidableEq ι] in
theorem advances_of_not_ready (h : ready a = false) : advances ready turn i n a = pure a := by
  induction n with
  | zero => rfl
  | succ n ih => rw [advances, advance_of_not_ready h, pure_bind, ih]

omit [DecidableEq ι] in
/-- What a turn carries from stage to stage holds after as many stages. -/
theorem advances_stage {P : Nat → α → Prop} (hturn : ∀ m a b, P m a → Returns (turn i a) b → P (m + 1) b)
    (hmono : ∀ m a, P m a → P (m + 1) a) (h : Returns (advances ready turn i n a) b) {m : Nat} (ha : P m a) :
    P (m + n) b := by
  induction n generalizing a m with
  | zero => exact returns_pure.1 h ▸ ha
  | succ n ih =>
    obtain ⟨c, hc, h⟩ := returns_bind.1 h
    rw [Nat.add_comm n, ← Nat.add_assoc]
    refine ih h ?_
    rw [advance] at hc
    split_ifs at hc
    · exact hturn m a c ha hc
    · exact returns_pure.1 hc ▸ hmono m a ha

/-! ## One round -/

theorem returns_visit : Returns (visit ready turn (table, turns) i) (table', turns') ↔
    Returns (advance ready turn i (table i)) (table' i) ∧ (∀ j, j ≠ i → table' j = table j) ∧
      turns' = turns + [i].countP fun i => ready (table i) := by
  unfold visit advance
  rw [List.countP_singleton]
  cases hready : ready (table i) with
  | false =>
    simp only [Bool.false_eq_true, if_false, returns_pure, Prod.mk.injEq, Nat.add_zero]
    constructor
    · rintro ⟨rfl, rfl⟩
      exact ⟨rfl, fun _ _ => rfl, rfl⟩
    · rintro ⟨hi, hrest, rfl⟩
      refine ⟨funext fun j => ?_, rfl⟩
      by_cases hj : j = i
      · rw [hj, hi]
      · exact (hrest j hj).symm
  | true =>
    simp only [if_true, returns_bind, returns_pure, Prod.mk.injEq]
    constructor
    · rintro ⟨a, ha, rfl, rfl⟩
      refine ⟨?_, fun j hj => Function.update_of_ne hj _ _, rfl⟩
      rwa [Function.update_self]
    · rintro ⟨hi, hrest, rfl⟩
      refine ⟨_, hi, funext fun j => ?_, rfl⟩
      by_cases hj : j = i
      · rw [hj, Function.update_self]
      · rw [Function.update_of_ne hj, hrest j hj]

theorem returns_visits (hl : l.Nodup) :
    Returns (l.foldlM (visit ready turn) (table, turns)) (table', turns') ↔
      (∀ i ∈ l, Returns (advance ready turn i (table i)) (table' i)) ∧ (∀ i, i ∉ l → table' i = table i) ∧
        turns' = turns + l.countP fun i => ready (table i) := by
  induction l generalizing table turns with
  | nil =>
    rw [returns_foldlM_nil, Prod.mk.injEq]
    constructor
    · rintro ⟨rfl, rfl⟩
      exact ⟨fun i hi => absurd hi List.not_mem_nil, fun _ _ => rfl, rfl⟩
    · rintro ⟨-, hrest, rfl⟩
      exact ⟨funext fun i => (hrest i List.not_mem_nil).symm, rfl⟩
  | cons j l ih =>
    obtain ⟨hj, hl⟩ := List.nodup_cons.1 hl
    -- the visits of `l` find what the visit of `j` has left alone
    have hsame {table₁ : ι → α} (hrest : ∀ i, i ≠ j → table₁ i = table i) (i : ι) (hi : i ∈ l) :
        table₁ i = table i := hrest i fun heq => hj (heq ▸ hi)
    have hcount {table₁ : ι → α} (hrest : ∀ i, i ≠ j → table₁ i = table i) :
        ((j :: l).countP fun i => ready (table i)) =
          ([j].countP fun i => ready (table i)) + l.countP fun i => ready (table₁ i) := by
      rw [← List.singleton_append, List.countP_append]
      exact congrArg _ (List.countP_congr fun i hi => by rw [hsame hrest i hi])
    rw [returns_foldlM_cons]
    constructor
    · rintro ⟨⟨table₁, turns₁⟩, hvisit, h⟩
      obtain ⟨hadvance, hrest, rfl⟩ := returns_visit.1 hvisit
      obtain ⟨hall, hother, rfl⟩ := (ih hl).1 h
      refine ⟨fun i hi => ?_, fun i hi => ?_, ?_⟩
      · rcases List.mem_cons.1 hi with rfl | hi
        · rw [hother i hj]
          exact hadvance
        · rw [← hsame hrest i hi]
          exact hall i hi
      · obtain ⟨hij, hi⟩ := not_or.1 (mt List.mem_cons.2 hi)
        rw [hother i hi, hrest i hij]
      · rw [hcount hrest, Nat.add_assoc]
    · rintro ⟨hall, hother, rfl⟩
      have hrest (i : ι) (hi : i ≠ j) : Function.update table j (table' j) i = table i := Function.update_of_ne hi _ _
      refine ⟨(Function.update table j (table' j), _), returns_visit.2 ⟨?_, hrest, rfl⟩,
        (ih hl).2 ⟨fun i hi => ?_, fun i hi => ?_, ?_⟩⟩
      · rw [Function.update_self]
        exact hall j List.mem_cons_self
      · rw [hsame hrest i hi]
        exact hall i (List.mem_cons_of_mem _ hi)
      · by_cases hij : i = j
        · rw [hij, Function.update_self]
        · rw [hrest i hij]
          exact hother i fun hmem => (List.mem_cons.1 hmem).elim hij hi
      · rw [hcount hrest, Nat.add_assoc]

/-- A round over all entries takes each one a turn further. -/
theorem returns_round (hl : l.Nodup) (hall : ∀ i, i ∈ l) :
    Returns (round ready turn l table) (table', turns) ↔
      (∀ i, Returns (advance ready turn i (table i)) (table' i)) ∧ turns = l.countP fun i => ready (table i) := by
  rw [round, returns_visits hl, Nat.zero_add]
  constructor
  · rintro ⟨h, -, hturns⟩
    exact ⟨fun i => h i (hall i), hturns⟩
  · rintro ⟨h, hturns⟩
    exact ⟨fun i _ => h i, fun i hi => absurd (hall i) hi, hturns⟩

/-! ## All rounds -/

/-- The first round, with the rounds that are left when something was ready. -/
theorem returns_rounds_succ (horder : ∀ k, (order k).Nodup ∧ ∀ i, i ∈ order k) {r : Nat × (ι → α)} :
    Returns (rounds ready turn order (n + 1) k table) r ↔
      ∃ table₁, (∀ i, Returns (advance ready turn i (table i)) (table₁ i)) ∧
        ((∃ i, ready (table i) = true) ∧ Returns (rounds ready turn order n (k + 1) table₁) r ∨
          (∀ i, ready (table i) = false) ∧ r = (k + 1, table₁)) := by
  have hpos : (0 < (order k).countP fun i => ready (table i)) ↔ ∃ i, ready (table i) = true := by
    rw [List.countP_pos_iff]
    exact exists_congr fun i => and_iff_right ((horder k).2 i)
  have hcase (table₁ : ι → α) : Returns (if 0 < (order k).countP fun i => ready (table i) then
        rounds ready turn order n (k + 1) table₁ else pure (k + 1, table₁)) r ↔
      ((∃ i, ready (table i) = true) ∧ Returns (rounds ready turn order n (k + 1) table₁) r ∨
        (∀ i, ready (table i) = false) ∧ r = (k + 1, table₁)) := by
    by_cases hready : ∃ i, ready (table i) = true
    · have hall : ¬ ∀ i, ready (table i) = false := fun hall => by
        obtain ⟨i, hi⟩ := hready
        rw [hall i] at hi
        cases hi
      rw [if_pos (hpos.2 hready)]
      simp [hready, hall]
    · rw [if_neg (mt hpos.1 hready), returns_pure]
      simp only [hready, false_and, false_or]
      simp only [not_exists, Bool.not_eq_true] at hready
      rw [and_iff_right hready, eq_comm]
  rw [rounds, returns_bind, Prod.exists]
  refine exists_congr fun table₁ => ?_
  constructor
  · rintro ⟨turns, hround, h⟩
    obtain ⟨hadvance, rfl⟩ := (returns_round (horder k).1 (horder k).2).1 hround
    exact ⟨hadvance, (hcase table₁).1 h⟩
  · rintro ⟨hadvance, h⟩
    exact ⟨_, (returns_round (horder k).1 (horder k).2).2 ⟨hadvance, rfl⟩, (hcase table₁).2 h⟩

/-- After the rounds each entry is where its own turns lead to, and the rounds are used up or nothing is ready. -/
theorem rounds_advances (horder : ∀ k, (order k).Nodup ∧ ∀ i, i ∈ order k)
    (h : Returns (rounds ready turn order n k table) (k', table')) :
    (∀ i, Returns (advances ready turn i n (table i)) (table' i)) ∧ k' ≤ k + n ∧
      (k' = k + n ∨ ∀ i, ready (table' i) = false) := by
  induction n generalizing k table with
  | zero =>
    obtain ⟨rfl, rfl⟩ := Prod.mk.inj (returns_pure.1 h)
    exact ⟨fun i => returns_pure.2 rfl, Nat.le_refl k, .inl rfl⟩
  | succ n ih =>
    obtain ⟨table₁, hadvance, h⟩ := (returns_rounds_succ horder).1 h
    rcases h with ⟨-, h⟩ | ⟨hnone, heq⟩
    · obtain ⟨hall, hle, hend⟩ := ih h
      refine ⟨fun i => returns_bind.2 ⟨_, hadvance i, hall i⟩, by omega, hend.imp_left fun heq => by omega⟩
    · obtain ⟨rfl, rfl⟩ := Prod.mk.inj heq
      have hsame (i : ι) : table i = table' i := by
        have hi := hadvance i
        rw [advance_of_not_ready (hnone i)] at hi
        exact returns_pure.1 hi
      refine ⟨fun i => ?_, by omega, .inr fun i => hsame i ▸ hnone i⟩
      rw [advances_of_not_ready (hnone i)]
      exact returns_pure.2 (hsame i)

/-- The rounds return when each entry by itself can have its turns. -/
theorem exists_rounds (horder : ∀ k, (order k).Nodup ∧ ∀ i, i ∈ order k) :
    (∃ r, Returns (rounds ready turn order n k table) r) ↔
      ∀ i, ∃ a, Returns (advances ready turn i n (table i)) a := by
  constructor
  · rintro ⟨⟨k', table'⟩, h⟩ i
    exact ⟨table' i, (rounds_advances horder h).1 i⟩
  · intro h
    induction n generalizing k table with
    | zero => exact ⟨_, returns_pure.2 rfl⟩
    | succ n ih =>
      have hfirst (i : ι) : ∃ a, Returns (advance ready turn i (table i)) a ∧
          ∃ b, Returns (advances ready turn i n a) b := by
        obtain ⟨b, hb⟩ := h i
        obtain ⟨a, ha, hb⟩ := returns_bind.1 hb
        exact ⟨a, ha, b, hb⟩
      choose table₁ hadvance hrest using hfirst
      by_cases hready : ∃ i, ready (table i) = true
      · obtain ⟨r, hr⟩ := ih (k := k + 1) hrest
        exact ⟨r, (returns_rounds_succ horder).2 ⟨table₁, hadvance, .inl ⟨hready, hr⟩⟩⟩
      · simp only [not_exists, Bool.not_eq_true] at hready
        exact ⟨_, (returns_rounds_succ horder).2 ⟨table₁, hadvance, .inr ⟨hready, rfl⟩⟩⟩

end RoundRobin
