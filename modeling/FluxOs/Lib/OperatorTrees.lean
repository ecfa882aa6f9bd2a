import Mathlib.Algebra.Order.Ring.Nat
import Mathlib.Data.List.Chain
import Mathlib.Tactic.Common

/-!
# Trees of binary operators

Operands joined by binary operators can be bracketed in many ways.  `Standard prec t` says that the tree `t` brackets
them by precedence, and operators of equal precedence from the left: there is exactly one such tree for every chain of
operands and operators, `standardTree` (`standard_iff`).  The tree that brackets everything from the left is that one
exactly if the precedence never increases along the chain (`leftTree_eq_standardTree_iff`).
-/

namespace OperatorTrees

variable {O A S : Type} {prec : O → Nat}

/-- Operands joined by binary operators. -/
inductive OpTree (O A : Type)
  | operand (a : A)
  | node (l : OpTree O A) (op : O) (r : OpTree O A)

namespace OpTree

variable {t t' l r : OpTree O A} {op o : O} {a b : A} {k m : Nat} {xs ys zs : List (O × A)}

/-- The first operand, and the operators with the operands behind them. -/
def inorder : OpTree O A → A × List (O × A)
  | operand a => (a, [])
  | node l op r => (l.inorder.1, l.inorder.2 ++ (op, r.inorder.1) :: r.inorder.2)

/-- The operator at the root, if there is one, has at least precedence `k`. -/
def BindsAtLeast (prec : O → Nat) (k : Nat) : OpTree O A → Prop
  | operand _ => True
  | node _ op _ => k ≤ prec op

/-- Operators below a node bind tighter than it, or as tight and to the left. -/
def Standard (prec : O → Nat) : OpTree O A → Prop
  | operand _ => True
  | node l op r => (l.Standard prec ∧ l.BindsAtLeast prec (prec op)) ∧
      (r.Standard prec ∧ r.BindsAtLeast prec (prec op + 1))

/-- The tree with one more operator and operand behind it. -/
def snoc (prec : O → Nat) : OpTree O A → O → A → OpTree O A
  | operand b, op, a => node (operand b) op (operand a)
  | node l o r, op, a => if prec op ≤ prec o then node (node l o r) op (operand a) else node l o (r.snoc prec op a)

/-- The tree of a chain by precedence. -/
def standardTree (prec : O → Nat) (a : A) (xs : List (O × A)) : OpTree O A :=
  xs.foldl (fun t x => t.snoc prec x.1 x.2) (operand a)

/-- The tree of a chain from the left. -/
def leftTree (a : A) (xs : List (O × A)) : OpTree O A :=
  xs.foldl (fun t x => node t x.1 (operand x.2)) (operand a)

/-! ## The standard tree -/

theorem BindsAtLeast.mono (h : t.BindsAtLeast prec k) (hm : m ≤ k) : t.BindsAtLeast prec m := by
  cases t with
  | operand a => trivial
  | node l op r => exact Nat.le_trans hm h

/-- In a standard tree no operator binds less than the root. -/
theorem le_prec_of_mem (ht : t.Standard prec) (hk : t.BindsAtLeast prec k) :
    ∀ x ∈ t.inorder.2, k ≤ prec x.1 := by
  induction t with
  | operand a => simp [inorder]
  | node l op r ihl ihr =>
    intro x hx
    obtain ⟨⟨hl, hlbinds⟩, hr, hrbinds⟩ := ht
    rcases List.mem_append.1 hx with hx | hx
    · exact ihl hl (hlbinds.mono hk) x hx
    · rcases List.mem_cons.1 hx with rfl | hx
      · exact hk
      · exact ihr hr (hrbinds.mono (Nat.le_succ_of_le hk)) x hx

theorem inorder_snoc (t : OpTree O A) (op : O) (a : A) :
    (t.snoc prec op a).inorder = (t.inorder.1, t.inorder.2 ++ [(op, a)]) := by
  induction t with
  | operand b => rfl
  | node l o r ihl ihr =>
    unfold snoc
    split_ifs
    · rfl
    · simp [inorder, ihr]

theorem bindsAtLeast_snoc (ht : t.BindsAtLeast prec k) (hop : k ≤ prec op) :
    (t.snoc prec op a).BindsAtLeast prec k := by
  cases t with
  | operand b => exact hop
  | node l o r =>
    unfold snoc
    split_ifs
    · exact hop
    · exact ht

theorem standard_snoc (ht : t.Standard prec) : (t.snoc prec op a).Standard prec := by
  induction t with
  | operand b => exact ⟨⟨trivial, trivial⟩, trivial, trivial⟩
  | node l o r ihl ihr =>
    unfold snoc
    split_ifs with hle
    · exact ⟨⟨ht, hle⟩, trivial, trivial⟩
    · exact ⟨ht.1, ihr ht.2.1, bindsAtLeast_snoc ht.2.2 (Nat.lt_of_not_le hle)⟩

theorem standardTree_concat (a : A) (xs : List (O × A)) (x : O × A) :
    standardTree prec a (xs ++ [x]) = (standardTree prec a xs).snoc prec x.1 x.2 := List.foldl_concat ..

theorem standard_standardTree (a : A) (xs : List (O × A)) : (standardTree prec a xs).Standard prec := by
  induction xs using List.reverseRecOn with
  | nil => trivial
  | append_singleton xs x ih =>
    rw [standardTree_concat]
    exact standard_snoc ih

theorem inorder_standardTree (a : A) (xs : List (O × A)) : (standardTree prec a xs).inorder = (a, xs) := by
  induction xs using List.reverseRecOn with
  | nil => rfl
  | append_singleton xs x ih => rw [standardTree_concat, inorder_snoc, ih]

theorem snoc_of_bindsAtLeast (h : l.BindsAtLeast prec (prec op)) : l.snoc prec op a = node l op (operand a) := by
  cases l with
  | operand b => rfl
  | node l o r => exact if_pos h

/-- Operators that bind tighter than the root go to the right of it. -/
theorem foldl_snoc_node (hxs : ∀ x ∈ xs, prec op + 1 ≤ prec x.1) :
    xs.foldl (fun t x => t.snoc prec x.1 x.2) (node l op r) =
      node l op (xs.foldl (fun t x => t.snoc prec x.1 x.2) r) := by
  induction xs generalizing r with
  | nil => rfl
  | cons x xs ih =>
    have hx := hxs x List.mem_cons_self
    rw [List.foldl_cons, List.foldl_cons, ← ih fun y hy => hxs y (List.mem_cons_of_mem _ hy), snoc,
      if_neg (Nat.not_le.2 hx)]

/-- A standard tree is that of its chain. -/
theorem Standard.eq_standardTree (h : t.Standard prec) : t = standardTree prec t.inorder.1 t.inorder.2 := by
  induction t with
  | operand a => rfl
  | node l op r ihl ihr =>
    obtain ⟨⟨hl, hlbinds⟩, hr, hrbinds⟩ := h
    have hxs := le_prec_of_mem hr hrbinds
    have hleft := ihl hl
    have hright := ihr hr
    simp only [inorder, standardTree, List.foldl_append, List.foldl_cons] at hleft hright ⊢
    rw [← hleft, snoc_of_bindsAtLeast hlbinds, foldl_snoc_node hxs, ← hright]

/-- There is exactly one standard tree of a chain. -/
theorem standard_iff : t.Standard prec ∧ t.inorder = (a, xs) ↔ t = standardTree prec a xs := by
  constructor
  · rintro ⟨h, hinorder⟩
    rw [h.eq_standardTree, hinorder]
  · rintro rfl
    exact ⟨standard_standardTree a xs, inorder_standardTree a xs⟩

/-! ## The tree from the left -/

theorem leftTree_concat (a : A) (xs : List (O × A)) (x : O × A) :
    leftTree a (xs ++ [x]) = node (leftTree a xs) x.1 (operand x.2) := List.foldl_concat ..

theorem inorder_leftTree (a : A) (xs : List (O × A)) : (leftTree a xs).inorder = (a, xs) := by
  induction xs using List.reverseRecOn with
  | nil => rfl
  | append_singleton xs x ih =>
    rw [leftTree_concat, inorder, ih]
    rfl

/-- The precedence never increases from one operator of the chain to the next. -/
def NonIncreasing (prec : O → Nat) (xs : List (O × A)) : Prop := xs.IsChain fun x y => prec y.1 ≤ prec x.1

theorem bindsAtLeast_leftTree (a : A) (xs : List (O × A)) :
    (leftTree a xs).BindsAtLeast prec k ↔ ∀ x ∈ xs.getLast?, k ≤ prec x.1 := by
  induction xs using List.reverseRecOn with
  | nil => simp [leftTree, BindsAtLeast]
  | append_singleton xs x ih =>
    rw [leftTree_concat]
    simp [BindsAtLeast]

theorem standard_leftTree_iff (a : A) (xs : List (O × A)) :
    (leftTree a xs).Standard prec ↔ NonIncreasing prec xs := by
  induction xs using List.reverseRecOn with
  | nil => simp [leftTree, Standard, NonIncreasing]
  | append_singleton xs x ih =>
    rw [leftTree_concat, NonIncreasing, List.isChain_append, Standard, ih, bindsAtLeast_leftTree]
    simp [Standard, BindsAtLeast, NonIncreasing]

theorem leftTree_eq_standardTree_iff (a : A) (xs : List (O × A)) :
    leftTree a xs = standardTree prec a xs ↔ NonIncreasing prec xs := by
  rw [← standard_iff, standard_leftTree_iff, and_iff_left (inorder_leftTree a xs)]

/-! ## Trees without brackets -/

/-- The trees of the operands joined as the tree of operators says. -/
def plug (join : S → S → S) : OpTree O S → S
  | operand s => s
  | node l _ r => join (l.plug join) (r.plug join)

/-- The chain with the weights of its operands. -/
def weights (w : S → Nat) (t : OpTree O S) : Nat × List (O × Nat) :=
  (w t.inorder.1, t.inorder.2.map (Prod.map id w))

theorem eq_of_append_eq {α : Type} {as as' bs bs' : List α} {f : α → Nat} (hf : ∀ a, 0 < f a)
    (happend : as ++ bs = as' ++ bs') (hsum : (as.map f).sum = (as'.map f).sum) : as = as' ∧ bs = bs' := by
  have hnil (cs : List α) (h : (cs.map f).sum = 0) : cs = [] := by
    cases cs with
    | nil => rfl
    | cons c cs =>
      have hc := hf c
      rw [List.map_cons, List.sum_cons] at h
      omega
  rcases List.append_eq_append_iff.1 happend with ⟨cs, rfl, rfl⟩ | ⟨cs, rfl, rfl⟩
  · rw [List.map_append, List.sum_append] at hsum
    rw [hnil cs (by omega), List.append_nil, List.nil_append]
    exact ⟨rfl, rfl⟩
  · rw [List.map_append, List.sum_append] at hsum
    rw [hnil cs (by omega), List.append_nil, List.nil_append]
    exact ⟨rfl, rfl⟩

section

variable {w : S → Nat} {join : S → S → S} {t t' : OpTree O S}

theorem weight_plug (hw : ∀ a b, w (join a b) = w a + w b + 1) (t : OpTree O S) :
    w (t.plug join) = (t.weights w).1 + ((t.weights w).2.map fun x => x.2 + 1).sum := by
  induction t with
  | operand s => rfl
  | node l op r ihl ihr =>
    simp only [weights] at ihl ihr
    simp only [plug, hw, ihl, ihr, weights, inorder, List.map_append, List.map_cons, List.sum_append, List.sum_cons,
      Prod.map_apply]
    omega

/-- Two trees over the same operators and operands of the same weights are the same, if what they are plugged
together to is. -/
theorem eq_of_plug_eq (hjoin : ∀ a b c d, join a b = join c d → a = c ∧ b = d)
    (hw : ∀ a b, w (join a b) = w a + w b + 1) (hweights : t.weights w = t'.weights w)
    (hplug : t.plug join = t'.plug join) : t = t' := by
  induction t generalizing t' with
  | operand s =>
    cases t' with
    | operand s' => exact congrArg operand hplug
    | node l op r =>
      have hlist := congrArg Prod.snd hweights
      simp [weights, inorder] at hlist
  | node l op r ihl ihr =>
    cases t' with
    | operand s' =>
      have hlist := congrArg Prod.snd hweights
      simp [weights, inorder] at hlist
    | node l' op' r' =>
      obtain ⟨hl, hr⟩ := hjoin _ _ _ _ hplug
      have hfirst : w l.inorder.1 = w l'.inorder.1 := congrArg Prod.fst hweights
      have hrest := congrArg Prod.snd hweights
      simp only [weights, inorder, List.map_append, List.map_cons] at hrest
      have hsum := congrArg w hl
      rw [weight_plug hw, weight_plug hw, weights, weights, hfirst] at hsum
      obtain ⟨hxs, hys⟩ := eq_of_append_eq (f := fun x => x.2 + 1) (fun _ => Nat.succ_pos _) hrest
        (Nat.add_left_cancel hsum)
      obtain ⟨hop, hys⟩ := List.cons.inj hys
      rw [ihl (Prod.ext hfirst hxs) hl, ihr (Prod.ext (congrArg Prod.snd hop) hys) hr,
        show op = op' from congrArg Prod.fst hop]

end

end OpTree

end OperatorTrees
