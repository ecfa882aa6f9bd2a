import FluxOs.Kernel.Ownership

/-!
# The counters and the memory map

What the calls of the allocator do to its tables: an allocation charges the aligned size and records it, a
release credits the size of the block and drops its record, and the work on the free list touches neither.
-/

namespace FluxOs

open ByteMemory LinkedLists Tilings

namespace MemHeap

variable {place : HeapPlace} {h h' h'' : MemHeap} {bs : List Block} {live : List UInt64}
  {b : Block} {p q size : UInt64} {type pid : UInt32}

/-! ## The free list and the tables -/

/-- The counters of the heap and the memory map are the same. -/
structure SameTables (h h' : MemHeap) : Prop where
  usedHeap : h'.usedHeap = h.usedHeap
  freeHeap : h'.freeHeap = h.freeHeap
  memMap : h'.memMap = h.memMap
  memMapCount : h'.memMapCount = h.memMapCount

namespace SameTables

theorem refl (h : MemHeap) : SameTables h h := ⟨rfl, rfl, rfl, rfl⟩

theorem trans (hs : SameTables h h') (hs' : SameTables h' h'') : SameTables h h'' :=
  ⟨hs'.usedHeap.trans hs.usedHeap, hs'.freeHeap.trans hs.freeHeap, hs'.memMap.trans hs.memMap,
    hs'.memMapCount.trans hs.memMapCount⟩

theorem modifyBlock (hs : SameTables h h') (p : UInt64) (f : MemBlock → MemBlock) :
    SameTables h (h'.modifyBlock p f) := hs.trans ⟨rfl, rfl, rfl, rfl⟩

theorem setFreeList (hs : SameTables h h') (p : UInt64) : SameTables h { h' with freeList := p } :=
  hs.trans ⟨rfl, rfl, rfl, rfl⟩

theorem ite {c : Prop} [Decidable c] (hs : SameTables h h') (hs' : SameTables h h'') :
    SameTables h (if c then h' else h'') := by
  split_ifs
  · exact hs
  · exact hs'

end SameTables

theorem sameTables_remove (h : MemHeap) (p : UInt64) : SameTables h (h.memRemoveFromFreeList p) := by
  unfold memRemoveFromFreeList
  extract_lets b h₁ b' h₂
  have hs₁ : SameTables h h₁ := .ite ((SameTables.refl h).modifyBlock ..) ((SameTables.refl h).setFreeList _)
  have hs₂ : SameTables h h₂ := .ite (hs₁.modifyBlock ..) hs₁
  exact hs₂.modifyBlock ..

theorem sameTables_add (hadd : h.memAddToFreeList p = some h') : SameTables h h' := by
  unfold memAddToFreeList at hadd
  extract_lets h₁ at hadd
  have hs₁ : SameTables h h₁ := (SameTables.refl h).modifyBlock ..
  by_cases hempty : h₁.freeList = 0
  · rw [if_pos hempty] at hadd
    cases hadd
    exact hs₁.setFreeList p
  · rw [if_neg hempty] at hadd
    obtain ⟨⟨prev, curr⟩, -, hadd⟩ := Option.bind_eq_some_iff.1 hadd
    dsimp -zeta only at hadd
    extract_lets h₂ h₃ at hadd
    have hs₂ : SameTables h h₂ := .ite ((hs₁.modifyBlock ..).modifyBlock ..) (hs₁.setFreeList p)
    have hs₃ : SameTables h h₃ := hs₂.modifyBlock ..
    cases hadd
    exact .ite (hs₃.modifyBlock ..) hs₃

theorem sameTables_split {needed : UInt64} (hsplit : h.memSplitBlock p needed = some h') : SameTables h h' := by
  unfold memSplitBlock at hsplit
  dsimp only at hsplit
  split_ifs at hsplit
  · exact (((SameTables.refl h).modifyBlock ..).modifyBlock ..).trans (sameTables_add hsplit)
  · cases hsplit
    exact SameTables.refl h

theorem sameTables_mergeNext (h : MemHeap) (p q : UInt64) : SameTables h (h.mergeNext p q) := by
  unfold mergeNext
  extract_lets h₁ h₂ after h₃ after'
  have hs₁ : SameTables h h₁ := (SameTables.refl h).modifyBlock ..
  have hs₂ : SameTables h h₂ := hs₁.modifyBlock ..
  have hs₃ : SameTables h h₃ := hs₂.modifyBlock ..
  exact .ite (hs₃.modifyBlock ..) hs₃

theorem sameTables_coalesceFrom {fuel : Nat} {merged : Bool}
    (hscan : h.coalesceFrom fuel p = some (h', merged)) : SameTables h h' := by
  induction fuel generalizing p with
  | zero => cases hscan
  | succ fuel ih =>
    rw [coalesceFrom] at hscan
    by_cases hp : p = 0
    · rw [if_pos hp] at hscan
      cases hscan
      exact SameTables.refl h
    rw [if_neg hp] at hscan
    by_cases hused : (h.block p).flags &&& memBlockFree = 0
    · exact ih ((if_pos hused).symm.trans hscan)
    have hscan := (if_neg hused).symm.trans hscan
    dsimp only at hscan
    split_ifs at hscan
    · obtain ⟨rfl, -⟩ := Prod.mk.inj (Option.some.inj hscan)
      exact sameTables_mergeNext ..
    · exact ih hscan

theorem sameTables_coalesceLoop {fuel : Nat} (hloop : coalesceLoop fuel h = some h') : SameTables h h' := by
  induction fuel generalizing h with
  | zero => cases hloop
  | succ fuel ih =>
    rw [coalesceLoop] at hloop
    obtain ⟨⟨h₁, merged⟩, hscan, hloop⟩ := Option.bind_eq_some_iff.1 hloop
    have hs : SameTables h h₁ := sameTables_coalesceFrom hscan
    dsimp only at hloop
    split_ifs at hloop
    · exact hs.trans (ih hloop)
    · cases hloop
      exact hs

/-! ## Allocation and release -/

/-- The bytes that an allocation of `size` bytes is charged for. -/
def chargeOf (size : UInt64) : UInt64 := memBlockBytes + memAlignUp size fluxMemAlign

/-- The bytes that the release of a block gives back. -/
def creditOf (h : MemHeap) (p : UInt64) : UInt64 := memBlockBytes + (h.block (memBlockFromPtr p)).size

/-- What an allocation that returned `q` does to the tables. -/
structure Charges (h h' : MemHeap) (size : UInt64) (type pid : UInt32) (q : UInt64) : Prop where
  usedHeap : h'.usedHeap = h.usedHeap + chargeOf size
  freeHeap : h'.freeHeap = h.freeHeap - chargeOf size
  memMap : h'.memMap = (h.memMapAdd q (memAlignUp size fluxMemAlign) type pid).memMap
  memMapCount : h'.memMapCount = (h.memMapAdd q (memAlignUp size fluxMemAlign) type pid).memMapCount

/-- What the release of `p` does to the tables. -/
structure Credits (h h' : MemHeap) (p : UInt64) : Prop where
  usedHeap : h'.usedHeap = h.usedHeap - h.creditOf p
  freeHeap : h'.freeHeap = h.freeHeap + h.creditOf p
  memMap : h'.memMap = (h.memMapRemove p).memMap
  memMapCount : h'.memMapCount = (h.memMapRemove p).memMapCount

/-- Recording an allocation is about the map only. -/
theorem memMapAdd_congr {base : UInt64} (hmap : h'.memMap = h.memMap) (hcount : h'.memMapCount = h.memMapCount) :
    (h'.memMapAdd base size type pid).memMap = (h.memMapAdd base size type pid).memMap ∧
      (h'.memMapAdd base size type pid).memMapCount = (h.memMapAdd base size type pid).memMapCount := by
  unfold memMapAdd
  rw [hmap, hcount]
  split
  · exact ⟨hmap, hcount⟩
  · exact ⟨rfl, rfl⟩

@[simp] theorem usedHeap_memMapAdd {base : UInt64} :
    (h.memMapAdd base size type pid).usedHeap = h.usedHeap := by
  unfold memMapAdd
  split <;> rfl

@[simp] theorem freeHeap_memMapAdd {base : UInt64} :
    (h.memMapAdd base size type pid).freeHeap = h.freeHeap := by
  unfold memMapAdd
  split <;> rfl

@[simp] theorem memMapCount_memMapRemove {base : UInt64} :
    (h.memMapRemove base).memMapCount = h.memMapCount := by
  unfold memMapRemove
  split <;> rfl

@[simp] theorem usedHeap_memMapRemove {base : UInt64} : (h.memMapRemove base).usedHeap = h.usedHeap := by
  unfold memMapRemove
  split <;> rfl

@[simp] theorem freeHeap_memMapRemove {base : UInt64} : (h.memMapRemove base).freeHeap = h.freeHeap := by
  unfold memMapRemove
  split <;> rfl

theorem fluxAlloc_charges (halloc : h.fluxAlloc size type pid = some (q, h')) (hq : q ≠ 0) :
    Charges h h' size type pid q := by
  unfold fluxAlloc at halloc
  split_ifs at halloc with hsize
  · cases halloc
    exact absurd rfl hq
  · dsimp only at halloc
    obtain ⟨p, -, halloc⟩ := Option.bind_eq_some_iff.1 halloc
    split_ifs at halloc with hp
    · cases halloc
      exact absurd rfl hq
    · obtain ⟨h₁, hsplit, halloc⟩ := Option.bind_eq_some_iff.1 halloc
      have hs : SameTables h h₁ := (sameTables_remove h p).trans (sameTables_split hsplit)
      cases halloc
      have howner : ((h₁.modifyBlock p fun b =>
          { b with magic := memBlockMagic, flags := memBlockUsed, type, ownerPid := pid }).block p).ownerPid = pid :=
        congrArg MemBlock.ownerPid block_modifyBlock_self
      refine ⟨?_, ?_, ?_, ?_⟩
      · exact usedHeap_memMapAdd.trans (congrArg (· + chargeOf size) hs.usedHeap)
      · exact freeHeap_memMapAdd.trans (congrArg (· - chargeOf size) hs.freeHeap)
      · refine Eq.trans (congrArg (fun owner => (memMapAdd _ _ _ _ owner).memMap) howner) ?_
        refine (memMapAdd_congr ?_ ?_).1
        · exact hs.memMap
        · exact hs.memMapCount
      · refine Eq.trans (congrArg (fun owner => (memMapAdd _ _ _ _ owner).memMapCount) howner) ?_
        refine (memMapAdd_congr ?_ ?_).2
        · exact hs.memMap
        · exact hs.memMapCount

theorem fluxFree_credits (hfree : h.fluxFree p = some h') (hp : ¬h.IgnoresFree p) : Credits h h' p := by
  obtain ⟨hp0, hp⟩ := not_or.1 hp
  obtain ⟨hmagic, hused⟩ := not_or.1 hp
  unfold fluxFree at hfree
  rw [if_neg hp0] at hfree
  dsimp only at hfree
  rw [if_neg hmagic, if_neg hused] at hfree
  obtain ⟨h₁, hadd, hloop⟩ := Option.bind_eq_some_iff.1 hfree
  have hs := (sameTables_add hadd).trans (sameTables_coalesceLoop hloop)
  refine ⟨hs.usedHeap.trans ?_, hs.freeHeap.trans ?_, hs.memMap.trans rfl, hs.memMapCount.trans rfl⟩
  · exact congrArg (· - h.creditOf p) usedHeap_memMapRemove
  · exact congrArg (· + h.creditOf p) freeHeap_memMapRemove

end MemHeap

end FluxOs
