import FluxOs.Hal.Pages
import Mathlib.Data.Set.Lattice
import Mathlib.Order.CompletePartialOrder
import Mathlib.Data.List.Basic
import Mathlib.Data.Set.Disjoint

/-!
# Allocation of physical pages

In any run, the bitmap holds page 0 and the pages of the allocations that are not freed, as long as the
number of pages of a size fits in an `int`.  An address is a multiple of the page size: the alignment that is
asked for is ignored.
-/

namespace FluxOs

open Actions Bitmaps FirstFit

variable {bitmap : PhysBitmap} {size align addr : UInt64} {i n rest page : Nat} {s : PageSearch}

/-! ## Sizes -/

theorem intOf_eq (x : UInt64) (h : x.toNat < 2 ^ 31) : intOf x = x.toNat := by
  refine Int.bmod_eq_of_le ?_ ?_
  · omega
  · omega

theorem pagesNeeded_eq (h : pageCount size < 2 ^ 31) : pagesNeeded size = pageCount size := by
  unfold pageCount physPageSize at h ⊢
  have hsum : (size + 4096 - 1).toNat = size.toNat + (4096 - 1) := by
    rw [UInt64.toNat_sub, UInt64.toNat_add]
    show (2 ^ 64 - 1 + (size.toNat + 4096) % 2 ^ 64) % 2 ^ 64 = _
    omega
  have hdiv : ((size + 4096 - 1) / 4096).toNat = (size.toNat + (4096 - 1)) / 4096 := by
    rw [UInt64.toNat_div, hsum]
    rfl
  rw [pagesNeeded, intOf_eq _ (hdiv ▸ h), hdiv]

theorem pageCount_pos (h : 0 < size.toNat) : 0 < pageCount size := by
  unfold pageCount physPageSize
  omega

/-! ## The search -/

/-- A page that is not in use. -/
def FreePage (bitmap : PhysBitmap) (page : Nat) : Prop := physBitmapTest bitmap page = false

/-- The search for `n` pages is at page `i`. -/
structure Searching (bitmap : PhysBitmap) (n i : Nat) (s : PageSearch) : Prop where
  scan : Scan (FreePage bitmap) 1 n i s.consecutive
  start : 0 < s.consecutive → s.startPage = ((i - s.consecutive : Nat) : Int)

theorem Searching.turn (h : Searching bitmap n i s) (hmore : s.consecutive < n) :
    Searching bitmap n (i + 1) (s.turn bitmap i) := by
  have hbound := h.scan.bound
  by_cases hfree : physBitmapTest bitmap i
  · have hturn : s.turn bitmap i = { consecutive := 0, startPage := -1 } := by
      rw [PageSearch.turn, hfree]
      rfl
    rw [hturn]
    refine ⟨h.scan.skip (fun h => ?_) hmore, fun h => absurd h (Nat.lt_irrefl 0)⟩
    rw [FreePage, hfree] at h
    exact absurd h (by decide)
  · rw [Bool.not_eq_true] at hfree
    have hturn : s.turn bitmap i =
        { consecutive := s.consecutive + 1, startPage := if s.consecutive = 0 then i else s.startPage } := by
      rw [PageSearch.turn, hfree]
      rfl
    rw [hturn]
    refine ⟨h.scan.take hfree, fun _ => ?_⟩
    show (if s.consecutive = 0 then (i : Int) else s.startPage) = ((i + 1 - (s.consecutive + 1) : Nat) : Int)
    split
    · omega
    · rw [h.start (by omega)]
      omega

/-- The search has found enough free pages. -/
theorem Searching.found (h : Searching bitmap n i s) (hn : 0 < n) (hcount : s.consecutive = n) :
    ∃ page : Nat, s = { consecutive := n, startPage := page } ∧ 1 ≤ page ∧ page + n ≤ i ∧
      Run (FreePage bitmap) page n := by
  have hbound := h.scan.bound
  have hrun := h.scan.run
  have hstart := h.start (by omega)
  subst hcount
  refine ⟨i - s.consecutive, ?_, by omega, by omega, hrun⟩
  rw [← hstart]

variable (rest) in
/-- The search ends with the first run of enough free pages, or there is none. -/
theorem Searching.run (h : Searching bitmap n i s) (hn : 0 < n) (hle : s.consecutive ≤ n) :
    (∃ page : Nat, PageSearch.run bitmap n rest i s = { consecutive := n, startPage := page } ∧ 1 ≤ page ∧
        page + n ≤ i + rest ∧ Run (FreePage bitmap) page n) ∨
      ((PageSearch.run bitmap n rest i s).consecutive < n ∧
        ∀ page, 1 ≤ page → page + n ≤ i + rest → ¬ Run (FreePage bitmap) page n) := by
  induction rest generalizing i s with
  | zero =>
    rw [PageSearch.run]
    rcases Nat.eq_or_lt_of_le hle with hcount | hmore
    · exact .inl (h.found hn hcount)
    · exact .inr ⟨hmore, fun page hpage hfit => h.scan.no_run hmore hpage hfit⟩
  | succ rest ih =>
    rw [PageSearch.run]
    rcases Nat.eq_or_lt_of_le hle with hcount | hmore
    · obtain ⟨page, hs, hpage, hfit, hrun⟩ := h.found hn hcount
      rw [if_neg (by omega)]
      exact .inl ⟨page, hs, hpage, by omega, hrun⟩
    · rw [if_pos (Int.ofNat_lt.2 hmore)]
      have hturn := h.turn hmore
      have hle' : (s.turn bitmap i).consecutive ≤ n := by
        unfold PageSearch.turn
        split
        · exact hmore
        · exact Nat.zero_le n
      have hend : i + 1 + rest = i + (rest + 1) := by omega
      exact hend ▸ ih hturn hle'

/-! ## One call -/

theorem mem_run {start n page : Nat} : page ∈ (List.range n).map (start + ·) ↔ start ≤ page ∧ page < start + n := by
  simp only [List.mem_map, List.mem_range]
  constructor
  · rintro ⟨i, hi, rfl⟩
    omega
  · rintro ⟨hle, hlt⟩
    exact ⟨page - start, by omega, by omega⟩

theorem test_markRun (bitmap : PhysBitmap) (start n page : Nat) : physBitmapTest ((List.range n).foldl
      (fun bitmap (i : Nat) => physBitmapSet bitmap ((start : Int) + i).toNat) bitmap) page =
    (decide (start ≤ page ∧ page < start + n) || physBitmapTest bitmap page) := by
  have hfold : (List.range n).foldl (fun bitmap (i : Nat) => physBitmapSet bitmap ((start : Int) + i).toNat) bitmap =
      ((List.range n).map (start + ·)).foldl Bitmaps.set bitmap := List.foldl_map.symm
  rw [hfold, physBitmapTest, test_foldl_set, decide_eq_decide.2 mem_run]
  rfl

theorem test_clearRun (bitmap : PhysBitmap) {start n : Nat} (hfit : start + n ≤ physPageCount) (page : Nat) :
    physBitmapTest ((List.range n).foldl (fun bitmap (i : Nat) =>
      if 0 ≤ (start : Int) + i ∧ (start : Int) + i < physPageCount then
        physBitmapClear bitmap ((start : Int) + i).toNat else bitmap) bitmap) page =
    (!decide (start ≤ page ∧ page < start + n) && physBitmapTest bitmap page) := by
  have hfold : (List.range n).foldl (fun bitmap (i : Nat) =>
      if 0 ≤ (start : Int) + i ∧ (start : Int) + i < physPageCount then
        physBitmapClear bitmap ((start : Int) + i).toNat else bitmap) bitmap =
      ((List.range n).map (start + ·)).foldl Bitmaps.clear bitmap := by
    rw [List.foldl_map]
    refine List.foldl_ext _ _ _ fun bitmap i hi => ?_
    have hi : i < n := List.mem_range.1 hi
    rw [if_pos ⟨by omega, by omega⟩]
    rfl
  rw [hfold, physBitmapTest, test_foldl_clear, decide_eq_decide.2 mem_run]
  rfl

/-- An allocation fails if there is no run of enough free pages, and marks one otherwise. -/
theorem nativeMemAllocPhys_spec (bitmap : PhysBitmap) (align : UInt64) (hsize : 0 < size.toNat)
    (hcount : pageCount size < 2 ^ 31) :
    (nativeMemAllocPhys bitmap size align = (0, bitmap) ∧
      ∀ page, 1 ≤ page → page + pageCount size ≤ physPageCount →
        ¬ Run (FreePage bitmap) page (pageCount size)) ∨
    ∃ page, 1 ≤ page ∧ page + pageCount size ≤ physPageCount ∧ Run (FreePage bitmap) page (pageCount size) ∧
      (nativeMemAllocPhys bitmap size align).1.toNat = page * physPageSize ∧
      ∀ i, physBitmapTest (nativeMemAllocPhys bitmap size align).2 i =
        (decide (page ≤ i ∧ i < page + pageCount size) || physBitmapTest bitmap i) := by
  have hstart : Searching bitmap (pageCount size) 1 { consecutive := 0, startPage := -1 } :=
    ⟨scan_start, fun h => absurd h (Nat.lt_irrefl 0)⟩
  have hpages : 1 + (physPageCount - 1) = physPageCount := rfl
  have hsearch := hstart.run (physPageCount - 1) (pageCount_pos hsize) (Nat.zero_le _)
  rw [hpages] at hsearch
  unfold nativeMemAllocPhys
  simp only [pagesNeeded_eq hcount]
  rcases hsearch with ⟨page, hrun, hpage, hfit, hfree⟩ | ⟨hless, hnone⟩
  · refine .inr ⟨page, hpage, hfit, hfree, ?_⟩
    rw [hrun, if_neg (Int.lt_irrefl _)]
    refine ⟨?_, fun i => test_markRun bitmap page _ i⟩
    have hpages : physPageCount = 16384 := rfl
    have hmod : ((page : Int) * 4096 % 2 ^ 64).toNat = page * 4096 := by omega
    rw [UInt64.ofInt, hmod, UInt64.toNat_ofNat']
    exact Nat.mod_eq_of_lt (by omega)
  · rw [if_pos (Int.ofNat_lt.2 hless)]
    exact .inl ⟨rfl, hnone⟩

/-- A range that is freed has its pages cleared. -/
theorem nativeMemFreePhys_spec (bitmap : PhysBitmap)
    (hfit : addr.toNat / physPageSize + pageCount size ≤ physPageCount) (page : Nat) :
    physBitmapTest (nativeMemFreePhys bitmap addr size) page =
      (!decide (addr.toNat / physPageSize ≤ page ∧ page < addr.toNat / physPageSize + pageCount size) &&
        physBitmapTest bitmap page) := by
  have hpages : physPageCount = 16384 := rfl
  have hcount : pageCount size < 2 ^ 31 :=
    Nat.lt_of_le_of_lt (Nat.le_trans (Nat.le_add_left _ _) hfit) (by decide)
  have hstart : intOf (addr / 4096) = (addr.toNat / physPageSize : Nat) := by
    have hdiv : (addr / 4096).toNat = addr.toNat / physPageSize := UInt64.toNat_div addr 4096
    rw [intOf_eq _ (by omega), hdiv]
  unfold nativeMemFreePhys
  rw [hstart, pagesNeeded_eq hcount, Int.toNat_natCast]
  exact test_clearRun bitmap hfit page

/-! ## Runs -/

namespace PageTrack

variable {x t : PageTrack} {c : PageCall} {calls : List PageCall}

/-- A range below the last page, from a page boundary behind page 0 on. -/
def Placed (r : UInt64 × UInt64) : Prop :=
  physPageSize ∣ r.1.toNat ∧ 1 ≤ r.1.toNat / physPageSize ∧
    r.1.toNat / physPageSize + pageCount r.2 ≤ physPageCount ∧ 0 < pageCount r.2

/-- The bitmap holds page 0 and the pages of the ranges that are not freed, which are apart. -/
structure Exact (x : PageTrack) : Prop where
  test : ∀ page, physBitmapTest x.bitmap page = true ↔ page = 0 ∨ ∃ r ∈ x.outstanding, page ∈ pagesOf r.1 r.2
  placed : ∀ r ∈ x.outstanding, Placed r
  apart : x.outstanding.Pairwise fun r r' => Disjoint (pagesOf r.1 r.2) (pagesOf r'.1 r'.2)

/-- The sizes have a number of pages that fits in an `int`, and what is freed is what was allocated. -/
def Allowed : PageCall → PageTrack → Prop
  | .alloc size _, _ => 0 < size.toNat ∧ pageCount size < 2 ^ 31
  | .free addr size, x => (addr, size) ∈ x.outstanding

instance (c : PageCall) (x : PageTrack) : Decidable (Allowed c x) :=
  match c with
  | .alloc size _ => inferInstanceAs (Decidable (0 < size.toNat ∧ pageCount size < 2 ^ 31))
  | .free addr size => inferInstanceAs (Decidable ((addr, size) ∈ x.outstanding))

/-- An allocation fails, or takes a run of enough pages between page 0 and the last one, which were free and in none
of the ranges that are not freed, and marks these pages. -/
def Allocates (x : PageTrack) (size align : UInt64) : Prop :=
  nativeMemAllocPhys x.bitmap size align = (0, x.bitmap) ∨
    ∃ addr bitmap, nativeMemAllocPhys x.bitmap size align = (addr, bitmap) ∧ physPageSize ∣ addr.toNat ∧
      (∀ page ∈ pagesOf addr size, 1 ≤ page ∧ page < physPageCount ∧ FreePage x.bitmap page) ∧
      (∀ r ∈ x.outstanding, Disjoint (pagesOf addr size) (pagesOf r.1 r.2)) ∧
      ∀ page, FreePage bitmap page ↔ FreePage x.bitmap page ∧ page ∉ pagesOf addr size

/-- The pages of a range were not free, and they and no others get free. -/
def Frees (x : PageTrack) (addr size : UInt64) : Prop :=
  (∀ page ∈ pagesOf addr size, ¬ FreePage x.bitmap page) ∧
    ∀ page, FreePage (nativeMemFreePhys x.bitmap addr size) page ↔ FreePage x.bitmap page ∨ page ∈ pagesOf addr size

/-- A call does what it is for, and page 0 stays in use. -/
structure Behaves (c : PageCall) (x : PageTrack) : Prop where
  alloc : ∀ size align, c = .alloc size align → Allocates x size align
  free : ∀ addr size, c = .free addr size → Frees x addr size
  pageZero : ∀ t, step c x = some t → ¬ FreePage t.bitmap 0

theorem exact_start : start.Exact where
  test page := by
    show physBitmapTest nativeMemInit page = true ↔ _
    rw [nativeMemInit, physBitmapTest, physBitmapSet, test_set, test_zero, Bool.or_false, decide_eq_true_eq]
    exact (or_iff_left (by simp [start])).symm
  placed := List.forall_mem_nil _
  apart := .nil

theorem not_freePage : ¬ FreePage bitmap page ↔ physBitmapTest bitmap page = true := by
  rw [FreePage, Bool.not_eq_false]

/-- A range whose pages were free is apart from those that are not freed. -/
theorem Exact.disjoint (h : x.Exact) (hfree : ∀ i ∈ pagesOf addr size, FreePage x.bitmap i) :
    ∀ r ∈ x.outstanding, Disjoint (pagesOf addr size) (pagesOf r.1 r.2) := by
  refine fun r hr => Set.disjoint_left.2 fun i hi hir => ?_
  exact not_freePage.2 ((h.test i).2 (.inr ⟨r, hr, hir⟩)) (hfree i hi)

/-- A range is added, and its pages are marked. -/
theorem Exact.cons (h : x.Exact) (hplaced : Placed (addr, size))
    (hdisjoint : ∀ r ∈ x.outstanding, Disjoint (pagesOf addr size) (pagesOf r.1 r.2))
    (hmarked : ∀ i, physBitmapTest bitmap i = true ↔ i ∈ pagesOf addr size ∨ physBitmapTest x.bitmap i = true) :
    Exact { bitmap := bitmap, outstanding := (addr, size) :: x.outstanding } where
  test i := by
    rw [hmarked, h.test]
    simp only [List.mem_cons, exists_eq_or_imp]
    exact or_left_comm
  placed := List.forall_mem_cons.2 ⟨hplaced, h.placed⟩
  apart := List.pairwise_cons.2 ⟨hdisjoint, h.apart⟩

/-- An allocation adds a range that was free. -/
theorem Exact.alloc (h : x.Exact) (ha : Allowed (.alloc size align) x) :
    Allocates x size align ∧ ∀ t, step (.alloc size align) x = some t → t.Exact := by
  obtain ⟨hsize, hcount⟩ := ha
  rcases nativeMemAllocPhys_spec x.bitmap align hsize hcount with
    ⟨hfail, -⟩ | ⟨page, hpage, hfit, hfree, haddr, htest⟩
  · refine ⟨.inl hfail, fun t ht => ?_⟩
    rw [step, hfail] at ht
    exact Option.some.inj ht ▸ h
  generalize hcall : nativeMemAllocPhys x.bitmap size align = r at haddr htest
  obtain ⟨addr, bitmap⟩ := r
  replace haddr : addr.toNat = page * physPageSize := haddr
  have hdiv : addr.toNat / physPageSize = page := by
    rw [haddr]
    exact Nat.mul_div_cancel page (by decide)
  have hdvd : physPageSize ∣ addr.toNat := ⟨page, by rw [haddr, Nat.mul_comm]⟩
  have hmem (i : Nat) : i ∈ pagesOf addr size ↔ page ≤ i ∧ i < page + pageCount size := by
    rw [pagesOf, hdiv]
    exact Iff.rfl
  have hnew : ∀ i ∈ pagesOf addr size, FreePage x.bitmap i := fun i hi =>
    hfree i ((hmem i).1 hi).1 ((hmem i).1 hi).2
  have hmarked (i : Nat) :
      physBitmapTest bitmap i = true ↔ i ∈ pagesOf addr size ∨ physBitmapTest x.bitmap i = true := by
    rw [show physBitmapTest bitmap i = _ from htest i, Bool.or_eq_true, decide_eq_true_eq, hmem]
  refine ⟨.inr ⟨addr, bitmap, hcall, hdvd, fun i hi => ?_, h.disjoint hnew, fun i => ?_⟩, fun t ht => ?_⟩
  · obtain ⟨hle, hlt⟩ := (hmem i).1 hi
    exact ⟨by omega, by omega, hnew i hi⟩
  · rw [← not_iff_not, not_freePage, hmarked, not_and_or, not_freePage, not_not, or_comm]
  · have hne : addr ≠ 0 := by
      rintro rfl
      rw [show (0 : UInt64).toNat = 0 from rfl, Nat.zero_div] at hdiv
      omega
    have hplaced : Placed (addr, size) := by
      refine ⟨hdvd, ?_, ?_, pageCount_pos hsize⟩
      · rwa [hdiv]
      · rwa [hdiv]
    rw [step, hcall] at ht
    simp only [if_neg hne] at ht
    rw [← Option.some.inj ht]
    exact h.cons hplaced (h.disjoint hnew) hmarked

/-- A free removes a range. -/
theorem Exact.free (h : x.Exact) (ha : Allowed (.free addr size) x) :
    Frees x addr size ∧ ∀ t, step (.free addr size) x = some t → t.Exact := by
  have hperm := List.perm_cons_erase ha
  have hapart := (List.pairwise_cons.1 ((hperm.pairwise_iff fun h => Disjoint.symm h).1 h.apart))
  obtain ⟨-, hpage, hfit, -⟩ := h.placed _ ha
  have htest (i : Nat) : physBitmapTest (nativeMemFreePhys x.bitmap addr size) i = true ↔
      i ∉ pagesOf addr size ∧ physBitmapTest x.bitmap i = true := by
    rw [nativeMemFreePhys_spec x.bitmap hfit, Bool.and_eq_true, Bool.not_eq_true', decide_eq_false_iff_not]
    exact Iff.rfl
  refine ⟨⟨fun i hi => not_freePage.2 ((h.test i).2 (.inr ⟨_, ha, hi⟩)), fun i => ?_⟩, fun t ht => ?_⟩
  · rw [← not_iff_not, not_freePage, htest, not_or, not_freePage, and_comm]
  · rw [← Option.some.inj ht]
    generalize nativeMemFreePhys x.bitmap addr size = bitmap at htest
    refine ⟨fun i => ?_, fun r hr => h.placed r (List.mem_of_mem_erase hr), hapart.2⟩
    show physBitmapTest bitmap i = true ↔ _
    rw [htest, h.test]
    simp only [hperm.mem_iff, List.mem_cons, exists_eq_or_imp]
    constructor
    · rintro ⟨hout, rfl | hin | hr⟩
      · exact .inl rfl
      · exact absurd hin hout
      · exact .inr hr
    · rintro (rfl | ⟨r, hr, hi⟩)
      · exact ⟨fun hi => absurd (Nat.le_trans hpage hi.1) (by decide), .inl rfl⟩
      · exact ⟨fun hi' => Set.disjoint_left.1 (hapart.1 r hr) hi' hi, .inr (.inr ⟨r, hr, hi⟩)⟩

theorem Exact.step (h : x.Exact) (ha : Allowed c x) (ht : PageTrack.step c x = some t) : t.Exact := by
  cases c with
  | alloc size align => exact (h.alloc ha).2 t ht
  | free addr size => exact (h.free ha).2 t ht

theorem Exact.behaves (h : x.Exact) (ha : Allowed c x) : Behaves c x where
  alloc _ _ hc := (h.alloc (hc ▸ ha)).1
  free _ _ hc := (h.free (hc ▸ ha)).1
  pageZero _ ht := not_freePage.2 (((h.step ha ht).test 0).2 (.inl rfl))

/-- In every run of allocations and frees, each allocation takes pages that nothing else has, each free gives back
just these pages, and page 0 stays in use. -/
theorem pages_behave (calls : List PageCall) (h : TriesAlong PageTrack.step Allowed calls start) :
    MeetsAlong PageTrack.step Behaves calls start :=
  h.meetsAlong.imp_of_invariant (fun _ _ _ hx ha ht => hx.step ha ht) (fun _ _ hx ha => hx.behaves ha) exact_start

/-- Two allocations, the first of which is freed. -/
def firstFreed : List PageCall := [.alloc 5000 0, .alloc 1 4096, .free 4096 5000, .alloc 4096 0]

theorem pages_behave_firstFreed : MeetsAlong PageTrack.step Behaves firstFreed start := by
  refine pages_behave firstFreed ⟨by decide, fun x hx => ?_⟩
  obtain rfl := Option.some.inj hx
  refine ⟨⟨by decide, by decide⟩, fun x hx => ?_⟩
  obtain rfl := Option.some.inj hx
  exact ⟨by decide +kernel, fun _ _ => ⟨⟨by decide, by decide⟩, fun _ _ => trivial⟩⟩

/-- A page at an address that is not a multiple of the alignment that is asked for. -/
theorem align_ignored : (nativeMemAllocPhys start.bitmap 4096 8192).1 ≠ 0 ∧
    ¬ (8192 : UInt64).toNat ∣ (nativeMemAllocPhys start.bitmap 4096 8192).1.toNat := by
  decide +kernel

end PageTrack

end FluxOs
