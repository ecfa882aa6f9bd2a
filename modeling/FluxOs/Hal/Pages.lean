import FluxOs.Lib.Actions
import FluxOs.Lib.Bitmaps
import FluxOs.Lib.FirstFit

/-!
# The physical pages of the native HAL

`hal/arch/native/hal_native.c`: a bitmap of the pages that are in use, and a search for the first run of free
ones.  The bytes of the bitmap are a function; only pages below the count of pages are looked at.  An `int` is
an integer, and a conversion to it keeps the lowest 32 bits.
-/

namespace FluxOs

open Actions Bitmaps FirstFit

/-- `PHYS_PAGE_SIZE`. -/
def physPageSize : Nat := 4096

/-- `PHYS_PAGE_COUNT`. -/
def physPageCount : Nat := 16384

abbrev PhysBitmap := Nat → UInt8

def physBitmapSet (bitmap : PhysBitmap) (page : Nat) : PhysBitmap := Bitmaps.set bitmap page

def physBitmapClear (bitmap : PhysBitmap) (page : Nat) : PhysBitmap := Bitmaps.clear bitmap page

def physBitmapTest (bitmap : PhysBitmap) (page : Nat) : Bool := Bitmaps.test bitmap page

/-- The conversion of a 64-bit value to `int`. -/
def intOf (x : UInt64) : Int := Int.bmod x.toNat (2 ^ 32)

/-- `(int)((size + PHYS_PAGE_SIZE - 1) / PHYS_PAGE_SIZE)`. -/
def pagesNeeded (size : UInt64) : Int := intOf ((size + 4096 - 1) / 4096)

/-- `native_mem_init`. -/
def nativeMemInit : PhysBitmap := physBitmapSet (fun _ => 0) 0

/-- `consecutive` and `start_page`. -/
structure PageSearch where
  consecutive : Nat
  startPage : Int
  deriving DecidableEq, Repr

/-- One turn of the search, at page `i`. -/
def PageSearch.turn (bitmap : PhysBitmap) (i : Nat) (s : PageSearch) : PageSearch :=
  if !physBitmapTest bitmap i then
    { consecutive := s.consecutive + 1, startPage := if s.consecutive = 0 then i else s.startPage }
  else { consecutive := 0, startPage := -1 }

/-- The search at the page `i`, with `rest` pages left. -/
def PageSearch.run (bitmap : PhysBitmap) (needed : Int) : Nat → Nat → PageSearch → PageSearch
  | 0, _, s => s
  | rest + 1, i, s => if s.consecutive < needed then run bitmap needed rest (i + 1) (s.turn bitmap i) else s

/-- `native_mem_alloc_phys`. -/
def nativeMemAllocPhys (bitmap : PhysBitmap) (size _align : UInt64) : UInt64 × PhysBitmap :=
  let needed := pagesNeeded size
  let s := PageSearch.run bitmap needed (physPageCount - 1) 1 { consecutive := 0, startPage := -1 }
  if s.consecutive < needed then (0, bitmap)
  else
    (UInt64.ofInt (s.startPage * 4096),
      (List.range needed.toNat).foldl (fun bitmap (i : Nat) => physBitmapSet bitmap (s.startPage + i).toNat) bitmap)

/-- `native_mem_free_phys`. -/
def nativeMemFreePhys (bitmap : PhysBitmap) (addr size : UInt64) : PhysBitmap :=
  let startPage := intOf (addr / 4096)
  (List.range (pagesNeeded size).toNat).foldl (fun bitmap (i : Nat) =>
    let page := startPage + i
    if 0 ≤ page ∧ page < physPageCount then physBitmapClear bitmap page.toNat else bitmap) bitmap

/-! ## Runs -/

/-- The number of pages that a size takes. -/
def pageCount (size : UInt64) : Nat := (size.toNat + (physPageSize - 1)) / physPageSize

/-- The pages of a range. -/
def pagesOf (addr size : UInt64) : Set Nat :=
  { page | addr.toNat / physPageSize ≤ page ∧ page < addr.toNat / physPageSize + pageCount size }

inductive PageCall
  | alloc (size align : UInt64)
  | free (addr size : UInt64)
  deriving DecidableEq, Repr

/-- The bitmap, with the address and the size of each allocation that is not freed. -/
structure PageTrack where
  bitmap : PhysBitmap
  outstanding : List (UInt64 × UInt64)

namespace PageTrack

def start : PageTrack := { bitmap := nativeMemInit, outstanding := [] }

def step : PageCall → PageTrack → Option PageTrack
  | .alloc size align, x =>
    let r := nativeMemAllocPhys x.bitmap size align
    some { bitmap := r.2, outstanding := if r.1 = 0 then x.outstanding else (r.1, size) :: x.outstanding }
  | .free addr size, x =>
    some { bitmap := nativeMemFreePhys x.bitmap addr size, outstanding := x.outstanding.erase (addr, size) }

end PageTrack

end FluxOs
