import FluxOs.Hal.Console
import FluxOs.Lib.Sweeps

/-!
# The screen of the VGA console

Whatever the console is called with, the cursor stays on the screen and every access to the text buffer inside it.
A character is written where the cursor is; a line feed, a tab and a character in the last column scroll the
screen when they leave its last line.
-/

namespace FluxOs

open Faulting Grids

namespace X86Console

/-- The cursor is on the screen. -/
structure CursorInside (c : X86Console) : Prop where
  x_nonneg : 0 ≤ c.cursorX
  x_lt : c.cursorX < 80
  y_nonneg : 0 ≤ c.cursorY
  y_lt : c.cursorY < 25

/-- The character makes the cursor leave the last line. -/
def Scrolls (c : X86Console) (ch : Int8) : Prop :=
  c.cursorY = 24 ∧ (ch = 10 ∨ ch = 9 ∧ 72 ≤ c.cursorX ∨ 32 ≤ ch ∧ c.cursorX = 79)

instance (c : X86Console) (ch : Int8) : Decidable (c.Scrolls ch) := by
  unfold Scrolls
  infer_instance

/-- The screen with a change of one cell, in the line of the cursor. -/
def withCell (c : X86Console) (x : Int32) (value : UInt16) : List (List UInt16) :=
  c.screen.modify c.cursorY.toNatClampNeg fun line => line.set x.toNatClampNeg value

/-- What a character writes: a backspace clears the cell before the cursor, a printable character is stored at the
cursor, the other control characters write nothing. -/
def written (c : X86Console) (ch : Int8) : List (List UInt16) :=
  if ch = 8 then if c.cursorX > 0 then c.withCell (c.cursorX - 1) c.blank else c.screen
  else if 32 ≤ ch then c.withCell c.cursorX (c.attributed ch.toUInt8)
  else c.screen

/-- The first line goes, the others move up, and a blank line follows. -/
def scrolled (c : X86Console) (screen : List (List UInt16)) : List (List UInt16) :=
  screen.tail ++ [List.replicate vgaWidth c.blank]

/-- `x86_console_putc` stays inside the text buffer, leaves the cursor on the screen, and writes the character,
with the lines moved up where it scrolls. -/
def PutcRight (c : X86Console) (ch : Int8) : Prop :=
  ∃ c', c.x86ConsolePutc ch = .ok c' ∧ c'.CursorInside ∧
    c'.screen = if c.Scrolls ch then c.scrolled (c.written ch) else c.written ch

/-- The cursor is in column `x` of line `y`. -/
def At (c : X86Console) (x y : Nat) : Prop := c.cursorX = Int32.ofNat x ∧ c.cursorY = Int32.ofNat y

variable {c : X86Console} {x y : Nat} {ch : Int8}

/-! ## The cursor -/

theorem cursorInside_iff : c.CursorInside ↔ ∃ x y, x < vgaWidth ∧ y < vgaHeight ∧ c.At x y := by
  constructor
  · intro h
    have hx : c.cursorX.toNatClampNeg < vgaWidth := by
      have := Int32.lt_iff_toInt_lt.1 h.x_lt
      rw [← Int32.toNat_toInt]
      show _ < 80
      change _ < 80 at this
      omega
    have hy : c.cursorY.toNatClampNeg < vgaHeight := by
      have := Int32.lt_iff_toInt_lt.1 h.y_lt
      rw [← Int32.toNat_toInt]
      show _ < 25
      change _ < 25 at this
      omega
    exact ⟨_, _, hx, hy, (Int32.ofNat_toNatClampNeg _ h.x_nonneg).symm,
      (Int32.ofNat_toNatClampNeg _ h.y_nonneg).symm⟩
  · rintro ⟨x, y, hx, hy, hcx, hcy⟩
    have hall : ∀ x < 80, (0 : Int32) ≤ Int32.ofNat x ∧ Int32.ofNat x < 80 := by decide
    have hall' : ∀ y < 25, (0 : Int32) ≤ Int32.ofNat y ∧ Int32.ofNat y < 25 := by decide
    refine ⟨?_, ?_, ?_, ?_⟩
    · rw [hcx]
      exact (hall x hx).1
    · rw [hcx]
      exact (hall x hx).2
    · rw [hcy]
      exact (hall' y hy).1
    · rw [hcy]
      exact (hall' y hy).2

theorem cursorIndex_toInt (h : c.At x y) (hx : x < vgaWidth) (hy : y < vgaHeight) :
    c.cursorIndex.toInt = (y * vgaWidth + x : Nat) := by
  have hlt : y * vgaWidth + x < vgaHeight * vgaWidth := place_lt hx hy
  unfold cursorIndex
  rw [h.1, h.2, show (80 : Int32) = Int32.ofNat vgaWidth from rfl, ← Int32.ofNat_mul, ← Int32.ofNat_add]
  exact Int32.toInt_ofNat_of_lt (Nat.lt_trans hlt (by decide))

/-! ## The text buffer -/

theorem cell_of_lt {k : Nat} (hk : k < vgaHeight * vgaWidth) : c.cell k = .ok (c.cells k) :=
  if_pos ⟨Int.natCast_nonneg k, Int.ofNat_lt.2 hk⟩

theorem setCell_of_lt {k : Nat} (hk : k < vgaHeight * vgaWidth) (value : UInt16) :
    c.setCell k value = .ok { c with cells := Function.update c.cells k value } :=
  if_pos ⟨Int.natCast_nonneg k, Int.ofNat_lt.2 hk⟩

/-- The cells when the first `k` of them have taken what is a line behind them. -/
def movedUp (k : Nat) (cells : Nat → UInt16) : Nat → UInt16 :=
  fun i => if i < k then cells (i + vgaWidth) else cells i

/-- The cells when `n` of them from number `k` on are blank. -/
def blanked (k n : Nat) (blank : UInt16) (cells : Nat → UInt16) : Nat → UInt16 :=
  fun i => if k ≤ i ∧ i < k + n then blank else cells i

theorem movedUp_succ (k : Nat) (cells : Nat → UInt16) :
    Function.update (movedUp k cells) k (movedUp k cells (k + vgaWidth)) = movedUp (k + 1) cells := by
  funext i
  have hbehind : ¬ k + vgaWidth < k := Nat.not_lt.2 (Nat.le_add_right k vgaWidth)
  simp only [movedUp, Function.update_apply, if_neg hbehind]
  by_cases hik : i = k
  · rw [if_pos hik, if_pos (by omega), hik]
  · by_cases hlt : i < k
    · rw [if_neg hik, if_pos hlt, if_pos (by omega)]
    · rw [if_neg hik, if_neg hlt, if_neg (by omega)]

theorem blanked_succ (k n : Nat) (blank : UInt16) (cells : Nat → UInt16) :
    Function.update (blanked k n blank cells) (k + n) blank = blanked k (n + 1) blank cells := by
  funext i
  simp only [blanked, Function.update_apply]
  by_cases hik : i = k + n
  · rw [if_pos hik, if_pos (by omega)]
  · by_cases hlt : k ≤ i ∧ i < k + n
    · rw [if_neg hik, if_pos hlt, if_pos (by omega)]
    · rw [if_neg hik, if_neg hlt, if_neg (by omega)]

theorem movedUp_zero (cells : Nat → UInt16) : movedUp 0 cells = cells := rfl

theorem blanked_zero (k : Nat) (blank : UInt16) (cells : Nat → UInt16) : blanked k 0 blank cells = cells := by
  funext i
  exact if_neg (by omega)

/-- The loop that blanks cells. -/
theorem blank_cells (c : X86Console) (blank : UInt16) {k n : Nat} (hkn : k + n ≤ vgaHeight * vgaWidth) :
    (List.range n).foldlM (fun (c : X86Console) (x : Nat) => c.setCell (k + x) blank) c =
      .ok { c with cells := blanked k n blank c.cells } := by
  have h := sweep_range (n := n) (f := fun (c : X86Console) (x : Nat) => c.setCell (k + x) blank)
    (g := fun x => { c with cells := blanked k x blank c.cells }) fun x hx => by
      rw [← Int.natCast_add, setCell_of_lt (by omega), blanked_succ]
  rwa [blanked_zero] at h

/-- The inner loop of the scroll, over line `y`. -/
theorem move_line (c : X86Console) {y : Nat} (hy : y < vgaHeight - 1) :
    (List.range vgaWidth).foldlM (fun (c : X86Console) (x : Nat) => do
        c.setCell (y * vgaWidth + x) (← c.cell ((y + 1) * vgaWidth + x)))
      { c with cells := movedUp (y * vgaWidth) c.cells } =
    .ok { c with cells := movedUp ((y + 1) * vgaWidth) c.cells } := by
  have h := sweep_range (n := vgaWidth) (f := fun (c : X86Console) (x : Nat) => do
      c.setCell (y * vgaWidth + x) (← c.cell ((y + 1) * vgaWidth + x)))
    (g := fun x => { c with cells := movedUp (y * vgaWidth + x) c.cells }) fun x hx => by
      have hto : y * vgaWidth + x < vgaHeight * vgaWidth := place_lt hx (by omega)
      have hfrom : (y + 1) * vgaWidth + x < vgaHeight * vgaWidth := place_lt hx (by omega)
      have hplace : (y + 1) * vgaWidth + x = y * vgaWidth + x + vgaWidth := by
        rw [Nat.succ_mul]
        omega
      refine bind_eq_ok.2 ⟨_, cell_of_lt (k := (y + 1) * vgaWidth + x) hfrom, ?_⟩
      rw [hplace]
      refine (setCell_of_lt (k := y * vgaWidth + x) hto _).trans ?_
      rw [movedUp_succ]
      rfl
  rw [Nat.succ_mul]
  exact h

theorem vgaScroll_eq (c : X86Console) : ∃ cells,
    c.vgaScroll = .ok { c with cells := cells, cursorY := 24 } ∧
      lines vgaWidth vgaHeight cells = c.scrolled c.screen := by
  have hmoved := sweep_range (n := vgaHeight - 1)
    (f := fun (c : X86Console) (y : Nat) => (List.range vgaWidth).foldlM (fun (c : X86Console) (x : Nat) => do
      c.setCell (y * vgaWidth + x) (← c.cell ((y + 1) * vgaWidth + x))) c)
    (g := fun y => { c with cells := movedUp (y * vgaWidth) c.cells }) fun y hy => move_line c hy
  rw [Nat.zero_mul, movedUp_zero] at hmoved
  refine ⟨blanked ((vgaHeight - 1) * vgaWidth) vgaWidth c.blank (movedUp ((vgaHeight - 1) * vgaWidth) c.cells),
    ?_, ?_⟩
  · have hend : (vgaHeight - 1) * vgaWidth + vgaWidth ≤ vgaHeight * vgaWidth :=
      (Nat.succ_mul (vgaHeight - 1) vgaWidth).ge
    exact bind_eq_ok.2 ⟨_, hmoved, bind_eq_ok.2 ⟨_, blank_cells _ c.blank hend, rfl⟩⟩
  · refine lines_scroll (fun y hy x hx => ?_) fun x hx => ?_
    · have hlt : y * vgaWidth + x < (vgaHeight - 1) * vgaWidth := place_lt hx hy
      rw [blanked, if_neg (by omega), movedUp, if_pos hlt, Nat.succ_mul]
      exact congrArg c.cells (Nat.add_right_comm ..)
    · exact if_pos ⟨Nat.le_add_right _ _, Nat.add_lt_add_left hx _⟩

theorem clearCells_eq (c : X86Console) : c.clearCells =
    .ok { c with cells := blanked 0 (vgaWidth * vgaHeight) c.blank c.cells } := by
  have h := sweep_range (n := vgaWidth * vgaHeight)
    (f := fun (c : X86Console) (i : Nat) => c.setCell i c.blank)
    (g := fun i => { c with cells := blanked 0 i c.blank c.cells }) fun i hi => by
      rw [setCell_of_lt hi]
      refine congrArg (fun cells => Except.ok { c with cells := cells }) ?_
      have hnext := blanked_succ 0 i c.blank c.cells
      rwa [Nat.zero_add] at hnext
  rwa [blanked_zero] at h

/-! ## A character -/

theorem screen_setCell (value : UInt16) (h : c.At x y) (hx : x < vgaWidth) (hy : y < vgaHeight) :
    ∃ c', c.setCell c.cursorIndex.toInt value = .ok c' ∧ c' = { c with cells := c'.cells } ∧
      c'.screen = c.withCell c.cursorX value := by
  refine ⟨_, by rw [cursorIndex_toInt h hx hy, setCell_of_lt (place_lt hx hy)], rfl, ?_⟩
  have hxc : c.cursorX.toNatClampNeg = x := by
    rw [h.1]
    exact Int32.toNatClampNeg_ofNat_of_lt (Nat.lt_trans hx (by decide))
  have hyc : c.cursorY.toNatClampNeg = y := by
    rw [h.2]
    exact Int32.toNatClampNeg_ofNat_of_lt (Nat.lt_trans hy (by decide))
  rw [withCell, hxc, hyc]
  exact lines_update hx

/-- A line feed, a tab or a character that leaves its line. -/
theorem nextLine_eq (h : c.At x y) (hy : y < vgaHeight) : ∃ c', c.nextLine = .ok c' ∧ c'.CursorInside ∧
    c'.screen = if c.cursorY = 24 then c.scrolled c.screen else c.screen := by
  have hlast : ∀ y < 25, (Int32.ofNat y = 24 ↔ y = 24) ∧ (Int32.ofNat y + 1 ≥ 25 ↔ y = 24) ∧
      Int32.ofNat y + 1 = Int32.ofNat (y + 1) := by decide
  obtain ⟨hrow, hbelow, hsucc⟩ := hlast y hy
  rw [← h.2] at hrow hbelow hsucc
  by_cases hend : y = 24
  · obtain ⟨cells, hscroll, hlines⟩ := vgaScroll_eq { c with cursorX := 0, cursorY := c.cursorY + 1 }
    refine ⟨_, (if_pos (hbelow.2 hend)).trans hscroll, ?_, ?_⟩
    · exact cursorInside_iff.2 ⟨0, 24, by decide, by decide, rfl, rfl⟩
    · rw [if_pos (hrow.2 hend)]
      exact hlines
  · refine ⟨_, if_neg fun hge => hend (hbelow.1 hge), ?_, ?_⟩
    · exact cursorInside_iff.2 ⟨0, y + 1, by decide, by unfold vgaHeight at *; omega, rfl, hsucc⟩
    · rw [if_neg fun heq => hend (hrow.1 heq)]
      rfl

theorem wrap_eq (h : c.At x y) (hx : x ≤ vgaWidth) (hy : y < vgaHeight) : ∃ c', c.wrap = .ok c' ∧
    c'.CursorInside ∧
    c'.screen = if x = vgaWidth ∧ c.cursorY = 24 then c.scrolled c.screen else c.screen := by
  have hlast : ∀ x ≤ 80, (Int32.ofNat x ≥ 80 ↔ x = 80) := by decide
  have hbeyond := hlast x hx
  rw [← h.1] at hbeyond
  by_cases hend : x = vgaWidth
  · obtain ⟨c', hnext, hinside, hscreen⟩ := nextLine_eq h hy
    refine ⟨c', (if_pos (hbeyond.2 hend)).trans hnext, hinside, ?_⟩
    simp only [hscreen, hend, true_and]
  · refine ⟨c, if_neg fun hge => hend (hbeyond.1 hge), ?_, ?_⟩
    · exact cursorInside_iff.2 ⟨x, y, lt_of_le_of_ne hx hend, hy, h⟩
    · rw [if_neg fun heq => hend heq.1]

/-- Only a line feed, a tab and a printable character scroll. -/
theorem not_scrolls (hfeed : ch ≠ 10) (htab : ch ≠ 9) (hprint : ¬ 32 ≤ ch) : ¬ c.Scrolls ch := by
  rintro ⟨-, heq | ⟨heq, -⟩ | ⟨hge, -⟩⟩
  · exact hfeed heq
  · exact htab heq
  · exact hprint hge

theorem scrolls_printable (hprint : 32 ≤ ch) : c.Scrolls ch ↔ c.cursorY = 24 ∧ c.cursorX = 79 := by
  have hfeed : ch ≠ 10 := by
    rintro rfl
    exact absurd hprint (by decide)
  have htab : ch ≠ 9 := by
    rintro rfl
    exact absurd hprint (by decide)
  simp only [Scrolls, hfeed, htab, hprint, false_and, true_and, false_or]

theorem putChar_lineFeed (h : c.At x y) (hy : y < vgaHeight) : ∃ c', c.putChar 10 = .ok c' ∧ c'.CursorInside ∧
    c'.screen = if c.Scrolls 10 then c.scrolled (c.written 10) else c.written 10 := by
  have hscrolls : c.Scrolls 10 ↔ c.cursorY = 24 := by simp [Scrolls]
  rw [if_congr hscrolls rfl rfl]
  exact nextLine_eq h hy

theorem putChar_return (h : c.At x y) (hy : y < vgaHeight) : ∃ c', c.putChar 13 = .ok c' ∧ c'.CursorInside ∧
    c'.screen = if c.Scrolls 13 then c.scrolled (c.written 13) else c.written 13 := by
  refine ⟨_, rfl, cursorInside_iff.2 ⟨0, y, by decide, hy, rfl, h.2⟩, ?_⟩
  rw [if_neg (not_scrolls (by decide) (by decide) (by decide))]
  rfl

/-- A tab goes to the next column that is a multiple of eight. -/
theorem putChar_tab (h : c.At x y) (hx : x < vgaWidth) (hy : y < vgaHeight) :
    ∃ c', c.putChar 9 = .ok c' ∧ c'.CursorInside ∧
      c'.screen = if c.Scrolls 9 then c.scrolled (c.written 9) else c.written 9 := by
  have hstop : ∀ x < 80, (Int32.ofNat x + 8) &&& ~~~7 = Int32.ofNat ((x + 8) / 8 * 8) ∧
      (x + 8) / 8 * 8 ≤ 80 ∧ ((x + 8) / 8 * 8 = 80 ↔ 72 ≤ Int32.ofNat x) := by decide
  obtain ⟨hnext, hle, hlast⟩ := hstop x hx
  rw [← h.1] at hnext hlast
  obtain ⟨c', hwrap, hinside, hscreen⟩ := wrap_eq (c := { c with cursorX := (c.cursorX + 8) &&& ~~~7 })
    (x := (x + 8) / 8 * 8) ⟨hnext, h.2⟩ hle hy
  have hscrolls : c.Scrolls 9 ↔ (x + 8) / 8 * 8 = vgaWidth ∧ c.cursorY = 24 := by
    rw [and_comm, show vgaWidth = 80 from rfl, hlast]
    simp [Scrolls]
  refine ⟨c', hwrap, hinside, ?_⟩
  rw [if_congr hscrolls rfl rfl]
  exact hscreen

theorem putChar_backspace (h : c.At x y) (hx : x < vgaWidth) (hy : y < vgaHeight) :
    ∃ c', c.putChar 8 = .ok c' ∧ c'.CursorInside ∧
      c'.screen = if c.Scrolls 8 then c.scrolled (c.written 8) else c.written 8 := by
  have hback : ∀ x < 80, Int32.ofNat x > 0 → 0 < x ∧ Int32.ofNat x - 1 = Int32.ofNat (x - 1) := by decide
  rw [if_neg (not_scrolls (by decide) (by decide) (by decide))]
  by_cases hpos : c.cursorX > 0
  · obtain ⟨hx', hpred⟩ := hback x hx (h.1 ▸ hpos)
    have hat : At { c with cursorX := c.cursorX - 1 } (x - 1) y := ⟨by rw [← hpred, ← h.1], h.2⟩
    obtain ⟨c', hset, hsame, hscreen⟩ := screen_setCell c.blank hat (by omega) hy
    refine ⟨c', (if_pos hpos).trans hset, ?_, ?_⟩
    · rw [hsame]
      exact cursorInside_iff.2 ⟨x - 1, y, by omega, hy, hat⟩
    · exact hscreen.trans (if_pos hpos).symm
  · exact ⟨c, if_neg hpos, cursorInside_iff.2 ⟨x, y, hx, hy, h⟩, (if_neg hpos).symm⟩

theorem putChar_printable (hprint : 32 ≤ ch) (h : c.At x y) (hx : x < vgaWidth) (hy : y < vgaHeight) :
    ∃ c', c.putChar ch = .ok c' ∧ c'.CursorInside ∧
      c'.screen = if c.Scrolls ch then c.scrolled (c.written ch) else c.written ch := by
  have hother (d : Int8) (hd : ¬ 32 ≤ d) : ch ≠ d := by
    rintro rfl
    exact hd hprint
  have hforward : ∀ x < 80, Int32.ofNat x + 1 = Int32.ofNat (x + 1) ∧ (x + 1 = 80 ↔ Int32.ofNat x = 79) := by
    decide
  obtain ⟨hnext, hlast⟩ := hforward x hx
  rw [← h.1] at hnext hlast
  obtain ⟨c₁, hset, hsame, hstored⟩ := screen_setCell (c.attributed ch.toUInt8) h hx hy
  have hrow : c₁.cursorY = c.cursorY := by rw [hsame]
  have hcol : c₁.cursorX = c.cursorX := by rw [hsame]
  have hwritten : c.written ch = c₁.screen := by
    rw [written, if_neg (hother 8 (by decide)), if_pos hprint, hstored]
  have hblank : c.scrolled = c₁.scrolled := by rw [hsame]; rfl
  obtain ⟨c', hwrap, hinside, hscreen⟩ := wrap_eq (c := { c₁ with cursorX := c₁.cursorX + 1 }) (x := x + 1)
    ⟨by rw [← hnext, hcol], hrow.trans h.2⟩ hx hy
  have hscrolls : c.Scrolls ch ↔ x + 1 = vgaWidth ∧ c₁.cursorY = 24 := by
    rw [scrolls_printable hprint, and_comm, hrow, ← hlast]
    rfl
  refine ⟨c', ?_, hinside, ?_⟩
  · rw [putChar, if_neg (hother 10 (by decide)), if_neg (hother 13 (by decide)), if_neg (hother 9 (by decide)),
      if_neg (hother 8 (by decide)), if_pos hprint]
    exact bind_eq_ok.2 ⟨c₁, hset, hwrap⟩
  · rw [if_congr hscrolls rfl rfl, hwritten, hblank]
    exact hscreen

theorem putChar_right (ch : Int8) (h : c.CursorInside) : ∃ c', c.putChar ch = .ok c' ∧ c'.CursorInside ∧
    c'.screen = if c.Scrolls ch then c.scrolled (c.written ch) else c.written ch := by
  obtain ⟨x, y, hx, hy, hat⟩ := cursorInside_iff.1 h
  by_cases hfeed : ch = 10
  · subst hfeed
    exact putChar_lineFeed hat hy
  by_cases hreturn : ch = 13
  · subst hreturn
    exact putChar_return hat hy
  by_cases htab : ch = 9
  · subst htab
    exact putChar_tab hat hx hy
  by_cases hback : ch = 8
  · subst hback
    exact putChar_backspace hat hx hy
  by_cases hprint : 32 ≤ ch
  · exact putChar_printable hprint hat hx hy
  refine ⟨c, ?_, h, ?_⟩
  · rw [putChar, if_neg hfeed, if_neg hreturn, if_neg htab, if_neg hback, if_neg hprint]
  · rw [if_neg (not_scrolls hfeed htab hprint), written, if_neg hback, if_neg hprint]

/-- From a cursor on the screen every character is written as it should. -/
theorem putcRight_of_inside (h : c.CursorInside) (ch : Int8) : c.PutcRight ch := by
  obtain ⟨c', hput, hinside, hscreen⟩ :=
    putChar_right (c := c.x86SerialPutc com1Base ch.toUInt8) ch ⟨h.x_nonneg, h.x_lt, h.y_nonneg, h.y_lt⟩
  exact ⟨c'.vgaUpdateCursor, bind_eq_ok.2 ⟨c', hput, rfl⟩,
    ⟨hinside.x_nonneg, hinside.x_lt, hinside.y_nonneg, hinside.y_lt⟩, hscreen⟩

/-! ## The calls -/

theorem cursorInside_origin (hx : c.cursorX = 0) (hy : c.cursorY = 0) : c.CursorInside :=
  cursorInside_iff.2 ⟨0, 0, by decide, by decide, hx, hy⟩

/-- Every call returns and leaves the cursor on the screen. -/
theorem run_inside (call : ConsoleCall) (h : c.CursorInside) : ∃ c', call.run c = .ok c' ∧ c'.CursorInside := by
  cases call with
  | init =>
    exact ⟨_, bind_eq_ok.2 ⟨_, clearCells_eq _, rfl⟩, cursorInside_origin rfl rfl⟩
  | putc ch =>
    obtain ⟨c', hput, hinside, -⟩ := putcRight_of_inside h ch
    exact ⟨c', hput, hinside⟩
  | puts s =>
    cases s with
    | none => exact ⟨c, rfl, h⟩
    | some s =>
      refine sweep_returns (fun c ch _ hc => ?_) h
      obtain ⟨c', hput, hinside, -⟩ := putcRight_of_inside hc ch
      exact ⟨c', hput, hinside⟩
  | clear =>
    exact ⟨_, bind_eq_ok.2 ⟨_, clearCells_eq _, rfl⟩, cursorInside_origin rfl rfl⟩
  | setColor fg bg =>
    exact ⟨_, rfl, ⟨h.x_nonneg, h.x_lt, h.y_nonneg, h.y_lt⟩⟩

/-- After any calls of the console the cursor is on the screen, and the next character is written as it should. -/
theorem console_putcRight (cells : Nat → UInt16) (calls : List ConsoleCall) :
    ∃ c, calls.foldlM ConsoleCall.run (start cells) = .ok c ∧ c.CursorInside ∧ ∀ ch, c.PutcRight ch := by
  obtain ⟨c, hruns, hinside⟩ := sweep_returns (l := calls) (I := CursorInside)
    (fun c call _ hc => run_inside call hc) (cursorInside_origin (c := start cells) rfl rfl)
  exact ⟨c, hruns, hinside, putcRight_of_inside hinside⟩

end X86Console

end FluxOs
