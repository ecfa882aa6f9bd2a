import FluxOs.Lib.Faulting
import FluxOs.Lib.Grids

/-!
# The VGA console of the x86-64 HAL

The console functions of `hal/arch/x86_64/hal_x86_64.c`.  An access to the text buffer outside its 80x25 cells is
a fault.  `ports` is what was written to the I/O ports: the echo to the serial port, whose loop that waits until
the port is ready is left out, and the position of the hardware cursor.  A `char` is signed.
-/

namespace FluxOs

open Grids

def vgaWidth : Nat := 80

def vgaHeight : Nat := 25

/-- `COM1_BASE`. -/
def com1Base : UInt16 := 0x3F8

/-- An access to a cell outside the text buffer. -/
structure CellFault where
  index : Int
  deriving DecidableEq, Repr

/-- The static state of the console, the text buffer and the I/O ports. -/
structure X86Console where
  cells : Nat → UInt16
  cursorX : Int32
  cursorY : Int32
  attr : UInt8
  fg : UInt8
  bg : UInt8
  ports : List (UInt16 × UInt8)

namespace X86Console

variable (c : X86Console)

/-- The static state before any call, with whatever the text buffer holds. -/
def start (cells : Nat → UInt16) : X86Console where
  cells := cells
  cursorX := 0
  cursorY := 0
  attr := 0x07
  fg := 7
  bg := 0
  ports := []

/-- `x86_outb`. -/
def x86Outb (port : UInt16) (value : UInt8) : X86Console := { c with ports := c.ports ++ [(port, value)] }

/-- `buf[index]`. -/
def cell (index : Int) : Except CellFault UInt16 :=
  if 0 ≤ index ∧ index < vgaHeight * vgaWidth then .ok (c.cells index.toNat) else .error ⟨index⟩

/-- `buf[index] = value`. -/
def setCell (index : Int) (value : UInt16) : Except CellFault X86Console :=
  if 0 ≤ index ∧ index < vgaHeight * vgaWidth then
    .ok { c with cells := Function.update c.cells index.toNat value }
  else .error ⟨index⟩

/-- A character with the current attribute. -/
def attributed (ch : UInt8) : UInt16 := (c.attr.toUInt16 <<< 8) ||| ch.toUInt16

/-- `((uint16_t)s_vga_attr << 8) | ' '`. -/
def blank : UInt16 := c.attributed 32

/-- `x86_serial_putc`. -/
def x86SerialPutc (base : UInt16) (ch : UInt8) : X86Console := c.x86Outb base ch

/-- `x86_serial_init_port`. -/
def x86SerialInitPort (base : UInt16) : X86Console :=
  [(1, 0x00), (3, 0x80), (0, 0x03), (1, 0x00), (3, 0x03), (2, 0xC7), (4, 0x0B)].foldl
    (fun c (p : UInt16 × UInt8) => c.x86Outb (base + p.1) p.2) c

/-- `vga_scroll`. -/
def vgaScroll : Except CellFault X86Console := do
  let moved ← (List.range (vgaHeight - 1)).foldlM (fun c (y : Nat) =>
    (List.range vgaWidth).foldlM (fun (c : X86Console) (x : Nat) => do
      c.setCell (y * vgaWidth + x) (← c.cell ((y + 1) * vgaWidth + x))) c) c
  let cleared ← (List.range vgaWidth).foldlM (fun (c : X86Console) (x : Nat) =>
    c.setCell ((vgaHeight - 1) * vgaWidth + x) moved.blank) moved
  return { cleared with cursorY := 24 }

/-- `s_vga_cursor_y * VGA_WIDTH + s_vga_cursor_x`. -/
def cursorIndex : Int32 := c.cursorY * 80 + c.cursorX

/-- `vga_update_cursor`. -/
def vgaUpdateCursor : X86Console :=
  let pos := c.cursorIndex.toUInt32.toUInt16
  (((c.x86Outb 0x3D4 14).x86Outb 0x3D5 (pos >>> 8).toUInt8).x86Outb 0x3D4 15).x86Outb 0x3D5 pos.toUInt8

/-- `vga_make_attr`. -/
def vgaMakeAttr : X86Console := { c with attr := (c.bg <<< 4) ||| (c.fg &&& 0x0F) }

/-- The loop that clears the text buffer. -/
def clearCells : Except CellFault X86Console :=
  (List.range (vgaWidth * vgaHeight)).foldlM (fun (c : X86Console) (i : Nat) => c.setCell i c.blank) c

def x86ConsoleInit : Except CellFault X86Console := do
  let c := { c with cursorX := 0, cursorY := 0, fg := 7, bg := 0 }.vgaMakeAttr
  return (← c.clearCells).vgaUpdateCursor.x86SerialInitPort com1Base

/-- `s_vga_cursor_x = 0; s_vga_cursor_y++`, and the scroll behind the last line. -/
def nextLine : Except CellFault X86Console :=
  let c := { c with cursorX := 0, cursorY := c.cursorY + 1 }
  if c.cursorY ≥ 25 then c.vgaScroll else .ok c

/-- `if (s_vga_cursor_x >= VGA_WIDTH)`, at the end of a line. -/
def wrap : Except CellFault X86Console := if c.cursorX ≥ 80 then c.nextLine else .ok c

/-- The switch on the character. -/
def putChar (ch : Int8) : Except CellFault X86Console :=
  if ch = 10 then c.nextLine
  else if ch = 13 then .ok { c with cursorX := 0 }
  else if ch = 9 then { c with cursorX := (c.cursorX + 8) &&& ~~~7 }.wrap
  else if ch = 8 then
    if c.cursorX > 0 then
      let c := { c with cursorX := c.cursorX - 1 }
      c.setCell c.cursorIndex.toInt c.blank
    else .ok c
  else if ch ≥ 32 then do
    let c ← c.setCell c.cursorIndex.toInt (c.attributed ch.toUInt8)
    { c with cursorX := c.cursorX + 1 }.wrap
  else .ok c

def x86ConsolePutc (ch : Int8) : Except CellFault X86Console := do
  return (← (c.x86SerialPutc com1Base ch.toUInt8).putChar ch).vgaUpdateCursor

/-- `x86_console_puts`, of a string up to its end; `none` stands for `NULL`. -/
def x86ConsolePuts (s : Option (List Int8)) : Except CellFault X86Console :=
  match s with
  | none => .ok c
  | some s => (s.takeWhile (· ≠ 0)).foldlM x86ConsolePutc c

def x86ConsoleClear : Except CellFault X86Console := do
  return { ← c.clearCells with cursorX := 0, cursorY := 0 }.vgaUpdateCursor

def x86ConsoleSetColor (fg bg : UInt8) : X86Console :=
  { c with fg := fg &&& 0x0F, bg := bg &&& 0x0F }.vgaMakeAttr

/-- The 25 lines of the screen. -/
def screen : List (List UInt16) := lines vgaWidth vgaHeight c.cells

end X86Console

/-- A call of the console functions that write. -/
inductive ConsoleCall
  | init
  | putc (ch : Int8)
  | puts (s : Option (List Int8))
  | clear
  | setColor (fg bg : UInt8)
  deriving DecidableEq, Repr

def ConsoleCall.run (c : X86Console) : ConsoleCall → Except CellFault X86Console
  | .init => c.x86ConsoleInit
  | .putc ch => c.x86ConsolePutc ch
  | .puts s => c.x86ConsolePuts s
  | .clear => c.x86ConsoleClear
  | .setColor fg bg => .ok (c.x86ConsoleSetColor fg bg)

end FluxOs
