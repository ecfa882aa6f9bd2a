import FluxOs.Vm.State

/-!
# The kernel log

`kernel/log.c`: the records of the log and the ring that keeps them.  Texts are the characters in front of
their NUL, and a message is what the format of the caller makes of it.  What a call prints to the console
beside the dump of the ring is left out, and so is `s_log_dropped`, which is only ever cleared.
-/

namespace FluxOs

/-- `FLUX_LOG_RING_SIZE`. -/
def fluxLogRingSize : Nat := 1024

/-- `FLUX_LOG_MAX_MSG`. -/
def fluxLogMaxMsg : Nat := 512

/-- `log_level_t`. -/
inductive LogLevel
  | error
  | warn
  | info
  | debug
  deriving DecidableEq, Repr

namespace LogLevel

def toInt : LogLevel → Int
  | error => 0
  | warn => 1
  | info => 2
  | debug => 3

/-- `level_names`. -/
def name : LogLevel → List Char
  | error => "ERROR".toList
  | warn => "WARN ".toList
  | info => "INFO ".toList
  | debug => "DEBUG".toList

/-- `level_ansi`. -/
def ansi : LogLevel → List Char
  | error => "\x1b[31m".toList
  | warn => "\x1b[33m".toList
  | info => "\x1b[32m".toList
  | debug => "\x1b[36m".toList

end LogLevel

def ansiReset : List Char := "\x1b[0m".toList

def ansiBold : List Char := "\x1b[1m".toList

def ansiDim : List Char := "\x1b[2m".toList

/-- `log_entry_t`. -/
structure LogEntry where
  tick : UInt32
  level : LogLevel
  sequence : UInt32
  file : List Char
  line : Int32
  message : List Char
  deriving DecidableEq, Repr

/-- What `flux_log_record` is called with. -/
structure LogRecord where
  level : LogLevel
  tick : UInt32
  file : Option (List Char)
  line : Int32
  message : List Char
  deriving DecidableEq, Repr

/-- The static state of `log.c`. -/
structure KernelLog where
  ring : Nat → LogEntry
  head : UInt32
  count : UInt32
  minLevel : LogLevel
  ansiEnabled : Bool

/-! ## Recording -/

/-- The part of a path behind its last separator. -/
def baseName (file : List Char) : List Char :=
  (file.reverse.takeWhile fun c => c ≠ '/' && c ≠ '\\').reverse

/-- The characters of a text up to its NUL, at most `n` of them. -/
def copyChars (n : Nat) (text : List Char) : List Char := (text.takeWhile (· ≠ '\x00')).take n

/-- What is stored of a record. -/
def LogRecord.entry (r : LogRecord) (sequence : UInt32) : LogEntry where
  tick := r.tick
  level := r.level
  sequence := sequence
  file := copyChars 31 (baseName (r.file.getD []))
  line := r.line
  message := copyChars (fluxLogMaxMsg - 1) r.message

namespace KernelLog

variable (log : KernelLog)

/-- `flux_log_record`. -/
def fluxLogRecord (r : LogRecord) : KernelLog :=
  { log with
    ring := Function.update log.ring log.head.toNat (r.entry log.count)
    head := (log.head + 1) % 1024
    count := log.count + 1 }

/-- `flux_log_format`: all the public functions that log a message are calls of it. -/
def fluxLogFormat (r : LogRecord) : KernelLog :=
  if r.level.toInt > log.minLevel.toInt then log else log.fluxLogRecord r

/-- `flux_log_set_level`. -/
def fluxLogSetLevel (level : Int32) : KernelLog :=
  if level = 0 then { log with minLevel := .error }
  else if level = 1 then { log with minLevel := .warn }
  else if level = 2 then { log with minLevel := .info }
  else if level = 3 then { log with minLevel := .debug }
  else log

/-- The state that `flux_log_init` clears the log to; `hasColor` says that the HAL sets console colors. -/
def cleared (hasColor : Bool) : KernelLog :=
  { log with
    ring := fun _ => { tick := 0, level := .info, sequence := 0, file := [], line := 0, message := [] }
    head := 0
    count := 0
    ansiEnabled := if hasColor then false else log.ansiEnabled }

/-- `flux_log_init`. -/
def fluxLogInit (hasColor : Bool) (tick : UInt32) : KernelLog :=
  (log.cleared hasColor).fluxLogFormat
    { level := .info, tick := tick, file := none, line := 0
      message := "kernel log subsystem initialized (ring=1024 entries)".toList }

/-! ## Reading -/

/-- `flux_log_get_entry` with an entry to fill in. -/
def fluxLogGetEntry (index : Int32) : Except FluxStatus LogEntry :=
  if index < 0 then .error .errInvalid
  else if log.count ≤ index.toUInt32 then .error .errInvalid
  else if log.count < 1024 then .ok (log.ring index.toUInt32.toNat)
  else .ok (log.ring ((log.head + 1024 - 1 - index.toUInt32) % 1024).toNat)

/-- The digits of a positive number, the lowest first: the loop of `flux_log_itoa`. -/
def itoaDigits : Nat → Nat → List Char
  | 0, _ => []
  | fuel + 1, value => if value = 0 then [] else Nat.digitChar (value % 10) :: itoaDigits fuel (value / 10)

/-- `flux_log_itoa` to the base 10. -/
def fluxLogItoa (value : UInt32) : List Char :=
  if value = 0 then ['0'] else (itoaDigits 24 value.toNat).reverse

/-- The line that is printed for an entry, in a buffer of 512 characters. -/
def dumpLine (e : LogEntry) : List Char :=
  ("  [".toList ++ fluxLogItoa e.tick ++ "] #".toList ++ fluxLogItoa e.sequence ++ " ".toList ++
    e.level.name ++ ": ".toList ++ (if e.file = [] then [] else e.file ++ ": ".toList) ++ e.message ++
    "\r\n".toList).take 511

/-- What is printed for an entry. -/
def dumpEntry (ansiEnabled : Bool) (e : LogEntry) : List (List Char) :=
  if ansiEnabled then [e.level.ansi, dumpLine e, ansiReset] else [dumpLine e]

/-- What is printed for some entries. -/
def dump (ansiEnabled : Bool) (es : List LogEntry) : List (List Char) :=
  (ansiBold ++ "=== FLUX Kernel Log Ring Buffer ===".toList ++ ansiReset ++ "\r\n".toList) ::
    es.flatMap (dumpEntry ansiEnabled) ++
    [ansiDim ++ "=== End of Log ===".toList ++ ansiReset ++ "\r\n".toList]

/-- `flux_log_dump_ring`: the texts that it prints, one after the other. -/
def fluxLogDumpRing (count : Int32) : List (List Char) :=
  let count := if count ≤ 0 ∨ 1024 < count then 1024 else count
  let start := if log.count < 1024 then 0 else log.head
  let count := if log.count < 1024 then log.count.toNat else count.toInt.toNat
  dump log.ansiEnabled
    ((List.range count).map fun i => log.ring ((start + UInt32.ofNat i) % 1024).toNat)

end KernelLog

end FluxOs
