import Av6.FmtModel
import Av6.LineDiscipline
import Av6.TransitionSystem

/-!
# The input half of the console

`console_intr` and `console_read` of `dev/console.c` over the input ring.  The indices of the
ring are free-running 64-bit words.  The UART's thread and any number of readers run under
`cons_lock`, which a reader gives up in `sleep` only; every received word and every byte that a
reader takes is a step of its own.
-/

namespace Av6

namespace ConsoleInput

open Fmt LineDiscipline

def INPUT_BUF_SIZE : Nat := 128
def CONSOLE_DRAIN_MAX : Nat := 256

def UART_DR_DATA : BitVec 32 := 0xFF
def UART_DR_OE : BitVec 32 := 1 <<< 11
def UART_DR_BE : BitVec 32 := 1 <<< 10
def UART_DR_PE : BitVec 32 := 1 <<< 9
def UART_DR_FE : BitVec 32 := 1 <<< 8

/-- `CTRL(x)` -/
def ctrl (c : Char) : Byte := ascii c - ascii '@'

/-- `cons` -/
structure Cons where
  buf : Nat → Byte
  r : BitVec 64
  w : BitVec 64
  e : BitVec 64

/-- The slot of an index: `i % INPUT_BUF_SIZE`. -/
def slot (i : BitVec 64) : Nat := i.toNat % INPUT_BUF_SIZE

/-- `cons_rx_err` -/
structure RxErr where
  overrun : BitVec 64
  brk : BitVec 64
  parity : BitVec 64
  frame : BitVec 64

/-- What `console_echo` writes. -/
def consoleEcho (c : Byte) : List Byte :=
  if c = 8 then [8, ascii ' ', 8] else [c]

/-- The loop of the kill character; it runs at most once for each byte of the line. -/
def killLine : Nat → Cons → Cons × List Byte
  | 0, cons => (cons, [])
  | rounds + 1, cons =>
      if cons.e ≠ cons.w ∧ cons.buf (slot (cons.e - 1)) ≠ 10 then
        let (cons, echo) := killLine rounds { cons with e := cons.e - 1 }
        (cons, consoleEcho 8 ++ echo)
      else (cons, [])

/-- A character goes into the ring: the ring, the echo, and whether the readers are woken. -/
def storeChar (c : Byte) (cons : Cons) : Cons × List Byte × Bool :=
  let cons := { cons with buf := Function.update cons.buf (slot cons.e) c, e := cons.e + 1 }
  if c = 10 ∨ c = ctrl 'D' ∨ (cons.e - cons.r).toNat = INPUT_BUF_SIZE then
    ({ cons with w := cons.e }, consoleEcho c, true)
  else (cons, consoleEcho c, false)

/-- The switch of `console_intr`. -/
def consoleChar (c : Byte) (cons : Cons) : Cons × List Byte × Bool :=
  if c = ctrl 'U' then
    let (cons, echo) := killLine (cons.e - cons.w).toNat cons
    (cons, echo, false)
  else if c = ctrl 'H' ∨ c = 0x7f then
    if cons.e ≠ cons.w then ({ cons with e := cons.e - 1 }, consoleEcho 8, false)
    else (cons, [], false)
  else if c ≠ 0 ∧ (cons.e - cons.r).toNat < INPUT_BUF_SIZE then
    storeChar (if c = 13 then 10 else c) cons
  else (cons, [], false)

/-- `console_rx_error` -/
def consoleRxError (dr : BitVec 32) : BitVec 32 :=
  if dr &&& UART_DR_BE ≠ 0 then UART_DR_BE
  else if dr &&& UART_DR_PE ≠ 0 then UART_DR_PE
  else if dr &&& UART_DR_FE ≠ 0 then UART_DR_FE
  else 0

/-- The counters of `console_rx_fault`. -/
def consoleRxFault (cause : BitVec 32) (err : RxErr) : RxErr :=
  if cause = UART_DR_OE then { err with overrun := err.overrun + 1 }
  else if cause = UART_DR_BE then { err with brk := err.brk + 1 }
  else if cause = UART_DR_PE then { err with parity := err.parity + 1 }
  else { err with frame := err.frame + 1 }

/-- Where a thread stands in `console_read(dst, target)`; `out` is what it has stored at `dst`,
so that `n` is `target - out.length`. -/
inductive ReadPc
  | idle
  | enter (target : Nat)
  | loop (target : Nat) (out : List Byte)
  | asleep (target : Nat) (out : List Byte)
  | woken (target : Nat) (out : List Byte)
  /-- The last `release_spinlock`; `none` is the way out of a killed process. -/
  | leave (target : Nat) (result : Option (List Byte))
  | returned (target : Nat) (result : Option (List Byte))

/-- Who has `cons_lock`. -/
inductive Holder (T : Type*)
  | intr
  | reader (t : T)

/-- The console, the readers, and the thread of the UART, which has drained `drained` words
since it took the lock.  `trace` is the history of the input. -/
structure InState (T : Type*) where
  cons : Cons
  rxErr : RxErr
  echoed : List Byte
  lock : Option (Holder T)
  drained : Option Nat
  pc : T → ReadPc
  killed : T → Bool
  trace : List (Event Byte T)

variable {T : Type*}

/-- After `console_init`; the buffer holds anything. -/
def inInit (buf : Nat → Byte) : InState T where
  cons := ⟨buf, 0, 0, 0⟩
  rxErr := ⟨0, 0, 0, 0⟩
  echoed := []
  lock := none
  drained := none
  pc _ := .idle
  killed _ := false
  trace := []

/-- `wakeup(&cons.r)` makes the sleepers runnable. -/
def ReadPc.wakeup : ReadPc → ReadPc
  | .asleep target out => .woken target out
  | pc => pc

/-- `raw & UART_DR_DATA`, as the character that it is. -/
def dataOf (raw : BitVec 32) : Byte := (raw &&& UART_DR_DATA).truncate 8

/-- One round of the loop of `console_intr` on a word that `uart_getc` has returned. -/
def InState.receive (s : InState T) (raw : BitVec 32) : InState T :=
  let s := if raw &&& UART_DR_OE ≠ 0 then
    { s with rxErr := consoleRxFault UART_DR_OE s.rxErr } else s
  let cause := consoleRxError raw
  if cause ≠ 0 then { s with rxErr := consoleRxFault cause s.rxErr }
  else
    let (cons, echo, wakes) := consoleChar (dataOf raw) s.cons
    { s with
      cons := cons
      echoed := s.echoed ++ echo
      pc := if wakes then fun t => (s.pc t).wakeup else s.pc
      trace := s.trace ++ [.received (dataOf raw)] }

variable [DecidableEq T]

def InState.goto (s : InState T) (t : T) (pc : ReadPc) : InState T :=
  { s with pc := Function.update s.pc t pc }

/-- `cons.r++` for the byte `c`. -/
def InState.take (s : InState T) (t : T) (c : Byte) : InState T :=
  { s with cons := { s.cons with r := s.cons.r + 1 }, trace := s.trace ++ [.took t c] }

/-- The rest of the loop of `console_read`, once `c` has been read at `cons.r`. -/
def InState.readByte (s : InState T) (t : T) (target : Nat) (out : List Byte) (c : Byte) :
    InState T :=
  if c = ctrl 'D' then
    -- with something to return, the index steps back and the byte stays where it is
    if out ≠ [] then s.goto t (.leave target (some out))
    else (s.take t c).goto t (.leave target (some out))
  else if c = 10 then (s.take t c).goto t (.leave target (some (out ++ [c])))
  else (s.take t c).goto t (.loop target (out ++ [c]))

/-- One step of a reader, of the UART's thread, or of the rest of the kernel. -/
inductive InStep (s : InState T) : InState T → Prop
  | intrLock (free : s.lock = none) (idle : s.drained = none) :
      InStep s { s with lock := some .intr, drained := some 0 }
  | intrReceive {drained : Nat} (at_ : s.drained = some drained)
      (more : drained < CONSOLE_DRAIN_MAX) (raw : BitVec 32) (some_ : 0 ≤ raw.toInt) :
      InStep s { s.receive raw with drained := some (drained + 1) }
  /-- The FIFO is empty, or enough has been drained. -/
  | intrEnd {drained : Nat} (at_ : s.drained = some drained) :
      InStep s { s with lock := none, drained := none }
  | kill (t : T) : InStep s { s with killed := Function.update s.killed t true }
  | call (t : T) (target : Nat) (at_ : s.pc t = .idle ∨ ∃ n result, s.pc t = .returned n result) :
      InStep s ({ s with trace := s.trace ++ [Event.called t] }.goto t (.enter target))
  | lock {t : T} {target : Nat} (at_ : s.pc t = .enter target) (free : s.lock = none) :
      InStep s ({ s with lock := some (.reader t) }.goto t (.loop target []))
  | done {t : T} {target : Nat} {out : List Byte} (at_ : s.pc t = .loop target out)
      (enough : target - out.length = 0) : InStep s (s.goto t (.leave target (some out)))
  | giveUp {t : T} {target : Nat} {out : List Byte} (at_ : s.pc t = .loop target out)
      (more : 0 < target - out.length) (nothing : s.cons.r = s.cons.w)
      (killed : s.killed t = true) : InStep s (s.goto t (.leave target none))
  | sleep {t : T} {target : Nat} {out : List Byte} (at_ : s.pc t = .loop target out)
      (more : 0 < target - out.length) (nothing : s.cons.r = s.cons.w)
      (alive : s.killed t = false) :
      InStep s ({ s with lock := none }.goto t (.asleep target out))
  /-- `kill` wakes a sleeper as well. -/
  | wake {t : T} {target : Nat} {out : List Byte} (at_ : s.pc t = .asleep target out) :
      InStep s (s.goto t (.woken target out))
  | relock {t : T} {target : Nat} {out : List Byte} (at_ : s.pc t = .woken target out)
      (free : s.lock = none) :
      InStep s ({ s with lock := some (.reader t) }.goto t (.loop target out))
  | read {t : T} {target : Nat} {out : List Byte} (at_ : s.pc t = .loop target out)
      (more : 0 < target - out.length) (some_ : s.cons.r ≠ s.cons.w) :
      InStep s (s.readByte t target out (s.cons.buf (slot s.cons.r)))
  | unlock {t : T} {target : Nat} {result : Option (List Byte)}
      (at_ : s.pc t = .leave target result) :
      InStep s ({ s with lock := none }.goto t (.returned target result))

/-- States reached under any interleaving. -/
def InReachable (s : InState T) : Prop :=
  TransitionSystem.Reachable (fun s => ∃ buf, s = inInit buf) InStep s

end ConsoleInput

end Av6
