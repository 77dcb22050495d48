import Mathlib.Algebra.Group.Nat.Hom
import Av6.CircularBuffer

/-!
# The kernel message ring

The state and the operations of `kern/kmsg.c`: a ring of descriptors carries the
metadata of each record, a ring of bytes carries the text, and nothing stores
which bytes belong to which record.  Descriptors and text are retired from the
tail in the order in which they were allocated.

Every operation runs under `kmsg_lock`, so each one is a function of the state.
The sequence counter is a 64-bit word in the source and a natural number here:
it is only ever incremented, once a record.
-/

namespace Av6

namespace Kmsg

def KMSG_TEXTSZ : Nat := 64 * 1024
def KMSG_NDESC : Nat := 1024
def KMSG_RECORD_MAX : Nat := 256

def KMSG_F_FINAL : BitVec 8 := 0x01
def KMSG_CALLER_CPU : BitVec 32 := 0x80000000

def KERN_INFO : Int := 6
def KERN_CONT : Int := 8

abbrev Byte := BitVec 8

/-- `'\n'` -/
def newline : Byte := 10

/-- `struct kmsg_desc`; `off` and `len` address the text ring. -/
structure KmsgDesc where
  seq : Nat
  ts : Nat
  off : Nat
  caller : BitVec 32
  len : Nat
  level : BitVec 8
  flags : BitVec 8
deriving DecidableEq

/-- `d->flags |= KMSG_F_FINAL` -/
def KmsgDesc.close (d : KmsgDesc) : KmsgDesc :=
  { d with flags := d.flags ||| KMSG_F_FINAL }

/-- `(d->flags & KMSG_F_FINAL) != 0` -/
def KmsgDesc.isFinal (d : KmsgDesc) : Bool :=
  d.flags &&& KMSG_F_FINAL ≠ 0

/-- `d->len += len`, and the record is closed when the added text ends its
line. -/
def KmsgDesc.extend (d : KmsgDesc) (text : Nat → Byte) (len : Nat) : KmsgDesc :=
  let d := { d with len := d.len + len }
  if text (len - 1) = newline then d.close else d

/-- The static variables of `kmsg.c`, the per-CPU `in_kmsg` flag and the bytes
the bypass has written to the port. -/
structure KmsgState where
  desc : Nat → KmsgDesc
  textbuf : Nat → Byte
  dhead : Nat
  dtail : Nat
  ndesc : Nat
  thead : Nat
  ttail : Nat
  tused : Nat
  nextSeq : Nat
  inKmsg : Nat → Bool
  port : List Byte

/-- The rings live in `.bss`: everything is zero when the first record is
added. -/
def kmsgInit : KmsgState where
  desc _ := ⟨0, 0, 0, 0, 0, 0, 0⟩
  textbuf _ := 0
  dhead := 0
  dtail := 0
  ndesc := 0
  thead := 0
  ttail := 0
  tused := 0
  nextSeq := 0
  inKmsg _ := false
  port := []

def kmsgDropOldest (s : KmsgState) : KmsgState :=
  { s with
    ttail := (s.ttail + (s.desc s.dtail).len) % KMSG_TEXTSZ
    tused := s.tused - (s.desc s.dtail).len
    dtail := (s.dtail + 1) % KMSG_NDESC
    ndesc := s.ndesc - 1 }

def kmsgWriteText (textbuf : Nat → Byte) (off : Nat) (src : Nat → Byte)
    (len : Nat) : Nat → Byte :=
  CircularBuffer.writeBlock KMSG_TEXTSZ textbuf off src len

/-- Slot of the newest descriptor, or `none` if the ring is empty. -/
def kmsgLast (s : KmsgState) : Option Nat :=
  if s.ndesc = 0 then none
  else some ((s.dhead + KMSG_NDESC - 1) % KMSG_NDESC)

/-- A process logs under its pid, a CPU without one under its number. -/
def kmsgCaller (proc : Option (BitVec 32)) (cpuid : Nat) : BitVec 32 :=
  match proc with
  | some pid => pid
  | none => KMSG_CALLER_CPU ||| BitVec.ofNat 32 cpuid

def kmsgAppendLast (s : KmsgState) (caller : BitVec 32) (text : Nat → Byte)
    (len : Nat) : Option (Nat × KmsgState) :=
  match kmsgLast s with
  | none => none
  | some slot =>
      let d := s.desc slot
      if d.isFinal ∨ d.caller ≠ caller then none
      else if d.len + len > KMSG_RECORD_MAX ∨ s.tused + len > KMSG_TEXTSZ then none
      else
        some (d.seq,
          { s with
            textbuf := kmsgWriteText s.textbuf s.thead text len
            thead := (s.thead + len) % KMSG_TEXTSZ
            tused := s.tused + len
            desc := Function.update s.desc slot (d.extend text len) })

def kmsgBypass (s : KmsgState) (text : Nat → Byte) (len : Nat) : KmsgState :=
  { s with port := s.port ++ (List.range len).map text }

/-- `d = kmsg_last(); if (d != NULL) d->flags |= KMSG_F_FINAL` -/
def kmsgCloseLast (s : KmsgState) : KmsgState :=
  match kmsgLast s with
  | none => s
  | some slot => { s with desc := Function.update s.desc slot (s.desc slot).close }

/-- `while (ndesc == KMSG_NDESC || tused + len > KMSG_TEXTSZ) kmsg_drop_oldest()`.
Each round retires one descriptor, so the number of live ones bounds the
rounds; `makeRoom_fits` shows that the loop has then left by its condition. -/
def kmsgMakeRoom (len : Nat) : Nat → KmsgState → KmsgState
  | 0, s => s
  | rounds + 1, s =>
      if s.ndesc = KMSG_NDESC ∨ s.tused + len > KMSG_TEXTSZ then
        kmsgMakeRoom len rounds (kmsgDropOldest s)
      else s

/-- Fill the descriptor at `dhead` and copy the text behind `thead`. -/
def kmsgStart (s : KmsgState) (level : Int) (caller : BitVec 32) (ts : Nat)
    (text : Nat → Byte) (len : Nat) : KmsgState :=
  { s with
    desc := Function.update s.desc s.dhead
      { seq := s.nextSeq
        ts := ts
        off := s.thead
        caller := caller
        len := len
        level := BitVec.ofInt 8 (if level = KERN_CONT then KERN_INFO else level)
        flags := if text (len - 1) = newline then KMSG_F_FINAL else 0 }
    textbuf := kmsgWriteText s.textbuf s.thead text len
    thead := (s.thead + len) % KMSG_TEXTSZ
    tused := s.tused + len
    dhead := (s.dhead + 1) % KMSG_NDESC
    ndesc := s.ndesc + 1
    nextSeq := s.nextSeq + 1 }

/-- One call of `kmsg_add`: the CPU it runs on, the process that CPU runs (if
any), the arguments and the counter reading it takes. -/
structure KmsgCall where
  cpuid : Nat
  proc : Option (BitVec 32)
  level : Int
  text : Nat → Byte
  len : BitVec 16
  ts : Nat

def KmsgCall.caller (call : KmsgCall) : BitVec 32 :=
  kmsgCaller call.proc call.cpuid

/-- The number of bytes kept of a call: `len`, cut at `KMSG_RECORD_MAX`. -/
def KmsgCall.kept (call : KmsgCall) : Nat :=
  if call.len.toNat > KMSG_RECORD_MAX then KMSG_RECORD_MAX else call.len.toNat

/-- `kmsg_add`.  The result is `none` for `KMSG_NO_SEQ`. -/
def kmsgAdd (call : KmsgCall) (s : KmsgState) : Option Nat × KmsgState :=
  let len := call.kept
  if len = 0 then (none, s)
  else if s.inKmsg call.cpuid then (none, kmsgBypass s call.text len)
  else
    let s := { s with inKmsg := Function.update s.inKmsg call.cpuid true }
    let appended :=
      if call.level = KERN_CONT then kmsgAppendLast s call.caller call.text len
      else none
    let (seq, s) :=
      match appended with
      | some (seq, s) => (seq, s)
      | none =>
          let s := kmsgCloseLast s
          let s := kmsgMakeRoom len s.ndesc s
          (s.nextSeq, kmsgStart s call.level call.caller call.ts call.text len)
    (some seq, { s with inKmsg := Function.update s.inKmsg call.cpuid false })

def kmsgFinalize (s : KmsgState) : KmsgState :=
  kmsgCloseLast s

/-- `kmsg_read`: the descriptor and the reassembled text, or `none` for -1. -/
def kmsgRead (s : KmsgState) (seq : Nat) : Option (KmsgDesc × List Byte) :=
  if s.ndesc = 0 ∨ seq < (s.desc s.dtail).seq ∨ seq ≥ s.nextSeq then none
  else
    let idx := (s.dtail + (seq - (s.desc s.dtail).seq) % 2 ^ 32) % KMSG_NDESC
    let d := s.desc idx
    if d.isFinal then
      some (d, CircularBuffer.slice KMSG_TEXTSZ s.textbuf d.off d.len)
    else none

def kmsgFirstSeq (s : KmsgState) : Nat :=
  if s.ndesc = 0 then s.nextSeq else (s.desc s.dtail).seq

def kmsgNextSeq (s : KmsgState) : Nat :=
  s.nextSeq

@[simp]
theorem isFinal_close (d : KmsgDesc) : d.close.isFinal = true := by
  have bit : ∀ flags : BitVec 8, (flags ||| KMSG_F_FINAL) &&& KMSG_F_FINAL ≠ 0 := by
    decide
  exact decide_eq_true (bit d.flags)

end Kmsg

end Av6
