import Av6.FmtModel
import Av6.KmsgRuns
import Av6.TransitionSystem

/-!
# The console as a reader of the log

The output half of `dev/console.c` and `vprintk` of `kern/printk.c`, as a transition system
over any number of threads.  The calls that render records hold `cons_out_lock`, and every
`kmsg_add`, `kmsg_read`, `kmsg_first_seq` and `kmsg_next_seq` is a step of its own, so that
other CPUs add to the log or close its newest record between any two of them.
-/

namespace Av6

namespace Console

open Kmsg
open Fmt hiding Byte

def USEC_PER_SEC : Nat := 1000000

/-- A string literal of the source. -/
def literal (text : List Char) : List Byte := text.map ascii

/-- `level_tag` -/
def levelTag (level : BitVec 8) : List Byte :=
  match level.toNat with
  | 0 => literal ['E', 'M', 'E', 'R', 'G', ':', ' ', ' ']
  | 1 => literal ['A', 'L', 'E', 'R', 'T', ':', ' ', ' ']
  | 2 => literal ['C', 'R', 'I', 'T', ':', ' ', ' ']
  | 3 => literal ['E', 'R', 'R', 'O', 'R', ':', ' ', ' ']
  | 4 => literal ['W', 'A', 'R', 'N', 'I', 'N', 'G', ':', ' ', ' ']
  | _ => []

/-- `snprintf` into a buffer of the stack and `console_puts` of what is in it. -/
def putFormatted (size : Nat) (fmt : List Byte) (slots : List (BitVec 64)) : List Byte :=
  let buf := (vsnprintf size fmt ⟨slots, fun _ => []⟩ fun _ => 0).2
  ((List.range size).map buf).takeWhile (· ≠ 0)

/-- `"[%5lu.%06lu] "` -/
def headerFormat : List Byte :=
  literal ['[', '%', '5', 'l', 'u', '.', '%', '0', '6', 'l', 'u', ']', ' ']

/-- What `console_render` writes to the port; `freq` is the counter frequency. -/
def consoleRender (freq : Nat) (d : KmsgDesc) (text : List Byte) : List Byte :=
  (if freq = 0 then []
    else putFormatted 32 headerFormat
      [BitVec.ofNat 64 (d.ts / freq),
        BitVec.ofNat 64 (d.ts % freq * USEC_PER_SEC % 2 ^ 64 / freq)]) ++
    levelTag d.level ++ text

/-- `"** %lu messages dropped **\n"` -/
def droppedFormat : List Byte :=
  literal ['*', '*', ' ', '%', 'l', 'u', ' ', 'm', 'e', 's', 's', 'a', 'g', 'e', 's', ' ',
    'd', 'r', 'o', 'p', 'p', 'e', 'd', ' ', '*', '*', '\n']

/-- What `console_dropped` writes to the port. -/
def consoleDropped (count : Nat) : List Byte :=
  putFormatted 64 droppedFormat [BitVec.ofNat 64 count]

/-- What goes out to the port at once, and who writes it. -/
inductive PortEvent
  | rendered (d : KmsgDesc) (text : List Byte)
  | dropped (count : Nat)
  | replayed (d : KmsgDesc) (text : List Byte)

def PortEvent.bytes (freq : Nat) : PortEvent → List Byte
  | .rendered d text => consoleRender freq d text
  | .dropped count => consoleDropped count
  | .replayed d text => consoleRender freq d text

/-- The arguments of `vprintk`, with the CPU and the process that it runs on and the counter
reading that `kmsg_add` takes. -/
structure PrintkCall where
  cpuid : Nat
  proc : Option (BitVec 32)
  level : Int
  format : List Byte
  arglist : VaList
  ts : Nat

/-- The whole formatted text of a call. -/
def PrintkCall.text (call : PrintkCall) : List Byte :=
  formatted call.format call.arglist

/-- The call of `kmsg_add` that `vprintk` makes, after formatting into the buffer. -/
def PrintkCall.kmsgCall (call : PrintkCall) (stage : Nat → Byte) : KmsgCall :=
  let (len, buf) := vsnprintf KMSG_RECORD_MAX call.format call.arglist stage
  let len := if len > KMSG_RECORD_MAX then (KMSG_RECORD_MAX : Int) else len
  ⟨call.cpuid, call.proc, call.level, buf, BitVec.ofInt 16 len, call.ts⟩

/-- A position in the code, of a thread.  The loops carry their own variables: `stop` is the
argument of `console_drain`, `seq` and `last` are those of `console_replay`. -/
inductive OutPc
  | idle
  | printk (call : PrintkCall)
  | flushUpto (seq : Nat)
  | flush
  | flushLocked
  | drain (stop : Nat)
  | drainRender (stop : Nat) (d : KmsgDesc) (text : List Byte)
  /-- `kmsg_read` has returned -1. -/
  | drainMissed (stop : Nat)
  | drained
  | replay
  | replayFirst
  | replayNext (seq : Nat)
  | replayLoop (seq last : Nat)
  | replayRender (seq last : Nat) (d : KmsgDesc) (text : List Byte)
  | replayMissed (seq last : Nat)
  | replayed

/-- The code that runs with `cons_out_lock` held. -/
def OutPc.locked : OutPc → Bool
  | .idle | .printk _ | .flushUpto _ | .flush | .replay => false
  | _ => true

/-- The code of `console_replay` with the lock held. -/
def OutPc.replaying : OutPc → Bool
  | .replayFirst | .replayNext _ | .replayLoop _ _ | .replayRender _ _ _ _
  | .replayMissed _ _ | .replayed => true
  | _ => false

/-- A call of `console_replay`, for the record: `cons_seq` when it got the lock, and what it
has rendered. -/
structure ReplayRecord where
  consSeq : Nat
  shown : List (KmsgDesc × List Byte)

/-- The log with its history, the variables of the console, the buffers of `vprintk`, and the
position of every thread.  `printed` is the last call of `vprintk` of a thread with what
`kmsg_add` returned to it, and `replays` its last `console_replay`. -/
structure OutState (T : Type*) where
  log : KmsgState × History
  consSeq : Nat
  outLock : Option T
  stages : Nat → Nat → Byte
  pc : T → OutPc
  printed : T → Option (PrintkCall × Option Nat)
  replays : T → ReplayRecord
  port : List PortEvent

variable {T : Type*}

/-- At boot. -/
def outInit (T : Type*) : OutState T where
  log := (kmsgInit, [])
  consSeq := 0
  outLock := none
  stages _ _ := 0
  pc _ := .idle
  printed _ := none
  replays _ := ⟨0, []⟩
  port := []

variable [DecidableEq T]

def OutState.goto (s : OutState T) (t : T) (pc : OutPc) : OutState T :=
  { s with pc := Function.update s.pc t pc }

/-- `console_render` and `cons_seq++`. -/
def OutState.render (s : OutState T) (d : KmsgDesc) (text : List Byte) : OutState T :=
  { s with consSeq := s.consSeq + 1, port := s.port ++ [.rendered d text] }

/-- `console_dropped(first - cons_seq)` and `cons_seq = first`. -/
def OutState.skipTo (s : OutState T) (first : Nat) : OutState T :=
  { s with consSeq := first, port := s.port ++ [.dropped (first - s.consSeq)] }

/-- `console_render` in a replay. -/
def OutState.display (s : OutState T) (t : T) (d : KmsgDesc) (text : List Byte) : OutState T :=
  { s with
    port := s.port ++ [.replayed d text]
    replays := Function.update s.replays t
      { s.replays t with shown := (s.replays t).shown ++ [(d, text)] } }

/-- The formatting and the `kmsg_add` of `vprintk`; IRQs are masked there, and the buffer
belongs to the CPU. -/
def OutState.print (s : OutState T) (t : T) (call : PrintkCall) : OutState T :=
  let added := call.kmsgCall (s.stages call.cpuid)
  { s with
    log := (KmsgOp.add added).run s.log
    stages := Function.update s.stages call.cpuid added.text
    printed := Function.update s.printed t (some (call, (kmsgAdd added s.log.1).1)) }

/-- One step of the thread `t`, or of the rest of the kernel on the log. -/
inductive OutStep (s : OutState T) (t : T) : OutState T → Prop
  /-- Another call of `kmsg_add` or `kmsg_finalize`, on any CPU. -/
  | log (op : KmsgOp) : OutStep s t { s with log := op.run s.log }
  | callPrintk (call : PrintkCall) (at_ : s.pc t = .idle) :
      OutStep s t ({ s with printed := Function.update s.printed t none }.goto t (.printk call))
  | callFlushUpto (seq : Nat) (at_ : s.pc t = .idle) :
      OutStep s t
        ({ s with printed := Function.update s.printed t none }.goto t (.flushUpto seq))
  | callFlush (at_ : s.pc t = .idle) :
      OutStep s t ({ s with printed := Function.update s.printed t none }.goto t .flush)
  | callReplay (at_ : s.pc t = .idle) :
      OutStep s t ({ s with printed := Function.update s.printed t none }.goto t .replay)
  /-- `console_flush_upto` returns at once for `KMSG_NO_SEQ`. -/
  | print {call : PrintkCall} (at_ : s.pc t = .printk call) :
      OutStep s t ((s.print t call).goto t
        (match (kmsgAdd (call.kmsgCall (s.stages call.cpuid)) s.log.1).1 with
          | none => .idle
          | some seq => .flushUpto seq))
  | lockUpto {seq : Nat} (at_ : s.pc t = .flushUpto seq) (free : s.outLock = none) :
      OutStep s t ({ s with outLock := some t }.goto t (.drain (seq + 1)))
  | lockFlush (at_ : s.pc t = .flush) (free : s.outLock = none) :
      OutStep s t ({ s with outLock := some t }.goto t .flushLocked)
  | nextSeq (at_ : s.pc t = .flushLocked) :
      OutStep s t (s.goto t (.drain (kmsgNextSeq s.log.1)))
  | drainEnd {stop : Nat} (at_ : s.pc t = .drain stop) (done : stop ≤ s.consSeq) :
      OutStep s t (s.goto t .drained)
  | drainRead {stop : Nat} {d : KmsgDesc} {text : List Byte} (at_ : s.pc t = .drain stop)
      (more : s.consSeq < stop) (found : kmsgRead s.log.1 s.consSeq = some (d, text)) :
      OutStep s t (s.goto t (.drainRender stop d text))
  | drainMiss {stop : Nat} (at_ : s.pc t = .drain stop) (more : s.consSeq < stop)
      (missing : kmsgRead s.log.1 s.consSeq = none) :
      OutStep s t (s.goto t (.drainMissed stop))
  | render {stop : Nat} {d : KmsgDesc} {text : List Byte}
      (at_ : s.pc t = .drainRender stop d text) :
      OutStep s t ((s.render d text).goto t (.drain stop))
  | drainSkip {stop : Nat} (at_ : s.pc t = .drainMissed stop)
      (behind : s.consSeq < kmsgFirstSeq s.log.1) :
      OutStep s t ((s.skipTo (kmsgFirstSeq s.log.1)).goto t (.drain stop))
  | drainBreak {stop : Nat} (at_ : s.pc t = .drainMissed stop)
      (held : kmsgFirstSeq s.log.1 ≤ s.consSeq) : OutStep s t (s.goto t .drained)
  | unlock (at_ : s.pc t = .drained ∨ s.pc t = .replayed) :
      OutStep s t ({ s with outLock := none }.goto t .idle)
  | lockReplay (at_ : s.pc t = .replay) (free : s.outLock = none) :
      OutStep s t
        ({ s with
            outLock := some t
            replays := Function.update s.replays t ⟨s.consSeq, []⟩ }.goto t .replayFirst)
  | replayFirst (at_ : s.pc t = .replayFirst) :
      OutStep s t (s.goto t (.replayNext (kmsgFirstSeq s.log.1)))
  | replayNext {seq : Nat} (at_ : s.pc t = .replayNext seq) :
      OutStep s t (s.goto t (.replayLoop seq (kmsgNextSeq s.log.1)))
  | replayEnd {seq last : Nat} (at_ : s.pc t = .replayLoop seq last) (done : last ≤ seq) :
      OutStep s t (s.goto t .replayed)
  | replayRead {seq last : Nat} {d : KmsgDesc} {text : List Byte}
      (at_ : s.pc t = .replayLoop seq last) (more : seq < last)
      (found : kmsgRead s.log.1 seq = some (d, text)) :
      OutStep s t (s.goto t (.replayRender seq last d text))
  | replayMiss {seq last : Nat} (at_ : s.pc t = .replayLoop seq last) (more : seq < last)
      (missing : kmsgRead s.log.1 seq = none) :
      OutStep s t (s.goto t (.replayMissed seq last))
  | replayRender {seq last : Nat} {d : KmsgDesc} {text : List Byte}
      (at_ : s.pc t = .replayRender seq last d text) :
      OutStep s t ((s.display t d text).goto t (.replayLoop (seq + 1) last))
  | replaySkip {seq last : Nat} (at_ : s.pc t = .replayMissed seq last)
      (behind : seq < kmsgFirstSeq s.log.1) :
      OutStep s t (s.goto t (.replayLoop (kmsgFirstSeq s.log.1) last))
  | replayBreak {seq last : Nat} (at_ : s.pc t = .replayMissed seq last)
      (held : kmsgFirstSeq s.log.1 ≤ seq) : OutStep s t (s.goto t .replayed)
  /-- `panic` in the middle of anything: the other CPUs are parked with IRQs on, so none of
  them is inside the lock, and locking is off from here. -/
  | panic (parked : ∀ u, u ≠ t → (s.pc u).locked = false) :
      OutStep s t
        ({ s with outLock := none, printed := Function.update s.printed t none }.goto t .idle)

/-- States reached from boot under any interleaving. -/
def OutReachable (s : OutState T) : Prop :=
  TransitionSystem.Reachable (· = outInit T) (fun s s' => ∃ t, OutStep s t s') s

end Console

end Av6
