import Av6.ConsoleInput
import Av6.ProcThreads

/-!
# `kill` and the blocking calls

`console_read` of `dev/console.c` runs on top of the processes of `kern/proc.c`, which have
`wait` and `kill` already.  `killed` reads the flag under `p->lock` in one step, `sleep` gives
`cons_lock` up after it has `p->lock`, and no interrupt is taken while `cons_lock` is held.
The thread of the UART changes the ring under `cons_lock`; its calls of `wakeup` are among those
that any interrupt can make.
-/

namespace Av6

namespace Kill

open ConsoleInput Fmt Proc

/-- Where a thread stands in `console_read(dst, target)`; `out` is what it has stored at `dst`. -/
inductive ReadPc
  | outside
  | enter (target : Nat)
  | loop (target : Nat) (out : List Byte)
  /-- There is no complete line: `killed` is called. -/
  | check (target : Nat) (out : List Byte)
  | checked (killed : Bool) (target : Nat) (out : List Byte)
  /-- In `sleep`, with both locks. -/
  | sleepLocked (target : Nat) (out : List Byte)
  /-- In `sleep`, without `cons_lock`, until it is acquired again. -/
  | asleep (target : Nat) (out : List Byte)
  | leave (result : Option (List Byte))

structure KillState (ncpus : Nat) (P : Type*) where
  sched : SchedState ncpus P
  cons : Cons
  consLock : Option P
  reader : P → ReadPc

variable {ncpus : Nat} {P : Type*}

/-- After the boot; the buffer holds anything. -/
def killInit (buf : Nat → Byte) : KillState ncpus P where
  sched := procInit ncpus P
  cons := ⟨buf, 0, 0, 0⟩
  consLock := none
  reader _ := .outside

/-- The rest of the loop of `console_read`, once `c` has been read at `cons.r`. -/
def readByte (cons : Cons) (target : Nat) (out : List Byte) (c : Byte) : Cons × ReadPc :=
  if c = ctrl 'D' then
    if out ≠ [] then (cons, .leave (some out))
    else ({ cons with r := cons.r + 1 }, .leave (some out))
  else if c = 10 then ({ cons with r := cons.r + 1 }, .leave (some (out ++ [c])))
  else ({ cons with r := cons.r + 1 }, .loop target (out ++ [c]))

/-- Whether a thread in `console_read` can take a step of `proc.c` from `k` to `k'`. -/
def ReadPc.Lets : ReadPc → Code P → Code P → Prop
  | .outside, _, _ => True
  | .enter _, k, k' | .asleep _ _, k, k' => k = .body → Interrupts k k'
  | _, _, _ => False

variable [DecidableEq P]

def KillState.goto (s : KillState ncpus P) (p : P) (pc : ReadPc) : KillState ncpus P :=
  { s with reader := Function.update s.reader p pc }

/-- The thread of `p` runs on `c`, outside `proc.c`, and stands at `pc` in `console_read`. -/
structure KillState.At (s : KillState ncpus P) (c : Fin ncpus) (p : P) (pc : ReadPc) : Prop where
  on : s.sched.cpu c = .running p
  body : s.sched.code (.thread p) = .body
  reader : s.reader p = pc

/-- One step of the CPU `c`; `consR` is the address of `cons.r`. -/
inductive KillStep (nslots consR : Nat) (s : KillState ncpus P) (c : Fin ncpus) :
    KillState ncpus P → Prop
  | proc {t : SchedState ncpus P} (stepped : SchedStep nslots s.sched c t)
      (lets : ∀ p, s.sched.cpu c = .running p →
        (s.reader p).Lets (s.sched.code (.thread p)) (t.code (.thread p))) :
      KillStep nslots consR s c { s with sched := t }
  /-- `console_intr` handles a character. -/
  | receive (byte : Byte) (free : s.consLock = none) :
      KillStep nslots consR s c { s with cons := (consoleChar byte s.cons).1 }
  | call {p : P} (target : Nat) (at_ : s.At c p .outside) :
      KillStep nslots consR s c (s.goto p (.enter target))
  | lock {p : P} {target : Nat} (at_ : s.At c p (.enter target)) (free : s.consLock = none) :
      KillStep nslots consR s c ({ s with consLock := some p }.goto p (.loop target []))
  | done {p : P} {target : Nat} {out : List Byte} (at_ : s.At c p (.loop target out))
      (enough : target - out.length = 0) :
      KillStep nslots consR s c (s.goto p (.leave (some out)))
  | empty {p : P} {target : Nat} {out : List Byte} (at_ : s.At c p (.loop target out))
      (more : 0 < target - out.length) (nothing : s.cons.r = s.cons.w) :
      KillStep nslots consR s c (s.goto p (.check target out))
  | read {p : P} {target : Nat} {out : List Byte} (at_ : s.At c p (.loop target out))
      (more : 0 < target - out.length) (some_ : s.cons.r ≠ s.cons.w) :
      KillStep nslots consR s c
        ({ s with
          cons := (readByte s.cons target out (s.cons.buf (slot s.cons.r))).1 }.goto p
          (readByte s.cons target out (s.cons.buf (slot s.cons.r))).2)
  | killed {p : P} {target : Nat} {out : List Byte} (at_ : s.At c p (.check target out))
      (free : s.sched.locks (.proc p) = none) :
      KillStep nslots consR s c (s.goto p (.checked (s.sched.proc p).killed target out))
  | giveUp {p : P} {target : Nat} {out : List Byte} (at_ : s.At c p (.checked true target out)) :
      KillStep nslots consR s c (s.goto p (.leave none))
  | sleep {p : P} {target : Nat} {out : List Byte} (at_ : s.At c p (.checked false target out))
      (free : s.sched.locks (.proc p) = none) :
      KillStep nslots consR s c
        ({ s with
          sched := (s.sched.setLock (.proc p) (some c)).goto (.thread p)
            (.sleepReleased (.other consR) .body) }.goto p (.sleepLocked target out))
  | sleepUnlock {p : P} {target : Nat} {out : List Byte} (on : s.sched.cpu c = .running p)
      (at_ : s.reader p = .sleepLocked target out) :
      KillStep nslots consR s c ({ s with consLock := none }.goto p (.asleep target out))
  | relock {p : P} {target : Nat} {out : List Byte} (at_ : s.At c p (.asleep target out))
      (free : s.consLock = none) :
      KillStep nslots consR s c ({ s with consLock := some p }.goto p (.loop target out))
  | unlock {p : P} {result : Option (List Byte)} (at_ : s.At c p (.leave result)) :
      KillStep nslots consR s c ({ s with consLock := none }.goto p .outside)

/-- States reached from boot under any interleaving. -/
def KillReachable (nslots consR : Nat) (s : KillState ncpus P) : Prop :=
  TransitionSystem.Reachable (fun s => ∃ buf, s = killInit buf)
    (fun s t => ∃ c, KillStep nslots consR s c t) s

/-- The process sleeps inside `wait` or `console_read`. -/
def Blocked (s : KillState ncpus P) (p : P) : Prop :=
  (s.sched.proc p).state = .sleeping ∧
    ((∃ xstatus, s.sched.code (.thread p) = .slept (.waitEnter xstatus)) ∨
      ∃ target out, s.reader p = .asleep target out)

/-- `killed` has returned 0 to `wait` or `console_read`, and `sleep` has not got `p->lock`. -/
def InWindow (s : KillState ncpus P) (p : P) : Prop :=
  (∃ xstatus, s.sched.code (.thread p) = .waitSleep xstatus) ∨
    ∃ target out, s.reader p = .checked false target out

/-- The CPU is about to set the flag of `q`, in `kill`. -/
def Marks (s : KillState ncpus P) (c : Fin ncpus) (q : P) : Prop :=
  ∃ p, s.sched.cpu c = .running p ∧ s.sched.code (.thread p) = .killLocked q

/-- States reached by runs in which `kill` never sets the flag of a process in the window. -/
def CarefulReachable (nslots consR : Nat) (s : KillState ncpus P) : Prop :=
  TransitionSystem.Reachable (fun s => ∃ buf, s = killInit buf)
    (fun s t => ∃ c, KillStep nslots consR s c t ∧ ∀ q, Marks s c q → ¬ InWindow s q) s

end Kill

end Av6
