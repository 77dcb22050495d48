import Av6.TransitionSystem
import Mathlib.Data.Fintype.Basic
import Mathlib.Data.Set.Insert
import Mathlib.Tactic.Ring

/-!
# The rolling-generation ASID allocator

`arch/asid.c` as a transition system over any number of CPUs and processes.  Every
shared access that another CPU can observe is a step of its own: the three lockless
reads of `asid_switch`, its `cmpxchg`, each `xchg` of a rollover, the publication of
the new generation and of the active slot, and the TTBR0 load.  What only the holder
of `asid_lock` touches (the bitmap, the reserved slots, the hint, the pending mask)
changes together with the next observable access.

Packed contexts are natural numbers: with `total` a power of two, `& asid_mask` is
the remainder, `& ~asid_mask` drops it, and `generation | asid` is a sum.
-/

namespace Av6

namespace Asid

/-- `ctx & asid_mask` -/
def asidOf (total ctx : Nat) : Nat :=
  ctx % total

/-- `ctx & ~asid_mask` -/
def genOf (total ctx : Nat) : Nat :=
  ctx - ctx % total

/-- `bitmap_find_zero`: first clear bit of `[start, total)`, else of `[1, start)`,
else `total`. -/
def bitmapFindZero (total : Nat) (bitmap : Nat → Bool) (start : Nat) : Nat :=
  match (List.range' start (total - start)).find? fun i => !bitmap i with
  | some i => i
  | none =>
      match (List.range' 1 (start - 1)).find? fun b => !bitmap b with
      | some b => b
      | none => total

/-- Where a CPU is in `asid_switch`; `ctx`, `gen` and `old` are the local variables
already read. -/
inductive Pc (P : Type*)
  /-- Outside `asid_switch`, TTBR0 parked on the reserved table. -/
  | idle
  | readCtx (p : P) (ctx : Nat)
  | readGen (p : P) (ctx gen : Nat)
  | readActive (p : P) (ctx gen old : Nat)
  /-- Waiting for `asid_lock`. -/
  | slow (p : P)
  | locked (p : P)
  /-- Inside the rollover loop, about to drain CPU `c`. -/
  | flushing (p : P) (c : Nat)
  | flushed (p : P)
  /-- `p->asid_ctx` is current; about to test `tlb_pending`. -/
  | assigned (p : P) (ctx : Nat)
  | publish (p : P) (ctx : Nat)
  | unlock (p : P) (ctx : Nat)
  /-- At `fast_path`, about to write TTBR0. -/
  | load (p : P) (ctx : Nat)
  | running (p : P) (ctx : Nat)
  /-- Stopped at the 'pool exhausted after rollover' assertion. -/
  | panicked (p : P)

/-- The process a CPU is switching in or runs. -/
def Pc.proc {P : Type*} : Pc P → Option P
  | idle => none
  | readCtx p _ | readGen p _ _ | readActive p _ _ _ => some p
  | slow p | locked p | flushing p _ | flushed p => some p
  | assigned p _ | publish p _ | unlock p _ | load p _ | running p _ => some p
  | panicked p => some p

/-- The allocator's variables, the per-CPU slots, `p->asid_ctx` of every process,
and the hardware state of each CPU: TTBR0 (`none` when parked) and the TLB entries
of user translations with the process they belong to. -/
structure AsidState (ncpus : Nat) (P : Type*) where
  generation : Nat
  next : Nat
  bitmap : Nat → Bool
  tlbPending : Fin ncpus → Bool
  active : Fin ncpus → Nat
  reserved : Fin ncpus → Nat
  lock : Option (Fin ncpus)
  ctx : P → Nat
  used : P → Bool
  live : P → Bool
  pc : Fin ncpus → Pc P
  ttbr0 : Fin ncpus → Option (P × Nat)
  tlb : Fin ncpus → Set (Nat × P)

variable {ncpus : Nat} {P : Type*}

/-- `asid_init`, before the first process exists. -/
def asidInit (ncpus total : Nat) (P : Type*) : AsidState ncpus P where
  generation := total
  next := 1
  bitmap := Function.update (fun _ => false) 0 true
  tlbPending _ := false
  active _ := 0
  reserved _ := 0
  lock := none
  ctx _ := 0
  used _ := false
  live _ := false
  pc _ := .idle
  ttbr0 _ := none
  tlb _ := ∅

/-- `check_update_reserved_asid`: the reserved slots after the update, or `none`
when no slot holds `asid`. -/
def checkUpdateReservedAsid (reserved : Fin ncpus → Nat) (asid newasid : Nat) :
    Option (Fin ncpus → Nat) :=
  if ∃ c, reserved c = asid then
    some fun c => if reserved c = asid then newasid else reserved c
  else none

/-- What `new_context` leaves when it does not have to roll over. -/
structure NewContext (ncpus : Nat) where
  ctx : Nat
  reserved : Fin ncpus → Nat
  bitmap : Nat → Bool
  next : Nat

/-- Take the first clear bit from `asid_next` on, or `none` when the bitmap is
full. -/
def allotAsid (total generation next : Nat) (bitmap : Nat → Bool)
    (reserved : Fin ncpus → Nat) : Option (NewContext ncpus) :=
  let asid := bitmapFindZero total bitmap next
  if asid = total then none
  else some ⟨generation + asid, reserved, Function.update bitmap asid true, asid + 1⟩

/-- `new_context` up to the rollover: reuse a reserved number, keep a free one, or
allot a new one. -/
def newContext (total : Nat) (s : AsidState ncpus P) (p : P) :
    Option (NewContext ncpus) :=
  let old := s.ctx p
  let gen := s.generation
  let asid := asidOf total old
  if old = 0 then allotAsid total gen s.next s.bitmap s.reserved
  else
    match checkUpdateReservedAsid s.reserved old (gen + asid) with
    | some reserved => some ⟨gen + asid, reserved, s.bitmap, s.next⟩
    | none =>
        if s.bitmap asid = false then
          some ⟨gen + asid, s.reserved, Function.update s.bitmap asid true, s.next⟩
        else allotAsid total gen s.next s.bitmap s.reserved

/-- The context that a rollover keeps for a CPU: the active one, or what is left of
the last one on an idle CPU. -/
def drained (s : AsidState ncpus P) (c : Fin ncpus) : Nat :=
  if s.active c = 0 then s.reserved c else s.active c

/-- One round of the loop of `flush_context`. -/
def flushCpu (total : Nat) (s : AsidState ncpus P) (c : Fin ncpus) : AsidState ncpus P :=
  let asid := drained s c
  { s with
    active := Function.update s.active c 0
    reserved := Function.update s.reserved c asid
    bitmap := if asid = 0 then s.bitmap
      else Function.update s.bitmap (asidOf total asid) true }

/-- The end of `flush_context`: every CPU owes a flush, the generation advances. -/
def flushEnd (total : Nat) (s : AsidState ncpus P) : AsidState ncpus P :=
  { s with
    tlbPending := fun _ => true
    generation := s.generation + total
    next := 1 }

def AsidState.goto (s : AsidState ncpus P) (c : Fin ncpus) (pc : Pc P) :
    AsidState ncpus P :=
  { s with pc := Function.update s.pc c pc }

variable [DecidableEq P]

/-- The context found by `new_context` becomes that of `p`. -/
def AsidState.assign (s : AsidState ncpus P) (p : P) (new : NewContext ncpus) :
    AsidState ncpus P :=
  { s with
    ctx := Function.update s.ctx p new.ctx
    reserved := new.reserved
    bitmap := new.bitmap
    next := new.next }

/-- One atomic step of some CPU, of the table walker, or of process creation and
death. -/
inductive AsidStep (total : Nat) (s : AsidState ncpus P) : AsidState ncpus P → Prop
  | create (p : P) (fresh : s.used p = false) :
      AsidStep total s
        { s with
          used := Function.update s.used p true
          live := Function.update s.live p true
          ctx := Function.update s.ctx p 0 }
  | die (p : P) (alive : s.live p = true) :
      AsidStep total s { s with live := Function.update s.live p false }
  | enter (c : Fin ncpus) (p : P) (at_ : s.pc c = .idle) (alive : s.live p = true)
      (alone : ∀ d, (s.pc d).proc ≠ some p) :
      AsidStep total s (s.goto c (.readCtx p (s.ctx p)))
  | readGen (c : Fin ncpus) {p ctx} (at_ : s.pc c = .readCtx p ctx) :
      AsidStep total s (s.goto c (.readGen p ctx s.generation))
  | readActive (c : Fin ncpus) {p ctx gen} (at_ : s.pc c = .readGen p ctx gen) :
      AsidStep total s (s.goto c (.readActive p ctx gen (s.active c)))
  | fastPath (c : Fin ncpus) {p ctx gen old} (at_ : s.pc c = .readActive p ctx gen old)
      (nonzero : old ≠ 0) (current : genOf total ctx = genOf total gen)
      (exchanged : s.active c = old) :
      AsidStep total s
        ({ s with active := Function.update s.active c ctx }.goto c (.load p ctx))
  | slowPath (c : Fin ncpus) {p ctx gen old} (at_ : s.pc c = .readActive p ctx gen old)
      (refused : ¬ (old ≠ 0 ∧ genOf total ctx = genOf total gen ∧ s.active c = old)) :
      AsidStep total s (s.goto c (.slow p))
  | acquire (c : Fin ncpus) {p} (at_ : s.pc c = .slow p) (free : s.lock = none) :
      AsidStep total s ({ s with lock := some c }.goto c (.locked p))
  | keep (c : Fin ncpus) {p} (at_ : s.pc c = .locked p)
      (current : genOf total (s.ctx p) = s.generation) :
      AsidStep total s (s.goto c (.assigned p (s.ctx p)))
  | renew (c : Fin ncpus) {p new} (at_ : s.pc c = .locked p)
      (stale : genOf total (s.ctx p) ≠ s.generation)
      (assigned : newContext total s p = some new) :
      AsidStep total s ((s.assign p new).goto c (.assigned p new.ctx))
  | rollover (c : Fin ncpus) {p} (at_ : s.pc c = .locked p)
      (stale : genOf total (s.ctx p) ≠ s.generation) (full : newContext total s p = none) :
      AsidStep total s
        ({ s with bitmap := Function.update (fun _ => false) 0 true }.goto c
          (.flushing p 0))
  | drain (c : Fin ncpus) {p} (d : Fin ncpus) (at_ : s.pc c = .flushing p d) :
      AsidStep total s ((flushCpu total s d).goto c (.flushing p (d + 1)))
  | advance (c : Fin ncpus) {p} (at_ : s.pc c = .flushing p ncpus) :
      AsidStep total s ((flushEnd total s).goto c (.flushed p))
  | allot (c : Fin ncpus) {p new} (at_ : s.pc c = .flushed p)
      (allotted : allotAsid total s.generation 1 s.bitmap s.reserved = some new) :
      AsidStep total s ((s.assign p new).goto c (.assigned p new.ctx))
  | exhausted (c : Fin ncpus) {p} (at_ : s.pc c = .flushed p)
      (full : allotAsid total s.generation 1 s.bitmap s.reserved = none) :
      AsidStep total s (s.goto c (.panicked p))
  | tlbi (c : Fin ncpus) {p ctx} (at_ : s.pc c = .assigned p ctx)
      (owed : s.tlbPending c = true) :
      AsidStep total s
        ({ s with
            tlbPending := Function.update s.tlbPending c false
            tlb := Function.update s.tlb c ∅ }.goto c (.publish p ctx))
  | noTlbi (c : Fin ncpus) {p ctx} (at_ : s.pc c = .assigned p ctx)
      (clean : s.tlbPending c = false) :
      AsidStep total s (s.goto c (.publish p ctx))
  | publish (c : Fin ncpus) {p ctx} (at_ : s.pc c = .publish p ctx) :
      AsidStep total s
        ({ s with active := Function.update s.active c ctx }.goto c (.unlock p ctx))
  | release (c : Fin ncpus) {p ctx} (at_ : s.pc c = .unlock p ctx) :
      AsidStep total s ({ s with lock := none }.goto c (.load p ctx))
  | load (c : Fin ncpus) {p ctx} (at_ : s.pc c = .load p ctx) :
      AsidStep total s
        ({ s with ttbr0 := Function.update s.ttbr0 c (some (p, asidOf total ctx)) }.goto c
          (.running p ctx))
  | park (c : Fin ncpus) {p ctx} (at_ : s.pc c = .running p ctx) :
      AsidStep total s
        ({ s with ttbr0 := Function.update s.ttbr0 c none }.goto c .idle)
  | fill (c : Fin ncpus) {p asid} (loaded : s.ttbr0 c = some (p, asid)) :
      AsidStep total s
        { s with tlb := Function.update s.tlb c (insert (asid, p) (s.tlb c)) }

/-- States reached from boot under any interleaving, with `2 ^ bits` ASIDs. -/
def AsidReachable (bits : Nat) (s : AsidState ncpus P) : Prop :=
  TransitionSystem.Reachable (· = asidInit ncpus (2 ^ bits) P) (AsidStep (2 ^ bits)) s

end Asid

end Av6
