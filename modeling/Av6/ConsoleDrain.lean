import Av6.ConsoleOutput
import Mathlib.Algebra.GroupWithZero.Nat

/-!
# The drain is ordered and accounts for every loss

Whatever happens to the log between the steps of a drain, a record that has been rendered
was final and never changes again, so that the port shows each number at most once and in
order, and `cons_seq` counts what was rendered and what was reported as dropped.
-/

namespace Av6

namespace Console

open Kmsg LogQueue

variable {T : Type*}

/-- The records that drains have rendered, oldest first. -/
def renderings (port : List PortEvent) : List (KmsgDesc × List Byte) :=
  port.filterMap fun event =>
    match event with
    | .rendered d text => some (d, text)
    | _ => none

/-- The counts of all `messages dropped` lines. -/
def drops (port : List PortEvent) : List Nat :=
  port.filterMap fun event =>
    match event with
    | .dropped count => some count
    | _ => none

@[simp]
theorem renderings_append (port more : List PortEvent) :
    renderings (port ++ more) = renderings port ++ renderings more :=
  List.filterMap_append

@[simp]
theorem drops_append (port more : List PortEvent) :
    drops (port ++ more) = drops port ++ drops more :=
  List.filterMap_append

@[simp]
theorem renderings_rendered (d : KmsgDesc) (text : List Byte) :
    renderings [.rendered d text] = [(d, text)] ∧ drops [.rendered d text] = [] :=
  ⟨rfl, rfl⟩

@[simp]
theorem renderings_dropped (count : Nat) :
    renderings [.dropped count] = [] ∧ drops [.dropped count] = [count] :=
  ⟨rfl, rfl⟩

@[simp]
theorem renderings_replayed (d : KmsgDesc) (text : List Byte) :
    renderings [.replayed d text] = [] ∧ drops [.replayed d text] = [] :=
  ⟨rfl, rfl⟩

/-- The records are in the order of their numbers, and no number occurs twice. -/
def Increasing (records : List (KmsgDesc × List Byte)) : Prop :=
  (records.map fun record => record.1.seq).Pairwise (· < ·)

theorem Increasing.concat {records : List (KmsgDesc × List Byte)}
    {record : KmsgDesc × List Byte} (increasing : Increasing records)
    (behind : ∀ earlier ∈ records, earlier.1.seq < record.1.seq) :
    Increasing (records ++ [record]) := by
  unfold Increasing at *
  rw [List.map_append, List.pairwise_append]
  refine ⟨increasing, by simp, ?_⟩
  intro earlier member last isLast
  obtain ⟨e, mem, rfl⟩ := List.mem_map.mp member
  obtain rfl : last = record.1.seq := by simpa using isLast
  exact behind e mem

/-- What was read is final, and is what the log holds under its number as long as it holds
anything there. -/
def Shown (q : LogQueue) (record : KmsgDesc × List Byte) : Prop :=
  ∃ r pos, Settled q record.1.seq r pos ∧ record = (r.describe record.1.seq pos, r.text)

theorem shown_of_read {s : KmsgState} {q : LogQueue} {seq : Nat} {d : KmsgDesc}
    {text : List Byte} (rep : Represents s q) (valid : q.Valid)
    (found : kmsgRead s seq = some (d, text)) : d.seq = seq ∧ Shown q (d, text) := by
  rw [rep.read valid] at found
  obtain ⟨r, read, same⟩ := Option.map_eq_some_iff.mp found
  cases same
  exact ⟨rfl, r, q.position seq, .of_read read, rfl⟩

theorem Shown.seq_lt {q : LogQueue} {record : KmsgDesc × List Byte} (shown : Shown q record) :
    record.1.seq < q.next := by
  obtain ⟨r, pos, settled, -⟩ := shown
  exact settled.seq_lt

/-- A shown record is final, and reading it again gives the same unless it is gone. -/
theorem Shown.read {s : KmsgState} {q : LogQueue} {d : KmsgDesc} {text : List Byte}
    (shown : Shown q (d, text)) (rep : Represents s q) (valid : q.Valid) :
    d.isFinal = true ∧
      (kmsgRead s d.seq = some (d, text) ∨ d.seq < kmsgFirstSeq s) := by
  obtain ⟨r, pos, settled, same⟩ := shown
  obtain ⟨described, rfl⟩ := Prod.mk.injEq .. ▸ same
  constructor
  · rw [described, isFinal_describe]
    exact settled.final
  · rw [kmsgFirstSeq_eq rep, rep.read valid]
    by_cases retired : d.seq < q.first
    · exact Or.inr retired
    · obtain ⟨held, position⟩ := settled.held (Nat.le_of_not_lt retired)
      left
      have read : q.read d.seq = some r := by
        rw [LogQueue.read, if_neg retired, held]
        simp [Option.filter, settled.final]
      rw [read, Option.map_some, position, ← described]

/-- What a thread knows at its position; the variables of others do not change under its
lock. -/
def OutPc.Ok (q : LogQueue) (consSeq : Nat) (replay : ReplayRecord) : OutPc → Prop
  | .drainRender _ d text => d.seq = consSeq ∧ Shown q (d, text)
  | .replayFirst | .replayNext _ => replay.consSeq = consSeq ∧ replay.shown = []
  | .replayLoop seq _ | .replayMissed seq _ =>
      replay.consSeq = consSeq ∧ ∀ record ∈ replay.shown, record.1.seq < seq
  | .replayRender seq _ d text =>
      replay.consSeq = consSeq ∧ (∀ record ∈ replay.shown, record.1.seq < seq) ∧
        d.seq = seq ∧ Shown q (d, text)
  | .replayed => replay.consSeq = consSeq
  | _ => True

theorem OutPc.ok_of_unlocked {q : LogQueue} {consSeq : Nat} {replay : ReplayRecord} {pc : OutPc}
    (unlocked : pc.locked = false) : pc.Ok q consSeq replay := by
  cases pc with
  | idle => trivial
  | printk call => trivial
  | flushUpto seq => trivial
  | flush => trivial
  | replay => trivial
  | _ => simp [OutPc.locked] at unlocked

theorem OutPc.Ok.mono {q q' : LogQueue} {consSeq : Nat} {replay : ReplayRecord} {pc : OutPc}
    (keeps : ∀ record, Shown q record → Shown q' record) (ok : pc.Ok q consSeq replay) :
    pc.Ok q' consSeq replay := by
  cases pc with
  | drainRender stop d text => exact ⟨ok.1, keeps _ ok.2⟩
  | replayRender seq last d text => exact ⟨ok.1, ok.2.1, ok.2.2.1, keeps _ ok.2.2.2⟩
  | _ => exact ok

theorem OutPc.Ok.consSeq_eq {q : LogQueue} {consSeq : Nat} {replay : ReplayRecord} {pc : OutPc}
    (ok : pc.Ok q consSeq replay) (replaying : pc.replaying = true) :
    replay.consSeq = consSeq := by
  cases pc with
  | replayFirst => exact ok.1
  | replayNext seq => exact ok.1
  | replayLoop seq last => exact ok.1
  | replayMissed seq last => exact ok.1
  | replayRender seq last d text => exact ok.1
  | replayed => exact ok
  | _ => simp [OutPc.replaying] at replaying

/-- The invariant, for a log that represents `q`. -/
structure DrainOk (s : OutState T) (q : LogQueue) : Prop where
  logged : Logged s.log q
  lock : ∀ t, (s.pc t).locked = true ↔ s.outLock = some t
  seq_le : s.consSeq ≤ q.next
  counted : s.consSeq = (renderings s.port).length + (drops s.port).sum
  ordered : Increasing (renderings s.port)
  below : ∀ record ∈ renderings s.port, record.1.seq < s.consSeq
  shown : ∀ record ∈ renderings s.port, Shown q record
  pc : ∀ t, (s.pc t).Ok q s.consSeq (s.replays t)
  replays : ∀ t, Increasing (s.replays t).shown ∧
    ∀ record ∈ (s.replays t).shown, Shown q record

theorem DrainOk.rep {s : OutState T} {q : LogQueue} (ok : DrainOk s q) :
    Represents s.log.1 q :=
  ok.logged.rep

/-- Only one thread is at a position with the lock. -/
theorem DrainOk.others {s : OutState T} {q : LogQueue} (ok : DrainOk s q) {t u : T}
    (held : (s.pc t).locked = true) (other : u ≠ t) : (s.pc u).locked = false := by
  cases at_ : (s.pc u).locked with
  | false => rfl
  | true =>
      have first := (ok.lock t).mp held
      have second := (ok.lock u).mp at_
      rw [first] at second
      exact absurd (Option.some.inj second).symm other

theorem outInit_ok : DrainOk (outInit T) LogQueue.empty where
  logged := logged_init
  lock := by simp [outInit, OutPc.locked]
  seq_le := Nat.zero_le _
  counted := rfl
  ordered := List.Pairwise.nil
  below := by simp [outInit, renderings]
  shown := by simp [outInit, renderings]
  pc _ := trivial
  replays _ := ⟨List.Pairwise.nil, by simp [outInit]⟩

/-- The variables that the invariant does not mention. -/
theorem DrainOk.congr {s : OutState T} {q : LogQueue} (ok : DrainOk s q)
    (stages : Nat → Nat → Byte) (printed : T → Option (PrintkCall × Option Nat)) :
    DrainOk { s with stages := stages, printed := printed } q where
  logged := ok.logged
  lock := ok.lock
  seq_le := ok.seq_le
  counted := ok.counted
  ordered := ok.ordered
  below := ok.below
  shown := ok.shown
  pc := ok.pc
  replays := ok.replays

/-- The log moves on by itself. -/
theorem DrainOk.log {s : OutState T} {q : LogQueue} (ok : DrainOk s q) (op : KmsgOp) :
    ∃ q', DrainOk { s with log := op.run s.log } q' := by
  obtain ⟨q', logged, next, keeps⟩ := ok.logged.step op
  have shown : ∀ record, Shown q record → Shown q' record := by
    intro record before
    obtain ⟨r, pos, settled, same⟩ := before
    exact ⟨r, pos, keeps _ _ _ settled, same⟩
  exact ⟨q', {
    logged := logged
    lock := ok.lock
    seq_le := Nat.le_trans ok.seq_le next
    counted := ok.counted
    ordered := ok.ordered
    below := ok.below
    shown := fun record member => shown record (ok.shown record member)
    pc := fun t => (ok.pc t).mono shown
    replays := fun t =>
      ⟨(ok.replays t).1, fun record member => shown record ((ok.replays t).2 record member)⟩ }⟩

variable [DecidableEq T]

/-- A step that changes nothing but the position of one thread, on the same side of the
lock. -/
theorem DrainOk.goto {s : OutState T} {q : LogQueue} (ok : DrainOk s q) {t : T} {pc : OutPc}
    (side : pc.locked = (s.pc t).locked) (holds : pc.Ok q s.consSeq (s.replays t)) :
    DrainOk (s.goto t pc) q where
  logged := ok.logged
  lock u := by
    by_cases here : u = t
    · subst here
      simp only [OutState.goto, Function.update_self, side]
      exact ok.lock u
    · simp only [OutState.goto, Function.update_of_ne here]
      exact ok.lock u
  seq_le := ok.seq_le
  counted := ok.counted
  ordered := ok.ordered
  below := ok.below
  shown := ok.shown
  pc u := by
    by_cases here : u = t
    · subst here
      simpa only [OutState.goto, Function.update_self] using holds
    · simpa only [OutState.goto, Function.update_of_ne here] using ok.pc u
  replays := ok.replays

/-- The lock is taken. -/
theorem DrainOk.acquire {s : OutState T} {q : LogQueue} (ok : DrainOk s q) (t : T) (pc : OutPc)
    (free : s.outLock = none) (replay : ReplayRecord) (locked : pc.locked = true)
    (holds : pc.Ok q s.consSeq replay) (increasing : Increasing replay.shown)
    (shown : ∀ record ∈ replay.shown, Shown q record) :
    DrainOk ({ s with
      outLock := some t
      replays := Function.update s.replays t replay }.goto t pc) q where
  logged := ok.logged
  lock u := by
    by_cases here : u = t
    · subst here
      simp [OutState.goto, locked]
    · have unlocked : (s.pc u).locked ≠ true := by
        intro held
        rw [(ok.lock u).mp held] at free
        cases free
      simp only [OutState.goto, Function.update_of_ne here]
      exact iff_of_false unlocked fun same => here (Option.some.inj same).symm
  seq_le := ok.seq_le
  counted := ok.counted
  ordered := ok.ordered
  below := ok.below
  shown := ok.shown
  pc u := by
    by_cases here : u = t
    · subst here
      simpa only [OutState.goto, Function.update_self] using holds
    · simpa only [OutState.goto, Function.update_of_ne here] using ok.pc u
  replays u := by
    by_cases here : u = t
    · subst here
      simp only [OutState.goto, Function.update_self]
      exact ⟨increasing, shown⟩
    · simp only [OutState.goto, Function.update_of_ne here]
      exact ok.replays u

/-- The lock is released. -/
theorem DrainOk.release {s : OutState T} {q : LogQueue} (ok : DrainOk s q) {t : T}
    (alone : ∀ u, u ≠ t → (s.pc u).locked = false) :
    DrainOk ({ s with outLock := none }.goto t .idle) q where
  logged := ok.logged
  lock u := by
    by_cases here : u = t
    · subst here
      simp [OutState.goto, OutPc.locked]
    · simp [OutState.goto, Function.update_of_ne here, alone u here]
  seq_le := ok.seq_le
  counted := ok.counted
  ordered := ok.ordered
  below := ok.below
  shown := ok.shown
  pc u := by
    by_cases here : u = t
    · subst here
      simp [OutState.goto, OutPc.Ok]
    · simpa only [OutState.goto, Function.update_of_ne here] using ok.pc u
  replays := ok.replays

/-- `cons_seq` advances under the lock, and the port shows why. -/
theorem DrainOk.advance {s : OutState T} {q : LogQueue} (ok : DrainOk s q) {t : T} {stop seq : Nat}
    {event : PortEvent} (held : (s.pc t).locked = true) (seq_le : seq ≤ q.next)
    (counted : seq = (renderings (s.port ++ [event])).length + (drops (s.port ++ [event])).sum)
    (grows : s.consSeq ≤ seq)
    (new : ∀ record ∈ renderings [event], record.1.seq = s.consSeq ∧ s.consSeq < seq ∧
      Shown q record)
    (ordered : Increasing (renderings (s.port ++ [event]))) :
    DrainOk ({ s with consSeq := seq, port := s.port ++ [event] }.goto t (.drain stop)) q where
  logged := ok.logged
  lock u := by
    by_cases here : u = t
    · subst here
      simp only [OutState.goto, Function.update_self]
      exact iff_of_true rfl ((ok.lock u).mp held)
    · simp only [OutState.goto, Function.update_of_ne here]
      exact ok.lock u
  seq_le := seq_le
  counted := counted
  ordered := ordered
  below record member := by
    simp only [OutState.goto, renderings_append, List.mem_append] at member
    rcases member with old | isNew
    · exact Nat.lt_of_lt_of_le (ok.below record old) grows
    · obtain ⟨same, less, -⟩ := new record isNew
      exact same ▸ less
  shown record member := by
    simp only [OutState.goto, renderings_append, List.mem_append] at member
    rcases member with old | isNew
    · exact ok.shown record old
    · exact (new record isNew).2.2
  pc u := by
    by_cases here : u = t
    · subst here
      simp [OutState.goto, OutPc.Ok]
    · simp only [OutState.goto, Function.update_of_ne here]
      exact OutPc.ok_of_unlocked (ok.others held here)
  replays := ok.replays

theorem DrainOk.render {s : OutState T} {q : LogQueue} (ok : DrainOk s q) {t : T} {stop : Nat}
    {d : KmsgDesc} {text : List Byte} (at_ : s.pc t = .drainRender stop d text) :
    DrainOk ((s.render d text).goto t (.drain stop)) q := by
  have held : (s.pc t).locked = true := by rw [at_]; rfl
  have known := ok.pc t
  rw [at_] at known
  obtain ⟨seq, shown⟩ := known
  have less := shown.seq_lt
  dsimp only at less
  apply ok.advance held
  · omega
  · have counted := ok.counted
    simp only [renderings_append, drops_append, renderings_rendered, List.length_append,
      List.length_singleton, List.append_nil]
    omega
  · exact Nat.le_succ _
  · intro record member
    simp only [renderings_rendered, List.mem_singleton] at member
    subst member
    exact ⟨seq, Nat.lt_succ_self _, shown⟩
  · rw [renderings_append, (renderings_rendered d text).1]
    apply ok.ordered.concat
    intro earlier member
    rw [seq]
    exact ok.below earlier member

theorem DrainOk.skipTo {s : OutState T} {q : LogQueue} (ok : DrainOk s q) {t : T} {stop : Nat}
    (at_ : s.pc t = .drainMissed stop) (behind : s.consSeq < kmsgFirstSeq s.log.1) :
    DrainOk ((s.skipTo (kmsgFirstSeq s.log.1)).goto t (.drain stop)) q := by
  have held : (s.pc t).locked = true := by rw [at_]; rfl
  have first := kmsgFirstSeq_eq ok.rep
  apply ok.advance held
  · rw [first, next]
    omega
  · have counted := ok.counted
    simp only [renderings_append, drops_append, renderings_dropped, List.append_nil,
      List.sum_append, List.sum_singleton]
    omega
  · omega
  · simp
  · rw [renderings_append, (renderings_dropped _).1, List.append_nil]
    exact ok.ordered

/-- A replay writes to the port and leaves the rest alone. -/
theorem DrainOk.display {s : OutState T} {q : LogQueue} (ok : DrainOk s q) {t : T}
    {seq last : Nat} {d : KmsgDesc} {text : List Byte}
    (at_ : s.pc t = .replayRender seq last d text) :
    DrainOk ((s.display t d text).goto t (.replayLoop (seq + 1) last)) q := by
  have known := ok.pc t
  rw [at_] at known
  obtain ⟨unchanged, before, rfl, shown⟩ := known
  exact {
    logged := ok.logged
    lock := by
      intro u
      by_cases here : u = t
      · subst here
        simp only [OutState.goto, Function.update_self]
        exact iff_of_true rfl ((ok.lock u).mp (by rw [at_]; rfl))
      · simp only [OutState.goto, Function.update_of_ne here]
        exact ok.lock u
    seq_le := ok.seq_le
    counted := by simpa [OutState.goto, OutState.display] using ok.counted
    ordered := by simpa [OutState.goto, OutState.display] using ok.ordered
    below := by simpa [OutState.goto, OutState.display] using ok.below
    shown := by simpa [OutState.goto, OutState.display] using ok.shown
    pc := by
      intro u
      by_cases here : u = t
      · subst here
        simp only [OutState.goto, OutState.display, Function.update_self, OutPc.Ok]
        refine ⟨unchanged, ?_⟩
        intro record member
        rcases List.mem_append.mp member with old | isNew
        · have := before record old
          omega
        · obtain rfl := List.mem_singleton.mp isNew
          exact Nat.lt_succ_self _
      · simpa only [OutState.goto, OutState.display, Function.update_of_ne here] using ok.pc u
    replays := by
      intro u
      by_cases here : u = t
      · subst here
        simp only [OutState.goto, OutState.display, Function.update_self]
        refine ⟨(ok.replays u).1.concat before, ?_⟩
        intro record member
        rcases List.mem_append.mp member with old | isNew
        · exact (ok.replays u).2 record old
        · obtain rfl := List.mem_singleton.mp isNew
          exact shown
      · simpa only [OutState.goto, OutState.display, Function.update_of_ne here] using
          ok.replays u }

theorem DrainOk.step {s s' : OutState T} {q : LogQueue} {t : T} (ok : DrainOk s q)
    (step : OutStep s t s') : ∃ q', DrainOk s' q' := by
  have unchanged : Function.update s.replays t (s.replays t) = s.replays :=
    Function.update_eq_self t s.replays
  cases step with
  | log op => exact ok.log op
  | callPrintk call at_ =>
      exact ⟨q, (ok.congr s.stages _).goto (by simp [at_, OutPc.locked]) trivial⟩
  | callFlushUpto seq at_ =>
      exact ⟨q, (ok.congr s.stages _).goto (by simp [at_, OutPc.locked]) trivial⟩
  | callFlush at_ =>
      exact ⟨q, (ok.congr s.stages _).goto (by simp [at_, OutPc.locked]) trivial⟩
  | callReplay at_ =>
      exact ⟨q, (ok.congr s.stages _).goto (by simp [at_, OutPc.locked]) trivial⟩
  | @print call at_ =>
      obtain ⟨q', logged⟩ := ok.log (.add (call.kmsgCall (s.stages call.cpuid)))
      refine ⟨q', (logged.congr _ _).goto ?_ ?_⟩
      · split <;> simp [at_, OutPc.locked]
      · split <;> trivial
  | @lockUpto seq at_ free =>
      have locked := ok.acquire t (.drain (seq + 1)) free (s.replays t) rfl trivial
        (ok.replays t).1 (ok.replays t).2
      rw [unchanged] at locked
      exact ⟨q, locked⟩
  | lockFlush at_ free =>
      have locked := ok.acquire t .flushLocked free (s.replays t) rfl trivial
        (ok.replays t).1 (ok.replays t).2
      rw [unchanged] at locked
      exact ⟨q, locked⟩
  | nextSeq at_ => exact ⟨q, ok.goto (by simp [at_, OutPc.locked]) trivial⟩
  | drainEnd at_ done => exact ⟨q, ok.goto (by simp [at_, OutPc.locked]) trivial⟩
  | drainRead at_ more found =>
      exact ⟨q, ok.goto (by simp [at_, OutPc.locked]) (shown_of_read ok.rep ok.logged.valid found)⟩
  | drainMiss at_ more missing => exact ⟨q, ok.goto (by simp [at_, OutPc.locked]) trivial⟩
  | render at_ => exact ⟨q, ok.render at_⟩
  | drainSkip at_ behind => exact ⟨q, ok.skipTo at_ behind⟩
  | drainBreak at_ held => exact ⟨q, ok.goto (by simp [at_, OutPc.locked]) trivial⟩
  | unlock at_ =>
      have held : (s.pc t).locked = true := by
        rcases at_ with at_ | at_ <;> rw [at_] <;> rfl
      exact ⟨q, ok.release fun u other => ok.others held other⟩
  | lockReplay at_ free =>
      exact ⟨q, ok.acquire _ _ free ⟨s.consSeq, []⟩ rfl ⟨rfl, rfl⟩ List.Pairwise.nil (by simp)⟩
  | replayFirst at_ =>
      have known := ok.pc t
      rw [at_] at known
      exact ⟨q, ok.goto (by simp [at_, OutPc.locked]) known⟩
  | replayNext at_ =>
      have known := ok.pc t
      rw [at_] at known
      refine ⟨q, ok.goto (by simp [at_, OutPc.locked]) ⟨known.1, ?_⟩⟩
      rw [known.2]
      simp
  | replayEnd at_ done =>
      have known := ok.pc t
      rw [at_] at known
      exact ⟨q, ok.goto (by simp [at_, OutPc.locked]) known.1⟩
  | replayRead at_ more found =>
      have known := ok.pc t
      rw [at_] at known
      exact ⟨q, ok.goto (by simp [at_, OutPc.locked])
        ⟨known.1, known.2, shown_of_read ok.rep ok.logged.valid found⟩⟩
  | replayMiss at_ more missing =>
      have known := ok.pc t
      rw [at_] at known
      exact ⟨q, ok.goto (by simp [at_, OutPc.locked]) known⟩
  | replayRender at_ => exact ⟨q, ok.display at_⟩
  | replaySkip at_ behind =>
      have known := ok.pc t
      rw [at_] at known
      refine ⟨q, ok.goto (by simp [at_, OutPc.locked]) ⟨known.1, ?_⟩⟩
      intro record member
      exact Nat.lt_trans (known.2 record member) behind
  | replayBreak at_ held =>
      have known := ok.pc t
      rw [at_] at known
      exact ⟨q, ok.goto (by simp [at_, OutPc.locked]) known.1⟩
  | panic parked => exact ⟨q, (ok.congr s.stages (Function.update s.printed t none)).release parked⟩

theorem drainOk_of_reachable {s : OutState T} (reached : OutReachable s) :
    ∃ q, DrainOk s q := by
  apply TransitionSystem.Reachable.invariant (I := fun s => ∃ q, DrainOk s q) ?_ ?_ reached
  · intro s start
    rw [start]
    exact ⟨_, outInit_ok⟩
  · intro s s' _ holds stepped
    obtain ⟨q, ok⟩ := holds
    obtain ⟨t, step⟩ := stepped
    exact ok.step step

/-- The drains render final records in the order of their numbers, each at most once, and
`cons_seq` is the number of records rendered and dropped; a replay renders held records in
order and does not move `cons_seq`. -/
theorem console_drain_accounts {s : OutState T} (reached : OutReachable s) :
    Increasing (renderings s.port) ∧
      (∀ d text, (d, text) ∈ renderings s.port → d.isFinal = true ∧
        (kmsgRead s.log.1 d.seq = some (d, text) ∨ d.seq < kmsgFirstSeq s.log.1)) ∧
      s.consSeq = (renderings s.port).length + (drops s.port).sum ∧
      (∀ t, (s.pc t).replaying = true → (s.replays t).consSeq = s.consSeq) ∧
      ∀ t, Increasing (s.replays t).shown ∧
        ∀ d text, (d, text) ∈ (s.replays t).shown → d.isFinal = true ∧
          (kmsgRead s.log.1 d.seq = some (d, text) ∨ d.seq < kmsgFirstSeq s.log.1) := by
  obtain ⟨q, ok⟩ := drainOk_of_reachable reached
  refine ⟨ok.ordered, ?_, ok.counted, ?_, ?_⟩
  · intro d text member
    exact (ok.shown _ member).read ok.rep ok.logged.valid
  · intro t replaying
    exact (ok.pc t).consSeq_eq replaying
  · intro t
    refine ⟨(ok.replays t).1, ?_⟩
    intro d text member
    exact ((ok.replays t).2 _ member).read ok.rep ok.logged.valid

/-- A call of `printk("A\n")` on the first CPU. -/
def shortCall : PrintkCall :=
  ⟨0, none, KERN_INFO, literal ['A', '\n'], ⟨[], fun _ => []⟩, 0⟩

/-- The line goes out, and is replayed. -/
theorem exists_rendered : ∃ s : OutState Unit, OutReachable s ∧
    (renderings s.port).map (fun record => record.1.seq) = [0] ∧
      ((s.replays ()).shown.map fun record => record.1.seq) = [0] ∧
        (s.pc ()).replaying = true := by
  have boot : OutReachable (outInit Unit) := .start rfl
  have called := boot.next ⟨(), .callPrintk shortCall rfl⟩
  have added := called.next ⟨(), .print rfl⟩
  have locked := added.next ⟨(), .lockUpto rfl rfl⟩
  have found := locked.next ⟨(), .drainRead rfl (by decide) rfl⟩
  have rendered := found.next ⟨(), .render rfl⟩
  have drained := rendered.next ⟨(), .drainEnd rfl (by decide)⟩
  have released := drained.next ⟨(), .unlock (Or.inl rfl)⟩
  have again := released.next ⟨(), .callReplay rfl⟩
  have relocked := again.next ⟨(), .lockReplay rfl rfl⟩
  have first := relocked.next ⟨(), .replayFirst rfl⟩
  have next := first.next ⟨(), .replayNext rfl⟩
  have reread := next.next ⟨(), .replayRead rfl (by decide) rfl⟩
  have shown := reread.next ⟨(), .replayRender rfl⟩
  exact ⟨_, shown, rfl, rfl, rfl⟩

theorem console_drain_accounts_rendered : ∃ s : OutState Unit, OutReachable s ∧
    (renderings s.port).length = 1 ∧ s.consSeq = 1 + (drops s.port).sum ∧
      (s.replays ()).consSeq = s.consSeq := by
  obtain ⟨s, reached, rendered, -, replaying⟩ := exists_rendered
  have accounts := console_drain_accounts reached
  have one : (renderings s.port).length = 1 := by simpa using congrArg List.length rendered
  refine ⟨s, reached, one, ?_, accounts.2.2.2.1 () replaying⟩
  rw [← one]
  exact accounts.2.2.1

end Console

end Av6
