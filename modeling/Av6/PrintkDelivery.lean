import Av6.ConsoleDrain

/-!
# printk delivers lines that fit a record

A line shorter than a record is stored whole, so that its newline closes the record and the
flush of `vprintk` gets past it.  Of a longer line `vsnprintf` leaves a zero byte at the end
of the buffer, the record stays open, and the flush stops in front of it.
-/

namespace Av6

namespace Console

open Kmsg LogQueue
open Fmt hiding Byte

variable {T : Type*}

/-- The number of bytes that `kmsg_add` keeps of a call of `vprintk`. -/
def PrintkCall.kept (call : PrintkCall) : Nat :=
  (call.kmsgCall fun _ => 0).kept

theorem kept_kmsgCall (call : PrintkCall) (stage : Nat → Byte) :
    (call.kmsgCall stage).kept = call.kept := by
  unfold PrintkCall.kept PrintkCall.kmsgCall KmsgCall.kept
  simp only [vsnprintf_result]

/-- A text shorter than a record is stored as it is. -/
theorem kept_of_short {call : PrintkCall} (short : call.text.length < KMSG_RECORD_MAX) :
    call.kept = call.text.length := by
  have result := vsnprintf_result KMSG_RECORD_MAX call.format call.arglist fun _ => 0
  change _ = (BitVec.ofNat 32 call.text.length).toInt at result
  have number : (BitVec.ofNat 32 call.text.length).toInt = call.text.length := by
    unfold KMSG_RECORD_MAX at short
    rw [BitVec.toInt_ofNat']
    simp only [Int.bmod]
    omega
  have fits : ¬ ((call.text.length : Int) > (KMSG_RECORD_MAX : Nat)) := by omega
  have small : (BitVec.ofInt 16 call.text.length).toNat = call.text.length := by
    unfold KMSG_RECORD_MAX at short
    rw [BitVec.toNat_ofInt]
    omega
  unfold PrintkCall.kept PrintkCall.kmsgCall KmsgCall.kept
  simp only [result, number, if_neg fits, small]
  exact if_neg (by omega)

theorem bytes_of_short {call : PrintkCall} (stage : Nat → Byte)
    (short : call.text.length < KMSG_RECORD_MAX) : (call.kmsgCall stage).bytes = call.text := by
  apply List.ext_getElem
  · rw [bytes_length, kept_kmsgCall, kept_of_short short]
  · intro i inBytes inText
    have room : i + 1 < KMSG_RECORD_MAX := by omega
    simp only [KmsgCall.bytes, List.getElem_map, List.getElem_range]
    exact vsnprintf_text call.format call.arglist stage inText room

/-- What is stored of a longer text does not end in its newline. -/
theorem text_of_long {call : PrintkCall} (stage : Nat → Byte)
    (long : KMSG_RECORD_MAX ≤ call.text.length) :
    (call.kmsgCall stage).text (KMSG_RECORD_MAX - 1) = 0 :=
  vsnprintf_cut call.format call.arglist stage (by decide) long

/-- Record `seq` has been closed, with `text` at its end; it may have been retired since. -/
def Finished (log : KmsgState) (seq : Nat) (text : List Byte) : Prop :=
  seq < kmsgNextSeq log ∧
    (seq < kmsgFirstSeq log ∨ ∃ d bytes, kmsgRead log seq = some (d, bytes) ∧ text <:+ bytes)

/-- The text of the call, or as much of it as one record takes, is in a record that is final,
and `cons_seq` is past this record. -/
def Delivered (s : OutState T) (call : PrintkCall) (result : Option Nat) : Prop :=
  call.kept = min call.text.length KMSG_RECORD_MAX ∧
    ∃ seq, result = some seq ∧ Finished s.log.1 seq (call.text.take (KMSG_RECORD_MAX - 1)) ∧
      seq < s.consSeq

section Log

variable {state : KmsgState × History} {q : LogQueue} {seq : Nat} {text : List Byte}

theorem Adds.first_le {q q' : LogQueue} {call : KmsgCall} {result : Option Nat}
    (adds : Adds q call result q') : q.first ≤ q'.first := by
  cases adds with
  | nothing => exact Nat.le_refl _
  | continued => exact Nat.le_refl _
  | starts text count => exact Nat.le_add_right _ count

theorem Logged.firstSeq_le (logged : Logged state q) (op : KmsgOp) :
    kmsgFirstSeq state.1 ≤ kmsgFirstSeq (op.run state).1 := by
  rw [kmsgFirstSeq_eq logged.rep]
  cases op with
  | add call =>
      obtain ⟨-, q', adds, rep⟩ := logged.rep.add logged.idle logged.valid call
      simp only [KmsgOp.run]
      rw [kmsgFirstSeq_eq rep]
      exact Adds.first_le adds
  | finalize =>
      simp only [KmsgOp.run, kmsgFinalize]
      rw [kmsgFirstSeq_eq (logged.rep.closeLast logged.valid)]
      exact Nat.le_refl _

/-- A closed record stays as it is. -/
theorem Finished.run (finished : Finished state.1 seq text) (logged : Logged state q)
    (op : KmsgOp) : Finished (op.run state).1 seq text := by
  obtain ⟨less, retired | ⟨d, bytes, found, suffix⟩⟩ := finished
  · obtain ⟨q', logged', next, -⟩ := logged.step op
    have first := Logged.firstSeq_le logged op
    refine ⟨?_, Or.inl (by omega)⟩
    rw [kmsgNextSeq, logged.rep.nextSeq_eq] at less
    rw [kmsgNextSeq, logged'.rep.nextSeq_eq]
    omega
  · obtain ⟨rfl, shown⟩ := shown_of_read logged.rep logged.valid found
    obtain ⟨q', logged', next, keeps⟩ := logged.step op
    obtain ⟨r, pos, settled, same⟩ := shown
    have later : Shown q' (d, bytes) := ⟨r, pos, keeps _ _ _ settled, same⟩
    constructor
    · rw [kmsgNextSeq, logged'.rep.nextSeq_eq]
      exact later.seq_lt
    · rcases (later.read logged'.rep logged'.valid).2 with again | gone
      · exact Or.inr ⟨d, bytes, again, suffix⟩
      · exact Or.inl gone

/-- Up to a closed record, nothing but retirement hides a record from a reader. -/
theorem first_of_missing {k : Nat} (finished : Finished state.1 seq text)
    (logged : Logged state q) (upto : k ≤ seq) (missing : kmsgRead state.1 k = none) :
    k < kmsgFirstSeq state.1 := by
  obtain ⟨less, closed⟩ := finished
  rw [kmsgNextSeq, logged.rep.nextSeq_eq, next] at less
  by_contra held
  rw [kmsgFirstSeq_eq logged.rep] at held closed
  rcases Nat.lt_or_eq_of_le upto with before | rfl
  · have bound : k - q.first < q.records.length := by omega
    have final := logged.valid.closed q.records[k - q.first] (by
      rw [List.dropLast_eq_take]
      apply List.mem_take_iff_getElem.mpr
      exact ⟨k - q.first, by omega, rfl⟩)
    rw [logged.rep.read logged.valid, LogQueue.read, if_neg held,
      List.getElem?_eq_getElem bound] at missing
    simp [Option.filter, final] at missing
  · rcases closed with retired | ⟨d, bytes, found, -⟩
    · exact held retired
    · rw [found] at missing
      cases missing

/-- The `kmsg_add` of a short line closes the record that it returns. -/
theorem finished_of_add {call : PrintkCall} (stage : Nat → Byte) (logged : Logged state q)
    (line : endsLine call.text = true) (short : call.text.length < KMSG_RECORD_MAX) :
    ∃ seq, (kmsgAdd (call.kmsgCall stage) state.1).1 = some seq ∧
      Finished (kmsgAdd (call.kmsgCall stage) state.1).2 seq call.text := by
  have bytes := bytes_of_short stage short
  have kept := (kept_kmsgCall call stage).trans (kept_of_short short)
  obtain ⟨-, q', adds, rep⟩ := logged.rep.add logged.idle logged.valid (call.kmsgCall stage)
  have valid := adds.valid logged.valid
  -- In both cases the record is the newest one, and final.
  have newest : ∀ r older, q'.records = older ++ [r] → r.final = true → call.text <:+ r.text →
      Finished (kmsgAdd (call.kmsgCall stage) state.1).2 (q'.next - 1) call.text := by
    intro r older held final suffix
    have index : q'.next - 1 - q'.first = older.length := by
      simp only [next, held, List.length_append, List.length_singleton]
      omega
    have behind : ¬ q'.next - 1 < q'.first := by
      simp only [next, held, List.length_append, List.length_singleton]
      omega
    constructor
    · rw [kmsgNextSeq, rep.nextSeq_eq]
      simp only [next, held, List.length_append, List.length_singleton]
      omega
    · right
      rw [rep.read valid, LogQueue.read, if_neg behind, index, held]
      simp only [List.getElem?_concat_length, Option.filter, final, if_true, Option.map_some]
      exact ⟨_, _, rfl, suffix⟩
  generalize kmsgAdd (call.kmsgCall stage) state.1 = added at adds newest rep ⊢
  obtain ⟨result, after⟩ := added
  cases adds with
  | nothing noText =>
      rw [kept] at noText
      rw [List.length_eq_zero_iff.mp noText] at line
      cases line
  | continued text cont continues =>
      rcases modifyLast_cases q.records (·.extend (call.kmsgCall stage).bytes) with
        ⟨none, _⟩ | ⟨older, r, _, same⟩
      · obtain ⟨last, found, -⟩ := continues
        simp [none] at found
      · have atEnd := newest (r.extend (call.kmsgCall stage).bytes) older same
          (by simp [Record.extend, bytes, line]) (by simp [Record.extend, bytes])
        simp only [LogQueue.extendLast, next, length_modifyLast] at atEnd
        exact ⟨_, rfl, atEnd⟩
  | starts text count refused crowded room =>
      have held := next_retire (le_length_of_crowded (kept_le_textsz _) crowded)
      have atEnd := newest (call.kmsgCall stage).record _ rfl
        (by simp [KmsgCall.record, bytes, line]) (by simp [KmsgCall.record, bytes])
      simp only [LogQueue.push, next, List.length_append, List.length_singleton] at atEnd held
      refine ⟨_, rfl, ?_⟩
      have same : q.next = (q.closeLast.retire count).first +
          ((q.closeLast.retire count).records.length + 1) - 1 := by
        have closed := next_closeLast q
        simp only [next] at closed ⊢
        omega
      rw [same]
      exact atEnd

/-- The `kmsg_add` of a long line leaves the record open that it starts. -/
theorem open_of_add {call : PrintkCall} (stage : Nat → Byte) (logged : Logged state q)
    (long : KMSG_RECORD_MAX ≤ call.text.length) (full : call.kept = KMSG_RECORD_MAX) :
    (kmsgAdd (call.kmsgCall stage) state.1).1 = some q.next ∧
      kmsgRead (kmsgAdd (call.kmsgCall stage) state.1).2 q.next = none ∧
      kmsgFirstSeq (kmsgAdd (call.kmsgCall stage) state.1).2 ≤ q.next := by
  have kept := (kept_kmsgCall call stage).trans full
  have cut := text_of_long stage long
  have open_ : endsLine (call.kmsgCall stage).bytes = false := by
    rw [KmsgCall.bytes, kept, endsLine_map_range _ (by decide), cut]
    decide
  obtain ⟨-, q', adds, rep⟩ := logged.rep.add logged.idle logged.valid (call.kmsgCall stage)
  have valid := adds.valid logged.valid
  generalize kmsgAdd (call.kmsgCall stage) state.1 = added at adds rep ⊢
  obtain ⟨result, after⟩ := added
  dsimp only at rep ⊢
  rw [rep.read valid, kmsgFirstSeq_eq rep]
  cases adds with
  | nothing noText =>
      rw [kept] at noText
      exact absurd noText (by decide)
  | continued text cont continues =>
      obtain ⟨r, last, -, -, fits, -⟩ := continues
      have positive := logged.valid.text_pos r (List.mem_of_getLast? last)
      rw [bytes_length, kept] at fits
      omega
  | starts text count refused crowded room =>
      have held := next_retire (le_length_of_crowded (kept_le_textsz _) crowded)
      rw [next_closeLast] at held
      have index : q.next - (q.closeLast.retire count).first =
          (q.closeLast.retire count).records.length := by
        rw [← held, next]
        omega
      refine ⟨rfl, ?_, ?_⟩
      · rw [LogQueue.read]
        split
        · rfl
        · simp only [LogQueue.push, index, List.getElem?_concat_length, Option.filter,
            KmsgCall.record, open_]
          rfl
      · simp only [LogQueue.push]
        rw [← held, next]
        omega

end Log

/-- How far a thread has come that flushes the log up to `seq` for `vprintk`. -/
def OutPc.Flushing (consSeq first seq : Nat) : OutPc → Prop
  | .flushUpto upto => upto = seq
  | .drain stop | .drainRender stop _ _ => stop = seq + 1
  | .drainMissed stop => stop = seq + 1 ∧ consSeq < first
  | .drained | .idle => seq < consSeq
  | _ => False

/-- A call of `vprintk` with a line that fits a record is on its way, or has returned. -/
def PrintOk (s : OutState T) (t : T) : Prop :=
  ∀ call result, s.printed t = some (call, result) → endsLine call.text = true →
    call.text.length < KMSG_RECORD_MAX →
    ∃ seq, result = some seq ∧ Finished s.log.1 seq call.text ∧
      (s.pc t).Flushing s.consSeq (kmsgFirstSeq s.log.1) seq

/-- Other threads and the log move on; `cons_seq` stands still under the lock. -/
theorem PrintOk.frame {s s' : OutState T} {t : T} (ok : PrintOk s t)
    (printed : s'.printed t = s.printed t) (pc : s'.pc t = s.pc t)
    (finished : ∀ seq text, Finished s.log.1 seq text → Finished s'.log.1 seq text)
    (first : kmsgFirstSeq s.log.1 ≤ kmsgFirstSeq s'.log.1) (grows : s.consSeq ≤ s'.consSeq)
    (still : (s.pc t).locked = true → s'.consSeq = s.consSeq) : PrintOk s' t := by
  intro call result last line short
  rw [printed] at last
  obtain ⟨seq, returned, closed, way⟩ := ok call result last line short
  refine ⟨seq, returned, finished seq _ closed, ?_⟩
  rw [pc]
  cases at_ : s.pc t with
  | drainMissed stop =>
      rw [at_] at way still
      exact ⟨way.1, by have := still rfl; have := way.2; omega⟩
  | drained =>
      rw [at_] at way
      exact Nat.lt_of_lt_of_le way grows
  | idle =>
      rw [at_] at way
      exact Nat.lt_of_lt_of_le way grows
  | _ =>
      rw [at_] at way
      exact way

/-- Only the position changes. -/
theorem PrintOk.move {s s' : OutState T} {t : T} (ok : PrintOk s t)
    (printed : s'.printed t = s.printed t) (log : s'.log = s.log)
    (way : ∀ seq text, Finished s.log.1 seq text →
      (s.pc t).Flushing s.consSeq (kmsgFirstSeq s.log.1) seq →
      (s'.pc t).Flushing s'.consSeq (kmsgFirstSeq s.log.1) seq) : PrintOk s' t := by
  intro call result last line short
  rw [printed] at last
  obtain ⟨seq, returned, closed, before⟩ := ok call result last line short
  rw [log]
  exact ⟨seq, returned, closed, way seq _ closed before⟩

/-- The thread is not in `vprintk`. -/
theorem PrintOk.away {s s' : OutState T} {t : T} (ok : PrintOk s t)
    (printed : s'.printed t = s.printed t) (log : s'.log = s.log)
    (not_ : ∀ seq, ¬ (s.pc t).Flushing s.consSeq (kmsgFirstSeq s.log.1) seq) :
    PrintOk s' t := by
  apply ok.move printed log
  intro seq text _ way
  exact absurd way (not_ seq)

theorem printOk_of_none {s : OutState T} {t : T} (none_ : s.printed t = none) : PrintOk s t := by
  intro call result last
  rw [none_] at last
  cases last

variable [DecidableEq T]

/-- A step of the thread itself. -/
theorem PrintOk.own {s s' : OutState T} {q : LogQueue} {t : T} (drain : DrainOk s q)
    (ok : PrintOk s t) (step : OutStep s t s') : PrintOk s' t := by
  have logged := drain.logged
  cases step with
  | log op =>
      exact ok.frame rfl rfl (fun seq text closed => closed.run logged op)
        (Logged.firstSeq_le logged op) (Nat.le_refl _) fun _ => rfl
  | callPrintk call at_ => exact printOk_of_none (by simp [OutState.goto])
  | callFlushUpto seq at_ => exact printOk_of_none (by simp [OutState.goto])
  | callFlush at_ => exact printOk_of_none (by simp [OutState.goto])
  | callReplay at_ => exact printOk_of_none (by simp [OutState.goto])
  | panic parked => exact printOk_of_none (by simp [OutState.goto])
  | @print call at_ =>
      intro call' result last line short
      simp only [OutState.goto, OutState.print, Function.update_self, Option.some.injEq,
        Prod.mk.injEq] at last
      obtain ⟨rfl, rfl⟩ := last
      obtain ⟨seq, returned, closed⟩ := finished_of_add (s.stages call.cpuid)
        logged line short
      refine ⟨seq, returned, closed, ?_⟩
      simp only [OutState.goto, Function.update_self, returned]
      rfl
  | lockUpto at_ free =>
      refine ok.move rfl rfl ?_
      intro seq text _ way
      rw [at_] at way
      obtain rfl := way
      simp [OutState.goto, OutPc.Flushing]
  | drainEnd at_ done =>
      refine ok.move rfl rfl ?_
      intro seq text _ way
      rw [at_] at way
      obtain rfl := way
      simp only [OutState.goto, Function.update_self]
      exact done
  | drainRead at_ more found =>
      refine ok.move rfl rfl ?_
      intro seq text _ way
      rw [at_] at way
      simpa [OutState.goto, OutPc.Flushing] using way
  | drainMiss at_ more missing =>
      refine ok.move rfl rfl ?_
      intro seq text closed way
      rw [at_] at way
      obtain rfl := way
      simp only [OutState.goto, Function.update_self]
      exact ⟨rfl, first_of_missing closed logged (Nat.le_of_lt_succ more) missing⟩
  | render at_ =>
      refine ok.move rfl rfl ?_
      intro seq text _ way
      rw [at_] at way
      simpa [OutState.goto, OutPc.Flushing] using way
  | drainSkip at_ behind =>
      refine ok.move rfl rfl ?_
      intro seq text _ way
      rw [at_] at way
      simpa [OutState.goto, OutPc.Flushing] using way.1
  | drainBreak at_ held =>
      refine ok.move rfl rfl ?_
      intro seq text _ way
      rw [at_] at way
      exact absurd way.2 (Nat.not_lt_of_le held)
  | unlock at_ =>
      rcases at_ with at_ | at_
      · refine ok.move rfl rfl ?_
        intro seq text _ way
        rw [at_] at way
        simpa [OutState.goto, OutPc.Flushing] using way
      · exact ok.away rfl rfl (by simp [at_, OutPc.Flushing])
  | lockFlush at_ free => exact ok.away rfl rfl (by simp [at_, OutPc.Flushing])
  | nextSeq at_ => exact ok.away rfl rfl (by simp [at_, OutPc.Flushing])
  | lockReplay at_ free => exact ok.away rfl rfl (by simp [at_, OutPc.Flushing])
  | replayFirst at_ => exact ok.away rfl rfl (by simp [at_, OutPc.Flushing])
  | replayNext at_ => exact ok.away rfl rfl (by simp [at_, OutPc.Flushing])
  | replayEnd at_ done => exact ok.away rfl rfl (by simp [at_, OutPc.Flushing])
  | replayRead at_ more found => exact ok.away rfl rfl (by simp [at_, OutPc.Flushing])
  | replayMiss at_ more missing => exact ok.away rfl rfl (by simp [at_, OutPc.Flushing])
  | replayRender at_ => exact ok.away rfl rfl (by simp [at_, OutPc.Flushing])
  | replaySkip at_ behind => exact ok.away rfl rfl (by simp [at_, OutPc.Flushing])
  | replayBreak at_ held => exact ok.away rfl rfl (by simp [at_, OutPc.Flushing])

/-- What a step of `t` does to the rest: the log grows, and `cons_seq` moves under the lock
of `t` only. -/
structure Outside (s s' : OutState T) (t : T) : Prop where
  printed : ∀ u, u ≠ t → s'.printed u = s.printed u
  pc : ∀ u, u ≠ t → s'.pc u = s.pc u
  log : s'.log = s.log ∨ ∃ op : KmsgOp, s'.log = op.run s.log
  grows : s.consSeq ≤ s'.consSeq
  still : (s.pc t).locked = false → s'.consSeq = s.consSeq

theorem OutStep.outside {s s' : OutState T} {t : T} (step : OutStep s t s') :
    Outside s s' t := by
  have goto : ∀ (m : OutState T) (pc : OutPc) (u : T), u ≠ t → (m.goto t pc).pc u = m.pc u :=
    fun m pc u other => Function.update_of_ne other _ _
  cases step with
  | log op => exact ⟨fun _ _ => rfl, fun _ _ => rfl, Or.inr ⟨op, rfl⟩, Nat.le_refl _, fun _ => rfl⟩
  | callPrintk call at_ =>
      exact ⟨fun u other => Function.update_of_ne other _ _, goto _ _, Or.inl rfl, Nat.le_refl _,
        fun _ => rfl⟩
  | callFlushUpto seq at_ =>
      exact ⟨fun u other => Function.update_of_ne other _ _, goto _ _, Or.inl rfl, Nat.le_refl _,
        fun _ => rfl⟩
  | callFlush at_ =>
      exact ⟨fun u other => Function.update_of_ne other _ _, goto _ _, Or.inl rfl, Nat.le_refl _,
        fun _ => rfl⟩
  | callReplay at_ =>
      exact ⟨fun u other => Function.update_of_ne other _ _, goto _ _, Or.inl rfl, Nat.le_refl _,
        fun _ => rfl⟩
  | panic parked =>
      exact ⟨fun u other => Function.update_of_ne other _ _, goto _ _, Or.inl rfl, Nat.le_refl _,
        fun _ => rfl⟩
  | @print call at_ =>
      exact ⟨fun u other => Function.update_of_ne other _ _, goto _ _,
        Or.inr ⟨.add (call.kmsgCall (s.stages call.cpuid)), rfl⟩, Nat.le_refl _, fun _ => rfl⟩
  | render at_ =>
      exact ⟨fun _ _ => rfl, goto _ _, Or.inl rfl, Nat.le_succ _,
        fun free => by simp [at_, OutPc.locked] at free⟩
  | drainSkip at_ behind =>
      exact ⟨fun _ _ => rfl, goto _ _, Or.inl rfl, Nat.le_of_lt behind,
        fun free => by simp [at_, OutPc.locked] at free⟩
  | _ => exact ⟨fun _ _ => rfl, goto _ _, Or.inl rfl, Nat.le_refl _, fun _ => rfl⟩

/-- A step of another thread. -/
theorem PrintOk.other {s s' : OutState T} {q : LogQueue} {t u : T} (drain : DrainOk s q)
    (ok : PrintOk s u) (step : OutStep s t s') (other : u ≠ t) : PrintOk s' u := by
  have outside := step.outside
  have still : (s.pc u).locked = true → s'.consSeq = s.consSeq := by
    intro held
    exact outside.still (drain.others held other.symm)
  rcases outside.log with same | ⟨op, runs⟩
  · apply ok.frame (outside.printed u other) (outside.pc u other) _ _ outside.grows still
    · intro seq text closed
      rwa [same]
    · rw [same]
  · apply ok.frame (outside.printed u other) (outside.pc u other) _ _ outside.grows still
    · intro seq text closed
      rw [runs]
      exact closed.run drain.logged op
    · rw [runs]
      exact Logged.firstSeq_le drain.logged op

theorem printOk_of_reachable {s : OutState T} (reached : OutReachable s) (t : T) :
    PrintOk s t := by
  apply TransitionSystem.Reachable.invariant (I := fun s => ∀ t, PrintOk s t) ?_ ?_
    reached
  · intro s start u
    apply printOk_of_none
    rw [start]
    rfl
  · intro s s' before holds stepped u
    obtain ⟨t, step⟩ := stepped
    obtain ⟨q, drain⟩ := drainOk_of_reachable before
    by_cases here : u = t
    · subst here
      exact PrintOk.own drain (holds u) step
    · exact PrintOk.other drain (holds u) step here

/-- The first text of the log goes into record 0, if it goes anywhere. -/
theorem first_add (call : KmsgCall) :
    (kmsgAdd call kmsgInit).1 = none ∨
      (kmsgAdd call kmsgInit).1 = some 0 ∧ kmsgFirstSeq (kmsgAdd call kmsgInit).2 = 0 := by
  have boot := logged_init
  obtain ⟨-, q', adds, rep⟩ := boot.rep.add boot.idle boot.valid call
  rw [kmsgFirstSeq_eq rep]
  generalize kmsgAdd call kmsgInit = added at adds ⊢
  obtain ⟨result, after⟩ := added
  dsimp only at adds ⊢
  cases adds with
  | nothing => exact Or.inl rfl
  | continued text cont continues =>
      obtain ⟨r, last, -⟩ := continues
      cases last
  | starts text count refused crowded room =>
      have held := le_length_of_crowded (kept_le_textsz call) crowded
      obtain rfl : count = 0 := Nat.le_zero.mp held
      exact Or.inr ⟨rfl, rfl⟩

/-- The flush up to record 0 with nobody in between. -/
theorem exists_flushed {s : OutState T} {t : T} (reached : OutReachable s)
    (at_ : s.pc t = .flushUpto 0) (free : s.outLock = none) (start : s.consSeq = 0)
    (first : kmsgFirstSeq s.log.1 = 0) :
    ∃ s' : OutState T, OutReachable s' ∧ s'.pc t = .idle ∧ s'.printed t = s.printed t ∧
      (kmsgRead s.log.1 0 = none → s'.consSeq = 0) := by
  have locked := reached.next ⟨t, .lockUpto at_ free⟩
  have more : s.consSeq < 0 + 1 := by omega
  have here : ∀ (m : OutState T) (pc : OutPc), (m.goto t pc).pc t = pc :=
    fun m pc => Function.update_self t _ _
  cases read : kmsgRead s.log.1 0 with
  | none =>
      have missed := locked.next ⟨t, .drainMiss (here _ _) more (by simpa [OutState.goto, start])⟩
      have broken := missed.next ⟨t, .drainBreak (here _ _) (by
        simp only [OutState.goto, first]
        exact Nat.zero_le _)⟩
      have released := broken.next ⟨t, .unlock (Or.inl (here _ _))⟩
      exact ⟨_, released, here _ _, rfl, fun _ => start⟩
  | some record =>
      obtain ⟨d, text⟩ := record
      rw [← start] at read
      have found := locked.next ⟨t, .drainRead (here _ _) more read⟩
      have rendered := found.next ⟨t, .render (here _ _)⟩
      have drained := rendered.next ⟨t, .drainEnd (here _ _) (by
        simp only [OutState.goto, OutState.render, start]
        exact Nat.le_refl _)⟩
      have released := drained.next ⟨t, .unlock (Or.inl (here _ _))⟩
      exact ⟨_, released, here _ _, rfl, fun none_ => by cases none_⟩

/-- `vprintk` at boot returns, and has moved `cons_seq` only if it could read its record. -/
theorem exists_printed (t : T) (call : PrintkCall) :
    ∃ (s : OutState T) (result : Option Nat), OutReachable s ∧ s.pc t = .idle ∧
      s.printed t = some (call, result) ∧
      (result = some 0 → kmsgRead (kmsgAdd (call.kmsgCall fun _ => 0) kmsgInit).2 0 = none →
        s.consSeq = 0) ∧
      result = (kmsgAdd (call.kmsgCall fun _ => 0) kmsgInit).1 := by
  have boot : OutReachable (outInit T) := .start rfl
  have called := boot.next ⟨t, .callPrintk call rfl⟩
  have added := called.next ⟨t, .print (Function.update_self t _ _)⟩
  have printed : ∀ (m : OutState T) (pc : OutPc),
      ((m.print t call).goto t pc).printed t =
        some (call, (kmsgAdd (call.kmsgCall (m.stages call.cpuid)) m.log.1).1) :=
    fun m pc => Function.update_self t _ _
  rcases first_add (call.kmsgCall fun _ => 0) with nothing | ⟨some_, first⟩
  · refine ⟨_, none, added, ?_, ?_, fun _ _ => rfl, nothing.symm⟩
    · simp only [OutState.goto, Function.update_self, outInit, nothing]
    · rw [printed]
      simp only [OutState.goto, outInit, nothing]
  · obtain ⟨s, reached, returned, same, still⟩ := exists_flushed (t := t) added
      (by simp only [OutState.goto, Function.update_self, outInit, some_]) rfl rfl first
    refine ⟨s, some 0, reached, returned, ?_, fun _ => still, some_.symm⟩
    rw [same, printed]
    simp only [OutState.goto, outInit, some_]

/-- A long line at boot: `vprintk` returns, and the console is still in front of its record. -/
theorem exists_undelivered (t : T) (call : PrintkCall)
    (long : KMSG_RECORD_MAX ≤ call.text.length) :
    ∃ (s : OutState T) (result : Option Nat), OutReachable s ∧ s.pc t = .idle ∧
      s.printed t = some (call, result) ∧ ¬ Delivered s call result := by
  obtain ⟨s, result, reached, returned, printed, still, same⟩ := exists_printed t call
  refine ⟨s, result, reached, returned, printed, ?_⟩
  intro delivered
  obtain ⟨kept, seq, found, -, past⟩ := delivered
  have full : call.kept = KMSG_RECORD_MAX := by omega
  obtain ⟨first, unread, -⟩ := open_of_add (fun _ => 0) logged_init long full
  rw [first] at same
  have stands := still same unread
  cases same.symm.trans found
  rw [stands] at past
  exact absurd past (Nat.not_lt_zero _)

/-- `vprintk` delivers a line, however it is interleaved with the rest, exactly if the line
is shorter than a record. -/
theorem printk_delivers_iff (t : T) (call : PrintkCall) (line : endsLine call.text = true) :
    (∀ (s : OutState T) (result : Option Nat), OutReachable s → s.pc t = .idle →
      s.printed t = some (call, result) → Delivered s call result) ↔
        call.text.length < KMSG_RECORD_MAX := by
  constructor
  · intro delivers
    by_contra long
    obtain ⟨s, result, reached, returned, printed, missing⟩ :=
      exists_undelivered t call (Nat.le_of_not_lt long)
    exact missing (delivers s result reached returned printed)
  · intro short s result reached returned printed
    obtain ⟨seq, same, closed, way⟩ := printOk_of_reachable reached t call result printed line short
    rw [returned] at way
    have whole : call.text.take (KMSG_RECORD_MAX - 1) = call.text :=
      List.take_of_length_le (by omega)
    refine ⟨?_, seq, same, ?_, way⟩
    · rw [kept_of_short short]
      omega
    · rw [whole]
      exact closed

theorem printk_delivers_shortCall : endsLine shortCall.text = true ∧
    ∀ (s : OutState Unit) (result : Option Nat), OutReachable s → s.pc () = .idle →
      s.printed () = some (shortCall, result) → Delivered s shortCall result :=
  ⟨by decide, (printk_delivers_iff () shortCall (by decide)).mpr (by decide)⟩

def KERN_EMERG : Int := 0

/-- `"PANIC (cpu%d): %s\n"` -/
def panicFormat : List Byte :=
  literal ['P', 'A', 'N', 'I', 'C', ' ', '(', 'c', 'p', 'u', '%', 'd', ')', ':', ' ', '%', 's',
    '\n']

/-- The line of `panic` on the first CPU, with a message of the longest kind. -/
def panicCall : PrintkCall :=
  ⟨0, none, KERN_EMERG, panicFormat,
    ⟨[0, 1], fun _ => List.replicate (KMSG_RECORD_MAX - 1) (ascii 'x')⟩, 0⟩

theorem exists_lost_panic :
    endsLine panicCall.text = true ∧
      ∃ (s : OutState Unit) (result : Option Nat), OutReachable s ∧ s.pc () = .idle ∧
        s.printed () = some (panicCall, result) ∧ ¬ Delivered s panicCall result := by
  constructor
  · decide +kernel
  · exact exists_undelivered () panicCall (by decide +kernel)

end Console

end Av6
