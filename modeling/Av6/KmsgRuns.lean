import Av6.KmsgSimulation

/-!
# Whole runs of the kernel log

Runs of `kmsg_add` and `kmsg_finalize` in any order, with the history of what
each call returned.  The text of a held record is the concatenation of the texts
of exactly the calls that returned its number, all of them by one caller, and a
record that has been read once is read identically until it is retired.
-/

namespace Av6

namespace Kmsg

open CircularBuffer LogQueue

/-- One operation on the log. -/
inductive KmsgOp
  | add (call : KmsgCall)
  | finalize

/-- The calls made so far, with what each returned, oldest first. -/
abbrev History := List (KmsgCall × Option Nat)

def KmsgOp.run : KmsgOp → KmsgState × History → KmsgState × History
  | .add call, (s, history) =>
      ((kmsgAdd call s).2, history ++ [(call, (kmsgAdd call s).1)])
  | .finalize, (s, history) => (kmsgFinalize s, history)

def runOps (ops : List KmsgOp) : KmsgState × History :=
  ops.foldl (fun state op => op.run state) (kmsgInit, [])

/-- What the calls that returned `seq` logged, in call order. -/
def History.textOf (history : History) (seq : Nat) : List Byte :=
  (history.filter fun entry => entry.2 = some seq).flatMap fun entry => entry.1.bytes

/-- The history accounts for every held record. -/
structure Explains (history : History) (q : LogQueue) : Prop where
  returned_lt : ∀ call seq, (call, some seq) ∈ history → seq < q.next
  text_eq : ∀ index r, q.records[index]? = some r →
    r.text = history.textOf (q.first + index)
  caller_eq : ∀ index r, q.records[index]? = some r →
    ∀ call, (call, some (q.first + index)) ∈ history → call.caller = r.caller

@[simp]
theorem textOf_concat (history : History) (call : KmsgCall) (result : Option Nat)
    (seq : Nat) :
    History.textOf (history ++ [(call, result)]) seq =
      history.textOf seq ++ if result = some seq then call.bytes else [] := by
  by_cases returned : result = some seq <;>
    simp [History.textOf, returned]

theorem Adds.valid {q q' : LogQueue} {call : KmsgCall} {result : Option Nat}
    (adds : Adds q call result q') (valid : q.Valid) : q'.Valid := by
  cases adds with
  | nothing => exact valid
  | continued text cont continues => exact valid.extendLast continues
  | starts text count refused crowded room =>
      apply (valid.closeLast.retire count).push
      · intro r member
        exact closeLast_final valid r (List.mem_of_mem_drop member)
      · simpa [KmsgCall.record] using room
      · simpa [KmsgCall.record] using Nat.pos_of_ne_zero text
      · simpa [KmsgCall.record] using kept_le call

theorem Adds.next_le {q q' : LogQueue} {call : KmsgCall} {result : Option Nat}
    (adds : Adds q call result q') : q.next ≤ q'.next := by
  cases adds with
  | nothing => exact le_rfl
  | continued => simp [LogQueue.extendLast, next]
  | starts text count refused crowded room =>
      have held := le_length_of_crowded (kept_le_textsz call) crowded
      have := next_retire held
      simp only [next_closeLast] at this
      simp only [LogQueue.push, next, List.length_append] at this ⊢
      omega

theorem getElem?_push {q : LogQueue} {r new : Record} {index : Nat}
    (held : (q.push new).records[index]? = some r) :
    (q.records[index]? = some r ∧ index < q.records.length) ∨
      (index = q.records.length ∧ r = new) := by
  simp only [LogQueue.push] at held
  rcases lt_trichotomy index q.records.length with before | rfl | behind
  · rw [List.getElem?_append_left before] at held
    exact Or.inl ⟨held, before⟩
  · exact Or.inr ⟨rfl, by simpa using held.symm⟩
  · rw [List.getElem?_eq_none (by simp; omega)] at held
    cases held

namespace Explains

variable {history : History} {q : LogQueue}

theorem closeLast (explains : Explains history q) : Explains history q.closeLast := by
  have original : ∀ (index : Nat) (r : Record), q.closeLast.records[index]? = some r →
      ∃ r' : Record, q.records[index]? = some r' ∧ r.text = r'.text ∧ r.caller = r'.caller := by
    intro index r held
    simp only [LogQueue.closeLast, getElem?_modifyLast] at held
    split at held
    · obtain ⟨r', held', rfl⟩ := Option.map_eq_some_iff.mp held
      exact ⟨r', held', rfl, rfl⟩
    · exact ⟨r, held, rfl, rfl⟩
  refine ⟨by simpa using explains.returned_lt, ?_, ?_⟩
  · intro index r held
    obtain ⟨r', held', textEq, _⟩ := original index r held
    rw [textEq]
    exact explains.text_eq index r' held'
  · intro index r held call returned
    obtain ⟨r', held', _, callerEq⟩ := original index r held
    rw [callerEq]
    exact explains.caller_eq index r' held' call returned

theorem retire (explains : Explains history q) {count : Nat}
    (held : count ≤ q.records.length) : Explains history (q.retire count) := by
  refine ⟨by simpa [next_retire held] using explains.returned_lt, ?_, ?_⟩
  · intro index r found
    simp only [LogQueue.retire, List.getElem?_drop] at found ⊢
    rw [Nat.add_assoc]
    exact explains.text_eq _ r found
  · intro index r found call returned
    simp only [LogQueue.retire, List.getElem?_drop] at found returned
    rw [Nat.add_assoc] at returned
    exact explains.caller_eq _ r found call returned

/-- No call has returned the next number yet. -/
theorem textOf_next (explains : Explains history q) : history.textOf q.next = [] := by
  simp only [History.textOf, List.flatMap_eq_nil_iff, List.mem_filter, decide_eq_true_eq]
  rintro ⟨call, result⟩ ⟨member, rfl⟩
  exact absurd (explains.returned_lt call q.next member) (Nat.lt_irrefl _)

theorem push (explains : Explains history q) (call : KmsgCall) :
    Explains (history ++ [(call, some q.next)]) (q.push call.record) := by
  have nextEq : (q.push call.record).next = q.next + 1 := by
    simp [LogQueue.push, next, Nat.add_assoc]
  refine ⟨?_, ?_, ?_⟩
  · intro other seq member
    rw [nextEq]
    rcases List.mem_append.mp member with earlier | last
    · exact Nat.lt_succ_of_lt (explains.returned_lt other seq earlier)
    · simp only [List.mem_singleton, Prod.mk.injEq, Option.some_inj] at last
      omega
  · intro index r held
    rw [textOf_concat]
    rcases getElem?_push held with ⟨older, bound⟩ | ⟨rfl, rfl⟩
    · have differs : some q.next ≠ some (q.first + index) := by
        simp only [next, ne_eq, Option.some_inj]
        omega
      simpa [differs, LogQueue.push] using explains.text_eq index r older
    · have fresh := explains.textOf_next
      simp only [next] at fresh
      simp [LogQueue.push, next, fresh, KmsgCall.record]
  · intro index r held other member
    rcases getElem?_push held with ⟨older, bound⟩ | ⟨rfl, rfl⟩
    · rcases List.mem_append.mp member with earlier | last
      · exact explains.caller_eq index r older other earlier
      · simp only [List.mem_singleton, Prod.mk.injEq, Option.some_inj, LogQueue.push,
          next] at last
        omega
    · rcases List.mem_append.mp member with earlier | last
      · have := explains.returned_lt other _ earlier
        simp [LogQueue.push, next] at this
      · simp only [List.mem_singleton, Prod.mk.injEq] at last
        rw [last.1]
        rfl

theorem extendLast (explains : Explains history q) {call : KmsgCall}
    (continues : q.Continues call.caller call.bytes) :
    Explains (history ++ [(call, some (q.next - 1))]) (q.extendLast call.bytes) := by
  obtain ⟨newest, last, _, callerEq, _⟩ := continues
  rw [List.getLast?_eq_getElem?] at last
  have nonempty : 0 < q.records.length := by
    have := (List.getElem?_eq_some_iff.mp last).1
    omega
  refine ⟨?_, ?_, ?_⟩
  · intro other seq member
    have nextEq : (q.extendLast call.bytes).next = q.next := by
      simp [LogQueue.extendLast, next]
    rw [nextEq]
    rcases List.mem_append.mp member with earlier | newer
    · exact explains.returned_lt other seq earlier
    · simp only [List.mem_singleton, Prod.mk.injEq, Option.some_inj, next] at newer ⊢
      omega
  · intro index r held
    simp only [LogQueue.extendLast, getElem?_modifyLast] at held ⊢
    rw [textOf_concat]
    split at held
    next atLast =>
      obtain ⟨r', held', rfl⟩ := Option.map_eq_some_iff.mp held
      have same : some (q.next - 1) = some (q.first + index) := by
        simp only [next, Option.some_inj]
        omega
      simp [same, Record.extend, explains.text_eq index r' held']
    next notLast =>
      have bound := (List.getElem?_eq_some_iff.mp held).1
      have differs : some (q.next - 1) ≠ some (q.first + index) := by
        simp only [next, ne_eq, Option.some_inj]
        omega
      simpa [differs] using explains.text_eq index r held
  · intro index r held other member
    simp only [LogQueue.extendLast, getElem?_modifyLast] at held member
    rcases List.mem_append.mp member with earlier | newer
    · split at held
      · obtain ⟨r', held', rfl⟩ := Option.map_eq_some_iff.mp held
        exact explains.caller_eq index r' held' other earlier
      · exact explains.caller_eq index r held other earlier
    · simp only [List.mem_singleton, Prod.mk.injEq, Option.some_inj, next] at newer
      obtain ⟨rfl, seqEq⟩ := newer
      rw [if_pos (by omega), show index = q.records.length - 1 by omega, last] at held
      obtain rfl := Option.some.inj held
      exact callerEq.symm

theorem skip (explains : Explains history q) (call : KmsgCall) :
    Explains (history ++ [(call, none)]) q := by
  refine ⟨?_, ?_, ?_⟩
  · intro other seq member
    exact explains.returned_lt other seq (by simpa using member)
  · intro index r held
    simpa using explains.text_eq index r held
  · intro index r held other member
    exact explains.caller_eq index r held other (by simpa using member)

/-- Adding a text and recording the call keeps the history explaining the log. -/
theorem add {q' : LogQueue} {call : KmsgCall} {result : Option Nat}
    (explains : Explains history q) (adds : Adds q call result q') :
    Explains (history ++ [(call, result)]) q' := by
  cases adds with
  | nothing => exact explains.skip call
  | continued text cont continues => exact explains.extendLast continues
  | starts text count refused crowded room =>
      have held := le_length_of_crowded (kept_le_textsz call) crowded
      have pushed := (explains.closeLast.retire held).push call
      rwa [next_retire held, next_closeLast] at pushed

end Explains

/-- Record `seq` is final with content `r` and text at stream position `pos`, or it
has been retired. -/
structure Settled (q : LogQueue) (seq : Nat) (r : Record) (pos : Nat) : Prop where
  seq_lt : seq < q.next
  final : r.final = true
  held : q.first ≤ seq → q.records[seq - q.first]? = some r ∧ q.position seq = pos

namespace Settled

variable {q : LogQueue} {seq pos : Nat} {r : Record}

theorem of_read (found : q.read seq = some r) : Settled q seq r (q.position seq) := by
  unfold LogQueue.read at found
  split at found
  · cases found
  next reached =>
    obtain ⟨held, final⟩ := Option.filter_eq_some_iff.mp found
    refine ⟨?_, final, fun _ => ⟨held, rfl⟩⟩
    have := (List.getElem?_eq_some_iff.mp held).1
    simp only [next]
    omega

theorem read (settled : Settled q seq r pos) :
    (q.read seq = some r ∧ q.position seq = pos) ∨ q.read seq = none := by
  by_cases retired : seq < q.first
  · exact Or.inr (if_pos retired)
  · obtain ⟨held, position⟩ := settled.held (by omega)
    left
    rw [LogQueue.read, if_neg retired, held]
    exact ⟨by simp [Option.filter, settled.final], position⟩

/-- Modifying the newest record leaves a settled record alone if it leaves it alone
as the newest one. -/
theorem modifyLast (settled : Settled q seq r pos) (f : Record → Record)
    (keeps : q.records.getLast? = some r → f r = r) :
    Settled { q with records := q.records.modifyLast f } seq r pos := by
  refine ⟨by simpa [next] using settled.seq_lt, settled.final, ?_⟩
  intro reached
  obtain ⟨held, position⟩ := settled.held reached
  have bound := (List.getElem?_eq_some_iff.mp held).1
  constructor
  · change (q.records.modifyLast f)[seq - q.first]? = some r
    rw [getElem?_modifyLast, held]
    split
    next atLast =>
      rw [Option.map_some, keeps]
      rw [List.getLast?_eq_getElem?, ← held]
      congr 1
      omega
    next => rfl
  · simpa [LogQueue.position, take_modifyLast f bound] using position

theorem closeLast (settled : Settled q seq r pos) : Settled q.closeLast seq r pos :=
  settled.modifyLast _ fun _ => by simp [Record.close, ← settled.final]

theorem extendLast (settled : Settled q seq r pos) {caller : BitVec 32} {text : List Byte}
    (continues : q.Continues caller text) : Settled (q.extendLast text) seq r pos := by
  apply settled.modifyLast
  intro newest
  obtain ⟨r', last, opened, _⟩ := continues
  rw [newest] at last
  obtain rfl := Option.some.inj last
  rw [settled.final] at opened
  cases opened

theorem retire (settled : Settled q seq r pos) {count : Nat}
    (bound : count ≤ q.records.length) : Settled (q.retire count) seq r pos := by
  refine ⟨by simpa [next_retire bound] using settled.seq_lt, settled.final, ?_⟩
  intro reached
  simp only [LogQueue.retire] at reached
  obtain ⟨held, position⟩ := settled.held (by omega)
  have index : count + (seq - (q.first + count)) = seq - q.first := by omega
  constructor
  · simpa only [LogQueue.retire, List.getElem?_drop, index] using held
  · rw [← position, LogQueue.position, LogQueue.position, ← index, List.take_add,
      textSize_append, ← Nat.add_assoc]
    rfl

theorem push (settled : Settled q seq r pos) (new : Record) :
    Settled (q.push new) seq r pos := by
  refine ⟨?_, settled.final, ?_⟩
  · have := settled.seq_lt
    simp only [LogQueue.push, next, List.length_append] at this ⊢
    omega
  · intro reached
    obtain ⟨held, position⟩ := settled.held reached
    have bound := (List.getElem?_eq_some_iff.mp held).1
    constructor
    · simpa [LogQueue.push, List.getElem?_append_left bound] using held
    · simpa [LogQueue.push, LogQueue.position,
        List.take_append_of_le_length (Nat.le_of_lt bound)] using position

theorem add {q' : LogQueue} {call : KmsgCall} {result : Option Nat}
    (settled : Settled q seq r pos) (adds : Adds q call result q') :
    Settled q' seq r pos := by
  cases adds with
  | nothing => exact settled
  | continued text cont continues => exact settled.extendLast continues
  | starts text count refused crowded room =>
      have held := le_length_of_crowded (kept_le_textsz call) crowded
      exact (settled.closeLast.retire held).push call.record

end Settled

/-- The log after a run, with the history of the run. -/
structure Logged (state : KmsgState × History) (q : LogQueue) : Prop where
  rep : Represents state.1 q
  idle : Idle state.1
  valid : q.Valid
  explains : Explains state.2 q

theorem logged_init : Logged (kmsgInit, []) empty where
  rep := represents_init
  idle _ := rfl
  valid := valid_empty
  explains := ⟨by simp, by simp [empty], by simp [empty]⟩

/-- One operation keeps the log logged and every settled record settled. -/
theorem Logged.step {state : KmsgState × History} {q : LogQueue}
    (logged : Logged state q) (op : KmsgOp) :
    ∃ q', Logged (op.run state) q' ∧ q.next ≤ q'.next ∧
      ∀ seq r pos, Settled q seq r pos → Settled q' seq r pos := by
  obtain ⟨rep, idle, valid, explains⟩ := logged
  cases op with
  | add call =>
      obtain ⟨idle', q', adds, rep'⟩ := rep.add idle valid call
      exact ⟨q', ⟨rep', idle', adds.valid valid, explains.add adds⟩, adds.next_le,
        fun seq r pos settled => settled.add adds⟩
  | finalize =>
      refine ⟨q.closeLast, ⟨rep.closeLast valid, ?_, valid.closeLast, explains.closeLast⟩,
        by simp, fun seq r pos settled => settled.closeLast⟩
      intro cpuid
      simpa [KmsgOp.run, kmsgFinalize] using idle cpuid

theorem Logged.run {state : KmsgState × History} {q : LogQueue}
    (logged : Logged state q) (ops : List KmsgOp) :
    ∃ q', Logged (ops.foldl (fun state op => op.run state) state) q' ∧ q.next ≤ q'.next ∧
      ∀ seq r pos, Settled q seq r pos → Settled q' seq r pos := by
  induction ops generalizing state q with
  | nil => exact ⟨q, logged, le_rfl, fun _ _ _ settled => settled⟩
  | cons op ops ih =>
      obtain ⟨q₁, logged₁, grows₁, keeps₁⟩ := logged.step op
      obtain ⟨q₂, logged₂, grows₂, keeps₂⟩ := ih logged₁
      exact ⟨q₂, logged₂, le_trans grows₁ grows₂,
        fun seq r pos settled => keeps₂ seq r pos (keeps₁ seq r pos settled)⟩

theorem kmsgFirstSeq_eq {s : KmsgState} {q : LogQueue} (rep : Represents s q) :
    kmsgFirstSeq s = q.first := by
  rw [kmsgFirstSeq, rep.ndesc_eq, rep.nextSeq_eq]
  cases held : q.records with
  | nil => simp [next, held]
  | cons r records =>
      rw [if_neg (by simp), rep.desc_dtail held]
      rfl

/-- The message ring refines the bounded queue.  After every run the ring holds a
queue of records numbered `first, …, next - 1`, whose texts and callers the
history accounts for and of which only the newest may be open; `kmsg_read` returns
a record exactly when it is held and final; the next call adds to the queue,
retiring oldest records only while there is no room; no number is used again; and
whatever a read has returned, every later read returns the same or nothing. -/
theorem kmsgRing_refines_logQueue (ops : List KmsgOp) :
    ∃ q : LogQueue,
      Represents (runOps ops).1 q ∧ q.Valid ∧ Explains (runOps ops).2 q ∧
      kmsgFirstSeq (runOps ops).1 = q.first ∧ kmsgNextSeq (runOps ops).1 = q.next ∧
      (∀ seq, kmsgRead (runOps ops).1 seq =
        (q.read seq).map fun r => (r.describe seq (q.position seq), r.text)) ∧
      (∀ call, ∃ q', Adds q call (kmsgAdd call (runOps ops).1).1 q' ∧
        Represents (kmsgAdd call (runOps ops).1).2 q') ∧
      Represents (kmsgFinalize (runOps ops).1) q.closeLast ∧
      (∀ more, kmsgNextSeq (runOps ops).1 ≤ kmsgNextSeq (runOps (ops ++ more)).1) ∧
      ∀ seq result, kmsgRead (runOps ops).1 seq = some result → ∀ more,
        kmsgRead (runOps (ops ++ more)).1 seq = some result ∨
          kmsgRead (runOps (ops ++ more)).1 seq = none := by
  obtain ⟨q, logged, -, -⟩ := logged_init.run ops
  have later : ∀ more, ∃ q', Logged (runOps (ops ++ more)) q' ∧ q.next ≤ q'.next ∧
      ∀ seq r pos, Settled q seq r pos → Settled q' seq r pos := by
    intro more
    rw [runOps, List.foldl_append]
    exact logged.run more
  refine ⟨q, logged.rep, logged.valid, logged.explains, kmsgFirstSeq_eq logged.rep,
    logged.rep.nextSeq_eq, logged.rep.read logged.valid,
    fun call => (logged.rep.add logged.idle logged.valid call).2,
    logged.rep.closeLast logged.valid, ?_, ?_⟩
  · intro more
    obtain ⟨q', logged', grows, -⟩ := later more
    rw [kmsgNextSeq, kmsgNextSeq, logged'.rep.nextSeq_eq, runOps, logged.rep.nextSeq_eq]
    exact grows
  · intro seq result found more
    obtain ⟨q', logged', -, keeps⟩ := later more
    rw [runOps, logged.rep.read logged.valid] at found
    obtain ⟨r, read, rfl⟩ := Option.map_eq_some_iff.mp found
    rw [logged'.rep.read logged'.valid]
    rcases (keeps seq r _ (.of_read read)).read with ⟨same, position⟩ | gone
    · exact Or.inl (by rw [same, Option.map_some, position])
    · exact Or.inr (by rw [gone, Option.map_none])

end Kmsg

end Av6
