import Av6.KmsgRefinement

/-!
# Operations on the message ring are operations on the queue

`kmsg_add` on a ring state does to the represented queue what adding a text does,
and `kmsg_read` reads the represented queue.
-/

namespace Av6

namespace Kmsg

open CircularBuffer LogQueue

/-- The bytes of a call that are logged. -/
def KmsgCall.bytes (call : KmsgCall) : List Byte :=
  (List.range call.kept).map call.text

/-- The record a call starts when it does not continue one. -/
def KmsgCall.record (call : KmsgCall) : Record where
  ts := call.ts
  caller := call.caller
  level := BitVec.ofInt 8 (if call.level = KERN_CONT then KERN_INFO else call.level)
  text := call.bytes
  final := endsLine call.bytes

/-- What adding a text does to the queue: nothing for an empty text, extend the
newest record, or close it, retire as many of the oldest records as have to go,
and start a new one. -/
inductive Adds (q : LogQueue) (call : KmsgCall) : Option Nat → LogQueue → Prop
  | nothing (noText : call.kept = 0) : Adds q call none q
  | continued (text : call.kept ≠ 0) (cont : call.level = KERN_CONT)
      (continues : q.Continues call.caller call.bytes) :
      Adds q call (some (q.next - 1)) (q.extendLast call.bytes)
  | starts (text : call.kept ≠ 0) (count : Nat)
      (refused : ¬ (call.level = KERN_CONT ∧ q.Continues call.caller call.bytes))
      (crowded : ∀ earlier < count, (q.closeLast.retire earlier).Crowded call.kept)
      (room : ¬ (q.closeLast.retire count).Crowded call.kept) :
      Adds q call (some q.next) ((q.closeLast.retire count).push call.record)

theorem kept_le (call : KmsgCall) : call.kept ≤ KMSG_RECORD_MAX := by
  unfold KmsgCall.kept
  split <;> omega

theorem kept_le_textsz (call : KmsgCall) : call.kept ≤ KMSG_TEXTSZ :=
  le_trans (kept_le call) (by decide)

@[simp]
theorem bytes_length (call : KmsgCall) : call.bytes.length = call.kept := by
  simp [KmsgCall.bytes]

section Simulation

variable {s : KmsgState} {q : LogQueue}

theorem Represents.withInKmsg (rep : Represents s q) (inKmsg : Nat → Bool) :
    Represents { s with inKmsg := inKmsg } q :=
  { rep with }

@[simp]
theorem inKmsg_kmsgCloseLast (s : KmsgState) :
    (kmsgCloseLast s).inKmsg = s.inKmsg := by
  unfold kmsgCloseLast
  split <;> rfl

@[simp]
theorem inKmsg_kmsgMakeRoom (len rounds : Nat) (s : KmsgState) :
    (kmsgMakeRoom len rounds s).inKmsg = s.inKmsg := by
  induction rounds generalizing s with
  | zero => rfl
  | succ rounds ih =>
      unfold kmsgMakeRoom
      split
      · rw [ih]
        rfl
      · rfl

theorem inKmsg_kmsgAppendLast {caller : BitVec 32} {text : Nat → Byte} {len seq : Nat}
    {s s' : KmsgState} (appended : kmsgAppendLast s caller text len = some (seq, s')) :
    s'.inKmsg = s.inKmsg := by
  unfold kmsgAppendLast at appended
  split at appended
  · cases appended
  · dsimp only at appended
    split_ifs at appended
    cases appended
    rfl

/-- No CPU is inside `kmsg_add`. -/
def Idle (s : KmsgState) : Prop :=
  ∀ cpuid, s.inKmsg cpuid = false

/-- `kmsg_add` on the ring does what adding the text to the queue does. -/
theorem Represents.add (rep : Represents s q) (idle : Idle s) (valid : q.Valid)
    (call : KmsgCall) :
    Idle (kmsgAdd call s).2 ∧
      ∃ q', Adds q call (kmsgAdd call s).1 q' ∧ Represents (kmsgAdd call s).2 q' := by
  by_cases noText : call.kept = 0
  · simp only [kmsgAdd, if_pos noText]
    exact ⟨idle, q, .nothing noText, rep⟩
  have cleared : ∀ inner : Nat → Bool,
      inner = Function.update s.inKmsg call.cpuid true →
        ∀ cpuid, Function.update inner call.cpuid false cpuid = false := by
    rintro inner rfl cpuid
    by_cases same : cpuid = call.cpuid <;> simp [same, idle cpuid]
  have marked := rep.withInKmsg (Function.update s.inKmsg call.cpuid true)
  have pos : 0 < call.kept := Nat.pos_of_ne_zero noText
  simp only [kmsgAdd, if_neg noText, idle call.cpuid, Bool.false_eq_true, if_false]
  -- Either the newest record takes the text, or a new record is started.
  rcases em (call.level = KERN_CONT ∧ q.Continues call.caller call.bytes) with taken | refused
  · rcases marked.appendLast valid call.caller call.text pos with
      ⟨refused, _⟩ | ⟨continues, s', appended, represented⟩
    · exact (refused taken.2).elim
    · simp only [if_pos taken.1, appended]
      exact ⟨cleared _ (inKmsg_kmsgAppendLast appended), _,
        .continued noText taken.1 continues, represented.withInKmsg _⟩
  · have failed : (if call.level = KERN_CONT then
        kmsgAppendLast { s with inKmsg := Function.update s.inKmsg call.cpuid true }
          call.caller call.text call.kept else none) = none := by
      split
      next cont =>
        rcases marked.appendLast valid call.caller call.text pos with
          ⟨_, nothing⟩ | ⟨continues, _⟩
        · exact nothing
        · exact (refused ⟨cont, continues⟩).elim
      next => rfl
    simp only [failed]
    have fits := kept_le_textsz call
    obtain ⟨count, represented, crowded, room⟩ := (marked.closeLast valid).makeRoom fits
    refine ⟨cleared _ (by simp [kmsgStart]), _,
      ?_, (represented.start call.record rfl rfl (endsLine_map_range call.text pos) room
        (valid.closeLast.retire count)).withInKmsg _⟩
    rw [represented.nextSeq_eq, next_retire (le_length_of_crowded fits crowded),
      next_closeLast]
    exact .starts noText count refused crowded room

/-- A read of the ring is a read of the queue. -/
theorem Represents.read (rep : Represents s q) (valid : q.Valid) (seq : Nat) :
    kmsgRead s seq =
      (q.read seq).map fun r => (r.describe seq (q.position seq), r.text) := by
  have tailSeq : q.records ≠ [] → (s.desc s.dtail).seq = q.first := by
    intro nonempty
    obtain ⟨r, records, held⟩ := List.exists_cons_of_ne_nil nonempty
    rw [rep.desc_dtail held]
    rfl
  have count := rep.ndesc_eq
  have nextSeq := rep.nextSeq_eq
  have countLe := valid.count_le
  simp only [next] at nextSeq
  by_cases before : seq < q.first
  · rw [LogQueue.read, if_pos before, kmsgRead, if_pos]
    · rfl
    · by_cases nothing : q.records = []
      · exact Or.inl (by simp [count, nothing])
      · exact Or.inr (Or.inl (by rwa [tailSeq nothing]))
  rw [LogQueue.read, if_neg before]
  cases held : q.records[seq - q.first]? with
  | none =>
      have beyond := List.getElem?_eq_none_iff.mp held
      rw [kmsgRead, if_pos (by omega)]
      rfl
  | some r =>
      have bound := (List.getElem?_eq_some_iff.mp held).1
      have nonempty : q.records ≠ [] := List.ne_nil_of_length_pos (by omega)
      have seqEq : q.first + (seq - q.first) = seq := by omega
      have small : (seq - q.first) % 2 ^ 32 = seq - q.first := by
        apply Nat.mod_eq_of_lt
        simp only [KMSG_NDESC] at countLe
        omega
      have slot : (s.dtail + (seq - q.first) % 2 ^ 32) % KMSG_NDESC = seq % KMSG_NDESC := by
        rw [small, rep.dtail_eq, Nat.mod_add_mod, seqEq]
      obtain ⟨entry, text⟩ := rep.lookup _ held
      rw [seqEq] at entry
      rw [kmsgRead, if_neg (by rw [tailSeq nonempty]; omega)]
      simp only [tailSeq nonempty, slot, entry, isFinal_describe]
      cases final : r.final
      · simp [Option.filter, final]
      · have offset : (r.describe seq (q.base + textSize (q.records.take (seq - q.first)))).off =
            (q.base + textSize (q.records.take (seq - q.first))) % KMSG_TEXTSZ := rfl
        simp only [Option.filter, final, if_true, Option.map_some, offset, slice_mod,
          len_describe, text, position]

end Simulation

end Kmsg

end Av6
