import Av6.KmsgQueue

/-!
# The message ring represents the bounded queue

`Represents` relates a ring state to the queue it stores: record `seq` has its
descriptor in slot `seq % KMSG_NDESC`, and the byte at stream position `pos` is
in slot `pos % KMSG_TEXTSZ`.  The text of a record is therefore wherever the
texts of the records before it end, which is what lets the ring do without
ownership information.
-/

namespace Av6

namespace Kmsg

open CircularBuffer LogQueue

/-- The descriptor that the ring keeps for a record. -/
def Record.describe (r : Record) (seq pos : Nat) : KmsgDesc where
  seq := seq
  ts := r.ts
  off := pos % KMSG_TEXTSZ
  caller := r.caller
  len := r.text.length
  level := r.level
  flags := if r.final then KMSG_F_FINAL else 0

/-- Descriptors of consecutive records, the first one `seq` with its text at
stream position `pos`. -/
def describeAll : Nat → Nat → List Record → List KmsgDesc
  | _, _, [] => []
  | seq, pos, r :: records =>
      r.describe seq pos :: describeAll (seq + 1) (pos + r.text.length) records

/-- Ring state `s` stores the queue `q`. -/
structure Represents (s : KmsgState) (q : LogQueue) : Prop where
  ndesc_eq : s.ndesc = q.records.length
  dtail_eq : s.dtail = q.first % KMSG_NDESC
  dhead_eq : s.dhead = q.next % KMSG_NDESC
  tused_eq : s.tused = textSize q.records
  ttail_eq : s.ttail = q.base % KMSG_TEXTSZ
  thead_eq : s.thead = (q.base + textSize q.records) % KMSG_TEXTSZ
  nextSeq_eq : s.nextSeq = q.next
  descs : slice KMSG_NDESC s.desc q.first q.records.length =
    describeAll q.first q.base q.records
  bytes : slice KMSG_TEXTSZ s.textbuf q.base (textSize q.records) =
    q.records.flatMap Record.text

@[simp]
theorem isFinal_describe (r : Record) (seq pos : Nat) :
    (r.describe seq pos).isFinal = r.final := by
  cases final : r.final <;> simp [KmsgDesc.isFinal, Record.describe, final, KMSG_F_FINAL]

@[simp]
theorem caller_describe (r : Record) (seq pos : Nat) :
    (r.describe seq pos).caller = r.caller :=
  rfl

@[simp]
theorem len_describe (r : Record) (seq pos : Nat) :
    (r.describe seq pos).len = r.text.length :=
  rfl

theorem close_describe (r : Record) (seq pos : Nat) :
    (r.describe seq pos).close = r.close.describe seq pos := by
  cases final : r.final <;>
    simp [KmsgDesc.close, Record.describe, Record.close, final, KMSG_F_FINAL]

@[simp]
theorem describeAll_length (seq pos : Nat) (records : List Record) :
    (describeAll seq pos records).length = records.length := by
  induction records generalizing seq pos with
  | nil => rfl
  | cons r records ih => simp [describeAll, ih]

theorem describeAll_append (seq pos : Nat) (older newer : List Record) :
    describeAll seq pos (older ++ newer) =
      describeAll seq pos older ++
        describeAll (seq + older.length) (pos + textSize older) newer := by
  induction older generalizing seq pos with
  | nil => simp [describeAll]
  | cons r older ih =>
      simp [describeAll, ih, Nat.add_assoc, Nat.add_comm 1]

theorem describeAll_getElem? (seq pos : Nat) (records : List Record) (index : Nat) :
    (describeAll seq pos records)[index]? =
      records[index]?.map fun r =>
        r.describe (seq + index) (pos + textSize (records.take index)) := by
  induction records generalizing seq pos index with
  | nil => simp [describeAll]
  | cons r records ih =>
      cases index with
      | zero => simp [describeAll]
      | succ index => simp [describeAll, ih, Nat.add_assoc, Nat.add_comm 1]

theorem represents_init : Represents kmsgInit empty := by
  constructor <;> simp [kmsgInit, empty, next, describeAll]

section Operations

variable {s : KmsgState} {q : LogQueue}

/-- The descriptor and the text of a held record, found by its number. -/
theorem Represents.lookup (rep : Represents s q) (index : Nat) {r : Record}
    (held : q.records[index]? = some r) :
    s.desc ((q.first + index) % KMSG_NDESC) =
        r.describe (q.first + index) (q.base + textSize (q.records.take index)) ∧
      slice KMSG_TEXTSZ s.textbuf (q.base + textSize (q.records.take index))
        r.text.length = r.text := by
  have bound : index < q.records.length := (List.getElem?_eq_some_iff.mp held).1
  constructor
  · have entry := congrArg (·[index]?) rep.descs
    simp only [describeAll_getElem?, held, Option.map_some] at entry
    rw [List.getElem?_eq_getElem (by simpa using bound), slice_getElem] at entry
    exact Option.some.inj entry
  · have split : q.records = q.records.take index ++ r :: q.records.drop (index + 1) := by
      rw [← (List.getElem?_eq_some_iff.mp held).2]
      simp
    have bytes := rep.bytes
    rw [congrArg textSize split, congrArg (List.flatMap Record.text) split, textSize_append,
      textSize_cons, slice_append, slice_append, List.flatMap_append,
      List.flatMap_cons] at bytes
    have tail := (List.append_inj bytes (by simp [textSize])).2
    exact (List.append_inj tail (by simp)).1

theorem Represents.desc_dtail (rep : Represents s q) {r : Record}
    {records : List Record} (held : q.records = r :: records) :
    s.desc s.dtail = r.describe q.first q.base := by
  have := (rep.lookup 0 (r := r) (by simp [held])).1
  simpa [rep.dtail_eq] using this

theorem Represents.dropOldest (rep : Represents s q) {r : Record}
    {records : List Record} (held : q.records = r :: records) :
    Represents (kmsgDropOldest s) ⟨q.first + 1, q.base + r.text.length, records⟩ := by
  have tail := rep.desc_dtail held
  have len : (s.desc s.dtail).len = r.text.length := by
    rw [tail]
    rfl
  obtain ⟨ndescEq, dtailEq, dheadEq, tusedEq, ttailEq, theadEq, nextSeqEq, descs, bytes⟩ :=
    rep
  simp only [next, held, List.length_cons, textSize_cons] at ndescEq dheadEq tusedEq
  simp only [next, held, List.length_cons, textSize_cons] at theadEq nextSeqEq descs bytes
  constructor <;> simp only [kmsgDropOldest, len, next]
  · omega
  · rw [dtailEq, Nat.mod_add_mod]
  · rw [dheadEq]
    congr 1
    omega
  · omega
  · rw [ttailEq, Nat.mod_add_mod]
  · rw [theadEq, Nat.add_assoc]
  · omega
  · rw [slice_cons, describeAll] at descs
    exact (List.cons.inj descs).2
  · rw [slice_append, List.flatMap_cons] at bytes
    exact (List.append_inj bytes (by simp)).2

/-- The eviction loop retires records from the front, one at a time, each time
because there was no room, and leaves once there is. -/
theorem Represents.makeRoom {len : Nat} (rep : Represents s q)
    (fits : len ≤ KMSG_TEXTSZ) :
    ∃ count, Represents (kmsgMakeRoom len s.ndesc s) (q.retire count) ∧
      (∀ earlier < count, (q.retire earlier).Crowded len) ∧
      ¬ (q.retire count).Crowded len := by
  rw [rep.ndesc_eq]
  -- The loop count is the number of held records, so the induction is on them.
  induction held : q.records generalizing s q with
  | nil =>
      refine ⟨0, by simpa [retire_zero, kmsgMakeRoom] using rep, by simp, ?_⟩
      simp only [retire_zero, Crowded, held, List.length_nil, textSize_nil]
      simp only [KMSG_NDESC, KMSG_TEXTSZ] at fits ⊢
      omega
  | cons r records ih =>
      have crowdedIff : (s.ndesc = KMSG_NDESC ∨ s.tused + len > KMSG_TEXTSZ) ↔
          q.Crowded len := by
        rw [rep.ndesc_eq, rep.tused_eq]
        rfl
      simp only [List.length_cons, kmsgMakeRoom]
      by_cases crowded : q.Crowded len
      · rw [if_pos (crowdedIff.mpr crowded)]
        obtain ⟨count, represented, every, room⟩ := ih (rep.dropOldest held) rfl
        refine ⟨count + 1, by rwa [retire_succ held], ?_, by rwa [retire_succ held]⟩
        intro earlier bound
        cases earlier with
        | zero => rwa [retire_zero]
        | succ earlier =>
            rw [retire_succ held]
            exact every earlier (by omega)
      · rw [if_neg (crowdedIff.not.mpr crowded)]
        exact ⟨0, by simpa [retire_zero] using rep, by simp, by rwa [retire_zero]⟩

theorem Represents.start (rep : Represents s q) (r : Record) {text : Nat → Byte}
    {level : Int} {len : Nat} (source : r.text = (List.range len).map text)
    (levelEq : r.level =
      BitVec.ofInt 8 (if level = KERN_CONT then KERN_INFO else level))
    (finalEq : r.final = decide (text (len - 1) = newline))
    (room : ¬ q.Crowded len) (valid : q.Valid) :
    Represents (kmsgStart s level r.caller r.ts text len) (q.push r) := by
  have lenEq : r.text.length = len := by simp [source]
  have countLe := valid.count_le
  simp only [Crowded, not_or] at room
  obtain ⟨ndescEq, dtailEq, dheadEq, tusedEq, ttailEq, theadEq, nextSeqEq, descs, bytes⟩ :=
    rep
  have described : (⟨s.nextSeq, r.ts, s.thead, r.caller, len,
      BitVec.ofInt 8 (if level = KERN_CONT then KERN_INFO else level),
      if text (len - 1) = newline then KMSG_F_FINAL else 0⟩ : KmsgDesc) =
        r.describe q.next (q.base + textSize q.records) := by
    simp [Record.describe, nextSeqEq, theadEq, lenEq, levelEq, finalEq]
  constructor <;> simp only [kmsgStart, LogQueue.push, next, List.length_append,
    List.length_singleton, textSize_append, textSize_cons, textSize_nil, lenEq]
  · omega
  · exact dtailEq
  · rw [dheadEq, Nat.mod_add_mod, next, Nat.add_assoc]
  · omega
  · exact ttailEq
  · rw [theadEq, Nat.mod_add_mod, Nat.add_assoc, Nat.add_zero]
  · rw [nextSeqEq, next, Nat.add_assoc]
  · rw [dheadEq, next, slice_succ, slice_update_behind _ _ _ (by omega), descs,
      Function.update_self, described, describeAll_append]
    rfl
  · rw [Nat.add_zero, slice_append, theadEq]
    simp only [kmsgWriteText]
    rw [writeBlock_mod, slice_writeBlock_behind _ _ _ (by omega),
      slice_writeBlock _ _ _ (by omega), bytes]
    simp [source]

theorem endsLine_map_range (text : Nat → Byte) {len : Nat} (pos : 0 < len) :
    endsLine ((List.range len).map text) = decide (text (len - 1) = newline) := by
  obtain ⟨last, rfl⟩ := Nat.exists_eq_add_of_lt pos
  simp [endsLine, List.range_succ]

/-- Lengthening the descriptor of an open record describes the longer record. -/
theorem extend_describe {r : Record} (opened : r.final = false) (text : Nat → Byte)
    {len : Nat} (pos : 0 < len) (seq at' : Nat) :
    (r.describe seq at').extend text len =
      (r.extend ((List.range len).map text)).describe seq at' := by
  by_cases newlineLast : text (len - 1) = newline <;>
    simp [KmsgDesc.extend, Record.describe, Record.extend, endsLine_map_range text pos,
      newlineLast, opened, KmsgDesc.close]

theorem Represents.last_slot (rep : Represents s q) {older : List Record} {r : Record}
    (held : q.records = older ++ [r]) :
    kmsgLast s = some ((q.first + older.length) % KMSG_NDESC) := by
  have count := rep.ndesc_eq
  simp only [held, List.length_append, List.length_singleton] at count
  rw [kmsgLast, if_neg (by omega), rep.dhead_eq, Option.some_inj]
  simp only [next, held, List.length_append, List.length_singleton, KMSG_NDESC]
  omega

/-- Rewriting the newest descriptor rewrites the newest record of the queue. -/
theorem Represents.descs_update (rep : Represents s q) {older : List Record}
    {r : Record} (held : q.records = older ++ [r]) (valid : q.Valid) (d : KmsgDesc) :
    slice KMSG_NDESC
        (Function.update s.desc ((q.first + older.length) % KMSG_NDESC) d)
        q.first (older.length + 1) =
      describeAll q.first q.base older ++ [d] := by
  have countLe := valid.count_le
  have descs := rep.descs
  simp only [held, List.length_append, List.length_singleton] at countLe descs
  rw [slice_succ, describeAll_append] at descs
  rw [slice_succ, slice_update_behind _ _ _ (by omega), Function.update_self,
    (List.append_inj descs (by simp)).1]

theorem Represents.closeLast (rep : Represents s q) (valid : q.Valid) :
    Represents (kmsgCloseLast s) q.closeLast := by
  rcases modifyLast_cases q.records Record.close with ⟨nothing, same⟩ | ⟨older, r, held, same⟩
  · have noLast : kmsgLast s = none := by simp [kmsgLast, rep.ndesc_eq, nothing]
    have unchanged : q.closeLast = q := by simp [LogQueue.closeLast, same, ← nothing]
    simpa [kmsgCloseLast, noLast, unchanged] using rep
  · have entry := (rep.lookup older.length (r := r) (by simp [held])).1
    have update := rep.descs_update held valid (r.close.describe (q.first + older.length)
      (q.base + textSize older))
    simp only [held, List.take_left'] at entry
    simp only [kmsgCloseLast, rep.last_slot held, entry, close_describe]
    obtain ⟨ndescEq, dtailEq, dheadEq, tusedEq, ttailEq, theadEq, nextSeqEq, descs, bytes⟩ :=
      rep
    simp only [next, held] at ndescEq dheadEq tusedEq theadEq nextSeqEq bytes
    constructor <;> simp only [LogQueue.closeLast, next, same]
    · simpa using ndescEq
    · exact dtailEq
    · simpa using dheadEq
    · simpa [Record.close] using tusedEq
    · exact ttailEq
    · simpa [Record.close] using theadEq
    · simpa using nextSeqEq
    · rw [List.length_append, List.length_singleton, update, describeAll_append]
      rfl
    · simpa [Record.close] using bytes

/-- A continuation is accepted exactly when the newest record can take it. -/
theorem Represents.appendLast (rep : Represents s q) (valid : q.Valid)
    (caller : BitVec 32) (text : Nat → Byte) {len : Nat} (pos : 0 < len) :
    (¬ q.Continues caller ((List.range len).map text) ∧
        kmsgAppendLast s caller text len = none) ∨
      (q.Continues caller ((List.range len).map text) ∧
        ∃ s', kmsgAppendLast s caller text len = some (q.next - 1, s') ∧
          Represents s' (q.extendLast ((List.range len).map text))) := by
  rcases modifyLast_cases q.records (·.extend ((List.range len).map text)) with
    ⟨nothing, _⟩ | ⟨older, r, held, same⟩
  · refine Or.inl ⟨?_, by simp [kmsgAppendLast, kmsgLast, rep.ndesc_eq, nothing]⟩
    rintro ⟨r, last, _⟩
    simp [nothing] at last
  · have entry := (rep.lookup older.length (r := r) (by simp [held])).1
    simp only [held, List.take_left'] at entry
    have acceptIff : q.Continues caller ((List.range len).map text) ↔
        ¬ (r.final = true ∨ r.caller ≠ caller) ∧
          ¬ (r.text.length + len > KMSG_RECORD_MAX ∨ s.tused + len > KMSG_TEXTSZ) := by
      simp [Continues, held, rep.tused_eq, and_assoc]
    by_cases accepted : q.Continues caller ((List.range len).map text)
    · right
      obtain ⟨open', fits⟩ := acceptIff.mp accepted
      have opened : r.final = false := by simpa using (not_or.mp open').1
      have update := rep.descs_update held valid
        ((r.extend ((List.range len).map text)).describe (q.first + older.length)
          (q.base + textSize older))
      refine ⟨accepted, _, by
        simp only [kmsgAppendLast, rep.last_slot held, entry, isFinal_describe,
          caller_describe, len_describe, if_neg open', if_neg fits,
          extend_describe opened text pos, next, held, List.length_append,
          List.length_singleton, Nat.add_sub_cancel, ← Nat.add_assoc]
        rfl, ?_⟩
      obtain ⟨ndescEq, dtailEq, dheadEq, tusedEq, ttailEq, theadEq, nextSeqEq, descs, bytes⟩ :=
        rep
      simp only [next, held] at ndescEq dheadEq tusedEq theadEq nextSeqEq bytes
      have sizes : textSize (older ++ [r.extend ((List.range len).map text)]) =
          textSize (older ++ [r]) + len := by
        simp [Record.extend, Nat.add_assoc]
      constructor <;> simp only [LogQueue.extendLast, next, same, sizes]
      · simpa using ndescEq
      · exact dtailEq
      · simpa using dheadEq
      · omega
      · exact ttailEq
      · rw [theadEq, Nat.mod_add_mod, Nat.add_assoc]
      · simpa using nextSeqEq
      · rw [List.length_append, List.length_singleton, describeAll_append]
        exact update
      · rw [slice_append, theadEq, kmsgWriteText, writeBlock_mod,
          slice_writeBlock_behind _ _ _ (by omega), slice_writeBlock _ _ _ (by omega), bytes]
        simp [Record.extend]
    · left
      refine ⟨accepted, ?_⟩
      simp only [kmsgAppendLast, rep.last_slot held, entry, isFinal_describe,
        caller_describe, len_describe]
      by_cases closed : r.final = true ∨ r.caller ≠ caller
      · exact if_pos closed
      · have full := not_and.mp (acceptIff.not.mp accepted) closed
        rw [if_neg closed]
        exact if_pos (not_not.mp full)

end Operations

end Kmsg

end Av6
