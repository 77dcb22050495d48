import Av6.KmsgRing
import Mathlib.Data.List.ModifyLast

/-!
# The kernel log as a bounded queue

What the message ring is for: a queue of records with consecutive sequence
numbers, the newest of which may still be open.  Adding a text extends the open
record or starts a new one, and a new one retires records from the front while
the queue is crowded.  Positions are counted in the stream of all bytes ever
logged, so that a record keeps its position while older ones are retired.
-/

namespace Av6

namespace Kmsg

/-- A record of the abstract log. -/
structure Record where
  ts : Nat
  caller : BitVec 32
  level : BitVec 8
  text : List Byte
  final : Bool

def Record.close (r : Record) : Record :=
  { r with final := true }

/-- Text added to a record closes it when it ends its line. -/
def endsLine (text : List Byte) : Bool :=
  text.getLast? = some newline

def Record.extend (r : Record) (text : List Byte) : Record :=
  { r with text := r.text ++ text, final := r.final || endsLine text }

/-- Held records, oldest first, with the number of records and of bytes retired
before them. -/
structure LogQueue where
  first : Nat
  base : Nat
  records : List Record

namespace LogQueue

def empty : LogQueue := ⟨0, 0, []⟩

/-- The sequence number of the next record. -/
def next (q : LogQueue) : Nat :=
  q.first + q.records.length

/-- The number of text bytes in some records. -/
def textSize (records : List Record) : Nat :=
  (records.flatMap Record.text).length

def closeLast (q : LogQueue) : LogQueue :=
  { q with records := q.records.modifyLast Record.close }

/-- No room for `len` more bytes in a new record. -/
def Crowded (q : LogQueue) (len : Nat) : Prop :=
  q.records.length = KMSG_NDESC ∨ textSize q.records + len > KMSG_TEXTSZ

instance (q : LogQueue) (len : Nat) : Decidable (q.Crowded len) := by
  unfold Crowded
  infer_instance

/-- Retire the oldest `count` records. -/
def retire (q : LogQueue) (count : Nat) : LogQueue where
  first := q.first + count
  base := q.base + textSize (q.records.take count)
  records := q.records.drop count

def push (q : LogQueue) (r : Record) : LogQueue :=
  { q with records := q.records ++ [r] }

/-- The newest record may be continued by `text` of `caller`. -/
def Continues (q : LogQueue) (caller : BitVec 32) (text : List Byte) : Prop :=
  ∃ r, q.records.getLast? = some r ∧ r.final = false ∧ r.caller = caller ∧
    r.text.length + text.length ≤ KMSG_RECORD_MAX ∧
    textSize q.records + text.length ≤ KMSG_TEXTSZ

def extendLast (q : LogQueue) (text : List Byte) : LogQueue :=
  { q with records := q.records.modifyLast (·.extend text) }

/-- A read sees a held record once it is final. -/
def read (q : LogQueue) (seq : Nat) : Option Record :=
  if seq < q.first then none
  else (q.records[seq - q.first]?).filter Record.final

/-- The stream position of the text of record `seq`. -/
def position (q : LogQueue) (seq : Nat) : Nat :=
  q.base + textSize (q.records.take (seq - q.first))

/-- What holds of every log: both bounds, no empty or oversized record, and no
open record but the newest. -/
structure Valid (q : LogQueue) : Prop where
  count_le : q.records.length ≤ KMSG_NDESC
  size_le : textSize q.records ≤ KMSG_TEXTSZ
  text_pos : ∀ r ∈ q.records, 0 < r.text.length
  text_le : ∀ r ∈ q.records, r.text.length ≤ KMSG_RECORD_MAX
  closed : ∀ r ∈ q.records.dropLast, r.final = true

@[simp]
theorem textSize_nil : textSize [] = 0 :=
  rfl

@[simp]
theorem textSize_cons (r : Record) (records : List Record) :
    textSize (r :: records) = r.text.length + textSize records := by
  simp [textSize]

@[simp]
theorem textSize_append (older newer : List Record) :
    textSize (older ++ newer) = textSize older + textSize newer := by
  simp [textSize]

theorem retire_zero (q : LogQueue) : q.retire 0 = q := by
  simp [retire]

theorem retire_succ {q : LogQueue} {r : Record} {records : List Record}
    (held : q.records = r :: records) (count : Nat) :
    q.retire (count + 1) =
      retire ⟨q.first + 1, q.base + r.text.length, records⟩ count := by
  simp [retire, held, Nat.add_assoc, Nat.add_comm 1]

theorem next_retire {q : LogQueue} {count : Nat} (held : count ≤ q.records.length) :
    (q.retire count).next = q.next := by
  simp only [retire, next, List.length_drop]
  omega

/-- An emptied queue is never crowded, so crowding retires held records only. -/
theorem le_length_of_crowded {q : LogQueue} {count len : Nat} (fits : len ≤ KMSG_TEXTSZ)
    (crowded : ∀ earlier < count, (q.retire earlier).Crowded len) :
    count ≤ q.records.length := by
  by_contra beyond
  rcases crowded q.records.length (by omega) with full | full
  · simp [retire, KMSG_NDESC] at full
  · simp only [retire, List.drop_length, textSize_nil] at full
    omega

theorem valid_empty : empty.Valid := by
  constructor <;> simp [empty]

theorem Valid.retire {q : LogQueue} (valid : q.Valid) (count : Nat) :
    (q.retire count).Valid where
  count_le := by
    have := valid.count_le
    simp only [LogQueue.retire, List.length_drop]
    omega
  size_le := by
    have split := congrArg textSize (List.take_append_drop count q.records)
    have := valid.size_le
    rw [textSize_append] at split
    simp only [LogQueue.retire]
    omega
  text_pos r member := valid.text_pos r (List.mem_of_mem_drop member)
  text_le r member := valid.text_le r (List.mem_of_mem_drop member)
  closed r member := by
    apply valid.closed r
    simp only [LogQueue.retire] at member
    rw [← List.take_append_drop count q.records, List.dropLast_append_of_ne_nil]
    · exact List.mem_append_right _ member
    · rintro none
      simp [none] at member

/-- Every property of the newest record that a modification of it keeps is kept
of the whole queue. -/
theorem modifyLast_cases (records : List Record) (f : Record → Record) :
    (records = [] ∧ records.modifyLast f = []) ∨
      ∃ older r, records = older ++ [r] ∧ records.modifyLast f = older ++ [f r] := by
  rcases List.eq_nil_or_concat records with rfl | ⟨older, r, rfl⟩
  · exact Or.inl ⟨rfl, rfl⟩
  · exact Or.inr ⟨older, r, by simp, by rw [List.concat_eq_append, List.modifyLast_concat]⟩

@[simp]
theorem length_modifyLast (records : List Record) (f : Record → Record) :
    (records.modifyLast f).length = records.length := by
  rcases modifyLast_cases records f with ⟨rfl, same⟩ | ⟨older, r, rfl, same⟩ <;> simp [same]

theorem getElem?_modifyLast (records : List Record) (f : Record → Record)
    (index : Nat) :
    (records.modifyLast f)[index]? =
      if index + 1 = records.length then records[index]?.map f else records[index]? := by
  rcases modifyLast_cases records f with ⟨rfl, same⟩ | ⟨older, r, rfl, same⟩
  · simp [same]
  · rw [same]
    rcases lt_trichotomy index older.length with before | rfl | behind
    · rw [List.getElem?_append_left before, List.getElem?_append_left before, if_neg]
      simp only [List.length_append, List.length_singleton]
      omega
    · simp
    · rw [List.getElem?_eq_none (by simp; omega), List.getElem?_eq_none (by simp; omega)]
      simp

theorem take_modifyLast {records : List Record} (f : Record → Record) {count : Nat}
    (bound : count < records.length) :
    (records.modifyLast f).take count = records.take count := by
  rcases modifyLast_cases records f with ⟨rfl, same⟩ | ⟨older, r, rfl, same⟩
  · simp at bound
  · have older' : count ≤ older.length := by simpa [Nat.lt_succ_iff] using bound
    rw [same, List.take_append_of_le_length older', List.take_append_of_le_length older']

@[simp]
theorem next_closeLast (q : LogQueue) : q.closeLast.next = q.next := by
  simp [LogQueue.closeLast, next]

theorem Valid.closeLast {q : LogQueue} (valid : q.Valid) : q.closeLast.Valid := by
  obtain ⟨countLe, sizeLe, textPos, textLe, closed⟩ := valid
  rcases modifyLast_cases q.records Record.close with ⟨_, same⟩ | ⟨older, r, split, same⟩
  · constructor <;> simp [LogQueue.closeLast, same]
  · rw [split] at countLe sizeLe textPos textLe closed
    constructor <;> simp only [LogQueue.closeLast, same]
    · simpa using countLe
    · simpa [Record.close] using sizeLe
    · intro other member
      rcases List.mem_append.mp member with member | member
      · exact textPos other (by simp [member])
      · obtain rfl := List.mem_singleton.mp member
        exact textPos r (by simp)
    · intro other member
      rcases List.mem_append.mp member with member | member
      · exact textLe other (by simp [member])
      · obtain rfl := List.mem_singleton.mp member
        exact textLe r (by simp)
    · simpa using closed

/-- After closing the newest record all records are final. -/
theorem closeLast_final {q : LogQueue} (valid : q.Valid) :
    ∀ r ∈ q.closeLast.records, r.final = true := by
  rcases modifyLast_cases q.records Record.close with ⟨_, same⟩ | ⟨older, r, split, same⟩
  · simp [LogQueue.closeLast, same]
  · intro other member
    have closed := valid.closed
    simp only [LogQueue.closeLast, same] at member
    rw [split] at closed
    rcases List.mem_append.mp member with member | member
    · exact closed other (by simpa using member)
    · obtain rfl := List.mem_singleton.mp member
      rfl

theorem Valid.push {q : LogQueue} (valid : q.Valid)
    (final : ∀ r ∈ q.records, r.final = true) {r : Record}
    (room : ¬ q.Crowded r.text.length) (pos : 0 < r.text.length)
    (le : r.text.length ≤ KMSG_RECORD_MAX) : (q.push r).Valid := by
  have countLe := valid.count_le
  simp only [Crowded, not_or] at room
  constructor <;> simp only [LogQueue.push]
  · simp only [List.length_append, List.length_singleton]
    omega
  · simp only [textSize_append, textSize_cons, textSize_nil]
    omega
  · intro other member
    rcases List.mem_append.mp member with member | member
    · exact valid.text_pos other member
    · obtain rfl := List.mem_singleton.mp member
      exact pos
  · intro other member
    rcases List.mem_append.mp member with member | member
    · exact valid.text_le other member
    · obtain rfl := List.mem_singleton.mp member
      exact le
  · simpa using final

theorem Valid.extendLast {q : LogQueue} (valid : q.Valid) {caller : BitVec 32}
    {text : List Byte} (continues : q.Continues caller text) :
    (q.extendLast text).Valid := by
  obtain ⟨newest, last, _, _, recordFits, ringFits⟩ := continues
  obtain ⟨countLe, _, textPos, textLe, closed⟩ := valid
  rcases modifyLast_cases q.records (·.extend text) with ⟨none, _⟩ | ⟨older, r, split, same⟩
  · simp [none] at last
  · rw [split] at last ringFits countLe textPos textLe closed
    obtain rfl : r = newest := by simpa using last
    constructor <;> simp only [LogQueue.extendLast, same]
    · simpa using countLe
    · simp only [textSize_append, textSize_cons, textSize_nil, Record.extend,
        List.length_append] at ringFits ⊢
      omega
    · intro other member
      rcases List.mem_append.mp member with member | member
      · exact textPos other (by simp [member])
      · obtain rfl := List.mem_singleton.mp member
        have := textPos r (by simp)
        simp only [Record.extend, List.length_append]
        omega
    · intro other member
      rcases List.mem_append.mp member with member | member
      · exact textLe other (by simp [member])
      · obtain rfl := List.mem_singleton.mp member
        simpa [Record.extend] using recordFits
    · simpa using closed

end LogQueue

end Kmsg

end Av6
