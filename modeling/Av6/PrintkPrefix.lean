import Av6.ConsoleOutput

/-!
# What vprintk passes on

`vsnprintf` keeps the last byte of the buffer for its terminator, while `vprintk` cuts the length
at the size of the whole buffer, so that the terminator of a cut text is passed on as a byte of
the text.
-/

namespace Av6

namespace Console

open Kmsg
open Fmt hiding Byte

/-- The bytes that a call of `kmsg_add` is given. -/
def passed (call : KmsgCall) : List Byte :=
  (List.range call.len.toNat).map call.text

/-- The length that `vprintk` passes on for a text of `n` characters. -/
def passedLength (n : Nat) : Nat :=
  let len := (BitVec.ofNat 32 n).toInt
  (BitVec.ofInt 16 (if len > KMSG_RECORD_MAX then (KMSG_RECORD_MAX : Int) else len)).toNat

/-- A text of `n` characters is passed on as a full record: `n` is at least that long as an
`int`, or is negative as an `int` and as long as a record in its low 16 bits. -/
def FillsRecord (n : Nat) : Prop :=
  KMSG_RECORD_MAX ≤ n % 2 ^ 32 ∧ n % 2 ^ 32 < 2 ^ 31 ∨
    2 ^ 31 ≤ n % 2 ^ 32 ∧ n % 2 ^ 16 = KMSG_RECORD_MAX

section Length

variable {n : Nat}

theorem passedLength_of_short (short : n < KMSG_RECORD_MAX) : passedLength n = n := by
  unfold passedLength
  unfold KMSG_RECORD_MAX at *
  rw [BitVec.toInt_ofNat', BitVec.toNat_ofInt]
  simp only [Int.bmod]
  omega

theorem passedLength_eq_iff : passedLength n = KMSG_RECORD_MAX ↔ FillsRecord n := by
  unfold passedLength FillsRecord
  unfold KMSG_RECORD_MAX at *
  rw [BitVec.toInt_ofNat', BitVec.toNat_ofInt]
  simp only [Int.bmod]
  omega

end Length

section Call

variable {call : PrintkCall} {stage : Nat → Byte}

theorem len_kmsgCall : (call.kmsgCall stage).len.toNat = passedLength call.text.length := by
  unfold PrintkCall.kmsgCall passedLength PrintkCall.text
  simp only [vsnprintf_result]

theorem length_passed : (passed (call.kmsgCall stage)).length = passedLength call.text.length := by
  unfold passed
  rw [List.length_map, List.length_range, len_kmsgCall]

theorem getElem_passed {i : Nat} (inRange : i < (passed (call.kmsgCall stage)).length) :
    (passed (call.kmsgCall stage))[i] = (call.kmsgCall stage).text i := by
  simp [passed]

/-- The buffer of `vprintk` holds the text up to its last byte. -/
theorem text_kmsgCall {i : Nat} (inText : i < call.text.length) (room : i + 1 < KMSG_RECORD_MAX) :
    (call.kmsgCall stage).text i = call.text[i] :=
  vsnprintf_text call.format call.arglist stage inText room

/-- The last byte of the buffer is the terminator of a text that has been cut. -/
theorem last_kmsgCall (long : KMSG_RECORD_MAX ≤ call.text.length) :
    (call.kmsgCall stage).text (KMSG_RECORD_MAX - 1) = 0 :=
  vsnprintf_cut call.format call.arglist stage (by decide) long

end Call

/-- With the size of a record as the cap, `vprintk` passes on a prefix of the text exactly if the
text is shorter than a record, or if it fills one and has a NUL of its own where the terminator
of the buffer stands. -/
theorem passes_prefix_iff (call : PrintkCall) (stage : Nat → Byte) :
    passed (call.kmsgCall stage) =
        call.text.take (min call.text.length KMSG_RECORD_MAX) ↔
      call.text.length < KMSG_RECORD_MAX ∨
        (FillsRecord call.text.length ∧ call.text[KMSG_RECORD_MAX - 1]? = some 0) := by
  rcases Nat.lt_or_ge call.text.length KMSG_RECORD_MAX with short | long
  · have length := (@length_passed call stage).trans
      (passedLength_of_short short)
    refine ⟨fun _ => .inl short, fun _ => ?_⟩
    rw [Nat.min_eq_left (Nat.le_of_lt short), List.take_length]
    apply List.ext_getElem length
    intro i inRange inText
    rw [getElem_passed, text_kmsgCall inText (by omega)]
  · have last : KMSG_RECORD_MAX - 1 < call.text.length := by
      unfold KMSG_RECORD_MAX at *
      omega
    rw [Nat.min_eq_right long, List.getElem?_eq_getElem last, Option.some.injEq,
      or_iff_right (Nat.not_lt.mpr long), ← passedLength_eq_iff,
      ← @length_passed call stage]
    constructor
    · intro same
      have length : (passed (call.kmsgCall stage)).length = KMSG_RECORD_MAX := by
        rw [same, List.length_take, Nat.min_eq_left long]
      refine ⟨length, ?_⟩
      have inRange : KMSG_RECORD_MAX - 1 < (passed (call.kmsgCall stage)).length := by
        rw [length]
        decide
      have final := getElem_passed inRange
      rw [last_kmsgCall long] at final
      rw [← final]
      simp only [same, List.getElem_take]
    · rintro ⟨length, nul⟩
      apply List.ext_getElem
      · rw [length, List.length_take, Nat.min_eq_left long]
      · intro i inRange inText
        rw [getElem_passed, List.getElem_take]
        rcases Nat.lt_or_ge (i + 1) KMSG_RECORD_MAX with room | full
        · exact text_kmsgCall _ room
        · have here : i = KMSG_RECORD_MAX - 1 := by omega
          subst here
          rw [last_kmsgCall long]
          exact nul.symm

/-- A message as long as a record, of one letter. -/
def fullCall : PrintkCall :=
  ⟨0, none, 6, List.replicate KMSG_RECORD_MAX (ascii 'x') ++ [0], ⟨[], fun _ => []⟩, 0⟩

/-- No cap makes what is passed on a prefix of every text. -/
theorem no_cap :
    ¬ ∃ cap ≤ KMSG_RECORD_MAX, ∀ (call : PrintkCall) (stage : Nat → Byte),
      passed (call.kmsgCall stage) = call.text.take (min call.text.length cap) := by
  rintro ⟨cap, -, passes⟩
  have text : fullCall.text = List.replicate KMSG_RECORD_MAX (ascii 'x') := by decide +kernel
  have full : fullCall.text.length = KMSG_RECORD_MAX := by
    rw [text, List.length_replicate]
  have inRange : KMSG_RECORD_MAX - 1 < (passed (fullCall.kmsgCall fun _ => 0)).length := by
    rw [length_passed, full]
    decide
  have last := getElem_passed inRange
  rw [last_kmsgCall (Nat.le_of_eq full.symm)] at last
  have member : (0 : Byte) ∈ fullCall.text := by
    rw [← last]
    apply List.mem_of_mem_take
    rw [← passes fullCall fun _ => 0]
    exact List.getElem_mem inRange
  rw [text] at member
  exact absurd (List.eq_of_mem_replicate member) (by decide)

end Console

end Av6
