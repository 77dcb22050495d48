import Mathlib.Data.List.Basic
import Mathlib.Logic.Function.Basic

/-!
# Formatted output

`vsnprintf` of `libkern/fmt.c`.  Every emitter of the source stores a character while there
is room and counts it in any case, so the model collects the characters in order and stores
them one by one.  The format is the bytes from the format pointer on: a zero byte ends it,
unless a conversion has skipped over it, and the list ends where nothing more is known.
-/

namespace Av6

namespace Fmt

abbrev Byte := BitVec 8

instance decidableMem (b : Byte) (l : List Byte) : Decidable (b ∈ l) :=
  List.instDecidableMemOfLawfulBEq b l

def ascii (c : Char) : Byte := BitVec.ofNat 8 c.toNat

/-- A `va_list`: the 64-bit slots that are left, and the strings that pointers lead to. -/
structure VaList where
  slots : List (BitVec 64)
  strings : BitVec 64 → List Byte

/-- `struct fmt_spec`, with a field for each flag that the functions test. -/
structure FmtSpec where
  base : Nat
  alt : Bool
  zero : Bool
  long : Bool
  width : BitVec 16

/-- The characters of `digits`. -/
def digit (d : Nat) : Byte :=
  if d < 10 then BitVec.ofNat 8 (d + 48) else BitVec.ofNat 8 (d + 87)

/-- The digits of a number, last first, while there is room for them in `tmp`. -/
def digitLoop (base : Nat) : Nat → Nat → List Byte
  | 0, _ => []
  | room + 1, v =>
      digit (v % base) :: if v / base = 0 then [] else digitLoop base room (v / base)

/-- Sign or prefix of a number. -/
def numPrefix (neg : Bool) (spec : FmtSpec) : List Byte :=
  if neg then [ascii '-']
  else if spec.alt then
    if spec.base = 16 then [ascii '0', ascii 'x'] else [ascii '0']
  else []

/-- What `emit_num` emits. -/
def emitNum (v : Nat) (neg : Bool) (spec : FmtSpec) : List Byte :=
  let tmp := digitLoop spec.base 32 v
  let pfx := numPrefix neg spec
  let pad := (spec.width.toInt - tmp.length - pfx.length).toNat
  (if spec.zero then [] else List.replicate pad (ascii ' ')) ++ pfx ++
    (if spec.zero then List.replicate pad (ascii '0') else []) ++ tmp.reverse

/-- The loop of `decode` over the flags. -/
def decodeFlags : List Byte → FmtSpec → List Byte × FmtSpec
  | [], spec => ([], spec)
  | c :: fmt, spec =>
      if c = ascii '#' then decodeFlags fmt { spec with alt := true }
      else if c = ascii '0' then decodeFlags fmt { spec with zero := true }
      else (c :: fmt, spec)

/-- The loop of `decode` over the width; the width is a 16-bit word. -/
def decodeWidth : List Byte → FmtSpec → List Byte × FmtSpec
  | [], spec => ([], spec)
  | c :: fmt, spec =>
      if ascii '1' ≤ c ∧ c ≤ ascii '9' then
        decodeWidth fmt
          { spec with width := spec.width * 10 + BitVec.ofNat 16 (c.toNat - 48) }
      else (c :: fmt, spec)

/-- `decode`: what is left of the format, and the specification. -/
def decode (fmt : List Byte) : List Byte × FmtSpec :=
  let (fmt, spec) := decodeFlags fmt ⟨10, false, false, false, 0⟩
  let (fmt, spec) := decodeWidth fmt spec
  if fmt.head? = some (ascii 'l') then (fmt.tail, { spec with long := true })
  else (fmt, spec)

/-- `va_arg` of a signed number. -/
def signedArg (long : Bool) (slot : BitVec 64) : Int :=
  if long then slot.toInt else (slot.truncate 32).toInt

/-- `va_arg` of an unsigned number. -/
def unsignedArg (long : Bool) (slot : BitVec 64) : Nat :=
  if long then slot.toNat else (slot.truncate 32).toNat

/-- `"(null)"` -/
def nullText : List Byte := ['(', 'n', 'u', 'l', 'l', ')'].map ascii

/-- The conversions that take an argument. -/
def takesArg (c : Byte) : Bool :=
  c ∈ ['d', 'x', 'o', 'u', 'p', 's', 'c'].map ascii

/-- What one conversion emits, given the slot that is next in the list. -/
def convert (strings : BitVec 64 → List Byte) (c : Byte) (spec : FmtSpec)
    (slot : BitVec 64) : List Byte :=
  if c = ascii 'd' then
    let sv := signedArg spec.long slot
    emitNum sv.natAbs (decide (sv < 0)) spec
  else if c = ascii 'x' then emitNum (unsignedArg spec.long slot) false { spec with base := 16 }
  else if c = ascii 'o' then emitNum (unsignedArg spec.long slot) false { spec with base := 8 }
  else if c = ascii 'u' then emitNum (unsignedArg spec.long slot) false spec
  else if c = ascii 'p' then
    emitNum slot.toNat false { spec with base := 16, alt := true, zero := true, width := 18 }
  else if c = ascii 's' then if slot = 0 then nullText else strings slot
  else if c = ascii 'c' then [slot.truncate 8]
  else if c = ascii '%' then [ascii '%']
  else [ascii '%', c]

/-- The characters that the main loop emits; each round consumes a byte of the format. -/
def formatLoop (strings : BitVec 64 → List Byte) :
    Nat → List Byte → List (BitVec 64) → List Byte
  | 0, _, _ => []
  | _ + 1, [], _ => []
  | rounds + 1, c :: fmt, slots =>
      if c = 0 then []
      else if c ≠ ascii '%' then c :: formatLoop strings rounds fmt slots
      else
        let (fmt, spec) := decode fmt
        let c := fmt.headD 0
        convert strings c spec (slots.headD 0) ++
          formatLoop strings rounds fmt.tail (if takesArg c then slots.tail else slots)

/-- The formatted text, as long as it is. -/
def formatted (fmt : List Byte) (ap : VaList) : List Byte :=
  formatLoop ap.strings fmt.length fmt ap.slots

/-- `emit_char`: the position advances also when there is no room. -/
def emitChar (size : Nat) (out : Nat × (Nat → Byte)) (c : Byte) : Nat × (Nat → Byte) :=
  (out.1 + 1, if out.1 < size then Function.update out.2 out.1 c else out.2)

/-- `vsnprintf` into a buffer of `size` bytes: the return value, an `int`, and the buffer. -/
def vsnprintf (size : Nat) (fmt : List Byte) (ap : VaList) (buf : Nat → Byte) :
    Int × (Nat → Byte) :=
  let (str, buf) := (formatted fmt ap).foldl (emitChar size) (0, buf)
  ((BitVec.ofNat 32 str).toInt,
    if 0 < size then Function.update buf (if str < size then str else size - 1) 0 else buf)

theorem emitChar_apply (size str i : Nat) (buf : Nat → Byte) (c : Byte) :
    (emitChar size (str, buf) c).2 i = if i = str ∧ str < size then c else buf i := by
  unfold emitChar
  by_cases here : i = str <;> by_cases room : str < size <;> simp [here, room]

theorem emitChars_eq (size : Nat) (text : List Byte) (str : Nat) (buf : Nat → Byte) :
    text.foldl (emitChar size) (str, buf) =
      (str + text.length, fun i =>
        if str ≤ i ∧ i < size then text[i - str]?.getD (buf i) else buf i) := by
  induction text generalizing str buf with
  | nil => simp
  | cons c text ih =>
      have step : emitChar size (str, buf) c = (str + 1, (emitChar size (str, buf) c).2) := rfl
      rw [List.foldl_cons, step, ih, List.length_cons]
      apply Prod.ext
      · dsimp only
        omega
      · funext i
        dsimp only
        rw [emitChar_apply]
        rcases Nat.lt_trichotomy i str with before | rfl | behind
        · rw [if_neg (by omega), if_neg (by omega), if_neg (by omega)]
        · by_cases room : i < size
          · rw [if_neg (by omega), if_pos ⟨rfl, room⟩, if_pos ⟨Nat.le_refl i, room⟩]
            simp
          · rw [if_neg (by omega), if_neg (by omega), if_neg (by omega)]
        · have index : i - str = (i - (str + 1)) + 1 := by omega
          rw [if_neg (by omega : ¬ (i = str ∧ str < size)), index, List.getElem?_cons_succ]
          by_cases room : i < size
          · rw [if_pos ⟨by omega, room⟩, if_pos ⟨by omega, room⟩]
          · rw [if_neg (by omega), if_neg (by omega)]

/-- The length of the text is returned, as an `int`, also when the text has been cut. -/
theorem vsnprintf_result (size : Nat) (fmt : List Byte) (ap : VaList) (buf : Nat → Byte) :
    (vsnprintf size fmt ap buf).1 = (BitVec.ofNat 32 (formatted fmt ap).length).toInt := by
  unfold vsnprintf
  rw [emitChars_eq]
  simp

/-- The buffer holds the text, or as much of it as fits before the last byte. -/
theorem vsnprintf_text {size : Nat} (fmt : List Byte) (ap : VaList) (buf : Nat → Byte) {i : Nat}
    (inText : i < (formatted fmt ap).length) (room : i + 1 < size) :
    (vsnprintf size fmt ap buf).2 i = (formatted fmt ap).get ⟨i, inText⟩ := by
  have positive : 0 < size := by omega
  have notEnd : i ≠ if (formatted fmt ap).length < size then (formatted fmt ap).length
      else size - 1 := by
    split <;> omega
  unfold vsnprintf
  rw [emitChars_eq]
  simp only [Nat.zero_add, positive, if_true, Function.update_of_ne notEnd]
  rw [if_pos ⟨Nat.zero_le i, by omega⟩]
  simp [inText]

/-- A text that does not fit ends in a zero byte at the end of the buffer. -/
theorem vsnprintf_cut {size : Nat} (fmt : List Byte) (ap : VaList) (buf : Nat → Byte)
    (positive : 0 < size) (cut : size ≤ (formatted fmt ap).length) :
    (vsnprintf size fmt ap buf).2 (size - 1) = 0 := by
  unfold vsnprintf
  rw [emitChars_eq]
  simp only [Nat.zero_add, positive, if_true]
  rw [if_neg (by omega), Function.update_self]

end Fmt

end Av6
