import Av6.FmtModel
import Av6.Numerals

/-!
# Numbers print reversibly

What `emit_num` emits is padding, a sign or prefix, and the numeral of the number: `tmp` has room
for all its digits in each of the three bases.
-/

namespace Av6

namespace Fmt

open Numerals (digitsOf readDigits)

/-- The value of a character of `digits`. -/
def digitValue (c : Byte) : Option Nat :=
  if 48 ≤ c.toNat ∧ c.toNat ≤ 57 then some (c.toNat - 48)
  else if 97 ≤ c.toNat ∧ c.toNat ≤ 102 then some (c.toNat - 87)
  else none

abbrev numeral (base v : Nat) : List Byte :=
  Numerals.numeral digit base v

/-- A number without a sign, with or without the prefix `0x`. -/
def readUnsigned (base : Nat) (text : List Byte) : Option Nat :=
  let text := if base = 16 ∧ text.take 2 = [ascii '0', ascii 'x'] then text.drop 2 else text
  if text = [] then none else readDigits digitValue base text

/-- Skips spaces and reads a number with or without a sign. -/
def readNumber (base : Nat) (text : List Byte) : Option (Bool × Nat) :=
  let text := text.dropWhile (· = ascii ' ')
  if text.head? = some (ascii '-') then (readUnsigned base text.tail).map (true, ·)
  else (readUnsigned base text).map (false, ·)

def readInt (text : List Byte) : Option Int :=
  (readNumber 10 text).map fun read => if read.1 then -(read.2 : Int) else read.2

theorem digitValue_digit {base : Nat} (known : base ≤ 16) :
    ∀ d < base, digitValue (digit d) = some d := by
  have inverse : ∀ d < 16, digitValue (digit d) = some d := by decide
  exact fun d less => inverse d (Nat.lt_of_lt_of_le less known)

section Digits

variable {base v : Nat}

/-- With room for them, `digitLoop` finds all digits. -/
theorem digitLoop_eq (large : 1 < base) {room : Nat} (positive : 0 < room)
    (small : v < base ^ room) : digitLoop base room v = (digitsOf base v).map digit := by
  induction room generalizing v with
  | zero => omega
  | succ room ih =>
      rw [digitLoop, Numerals.digitsOf_step large]
      by_cases last : v / base = 0
      · rw [if_pos last, if_pos last]
        rfl
      · have less : v / base < base ^ room := by
          rw [Nat.div_lt_iff_lt_mul (by omega), ← Nat.pow_succ]
          exact small
        have room' : 0 < room := by
          by_contra none
          rw [Nat.eq_zero_of_not_pos none, Nat.pow_zero] at less
          exact last (Nat.lt_one_iff.mp less)
        rw [if_neg last, if_neg last, List.map_cons, ih room' less]

variable (known : base = 8 ∨ base = 10 ∨ base = 16) (small : v < 2 ^ 64)
include known small

theorem tmp_eq : digitLoop base 32 v = (digitsOf base v).map digit := by
  have larger : 2 ^ 64 ≤ base ^ 32 := by
    rcases known with rfl | rfl | rfl
    all_goals norm_num
  exact digitLoop_eq (by omega) (by decide) (by omega)

theorem length_tmp_le : (digitLoop base 32 v).length ≤ 22 := by
  have larger : 2 ^ 64 ≤ base ^ 22 := by
    rcases known with rfl | rfl | rfl
    all_goals norm_num
  rw [tmp_eq known small, List.length_map]
  exact Numerals.length_digitsOf_le (by omega) (by decide) (by omega)

end Digits

section Reading

variable {base : Nat} {text : List Byte}

/-- A string of digits has neither a space nor a sign nor the letter of a prefix. -/
theorem not_mem_of_digits (digits : ∀ c ∈ text, (digitValue c).isSome) {c : Byte}
    (other : digitValue c = none) : c ∉ text := by
  intro member
  have value := digits c member
  rw [other] at value
  cases value

theorem readUnsigned_digits (digits : ∀ c ∈ text, (digitValue c).isSome)
    (nonempty : text ≠ []) : readUnsigned base text = readDigits digitValue base text := by
  have noPrefix : text.take 2 ≠ [ascii '0', ascii 'x'] := by
    intro same
    have member : ascii 'x' ∈ text := List.mem_of_mem_take (by rw [same]; simp)
    exact not_mem_of_digits digits (by decide) member
  have whole : (if base = 16 ∧ text.take 2 = [ascii '0', ascii 'x'] then text.drop 2
      else text) = text := if_neg (fun h => noPrefix h.2)
  unfold readUnsigned
  rw [whole]
  exact if_neg nonempty

theorem readUnsigned_prefix (nonempty : text ≠ []) :
    readUnsigned 16 (ascii '0' :: ascii 'x' :: text) = readDigits digitValue 16 text :=
  if_neg nonempty

theorem head_ne {c c' : Byte} (other : c ≠ c') : (c :: text).head? ≠ some c' :=
  fun same => other (Option.some.inj same)

theorem readNumber_spaces (spaces : Nat) (behind : text.head? ≠ some (ascii ' ')) :
    readNumber base (List.replicate spaces (ascii ' ') ++ text) =
      if text.head? = some (ascii '-') then (readUnsigned base text.tail).map (true, ·)
      else (readUnsigned base text).map (false, ·) := by
  have skipped : (List.replicate spaces (ascii ' ') ++ text).dropWhile (· = ascii ' ') = text := by
    induction spaces with
    | zero =>
        cases text with
        | nil => rfl
        | cons c text =>
            have other : c ≠ ascii ' ' := fun same => behind (congrArg _ same)
            exact List.dropWhile_cons_of_neg (by simpa using other)
    | succ spaces ih =>
        rw [List.replicate_succ, List.cons_append, List.dropWhile_cons_of_pos (by simp)]
        exact ih
  unfold readNumber
  rw [skipped]

end Reading

section Emitted

variable {v : Nat} {neg : Bool} {spec : FmtSpec}

/-- Zeros and the numeral of a number. -/
def paddedDigits (base zeros v : Nat) : List Byte :=
  List.replicate zeros (ascii '0') ++ numeral base v

theorem numeral_ne_nil {base : Nat} : numeral base v ≠ [] := by
  unfold numeral Numerals.numeral
  simp [Numerals.digitsOf_ne_nil]

theorem paddedDigits_ne_nil {base zeros : Nat} : paddedDigits base zeros v ≠ [] := by
  unfold paddedDigits
  intro nil
  exact numeral_ne_nil (List.append_eq_nil_iff.mp nil).2

theorem digits_of_padded {base zeros : Nat} (large : 1 < base) (known : base ≤ 16) :
    ∀ c ∈ paddedDigits base zeros v, (digitValue c).isSome := by
  intro c member
  rcases List.mem_append.mp member with zero | inNumeral
  · rw [List.eq_of_mem_replicate zero]
    decide
  · obtain ⟨d, inDigits, rfl⟩ := List.mem_map.mp (List.mem_reverse.mp inNumeral)
    rw [digitValue_digit known d (Numerals.digitsOf_lt large inDigits)]
    rfl

theorem readDigits_padded {base zeros : Nat} (large : 1 < base) (known : base ≤ 16) :
    readDigits digitValue base (paddedDigits base zeros v) = some v := by
  have inverse := digitValue_digit known
  calc readDigits digitValue base (paddedDigits base zeros v)
      = readDigits digitValue base (numeral base v) :=
        Numerals.readDigits_zeros inverse (by omega) zeros _
    _ = some v := Numerals.readDigits_numeral inverse large

/-- What `emit_num` emits: spaces, sign or prefix, zeros, and the numeral. -/
theorem emitNum_shape (known : spec.base = 8 ∨ spec.base = 10 ∨ spec.base = 16)
    (small : v < 2 ^ 64) :
    ∃ pad : Nat, emitNum v neg spec =
      List.replicate (if spec.zero then 0 else pad) (ascii ' ') ++
        (numPrefix neg spec ++ paddedDigits spec.base (if spec.zero then pad else 0) v) := by
  refine ⟨(spec.width.toInt - (digitLoop spec.base 32 v).length -
    (numPrefix neg spec).length).toNat, ?_⟩
  unfold emitNum paddedDigits numeral Numerals.numeral
  rw [← tmp_eq known small]
  cases spec.zero with
  | true => simp
  | false => simp

/-- The prefix and the digits are read back, with the sign. -/
theorem readNumber_emitted (known : spec.base = 8 ∨ spec.base = 10 ∨ spec.base = 16)
    (spaces zeros : Nat) :
    readNumber spec.base (List.replicate spaces (ascii ' ') ++
      (numPrefix neg spec ++ paddedDigits spec.base zeros v)) = some (neg, v) := by
  have large : 1 < spec.base := by omega
  have known' : spec.base ≤ 16 := by omega
  have digits : ∀ zeros, ∀ c ∈ paddedDigits spec.base zeros v, (digitValue c).isSome :=
    fun zeros => digits_of_padded large known'
  have plain : ∀ zeros, (readUnsigned spec.base (paddedDigits spec.base zeros v)).map (false, ·) =
      some (false, v) := by
    intro zeros
    rw [readUnsigned_digits (digits zeros) paddedDigits_ne_nil,
      readDigits_padded large known', Option.map_some]
  have first : ∀ zeros, ∀ c, digitValue c = none →
      (paddedDigits spec.base zeros v).head? ≠ some c := by
    intro zeros c other head
    exact not_mem_of_digits (digits zeros) other (List.mem_of_mem_head? head)
  unfold numPrefix
  split_ifs with sign alt hex
  · rw [List.singleton_append, readNumber_spaces spaces (head_ne (by decide)),
      List.head?_cons, if_pos rfl, List.tail_cons,
      readUnsigned_digits (digits zeros) paddedDigits_ne_nil, readDigits_padded large known',
      sign, Option.map_some]
  · rw [List.cons_append, List.singleton_append,
      readNumber_spaces spaces (head_ne (by decide)), if_neg (head_ne (by decide)), hex,
      readUnsigned_prefix paddedDigits_ne_nil, ← hex, readDigits_padded large known',
      Option.map_some]
    simp [sign]
  · have longer : [ascii '0'] ++ paddedDigits spec.base zeros v =
        paddedDigits spec.base (zeros + 1) v := by
      unfold paddedDigits
      rw [List.replicate_succ, List.singleton_append, List.cons_append]
    rw [longer, readNumber_spaces spaces (first _ _ (by decide)),
      if_neg (first _ _ (by decide)), plain]
    simp [sign]
  · rw [List.nil_append, readNumber_spaces spaces (first _ _ (by decide)),
      if_neg (first _ _ (by decide)), plain]
    simp [sign]

end Emitted

/-- The text of a number: behind spaces, a sign or a prefix, and zeros stands its numeral, all
digits of which fit `tmp`, and reading the text gives back the sign and the number. -/
structure Reversible (v : Nat) (neg : Bool) (spec : FmtSpec) : Prop where
  shape : ∃ spaces zeros, emitNum v neg spec =
    List.replicate spaces (ascii ' ') ++ numPrefix neg spec ++
      List.replicate zeros (ascii '0') ++ numeral spec.base v
  denotes : readDigits digitValue spec.base (numeral spec.base v) = some v
  canonical : v ≠ 0 → (numeral spec.base v).head? ≠ some (ascii '0')
  whole : (digitLoop spec.base 32 v).reverse = numeral spec.base v
  fits : (digitLoop spec.base 32 v).length ≤ 22
  reads : readNumber spec.base (emitNum v neg spec) = some (neg, v)

theorem reversible {v : Nat} {neg : Bool} {spec : FmtSpec}
    (known : spec.base = 8 ∨ spec.base = 10 ∨ spec.base = 16) (small : v < 2 ^ 64) :
    Reversible v neg spec := by
  have large : 1 < spec.base := by omega
  have inverse := digitValue_digit (by omega : spec.base ≤ 16)
  obtain ⟨pad, text⟩ := @emitNum_shape v neg spec known small
  constructor
  · refine ⟨if spec.zero then 0 else pad, if spec.zero then pad else 0, ?_⟩
    rw [text, List.append_assoc, List.append_assoc]
    rfl
  · exact Numerals.readDigits_numeral inverse large
  · exact Numerals.numeral_head inverse large
  · rw [tmp_eq known small]
    rfl
  · exact length_tmp_le known small
  · rw [text]
    exact readNumber_emitted known _ _

/-- A signed number of 64 bits is read back, the least one too. -/
theorem readInt_convert (strings : BitVec 64 → List Byte) (slot : BitVec 64) {spec : FmtSpec}
    (decimal : spec.base = 10) (long : spec.long = true) :
    readInt (convert strings (ascii 'd') spec slot) = some slot.toInt := by
  have range : slot.toInt.natAbs < 2 ^ 64 := by
    have least := BitVec.le_toInt slot
    have greatest := BitVec.toInt_lt (x := slot)
    omega
  have read := (@reversible _ (decide (slot.toInt < 0)) spec (.inr (.inl decimal)) range).reads
  rw [decimal] at read
  unfold convert readInt signedArg
  rw [if_pos rfl, if_pos long, read, Option.map_some]
  by_cases negative : slot.toInt < 0
  · have value := Int.eq_neg_natAbs_of_nonpos (Int.le_of_lt negative)
    simp only [negative, decide_true, if_true]
    exact congrArg some value.symm
  · have value := Int.natAbs_of_nonneg (Int.not_lt.mp negative)
    simp only [negative, decide_false, Bool.false_eq_true, if_false]
    exact congrArg some value

/-- What `emit_num` emits can be read back in every base, and `%ld` prints every signed number
of 64 bits so that it is read back. -/
theorem numbers_reversible :
    (∀ (v : Nat) (neg : Bool) (spec : FmtSpec), v < 2 ^ 64 →
      (spec.base = 8 ∨ spec.base = 10 ∨ spec.base = 16) → Reversible v neg spec) ∧
    ∀ (slot : BitVec 64) (slots : List (BitVec 64)) (strings : BitVec 64 → List Byte),
      readInt (formatted [ascii '%', ascii 'l', ascii 'd', 0] ⟨slot :: slots, strings⟩) =
        some slot.toInt := by
  constructor
  · intro v neg spec small known
    exact reversible known small
  · intro slot slots strings
    have text : formatted [ascii '%', ascii 'l', ascii 'd', 0] ⟨slot :: slots, strings⟩ =
        convert strings (ascii 'd') ⟨10, false, false, true, 0⟩ slot ++ [] := rfl
    rw [text, List.append_nil]
    exact readInt_convert strings slot rfl rfl

/-- The longest numeral, and the least signed number. -/
theorem numbers_reversible_extremes :
    Reversible 0xffffffffffffffff false ⟨8, true, true, false, 40⟩ ∧
      readInt (formatted [ascii '%', ascii 'l', ascii 'd', 0]
        ⟨[0x8000000000000000#64], fun _ => []⟩) = some (0x8000000000000000#64).toInt :=
  ⟨numbers_reversible.1 _ _ _ (by norm_num) (.inl rfl), numbers_reversible.2 _ _ _⟩

end Fmt

end Av6
