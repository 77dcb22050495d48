import Mathlib.Data.Nat.Digits.Lemmas

/-!
# Numerals

Numbers written in a base, most significant digit first, in any alphabet whose symbols for the
digits can be told apart, and read back.
-/

namespace Av6

namespace Numerals

variable {α : Type*} (digit : Nat → α) (value : α → Option Nat) (base : Nat)

/-- The digits of a number, least significant first; zero has one digit too. -/
def digitsOf (v : Nat) : List Nat :=
  if v = 0 then [0] else Nat.digits base v

/-- The numeral of a number. -/
def numeral (v : Nat) : List α :=
  ((digitsOf base v).map digit).reverse

/-- One more digit of a number that is read. -/
def readDigit (v : Nat) (c : α) : Option Nat :=
  (value c).bind fun d => if d < base then some (v * base + d) else none

/-- The number that a string of digits denotes. -/
def readDigits (text : List α) : Option Nat :=
  text.foldlM (readDigit value base) 0

section Digits

variable {base : Nat} {v : Nat}

theorem digitsOf_ne_nil : digitsOf base v ≠ [] := by
  unfold digitsOf
  split
  · exact List.cons_ne_nil 0 []
  · rename_i positive
    exact Nat.digits_ne_nil_iff_ne_zero.mpr positive

theorem digitsOf_lt (large : 1 < base) {d : Nat} (member : d ∈ digitsOf base v) : d < base := by
  unfold digitsOf at member
  split at member
  · rw [List.mem_singleton] at member
    omega
  · exact Nat.digits_lt_base large member

theorem ofDigits_digitsOf : Nat.ofDigits base (digitsOf base v) = v := by
  unfold digitsOf
  split
  · rename_i zero
    rw [zero]
    rfl
  · exact Nat.ofDigits_digits base v

theorem digitsOf_step (large : 1 < base) :
    digitsOf base v = v % base :: if v / base = 0 then [] else digitsOf base (v / base) := by
  unfold digitsOf
  by_cases zero : v = 0
  · rw [if_pos zero, zero, Nat.zero_mod, Nat.zero_div, if_pos rfl]
  · rw [if_neg zero, Nat.digits_def' large (Nat.pos_of_ne_zero zero)]
    by_cases last : v / base = 0
    · rw [if_pos last, last, Nat.digits_zero]
    · rw [if_neg last, if_neg last]

theorem length_digitsOf_le {n : Nat} (large : 1 < base) (positive : 0 < n)
    (small : v < base ^ n) : (digitsOf base v).length ≤ n := by
  unfold digitsOf
  split
  · exact positive
  · exact (Nat.digits_length_le_iff large v).mpr small

end Digits

section Reading

variable {digit value base} {v : Nat}

theorem readDigits_append (text : List α) (c : α) :
    readDigits value base (text ++ [c]) =
      (readDigits value base text).bind fun v => readDigit value base v c := by
  unfold readDigits
  rw [List.foldlM_append]
  cases List.foldlM (readDigit value base) 0 text with
  | none => rfl
  | some v => simp

theorem readDigits_reverse (inverse : ∀ d < base, value (digit d) = some d) {ds : List Nat}
    (small : ∀ d ∈ ds, d < base) :
    readDigits value base (ds.map digit).reverse = some (Nat.ofDigits base ds) := by
  induction ds with
  | nil => rfl
  | cons d ds ih =>
      have first := small d List.mem_cons_self
      rw [List.map_cons, List.reverse_cons, readDigits_append,
        ih fun d' member => small d' (List.mem_cons_of_mem d member), Option.bind_some,
        readDigit, inverse d first, Option.bind_some, if_pos first, Nat.ofDigits_cons,
        Nat.mul_comm, Nat.add_comm]

/-- A numeral denotes its number. -/
theorem readDigits_numeral (inverse : ∀ d < base, value (digit d) = some d)
    (large : 1 < base) : readDigits value base (numeral digit base v) = some v := by
  unfold numeral
  rw [readDigits_reverse inverse fun d member => digitsOf_lt large member, ofDigits_digitsOf]

/-- Zeros in front do not change what is read. -/
theorem readDigits_zeros (inverse : ∀ d < base, value (digit d) = some d) (positive : 0 < base)
    (zeros : Nat) (text : List α) :
    readDigits value base (List.replicate zeros (digit 0) ++ text) =
      readDigits value base text := by
  induction zeros with
  | zero => rfl
  | succ zeros ih =>
      have zero : readDigit value base 0 (digit 0) = some 0 := by
        rw [readDigit, inverse 0 positive, Option.bind_some, if_pos positive, Nat.zero_mul]
      rw [← ih]
      unfold readDigits
      rw [List.replicate_succ, List.cons_append, List.foldlM_cons, zero]
      rfl

/-- Only the numeral of zero begins with a zero. -/
theorem numeral_head (inverse : ∀ d < base, value (digit d) = some d) (large : 1 < base)
    (nonzero : v ≠ 0) : (numeral digit base v).head? ≠ some (digit 0) := by
  have digits : Nat.digits base v ≠ [] := Nat.digits_ne_nil_iff_ne_zero.mpr nonzero
  have last := Nat.getLast_digit_ne_zero base nonzero
  unfold numeral digitsOf
  rw [if_neg nonzero, List.head?_reverse, List.getLast?_map,
    List.getLast?_eq_getLast_of_ne_nil digits]
  intro same
  have less : (Nat.digits base v).getLast digits < base :=
    Nat.digits_lt_base large (List.getLast_mem digits)
  have values := congrArg value (Option.some.inj same)
  rw [inverse _ less, inverse 0 (by omega)] at values
  exact last (Option.some.inj values)

theorem length_numeral (v : Nat) :
    (numeral digit base v).length = (digitsOf base v).length := by
  unfold numeral
  rw [List.length_reverse, List.length_map]

end Reading

end Numerals

end Av6
