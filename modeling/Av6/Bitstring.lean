import Mathlib.Data.List.Basic
import Mathlib.Algebra.Group.Nat.Hom
import Mathlib.Data.Nat.Find
import Mathlib.Tactic.Ring

/-!
# Bit arrays

`sys/bitstring.h`: an array of 64-bit words, bit `b` being bit `b % 64` of word
`b / 64`.  `bitFfc` searches a word at a time, and finds the first clear bit.
-/

namespace Av6

namespace Bitstring

abbrev Bitstr := List (BitVec 64)

/-- `_BIT_MASK` -/
def bitMask (b : Nat) : BitVec 64 := 1#64 <<< (b % 64)

def bitSet (a : Bitstr) (b : Nat) : Bitstr := a.modify (b / 64) (· ||| bitMask b)

def bitClear (a : Bitstr) (b : Nat) : Bitstr := a.modify (b / 64) (· &&& ~~~bitMask b)

def bitTest (a : Bitstr) (b : Nat) : Bool := (a.getD (b / 64) 0 &&& bitMask b) != 0

/-- `BITSTR_NWORDS`, in the arithmetic of `int`. -/
def bitstrNwords (nbits : Int) : Int := (nbits + 63).tdiv 64

/-- The loop of `bit_ffc` over the words from number `w` on. -/
def bitFfcFrom (nbits : Int) (w : Nat) : List (BitVec 64) → Int
  | [] => -1
  | word :: rest =>
      if ~~~word ≠ 0 then
        let bit : Int := w * 64 + (~~~word).ctz.toNat
        if bit < nbits then bit else -1
      else bitFfcFrom nbits (w + 1) rest

def bitFfc (a : Bitstr) (nbits : Int) : Int :=
  bitFfcFrom nbits 0 (a.take (bitstrNwords nbits).toNat)

/-- The number of set bits below `n`. -/
def popcount (a : Bitstr) (n : Nat) : Nat := (List.range n).countP (bitTest a)

variable {a : Bitstr} {b c n : Nat}

theorem and_shifted_ne_zero (word : BitVec 64) (i : Nat) :
    ((word &&& (1#64 <<< i)) != 0) = word.getLsbD i := by
  rw [Bool.eq_iff_iff, bne_iff_ne, ne_eq, ← BitVec.twoPow_eq, BitVec.and_twoPow]
  split
  · rename_i set
    simp only [set, iff_true]
    intro zero
    have bit := congrArg (BitVec.getLsbD · i) zero
    have inside := BitVec.lt_of_getLsbD set
    simp [inside] at bit
  · rename_i clear
    simpa using clear

theorem bitTest_eq (a : Bitstr) (b : Nat) :
    bitTest a b = (a.getD (b / 64) 0).getLsbD (b % 64) :=
  and_shifted_ne_zero _ _

theorem getLsbD_bitMask (i : Nat) :
    (bitMask b).getLsbD i = decide (i = b % 64) := by
  rw [bitMask, ← BitVec.twoPow_eq, BitVec.getLsbD_twoPow]
  have : b % 64 < 64 := Nat.mod_lt _ (by decide)
  simp [this, eq_comm]

theorem eq_of_div_of_mod (word : c / 64 = b / 64) (bit : c % 64 = b % 64) : c = b := by
  omega

theorem getD_modify (f : BitVec 64 → BitVec 64) (inside : b / 64 < a.length) :
    (a.modify (b / 64) f).getD (c / 64) 0 =
      if c / 64 = b / 64 then f (a.getD (c / 64) 0) else a.getD (c / 64) 0 := by
  rw [List.getD_eq_getElem?_getD, List.getD_eq_getElem?_getD, List.getElem?_modify]
  by_cases same : c / 64 = b / 64
  · simp [same, List.getElem?_eq_getElem inside]
  · simp [same, Ne.symm same]

theorem bitTest_bitSet (inside : b / 64 < a.length) :
    bitTest (bitSet a b) c = (decide (c = b) || bitTest a c) := by
  have small : c % 64 < 64 := Nat.mod_lt _ (by decide)
  rw [bitTest_eq, bitTest_eq, bitSet, getD_modify _ inside]
  by_cases word : c / 64 = b / 64
  · rw [if_pos word, BitVec.getLsbD_or, getLsbD_bitMask, Bool.or_comm]
    congr 1
    rw [decide_eq_decide]
    exact ⟨eq_of_div_of_mod word, fun same => by rw [same]⟩
  · have distinct : c ≠ b := fun same => word (by rw [same])
    simp [word, distinct]

theorem bitTest_bitClear (inside : b / 64 < a.length) :
    bitTest (bitClear a b) c = (!decide (c = b) && bitTest a c) := by
  have small : c % 64 < 64 := Nat.mod_lt _ (by decide)
  rw [bitTest_eq, bitTest_eq, bitClear, getD_modify _ inside]
  by_cases word : c / 64 = b / 64
  · rw [if_pos word, BitVec.getLsbD_and, BitVec.getLsbD_not, getLsbD_bitMask,
      Bool.and_comm]
    congr 1
    simp only [small, decide_true, Bool.true_and]
    congr 1
    rw [decide_eq_decide]
    exact ⟨eq_of_div_of_mod word, fun same => by rw [same]⟩
  · have distinct : c ≠ b := fun same => word (by rw [same])
    simp [word, distinct]

@[simp]
theorem length_bitSet (a : Bitstr) (b : Nat) : (bitSet a b).length = a.length :=
  List.length_modify ..

@[simp]
theorem length_bitClear (a : Bitstr) (b : Nat) : (bitClear a b).length = a.length :=
  List.length_modify ..

/-- Bitmaps of one length with the same bits are the same. -/
theorem eq_of_bitTest_eq {a a' : Bitstr} (length : a.length = a'.length)
    (same : ∀ c, bitTest a c = bitTest a' c) : a = a' := by
  apply List.ext_getElem length
  intro w low low'
  apply BitVec.eq_of_getLsbD_eq
  intro i small
  have bit := same (64 * w + i)
  rw [bitTest_eq, bitTest_eq] at bit
  have word : (64 * w + i) / 64 = w := by omega
  have index : (64 * w + i) % 64 = i := by omega
  rw [word, index] at bit
  simpa [low, low'] using bit

/-- A clear bit that is set and cleared again. -/
theorem bitClear_bitSet (inside : b / 64 < a.length) (clear : bitTest a b = false) :
    bitClear (bitSet a b) b = a := by
  apply eq_of_bitTest_eq
  · rw [length_bitClear, length_bitSet]
  · intro c
    rw [bitTest_bitClear (by rwa [length_bitSet]), bitTest_bitSet inside]
    by_cases same : c = b
    · rw [same, clear]
      simp
    · simp [same]

/-- What the search over the words from number `w` on finds. -/
theorem bitFfcFrom_spec (nbits : Int) (w : Nat) (words : List (BitVec 64))
    (long : nbits ≤ (w + words.length) * 64) :
    (∃ b : Nat, bitFfcFrom nbits w words = b ∧ (b : Int) < nbits ∧ w * 64 ≤ b ∧
      bitTest words (b - w * 64) = false ∧
        ∀ i, w * 64 ≤ i → i < b → bitTest words (i - w * 64) = true) ∨
    (bitFfcFrom nbits w words = -1 ∧
      ∀ i : Nat, w * 64 ≤ i → (i : Int) < nbits → bitTest words (i - w * 64) = true) := by
  induction words generalizing w with
  | nil =>
      refine Or.inr ⟨rfl, fun i after below => ?_⟩
      simp only [List.length_nil, Nat.cast_zero, add_zero] at long
      omega
  | cons word rest ih =>
      have inWord : ∀ i, i < 64 → bitTest (word :: rest) i = word.getLsbD i := by
        intro i small
        rw [bitTest_eq, Nat.div_eq_of_lt small, Nat.mod_eq_of_lt small]
        rfl
      have inRest : ∀ i, 64 ≤ i → bitTest (word :: rest) i = bitTest rest (i - 64) := by
        intro i large
        have next : i / 64 = (i - 64) / 64 + 1 := by omega
        have bit : i % 64 = (i - 64) % 64 := by omega
        rw [bitTest_eq, bitTest_eq, next, bit, List.getD_cons_succ]
      unfold bitFfcFrom
      by_cases clear : ~~~word ≠ 0
      · have small : (~~~word).ctz.toNat < 64 := BitVec.ctz_lt_iff_ne_zero.mpr clear
        have found : word.getLsbD (~~~word).ctz.toNat = false := by
          simpa [small] using BitVec.getLsbD_true_ctz_of_ne_zero clear
        have before : ∀ i, i < (~~~word).ctz.toNat → word.getLsbD i = true := by
          intro i less
          have inside : i < 64 := less.trans small
          simpa [inside] using BitVec.getLsbD_false_of_lt_ctz less
        rw [if_pos clear]
        generalize (~~~word).ctz.toNat = j at small found before
        have all : ∀ i, w * 64 ≤ i → i < w * 64 + j →
            bitTest (word :: rest) (i - w * 64) = true := by
          intro i after less
          rw [inWord _ (by omega)]
          exact before _ (by omega)
        dsimp only
        split
        · refine Or.inl ⟨w * 64 + j, by push_cast; ring, by push_cast; assumption, by omega, ?_, all⟩
          rw [Nat.add_sub_cancel_left, inWord j small]
          exact found
        · exact Or.inr ⟨rfl, fun i after below => all i after (by omega)⟩
      · have full : ∀ i, i < 64 → word.getLsbD i = true := by
          intro i small
          have zero := congrArg (BitVec.getLsbD · i) (not_not.mp clear)
          simpa [small] using zero
        rw [if_neg clear]
        have reach : nbits ≤ ((w + 1 : Nat) + rest.length : Int) * 64 := by
          simp only [List.length_cons] at long
          push_cast at long ⊢
          omega
        have shift : ∀ i, (w + 1) * 64 ≤ i →
            bitTest (word :: rest) (i - w * 64) = bitTest rest (i - (w + 1) * 64) := by
          intro i after
          rw [inRest _ (by omega)]
          congr 1
          omega
        have all : ∀ i, w * 64 ≤ i → i < (w + 1) * 64 →
            bitTest (word :: rest) (i - w * 64) = true := by
          intro i after less
          rw [inWord _ (by omega)]
          exact full _ (by omega)
        rcases ih (w + 1) reach with ⟨b, value, below, after, clear, set⟩ | ⟨value, set⟩
        · refine Or.inl ⟨b, value, below, by omega, (shift b after).trans clear, ?_⟩
          intro i after less
          by_cases here : i < (w + 1) * 64
          · exact all i after here
          · rw [shift i (by omega)]
            exact set i (by omega) less
        · refine Or.inr ⟨value, fun i after below => ?_⟩
          by_cases here : i < (w + 1) * 64
          · exact all i after here
          · rw [shift i (by omega)]
            exact set i (by omega) below

/-- Bits of the words that are searched are bits of the array. -/
theorem bitTest_take (a : Bitstr) {m b : Nat} (inside : b < m * 64) :
    bitTest (a.take m) b = bitTest a b := by
  have word : b / 64 < m := by omega
  rw [bitTest_eq, bitTest_eq, List.getD_eq_getElem?_getD, List.getD_eq_getElem?_getD,
    List.getElem?_take_of_lt word]

/-- `bit_ffc` returns the first clear bit below `nbits`, or -1 if there is none. -/
theorem bitFfc_spec (a : Bitstr) (nbits : Nat) (covered : nbits ≤ a.length * 64) :
    (∃ b, bitFfc a nbits = (b : Nat) ∧ b < nbits ∧ bitTest a b = false ∧
      ∀ i < b, bitTest a i = true) ∨
    (bitFfc a nbits = -1 ∧ ∀ i < nbits, bitTest a i = true) := by
  have words : (bitstrNwords nbits).toNat = (nbits + 63) / 64 := by
    rw [bitstrNwords, Int.tdiv_eq_ediv_of_nonneg (by omega)]
    omega
  have reach : nbits ≤ (nbits + 63) / 64 * 64 := by omega
  have search := bitFfcFrom_spec nbits 0 (a.take ((nbits + 63) / 64)) (by
    rw [List.length_take]
    push_cast
    omega)
  unfold bitFfc
  rw [words]
  simp only [Nat.zero_mul, Nat.zero_le, Nat.sub_zero, true_implies, true_and, Nat.cast_lt]
    at search
  rcases search with ⟨b, value, below, clear, set⟩ | ⟨value, set⟩
  · refine Or.inl ⟨b, value, below, ?_, fun i less => ?_⟩
    · rwa [bitTest_take a (by omega)] at clear
    · rw [← bitTest_take a (by omega : i < (nbits + 63) / 64 * 64)]
      exact set i less
  · refine Or.inr ⟨value, fun i less => ?_⟩
    rw [← bitTest_take a (by omega : i < (nbits + 63) / 64 * 64)]
    exact set i less

theorem countP_raise {l : List Nat} (nodup : l.Nodup) (member : b ∈ l) {f g : Nat → Bool}
    (before : f b = false) (after : g b = true) (same : ∀ i, i ≠ b → g i = f i) :
    l.countP g = l.countP f + 1 := by
  induction l with
  | nil => cases member
  | cons i rest ih =>
      rw [List.nodup_cons] at nodup
      rcases List.mem_cons.mp member with rfl | member
      · have rest_ : rest.countP g = rest.countP f := by
          refine List.countP_congr fun j there => ?_
          rw [same j]
          rintro rfl
          exact nodup.1 there
        rw [List.countP_cons, List.countP_cons, before, after, rest_]
        simp
      · have distinct : i ≠ b := by
          rintro rfl
          exact nodup.1 member
        rw [List.countP_cons, List.countP_cons, ih nodup.2 member, same i distinct]
        omega

theorem popcount_bitSet (inside : b / 64 < a.length) (below : b < n)
    (clear : bitTest a b = false) : popcount (bitSet a b) n = popcount a n + 1 := by
  refine countP_raise List.nodup_range (List.mem_range.mpr below) clear ?_ fun i distinct => ?_
  · rw [bitTest_bitSet inside]
    simp
  · rw [bitTest_bitSet inside]
    simp [distinct]

theorem popcount_bitClear (inside : b / 64 < a.length) (below : b < n)
    (set : bitTest a b = true) : popcount (bitClear a b) n + 1 = popcount a n := by
  refine (countP_raise List.nodup_range (List.mem_range.mpr below) ?_ set fun i distinct => ?_).symm
  · rw [bitTest_bitClear inside]
    simp
  · rw [bitTest_bitClear inside]
    simp [distinct]

theorem popcount_eq_iff : popcount a n = n ↔ ∀ b < n, bitTest a b = true := by
  have all := @List.countP_eq_length _ (List.range n) (bitTest a)
  rw [List.length_range] at all
  rw [popcount, all]
  simp

theorem popcount_eq_zero : popcount a n = 0 ↔ ∀ b < n, bitTest a b = false := by
  simp [popcount, List.countP_eq_zero]

theorem popcount_le : popcount a n ≤ n := by
  have bound := List.countP_le_length (p := bitTest a) (l := List.range n)
  rwa [List.length_range] at bound

end Bitstring

end Av6
