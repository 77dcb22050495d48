import Av6.FmtClosed
import Mathlib.Algebra.Group.Nat.Hom

/-!
# What vsnprintf reads and writes

The reads stay inside the format exactly if the format is closed; then the buffer holds the
text as far as it fits, and nothing behind its terminator has been written.
-/

namespace Av6

namespace Fmt

variable {fmt : List Byte} {ap : VaList} {size : Nat} {buf : Nat → Byte}

theorem runs_of_closed (terminated : 0 ∉ fmt) (closed : Closed fmt) :
    ∃ result, Strict.vsnprintf size (fmt ++ [0]) ap buf = some result := by
  obtain ⟨final, runs⟩ := (@Strict.mainLoop_terminated_iff fmt size (fmt ++ [0]).length
    ap.strings ap.slots (0, buf) terminated (by simp)).mpr closed
  unfold Strict.vsnprintf
  rw [runs]
  exact ⟨_, rfl⟩

/-- Nothing is written behind the terminator of the text, and nothing at all without room. -/
theorem vsnprintf_rest {i : Nat}
    (behind : size = 0 ∨ min (formatted fmt ap).length (size - 1) < i) :
    (vsnprintf size fmt ap buf).2 i = buf i := by
  unfold vsnprintf
  rw [emitChars_eq]
  simp only [Nat.zero_add, Nat.zero_le, true_and, Nat.sub_zero]
  by_cases room : 0 < size
  · have notEnd : i ≠ if (formatted fmt ap).length < size then (formatted fmt ap).length
        else size - 1 := by
      split <;> omega
    rw [if_pos room, Function.update_of_ne notEnd]
    by_cases inBuffer : i < size
    · rw [if_pos inBuffer, List.getElem?_eq_none (by omega), Option.getD_none]
    · rw [if_neg inBuffer]
  · rw [if_neg room, if_neg (by omega)]

/-- The text, or what fits of it, ends in a zero byte. -/
theorem vsnprintf_terminator (room : 0 < size) :
    (vsnprintf size fmt ap buf).2 (min (formatted fmt ap).length (size - 1)) = 0 := by
  have place : min (formatted fmt ap).length (size - 1) =
      if (formatted fmt ap).length < size then (formatted fmt ap).length else size - 1 := by
    split <;> omega
  unfold vsnprintf
  rw [emitChars_eq]
  simp only [Nat.zero_add]
  rw [if_pos room, place, Function.update_self]

/-- The length of the whole text is returned; the buffer gets the characters of the text that
fit before its last byte, one zero byte behind them, and nothing else.  A buffer with room for
all of it holds the text itself. -/
theorem vsnprintf_truncates (terminated : 0 ∉ fmt) (closed : Closed fmt)
    (short : (formatted (fmt ++ [0]) ap).length < 2 ^ 31) (size : Nat) (buf : Nat → Byte) :
    ∃ buf', Strict.vsnprintf size (fmt ++ [0]) ap buf =
        some (((formatted (fmt ++ [0]) ap).length : Int), buf') ∧
      (∀ i, (inText : i < (formatted (fmt ++ [0]) ap).length) → i < size - 1 →
        buf' i = (formatted (fmt ++ [0]) ap).get ⟨i, inText⟩) ∧
      (0 < size → buf' (min (formatted (fmt ++ [0]) ap).length (size - 1)) = 0) ∧
      ∀ i, size = 0 ∨ min (formatted (fmt ++ [0]) ap).length (size - 1) < i →
        buf' i = buf i := by
  obtain ⟨result, runs⟩ := @runs_of_closed fmt ap size buf terminated closed
  have same := Strict.vsnprintf_some runs
  have number : (BitVec.ofNat 32 (formatted (fmt ++ [0]) ap).length).toInt =
      (formatted (fmt ++ [0]) ap).length := by
    rw [BitVec.toInt_ofNat']
    simp only [Int.bmod]
    omega
  refine ⟨result.2, ?_, ?_, ?_, ?_⟩
  · rw [runs, ← number, ← vsnprintf_result size (fmt ++ [0]) ap buf, ← same]
  · intro i inText room
    rw [same]
    exact vsnprintf_text (fmt ++ [0]) ap buf inText (by omega)
  · intro room
    rw [same]
    exact vsnprintf_terminator room
  · intro i behind
    rw [same]
    exact vsnprintf_rest behind

/-- Room for two characters of a text of three. -/
theorem vsnprintf_truncates_char :
    ∃ buf', Strict.vsnprintf 3 ([ascii '%', ascii '4', ascii 'd'] ++ [0]) ⟨[7], fun _ => []⟩
        (fun _ => 1) = some (4, buf') ∧ buf' 0 = ascii ' ' ∧ buf' 2 = 0 ∧ buf' 3 = 1 := by
  have closed : Closed [ascii '%', ascii '4', ascii 'd'] :=
    @Closed.directive (ascii 'd') _ [] (by decide) .nil
  obtain ⟨buf', runs, text, terminator, rest⟩ := @vsnprintf_truncates _ ⟨[7], fun _ => []⟩
    (by decide) closed (by decide) 3 (fun _ => 1)
  exact ⟨buf', runs, text 0 (by decide) (by decide), terminator (by decide),
    rest 3 (by decide)⟩

/-- The formatter reads no byte past the terminator of the format exactly if the format does
not end inside a directive. -/
theorem vsnprintf_inside_iff (terminated : 0 ∉ fmt) (ap : VaList) (size : Nat)
    (buf : Nat → Byte) :
    (∃ result, Strict.vsnprintf size (fmt ++ [0]) ap buf = some result) ↔ Closed fmt := by
  constructor
  · rintro ⟨result, runs⟩
    obtain ⟨final, runs, -⟩ := Option.bind_eq_some_iff.mp runs
    exact (Strict.mainLoop_terminated_iff terminated (by simp)).mp ⟨final, runs⟩
  · intro closed
    exact runs_of_closed terminated closed

theorem vsnprintf_inside_percent :
    (∃ result, Strict.vsnprintf 8 ([ascii '%', ascii '%'] ++ [0]) ⟨[], fun _ => []⟩
      (fun _ => 0) = some result) ↔ Closed [ascii '%', ascii '%'] :=
  vsnprintf_inside_iff (by decide) _ _ _

/-- A percent sign at the end of the format takes the formatter past the terminator. -/
theorem vsnprintf_leaves_format :
    ¬ ∀ (fmt : List Byte) (ap : VaList) (size : Nat) (buf : Nat → Byte), 0 ∉ fmt →
      ∃ result, Strict.vsnprintf size (fmt ++ [0]) ap buf = some result := by
  intro inside
  obtain ⟨result, runs⟩ := inside [ascii '%'] ⟨[], fun _ => []⟩ 8 (fun _ => 0) (by decide)
  cases runs

end Fmt

end Av6
