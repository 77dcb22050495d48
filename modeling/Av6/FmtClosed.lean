import Av6.FmtReads

/-!
# Formats that end outside a directive

The scanner of `vsnprintf` passes the terminator of the format only where the terminator takes
the place of a conversion: it is then fetched as one, and the main loop goes on behind it.
-/

namespace Av6

namespace Fmt

def isFlag (c : Byte) : Bool :=
  c = ascii '#' ∨ c = ascii '0'

def isWidthDigit (c : Byte) : Bool :=
  ascii '1' ≤ c ∧ c ≤ ascii '9'

/-- What follows the flags, the width and the length of a directive. -/
def afterSpec (fmt : List Byte) : List Byte :=
  let fmt := (fmt.dropWhile isFlag).dropWhile isWidthDigit
  if fmt.head? = some (ascii 'l') then fmt.tail else fmt

/-- The format does not end inside a directive: each has its conversion. -/
inductive Closed : List Byte → Prop
  | nil : Closed []
  | char {c : Byte} {fmt : List Byte} (plain : c ≠ ascii '%') (rest : Closed fmt) :
      Closed (c :: fmt)
  | directive {c : Byte} {fmt fmt' : List Byte} (spec : afterSpec fmt = c :: fmt')
      (rest : Closed fmt') : Closed (ascii '%' :: fmt)

theorem Closed.tail {c : Byte} {fmt : List Byte} (closed : Closed (c :: fmt))
    (plain : c ≠ ascii '%') : Closed fmt := by
  cases closed with
  | char plain' rest => exact rest
  | directive spec rest => exact absurd rfl plain

theorem Closed.conversion {fmt : List Byte} (closed : Closed (ascii '%' :: fmt)) :
    ∃ c fmt', afterSpec fmt = c :: fmt' ∧ Closed fmt' := by
  cases closed with
  | char plain rest => exact absurd rfl plain
  | directive spec rest => exact ⟨_, _, spec, rest⟩

theorem afterSpec_suffix (fmt : List Byte) : afterSpec fmt <:+ fmt := by
  have skipped : (fmt.dropWhile isFlag).dropWhile isWidthDigit <:+ fmt :=
    (List.dropWhile_suffix _).trans (List.dropWhile_suffix _)
  unfold afterSpec
  dsimp only
  split
  · exact (List.tail_suffix _).trans skipped
  · exact skipped

namespace Strict

variable {fmt : List Byte}

theorem decodeFlags_terminated (fmt : List Byte) (spec : FmtSpec) :
    ∃ spec', decodeFlags (fmt ++ [0]) spec = some (fmt.dropWhile isFlag ++ [0], spec') := by
  induction fmt generalizing spec with
  | nil => exact ⟨spec, rfl⟩
  | cons c fmt ih =>
      rw [List.cons_append, decodeFlags, List.dropWhile_cons]
      by_cases alt : c = ascii '#'
      · simp only [alt, isFlag, true_or, decide_true, if_true]
        exact ih _
      · by_cases zero : c = ascii '0'
        · simp only [zero, isFlag, or_true, decide_true, if_true]
          rw [if_neg (by decide)]
          exact ih _
        · simp only [alt, zero, isFlag, or_self, decide_false, if_false]
          exact ⟨spec, rfl⟩

theorem decodeWidth_terminated (fmt : List Byte) (spec : FmtSpec) :
    ∃ spec', decodeWidth (fmt ++ [0]) spec =
      some (fmt.dropWhile isWidthDigit ++ [0], spec') := by
  induction fmt generalizing spec with
  | nil => exact ⟨spec, rfl⟩
  | cons c fmt ih =>
      rw [List.cons_append, decodeWidth, List.dropWhile_cons]
      by_cases inWidth : ascii '1' ≤ c ∧ c ≤ ascii '9'
      · simp only [inWidth, isWidthDigit, and_self, decide_true, if_true]
        exact ih _
      · simp only [inWidth, isWidthDigit, decide_false, if_false]
        exact ⟨spec, rfl⟩

/-- `decode` stops at the terminator at the latest. -/
theorem decode_terminated (fmt : List Byte) :
    ∃ spec, decode (fmt ++ [0]) = some (afterSpec fmt ++ [0], spec) := by
  obtain ⟨spec, flags⟩ := decodeFlags_terminated fmt ⟨10, false, false, false, 0⟩
  obtain ⟨spec', width⟩ := decodeWidth_terminated (fmt.dropWhile isFlag) spec
  unfold decode afterSpec
  rw [flags]
  simp only [Option.bind_eq_bind, Option.bind_some, width]
  cases (fmt.dropWhile isFlag).dropWhile isWidthDigit with
  | nil => exact ⟨spec', rfl⟩
  | cons c rest =>
      by_cases long : c = ascii 'l'
      · simp [long]
      · simp [long]

/-- The main loop ends without a read past the terminator exactly if the format is closed. -/
theorem mainLoop_terminated_iff {size rounds : Nat} {strings : BitVec 64 → List Byte}
    {slots : List (BitVec 64)} {out : Out} (terminated : 0 ∉ fmt) (enough : fmt.length < rounds) :
    (∃ final, mainLoop size strings rounds (fmt ++ [0]) slots out = some final) ↔
      Closed fmt := by
  induction rounds generalizing fmt slots out with
  | zero => omega
  | succ rounds ih =>
      cases fmt with
      | nil => exact ⟨fun _ => .nil, fun _ => ⟨out, rfl⟩⟩
      | cons c fmt =>
          have nonzero : c ≠ 0 := fun zero => terminated (by simp [zero])
          have terminated' : 0 ∉ fmt := fun member => terminated (List.mem_cons_of_mem c member)
          have shorter : fmt.length < rounds := by
            rw [List.length_cons] at enough
            omega
          rw [List.cons_append, mainLoop]
          simp only [fetch, Option.bind_eq_bind, Option.bind_some, if_neg nonzero]
          by_cases plain : c = ascii '%'
          · obtain ⟨spec, decoded⟩ := decode_terminated fmt
            rw [if_neg (not_not.mpr plain), decoded, plain]
            cases rest : afterSpec fmt with
            | nil =>
                constructor
                · rintro ⟨final, runs⟩
                  cases rounds with
                  | zero => cases runs
                  | succ rounds => cases runs
                · intro closed
                  obtain ⟨c', fmt', spec', -⟩ := closed.conversion
                  rw [rest] at spec'
                  cases spec'
            | cons c' fmt' =>
                have suffix := afterSpec_suffix fmt
                rw [rest] at suffix
                have length := suffix.length_le
                rw [List.length_cons] at length
                have inner := @ih fmt' (if takesArg c' then slots.tail else slots)
                  (emitConversion size strings out c' spec (slots.headD 0))
                  (fun member => terminated' (suffix.subset (List.mem_cons_of_mem c' member)))
                  (by omega : fmt'.length < rounds)
                constructor
                · intro runs
                  exact .directive rest (inner.mp runs)
                · intro closed
                  obtain ⟨c'', fmt'', spec', closed'⟩ := closed.conversion
                  rw [rest] at spec'
                  obtain ⟨-, rfl⟩ := List.cons.inj spec'
                  exact inner.mpr closed'
          · rw [if_pos plain]
            exact (ih terminated' shorter).trans
              ⟨fun closed => .char plain closed, fun closed => closed.tail plain⟩

end Strict

end Fmt

end Av6
