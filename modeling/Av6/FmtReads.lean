import Av6.FmtModel

/-!
# The formatter, one read and one store at a time

The functions of `libkern/fmt.c` over a format of which only the bytes in the list may be read:
a read past them stops the run.  Every emitter stores into the buffer as it goes.  Where no read
stops the run, this is `vsnprintf` as the text that it stores.
-/

namespace Av6

namespace Fmt

namespace Strict

/-- The position of `str` in the buffer, and the buffer. -/
abbrev Out := Nat × (Nat → Byte)

/-- `*fmt++` -/
def fetch : List Byte → Option (Byte × List Byte)
  | [] => none
  | c :: fmt => some (c, fmt)

/-- The loop of `decode` over the flags. -/
def decodeFlags : List Byte → FmtSpec → Option (List Byte × FmtSpec)
  | [], _ => none
  | c :: fmt, spec =>
      if c = ascii '#' then decodeFlags fmt { spec with alt := true }
      else if c = ascii '0' then decodeFlags fmt { spec with zero := true }
      else some (c :: fmt, spec)

/-- The loop of `decode` over the width. -/
def decodeWidth : List Byte → FmtSpec → Option (List Byte × FmtSpec)
  | [], _ => none
  | c :: fmt, spec =>
      if ascii '1' ≤ c ∧ c ≤ ascii '9' then
        decodeWidth fmt
          { spec with width := spec.width * 10 + BitVec.ofNat 16 (c.toNat - 48) }
      else some (c :: fmt, spec)

def decode (fmt : List Byte) : Option (List Byte × FmtSpec) := do
  let (fmt, spec) ← decodeFlags fmt ⟨10, false, false, false, 0⟩
  let (fmt, spec) ← decodeWidth fmt spec
  let c ← fmt.head?
  if c = ascii 'l' then return (fmt.tail, { spec with long := true })
  else return (fmt, spec)

def emitStr (size : Nat) (out : Out) (s : List Byte) : Out :=
  s.foldl (emitChar size) out

/-- `while (pad-- > 0)` -/
def emitPad (size : Nat) (c : Byte) : Nat → Out → Out
  | 0, out => out
  | pad + 1, out => emitPad size c pad (emitChar size out c)

def emitNum (size : Nat) (out : Out) (v : Nat) (neg : Bool) (spec : FmtSpec) : Out :=
  let tmp := digitLoop spec.base 32 v
  let pfx := numPrefix neg spec
  let pad := (spec.width.toInt - tmp.length - pfx.length).toNat
  let out := if spec.zero then out else emitPad size (ascii ' ') pad out
  let out := emitStr size out pfx
  let out := if spec.zero then emitPad size (ascii '0') pad out else out
  emitStr size out tmp.reverse

/-- The `switch` over the conversion, given the slot that is next in the list. -/
def emitConversion (size : Nat) (strings : BitVec 64 → List Byte) (out : Out) (c : Byte)
    (spec : FmtSpec) (slot : BitVec 64) : Out :=
  if c = ascii 'd' then
    let sv := signedArg spec.long slot
    emitNum size out sv.natAbs (decide (sv < 0)) spec
  else if c = ascii 'x' then
    emitNum size out (unsignedArg spec.long slot) false { spec with base := 16 }
  else if c = ascii 'o' then
    emitNum size out (unsignedArg spec.long slot) false { spec with base := 8 }
  else if c = ascii 'u' then emitNum size out (unsignedArg spec.long slot) false spec
  else if c = ascii 'p' then
    emitNum size out slot.toNat false
      { spec with base := 16, alt := true, zero := true, width := 18 }
  else if c = ascii 's' then emitStr size out (if slot = 0 then nullText else strings slot)
  else if c = ascii 'c' then emitChar size out (slot.truncate 8)
  else if c = ascii '%' then emitChar size out (ascii '%')
  else emitChar size (emitChar size out (ascii '%')) c

/-- The main loop; each round reads a byte of the format. -/
def mainLoop (size : Nat) (strings : BitVec 64 → List Byte) :
    Nat → List Byte → List (BitVec 64) → Out → Option Out
  | 0, _, _, _ => none
  | rounds + 1, fmt, slots, out => do
      let (c, fmt) ← fetch fmt
      if c = 0 then return out
      else if c ≠ ascii '%' then mainLoop size strings rounds fmt slots (emitChar size out c)
      else
        let (fmt, spec) ← decode fmt
        let (c, fmt) ← fetch fmt
        mainLoop size strings rounds fmt (if takesArg c then slots.tail else slots)
          (emitConversion size strings out c spec (slots.headD 0))

/-- `vsnprintf`: the return value, an `int`, and the buffer. -/
def vsnprintf (size : Nat) (fmt : List Byte) (ap : VaList) (buf : Nat → Byte) :
    Option (Int × (Nat → Byte)) := do
  let (str, buf) ← mainLoop size ap.strings fmt.length fmt ap.slots (0, buf)
  return ((BitVec.ofNat 32 str).toInt,
    if 0 < size then Function.update buf (if str < size then str else size - 1) 0 else buf)

section Emitters

variable {size : Nat} {out : Out}

theorem emitPad_eq (c : Byte) (pad : Nat) :
    emitPad size c pad out = (List.replicate pad c).foldl (emitChar size) out := by
  induction pad generalizing out with
  | zero => rfl
  | succ pad ih =>
      rw [emitPad, ih]
      rfl

theorem emitNum_eq (v : Nat) (neg : Bool) (spec : FmtSpec) :
    emitNum size out v neg spec = (Fmt.emitNum v neg spec).foldl (emitChar size) out := by
  unfold emitNum Fmt.emitNum
  cases spec.zero with
  | true => simp [emitStr, emitPad_eq, List.foldl_append]
  | false => simp [emitStr, emitPad_eq, List.foldl_append]

/-- The conversions store what `convert` says that they emit. -/
theorem emitConversion_eq (strings : BitVec 64 → List Byte) (c : Byte) (spec : FmtSpec)
    (slot : BitVec 64) :
    emitConversion size strings out c spec slot =
      (convert strings c spec slot).foldl (emitChar size) out := by
  unfold emitConversion convert
  simp only [emitNum_eq, emitStr]
  split_ifs
  all_goals rfl

end Emitters

section Scanner

variable {fmt : List Byte} {spec : FmtSpec} {left : List Byte × FmtSpec}

theorem decodeFlags_some (runs : decodeFlags fmt spec = some left) :
    Fmt.decodeFlags fmt spec = left := by
  induction fmt generalizing spec with
  | nil => cases runs
  | cons c fmt ih =>
      unfold decodeFlags at runs
      unfold Fmt.decodeFlags
      split_ifs at runs ⊢ with alt zero
      · exact ih runs
      · exact ih runs
      · exact Option.some.inj runs

theorem decodeWidth_some (runs : decodeWidth fmt spec = some left) :
    Fmt.decodeWidth fmt spec = left := by
  induction fmt generalizing spec with
  | nil => cases runs
  | cons c fmt ih =>
      unfold decodeWidth at runs
      unfold Fmt.decodeWidth
      split_ifs at runs ⊢ with inWidth
      · exact ih runs
      · exact Option.some.inj runs

theorem decode_some (runs : decode fmt = some left) : Fmt.decode fmt = left := by
  obtain ⟨⟨afterFlags, spec⟩, flags, runs⟩ := Option.bind_eq_some_iff.mp runs
  obtain ⟨⟨afterWidth, spec'⟩, width, runs⟩ := Option.bind_eq_some_iff.mp runs
  obtain ⟨c, next, runs⟩ := Option.bind_eq_some_iff.mp runs
  unfold Fmt.decode
  rw [decodeFlags_some flags]
  dsimp only
  rw [decodeWidth_some width]
  dsimp only at next runs ⊢
  rw [next]
  by_cases long : c = ascii 'l'
  · rw [if_pos long] at runs
    rw [if_pos (congrArg some long)]
    exact Option.some.inj runs
  · rw [if_neg long] at runs
    rw [if_neg (fun same => long (Option.some.inj same))]
    exact Option.some.inj runs

end Scanner

/-- A run that no read stops has stored the text that `formatLoop` says. -/
theorem mainLoop_some {size rounds : Nat} {strings : BitVec 64 → List Byte} {fmt : List Byte}
    {slots : List (BitVec 64)} {out final : Out}
    (runs : mainLoop size strings rounds fmt slots out = some final) :
    final = (formatLoop strings rounds fmt slots).foldl (emitChar size) out := by
  induction rounds generalizing fmt slots out with
  | zero => cases runs
  | succ rounds ih =>
      cases fmt with
      | nil => cases runs
      | cons c fmt =>
          unfold mainLoop at runs
          unfold formatLoop
          simp only [fetch, Option.bind_eq_bind, Option.bind_some] at runs
          split_ifs at runs ⊢ with ends plain
          · exact (Option.some.inj runs).symm
          · rw [List.foldl_cons]
            exact ih runs
          · cases spec : decode fmt with
            | none =>
                rw [spec] at runs
                cases runs
            | some left =>
                obtain ⟨rest, spec'⟩ := left
                rw [decode_some spec]
                cases rest with
                | nil =>
                    rw [spec] at runs
                    cases runs
                | cons conversion rest =>
                    rw [spec] at runs
                    rw [List.foldl_append]
                    dsimp only [List.headD_cons, List.tail_cons]
                    rw [← emitConversion_eq]
                    exact ih runs

/-- Where no read stops it, the formatter does what the model without stops does. -/
theorem vsnprintf_some {size : Nat} {fmt : List Byte} {ap : VaList} {buf : Nat → Byte}
    {result : Int × (Nat → Byte)} (runs : vsnprintf size fmt ap buf = some result) :
    result = Fmt.vsnprintf size fmt ap buf := by
  unfold vsnprintf at runs
  cases loop : mainLoop size ap.strings fmt.length fmt ap.slots (0, buf) with
  | none =>
      rw [loop] at runs
      cases runs
  | some final =>
      rw [loop] at runs
      unfold Fmt.vsnprintf formatted
      rw [← mainLoop_some loop]
      exact (Option.some.inj runs).symm

end Strict

end Fmt

end Av6
