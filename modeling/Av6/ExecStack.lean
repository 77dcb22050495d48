import Av6.ExecStrings

/-!
# Laying out the stack

The strings are copied to the top of the stack page, and below them the number of the arguments,
the pointers to them and the words after these are written.
-/

namespace Av6

namespace Exec

open FallibleState Kmem Pmap PackedStrings

variable {s s' t t' u u' : VmState} {live : CacheRef → Multiset Nat} {place : Place} {slot : Slot}
  {stack w strbase dst argc pos q left i : Nat} {argbuf : Option Nat} {args : List (List UInt8)}

/-- `memcpy` of the packed strings, if there are any. -/
def copyStrings (stack dst : Nat) (argbuf : Option Nat) (pos : Nat) : Vm Unit :=
  match argbuf with
  | none => pure ()
  | some src => modify fun s => { s with memory := copyBytes s.memory stack dst src pos }

/-- The pointers to the strings, if there are any. -/
def writePointers (stack w strbase : Nat) (argbuf : Option Nat) (argc : Nat) : Vm Unit :=
  match argbuf with
  | none => pure ()
  | some src => pointerLoop stack w strbase src argc 0 0

/-- The NULL after the pointers, the empty environment and the end of `auxv`. -/
def writeZeros (stack w : Nat) : Vm Unit := do
  writePte stack w 0
  writePte stack (w + 1) 0
  writePte stack (w + 2) 0
  writePte stack (w + 3) 0

/-- The words from `argc` to the end of `auxv`. -/
def writeInfo (stack w strbase : Nat) (argbuf : Option Nat) (argc : Nat) : Vm Unit := do
  writePte stack w argc
  writePointers stack w strbase argbuf argc
  writeZeros stack (w + 1 + argc)

/-- The address of the strings. -/
def stringBase (newSz pos : Nat) : Nat := (newSz + PGSIZE - pos) / 16 * 16

/-- The stack pointer. -/
def stackPointer (newSz argc pos : Nat) : Nat := (stringBase newSz pos - (argc + 5) * 8) / 16 * 16

theorem layout_eq (oldPagetable newPagetable stack newSz entry : Nat) (argbuf : Option Nat)
    (argc pos : Nat) :
    layout oldPagetable newPagetable stack newSz entry argbuf argc pos = (do
      copyStrings stack (stringBase newSz pos - newSz) argbuf pos
      if stackPointer newSz argc pos < newSz then bad argbuf newPagetable
      else do
        writeInfo stack ((stackPointer newSz argc pos - newSz) / 8) (stringBase newSz pos) argbuf argc
        freeArgbuf argbuf
        uvmfree oldPagetable
        return some ⟨newPagetable, newSz + PGSIZE, entry, stackPointer newSz argc pos⟩) := by
  have shift : ∀ w, w + 2 + argc = w + 1 + argc + 1 := fun w => by omega
  unfold layout writeInfo writeZeros writePointers copyStrings stackPointer stringBase
  cases argbuf with
  | none => simp only [bind_assoc, pure_bind, shift]
  | some src => simp only [bind_assoc, shift]

/-- The arguments are in the scratch page, which is in a hand; without a scratch page there are
none. -/
structure Scratch (place : Place) (argbuf : Option Nat) (argc pos : Nat) (t t' : VmState) : Prop where
  hand : place (.hand 0) = argbuf
  packed : ∀ src, argbuf = some src → Packed src argc pos t t'
  bare : argbuf = none → argc = 0 ∧ pos = 0

theorem Packed.rewritten {src p : Nat} (packed : Packed src argc pos t t')
    (rewritten : Rewritten p t t' u u') (apart : src ≠ p) : Packed src argc pos u u' := by
  refine ⟨packed.le, ?_, ?_⟩
  · exact packed.strings.congr fun k _ _ => (rewritten.others src k apart).1
  · intro off less
    rw [(rewritten.others src off apart).1, (rewritten.others src off apart).2]
    exact packed.same off less

/-- The stack page is not the scratch page. -/
theorem Scratch.apart {src : Nat} (scratch : Scratch place (some src) argc pos t t')
    (twins : Twins live place t t') (leaf : place slot = some stack) (known : slot.Known) :
    src ≠ stack := by
  rintro rfl
  rw [twins.ok.unique leaf scratch.hand] at known
  exact known

theorem Scratch.rewritten (scratch : Scratch place argbuf argc pos t t')
    (twins : Twins live place t t') (leaf : place slot = some stack) (known : slot.Known)
    (rewritten : Rewritten stack t t' u u') : Scratch place argbuf argc pos u u' := by
  refine ⟨scratch.hand, ?_, scratch.bare⟩
  rintro src rfl
  exact (scratch.packed src rfl).rewritten rewritten (scratch.apart twins leaf known)

theorem writeZeros_twin (twins : Twins live place t t') (leaf : place slot = some stack)
    (known : slot.Known) (childless : ∀ child j, ¬ Hangs child slot j) :
    Twin (writeZeros stack w) t t' fun _ u u' =>
      Twins live place u u' ∧ Rewritten stack t t' u u' := by
  unfold writeZeros
  refine (writeWord_twin twins leaf known childless).bind ?_
  intro _ u₁ u₁' ⟨twins₁, rewritten₁⟩
  refine (writeWord_twin twins₁ leaf known childless).bind ?_
  intro _ u₂ u₂' ⟨twins₂, rewritten₂⟩
  refine (writeWord_twin twins₂ leaf known childless).bind ?_
  intro _ u₃ u₃' ⟨twins₃, rewritten₃⟩
  refine (writeWord_twin twins₃ leaf known childless).mono ?_
  intro _ u₄ u₄' ⟨twins₄, rewritten₄⟩
  exact ⟨twins₄, (rewritten₁.trans rewritten₂).trans (rewritten₃.trans rewritten₄)⟩

section

variable (twins : Twins live place t t') (leaf : place slot = some stack) (known : slot.Known)
  (childless : ∀ child j, ¬ Hangs child slot j) (scratch : Scratch place argbuf argc pos t t')
include twins leaf known childless scratch

theorem copyStrings_twin : Twin (copyStrings stack dst argbuf pos) t t' fun _ u u' =>
    Twins live place u u' ∧ Rewritten stack t t' u u' := by
  unfold copyStrings
  cases argbuf with
  | none => exact .ret ⟨twins, .refl stack t t'⟩
  | some src => exact copyBytes_twin twins leaf known childless (scratch.packed src rfl)

theorem writeInfo_twin : Twin (writeInfo stack w strbase argbuf argc) t t' fun _ u u' =>
    Twins live place u u' ∧ Rewritten stack t t' u u' := by
  unfold writeInfo
  refine (writeWord_twin twins leaf known childless).bind ?_
  intro _ u₁ u₁' ⟨twins₁, rewritten₁⟩
  have pointers : Twin (writePointers stack w strbase argbuf argc) u₁ u₁' fun _ u u' =>
      Twins live place u u' ∧ Rewritten stack u₁ u₁' u u' := by
    unfold writePointers
    cases argbuf with
    | none => exact .ret ⟨twins₁, .refl stack u₁ u₁'⟩
    | some src =>
        have apart := scratch.apart twins leaf known
        have packed := (scratch.packed src rfl).rewritten rewritten₁ apart
        exact pointerLoop_twin twins₁ leaf known childless apart packed.le packed.same packed.strings
  refine pointers.bind ?_
  intro _ u₂ u₂' ⟨twins₂, rewritten₂⟩
  refine (writeZeros_twin twins₂ leaf known childless).mono ?_
  intro _ u₃ u₃' ⟨twins₃, rewritten₃⟩
  exact ⟨twins₃, (rewritten₁.trans rewritten₂).trans rewritten₃⟩

end

/-- The scratch page holds these arguments; without a scratch page there are none. -/
def ArgsIn (memory : Memory) (stack : Nat) (argbuf : Option Nat) (args : List (List UInt8)) : Prop :=
  match argbuf with
  | none => args = []
  | some src => src ≠ stack ∧ Holds (memory src) 0 (packedArgs args)

/-- From the word `w` on: the number of the arguments, pointers to them, a NULL, an empty
environment and an empty auxiliary vector. -/
structure InfoBlock (memory : Memory) (stack w strbase : Nat) (args : List (List UInt8)) : Prop where
  argc : wordAt memory stack w = args.length
  argv : ∀ i < args.length, wordAt memory stack (w + 1 + i) = strbase + start 0 args i
  rest : ∀ i < 4, wordAt memory stack (w + 1 + args.length + i) = 0

/-- The pointers are written, and nothing else. -/
theorem pointerLoop_writes (apart : q ≠ stack) (holds : Holds (t.memory q) 0 (packedArgs args))
    (bodies : ∀ string ∈ args, 0 ∉ string) (small : (packedArgs args).length ≤ PGSIZE)
    (low : strbase + PGSIZE < 2 ^ 64) (count : i + left = args.length) :
    Yields (pointerLoop stack w strbase q left i (start 0 args i)) t fun _ u => Others stack t u ∧
      (∀ off, off / 8 < w + 1 + i ∨ w + 1 + args.length ≤ off / 8 →
        u.memory stack off = t.memory stack off) ∧
      ∀ j, i ≤ j → j < args.length → wordAt u.memory stack (w + 1 + j) = strbase + start 0 args j := by
  induction left generalizing t i with
  | zero => exact .ret ⟨.refl stack t, fun _ _ => rfl, fun j le less => by omega⟩
  | succ left ih =>
      have less : i < args.length := by omega
      have bound : start 0 args i ≤ (packedArgs args).length := start_le i
      have next : start 0 args (i + 1) = start 0 args i + args[i].length + 1 := start_succ less
      have bound' : start 0 args (i + 1) ≤ (packedArgs args).length := start_le (i + 1)
      have others : Others stack t
          { t with memory := setWord t.memory stack (w + 1 + i) (strbase + start 0 args i) } :=
        fun _ _ other => setWord_apply_of_ne (.inl other)
      have holds' : Holds (setWord t.memory stack (w + 1 + i) (strbase + start 0 args i) q) 0
          (packedArgs args) := holds.congr fun k _ _ => others q k apart
      have string := holds'.string less
      rw [Nat.zero_add] at string
      have length : strlen (setWord t.memory stack (w + 1 + i) (strbase + start 0 args i) q) PGSIZE
          (start 0 args i) = args[i].length :=
        (StringAt.of_holds string (bodies _ (List.getElem_mem less))).strlen_eq (by omega)
      unfold pointerLoop
      refine .update_bind (.read_bind ?_)
      dsimp only
      rw [length, ← next]
      refine (ih holds' (by omega)).mono ?_
      rintro _ u ⟨others', outside, pointers⟩
      refine ⟨others.trans others', fun off away => ?_, fun j le high => ?_⟩
      · rw [outside off (by omega)]
        exact setWord_apply_of_ne (.inr (by omega))
      · by_cases here : j = i
        · subst here
          have kept : wordAt u.memory stack (w + 1 + j) =
              wordAt (setWord t.memory stack (w + 1 + j) (strbase + start 0 args j)) stack
                (w + 1 + j) :=
            wordAt_congr fun k small => outside _ (by omega)
          rw [kept, wordAt_setWord (by omega)]
        · exact pointers j (by omega) high

/-- A word is written, and nothing else. -/
theorem writePte_writes {word : Nat} (lt : word < 2 ^ 64) :
    Yields (writePte stack w word) t fun _ u => Others stack t u ∧ wordAt u.memory stack w = word ∧
      ∀ off, off / 8 ≠ w → u.memory stack off = t.memory stack off := by
  refine .update ⟨fun _ _ other => setWord_apply_of_ne (.inl other), wordAt_setWord lt, ?_⟩
  intro off other
  exact setWord_apply_of_ne (.inr other)

theorem writeZeros_writes : Yields (writeZeros stack w) t fun _ u =>
    (∀ i < 4, wordAt u.memory stack (w + i) = 0) ∧
      ∀ off, off / 8 < w ∨ w + 4 ≤ off / 8 → u.memory stack off = t.memory stack off := by
  unfold writeZeros
  refine (writePte_writes (by decide)).bind ?_
  intro _ u₁ ⟨_, first, outside₁⟩
  refine (writePte_writes (by decide)).bind ?_
  intro _ u₂ ⟨_, second, outside₂⟩
  refine (writePte_writes (by decide)).bind ?_
  intro _ u₃ ⟨_, third, outside₃⟩
  refine (writePte_writes (by decide)).mono ?_
  intro _ u₄ ⟨_, fourth, outside₄⟩
  refine ⟨fun i less => ?_, fun off away => ?_⟩
  · obtain rfl | rfl | rfl | rfl : i = 0 ∨ i = 1 ∨ i = 2 ∨ i = 3 := by omega
    · rw [Nat.add_zero, ← first]
      refine wordAt_congr fun k _ => ?_
      rw [outside₄ _ (by omega), outside₃ _ (by omega), outside₂ _ (by omega)]
    · rw [← second]
      refine wordAt_congr fun k _ => ?_
      rw [outside₄ _ (by omega), outside₃ _ (by omega)]
    · rw [← third]
      exact wordAt_congr fun k _ => outside₄ _ (by omega)
    · exact fourth
  · rw [outside₄ _ (by omega), outside₃ _ (by omega), outside₂ _ (by omega), outside₁ _ (by omega)]

theorem writePointers_writes (argsIn : ArgsIn t.memory stack argbuf args)
    (bodies : ∀ string ∈ args, 0 ∉ string) (small : (packedArgs args).length ≤ PGSIZE)
    (low : strbase + PGSIZE < 2 ^ 64) :
    Yields (writePointers stack w strbase argbuf args.length) t fun _ u =>
      (∀ off, off / 8 < w + 1 ∨ w + 1 + args.length ≤ off / 8 →
        u.memory stack off = t.memory stack off) ∧
      ∀ j < args.length, wordAt u.memory stack (w + 1 + j) = strbase + start 0 args j := by
  unfold writePointers
  cases argbuf with
  | none =>
      obtain rfl : args = [] := argsIn
      refine .ret ⟨fun _ _ => rfl, fun j less => ?_⟩
      cases less
  | some src =>
      obtain ⟨apart, holds⟩ := argsIn
      have loop := @pointerLoop_writes t stack w strbase src args.length 0 args apart holds bodies
        small low (by omega)
      rw [start_zero] at loop
      refine loop.mono ?_
      intro _ u ⟨_, outside, words⟩
      exact ⟨outside, fun j less => words j (Nat.zero_le j) less⟩

theorem ArgsIn.others (argsIn : ArgsIn t.memory stack argbuf args) (others : Others stack t u) :
    ArgsIn u.memory stack argbuf args := by
  unfold ArgsIn at argsIn ⊢
  cases argbuf with
  | none => exact argsIn
  | some src => exact ⟨argsIn.1, argsIn.2.congr fun k _ _ => others src k argsIn.1⟩

/-- The words that have been written: those of the block, and no other. -/
theorem writeInfo_writes (argsIn : ArgsIn t.memory stack argbuf args)
    (bodies : ∀ string ∈ args, 0 ∉ string) (small : (packedArgs args).length ≤ PGSIZE)
    (low : strbase + PGSIZE < 2 ^ 64) (few : args.length < 2 ^ 64) :
    Yields (writeInfo stack w strbase argbuf args.length) t fun _ u =>
      InfoBlock u.memory stack w strbase args ∧
        ∀ off, off / 8 < w ∨ w + 5 + args.length ≤ off / 8 →
          u.memory stack off = t.memory stack off := by
  unfold writeInfo
  refine (writePte_writes few).bind ?_
  intro _ u₁ ⟨others₁, argc, outside₁⟩
  refine (writePointers_writes (argsIn.others others₁) bodies small low).bind ?_
  intro _ u₂ ⟨outside₂, argv⟩
  refine writeZeros_writes.mono ?_
  intro _ u₃ ⟨zeros, outside₃⟩
  refine ⟨⟨?_, fun i less => ?_, zeros⟩, fun off away => ?_⟩
  · rw [← argc]
    refine wordAt_congr fun k _ => ?_
    rw [outside₃ _ (by omega), outside₂ _ (by omega)]
  · rw [← argv i less]
    exact wordAt_congr fun k _ => outside₃ _ (by omega)
  · rw [outside₃ _ (by omega), outside₂ _ (by omega), outside₁ _ (by omega)]

end Exec

end Av6
