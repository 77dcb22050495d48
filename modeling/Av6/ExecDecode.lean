import Av6.ExecLimits

/-!
# The initial stack

After `exec` has succeeded, a reader that starts at the stack pointer and follows the page table of
the new program finds the number of the arguments, pointers to the strings of the caller, and the
words that end the three vectors.
-/

namespace Av6

namespace Exec

open FallibleState Kmem Pmap Elf PackedStrings

variable {s t : ExecState} {u : VmState} {live : CacheRef → Multiset Nat} {place : Place}
  {programs : List (String × Image)} {path : String} {uargv root stack newSz va off i : Nat}
  {args : List (List UInt8)} {bytes : List UInt8}

/-- What the new program finds from its stack pointer on, below the end `top` of its stack page:
`ptr` are the pointers to the arguments. -/
structure InitialStack (memory : Memory) (root top sp : Nat) (args : List (List UInt8))
    (ptr : Nat → Nat) : Prop where
  aligned : sp % 16 = 0
  argc : userWord memory root sp = some args.length
  argv : ∀ i < args.length, userWord memory root (sp + (1 + i) * 8) = some (ptr i)
  strings : ∀ i (less : i < args.length), UserString memory root (ptr i) args[i]
  null : userWord memory root (sp + (1 + args.length) * 8) = some 0
  envp : userWord memory root (sp + (2 + args.length) * 8) = some 0
  auxv : userWord memory root (sp + (3 + args.length) * 8) = some 0 ∧
    userWord memory root (sp + (4 + args.length) * 8) = some 0
  inside : top ≤ sp + PGSIZE ∧ sp + (5 + args.length) * 8 ≤ top
  above : ∀ i (less : i < args.length), sp + (5 + args.length) * 8 ≤ ptr i ∧
    ptr i + args[i].length + 1 ≤ top
  apart : ∀ i j (less : i < j) (inside : j < args.length), ptr i + args[i].length + 1 ≤ ptr j

section

variable (entered : UserPage root stack newSz live u u) (aligned : newSz % PGSIZE = 0)
  (small : newSz < MAXUVA)
include entered aligned small

/-- What has been laid out is an initial stack. -/
theorem StackLaid.initialStack (laid : StackLaid u.memory stack newSz args) (positive : 0 < newSz)
    (bodies : ∀ string ∈ args, 0 ∉ string)
    (fits : newSz ≤ stackPointer newSz args.length (packedArgs args).length) :
    InitialStack u.memory root (newSz + PGSIZE)
      (stackPointer newSz args.length (packedArgs args).length) args
      fun i => stringBase newSz (packedArgs args).length + start 0 args i := by
  obtain ⟨words, below, high⟩ := stack_bounds aligned positive fits
  obtain ⟨⟨count, pointers, zeros⟩, strings⟩ := laid
  have base : newSz ≤ stringBase newSz (packedArgs args).length := by omega
  have sixteen : stackPointer newSz args.length (packedArgs args).length % 16 = 0 := by
    unfold stackPointer
    omega
  have bound : ∀ i (less : i < args.length),
      start 0 args i + args[i].length + 1 ≤ (packedArgs args).length := by
    intro i less
    have le : start 0 args (i + 1) ≤ (packedArgs args).length := start_le (i + 1)
    rwa [start_succ less] at le
  generalize stackPointer newSz args.length (packedArgs args).length = sp at *
  have word : ∀ k < args.length + 5, userWord u.memory root (sp + k * 8) =
      some (wordAt u.memory stack ((sp - newSz) / 8 + k)) := by
    intro k less
    have inPage : (sp - newSz) / 8 + k < TABLE_ENTRIES := by
      unfold TABLE_ENTRIES
      unfold PGSIZE at high
      omega
    rw [← entered.userWord_eq aligned small inPage]
    congr 1
    omega
  have zero : ∀ k < 4, userWord u.memory root (sp + (1 + k + args.length) * 8) = some 0 := by
    intro k less
    rw [word _ (by omega), ← zeros k less]
    congr 2
    omega
  refine ⟨sixteen, ?_, ?_, ?_, zero 0 (by omega), zero 1 (by omega), ⟨zero 2 (by omega),
    zero 3 (by omega)⟩, ⟨by omega, by omega⟩, ?_, ?_⟩
  · have first := word 0 (by omega)
    rw [Nat.zero_mul, Nat.add_zero, Nat.add_zero, count] at first
    exact first
  · intro i less
    rw [word _ (by omega), ← Nat.add_assoc, pointers i less]
  · intro i less
    have string := strings.string less
    rw [show stringBase newSz (packedArgs args).length + start 0 args i =
      newSz + (stringBase newSz (packedArgs args).length - newSz + start 0 args i) by omega]
    refine entered.userString aligned small string (bodies _ (List.getElem_mem less)) ?_
    have le := bound i less
    omega
  · intro i less
    have le := bound i less
    exact ⟨by omega, by omega⟩
  · intro i j less inside
    have before : start 0 args i + args[i].length < start 0 args j := start_add_lt (by omega) less
    omega

end

theorem ArgvOf.bodies {memory : Memory} (argv : ArgvOf memory root uargv args) :
    ∀ string ∈ args, 0 ∉ string := by
  unfold ArgvOf at argv
  split at argv
  · rw [argv]
    simp
  · exact argv.bodies

/-- After a call of `exec` that succeeds, the arguments are read back from the stack of the new
program. -/
theorem exec_stack_decodes (caller : Caller live place s)
    (argv : ArgvOf s.vm.memory s.proc.pagetable uargv args)
    (succeeds : execProc programs path uargv s = .ok (0, t)) :
    ∃ ptr, InitialStack t.vm.memory t.proc.pagetable t.proc.sz t.proc.tf.sp args ptr := by
  obtain ⟨result, vm, runs, ⟨-, ⟨⟩, -⟩ | ⟨loaded, rfl, -, rfl⟩⟩ := execProc_cases succeeds
  obtain ⟨stack, newSz, aligned, positive, small, userPage, size, laid⟩ :=
    (caller.finished args runs).entered loaded rfl
  obtain ⟨⟨-, -, fits⟩, stackLaid, pointer⟩ := laid argv
  have decoded := stackLaid.initialStack userPage aligned small positive argv.bodies fits
  rw [← size, ← pointer] at decoded
  exact ⟨_, decoded⟩

theorem exec_stack_decodes_twoArgs : ∃ live place s t ptr, Caller live place s ∧
    execProc [("/init", plainImage)] "/init" 0x1000 s = .ok (0, t) ∧
    InitialStack t.vm.memory t.proc.pagetable t.proc.sz t.proc.tf.sp [[0x41], [0x41]] ptr := by
  have few : execDemand plainImage + 4 < 2 ^ 36 := by
    rw [execDemand_plainImage]
    decide
  obtain ⟨live, place, s, caller, supplies, argv, low⟩ := exists_call 2 (by decide) few
  obtain ⟨result, vm, outcome, decides⟩ := exec_decides caller find_plainImage loadable_plainImage
    (by decide) supplies argv low
  cases result with
  | none => exact absurd (decides.mp rfl) (by decide)
  | some loaded =>
      obtain ⟨ptr, decoded⟩ := exec_stack_decodes caller argv outcome
      exact ⟨live, place, s, _, ptr, caller, outcome, decoded⟩

end Exec

end Av6
