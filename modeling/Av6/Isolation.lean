import Av6.LifeReachable
import Av6.PmapFrames

/-!
# Isolation of processes

Whatever the other processes do, in any number of calls, a process finds its page table, its bytes,
its registers and its kernel stack as it left them.
-/

namespace Av6

namespace Life

open FallibleState Kmem Pmap Elf Fork Sbrk TransitionSystem
open Exec (translate userByte)

variable {s t u : Kernel} {m m' : Machine} {live live' : CacheRef → Multiset Nat}
  {place place' : Place} {pages : List Nat} {p q : Nat} {programs : List (String × Image)}
  {clients : System}

/-- What a process holds is as it was, as the memory shows it. -/
structure Untouched (q : Nat) (s t : Kernel) : Prop where
  object : holdings (t.procs q) = holdings (s.procs q)
  registers : t.frames (s.procs q).tf = s.frames (s.procs q).tf
  translation : ∀ root, (s.procs q).pagetable = some root → ∀ va,
    translate t.vm.memory root va = translate s.vm.memory root va
  bytes : ∀ root, (s.procs q).pagetable = some root → ∀ va,
    userByte t.vm.memory root va = userByte s.vm.memory root va
  stack : ∀ k < KSTACK_PAGES, frameAt t.vm.memory (stackSlot (s.procs q).kslot k) =
    frameAt s.vm.memory (stackSlot (s.procs q).kslot k)
  stackBytes : ∀ k < KSTACK_PAGES, ∀ page,
    frameAt s.vm.memory (stackSlot (s.procs q).kslot k) = some page → ∀ off,
      t.vm.memory page off = s.vm.memory page off

theorem Untouched.refl (q : Nat) (s : Kernel) : Untouched q s s :=
  ⟨rfl, rfl, fun _ _ _ => rfl, fun _ _ _ => rfl, fun _ _ => rfl, fun _ _ _ _ _ => rfl⟩

theorem Untouched.trans (first : Untouched q s t) (second : Untouched q t u) : Untouched q s u := by
  obtain ⟨kslot, -, tf, table, -⟩ := holdings_fields first.object
  obtain ⟨object, registers, translation, bytes, stack, stackBytes⟩ := second
  rw [tf] at registers
  rw [table] at translation bytes
  rw [kslot] at stack stackBytes
  refine ⟨object.trans first.object, registers.trans first.registers, ?_, ?_, ?_, ?_⟩
  · intro root has va
    exact (translation root has va).trans (first.translation root has va)
  · intro root has va
    exact (bytes root has va).trans (first.bytes root has va)
  · intro k low
    exact (stack k low).trans (first.stack k low)
  · intro k low page there off
    have there' := (first.stack k low).trans there
    exact (stackBytes k low page there' off).trans (first.stackBytes k low page there off)

/-- A process that a call leaves alone. -/
theorem Spared.untouched (spared : Spared place place' s t q) (ok : KernelOk live place s)
    (ok' : KernelOk live' place' t) (listed : q ∈ s.allproc) : Untouched q s t := by
  have tree : ∀ root, (s.procs q).pagetable = some root →
      Exec.TreeSame place root s.vm.memory t.vm.memory := by
    intro root has slot page off of there
    exact (spared.pages slot (.inr ⟨root, has, of⟩)).2 page there off
  have rooted : ∀ root, (s.procs q).pagetable = some root → place (.table root 0 0) = some root :=
    fun root has => ((ok.process q listed).space root has).rooted
  have inPlace : ∀ k, frameAt s.vm.memory (stackSlot (s.procs q).kslot k) =
      place (stackSlot (s.procs q).kslot k) := fun k =>
    ok.twins.forest.frameAt_stack fun _ _ => ok.twins.ok.direct_of_place
  have inPlace' : ∀ k, frameAt t.vm.memory (stackSlot (s.procs q).kslot k) =
      place' (stackSlot (s.procs q).kslot k) := fun k =>
    ok'.twins.forest.frameAt_stack fun _ _ => ok'.twins.ok.direct_of_place
  refine ⟨spared.object, spared.frame, ?_, ?_, ?_, ?_⟩
  · intro root has va
    exact (tree root has).tables.translate_eq ok.twins (rooted root has) va
  · intro root has va
    exact (tree root has).userByte_eq ok.twins (rooted root has) va
  · intro k low
    rw [inPlace, inPlace', (spared.pages _ (.inl ⟨k, low, rfl⟩)).1]
  · intro k low page there off
    rw [inPlace] at there
    exact (spared.pages _ (.inl ⟨k, low, rfl⟩)).2 page there off

/-- A step that does not work on the memory of the process `q`. -/
inductive Others (programs : List (String × Image)) (q : Nat) : Machine → Machine → Prop
  | call {a b : Machine} (call : Call) (legal : call.Legal a) (others : ¬ call.Changes q)
      (runs : call.run programs a = .ok ((), b)) : Others programs q a b
  | userinit {a : Machine} {b : Kernel} (cpu : Fin NCPU_MAX) (image : Image)
      (runs : Sbrk.userinit cpu image a.kernel = .ok ((), b)) :
      Others programs q a ⟨b, b.allproc.head?⟩

theorem Others.step (others : Others programs q m m') : Step programs m m' := by
  cases others with
  | call call legal _ runs => exact .call call legal runs
  | userinit cpu image runs => exact .userinit cpu image runs

/-- One step of the others. -/
theorem Others.untouched (others : Others programs q m m') (sound : Sound pages live place m)
    (alive : Alive m.kernel q) : Alive m'.kernel q ∧ Untouched q m.kernel m'.kernel := by
  have effected : ∃ who, ¬ who q ∧ Effected who m.initproc pages place m.kernel m'.kernel := by
    cases others with
    | call call legal other runs =>
        exact ⟨call.Changes, other, ((call_effect sound legal).post_of_eq runs).2⟩
    | userinit cpu image runs =>
        exact ⟨fun _ => False, id, (userinit_effect m.initproc sound.ok sound.housed runs).1⟩
  obtain ⟨who, other, live', place', effect⟩ := effected
  have still := effect.alive q other alive
  exact ⟨still, (effect.spared q alive.1 still.1 other).untouched sound.ok effect.ok alive.1⟩

/-- Any number of steps of the others. -/
theorem isolation (runs : Runs programs clients m) (alive : Alive m.kernel q)
    (path : Relation.ReflTransGen (Others programs q) m m') :
    Alive m'.kernel q ∧ Untouched q m.kernel m'.kernel := by
  have kept : Runs programs clients m' ∧ Alive m'.kernel q ∧ Untouched q m.kernel m'.kernel := by
    induction path with
    | refl => exact ⟨runs, alive, .refl q _⟩
    | tail path others ih =>
        obtain ⟨reached, still, same⟩ := ih
        obtain ⟨live, place, sound⟩ := runs_sound reached
        obtain ⟨still', next⟩ := others.untouched sound still
        exact ⟨reached.next others.step, still', same.trans next⟩
  exact kept.2

theorem isolation_exit : ∃ clients m m' p c, Runs [] clients m ∧ c ≠ p ∧
    (Call.exit c 3).run [] m = .ok ((), m') ∧ Alive m'.kernel p ∧
    Untouched p m.kernel m'.kernel := by
  obtain ⟨clients, m, p, c, runs, list, apart, init, -, child, parent⟩ := exists_child
  have legal : (Call.exit c 3).Legal m := by
    rintro _ ⟨⟩
    exact ⟨by simp [list], by simp [child]⟩
  obtain ⟨live, place, sound⟩ := runs_sound runs
  have outcome : Outcome [] _ place m (.exit c 3) := call_effect sound legal
  rcases outcome with ⟨e, stops, -⟩ | ⟨_, m', ends, -⟩
  · cases e with
    | kern why => exact stops.elim
    | initExiting =>
        have same : some p = some c := init.symm.trans stops
        exact absurd (Option.some.inj same).symm apart
  · have others : Others [] p m m' := .call _ legal (Ne.symm apart) ends
    have alive : Alive m.kernel p := ⟨by simp [list], by simp [parent]⟩
    exact ⟨clients, m, m', p, c, runs, apart, ends, isolation runs alive (.single others)⟩

end Life

end Av6
