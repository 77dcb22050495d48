import Av6.ForkRuns
import Av6.TransitionSystem
import Mathlib.Order.Bounds.Defs

/-!
# Numbers from a bitmap

Pids and stack slots are numbered by a bitmap.  A number is handed out by setting the first clear
bit and given back by clearing it, so that no number has two owners at a time.
-/

namespace Av6

namespace Bitstring

open TransitionSystem

/-- The body of `pid_alloc`, on a bitmap of `nbits` bits. -/
def bitAlloc (nbits : Int) (a : Bitstr) : Int × Bitstr :=
  let b := bitFfc a nbits
  if 0 ≤ b then (b, bitSet a b.toNat) else (b, a)

/-- A bitmap, and the numbers that have an owner. -/
structure Pool where
  map : Bitstr
  used : Set Nat

/-- Nobody has a number yet.  Bits may be set already, such as the one of pid 0. -/
def Pool.Start (a : Bitstr) (s : Pool) : Prop := s.map = a ∧ s.used = ∅

/-- A call of any of the parties that share the bitmap; its lock is held over the whole call. -/
inductive Pool.Step (nbits : Int) : Pool → Pool → Prop
  | full {s} (none_ : (bitAlloc nbits s.map).1 < 0) :
      Step nbits s { s with map := (bitAlloc nbits s.map).2 }
  | alloc {s} {b : Nat} (found : (bitAlloc nbits s.map).1 = b) :
      Step nbits s { map := (bitAlloc nbits s.map).2, used := insert b s.used }
  | free {s b} (owned : b ∈ s.used) :
      Step nbits s { map := bitClear s.map b, used := s.used \ {b} }

/-- The bitmap keeps its length, and the bits of the numbers in use are set. -/
structure Pool.Ok (words : Nat) (s : Pool) : Prop where
  length : s.map.length = words
  used : ∀ b ∈ s.used, b < words * 64 ∧ bitTest s.map b = true

variable {a : Bitstr} {nbits : Nat} {s t : Pool} {words b : Nat}

theorem bitFfc_eq_iff (covered : nbits ≤ a.length * 64) (b : Nat) :
    bitFfc a nbits = b ↔ IsLeast {b | b < nbits ∧ bitTest a b = false} b := by
  rcases bitFfc_spec a nbits covered with ⟨first, value, below, clear, before⟩ | ⟨value, set⟩
  · have least : IsLeast {b | b < nbits ∧ bitTest a b = false} first := by
      constructor
      · exact ⟨below, clear⟩
      · intro c member
        by_contra less
        have isSet := before c (not_le.mp less)
        rw [member.2] at isSet
        cases isSet
    rw [value]
    constructor
    · intro same
      rwa [← Int.ofNat.inj same]
    · intro least'
      rw [least.unique least']
  · rw [value]
    constructor
    · intro same
      omega
    · intro least
      have isSet := set b least.1.1
      rw [least.1.2] at isSet
      cases isSet

theorem bitFfc_eq_neg_one_iff (covered : nbits ≤ a.length * 64) :
    bitFfc a nbits = -1 ↔ ∀ b < nbits, bitTest a b = true := by
  rcases bitFfc_spec a nbits covered with ⟨first, value, below, clear, -⟩ | ⟨value, set⟩
  · rw [value]
    constructor
    · intro same
      omega
    · intro all
      rw [all first below] at clear
      cases clear
  · exact ⟨fun _ => set, fun _ => value⟩

theorem bitTest_bitSet_eq (inside : b < a.length * 64) (c : Nat) :
    bitTest (bitSet a b) c = if c = b then true else bitTest a c := by
  rw [bitTest_bitSet (by omega)]
  by_cases same : c = b
  · simp [same]
  · simp [same]

theorem bitTest_bitClear_eq (inside : b < a.length * 64) (c : Nat) :
    bitTest (bitClear a b) c = if c = b then false else bitTest a c := by
  rw [bitTest_bitClear (by omega)]
  by_cases same : c = b
  · simp [same]
  · simp [same]

/-- A call finds the least clear bit and sets it, or leaves the bitmap as it is. -/
theorem bitAlloc_cases (covered : nbits ≤ a.length * 64) :
    bitAlloc nbits a = (-1, a) ∨ ∃ b < nbits, bitAlloc nbits a = (Int.ofNat b, bitSet a b) ∧
      bitTest a b = false := by
  rcases bitFfc_spec a nbits covered with ⟨b, value, below, clear, -⟩ | ⟨value, -⟩
  · refine Or.inr ⟨b, below, ?_, clear⟩
    simp [bitAlloc, value]
  · left
    simp [bitAlloc, value]

/-- The number that a call returns was clear. -/
theorem bitAlloc_found (covered : nbits ≤ a.length * 64) (found : (bitAlloc nbits a).1 = b) :
    b < nbits ∧ bitTest a b = false ∧ (bitAlloc nbits a).2 = bitSet a b := by
  rcases bitAlloc_cases covered with none_ | ⟨first, below, some_, clear⟩
  · rw [none_] at found
    simp at found
  · rw [some_] at found ⊢
    obtain rfl : first = b := Int.ofNat.inj found
    exact ⟨below, clear, rfl⟩

theorem Pool.Ok.fresh (ok : s.Ok words) (covered : nbits ≤ words * 64)
    (found : (bitAlloc nbits s.map).1 = b) : b < nbits ∧ b ∉ s.used := by
  obtain ⟨below, clear, -⟩ := bitAlloc_found (by rwa [ok.length]) found
  refine ⟨below, ?_⟩
  intro owned
  rw [(ok.used b owned).2] at clear
  cases clear

/-- What a call keeps. -/
theorem Pool.Step.ok (step : Pool.Step nbits s t) (covered : nbits ≤ words * 64)
    (ok : s.Ok words) : t.Ok words := by
  have inside : nbits ≤ s.map.length * 64 := by rwa [ok.length]
  cases step with
  | full none_ =>
      rcases bitAlloc_cases inside with fails | ⟨b, -, finds, -⟩
      · rw [fails]
        exact ok
      · rw [finds] at none_
        exact absurd none_ (not_lt.mpr (Int.natCast_nonneg b))
  | @alloc b found =>
      obtain ⟨below, -, map⟩ := bitAlloc_found inside found
      rw [map]
      constructor
      · rw [length_bitSet, ok.length]
      · intro c member
        rcases member with rfl | owned
        · rw [bitTest_bitSet_eq (by omega), if_pos rfl]
          exact ⟨by omega, rfl⟩
        · obtain ⟨low, isSet⟩ := ok.used c owned
          rw [bitTest_bitSet_eq (by omega), isSet, ite_self]
          exact ⟨low, rfl⟩
  | @free b owned =>
      constructor
      · rw [length_bitClear, ok.length]
      · rintro c ⟨owned', distinct⟩
        obtain ⟨low, isSet⟩ := ok.used c owned'
        have low' := (ok.used b owned).1
        rw [← ok.length] at low'
        rw [bitTest_bitClear_eq low', if_neg (Set.notMem_singleton_iff.mp distinct)]
        exact ⟨low, isSet⟩

theorem Pool.ok_of_reachable (covered : nbits ≤ a.length * 64)
    (reached : Reachable (Pool.Start a) (Pool.Step nbits) s) : s.Ok a.length := by
  apply reached.invariant
  · rintro state ⟨map, used⟩
    constructor
    · rw [map]
    · rw [used]
      simp
  · intro state after _ ok step
    exact step.ok covered ok

/-- `bit_ffc` finds the first clear bit, `bit_set` and `bit_clear` change one bit, and no run of an
allocator that uses them hands out a number that is in use. -/
theorem bitFfc_finds_first (covered : nbits ≤ a.length * 64) :
    (∀ b : Nat, bitFfc a nbits = b ↔ IsLeast {b | b < nbits ∧ bitTest a b = false} b) ∧
      (bitFfc a nbits = -1 ↔ ∀ b < nbits, bitTest a b = true) ∧
      (∀ b < a.length * 64, ∀ c,
        bitTest (bitSet a b) c = (if c = b then true else bitTest a c) ∧
        bitTest (bitClear a b) c = (if c = b then false else bitTest a c)) ∧
      ∀ s, Reachable (Pool.Start a) (Pool.Step nbits) s → ∀ b : Nat,
        (bitAlloc nbits s.map).1 = b → b < nbits ∧ b ∉ s.used := by
  refine ⟨bitFfc_eq_iff covered, bitFfc_eq_neg_one_iff covered, ?_, ?_⟩
  · intro b inside c
    exact ⟨bitTest_bitSet_eq inside c, bitTest_bitClear_eq inside c⟩
  · intro s reached b found
    exact (Pool.ok_of_reachable covered reached).fresh covered found

/-- Two words with a clear bit at 65 only, searched up to bit 70. -/
theorem bitFfc_finds_first_two :
    bitFfc [~~~0, ~~~2#64] (70 : Nat) = (65 : Nat) ↔
      IsLeast {b | b < 70 ∧ bitTest [~~~0, ~~~2#64] b = false} 65 := by
  have covered : 70 ≤ ([~~~0, ~~~2#64] : Bitstr).length * 64 := by decide
  exact (bitFfc_finds_first covered).1 65

end Bitstring

namespace Fork

open Bitstring Pmap

theorem kstackSlotAlloc_eq (slotmap : Bitstr) :
    kstackSlotAlloc slotmap = bitAlloc KSTACK_NSLOTS slotmap := by
  unfold kstackSlotAlloc bitAlloc
  rfl

/-- `pid_alloc` and `pid_free` act on the bitmap of pids as the allocator does. -/
theorem pidAlloc_step {s t : Kernel} {pid : Nat} {used : Set Nat}
    (runs : pidAlloc s = .ok (pid, t)) :
    Pool.Step KSTACK_NSLOTS ⟨s.pidmap, used⟩ ⟨t.pidmap, insert pid used⟩ := by
  rw [pidAlloc_eq, kstackSlotAlloc_eq] at runs
  injection runs with same
  injection same with found after
  rw [← after]
  exact .alloc found

theorem pidFree_step {s t : Kernel} {pid : Nat} {used : Set Nat} (owned : pid ∈ used)
    (runs : pidFree pid s = .ok ((), t)) :
    Pool.Step KSTACK_NSLOTS ⟨s.pidmap, used⟩ ⟨t.pidmap, used \ {pid}⟩ := by
  injection runs with same
  injection same with _ after
  rw [← after]
  exact .free owned

/-- `kstack_slot_alloc` and `kstack_slot_free` do so on the bitmap of the window. -/
theorem slotAlloc_step {s t : Kernel} {idx : Nat} {used : Set Nat}
    (runs : slotAlloc s = .ok (idx, t)) :
    Pool.Step KSTACK_NSLOTS ⟨s.kstackSlotmap, used⟩ ⟨t.kstackSlotmap, insert idx used⟩ := by
  have call : slotAlloc s = .ok ((kstackSlotAlloc s.kstackSlotmap).1,
      { s with kstackSlotmap := (kstackSlotAlloc s.kstackSlotmap).2 }) := rfl
  rw [call, kstackSlotAlloc_eq] at runs
  injection runs with same
  injection same with found after
  rw [← after]
  exact .alloc found

theorem slotFree_step {s t : Kernel} {idx : Nat} {used : Set Nat} (owned : idx ∈ used)
    (runs : slotFree idx s = .ok ((), t)) :
    Pool.Step KSTACK_NSLOTS ⟨s.kstackSlotmap, used⟩ ⟨t.kstackSlotmap, used \ {idx}⟩ := by
  injection runs with same
  injection same with _ after
  rw [← after]
  exact .free owned

end Fork

end Av6
