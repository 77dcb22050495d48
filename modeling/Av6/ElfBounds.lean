import Av6.ElfLoads
import Av6.KmemReachable

/-!
# Reads of the image, and images that map a page twice

The loader adds offsets and sizes in 64 bits before it compares them with the size of the
image, so that a sum that wraps passes.  It checks each segment by itself, so that two segments
with a common page reach the assertion in `mappages`.
-/

namespace Av6

namespace Elf

open FallibleState Kmem Pmap

variable {image : Image} {s : VmState} {root : Nat}

/-- The state after `kinit`, with some pages of the direct map. -/
def bootState (n : Nat) : VmState where
  kmem := kmemInit ((List.range n).map (KERN_BASE / PGSIZE + ·))
  memory _ _ := 0

theorem bootState_twins {n : Nat} (few : n ≤ 2 ^ 36) :
    Twins 0 (fun _ => none) (bootState n) (bootState n) := by
  have nodup : ((List.range n).map (KERN_BASE / PGSIZE + ·)).Nodup :=
    List.nodup_range.map (add_right_injective _)
  have range : ∀ p ∈ (List.range n).map (KERN_BASE / PGSIZE + ·),
      ∃ i < 2 ^ 36, p = KERN_BASE / PGSIZE + i := by
    intro p there
    obtain ⟨i, small, rfl⟩ := List.mem_map.mp there
    exact ⟨i, by rw [List.mem_range] at small; omega, rfl⟩
  have low : ∀ p ∈ (List.range n).map (KERN_BASE / PGSIZE + ·), 0 < p ∧ p < pageLimit := by
    intro p there
    obtain ⟨i, small, rfl⟩ := range p there
    unfold KERN_BASE PGSIZE pageLimit
    omega
  refine ⟨⟨⟨0, kmemInit_ok nodup low, by simp, by simp, by simp⟩, rfl, ?_⟩, ?_, .refl _ _⟩
  · intro p there
    obtain ⟨i, small, rfl⟩ := range p there
    unfold Direct KERN_BASE PGSIZE
    omega
  · exact ⟨by simp, by simp, by simp, by simp, by simp, by simp,
      by simp [Entry, wordAt, bootState]⟩

theorem fresh_of_uvmcreate {live : CacheRef → Multiset Nat} {p : Nat} {rest : List Nat}
    (twins : Twins live (fun _ => none) s s) (first : s.kmem.freelist = p :: rest) :
    ∃ root t, Fresh root t ∧ Supplies t.kmem rest.length := by
  have held := twins.ok.pageLocks.kmem
  obtain ⟨r, t, -, ⟨-, runs, -⟩ | ⟨root, -, -, runs, twins, -⟩⟩ := (uvmcreate_twin twins).self
  · rw [kpageAlloc_cons held first] at runs
    cases runs
  · refine ⟨root, t, ⟨_, _, twins, Function.update_self .., ?_, ?_, rfl⟩, ?_⟩
    · intro l _ above
      rw [Function.update_of_ne (by simp)]
      simp
    · intro vpn
      rw [Function.update_of_ne (by simp)]
      simp
    · rw [kpageAlloc_cons held first] at runs
      have after : t.kmem = s.kmem.popFree p rest := by
        simp only [Except.ok.injEq, Prod.mk.injEq] at runs
        exact runs.2.symm
      rw [after]
      exact takePages_ne_none held (Nat.le_refl _)

/-- There are fresh page tables, with any number of free pages. -/
theorem exists_fresh {n : Nat} (few : n < 2 ^ 36) :
    ∃ root s, Fresh root s ∧ Supplies s.kmem n := by
  have count : (bootState (n + 1)).kmem.freelist.length = n + 1 := by
    simp [bootState, kmemInit]
  cases pages : (bootState (n + 1)).kmem.freelist with
  | nil => simp [pages] at count
  | cons p rest =>
      have length : rest.length = n := by simpa [pages] using count
      rw [← length]
      exact fresh_of_uvmcreate (bootState_twins (show n + 1 ≤ 2 ^ 36 by omega)) pages

/-- The plan reads outside of the image, and the loader gets there. -/
theorem outside_of_strays {k : Nat} {event : Event} (fresh : Fresh root s)
    (there : image.plan[k]? = some event) (strays : event.Strays image)
    (before : ∀ j < k, ¬ Repeats image.plan j)
    (supplies : Supplies s.kmem (demand [] (image.plan.take k) + event.taking)) :
    ∃ off len, loadelf image true root s = .error (.imageOutside off len) := by
  obtain ⟨live, place, built⟩ := fresh
  have ends := @loadelf_ends image true s live place root built
  have outside : fate image true s.kmem image.plan [] 0 = .outside := by
    refine (fate_outside_iff (supplies_of_eq (b := s.kmem) rfl)).mpr ⟨k, event, there, strays, ?_, ?_⟩
    · intro j less repeats
      exact before j less (repeatsAfter_nil.mp repeats)
    · rwa [Nat.zero_add]
  rw [outside] at ends
  exact ends

/-- The plan maps a page again, and the loader gets there. -/
theorem remap_of_repeats {k : Nat} (fresh : Fresh root s) (repeats : Repeats image.plan k)
    (supplies : Supplies s.kmem (demand [] (image.plan.take k) + 1)) :
    ∃ va, loadelf image false root s = .error (.remap va) := by
  obtain ⟨live, place, built⟩ := fresh
  have ends := @loadelf_ends image false s live place root built
  have remap : fate image false s.kmem image.plan [] 0 = .remap := by
    refine fate_remap_iff.mpr ⟨k, repeatsAfter_nil.mpr repeats, ?_⟩
    rwa [Nat.zero_add]
  rw [remap] at ends
  exact ends

/-- A watched loader reads nothing outside of the image, from a fresh page table: exactly
when each event of the plan that does comes after a page that is mapped again, or after more
pages than the allocator has. -/
theorem loadelf_inside_iff (fresh : Fresh root s) :
    (∀ off len, loadelf image true root s ≠ .error (.imageOutside off len)) ↔
      ∀ k event, image.plan[k]? = some event → event.Strays image →
        (∃ j < k, Repeats image.plan j) ∨
          ¬ Supplies s.kmem (demand [] (image.plan.take k) + event.taking) := by
  constructor
  · intro inside k event there strays
    by_contra neither
    rw [not_or, not_not] at neither
    obtain ⟨off, len, fails⟩ := outside_of_strays fresh there strays
      (fun j less repeats => neither.1 ⟨j, less, repeats⟩) neither.2
    exact inside off len fails
  · intro condition off len fails
    obtain ⟨live, place, built⟩ := fresh
    have ends := @loadelf_ends image true s live place root built
    have outside : fate image true s.kmem image.plan [] 0 = .outside := by
      cases outcome : fate image true s.kmem image.plan [] 0 with
      | built pages taken =>
          rw [outcome] at ends
          exact absurd fails (Yields.not_fails ends)
      | dry =>
          rw [outcome] at ends
          exact absurd fails (Yields.not_fails ends)
      | outside => rfl
      | remap =>
          rw [outcome] at ends
          obtain ⟨va, fails'⟩ := ends
          rw [Fails, fails] at fails'
          cases fails'
    obtain ⟨k, event, there, strays, before, supplies⟩ :=
      (fate_outside_iff (supplies_of_eq (b := s.kmem) rfl)).mp outside
    rw [Nat.zero_add] at supplies
    rcases condition k event there strays with ⟨j, less, repeats⟩ | dry
    · exact before j less (repeatsAfter_nil.mpr repeats)
    · exact dry supplies

/-- An image of the given bytes. -/
def imageOf (bytes : List UInt8) (short : bytes.length < 2 ^ 63) : Image where
  bytes off := bytes.getD off 0
  size := bytes.length
  size_lt := short

/-- An ELF header; the program headers start at `phoff`. -/
def headerBytes (phoff : List UInt8) (phnum : UInt8) : List UInt8 :=
  [0x7F, 0x45, 0x4C, 0x46, 2, 1] ++ List.replicate 10 0 ++ [2, 0, 183, 0] ++ List.replicate 12 0
    ++ phoff ++ List.replicate 14 0 ++ [56, 0, phnum, 0] ++ List.replicate 6 0

/-- A `PT_LOAD` header of one page at 0x1000, with nothing in the file. -/
def segmentBytes : List UInt8 :=
  [1, 0, 0, 0] ++ List.replicate 13 0 ++ [0x10] ++ List.replicate 23 0 ++ [0x10]
    ++ List.replicate 14 0

/-- One segment. -/
def plainImage : Image := imageOf (headerBytes [64, 0, 0, 0, 0, 0, 0, 0] 1 ++ segmentBytes) (by decide)

theorem plainImage_plan : plainImage.plan = [.header 64, .page 0x1000 0 0] := by decide +kernel

theorem loadelf_inside_iff_plainImage : ∃ root s, Fresh root s ∧
    ∀ off len, loadelf plainImage true root s ≠ .error (.imageOutside off len) := by
  obtain ⟨root, s, fresh, -⟩ := @exists_fresh 0 (by decide)
  refine ⟨root, s, fresh, (loadelf_inside_iff fresh).mpr ?_⟩
  rw [plainImage_plan]
  rintro (_ | _ | k) event there strays
  · cases there
    exact absurd strays (by decide +kernel)
  · cases there
    exact absurd strays.1 (by decide)
  · cases there

/-- The program headers are said to start eight bytes before the image. -/
def wrappedImage : Image :=
  imageOf (headerBytes [0xF8, 0xFF, 0xFF, 0xFF, 0xFF, 0xFF, 0xFF, 0xFF] 1) (by decide)

theorem wrappedImage_plan : wrappedImage.plan = [.header (2 ^ 64 - 8)] := by decide +kernel

theorem outside_of_wrapped_header : ∃ root s, Fresh root s ∧
    ¬ ∀ off len, loadelf wrappedImage true root s ≠ .error (.imageOutside off len) := by
  obtain ⟨root, s, fresh, supplies⟩ := @exists_fresh 0 (by decide)
  have there : wrappedImage.plan[0]? = some (.header (2 ^ 64 - 8)) := by
    rw [wrappedImage_plan]
    rfl
  obtain ⟨off, len, fails⟩ := outside_of_strays fresh there (by decide +kernel)
    (fun j less => absurd less (Nat.not_lt_zero j)) supplies
  exact ⟨root, s, fresh, fun inside => inside off len fails⟩

/-- An unwatched loader returns, from a fresh page table: exactly when each page that the plan
maps again comes after more pages than the allocator has. -/
theorem loadelf_returns_iff (fresh : Fresh root s) :
    (∃ r t, loadelf image false root s = .ok (r, t)) ↔
      ∀ k, Repeats image.plan k → ¬ Supplies s.kmem (demand [] (image.plan.take k) + 1) := by
  constructor
  · rintro ⟨r, t, runs⟩ k repeats supplies
    obtain ⟨va, fails⟩ := remap_of_repeats fresh repeats supplies
    rw [runs] at fails
    cases fails
  · intro condition
    obtain ⟨live, place, built⟩ := fresh
    have ends := @loadelf_ends image false s live place root built
    cases outcome : fate image false s.kmem image.plan [] 0 with
    | built pages taken =>
        rw [outcome] at ends
        obtain ⟨r, t, runs, -⟩ := ends
        exact ⟨r, t, runs⟩
    | dry =>
        rw [outcome] at ends
        obtain ⟨r, t, runs, -⟩ := ends
        exact ⟨r, t, runs⟩
    | outside => exact absurd outcome fate_ne_outside
    | remap =>
        obtain ⟨k, repeats, supplies⟩ := fate_remap_iff.mp outcome
        rw [Nat.zero_add] at supplies
        exact absurd supplies (condition k (repeatsAfter_nil.mp repeats))

theorem loadelf_returns_iff_plainImage : ∃ root s, Fresh root s ∧
    ∃ r t, loadelf plainImage false root s = .ok (r, t) := by
  obtain ⟨root, s, fresh, -⟩ := @exists_fresh 0 (by decide)
  refine ⟨root, s, fresh, (loadelf_returns_iff fresh).mpr ?_⟩
  rw [plainImage_plan]
  rintro (_ | _ | k) ⟨_, _, _, there, repeats⟩
  · cases there
  · cases there
    exact absurd repeats (by decide)
  · cases there

/-- Two segments of one and the same page. -/
def overlappingImage : Image :=
  imageOf (headerBytes [64, 0, 0, 0, 0, 0, 0, 0] 2 ++ segmentBytes ++ segmentBytes)
    (by decide +kernel)

theorem overlappingImage_plan : overlappingImage.plan =
    [.header 64, .page 0x1000 0 0, .header 120, .page 0x1000 0 0] := by decide +kernel

theorem panics_of_overlapping_segments : ∃ root s, Fresh root s ∧
    ¬ ∃ r t, loadelf overlappingImage false root s = .ok (r, t) := by
  obtain ⟨root, s, fresh, supplies⟩ := @exists_fresh 5 (by decide)
  have repeats : Repeats overlappingImage.plan 3 := by
    rw [overlappingImage_plan]
    exact ⟨0x1000, 0, 0, rfl, by decide⟩
  have need : demand [] (overlappingImage.plan.take 3) + 1 = 5 := by
    rw [overlappingImage_plan]
    decide
  obtain ⟨va, fails⟩ := remap_of_repeats fresh repeats (by rwa [need])
  refine ⟨root, s, fresh, ?_⟩
  rintro ⟨r, t, runs⟩
  rw [runs] at fails
  cases fails

end Elf

end Av6
