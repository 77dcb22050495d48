import Av6.KinitModel
import Av6.PhysmemAvail
import Mathlib.Data.Set.Card
import Mathlib.Order.Interval.Set.Nat

/-!
# The freelist after boot

The descriptor array is sized from one list of segments, withheld from it, and sliced
across the list that results.  The second list covers less than the first, so that the slices
lie inside the array.
-/

namespace Av6

namespace Physmem

open Intervals

variable {segs : List PhysSeg} {seg seg' : PhysSeg} {l l' : List (Nat × Nat)} {pa pg total : Nat}
  {m : MemoryMap}

/-- The size of what separated intervals cover. -/
theorem ncard_cover (sep : Separated l) :
    (cover l).Finite ∧ (cover l).ncard = (l.map fun i => i.2 - i.1).sum := by
  induction sep with
  | nil => simp
  | @cons i l proper gap rest ih =>
      obtain ⟨finite, size⟩ := ih
      have apart : Disjoint (Set.Ico i.1 i.2) (cover l) := by
        rw [Set.disjoint_left]
        rintro x ⟨-, high⟩ ⟨j, member, low, -⟩
        exact absurd (high.trans (gap j member)) (not_lt.mpr low)
      rw [cover_cons]
      refine ⟨(Set.finite_Ico _ _).union finite, ?_⟩
      rw [Set.ncard_union_eq apart (Set.finite_Ico _ _) finite, size, List.map_cons, List.sum_cons,
        Set.ncard_Ico_nat]

theorem sum_le_of_cover (sep : Separated l) (sep' : Separated l') (less : cover l' ⊆ cover l) :
    (l'.map fun i => i.2 - i.1).sum ≤ (l.map fun i => i.2 - i.1).sum := by
  rw [← (ncard_cover sep).2, ← (ncard_cover sep').2]
  exact Set.ncard_le_ncard less (ncard_cover sep).1

theorem foldl_add64 {sizes : List Nat} {a : Nat} (small : a < 2 ^ 64) :
    sizes.foldl add64 a = (a + sizes.sum) % 2 ^ 64 := by
  induction sizes generalizing a with
  | nil => exact (Nat.mod_eq_of_lt small).symm
  | cons n rest ih =>
      rw [List.foldl_cons, ih (add64_lt a n), List.sum_cons, add64]
      omega

/-- The segments with their slices, of an array with `total` descriptors. -/
structure SlicesOk (segs : List PhysSeg) (total : Nat) : Prop where
  apart : segs.Pairwise fun a b => a.stop < b.start ∧ a.firstPage + a.pages ≤ b.firstPage
  proper : ∀ seg ∈ segs, seg.start < seg.stop ∧ PGSIZE ∣ seg.start ∧ PGSIZE ∣ seg.stop
  within : ∀ seg ∈ segs, seg.firstPage + seg.pages ≤ total

theorem slice_ok (pg : Nat) (ok : SegsOk l) :
    SlicesOk (slice pg l) (pg + (l.map fun i => (i.2 - i.1) / PGSIZE).sum) ∧
      (slice pg l).map (fun seg => (seg.start, seg.stop)) = l ∧
      ∀ seg ∈ slice pg l, pg ≤ seg.firstPage := by
  induction l generalizing pg with
  | nil => exact ⟨⟨.nil, by simp [slice], by simp [slice]⟩, rfl, by simp [slice]⟩
  | cons i rest ih =>
      obtain ⟨start, stop⟩ := i
      obtain ⟨proper, gap, later⟩ := separated_cons.mp ok.separated
      obtain ⟨tail, same, above⟩ := ih (pg + (stop - start) / PGSIZE)
        ⟨later, fun i there => ok.pages i (by simp [there]),
          fun i there => ok.bound i (by simp [there])⟩
      unfold slice
      refine ⟨⟨List.pairwise_cons.mpr ⟨fun seg there => ⟨?_, above seg there⟩, tail.apart⟩, ?_, ?_⟩,
        by rw [List.map_cons, same], ?_⟩
      · have member : (seg.start, seg.stop) ∈ rest := by
          rw [← same]
          exact List.mem_map_of_mem there
        exact gap _ member
      · intro seg there
        rcases List.mem_cons.mp there with rfl | there
        · exact ⟨proper, ok.pages (start, stop) (by simp)⟩
        · exact tail.proper seg there
      · intro seg there
        rw [List.map_cons, List.sum_cons]
        rcases List.mem_cons.mp there with rfl | there
        · exact Nat.add_le_add_left (Nat.le_add_right ..) pg
        · exact (tail.within seg there).trans_eq (Nat.add_assoc ..)
      · intro seg there
        rcases List.mem_cons.mp there with rfl | there
        · exact le_rfl
        · exact (Nat.le_add_right ..).trans (above seg there)

theorem pairwise_cases {α : Type*} {R : α → α → Prop} {l : List α} (pairs : l.Pairwise R) {a b : α}
    (first : a ∈ l) (second : b ∈ l) : a = b ∨ R a b ∨ R b a := by
  induction pairs with
  | nil => cases first
  | cons head _ ih =>
      rcases List.mem_cons.mp first with rfl | inside <;>
        rcases List.mem_cons.mp second with rfl | inside'
      · exact Or.inl rfl
      · exact Or.inr (Or.inl (head _ inside'))
      · exact Or.inr (Or.inr (head _ inside))
      · exact ih inside inside'

/-- A search finds the only entry there is. -/
theorem find?_eq_of_unique {α : Type*} {p : α → Bool} {l : List α} {a : α} (member : a ∈ l)
    (holds : p a = true) (unique : ∀ b ∈ l, p b = true → b = a) : l.find? p = some a := by
  cases found : l.find? p with
  | none => exact absurd holds (List.find?_eq_none.mp found a member)
  | some b => rw [unique b (List.mem_of_find?_eq_some found) (List.find?_some found)]

section Slices

variable (ok : SlicesOk segs total) (member : seg ∈ segs)
include ok member

theorem SlicesOk.paToPage_eq (low : seg.start ≤ pa) (high : pa < seg.stop) :
    paToPage segs pa = some (seg.firstPage + (pa - seg.start) / PGSIZE) := by
  unfold paToPage
  rw [find?_eq_of_unique member (by simp [low, high]) ?_, Option.map_some]
  intro other there holds
  simp only [decide_eq_true_eq] at holds
  rcases pairwise_cases ok.apart there member with same | before | after
  · exact same
  · omega
  · omega

theorem SlicesOk.pageToPa_eq (low : seg.firstPage ≤ pg) (high : pg < seg.firstPage + seg.pages) :
    pageToPa segs pg = some (seg.start + (pg - seg.firstPage) * PGSIZE) := by
  unfold pageToPa
  rw [find?_eq_of_unique member (by simp [low, high]) ?_, Option.map_some]
  intro other there holds
  simp only [decide_eq_true_eq] at holds
  rcases pairwise_cases ok.apart there member with same | before | after
  · exact same
  · omega
  · omega

theorem SlicesOk.pages_mul : seg.pages * PGSIZE = seg.stop - seg.start := by
  obtain ⟨-, first, last⟩ := ok.proper seg member
  exact Nat.div_mul_cancel (Nat.dvd_sub last first)

/-- The page with the given number, and back. -/
theorem SlicesOk.page (i : Nat) (inside : i < seg.pages) :
    seg.start + i * PGSIZE < seg.stop ∧
      paToPage segs (seg.start + i * PGSIZE) = some (seg.firstPage + i) ∧
      pageToPa segs (seg.firstPage + i) = some (seg.start + i * PGSIZE) := by
  have whole := ok.pages_mul member
  have proper := (ok.proper seg member).1
  have less : i * PGSIZE < seg.pages * PGSIZE := Nat.mul_lt_mul_of_pos_right inside (by decide)
  have below : seg.start + i * PGSIZE < seg.stop := by omega
  refine ⟨below, ?_, ?_⟩
  · rw [ok.paToPage_eq member (Nat.le_add_right ..) below, Nat.add_sub_cancel_left,
      Nat.mul_div_cancel _ (by decide)]
  · rw [ok.pageToPa_eq member (Nat.le_add_right ..) (by omega), Nat.add_sub_cancel_left]

/-- Every page address of a segment has a number. -/
theorem SlicesOk.exists_page (low : seg.start ≤ pa) (high : pa < seg.stop) (whole : PGSIZE ∣ pa) :
    ∃ i < seg.pages, pa = seg.start + i * PGSIZE := by
  obtain ⟨-, first, -⟩ := ok.proper seg member
  have pages := ok.pages_mul member
  obtain ⟨i, offset⟩ := Nat.dvd_sub whole first
  refine ⟨i, ?_, ?_⟩
  · by_contra beyond
    have more : seg.pages * PGSIZE ≤ i * PGSIZE := Nat.mul_le_mul_right _ (by omega)
    rw [Nat.mul_comm] at offset
    omega
  · rw [Nat.mul_comm] at offset
    omega

end Slices

/-- The descriptors of a segment. -/
def PhysSeg.descriptors (seg : PhysSeg) : List Nat :=
  (List.range seg.pages).map fun i => seg.firstPage + i

theorem PhysSeg.mem_descriptors :
    pg ∈ seg.descriptors ↔ seg.firstPage ≤ pg ∧ pg < seg.firstPage + seg.pages := by
  simp only [descriptors, List.mem_map, List.mem_range]
  constructor
  · rintro ⟨i, inside, rfl⟩
    omega
  · rintro ⟨low, high⟩
    exact ⟨pg - seg.firstPage, by omega, by omega⟩

/-- The loop pushes one descriptor after the other. -/
theorem SlicesOk.freePages_eq (ok : SlicesOk segs total) (todo : List PhysSeg)
    (among : ∀ seg ∈ todo, seg ∈ segs) (freelist : List Nat) :
    freePages segs (todo.flatMap PhysSeg.addresses) freelist =
      some ((todo.flatMap PhysSeg.descriptors).reverse ++ freelist) := by
  have one : ∀ seg ∈ segs, ∀ (is rest : List Nat) (freelist : List Nat), (∀ i ∈ is, i < seg.pages) →
      freePages segs (is.map (fun i => seg.start + i * PGSIZE) ++ rest) freelist =
        freePages segs rest ((is.map fun i => seg.firstPage + i).reverse ++ freelist) := by
    intro seg member is rest freelist inside
    induction is generalizing freelist with
    | nil => rfl
    | cons i is ih =>
        rw [List.map_cons, List.cons_append, freePages,
          (ok.page member i (inside i (by simp))).2.1, Option.bind_some,
          ih _ fun j there => inside j (by simp [there])]
        simp
  induction todo generalizing freelist with
  | nil => simp [freePages]
  | cons seg rest ih =>
      rw [List.flatMap_cons, List.flatMap_cons, PhysSeg.addresses,
        one seg (among seg (by simp)) _ _ _ (by simp),
        ih fun s there => among s (by simp [there])]
      simp [PhysSeg.descriptors]

theorem SlicesOk.descriptors_nodup (ok : SlicesOk segs total) :
    (segs.flatMap PhysSeg.descriptors).Nodup := by
  rw [List.nodup_flatMap]
  refine ⟨fun seg _ => ?_, ok.apart.imp ?_⟩
  · exact List.nodup_range.map fun i j same => Nat.add_left_cancel same
  · rintro a b ⟨-, below⟩ pg first second
    have low := PhysSeg.mem_descriptors.mp first
    have high := PhysSeg.mem_descriptors.mp second
    omega

/-- Without a bound on the reports, the lists are still in order. -/
theorem MapOk.reportAll_ok (ok : MapOk m) {reports : List Report} {m' : MemoryMap}
    (runs : m.reportAll reports = some m') : MapOk m' := by
  induction reports generalizing m with
  | nil =>
      cases runs
      exact ok
  | cons r rest ih =>
      obtain ⟨next, first, later⟩ := Option.bind_eq_some_iff.mp runs
      cases r with
      | hardware pa size => exact ih (ok.hardwareRegion first).1 later
      | exclude pa size => exact ih (ok.excludeRegion first).1 later

/-- Exclusions only withhold more. -/
structure Narrows (m m' : MemoryMap) : Prop where
  ok : MapOk m'
  hw : m'.hwregions = m.hwregions
  ex : cover (spans m.exregions) ⊆ cover (spans m'.exregions)

theorem MapOk.excludes (ok : MapOk m) {exclusions : List (Nat × Nat)} {m' : MemoryMap}
    (runs : m.reportAll (exclusions.map fun x => .exclude x.1 x.2) = some m') : Narrows m m' := by
  induction exclusions generalizing m with
  | nil =>
      cases runs
      exact ⟨ok, rfl, subset_rfl⟩
  | cons x rest ih =>
      obtain ⟨next, first, runs⟩ := Option.bind_eq_some_iff.mp runs
      obtain ⟨ok', hw, ex⟩ := ok.excludeRegion first
      obtain ⟨ok'', hw', ex'⟩ := ih ok' runs
      refine ⟨ok'', hw'.trans hw, Set.Subset.trans ?_ ex'⟩
      rw [ex]
      exact Set.subset_union_right

/-- A range between whole pages is withheld as it is. -/
theorem excludeRegion_exact {start freemem : Nat} {m' : MemoryMap} (ok : MapOk m)
    (bound : freemem < 2 ^ 64) (whole : PGSIZE ∣ freemem)
    (runs : m.excludeRegion start (sub64 freemem start) = some m') :
    Narrows m m' ∧ Set.Ico start freemem ⊆ cover (spans m'.exregions) := by
  obtain ⟨ok', hw, ex⟩ := ok.excludeRegion runs
  refine ⟨⟨ok', hw, ?_⟩, ?_⟩
  · rw [ex]
    exact Set.subset_union_right
  · rw [ex]
    rintro y ⟨low, high⟩
    refine Or.inl ⟨(Nat.div_mul_le_self ..).trans low, ?_⟩
    have ends : add64 start (sub64 freemem start) = freemem := by
      unfold add64 sub64
      omega
    have up : pgRoundUp freemem = freemem := by
      obtain ⟨n, rfl⟩ := whole
      unfold pgRoundUp add64
      unfold PGSIZE at *
      omega
    rw [ends, up]
    exact high

/-- The end of the direct map. -/
def dmapEnd : Nat := KSTACK_WINDOW_L1 * BLOCK_SIZE_1G

theorem kvminit_spec {stext imageEnd tables freemem : Nat} {m' : MemoryMap} (ok : MapOk m)
    (runs : m.kvminit stext imageEnd tables = some (m', freemem)) :
    Narrows m m' ∧ Set.Ico stext freemem ⊆ cover (spans m'.exregions) ∧ PGSIZE ∣ freemem ∧
      freemem < 2 ^ 64 ∧
      ∀ y ∈ cover (spans m.hwregions) \ cover (spans m.exregions), y < dmapEnd := by
  obtain ⟨segs, published, segsOk, covered⟩ := ok.avail
  unfold MemoryMap.kvminit at runs
  rw [published] at runs
  simp only [Option.bind_eq_bind, Option.bind_some, Option.pure_def] at runs
  split at runs
  case isFalse => cases runs
  rename_i inside
  obtain ⟨next, excluded, same⟩ := Option.bind_eq_some_iff.mp runs
  cases same
  have whole : PGSIZE ∣ add64 (pgRoundUp imageEnd) (tables * PGSIZE) := by
    unfold add64
    rw [Nat.dvd_mod_iff (by decide)]
    exact Nat.dvd_add (dvd_pgRoundUp _) (Nat.dvd_mul_left ..)
  obtain ⟨narrows, image⟩ := excludeRegion_exact ok (add64_lt ..) whole excluded
  refine ⟨narrows, image, whole, add64_lt .., fun y there => ?_⟩
  rw [← covered] at there
  obtain ⟨seg, member, -, high⟩ := there
  exact high.trans_le (inside seg member).2

/-- What `kinit` leaves behind: the freelist has each page of the segments once, none of
them is the image, a boot table or part of the descriptor array, the slices lie apart inside the
array, and descriptors and pages correspond. -/
structure BootOk (k : Kinit) (stext : Nat) : Prop where
  nodup : k.freelist.Nodup
  free : ∀ pg, pg ∈ k.freelist ↔
    ∃ seg ∈ k.segs, seg.firstPage ≤ pg ∧ pg < seg.firstPage + seg.pages
  descriptor : ∀ seg ∈ k.segs, ∀ pa, PGSIZE ∣ pa → seg.start ≤ pa → pa < seg.stop →
    ∃ pg ∈ k.freelist, paToPage k.segs pa = some pg ∧ pageToPa k.segs pg = some pa
  page : ∀ pg ∈ k.freelist, ∃ seg ∈ k.segs, ∃ pa, PGSIZE ∣ pa ∧ seg.start ≤ pa ∧
    pa + PGSIZE ≤ seg.stop ∧ pageToPa k.segs pg = some pa ∧ paToPage k.segs pa = some pg
  away : ∀ seg ∈ k.segs, ∀ y, seg.start ≤ y → y < seg.stop →
    (y < stext ∨ k.bootFreemem ≤ y) ∧ (y < k.arrayPa ∨ k.arrayPa + k.arrayBytes ≤ y)
  slices : k.segs.Pairwise fun a b => a.firstPage + a.pages ≤ b.firstPage
  array : ∀ seg ∈ k.segs, (seg.firstPage + seg.pages) * pageStructSize ≤ k.arrayBytes

/-- The sizes of segments below the end of the direct map do not overflow. -/
theorem physmemSize_eq (ok : SegsOk l) (low : ∀ y ∈ cover l, y < dmapEnd) :
    physmemSize l = (l.map fun i => i.2 - i.1).sum ∧ physmemSize l ≤ dmapEnd := by
  have total : (l.map fun i => i.2 - i.1).sum ≤ dmapEnd := by
    rw [← (ncard_cover ok.separated).2, ← Nat.sub_zero dmapEnd, ← Set.ncard_Ico_nat]
    exact Set.ncard_le_ncard (fun y there => ⟨Nat.zero_le y, low y there⟩) (Set.finite_Ico ..)
  have small : dmapEnd < 2 ^ 64 := by decide
  have sum : physmemSize l = (l.map fun i => i.2 - i.1).sum := by
    rw [physmemSize, foldl_add64 (by decide), Nat.zero_add, Nat.mod_eq_of_lt (by omega)]
  exact ⟨sum, by omega⟩

theorem sum_pages (ok : SegsOk l) :
    (l.map fun i => (i.2 - i.1) / PGSIZE).sum * PGSIZE = (l.map fun i => i.2 - i.1).sum := by
  obtain ⟨-, pages, -⟩ := ok
  induction l with
  | nil => simp
  | cons i rest ih =>
      obtain ⟨first, last⟩ := pages i (by simp)
      rw [List.map_cons, List.map_cons, List.sum_cons, List.sum_cons, Nat.add_mul,
        Nat.div_mul_cancel (Nat.dvd_sub last first), ih fun j there => pages j (by simp [there])]

theorem kinit_ok {stext freemem : Nat} {k : Kinit} (ok : MapOk m) (whole : PGSIZE ∣ freemem)
    (image : Set.Ico stext freemem ⊆ cover (spans m.exregions))
    (low : ∀ y ∈ cover (spans m.hwregions) \ cover (spans m.exregions), y < dmapEnd)
    (runs : m.kinit freemem = some k) : BootOk k stext := by
  obtain ⟨before, published, beforeOk, covered⟩ := ok.avail
  rw [← covered] at low
  obtain ⟨size, bound⟩ := physmemSize_eq beforeOk low
  unfold MemoryMap.kinit at runs
  rw [published] at runs
  simp only [Option.bind_eq_bind, Option.bind_some, Option.pure_def] at runs
  obtain ⟨seg, found, runs⟩ := Option.bind_eq_some_iff.mp runs
  split at runs
  case isFalse => cases runs
  rename_i room
  obtain ⟨next, excluded, runs⟩ := Option.bind_eq_some_iff.mp runs
  set arrayBytes := pgRoundUp (physmemSize before / PGSIZE * pageStructSize) with bytes
  have here : freemem < dmapEnd := by
    obtain ⟨inside, high⟩ : seg.1 ≤ freemem ∧ freemem < seg.2 := by
      simpa using List.find?_some found
    exact low freemem ⟨seg, List.mem_of_find?_eq_some found, inside, high⟩
  -- the array is small, so that nothing wraps around
  have enough : physmemSize before / PGSIZE * pageStructSize ≤ arrayBytes ∧
      arrayBytes < 2 ^ 40 := by
    unfold dmapEnd KSTACK_WINDOW_L1 BLOCK_SIZE_1G at bound
    rw [bytes]
    unfold pgRoundUp add64 PGSIZE pageStructSize
    omega
  have fits : freemem + arrayBytes < 2 ^ 64 := by
    unfold dmapEnd KSTACK_WINDOW_L1 BLOCK_SIZE_1G at here
    omega
  have ends : add64 freemem arrayBytes = freemem + arrayBytes := Nat.mod_eq_of_lt fits
  have difference : arrayBytes = sub64 (freemem + arrayBytes) freemem := by
    unfold sub64
    omega
  rw [difference] at excluded
  obtain ⟨⟨ok', hw, ex⟩, array⟩ := excludeRegion_exact ok fits
    (Nat.dvd_add whole (dvd_pgRoundUp _)) excluded
  obtain ⟨after, published', afterOk, covered'⟩ := ok'.avail
  rw [published', Option.bind_some] at runs
  obtain ⟨sliced, same, -⟩ := slice_ok 0 afterOk
  rw [Nat.zero_add] at sliced
  rw [sliced.freePages_eq _ (fun _ => id) [], Option.bind_some, List.append_nil] at runs
  cases runs
  have less : cover after ⊆ cover before := by
    rw [covered, covered', hw]
    exact Set.sdiff_subset_sdiff_right ex
  have inAfter : ∀ seg ∈ slice 0 after, ∀ y, seg.start ≤ y → y < seg.stop →
      y ∉ cover (spans next.exregions) := by
    intro seg member y low high
    have there : (seg.start, seg.stop) ∈ after := by
      rw [← same]
      exact List.mem_map_of_mem member
    have inside : y ∈ cover after := ⟨_, there, low, high⟩
    rw [covered'] at inside
    exact inside.2
  have mem : ∀ pg, pg ∈ ((slice 0 after).flatMap PhysSeg.descriptors).reverse ↔
      ∃ seg ∈ slice 0 after, seg.firstPage ≤ pg ∧ pg < seg.firstPage + seg.pages := by
    intro pg
    simp [PhysSeg.mem_descriptors]
  refine ⟨List.nodup_reverse.mpr sliced.descriptors_nodup, mem, ?_, ?_, ?_, ?_, ?_⟩
  · intro seg member pa whole low high
    obtain ⟨i, inside, rfl⟩ := sliced.exists_page member low high whole
    obtain ⟨-, forth, back⟩ := sliced.page member i inside
    exact ⟨_, (mem _).mpr ⟨seg, member, by omega, by omega⟩, forth, back⟩
  · intro pg there
    obtain ⟨seg, member, low, high⟩ := (mem pg).mp there
    obtain ⟨i, rfl⟩ := Nat.exists_eq_add_of_le low
    obtain ⟨-, forth, back⟩ := sliced.page member i (by omega)
    obtain ⟨-, first, -⟩ := sliced.proper seg member
    have whole := sliced.pages_mul member
    have inside : (i + 1) * PGSIZE ≤ seg.pages * PGSIZE := Nat.mul_le_mul_right _ (by omega)
    rw [Nat.add_mul, Nat.one_mul] at inside
    have proper := (sliced.proper seg member).1
    exact ⟨seg, member, _, Nat.dvd_add first (Nat.dvd_mul_left ..), Nat.le_add_right .., by omega,
      back, forth⟩
  · intro seg member y low high
    have outside := inAfter seg member y low high
    have notArray : ¬ (freemem ≤ y ∧ y < freemem + arrayBytes) := fun both => outside (array both)
    have notImage : ¬ (stext ≤ y ∧ y < freemem) := fun both => outside (ex (image both))
    show (y < stext ∨ add64 freemem arrayBytes ≤ y) ∧ (y < freemem ∨ freemem + arrayBytes ≤ y)
    rw [ends]
    omega
  · exact sliced.apart.imp fun both => both.2
  · intro seg member
    have within := sliced.within seg member
    have pages := sum_pages afterOk
    have sums := sum_le_of_cover beforeOk.separated afterOk.separated less
    show (seg.firstPage + seg.pages) * pageStructSize ≤ arrayBytes
    rw [← size] at sums
    have count : (after.map fun i => (i.2 - i.1) / PGSIZE).sum ≤ physmemSize before / PGSIZE := by
      rw [Nat.le_div_iff_mul_le (by decide), pages]
      exact sums
    exact (Nat.mul_le_mul_right _ (within.trans count)).trans enough.1

/-- Boot freelist correctness. -/
theorem boot_freelist {reports : List Report} {stext imageEnd tables : Nat}
    {exclusions : List (Nat × Nat)} {k : Kinit}
    (runs : boot reports stext imageEnd tables exclusions = some k) : BootOk k stext := by
  unfold boot at runs
  simp only [Option.bind_eq_bind, Option.bind_eq_some_iff] at runs
  obtain ⟨m, first, ⟨m', freemem⟩, second, m'', third, last⟩ := runs
  have ok := empty_ok.reportAll_ok first
  obtain ⟨⟨ok', hw, ex⟩, image, whole, -, low⟩ := kvminit_spec ok second
  obtain ⟨ok'', hw', ex'⟩ := ok'.excludes third
  refine kinit_ok ok'' whole (image.trans ex') (fun y there => low y ⟨?_, ?_⟩) last
  · rw [← hw, ← hw']
    exact there.1
  · exact fun inside => there.2 (ex' (ex inside))

/-- Eight pages: two of the image, a boot table, the descriptors, and four that are free. -/
theorem boot_freelist_small : ∃ k,
    boot [.hardware 0x40000000 0x8000] 0x40000000 0x40001800 1 [] = some k ∧
      k.freelist = [3, 2, 1, 0] ∧ BootOk k 0x40000000 := by
  have runs : boot [.hardware 0x40000000 0x8000] 0x40000000 0x40001800 1 [] =
      some ⟨[⟨0x40004000, 0x40008000, 0⟩], [3, 2, 1, 0], 0x40003000, 0x1000, 0x40004000⟩ := by
    decide
  exact ⟨_, runs, rfl, boot_freelist runs⟩

end Physmem

end Av6
