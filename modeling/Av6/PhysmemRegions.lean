import Av6.PhysmemModel
import Av6.SeparatedIntervals
import Mathlib.Order.MinMax

/-!
# Inserting and subtracting regions

Both lists stay lists of separated intervals, and what they cover is what has been
reported.
-/

namespace Av6

namespace Physmem

open Intervals

variable {r x : Region} {l l' rest : List Region} {addr size start stop a : Nat} {room : Bool}

/-- A region of whole pages that does not reach the end of the address space. -/
structure RegionOk (r : Region) : Prop where
  positive : 0 < r.size
  bound : r.addr + r.size < 2 ^ 64
  start : PGSIZE ∣ r.addr
  pages : PGSIZE ∣ r.size

theorem RegionOk.stop_eq (ok : RegionOk r) : r.stop = r.addr + r.size :=
  Nat.mod_eq_of_lt ok.bound

theorem RegionOk.lt (ok : RegionOk r) : r.addr < r.stop := by
  have positive := ok.positive
  rw [ok.stop_eq]
  omega

theorem RegionOk.stop_lt (ok : RegionOk r) : r.stop < 2 ^ 64 := by
  rw [ok.stop_eq]
  exact ok.bound

theorem RegionOk.stop_dvd (ok : RegionOk r) : PGSIZE ∣ r.stop := by
  rw [ok.stop_eq]
  exact Nat.dvd_add ok.start ok.pages

/-- A region is made from its ends. -/
theorem regionOk_of_ends (proper : start < stop) (bound : stop < 2 ^ 64) (first : PGSIZE ∣ start)
    (last : PGSIZE ∣ stop) :
    RegionOk ⟨start, sub64 stop start⟩ ∧ (⟨start, sub64 stop start⟩ : Region).stop = stop := by
  have size : sub64 stop start = stop - start := by
    unfold sub64
    omega
  have ok : RegionOk ⟨start, sub64 stop start⟩ := by
    rw [size]
    refine ⟨Nat.sub_pos_of_lt proper, ?_, first, Nat.dvd_sub last first⟩
    show start + (stop - start) < 2 ^ 64
    omega
  refine ⟨ok, ?_⟩
  rw [ok.stop_eq]
  show start + sub64 stop start = stop
  omega

/-- The intervals of a list of regions. -/
def spans (l : List Region) : List (Nat × Nat) :=
  l.map fun r => (r.addr, r.stop)

@[simp]
theorem spans_cons : spans (r :: l) = (r.addr, r.stop) :: spans l :=
  rfl

theorem forall_spans {P : Nat × Nat → Prop} :
    (∀ i ∈ spans l, P i) ↔ ∀ r ∈ l, P (r.addr, r.stop) := by
  simp [spans]

structure RegionsOk (l : List Region) : Prop where
  region : ∀ r ∈ l, RegionOk r
  separated : Separated (spans l)

theorem regionsOk_cons : RegionsOk (r :: l) ↔
    RegionOk r ∧ (∀ q ∈ l, r.stop < q.addr) ∧ RegionsOk l := by
  constructor
  · rintro ⟨region, separated⟩
    obtain ⟨-, gap, rest⟩ := separated_cons.mp separated
    exact ⟨region r (by simp), forall_spans.mp gap, fun q there => region q (by simp [there]), rest⟩
  · rintro ⟨ok, gap, region, separated⟩
    refine ⟨fun q there => ?_, .cons ok.lt (forall_spans.mpr gap) separated⟩
    rcases List.mem_cons.mp there with rfl | there
    · exact ok
    · exact region q there

theorem regionsOk_nil : RegionsOk [] :=
  ⟨by simp, .nil⟩

/-- The entry `[start, stop)` grows over the regions it reaches. -/
theorem absorb_spec (ok : RegionsOk l) (before : ∀ q ∈ l, start < q.addr) (proper : start < stop)
    (bound : stop < 2 ^ 64) (last : PGSIZE ∣ stop) :
    start < (absorb stop l).1 ∧ (absorb stop l).1 < 2 ^ 64 ∧ PGSIZE ∣ (absorb stop l).1 ∧
      RegionsOk (absorb stop l).2 ∧ (∀ q ∈ (absorb stop l).2, (absorb stop l).1 < q.addr) ∧
      (absorb stop l).2.length ≤ l.length ∧
      Set.Ico start (absorb stop l).1 ∪ cover (spans (absorb stop l).2) =
        Set.Ico start stop ∪ cover (spans l) := by
  induction l generalizing stop with
  | nil => exact ⟨proper, bound, last, ok, by simp [absorb], le_rfl, rfl⟩
  | cons r rest ih =>
      obtain ⟨here, gap, later⟩ := regionsOk_cons.mp ok
      unfold absorb
      split
      · rename_i apart
        refine ⟨proper, bound, last, ok, fun q there => ?_, le_rfl, rfl⟩
        rcases List.mem_cons.mp there with rfl | there
        · exact apart
        · exact apart.trans (here.lt.trans (gap q there))
      · rename_i reaches
        have grown : (if stop < r.stop then r.stop else stop) = max stop r.stop := by
          split <;> omega
        rw [grown]
        have step := ih later (fun q there => before q (by simp [there]))
          (proper.trans_le (le_max_left stop r.stop)) (max_lt bound here.stop_lt)
          (max_rec' (PGSIZE ∣ ·) last here.stop_dvd)
        obtain ⟨proper', bound', last', ok', gap', length, same⟩ := step
        refine ⟨proper', bound', last', ok', gap', by simp; omega, ?_⟩
        have first : start < r.addr := before r (by simp)
        have merged : Set.Ico start stop ∪ Set.Ico r.addr r.stop =
            Set.Ico start (max stop r.stop) := by
          rw [Set.Ico_union_Ico' (by omega) (first.trans here.lt).le, min_eq_left first.le]
        rw [same, spans_cons, cover_cons, ← Set.union_assoc, merged]

theorem mergeUpper_spec (here : RegionOk r) (ok : RegionsOk l) (before : ∀ q ∈ l, r.addr < q.addr) :
    RegionsOk (mergeUpper r l) ∧ (∀ q ∈ mergeUpper r l, r.addr ≤ q.addr) ∧
      (mergeUpper r l).length ≤ l.length + 1 ∧
      cover (spans (mergeUpper r l)) = Set.Ico r.addr r.stop ∪ cover (spans l) := by
  obtain ⟨proper, bound, last, ok', gap, length, same⟩ :=
    absorb_spec ok before here.lt here.stop_lt here.stop_dvd
  obtain ⟨grown, ends⟩ := regionOk_of_ends proper bound here.start last
  have shape : mergeUpper r l = ⟨r.addr, sub64 (absorb r.stop l).1 r.addr⟩ :: (absorb r.stop l).2 :=
    rfl
  rw [shape]
  refine ⟨regionsOk_cons.mpr ⟨grown, ?_, ok'⟩, fun q there => ?_, by simpa using length, ?_⟩
  · rw [ends]
    exact gap
  · rcases List.mem_cons.mp there with rfl | there
    · exact le_rfl
    · exact (proper.trans (gap q there)).le
  · rw [spans_cons, cover_cons, ends]
    exact same

/-- `insert_region` adds the interval to what the list covers. -/
theorem insertRegion_spec (new : RegionOk ⟨addr, size⟩) (ok : RegionsOk l)
    (inserted : insertRegion room addr size l = some l') :
    RegionsOk l' ∧ (∀ b, b < addr → (∀ q ∈ l, b < q.addr) → ∀ q ∈ l', b < q.addr) ∧
      l'.length ≤ l.length + (if room then 1 else 0) ∧
      cover (spans l') = Set.Ico addr (addr + size) ∪ cover (spans l) := by
  have ends : add64 addr size = addr + size := new.stop_eq
  have proper : addr < addr + size := by
    have positive := new.positive
    exact Nat.lt_add_of_pos_right positive
  have single : ∀ {m : List Region}, RegionsOk m → (∀ q ∈ m, addr + size < q.addr) →
      RegionsOk (⟨addr, size⟩ :: m) ∧
        cover (spans (⟨addr, size⟩ :: m)) = Set.Ico addr (addr + size) ∪ cover (spans m) := by
    intro m ok gap
    have stop : (⟨addr, size⟩ : Region).stop = addr + size := new.stop_eq
    refine ⟨regionsOk_cons.mpr ⟨new, by rwa [stop], ok⟩, ?_⟩
    rw [spans_cons, cover_cons, stop]
  induction l generalizing l' with
  | nil =>
      unfold insertRegion at inserted
      split at inserted
      · rename_i free
        cases inserted
        obtain ⟨ok', same⟩ := single ok (by simp)
        exact ⟨ok', fun b below _ q there => by simp at there; subst there; exact below,
          by simp [free], same⟩
      · cases inserted
  | cons r rest ih =>
      obtain ⟨here, gap, later⟩ := regionsOk_cons.mp ok
      unfold insertRegion at inserted
      rw [ends] at inserted
      split at inserted
      · rename_i touches
        cases inserted
        have low : (if addr < r.addr then addr else r.addr) = min addr r.addr := by
          split <;> omega
        have high : (if addr + size < r.stop then r.stop else addr + size) =
            max (addr + size) r.stop := by
          split <;> omega
        simp only [low, high]
        have span := here.lt
        obtain ⟨grown, stop⟩ := regionOk_of_ends
          (show min addr r.addr < max (addr + size) r.stop by omega) (max_lt new.bound here.stop_lt)
          (min_rec' (PGSIZE ∣ ·) new.start here.start)
          (max_rec' (PGSIZE ∣ ·) (Nat.dvd_add new.start new.pages) here.stop_dvd)
        obtain ⟨ok', above, length, same⟩ := mergeUpper_spec grown later fun q there => by
          have apart := gap q there
          show min addr r.addr < q.addr
          omega
        refine ⟨ok', fun b below all q there => ?_, ?_, ?_⟩
        · have first := all r (by simp)
          have lower : min addr r.addr ≤ q.addr := above q there
          omega
        · simp only [List.length_cons] at length ⊢
          omega
        · rw [same, stop, spans_cons, cover_cons, ← Set.union_assoc,
            Set.Ico_union_Ico' touches.2 touches.1]
      · rename_i apart
        split at inserted
        · rename_i less
          split at inserted
          · rename_i free
            cases inserted
            obtain ⟨ok', same⟩ := single ok fun q there => by
              rcases List.mem_cons.mp there with rfl | there
              · have span := here.lt
                omega
              · have span := here.lt
                have later := gap q there
                omega
            refine ⟨ok', fun b below all q there => ?_, by simp [free], same⟩
            rcases List.mem_cons.mp there with rfl | there
            · exact below
            · exact all q there
          · cases inserted
        · rename_i more
          obtain ⟨tail, found, rfl⟩ := Option.map_eq_some_iff.mp inserted
          obtain ⟨ok', above, length, same⟩ := ih later found
          refine ⟨regionsOk_cons.mpr ⟨here, above r.stop (by omega) gap, ok'⟩,
            fun b below all q there => ?_, by simp; omega, ?_⟩
          · rcases List.mem_cons.mp there with rfl | there
            · exact all _ (by simp)
            · exact above b below (fun p inside => all p (by simp [inside])) q there
          · rw [spans_cons, cover_cons, same, spans_cons, cover_cons, Set.union_left_comm]

end Physmem

end Av6
