import Av6.PhysmemRegions

/-!
# The segments that are left

`physmem_avail` subtracts the exclusions from the banks, and the result does not depend on
the order of the reports.
-/

namespace Av6

namespace Physmem

open Intervals

variable {r x : Region} {l rest hw ex : List Region} {start stop lo y : Nat} {m m' : MemoryMap}

theorem cover_addSeg : cover (addSeg start stop) = Set.Ico start stop := by
  unfold addSeg
  split
  · rename_i none_
    rw [cover_nil, Set.Ico_eq_empty (by omega)]
  · simp

theorem mem_addSeg {i : Nat × Nat} :
    i ∈ addSeg start stop ↔ start < stop ∧ i = (start, stop) := by
  unfold addSeg
  split <;> simp <;> omega

theorem separated_addSeg : Separated (addSeg start stop) := by
  unfold addSeg
  split
  · exact .nil
  · exact .cons (by simpa using ‹¬ stop ≤ start›) (by simp) .nil

/-- What the exclusions can leave of an interval. -/
structure ClipOk (start stop : Nat) (ex : List Region) (segs : List (Nat × Nat)) : Prop where
  separated : Separated segs
  inside : ∀ i ∈ segs, start ≤ i.1 ∧ i.2 ≤ stop
  pages : ∀ i ∈ segs, PGSIZE ∣ i.1 ∧ PGSIZE ∣ i.2
  covered : ∀ y, y ∈ cover segs ↔ start ≤ y ∧ y < stop ∧ y ∉ cover (spans ex)
  length : ∀ lo ≤ start,
    segs.length ≤ ex.countP (fun x => lo < x.addr ∧ x.stop < stop) + 1

theorem RegionsOk.lt_of_mem_cover (gap : ∀ q ∈ rest, stop < q.addr)
    (there : y ∈ cover (spans rest)) : stop < y := by
  obtain ⟨i, member, low, -⟩ := there
  exact (forall_spans (P := fun i => stop < i.1).mpr gap i member).trans_le low

theorem clipOk_addSeg (first : PGSIZE ∣ start) (last : PGSIZE ∣ stop) {stop' : Nat}
    (less : stop ≤ stop') (covered : ∀ y, start ≤ y ∧ y < stop ↔
      start ≤ y ∧ y < stop' ∧ y ∉ cover (spans ex)) :
    ClipOk start stop' ex (addSeg start stop) := by
  refine ⟨separated_addSeg, fun i there => ?_, fun i there => ?_, fun y => ?_, fun lo below => ?_⟩
  · obtain ⟨-, rfl⟩ := mem_addSeg.mp there
    exact ⟨le_rfl, less⟩
  · obtain ⟨-, rfl⟩ := mem_addSeg.mp there
    exact ⟨first, last⟩
  · rw [cover_addSeg]
    exact covered y
  · unfold addSeg
    split <;> simp

theorem clip_ok (ok : RegionsOk ex) (first : PGSIZE ∣ start) (last : PGSIZE ∣ stop) :
    ClipOk start stop ex (clip start stop ex) := by
  induction ex generalizing start with
  | nil => exact clipOk_addSeg first last le_rfl (by simp [spans])
  | cons x rest ih =>
      obtain ⟨here, gap, later⟩ := regionsOk_cons.mp ok
      have span := here.lt
      have beyond : ∀ y, y ∈ cover (spans rest) → x.stop < y := fun y =>
        RegionsOk.lt_of_mem_cover gap
      have member : ∀ y, y ∈ cover (spans (x :: rest)) ↔
          (x.addr ≤ y ∧ y < x.stop) ∨ y ∈ cover (spans rest) := by
        intro y
        rw [spans_cons, cover_cons]
        rfl
      unfold clip
      split
      · rename_i below
        have tail := ih later first
        refine ⟨tail.separated, tail.inside, tail.pages, fun y => ?_, fun lo low => ?_⟩
        · rw [tail.covered, member]
          constructor
          · rintro ⟨low, high, out⟩
            exact ⟨low, high, fun either => either.elim (fun both => by omega) out⟩
          · rintro ⟨low, high, out⟩
            exact ⟨low, high, fun there => out (Or.inr there)⟩
        · have fewer := tail.length lo low
          rw [List.countP_cons]
          omega
      · rename_i above
        split
        · rename_i far
          refine clipOk_addSeg first last le_rfl fun y => ?_
          rw [member]
          constructor
          · rintro ⟨low, high⟩
            refine ⟨low, high, fun either => either.elim (fun both => by omega) fun there => ?_⟩
            have away := beyond y there
            omega
          · rintro ⟨low, high, -⟩
            exact ⟨low, high⟩
        · rename_i near
          split
          · rename_i front
            split
            · rename_i whole
              have none_ : addSeg x.stop stop = [] := if_pos whole
              rw [none_]
              refine ⟨.nil, by simp, by simp, fun y => ?_, fun _ _ => by simp⟩
              rw [member, cover_nil]
              constructor
              · rintro ⟨⟩
              · rintro ⟨low, high, out⟩
                exact (out (Or.inl ⟨by omega, by omega⟩)).elim
            · rename_i part
              have tail := ih later here.stop_dvd
              refine ⟨tail.separated, fun i there => ?_, tail.pages, fun y => ?_, fun lo low => ?_⟩
              · have bounds := tail.inside i there
                omega
              · rw [tail.covered, member]
                constructor
                · rintro ⟨low, high, out⟩
                  exact ⟨by omega, high, fun either => either.elim (fun both => by omega) out⟩
                · rintro ⟨low, high, out⟩
                  refine ⟨?_, high, fun there => out (Or.inr there)⟩
                  by_contra less
                  exact out (Or.inl ⟨by omega, by omega⟩)
              · have fewer := tail.length lo (by omega)
                rw [List.countP_cons]
                omega
          · rename_i behind
            split
            · rename_i tailClipped
              refine clipOk_addSeg first here.start (by omega) fun y => ?_
              rw [member]
              constructor
              · rintro ⟨low, high⟩
                refine ⟨low, by omega, fun either => either.elim (fun both => by omega) fun there => ?_⟩
                have away := beyond y there
                omega
              · rintro ⟨low, high, out⟩
                refine ⟨low, ?_⟩
                by_contra more
                exact out (Or.inl ⟨by omega, by omega⟩)
            · rename_i interior
              have tail := ih later here.stop_dvd
              refine ⟨separated_addSeg.append tail.separated fun i there j next => ?_,
                fun i there => ?_, fun i there => ?_, fun y => ?_, fun lo low => ?_⟩
              · obtain ⟨-, rfl⟩ := mem_addSeg.mp there
                have bounds := tail.inside j next
                show x.addr < j.1
                omega
              · rcases List.mem_append.mp there with there | there
                · obtain ⟨-, rfl⟩ := mem_addSeg.mp there
                  exact ⟨le_rfl, by simp; omega⟩
                · have bounds := tail.inside i there
                  omega
              · rcases List.mem_append.mp there with there | there
                · obtain ⟨-, rfl⟩ := mem_addSeg.mp there
                  exact ⟨first, here.start⟩
                · exact tail.pages i there
              · rw [cover_append, cover_addSeg, Set.mem_union, Set.mem_Ico, tail.covered, member]
                constructor
                · rintro (⟨low, high⟩ | ⟨low, high, out⟩)
                  · refine ⟨low, by omega, fun either => either.elim (fun both => by omega)
                      fun there => ?_⟩
                    have away := beyond y there
                    omega
                  · exact ⟨by omega, high, fun either => either.elim (fun both => by omega) out⟩
                · rintro ⟨low, high, out⟩
                  by_cases less : y < x.addr
                  · exact Or.inl ⟨low, less⟩
                  · refine Or.inr ⟨?_, high, fun there => out (Or.inr there)⟩
                    by_contra inside
                    exact out (Or.inl ⟨by omega, by omega⟩)
              · have fewer := tail.length lo (by omega)
                have one : (addSeg start x.addr).length ≤ 1 := by
                  unfold addSeg
                  split <;> simp
                have counted : decide (lo < x.addr ∧ x.stop < stop) = true := by
                  simp
                  omega
                rw [List.length_append, List.countP_cons, if_pos counted]
                omega

/-- An exclusion inside the first bank is not behind it. -/
theorem countP_split (ok : RegionsOk ex) (below : lo ≤ stop) :
    ex.countP (fun x => lo < x.addr ∧ x.stop < stop) + ex.countP (fun x => stop < x.addr) ≤
      ex.countP fun x => lo < x.addr := by
  induction ex with
  | nil => simp
  | cons x rest ih =>
      obtain ⟨here, -, later⟩ := regionsOk_cons.mp ok
      have step := ih later
      have span := here.lt
      simp only [List.countP_cons, decide_eq_true_eq]
      split <;> split <;> split <;> omega

/-- The banks one after the other. -/
theorem banks_ok (hwOk : RegionsOk hw) (exOk : RegionsOk ex) :
    Separated (hw.flatMap fun r => clip r.addr r.stop ex) ∧
      (∀ i ∈ hw.flatMap fun r => clip r.addr r.stop ex,
        PGSIZE ∣ i.1 ∧ PGSIZE ∣ i.2 ∧ ∃ r ∈ hw, r.addr ≤ i.1 ∧ i.2 ≤ r.stop) ∧
      cover (hw.flatMap fun r => clip r.addr r.stop ex) = cover (spans hw) \ cover (spans ex) ∧
      ∀ lo, (∀ r ∈ hw, lo ≤ r.addr) → (hw.flatMap fun r => clip r.addr r.stop ex).length ≤
        hw.length + ex.countP fun x => lo < x.addr := by
  induction hw with
  | nil => simp [spans, Separated.nil]
  | cons r rest ih =>
      obtain ⟨here, gap, later⟩ := regionsOk_cons.mp hwOk
      have head := clip_ok exOk here.start here.stop_dvd
      obtain ⟨separated, each, covered, length⟩ := ih later
      rw [List.flatMap_cons]
      refine ⟨head.separated.append separated fun i there j next => ?_, fun i there => ?_, ?_,
        fun lo below => ?_⟩
      · obtain ⟨-, -, q, member, low, -⟩ := each j next
        have apart := gap q member
        have high := (head.inside i there).2
        omega
      · rcases List.mem_append.mp there with there | there
        · obtain ⟨first, last⟩ := head.pages i there
          exact ⟨first, last, r, by simp, head.inside i there⟩
        · obtain ⟨first, last, q, member, bounds⟩ := each i there
          exact ⟨first, last, q, by simp [member], bounds⟩
      · ext y
        rw [cover_append, covered, Set.mem_union, head.covered, spans_cons, cover_cons]
        simp only [Set.mem_sdiff, Set.mem_union, Set.mem_Ico]
        tauto
      · have first := head.length lo (below r (by simp))
        have others := length r.stop fun q there => (gap q there).le
        have split := countP_split exOk ((below r (by simp)).trans here.lt.le)
        rw [List.length_append, List.length_cons]
        omega

/-- The two lists. -/
structure MapOk (m : MemoryMap) : Prop where
  hw : RegionsOk m.hwregions
  ex : RegionsOk m.exregions
  hwcnt : m.hwregions.length ≤ MAX_HWCNT
  excnt : m.exregions.length ≤ MAX_EXCNT

/-- What `physmem_avail` publishes. -/
structure SegsOk (segs : List (Nat × Nat)) : Prop where
  separated : Separated segs
  pages : ∀ i ∈ segs, PGSIZE ∣ i.1 ∧ PGSIZE ∣ i.2
  bound : ∀ i ∈ segs, i.2 < 2 ^ 64

/-- There are at most as many segments as entries of the lists: an exclusion splits one bank. -/
theorem MapOk.avail_length (ok : MapOk m) : ∃ segs, m.avail = some segs ∧
    segs.length ≤ m.hwregions.length + m.exregions.length := by
  obtain ⟨-, -, -, length⟩ := banks_ok ok.hw ok.ex
  have total := length 0 fun _ _ => Nat.zero_le _
  have excluded := List.countP_le_length (p := fun x : Region => 0 < x.addr) (l := m.exregions)
  refine ⟨_, if_pos ?_, total.trans (Nat.add_le_add_left excluded _)⟩
  have banks := ok.hwcnt
  have exclusions := ok.excnt
  unfold MAX_HWCNT at banks
  unfold MAX_EXCNT at exclusions
  unfold VM_PHYSSEG_MAX
  omega

/-- `physmem_avail` never runs out of segments. -/
theorem MapOk.avail (ok : MapOk m) : ∃ segs, m.avail = some segs ∧ SegsOk segs ∧
    cover segs = cover (spans m.hwregions) \ cover (spans m.exregions) := by
  obtain ⟨separated, each, covered, -⟩ := banks_ok ok.hw ok.ex
  obtain ⟨segs, published, -⟩ := ok.avail_length
  have list : segs = m.hwregions.flatMap fun r => clip r.addr r.stop m.exregions :=
    (Option.some.inj (Option.ite_none_right_eq_some.mp published).2).symm
  rw [← list] at separated each covered
  refine ⟨segs, published, ⟨separated, fun i there => ?_, fun i there => ?_⟩, covered⟩
  · obtain ⟨first, last, -⟩ := each i there
    exact ⟨first, last⟩
  · obtain ⟨-, -, r, member, -, high⟩ := each i there
    exact high.trans_lt (ok.hw.region r member).stop_lt

theorem dvd_pgRoundDown (a : Nat) : PGSIZE ∣ pgRoundDown a :=
  Nat.dvd_mul_left ..

theorem dvd_pgRoundUp (a : Nat) : PGSIZE ∣ pgRoundUp a :=
  Nat.dvd_mul_left ..

theorem pgRoundDown_lt (small : stop < 2 ^ 64) : pgRoundDown stop < 2 ^ 64 :=
  (Nat.div_mul_le_self ..).trans_lt small

theorem add64_lt (a b : Nat) : add64 a b < 2 ^ 64 :=
  Nat.mod_lt _ (by decide)

theorem pgRoundUp_lt (a : Nat) : pgRoundUp a < 2 ^ 64 :=
  (Nat.div_mul_le_self ..).trans_lt (add64_lt ..)

/-- One report: the interval joins its list. -/
theorem insertRegion_ends {cnt : Nat} (ok : RegionsOk l) (proper : start < stop)
    (bound : stop < 2 ^ 64) (first : PGSIZE ∣ start) (last : PGSIZE ∣ stop) (length : l.length ≤ cnt)
    {l' : List Region}
    (inserted : insertRegion (l.length < cnt) start (sub64 stop start) l = some l') :
    RegionsOk l' ∧ l'.length ≤ cnt ∧
      cover (spans l') = Set.Ico start stop ∪ cover (spans l) := by
  obtain ⟨new, ends⟩ := regionOk_of_ends proper bound first last
  obtain ⟨ok', -, longer, same⟩ := insertRegion_spec new ok inserted
  rw [new.stop_eq] at ends
  refine ⟨ok', ?_, ?_⟩
  · split at longer
    · rename_i room
      have room : l.length < cnt := by simpa using room
      omega
    · omega
  · rw [same]
    exact congrArg (fun e => Set.Ico start e ∪ cover (spans l)) ends

theorem MapOk.hardwareRegion (ok : MapOk m) {pa size : Nat}
    (runs : m.hardwareRegion pa size = some m') : MapOk m' ∧ m'.exregions = m.exregions ∧
      cover (spans m'.hwregions) =
        Set.Ico (pgRoundUp pa) (pgRoundDown (add64 pa size)) ∪ cover (spans m.hwregions) := by
  unfold MemoryMap.hardwareRegion at runs
  simp only at runs
  split at runs
  · rename_i none_
    cases runs
    rw [Set.Ico_eq_empty (by omega), Set.empty_union]
    exact ⟨ok, rfl, rfl⟩
  · rename_i some_
    obtain ⟨l', inserted, rfl⟩ := Option.map_eq_some_iff.mp runs
    obtain ⟨ok', length, same⟩ := insertRegion_ends ok.hw (by omega)
      (pgRoundDown_lt (add64_lt ..)) (dvd_pgRoundUp _) (dvd_pgRoundDown _) ok.hwcnt inserted
    exact ⟨⟨ok', ok.ex, length, ok.excnt⟩, rfl, same⟩

theorem MapOk.excludeRegion (ok : MapOk m) {pa size : Nat}
    (runs : m.excludeRegion pa size = some m') : MapOk m' ∧ m'.hwregions = m.hwregions ∧
      cover (spans m'.exregions) =
        Set.Ico (pgRoundDown pa) (pgRoundUp (add64 pa size)) ∪ cover (spans m.exregions) := by
  unfold MemoryMap.excludeRegion at runs
  simp only at runs
  split at runs
  · rename_i none_
    cases runs
    rw [Set.Ico_eq_empty (by omega), Set.empty_union]
    exact ⟨ok, rfl, rfl⟩
  · rename_i some_
    obtain ⟨l', inserted, rfl⟩ := Option.map_eq_some_iff.mp runs
    obtain ⟨ok', length, same⟩ := insertRegion_ends ok.ex (by omega) (pgRoundUp_lt _)
      (dvd_pgRoundDown _) (dvd_pgRoundUp _) ok.excnt inserted
    exact ⟨⟨ok.hw, ok', ok.hwcnt, length⟩, rfl, same⟩

/-- The RAM that a report adds: the whole pages of the bank. -/
def Report.ram : Report → Set Nat
  | .hardware pa size =>
      Set.Ico ((pa + (PGSIZE - 1)) / PGSIZE * PGSIZE) ((pa + size) / PGSIZE * PGSIZE)
  | .exclude _ _ => ∅

/-- The range that a report withholds: all pages it touches. -/
def Report.withheld : Report → Set Nat
  | .hardware _ _ => ∅
  | .exclude pa size =>
      Set.Ico (pa / PGSIZE * PGSIZE) ((pa + size + (PGSIZE - 1)) / PGSIZE * PGSIZE)

/-- The range ends a page before the address space does. -/
def Report.Bounded : Report → Prop
  | .hardware pa size | .exclude pa size => pa + size + PGSIZE ≤ 2 ^ 64

theorem MapOk.report (ok : MapOk m) {r : Report} (bounded : r.Bounded)
    (runs : m.report r = some m') : MapOk m' ∧
      cover (spans m'.hwregions) = r.ram ∪ cover (spans m.hwregions) ∧
      cover (spans m'.exregions) = r.withheld ∪ cover (spans m.exregions) := by
  have page : PGSIZE = 4096 := rfl
  cases r with
  | hardware pa size =>
      unfold Report.Bounded at bounded
      obtain ⟨ok', ex, hw⟩ := ok.hardwareRegion runs
      have sum : add64 pa size = pa + size := Nat.mod_eq_of_lt (by omega)
      have up : add64 pa (PGSIZE - 1) = pa + (PGSIZE - 1) := Nat.mod_eq_of_lt (by omega)
      rw [sum, pgRoundUp, up] at hw
      exact ⟨ok', hw, by rw [ex, Report.withheld, Set.empty_union]⟩
  | exclude pa size =>
      unfold Report.Bounded at bounded
      obtain ⟨ok', hw, ex⟩ := ok.excludeRegion runs
      have sum : add64 pa size = pa + size := Nat.mod_eq_of_lt (by omega)
      have up : add64 (pa + size) (PGSIZE - 1) = pa + size + (PGSIZE - 1) :=
        Nat.mod_eq_of_lt (by omega)
      rw [sum, pgRoundUp, up] at ex
      exact ⟨ok', by rw [hw, Report.ram, Set.empty_union], ex⟩

theorem MapOk.reportAll (ok : MapOk m) {reports : List Report}
    (bounded : ∀ r ∈ reports, r.Bounded) (runs : m.reportAll reports = some m') : MapOk m' ∧
      cover (spans m'.hwregions) = (⋃ r ∈ reports, r.ram) ∪ cover (spans m.hwregions) ∧
      cover (spans m'.exregions) = (⋃ r ∈ reports, r.withheld) ∪ cover (spans m.exregions) := by
  induction reports generalizing m with
  | nil =>
      cases runs
      simpa using ok
  | cons r rest ih =>
      obtain ⟨next, first, runs⟩ := Option.bind_eq_some_iff.mp runs
      obtain ⟨ok', hw, ex⟩ := ok.report (bounded r (by simp)) first
      obtain ⟨ok'', hw', ex'⟩ := ih ok' (fun q there => bounded q (by simp [there])) runs
      refine ⟨ok'', ?_, ?_⟩
      · rw [hw', hw]
        simp only [List.mem_cons, Set.iUnion_iUnion_eq_or_left]
        rw [← Set.union_assoc, Set.union_comm _ r.ram]
      · rw [ex', ex]
        simp only [List.mem_cons, Set.iUnion_iUnion_eq_or_left]
        rw [← Set.union_assoc, Set.union_comm _ r.withheld]

theorem empty_ok : MapOk empty :=
  ⟨regionsOk_nil, regionsOk_nil, Nat.zero_le _, Nat.zero_le _⟩

/-- The published segments are exactly the reported RAM without what is withheld,
whatever the order of the reports. -/
theorem physmem_avail_exact {reports : List Report} (bounded : ∀ r ∈ reports, r.Bounded)
    (runs : empty.reportAll reports = some m) : ∃ segs, m.avail = some segs ∧ SegsOk segs ∧
      cover segs = (⋃ r ∈ reports, r.ram) \ (⋃ r ∈ reports, r.withheld) ∧
      ∀ reports' m', reports'.Perm reports → empty.reportAll reports' = some m' →
        m'.avail = some segs := by
  have general : ∀ {reports : List Report} {m : MemoryMap}, (∀ r ∈ reports, r.Bounded) →
      empty.reportAll reports = some m → ∃ segs, m.avail = some segs ∧ SegsOk segs ∧
        cover segs = (⋃ r ∈ reports, r.ram) \ (⋃ r ∈ reports, r.withheld) := by
    intro reports m bounded runs
    obtain ⟨ok, hw, ex⟩ := empty_ok.reportAll bounded runs
    obtain ⟨segs, published, segsOk, covered⟩ := ok.avail
    refine ⟨segs, published, segsOk, ?_⟩
    have nothing : cover (spans ([] : List Region)) = ∅ := cover_nil
    rw [covered, hw, ex, show empty.hwregions = [] from rfl, show empty.exregions = [] from rfl,
      nothing, Set.union_empty, Set.union_empty]
  obtain ⟨segs, published, segsOk, covered⟩ := general bounded runs
  refine ⟨segs, published, segsOk, covered, fun reports' m' same runs' => ?_⟩
  obtain ⟨segs', published', segsOk', covered'⟩ :=
    general (fun r there => bounded r (same.mem_iff.mp there)) runs'
  have equal : segs' = segs := by
    refine segsOk'.separated.ext segsOk.separated ?_
    rw [covered, covered']
    simp only [same.mem_iff]
  rw [published', equal]

/-- Two banks that touch, and a range in the middle. -/
theorem physmem_avail_exact_split : ∃ m : MemoryMap,
    empty.reportAll [.hardware 0x40000000 0x2000, .exclude 0x40001800 0x10,
      .hardware 0x40002000 0x1fff] = some m ∧
      m.avail = some [(0x40000000, 0x40001000), (0x40002000, 0x40003000)] ∧
      SegsOk [(0x40000000, 0x40001000), (0x40002000, 0x40003000)] := by
  have runs : empty.reportAll [.hardware 0x40000000 0x2000, .exclude 0x40001800 0x10,
      .hardware 0x40002000 0x1fff] = some ⟨[⟨0x40000000, 0x3000⟩], [⟨0x40001000, 0x1000⟩]⟩ := by
    decide
  have segments : (⟨[⟨0x40000000, 0x3000⟩], [⟨0x40001000, 0x1000⟩]⟩ : MemoryMap).avail =
      some [(0x40000000, 0x40001000), (0x40002000, 0x40003000)] := by
    decide
  obtain ⟨segs, published, ok, -⟩ := physmem_avail_exact (by simp [Report.Bounded, PGSIZE]) runs
  rw [segments] at published
  cases published
  exact ⟨_, runs, segments, ok⟩

end Physmem

end Av6
