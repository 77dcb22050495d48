import Av6.PhysmemAvail

/-!
# Banks that reach the end of the address space

`physmem_hardware_region` rounds both ends of a bank and adds them modulo 2^64, and only then
compares them.  A bank that ends with the address space has its end at 0, so it is dropped; a
bank that begins in the last page has its start rounded up to 0, so it becomes all pages below
its end.
-/

namespace Av6

namespace Physmem

open Intervals

variable {m m' : MemoryMap} {pa size start stop a : Nat}

/-- The page at `a` lies in the bank, as unbounded arithmetic has it. -/
def InBank (pa size a : Nat) : Prop :=
  PGSIZE ∣ a ∧ pa ≤ a ∧ a + PGSIZE ≤ min (pa + size) (2 ^ 64)

/-- The page at `a` is RAM. -/
def MemoryMap.Covers (m : MemoryMap) (a : Nat) : Prop :=
  Set.Ico a (a + PGSIZE) ⊆ cover (spans m.hwregions)

/-- What recording a bank is for: its pages are RAM, and no other page becomes so. -/
structure Recorded (m m' : MemoryMap) (pa size : Nat) : Prop where
  kept : ∀ a, InBank pa size a → m'.Covers a
  noOther : ∀ a, PGSIZE ∣ a → ¬InBank pa size a → m'.Covers a → m.Covers a

/-- The bank ends before the address space does.  A bank of no whole page at the very end is
also recorded well when the pages below its wrapped end are RAM already, or when the list is
full and the call panics. -/
def BankFits (m : MemoryMap) (pa size : Nat) : Prop :=
  (pa + PGSIZE ≤ 2 ^ 64 ∧ pa + size < 2 ^ 64) ∨
    (2 ^ 64 < pa + PGSIZE ∧
      ((∀ a, PGSIZE ∣ a → a + PGSIZE ≤ (pa + size) % 2 ^ 64 → m.Covers a) ∨
        (m.hwregions.length = MAX_HWCNT ∧
          ∀ r ∈ m.hwregions, (pa + size) % 2 ^ 64 < r.addr)))

/-- The lists stay well formed, also under a report that wraps around. -/
theorem MapOk.keeps {reports : List Report} (ok : MapOk m)
    (runs : m.reportAll reports = some m') : MapOk m' := by
  induction reports generalizing m with
  | nil =>
      cases runs
      exact ok
  | cons r rest ih =>
      obtain ⟨next, first, later⟩ := Option.bind_eq_some_iff.mp runs
      cases r with
      | hardware pa size => exact ih (ok.hardwareRegion first).1 later
      | exclude pa size => exact ih (ok.excludeRegion first).1 later

/-- No recorded bank has the last byte of the address space. -/
theorem MapOk.lt_of_mem (ok : MapOk m) (inside : a ∈ cover (spans m.hwregions)) :
    a + 1 < 2 ^ 64 := by
  obtain ⟨i, member, -, high⟩ := inside
  obtain ⟨r, there, rfl⟩ := List.mem_map.mp member
  have bound := (ok.hw.region r there).stop_lt
  exact (Nat.succ_le_of_lt high).trans_lt bound

/-- An aligned page that meets an interval of pages lies in it. -/
theorem page_inside {b : Nat} (page : PGSIZE ∣ a) (first : PGSIZE ∣ start) (last : PGSIZE ∣ stop)
    (inPage : b ∈ Set.Ico a (a + PGSIZE)) (inside : b ∈ Set.Ico start stop) :
    start ≤ a ∧ a + PGSIZE ≤ stop := by
  obtain ⟨low, high⟩ := inPage
  obtain ⟨low', high'⟩ := inside
  unfold PGSIZE at *
  omega

/-- Once the ends are known, the call records the pages between them. -/
theorem recorded_of_ends (first : PGSIZE ∣ start) (last : PGSIZE ∣ stop)
    (same : cover (spans m'.hwregions) = Set.Ico start stop ∪ cover (spans m.hwregions))
    (ends : ∀ a, PGSIZE ∣ a → (start ≤ a ∧ a + PGSIZE ≤ stop ↔ InBank pa size a)) :
    Recorded m m' pa size := by
  constructor
  · intro a bank b inPage
    obtain ⟨low, high⟩ := (ends a bank.1).mpr bank
    rw [same]
    exact .inl ⟨low.trans inPage.1, inPage.2.trans_le high⟩
  · intro a page outside covered b inPage
    have inside := covered inPage
    rw [same] at inside
    rcases inside with new | old
    · exact absurd ((ends a page).mp (page_inside page first last inPage new)) outside
    · exact old

/-- From the first page on, the list is grown unless it is full and begins later. -/
theorem insertRegion_zero {room : Bool} {l : List Region} (ok : RegionsOk l)
    (small : stop < 2 ^ 64) :
    insertRegion room 0 stop l = none ↔ room = false ∧ ∀ r ∈ l, stop < r.addr := by
  have sum : add64 0 stop = stop := by
    unfold add64
    omega
  cases l with
  | nil => cases room <;> simp [insertRegion]
  | cons r rest =>
      obtain ⟨-, gap, -⟩ := regionsOk_cons.mp ok
      have span := (ok.region r (by simp)).lt
      unfold insertRegion
      rw [sum]
      rcases Nat.lt_or_ge stop r.addr with before | reaches
      · have below : 0 < r.addr := Nat.zero_lt_of_lt before
        rw [if_neg (by omega), if_pos below]
        have all : ∀ q ∈ r :: rest, stop < q.addr := by
          intro q member
          rcases List.mem_cons.mp member with rfl | later
          · exact before
          · exact before.trans (span.trans (gap q later))
        cases room
        · simpa using all
        · simp
      · rw [if_pos ⟨Nat.zero_le _, reaches⟩]
        have least : r ∈ r :: rest := List.mem_cons_self
        constructor
        · intro never
          cases never
        · rintro ⟨-, all⟩
          exact absurd (all r least) (Nat.not_lt.mpr reaches)

theorem pgRoundUp_eq (low : pa + PGSIZE ≤ 2 ^ 64) :
    pgRoundUp pa = (pa + (PGSIZE - 1)) / PGSIZE * PGSIZE := by
  unfold pgRoundUp add64
  rw [Nat.mod_eq_of_lt]
  unfold PGSIZE at *
  omega

/-- In the last page the start is rounded up to the first address. -/
theorem pgRoundUp_wraps (high : 2 ^ 64 < pa + PGSIZE) (width : pa < 2 ^ 64) : pgRoundUp pa = 0 := by
  unfold pgRoundUp add64
  unfold PGSIZE at *
  omega

/-- A bank that ends before the address space does is recorded. -/
theorem MapOk.records (ok : MapOk m) (low : pa + PGSIZE ≤ 2 ^ 64) (ends : pa + size < 2 ^ 64)
    (runs : m.hardwareRegion pa size = some m') : Recorded m m' pa size := by
  obtain ⟨-, -, same⟩ := ok.hardwareRegion runs
  apply recorded_of_ends (dvd_pgRoundUp pa) (dvd_pgRoundDown (add64 pa size)) same
  intro a page
  have sum : add64 pa size = pa + size := Nat.mod_eq_of_lt ends
  rw [pgRoundUp_eq low, sum]
  unfold pgRoundDown InBank
  unfold PGSIZE at *
  omega

/-- A bank that has the last page is dropped. -/
theorem MapOk.drops (ok : MapOk m) (low : pa + PGSIZE ≤ 2 ^ 64) (width : size < 2 ^ 64)
    (wraps : 2 ^ 64 ≤ pa + size) :
    m.hardwareRegion pa size = some m ∧ ¬Recorded m m pa size := by
  constructor
  · have sum : add64 pa size = pa + size - 2 ^ 64 := by
      unfold add64
      omega
    unfold MemoryMap.hardwareRegion
    dsimp only
    rw [if_pos]
    rw [pgRoundUp_eq low, sum]
    unfold pgRoundDown
    unfold PGSIZE at *
    omega
  · intro recorded
    have last : InBank pa size (2 ^ 64 - PGSIZE) := by
      unfold InBank
      unfold PGSIZE at *
      omega
    have top : 2 ^ 64 - 1 ∈ Set.Ico (2 ^ 64 - PGSIZE) (2 ^ 64 - PGSIZE + PGSIZE) := by
      decide
    have bound := ok.lt_of_mem (recorded.kept _ last top)
    omega

/-- A call that reaches the list panics exactly if the list is full and begins later. -/
theorem MapOk.panics_iff (ok : MapOk m) (start : pgRoundUp pa = 0) :
    m.hardwareRegion pa size = none ↔ 0 < pgRoundDown (add64 pa size) ∧
      m.hwregions.length = MAX_HWCNT ∧ ∀ r ∈ m.hwregions, pgRoundDown (add64 pa size) < r.addr := by
  have small : pgRoundDown (add64 pa size) < 2 ^ 64 := pgRoundDown_lt (add64_lt ..)
  have whole : sub64 (pgRoundDown (add64 pa size)) 0 = pgRoundDown (add64 pa size) := by
    unfold sub64
    omega
  have count := ok.hwcnt
  unfold MemoryMap.hardwareRegion
  dsimp only
  rw [start, whole]
  split
  · rename_i nothing
    constructor
    · intro never
      cases never
    · rintro ⟨proper, -⟩
      omega
  · rename_i proper
    rw [Option.map_eq_none_iff, insertRegion_zero ok.hw small, decide_eq_false_iff_not]
    constructor
    · rintro ⟨full, after⟩
      exact ⟨by omega, by omega, after⟩
    · rintro ⟨-, full, after⟩
      exact ⟨by omega, after⟩

/-- A bank that begins in the last page has no page, and is taken for all pages below its
wrapped end. -/
theorem MapOk.invents_iff (ok : MapOk m) (high : 2 ^ 64 < pa + PGSIZE) (width : pa < 2 ^ 64) :
    (∀ m', m.hardwareRegion pa size = some m' → Recorded m m' pa size) ↔
      (∀ a, PGSIZE ∣ a → a + PGSIZE ≤ (pa + size) % 2 ^ 64 → m.Covers a) ∨
        (m.hwregions.length = MAX_HWCNT ∧ ∀ r ∈ m.hwregions, (pa + size) % 2 ^ 64 < r.addr) := by
  have start : pgRoundUp pa = 0 := pgRoundUp_wraps high width
  have outside : ∀ a, ¬InBank pa size a := by
    rintro a ⟨-, low, bound⟩
    omega
  have below : ∀ a, PGSIZE ∣ a →
      (a + PGSIZE ≤ pgRoundDown (add64 pa size) ↔ a + PGSIZE ≤ (pa + size) % 2 ^ 64) := by
    intro a page
    unfold pgRoundDown add64
    unfold PGSIZE at *
    omega
  have after : ∀ r ∈ m.hwregions,
      (pgRoundDown (add64 pa size) < r.addr ↔ (pa + size) % 2 ^ 64 < r.addr) := by
    intro r member
    have page := (ok.hw.region r member).start
    unfold pgRoundDown add64
    unfold PGSIZE at *
    omega
  constructor
  · intro records
    cases runs : m.hardwareRegion pa size with
    | some m' =>
        left
        intro a page low
        obtain ⟨-, -, same⟩ := ok.hardwareRegion runs
        apply (records m' runs).noOther a page (outside a)
        intro b inPage
        rw [same, start]
        exact .inl ⟨Nat.zero_le b, inPage.2.trans_le ((below a page).mpr low)⟩
    | none =>
        right
        obtain ⟨-, full, later⟩ := (ok.panics_iff start).mp runs
        exact ⟨full, fun r member => (after r member).mp (later r member)⟩
  · intro harmless m' runs
    have known : ∀ a, PGSIZE ∣ a → a + PGSIZE ≤ (pa + size) % 2 ^ 64 → m.Covers a := by
      rcases harmless with known | ⟨full, later⟩
      · exact known
      · intro a page low
        have proper : a + PGSIZE ≤ pgRoundDown (add64 pa size) := (below a page).mpr low
        have panics := (@MapOk.panics_iff m pa size ok start).mpr
          ⟨by unfold PGSIZE at proper; omega, full,
            fun r member => (after r member).mpr (later r member)⟩
        rw [runs] at panics
        cases panics
    obtain ⟨-, -, same⟩ := ok.hardwareRegion runs
    constructor
    · intro a bank
      exact absurd bank (outside a)
    · intro a page _ covered b inPage
      have inside := covered inPage
      rw [same, start] at inside
      rcases inside with new | old
      · have within := page_inside page (Nat.dvd_zero _) (dvd_pgRoundDown _) inPage new
        exact known a page ((below a page).mp within.2) inPage
      · exact old

/-- Recording a bank neither loses nor invents a page exactly if the bank fits. -/
theorem hardwareRegion_records_iff {reports : List Report}
    (reached : empty.reportAll reports = some m) (width : pa < 2 ^ 64) (width' : size < 2 ^ 64) :
    (∀ m', m.hardwareRegion pa size = some m' → Recorded m m' pa size) ↔ BankFits m pa size := by
  have ok := empty_ok.keeps reached
  unfold BankFits
  rcases Nat.lt_or_ge (2 ^ 64) (pa + PGSIZE) with high | low
  · have inner : ¬(pa + PGSIZE ≤ 2 ^ 64 ∧ pa + size < 2 ^ 64) := by omega
    rw [ok.invents_iff high width, or_iff_right inner, and_iff_right high]
  · rw [or_iff_left (by omega), and_iff_right low]
    constructor
    · intro records
      by_contra wraps
      obtain ⟨runs, lost⟩ := ok.drops low width' (Nat.not_lt.mp wraps)
      exact lost (records m runs)
    · intro ends m' runs
      exact ok.records low ends runs

/-- Two banks below the end, and a third one in the last page that wraps into the second. -/
theorem hardwareRegion_records_iff_wrapped : ∃ m : MemoryMap,
    empty.reportAll [.hardware 0 0x2000, .hardware 0x40000000 0x2000] = some m ∧
      ((∀ m', m.hardwareRegion (2 ^ 64 - 8) 0x2008 = some m' →
          Recorded m m' (2 ^ 64 - 8) 0x2008) ↔
        BankFits m (2 ^ 64 - 8) 0x2008) := by
  have runs : empty.reportAll [.hardware 0 0x2000, .hardware 0x40000000 0x2000] =
      some ⟨[⟨0, 0x2000⟩, ⟨0x40000000, 0x2000⟩], []⟩ := by
    decide
  exact ⟨_, runs, hardwareRegion_records_iff runs (by decide) (by decide)⟩

/-- The last gigabyte of the address space is dropped. -/
theorem last_bank_dropped :
    ¬∀ (reports : List Report) (m m' : MemoryMap) (pa size : Nat),
      empty.reportAll reports = some m → pa < 2 ^ 64 → size < 2 ^ 64 →
        m.hardwareRegion pa size = some m' → Recorded m m' pa size := by
  intro records
  obtain ⟨runs, lost⟩ := @MapOk.drops empty (2 ^ 64 - 2 ^ 30) (2 ^ 30) empty_ok (by decide)
    (by decide) (by decide)
  exact lost (records [] empty empty _ _ rfl (by decide) (by decide) runs)

end Physmem

end Av6
