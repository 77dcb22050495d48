import Av6.ElfBounds
import Av6.TableTrees

/-!
# Mapping is exact

A page table is a finite map from page numbers to descriptors.  `mappages` puts the pages of a
range into it one after the other, up to the first one whose tables cannot be made, and changes
nothing else.
-/

namespace Av6

namespace Pmap

open FallibleState Kmem Exec Elf

/-- `walk` without `alloc`, and the descriptor that it leads to; 0 if a table is missing. -/
def lookup (root va : Nat) : Vm Nat := do
  match ← walk root va false with
  | none => return 0
  | some (table, i) => readPte table i

/-- The page is a table at this level: the entries above lead to it from the root. -/
inductive Reaches (memory : Memory) (root : Nat) : Nat → Nat → Prop
  | root : Reaches memory root 0 root
  | entry {level page i : Nat} : Reaches memory root level page → level < 3 → i < TABLE_ENTRIES →
      isValid (wordAt memory page i) →
        Reaches memory root (level + 1) (ptePage (wordAt memory page i))

/-- The first pages of a range have been mapped, and every other lookup has its old result. -/
structure PrefixMapped (root va pa perm pages : Nat) (s t : VmState) : Prop where
  inside : ∀ a, va ≤ a → a < va + pages * PGSIZE →
    lookup root a t = .ok ((pa + (pgRoundDown a - va) ||| perm) % 2 ^ 64, t)
  outside : ∀ a < MAXUVA, ¬ (va ≤ a ∧ a < va + pages * PGSIZE) →
    ∀ w, lookup root a s = .ok (w, s) → lookup root a t = .ok (w, t)

/-- The same of the descriptors in memory. -/
def PagesMapped (root va pa perm pages : Nat) (memory memory' : Memory) : Prop :=
  ∀ a < MAXUVA, descriptor memory' root a =
    if va ≤ a ∧ a < va + pages * PGSIZE then (pa + (pgRoundDown a - va) ||| perm) % 2 ^ 64
    else descriptor memory root a

variable {s t : VmState} {live : CacheRef → Multiset Nat} {place place' : Place}
  {memory memory' memory'' : Memory} {root va pa sz perm pages rounds level p a : Nat}

theorem lookup_eq (small : va < MAXUVA) (s : VmState) :
    lookup root va s = .ok (descriptor s.memory root va, s) := by
  have walked : Yields (walk root va false) s fun r t =>
      r = (lastTable s.memory va 3 0 root).map (fun page => (page, tableIndex va 3)) ∧ t = s := by
    apply Yields.check_bind small
    exact ⟨_, s, bind_eq_of_ok (walkLoop_eq va 3 0 root s), rfl, rfl⟩
  obtain ⟨r, t, runs, found, same⟩ := walked
  rw [found, same] at runs
  unfold lookup descriptor
  rw [bind_eq_of_ok runs]
  cases lastTable s.memory va 3 0 root with
  | none =>
      rw [Option.elim_none]
      rfl
  | some table =>
      rw [Option.elim_some]
      rfl

theorem PagesMapped.zero (root va pa perm : Nat) (memory : Memory) :
    PagesMapped root va pa perm 0 memory memory := by
  intro a _
  rw [if_neg]
  omega

/-- One page, and then the pages after it. -/
theorem PagesMapped.append (aligned : va % PGSIZE = 0)
    (first : PagesMapped root va pa perm 1 memory memory')
    (rest : PagesMapped root (va + PGSIZE) (pa + PGSIZE) perm pages memory' memory'') :
    PagesMapped root va pa perm (pages + 1) memory memory'' := by
  intro a small
  have round : pgRoundDown a = a / PGSIZE * PGSIZE := rfl
  rw [rest a small, first a small]
  by_cases before : a < va + PGSIZE
  · rw [if_neg (by omega)]
    by_cases above : va ≤ a
    · rw [if_pos (by omega), if_pos]
      rw [Nat.succ_mul]
      omega
    · rw [if_neg (by omega), if_neg (by omega)]
  · by_cases inside : a < va + (pages + 1) * PGSIZE
    · have offset : pa + PGSIZE + (pgRoundDown a - (va + PGSIZE)) = pa + (pgRoundDown a - va) := by
        unfold PGSIZE at *
        omega
      rw [Nat.succ_mul] at inside
      rw [if_pos (by omega), if_pos (by rw [Nat.succ_mul]; omega), offset]
    · rw [Nat.succ_mul] at inside
      rw [if_neg (by omega), if_neg (by omega), if_neg (by rw [Nat.succ_mul]; omega)]

theorem PagesMapped.prefixMapped (filled : PagesMapped root va pa perm pages s.memory t.memory)
    (bound : va + pages * PGSIZE ≤ MAXUVA) : PrefixMapped root va pa perm pages s t := by
  constructor
  · intro a above below
    have small : a < MAXUVA := by omega
    rw [lookup_eq small, filled a small, if_pos ⟨above, below⟩]
  · intro a small outside w found
    rw [lookup_eq small] at found ⊢
    cases found
    rw [filled a small, if_neg outside]

namespace TableTree

/-- The tables that have places are tables of the page table. -/
theorem reaches (tree : TableTree root memory place) (ok : VmOk s live place) (small : va < MAXUVA)
    (low : level ≤ 3) (there : place (pathSlot root va level) = some p) :
    Reaches memory root level p := by
  induction level generalizing p with
  | zero =>
      rw [pathSlot_zero small, tree.rooted] at there
      cases there
      exact .root
  | succ level ih =>
      cases above : place (pathSlot root va level) with
      | none =>
          rw [tree.path_none low above] at there
          cases there
      | some page =>
          have entry := tree.path_entry low above
          rw [there] at entry
          have reached := (ih (by omega) above).entry low (tableIndex_lt va level)
            (entry.isValid_iff.mpr (Option.some_ne_none p))
          rwa [entry.ptePage_eq (ok.direct_of_place there)] at reached

/-- A page that has been taken is one of the tables that have been added. -/
theorem taken_reaches (tree : TableTree root t.memory place') (ok : VmOk s live place)
    (ok' : VmOk t live place') (more : MoreTables root place place') (managed : p ∈ t.kmem.managed)
    (used : t.kmem.flags p = .used) (fresh : s.kmem.flags p ≠ .used) :
    ∃ level, Reaches t.memory root level p := by
  obtain ⟨whole, kmem, accounts⟩ := ok.accounts
  obtain ⟨whole', kmem', accounts'⟩ := ok'.accounts
  rcases kmem'.slabs.pages.complete p managed with free | client | ⟨c, member, slab⟩
  · rw [(kmem'.slabs.pages.free p free).2.1] at used
    cases used
  · obtain ⟨slot, there⟩ := (accounts'.mem_iff p).mp client
    by_cases same : place' slot = place slot
    · rw [same] at there
      exact absurd (kmem.slabs.pages.client p (accounts.mem there)).2.1 fresh
    · obtain ⟨va, small, level, low, rfl⟩ := more.only slot same
      exact ⟨level, tree.reaches ok' small low there⟩
  · rw [((kmem'.slabs.cache c member).page p slab).flag] at used
    cases used

theorem walk_yields (tree : TableTree root s.memory place) (ok : VmOk s live place)
    (small : va < MAXUVA) :
    Yields (walk root va true) s fun r t => ∃ place', VmOk t live place' ∧
      TableTree root t.memory place' ∧ MoreTables root place place' ∧
      (∀ a < MAXUVA, descriptor t.memory root a = descriptor s.memory root a) ∧
      (r = none ∨ ∃ last, r = some (last, tableIndex va 3) ∧
        place' (pathSlot root va 3) = some last) := by
  have rooted := tree.rooted
  rw [← pathSlot_zero small] at rooted
  apply Yields.check_bind small
  apply Yields.bind (tree.walkLoop_yields ok small rfl rooted)
  rintro r t ⟨place', ok', tree', more, lookups, outcome⟩
  apply Yields.ret
  refine ⟨place', ok', tree', more, lookups, ?_⟩
  cases r with
  | none => exact .inl rfl
  | some last => exact .inr ⟨last, rfl, outcome last rfl⟩

theorem descriptor_congr (tree : TableTree root memory place) (ok : VmOk s live place)
    (small : a < MAXUVA) (small' : va < MAXUVA) (same : a / PGSIZE = va / PGSIZE) :
    descriptor memory root a = descriptor memory root va := by
  obtain ⟨slot, index⟩ := (@same_page_iff root va a).mpr same
  rw [tree.descriptor_eq ok small, tree.descriptor_eq ok small', slot, index]

/-- A round of the loop of `mappages`: the tables cannot be made, or the page is mapped and the
loop goes on. -/
theorem mapRound_yields {rest : Vm Bool} {Q : Bool → VmState → Prop}
    (tree : TableTree root s.memory place) (ok : VmOk s live place) (aligned : va % PGSIZE = 0)
    (small : va < MAXUVA) (unmapped : ¬ isValid (descriptor s.memory root va))
    (dry : ∀ t place', VmOk t live place' → TableTree root t.memory place' →
      MoreTables root place place' → PagesMapped root va pa perm 0 s.memory t.memory → Q false t)
    (next : ∀ t place', VmOk t live place' → TableTree root t.memory place' →
      MoreTables root place place' → PagesMapped root va pa perm 1 s.memory t.memory →
        Yields rest t Q) :
    Yields (do
      match ← walk root va true with
      | none => return false
      | some (page, i) => do
          let pte ← readPte page i
          check (¬ isValid pte) (.remap va)
          writePte page i (pa ||| perm)
          rest) s Q := by
  apply Yields.bind (tree.walk_yields ok small)
  rintro r t ⟨place', ok', tree', more, lookups, rfl | ⟨last, rfl, there⟩⟩
  · apply Yields.ret
    apply dry t place' ok' tree' more
    intro a below
    rw [lookups a below]
    exact PagesMapped.zero root va pa perm s.memory a below
  · have found : wordAt t.memory last (tableIndex va 3) = descriptor s.memory root va := by
      rw [← lookups va small, tree'.descriptor_eq ok' small, there, Option.elim_some]
    have mapped : PagesMapped root va pa perm 1 s.memory
        (setWord t.memory last (tableIndex va 3) (pa ||| perm)) := by
      intro a below
      have offset : pgRoundDown va = va := Nat.div_mul_cancel (Nat.dvd_of_mod_eq_zero aligned)
      rw [tree'.descriptor_setLast ok' there below, lookups a below]
      by_cases same : a / PGSIZE = va / PGSIZE
      · have round : pgRoundDown a = va := by
          rw [← offset]
          unfold pgRoundDown
          rw [same]
        rw [if_pos same, if_pos (by unfold PGSIZE at *; omega), round, Nat.sub_self, Nat.add_zero]
      · rw [if_neg same, if_neg (by unfold PGSIZE at *; omega)]
    apply Yields.read_bind
    apply Yields.check_bind
    · rw [found]
      exact unmapped
    · apply Yields.update_bind
      exact next _ place' (ok'.setMemory _) (tree'.setLast ok' there) more mapped

/-- The loop of `mappages` maps pages until one of them has no tables. -/
theorem mapLoop_yields (tree : TableTree root s.memory place) (ok : VmOk s live place)
    (aligned : va % PGSIZE = 0) (bound : va + (rounds + 1) * PGSIZE ≤ MAXUVA)
    (unmapped : ∀ a, va ≤ a → a < va + (rounds + 1) * PGSIZE →
      ¬ isValid (descriptor s.memory root a)) :
    Yields (mapLoop root perm rounds va pa) s fun r t => ∃ place' pages, VmOk t live place' ∧
      TableTree root t.memory place' ∧ MoreTables root place place' ∧
      PagesMapped root va pa perm pages s.memory t.memory ∧
      (r = true ∧ pages = rounds + 1 ∨ r = false ∧ pages ≤ rounds) := by
  have page : 0 < PGSIZE := by decide
  induction rounds generalizing va pa s place with
  | zero =>
      unfold mapLoop
      apply tree.mapRound_yields ok aligned (by omega) (unmapped va (le_refl va) (by omega))
      · intro t place' ok' tree' more filled
        exact ⟨place', 0, ok', tree', more, filled, .inr ⟨rfl, le_refl 0⟩⟩
      · intro t place' ok' tree' more filled
        exact .ret ⟨place', 1, ok', tree', more, filled, .inl ⟨rfl, rfl⟩⟩
  | succ rounds ih =>
      rw [Nat.succ_mul] at bound unmapped
      unfold mapLoop
      apply tree.mapRound_yields ok aligned (by omega) (unmapped va (le_refl va) (by omega))
      · intro t place' ok' tree' more filled
        exact ⟨place', 0, ok', tree', more, filled, .inr ⟨rfl, Nat.zero_le _⟩⟩
      · intro t place' ok' tree' more filled
        have later : ∀ a, va + PGSIZE ≤ a → a < va + PGSIZE + (rounds + 1) * PGSIZE →
            ¬ isValid (descriptor t.memory root a) := by
          intro a above below
          rw [filled a (by omega), if_neg (by omega)]
          exact unmapped a (by omega) (by omega)
        apply (ih tree' ok' (by rw [Nat.add_mod_right]; exact aligned) (by omega) later).mono
        rintro r u ⟨place'', pages, ok'', tree'', more', filled', outcome⟩
        refine ⟨place'', pages + 1, ok'', tree'', more.trans more', filled.append aligned filled',
          ?_⟩
        rcases outcome with ⟨rfl, rfl⟩ | ⟨rfl, few⟩
        · exact .inl ⟨rfl, rfl⟩
        · exact .inr ⟨rfl, Nat.succ_le_succ few⟩

end TableTree

/-- `mappages` of a range of a page table, in which no address has a valid descriptor. -/
theorem mappages_exact (ok : VmOk s live place) (tree : TableTree root s.memory place)
    (aligned : va % PGSIZE = 0) (nonempty : 0 < sz) (bound : va + sz ≤ MAXUVA)
    (unmapped : ∀ a, va ≤ a → a < va + sz → ∃ w, lookup root a s = .ok (w, s) ∧ ¬ isValid w) :
    ∃ r t place', mappages root va pa sz perm s = .ok (r, t) ∧ VmOk t live place' ∧
      TableTree root t.memory place' ∧
      (r = true → PrefixMapped root va pa perm ((sz + (PGSIZE - 1)) / PGSIZE) s t) ∧
      (r = false → ∃ pages, pages * PGSIZE < sz ∧ PrefixMapped root va pa perm pages s t) ∧
      ∀ p ∈ t.kmem.managed, t.kmem.flags p = .used → s.kmem.flags p ≠ .used →
        ∃ level, Reaches t.memory root level p := by
  have first : pgRoundDown va = va := Nat.div_mul_cancel (Nat.dvd_of_mod_eq_zero aligned)
  have last : pgRoundDown (va + sz - 1) = va + (sz - 1) / PGSIZE * PGSIZE := by
    unfold pgRoundDown
    unfold PGSIZE at *
    omega
  have rounds : (pgRoundDown (va + sz - 1) - va) / PGSIZE = (sz - 1) / PGSIZE := by
    rw [last, Nat.add_sub_cancel_left, Nat.mul_div_cancel _ (by decide)]
  have count : (sz + (PGSIZE - 1)) / PGSIZE = (sz - 1) / PGSIZE + 1 := by
    unfold PGSIZE
    omega
  have range : va + ((sz - 1) / PGSIZE + 1) * PGSIZE ≤ MAXUVA := by
    unfold MAXUVA PGSIZE at *
    omega
  have invalid : ∀ a, va ≤ a → a < va + ((sz - 1) / PGSIZE + 1) * PGSIZE →
      ¬ isValid (descriptor s.memory root a) := by
    intro a above below
    have inRange : va ≤ pgRoundDown a ∧ pgRoundDown a < va + sz := by
      unfold pgRoundDown
      unfold PGSIZE at *
      omega
    obtain ⟨w, found, invalid⟩ := unmapped (pgRoundDown a) inRange.1 inRange.2
    rw [lookup_eq (by omega)] at found
    cases found
    have same : a / PGSIZE = pgRoundDown a / PGSIZE := (Nat.mul_div_cancel _ (by decide)).symm
    rw [tree.descriptor_congr ok (by omega) (by omega) same]
    exact invalid
  have mapped : Yields (mapLoop root perm ((sz - 1) / PGSIZE) va pa) s _ :=
    tree.mapLoop_yields ok aligned range invalid
  obtain ⟨r, t, runs, place', pages, ok', tree', more, filled, outcome⟩ := mapped
  refine ⟨r, t, place', ?_, ok', tree', ?_, ?_, ?_⟩
  · unfold mappages
    rw [first]
    dsimp only
    rw [rounds]
    unfold check
    rw [if_pos (by omega)]
    exact runs
  · rintro rfl
    obtain rfl : pages = (sz - 1) / PGSIZE + 1 := by simpa using outcome
    rw [count]
    exact filled.prefixMapped range
  · rintro rfl
    have few : pages ≤ (sz - 1) / PGSIZE := by simpa using outcome
    have short : pages * PGSIZE < sz := by
      unfold PGSIZE at *
      omega
    exact ⟨pages, short, filled.prefixMapped (by omega)⟩
  · intro p managed used fresh
    exact tree'.taken_reaches ok ok' more managed used fresh

/-- Two pages of an empty page table are mapped. -/
theorem mappages_fresh : ∃ root live place vm r t,
    mappages root 0x1000 0x40000000 0x2000 PAGE_USER vm = .ok (r, t) ∧ VmOk t live place ∧
      TableTree root t.memory place ∧
      (r = true → PrefixMapped root 0x1000 0x40000000 PAGE_USER 2 vm t) ∧
      (r = false → ∃ pages, pages * PGSIZE < 0x2000 ∧
        PrefixMapped root 0x1000 0x40000000 PAGE_USER pages vm t) := by
  obtain ⟨root, vm, ⟨live, place, built⟩, -⟩ := @exists_fresh 1 (by decide)
  have ok := built.twins.ok
  have tree := built.twins.forest.tableTree built.rooted
  have unmapped : ∀ a, 0x1000 ≤ a → a < 0x1000 + 0x2000 →
      ∃ w, lookup root a vm = .ok (w, vm) ∧ ¬ isValid w := by
    intro a _ below
    have small : a < MAXUVA := by
      unfold MAXUVA
      omega
    have bare : place (pathSlot root a 3) = none := by
      by_contra filled
      obtain ⟨v, member, -⟩ := (built.inner 2 (by decide) _).mp filled
      exact absurd member List.not_mem_nil
    refine ⟨0, ?_, not_isValid_zero⟩
    rw [lookup_eq small, tree.descriptor_eq ok small, bare, Option.elim_none]
  obtain ⟨r, t, place', runs, ok', tree', done, dry, -⟩ :=
    @mappages_exact vm live place root 0x1000 0x40000000 0x2000 PAGE_USER ok tree
      (by decide) (by decide) (by decide) unmapped
  exact ⟨root, live, place', vm, r, t, runs, ok', tree', done, dry⟩

end Pmap

end Av6
