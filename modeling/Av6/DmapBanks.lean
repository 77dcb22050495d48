import Av6.DmapTables
import Av6.SeparatedIntervals

/-!
# Mapping the banks

`dmap_bank` maps a bank from its start to its end, and uses a page exactly where the 2 MB block
around it is not all RAM.  The banks follow each other with a gap between them.
-/

namespace Av6

namespace Dmap

open FallibleState Kmem Pmap Intervals

variable {image : Image} {m : Physmem.MemoryMap} {ram : Set Nat}
  {cells cells' : Nat → Nat → Cell} {s t : BootState} {pa pa' start stop level bound : Nat}

/-- The leaves are all RAM below `pa`, and a leaf of the last level is in a block that is not
all RAM. -/
structure Covers (ram : Set Nat) (cells : Nat → Nat → Cell) (pa : Nat) : Prop where
  covered : ∀ a ∈ ram, a < pa → ∃ level, cells level (a / span level) = .leaf
  inRam : ∀ level y, cells level y = .leaf → ∀ a, a / span level = y → a ∈ ram
  ragged : ∀ p, cells 3 p = .leaf → ∃ a, a / span 2 = p / TABLE_ENTRIES ∧ a ∉ ram

/-- The banks below `pa` have been mapped. -/
def Reached (image : Image) (m : Physmem.MemoryMap) (ram : Set Nat) (pa : Nat)
    (s : BootState) : Prop :=
  ∃ cells, Built image m cells pa (pgRoundUp image.imageEnd + 2 * pa) s ∧ Covers ram cells pa

theorem Covers.advance (covers : Covers ram cells pa) (aligned : span level ∣ pa)
    (leafed : Leafed cells cells' level (pa / span level))
    (inside : ∀ a, pa ≤ a → a < pa + span level → a ∈ ram)
    (page : level = 3 → ∃ a, a / span 2 = pa / span 2 ∧ a ∉ ram) :
    Covers ram cells' (pa + span level) := by
  have size : 0 < span level := Nat.two_pow_pos _
  have start : pa / span level * span level = pa := Nat.div_mul_cancel aligned
  constructor
  · intro a inRam below
    rcases Nat.lt_or_ge a pa with old | new
    · obtain ⟨l, entry⟩ := covers.covered a inRam old
      exact ⟨l, (leafed ..).mpr (.inl entry)⟩
    · refine ⟨level, (leafed ..).mpr (.inr ⟨rfl, ?_⟩)⟩
      rw [Nat.div_eq_iff size, start]
      omega
  · intro l y entry a inEntry
    rcases (leafed l y).mp entry with old | ⟨rfl, rfl⟩
    · exact covers.inRam l y old a inEntry
    · rw [Nat.div_eq_iff size, start] at inEntry
      apply inside a
      · exact inEntry.1
      · omega
  · intro p entry
    rcases (leafed 3 p).mp entry with old | ⟨same, rfl⟩
    · exact covers.ragged p old
    · obtain ⟨a, block, outside⟩ := page same.symm
      obtain rfl := same
      rw [div_span_three]
      exact ⟨a, block, outside⟩

theorem Reached.advance (covers : Covers ram cells pa) (aligned : span level ∣ pa)
    (inside : ∀ a, pa ≤ a → a < pa + span level → a ∈ ram)
    (page : level = 3 → ∃ a, a / span 2 = pa / span 2 ∧ a ∉ ram) (atLeast : PGSIZE ≤ span level)
    (advances : Advances image m cells level pa (pgRoundUp image.imageEnd + 2 * pa) t) :
    Reached image m ram (pa + span level) t := by
  obtain ⟨cells', built, leafed⟩ := advances
  refine ⟨cells', built.mono le_rfl ?_, covers.advance aligned leafed inside page⟩
  omega

/-- Where there is no RAM the position moves on. -/
theorem Reached.skip (reached : Reached image m ram pa s) (later : pa ≤ pa')
    (none_ : ∀ a ∈ ram, pa ≤ a → pa' ≤ a) : Reached image m ram pa' s := by
  obtain ⟨cells, built, covers⟩ := reached
  refine ⟨cells, built.mono later (by omega), ?_, covers.inRam, covers.ragged⟩
  intro a inRam below
  apply covers.covered a inRam
  by_contra beyond
  exact absurd (none_ a inRam (Nat.not_lt.mp beyond)) (Nat.not_le.mpr below)

/-- A bank that is a piece of RAM with a gap at both ends. -/
structure Bank (ram : Set Nat) (start stop : Nat) : Prop where
  low : span 1 ≤ start
  high : stop ≤ KSTACK_WINDOW_L1 * span 1
  proper : start < stop
  first : PGSIZE ∣ start
  last : PGSIZE ∣ stop
  inside : ∀ a, start ≤ a → a < stop → a ∈ ram
  before : start - 1 ∉ ram
  after : stop ∉ ram

/-- A loop of `dmap_bank` keeps what a round keeps, and ends where its condition fails. -/
theorem mapWhile_yields (stop : Nat) {goOn : Nat → Prop} [DecidablePred goOn]
    {map : Nat → Boot Unit} {stride rounds : Nat} {I : Nat → BootState → Prop}
    (positive : 0 < stride)
    (bounded : ∀ pa, goOn pa → pa < stop)
    (step : ∀ pa s, I pa s → goOn pa → Yields (map pa) s fun _ t => I (pa + stride) t)
    (enough : stop ≤ pa + rounds) (holds : I pa s) :
    Yields (mapWhile goOn map stride rounds pa) s fun pa' t => I pa' t ∧ ¬goOn pa' := by
  induction rounds generalizing pa s with
  | zero => exact .ret ⟨holds, fun more => absurd (bounded pa more) (Nat.not_lt.mpr enough)⟩
  | succ rounds ih =>
      unfold mapWhile
      by_cases more : goOn pa
      · rw [if_pos more]
        exact (step pa s holds more).bind fun _ t holds' => ih (by omega) holds'
      · rw [if_neg more]
        exact .ret ⟨holds, more⟩

/-- The position within a bank. -/
structure Within (image : Image) (m : Physmem.MemoryMap) (ram : Set Nat) (start stop : Nat)
    (P : Nat → Prop) (pa : Nat) (s : BootState) : Prop where
  reached : Reached image m ram pa s
  low : start ≤ pa
  high : pa ≤ stop
  page : PGSIZE ∣ pa
  holds : P pa

variable {P Q : Nat → Prop}

theorem Within.imp (within : Within image m ram start stop P pa s) (holds : Q pa) :
    Within image m ram start stop Q pa s :=
  { within with holds }

/-- One round of a loop. -/
theorem Within.step {map : Nat → Boot Unit} (within : Within image m ram start stop P pa s)
    (bank : Bank ram start stop) (small : pgRoundUp image.imageEnd ≤ 2 ^ 40)
    (maps : ∀ cells bound, Built image m cells pa bound s → span 1 ≤ pa →
      pa < KSTACK_WINDOW_L1 * span 1 → bound + 2 * PGSIZE ≤ 2 ^ 48 →
        Yields (map pa) s fun _ t => Advances image m cells level pa bound t)
    (atLeast : PGSIZE ∣ span level) (aligned : span level ∣ pa) (room : pa + span level ≤ stop)
    (page : level = 3 → ∃ a, a / span 2 = pa / span 2 ∧ a ∉ ram) (next : Q (pa + span level)) :
    Yields (map pa) s fun _ t => Within image m ram start stop Q (pa + span level) t := by
  obtain ⟨cells, built, covers⟩ := within.reached
  have size : 0 < span level := Nat.two_pow_pos _
  have low := bank.low.trans within.low
  have inBank : pa < stop := by omega
  have high := inBank.trans_le bank.high
  have bound : pgRoundUp image.imageEnd + 2 * pa + 2 * PGSIZE ≤ 2 ^ 48 := by
    unfold KSTACK_WINDOW_L1 at high
    rw [span_one] at high
    unfold PGSIZE
    omega
  apply (maps cells _ built low high bound).mono
  intro _ t advances
  refine ⟨?_, within.low.trans (Nat.le_add_right ..), room, Nat.dvd_add within.page atLeast, next⟩
  apply Reached.advance covers aligned _ page (Nat.le_of_dvd size atLeast) advances
  intro a first last
  exact bank.inside a (within.low.trans first) (by omega)

section

variable (bank : Bank ram start stop) (small : pgRoundUp image.imageEnd ≤ 2 ^ 40)

include bank small

/-- The pages before the first block of 2 MB are in the block of the address before the bank. -/
theorem headPages (reached : Reached image m ram start s) :
    Yields (mapWhile (fun pa => pa < stop ∧ pa % BLOCK_SIZE_2M ≠ 0)
      (dmapPageWith storeUnused image) PGSIZE stop start) s
      fun pa t => Within image m ram start stop (fun pa => pa = stop ∨ span 2 ∣ pa) pa t := by
  have proper := bank.proper
  have first := bank.first
  have last := bank.last
  have low := bank.low
  have begins : Within image m ram start stop
      (fun pa => pa % 2 ^ 21 ≠ 0 → pa / 2 ^ 21 = (start - 1) / 2 ^ 21) start s :=
    ⟨reached, le_rfl, proper.le, first, by rw [span_one] at low; omega⟩
  apply (mapWhile_yields stop (by decide) (fun pa more => more.1) _ (by omega) begins).mono
  · rintro pa t ⟨within, ends⟩
    apply within.imp
    have high := within.high
    rw [span_two, Nat.dvd_iff_mod_eq_zero]
    unfold BLOCK_SIZE_2M at ends
    omega
  · rintro pa t within ⟨more, ragged⟩
    have page := within.page
    have holds := within.holds
    unfold BLOCK_SIZE_2M at ragged
    apply within.step bank small (fun cells bound built => built.dmapPage page) (dvd_refl _) page
    · rw [span_three]
      unfold PGSIZE at *
      omega
    · exact fun _ => ⟨start - 1, (holds ragged).symm, bank.before⟩
    · rw [span_three]
      unfold PGSIZE at *
      omega

/-- Blocks of 2 MB up to the first block of 1 GB. -/
theorem headBlocks
    (within : Within image m ram start stop (fun pa => pa = stop ∨ span 2 ∣ pa) pa s) :
    Yields (mapWhile (fun pa => pa + BLOCK_SIZE_2M ≤ stop ∧ pa % BLOCK_SIZE_1G ≠ 0)
      (dmapBlock2mWith storeUnused image) BLOCK_SIZE_2M stop pa) s
      fun pa t => Within image m ram start stop
        (fun pa => pa = stop ∨ (span 2 ∣ pa ∧ (stop < pa + span 1 ∨ span 1 ∣ pa))) pa t := by
  apply (mapWhile_yields stop (by decide) _ _ (by omega) within).mono
  · rintro pa t ⟨within, ends⟩
    apply within.imp
    have holds := within.holds
    rw [span_two] at *
    rw [span_one, Nat.dvd_iff_mod_eq_zero, Nat.dvd_iff_mod_eq_zero] at *
    unfold BLOCK_SIZE_2M BLOCK_SIZE_1G at ends
    omega
  · rintro pa ⟨more, -⟩
    unfold BLOCK_SIZE_2M at more
    omega
  · rintro pa t within ⟨more, -⟩
    have aligned : span 2 ∣ pa := by
      apply within.holds.resolve_left
      unfold BLOCK_SIZE_2M at more
      omega
    exact within.step bank small (fun cells bound built => built.dmapBlock2m aligned) (by decide)
      aligned more (by omega) (.inr (Nat.dvd_add aligned (dvd_refl _)))

/-- Blocks of 1 GB. -/
theorem bigBlocks (within : Within image m ram start stop
      (fun pa => pa = stop ∨ (span 2 ∣ pa ∧ (stop < pa + span 1 ∨ span 1 ∣ pa))) pa s) :
    Yields (mapWhile (fun pa => pa + BLOCK_SIZE_1G ≤ stop)
      (dmapBlock1gWith storeUnused image) BLOCK_SIZE_1G stop pa) s
      fun pa t => Within image m ram start stop (fun pa => pa = stop ∨ span 2 ∣ pa) pa t := by
  apply (mapWhile_yields stop (by decide) _ _ (by omega) within).mono
  · rintro pa t ⟨within, -⟩
    apply within.imp
    have holds := within.holds
    tauto
  · intro pa more
    unfold BLOCK_SIZE_1G at more
    omega
  · intro pa t within more
    obtain ⟨block, aligned⟩ : span 2 ∣ pa ∧ span 1 ∣ pa := by
      have holds := within.holds
      rw [span_one] at *
      unfold BLOCK_SIZE_1G at more
      omega
    apply within.step bank small (fun cells bound built low high _ =>
      built.dmapBlock1g aligned low high) (by decide) aligned more (by omega)
    exact .inr ⟨Nat.dvd_add block (by decide), .inr (Nat.dvd_add aligned (dvd_refl _))⟩

/-- Blocks of 2 MB behind them. -/
theorem tailBlocks
    (within : Within image m ram start stop (fun pa => pa = stop ∨ span 2 ∣ pa) pa s) :
    Yields (mapWhile (fun pa => pa + BLOCK_SIZE_2M ≤ stop)
      (dmapBlock2mWith storeUnused image) BLOCK_SIZE_2M stop pa) s fun pa t => Within image m ram start stop
        (fun pa => pa < stop → pa / span 2 = stop / span 2) pa t := by
  apply (mapWhile_yields stop (by decide) _ _ (by omega) within).mono
  · rintro pa t ⟨within, ends⟩
    apply within.imp
    have holds := within.holds
    rw [span_two] at *
    unfold BLOCK_SIZE_2M at ends
    omega
  · intro pa more
    unfold BLOCK_SIZE_2M at more
    omega
  · intro pa t within more
    have aligned : span 2 ∣ pa := by
      apply within.holds.resolve_left
      unfold BLOCK_SIZE_2M at more
      omega
    exact within.step bank small (fun cells bound built => built.dmapBlock2m aligned) (by decide)
      aligned more (by omega) (.inr (Nat.dvd_add aligned (dvd_refl _)))

/-- The pages behind the last block are in the block of the end. -/
theorem tailPages (within : Within image m ram start stop
      (fun pa => pa < stop → pa / span 2 = stop / span 2) pa s) :
    Yields (mapWhile (fun pa => pa < stop) (dmapPageWith storeUnused image) PGSIZE stop pa) s
      fun _ t => Reached image m ram stop t := by
  have last := bank.last
  apply (mapWhile_yields stop (by decide) (fun pa more => more) _ (by omega) within).mono
  · rintro pa t ⟨within, ends⟩
    rw [← Nat.le_antisymm within.high (Nat.not_lt.mp ends)]
    exact within.reached
  · intro pa t within more
    have page := within.page
    have holds := within.holds more
    apply within.step bank small (fun cells bound built => built.dmapPage page) (dvd_refl _) page
    · rw [span_three]
      unfold PGSIZE at *
      omega
    · exact fun _ => ⟨stop, holds.symm, bank.after⟩
    · rw [span_three, span_two] at *
      unfold PGSIZE at *
      omega

/-- `dmap_bank` -/
theorem dmapBank_yields (reached : Reached image m ram start s) :
    Yields (dmapBankWith storeUnused image start stop) s fun _ t => Reached image m ram stop t := by
  unfold dmapBankWith
  apply Yields.check_bind bank.low
  apply Yields.check_bind bank.high
  apply (headPages bank small reached).bind
  intro pa t within
  apply (headBlocks bank small within).bind
  intro pa t within
  apply (bigBlocks bank small within).bind
  intro pa t within
  apply (tailBlocks bank small within).bind
  intro pa t within
  apply (tailPages bank small within).bind
  intro _ t reached
  exact .ret reached

end

/-- The banks, from the first to the last. -/
theorem forM_dmapBank {segs : List (Nat × Nat)} (small : pgRoundUp image.imageEnd ≤ 2 ^ 40)
    (sep : Separated segs) (each : ∀ i ∈ segs, span 1 ≤ i.1 ∧ i.2 ≤ KSTACK_WINDOW_L1 * span 1 ∧
      PGSIZE ∣ i.1 ∧ PGSIZE ∣ i.2) (inside : cover segs ⊆ ram)
    (left : ∀ a ∈ ram, pa ≤ a → a ∈ cover segs) (gap : ∀ i ∈ segs, pa < i.1)
    (fits : pa ≤ KSTACK_WINDOW_L1 * span 1) (reached : Reached image m ram pa s) :
    Yields (segs.forM fun seg => dmapBankWith storeUnused image seg.1 seg.2) s
      fun _ t => ∃ pa' ≤ KSTACK_WINDOW_L1 * span 1, Reached image m ram pa' t ∧
        ∀ a ∈ ram, a < pa' := by
  induction segs generalizing pa s with
  | nil =>
      refine .ret ⟨pa, fits, reached, ?_⟩
      intro a inRam
      by_contra beyond
      simpa using left a inRam (Nat.not_lt.mp beyond)
  | cons seg rest ih =>
      obtain ⟨proper, apart, sep'⟩ := separated_cons.mp sep
      obtain ⟨low, high, first, last⟩ := each seg (by simp)
      have room := gap seg (by simp)
      have next : ∀ a ∈ ram, pa ≤ a → seg.1 ≤ a ∧ (seg.2 ≤ a → a ∈ cover rest) := by
        intro a inRam later
        obtain ⟨i, member, begins, ends⟩ := left a inRam later
        rcases List.mem_cons.mp member with rfl | member
        · exact ⟨begins, fun behind => absurd ends (Nat.not_lt.mpr behind)⟩
        · have between := apart i member
          exact ⟨(proper.trans between).le.trans begins, fun _ => ⟨i, member, begins, ends⟩⟩
      have bank : Bank ram seg.1 seg.2 := by
        refine ⟨low, high, proper, first, last, ?_, ?_, ?_⟩
        · exact fun a begins ends => inside ⟨seg, by simp, begins, ends⟩
        · intro inRam
          have begins := (next _ inRam (by omega)).1
          omega
        · intro inRam
          obtain ⟨i, member, begins, -⟩ := (next _ inRam (by omega)).2 le_rfl
          exact absurd (apart i member) (Nat.not_lt.mpr begins)
      have there := reached.skip room.le fun a inRam later => (next a inRam later).1
      apply (dmapBank_yields bank small there).bind
      intro _ t mapped
      apply ih sep' (fun i member => each i (by simp [member])) _ _ apart high mapped
      · rintro a ⟨i, member, within⟩
        exact inside ⟨i, by simp [member], within⟩
      · intro a inRam later
        exact (next a inRam (by omega)).2 later

end Dmap

end Av6
