import Av6.DmapText

/-!
# The direct map is exact

A walk from the root finds each address of RAM at itself, and stops at an entry that is not valid
for each other address that the slots of RAM could translate.  The two reserved slots are as they
were built first, and no store on the way has overwritten an entry in use.
-/

namespace Av6

namespace Dmap

open FallibleState Kmem Pmap Intervals

variable {image : Image} {m : Physmem.MemoryMap} {ram : Set Nat}
  {cells : Nat → Nat → Cell} {s : BootState} {memory : Memory}
  {pa bound left table a va : Nat}

/-- The hardware stops at an entry that is not valid. -/
theorem translate_invalid
    (entry : ¬isValid (wordAt memory table (tableIndex va (3 - left)))) :
    translate memory va left table = none := by
  cases left with
  | zero =>
      unfold translate
      rw [if_neg]
      exact fun both => entry both.1
  | succ left =>
      have level : 3 - (left + 1) = 2 - left := by omega
      rw [level] at entry
      unfold translate
      rw [if_neg entry]

/-- The table of a level is the one below an entry of the level above. -/
theorem div_span_sub (low : left ≤ 1) :
    a / span (3 - left) / TABLE_ENTRIES = a / span (3 - (left + 1)) := by
  obtain rfl | rfl : left = 0 ∨ left = 1 := by omega
  · exact div_span_three a
  · exact div_span_two a

/-- Where no leaf is around an address, the walk reaches an empty cell. -/
theorem Built.translate_none (built : Built image m cells pa bound s) (small : bound ≤ 2 ^ 48)
    (outside : ∀ level, cells level (a / span level) ≠ .leaf) (high : left ≤ 2)
    (here : At image cells (3 - left) (a / span (3 - left) / TABLE_ENTRIES) table)
    (visible : Open (3 - left) (a / span (3 - left))) :
    translate s.memory (a + KERN_BASE) left table = none := by
  induction left generalizing table with
  | zero =>
      apply translate_invalid
      rw [tableIndex_kva (by omega)]
      cases entry : cells 3 (a / span 3) with
      | empty => exact built.unused here visible entry
      | leaf => exact absurd entry (outside 3)
      | table page => exact absurd (built.begun 3 _ page entry).2.1 (by omega)
  | succ left ih =>
      cases entry : cells (3 - (left + 1)) (a / span (3 - (left + 1))) with
      | empty =>
          apply translate_invalid
          rw [tableIndex_kva (by omega)]
          exact built.unused here visible entry
      | leaf => exact absurd entry (outside _)
      | table next =>
          have below : At image cells (3 - left) (a / span (3 - left) / TABLE_ENTRIES) next := by
            rw [div_span_sub (by omega)]
            have level : 3 - left = 3 - (left + 1) + 1 := by omega
            rw [level]
            exact .below entry
          rw [translate_table (built.table_lt small below)]
          · apply ih (by omega) below
            intro first
            omega
          · have word := built.words _ _ table here visible
            have level : 3 - (left + 1) = 2 - left := by omega
            rw [entry, level] at word
            rw [tableIndex_kva (by omega)]
            exact word

/-- What is no RAM is not mapped in the slots of RAM. -/
theorem Reached.translate_none (reached : Reached image m ram pa s)
    (small : pgRoundUp image.imageEnd + 2 * pa ≤ 2 ^ 48) (low : span 1 ≤ a)
    (high : a < KSTACK_WINDOW_L1 * span 1) (outside : a ∉ ram) :
    translateKva s.memory image a = none := by
  obtain ⟨cells, built, covers⟩ := reached
  obtain ⟨-, inRoot, unused⟩ := first_level low high
  have here : At image cells 1 (a / span 1 / TABLE_ENTRIES) image.l1Table := by
    rw [inRoot]
    exact .root
  have range : a < 2 ^ 39 := by
    unfold KSTACK_WINDOW_L1 at high
    rw [span_one] at high
    omega
  rw [built.translate_at small (by omega) range here]
  apply built.translate_none small _ le_rfl here fun _ => unused
  intro level leaf
  exact outside (covers.inRam level _ leaf a rfl)

/-- The tables map all RAM to itself, and nothing else beside the two reserved slots. -/
structure DirectMap (image : Image) (ram : Set Nat) (memory : Memory) : Prop where
  mapped : ∀ a ∈ ram, ∃ pxn, translateKva memory image a = some (a, pxn)
  unmapped : ∀ a, BLOCK_SIZE_1G ≤ a → a < KSTACK_WINDOW_L1 * BLOCK_SIZE_1G → a ∉ ram →
    translateKva memory image a = none
  reserved : Reserved image memory

theorem Complete.directMap (complete : Complete image m ram memory)
    (range : ∀ a ∈ ram, span 1 ≤ a ∧ a < KSTACK_WINDOW_L1 * span 1)
    (small : image.imageEnd ≤ 2 ^ 39) : DirectMap image ram memory := by
  obtain ⟨pa, fits, u, rfl, reached, all⟩ := complete
  have room : pgRoundUp image.imageEnd + 2 * pa ≤ 2 ^ 48 := by
    unfold KSTACK_WINDOW_L1 at fits
    rw [span_one] at fits
    unfold pgRoundUp pgRoundDown PGSIZE
    omega
  constructor
  case mapped =>
    intro a inRam
    have high := (range a inRam).2
    unfold KSTACK_WINDOW_L1 at high
    rw [span_one] at high
    obtain ⟨pxn, found, -⟩ := reached.translate_iff room (by omega) inRam (all a inRam)
    exact ⟨pxn, found⟩
  case unmapped => exact fun a low high outside => reached.translate_none room low high outside
  case reserved =>
    obtain ⟨cells, built, -⟩ := reached
    exact built.reserved

/-- For any banks of RAM that physmem publishes, `kvminit` builds their direct map, and with each
store checked it does the same. -/
theorem kvminit_exact {banks : List (Nat × Nat)} (ok : ∀ bank ∈ banks, BankOk bank)
    (inside : image.imageEnd ≤ KSTACK_WINDOW_L1 * BLOCK_SIZE_1G)
    (reported : Physmem.empty.reportAll (reportBanks banks) = some m) (memory : Memory)
    (freemem : Nat) :
    ∃ t, kvminit image ⟨memory, freemem, m⟩ = .ok ((), t) ∧
      kvminitWith storeUnused image ⟨memory, freemem, m⟩ = .ok ((), t) ∧
      DirectMap image (cover banks) t.memory := by
  obtain ⟨segs, avail, segments, unexcluded⟩ := segments_of_banks ok reported
  have range := cover_range ok
  have small : image.imageEnd ≤ 2 ^ 39 := inside.trans (by decide)
  obtain ⟨⟨⟩, t, runs, complete⟩ :=
    @kvminitWith_yields image (cover banks) ⟨memory, freemem, m⟩ segs avail unexcluded segments
      range small
  exact ⟨t, kvminitWith_erases image _ _ runs, runs, complete.directMap range small⟩

/-- Two banks in one block of 2 MB. -/
theorem kvminit_exact_shared :
    ∃ t, kvminit loadedImage ⟨fun _ _ => 0, 0,
        ⟨[⟨0x40000000, 0x400000⟩, ⟨0x40401000, 0x1000⟩], []⟩⟩ = .ok ((), t) ∧
      kvminitWith storeUnused loadedImage ⟨fun _ _ => 0, 0,
        ⟨[⟨0x40000000, 0x400000⟩, ⟨0x40401000, 0x1000⟩], []⟩⟩ = .ok ((), t) ∧
      DirectMap loadedImage (cover [(0x40000000, 0x40400000), (0x40401000, 0x40402000)])
        t.memory :=
  kvminit_exact
    (by simp; exact ⟨⟨by decide, by decide, by decide, by decide, by decide⟩,
      by decide, by decide, by decide, by decide, by decide⟩)
    (by decide) (by decide) _ _

end Dmap

end Av6
