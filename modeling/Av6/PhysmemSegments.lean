import Av6.PhysmemBanks

/-!
# The table of segments

`add_seg` counts the segments as they are published and stops the kernel when the table is full.
An exclusion splits at most one bank, so there are never more segments than entries of the two
lists, and the table is large enough for all of them.
-/

namespace Av6

namespace Physmem

/-- `add_seg`, behind the segments published so far; there is no result when it panics. -/
def publish (segs : List (Nat × Nat)) (start stop : Nat) : Option (List (Nat × Nat)) :=
  if stop ≤ start then some segs
  else if VM_PHYSSEG_MAX ≤ segs.length then none
  else some (segs ++ [(start, stop)])

/-- The inner loop of `physmem_avail`, on a bank of which `[start, stop)` is left. -/
def availBank (segs : List (Nat × Nat)) (start stop : Nat) : List Region →
    Option (List (Nat × Nat))
  | [] => publish segs start stop
  | x :: rest =>
      if x.stop ≤ start then availBank segs start stop rest
      else if stop ≤ x.addr then publish segs start stop
      else if x.addr ≤ start then
        if stop ≤ x.stop then publish segs x.stop stop else availBank segs x.stop stop rest
      else if stop ≤ x.stop then publish segs start x.addr
      else (publish segs start x.addr).bind fun segs => availBank segs x.stop stop rest

/-- The outer loop of `physmem_avail`. -/
def availBanks (segs : List (Nat × Nat)) (exregions : List Region) : List Region →
    Option (List (Nat × Nat))
  | [] => some segs
  | r :: rest =>
      (availBank segs r.addr r.stop exregions).bind fun segs => availBanks segs exregions rest

/-- `physmem_avail`, with the limit checked at each segment. -/
def MemoryMap.physmemAvail (m : MemoryMap) : Option (List (Nat × Nat)) :=
  availBanks [] m.exregions m.hwregions

/-- What is published when some segments are to follow: all of them, if they fit. -/
def extend (segs more : List (Nat × Nat)) : Option (List (Nat × Nat)) :=
  if (segs ++ more).length ≤ VM_PHYSSEG_MAX then some (segs ++ more) else none

variable {segs more after : List (Nat × Nat)} {start stop : Nat} {ex hw : List Region}
  {m : MemoryMap}

theorem extend_nil (fits : segs.length ≤ VM_PHYSSEG_MAX) : extend segs [] = some segs := by
  unfold extend
  rw [List.append_nil, if_pos fits]

/-- Segments that follow one after the other. -/
theorem extend_append :
    extend segs (more ++ after) = (extend segs more).bind fun segs => extend segs after := by
  unfold extend
  rw [← List.append_assoc]
  by_cases fits : (segs ++ more).length ≤ VM_PHYSSEG_MAX
  · rw [if_pos fits, Option.bind_some]
  · have longer : ¬(segs ++ more ++ after).length ≤ VM_PHYSSEG_MAX := by
      rw [List.length_append]
      omega
    rw [if_neg fits, if_neg longer, Option.bind_none]

theorem length_of_extend (published : extend segs more = some after) :
    after.length ≤ VM_PHYSSEG_MAX := by
  unfold extend at published
  split at published
  · rename_i fits
    cases published
    exact fits
  · cases published

theorem publish_eq (fits : segs.length ≤ VM_PHYSSEG_MAX) :
    publish segs start stop = extend segs (addSeg start stop) := by
  unfold publish addSeg
  split
  · exact (extend_nil fits).symm
  · unfold extend
    rw [List.length_append, List.length_singleton]
    split
    · rw [if_neg (by omega)]
    · rw [if_pos (by omega)]

/-- One bank: the limit can be checked at the end of it. -/
theorem availBank_eq (fits : segs.length ≤ VM_PHYSSEG_MAX) :
    availBank segs start stop ex = extend segs (clip start stop ex) := by
  induction ex generalizing segs start with
  | nil => exact publish_eq fits
  | cons x rest ih =>
      unfold availBank clip
      split
      · exact ih fits
      · split
        · exact publish_eq fits
        · split
          · split
            · exact publish_eq fits
            · exact ih fits
          · split
            · exact publish_eq fits
            · rw [extend_append, publish_eq fits]
              apply Option.bind_congr
              intro segs' published
              exact ih (length_of_extend published)

theorem availBanks_eq (fits : segs.length ≤ VM_PHYSSEG_MAX) :
    availBanks segs ex hw = extend segs (hw.flatMap fun r => clip r.addr r.stop ex) := by
  induction hw generalizing segs with
  | nil => exact (extend_nil fits).symm
  | cons r rest ih =>
      rw [List.flatMap_cons, extend_append, availBanks, availBank_eq fits]
      apply Option.bind_congr
      intro segs' published
      exact ih (length_of_extend published)

/-- The limit can be checked at the end of the walk. -/
theorem physmemAvail_eq (m : MemoryMap) : m.physmemAvail = m.avail :=
  availBanks_eq (Nat.zero_le _)

/-- Whatever is reported, `physmem_avail` publishes at most a segment for each entry of the two
lists, and never runs out of segments. -/
theorem physmem_avail_fits {reports : List Report} (runs : empty.reportAll reports = some m) :
    ∃ segs, m.physmemAvail = some segs ∧
      segs.length ≤ m.hwregions.length + m.exregions.length ∧
      segs.length ≤ MAX_HWCNT + MAX_EXCNT := by
  have ok := empty_ok.keeps runs
  obtain ⟨segs, published, few⟩ := ok.avail_length
  refine ⟨segs, (physmemAvail_eq m).trans published, few, ?_⟩
  have banks := ok.hwcnt
  have exclusions := ok.excnt
  omega

/-- A bank of six pages with two holes: three segments for three entries. -/
theorem physmem_avail_fits_holes : ∃ segs,
    (⟨[⟨0x40000000, 0x6000⟩], [⟨0x40001000, 0x1000⟩, ⟨0x40003000, 0x1000⟩]⟩ :
      MemoryMap).physmemAvail = some segs ∧ segs.length ≤ 1 + 2 ∧
      segs.length ≤ MAX_HWCNT + MAX_EXCNT := by
  have runs : empty.reportAll [.hardware 0x40000000 0x6000, .exclude 0x40003000 1,
      .exclude 0x40001000 1] =
        some ⟨[⟨0x40000000, 0x6000⟩], [⟨0x40001000, 0x1000⟩, ⟨0x40003000, 0x1000⟩]⟩ := by
    decide
  exact physmem_avail_fits runs

end Physmem

end Av6
