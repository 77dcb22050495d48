import Av6.PmapGrowth
import Av6.ElfPlan

/-!
# Loading an image twice

The loader adds pages to one user page table, and what it writes into them comes from the image
only: from states that differ in their free pages, it does the same.  A loader that returns a size
has mapped the pages of all segments, with the bytes of the file and zeros after them.
-/

namespace Av6

namespace Elf

open FallibleState Kmem Pmap

variable {image : Image} {s s' t t' : VmState} {live : CacheRef → Multiset Nat} {place : Place}
  {root rounds va src remaining : Nat}

/-- A read by a loader that is not watched. -/
theorem readRange_unwatched {off len : Nat} : readRange image false off len = pure () := by
  unfold readRange check
  rw [if_pos (by simp)]

theorem readRange_bindOr {α : Type} {off len : Nat} {f : Unit → Vm α}
    {Q : α → VmState → VmState → Prop} (rest : TwinOr Panic.OfMapping (f ()) s s' Q) :
    TwinOr Panic.OfMapping (readRange image false off len >>= f) s s' Q := by
  rw [readRange_unwatched]
  exact rest

/-- The bytes of a page of a segment. -/
def pageBytes (image : Image) (src remaining off : Nat) : UInt8 :=
  if off < copyNow remaining then image.bytes ((src + off) % 2 ^ 64) else 0

theorem copyFile_filled {p : Nat} : Twin (do
      modify fun s : VmState => { s with memory := zeroPage s.memory p }
      copyFile image false p src remaining : Vm Unit) t t'
    fun _ u u' => Filled p (pageBytes image src remaining) t t' u u' := by
  have zero : ∀ (m : Memory) off, off < PGSIZE → zeroPage m p p off = 0 :=
    fun m off less => if_pos ⟨rfl, less⟩
  refine .update_bind ?_
  unfold copyFile
  split
  · refine Twin.check_bind (by simp) (.update ⟨rfl, rfl, ?_, ?_⟩)
    · intro q off other
      have apart : ¬ (q = p ∧ off < copyNow remaining) := fun here => other here.1
      dsimp only [fillPage]
      rw [if_neg apart, if_neg apart, zeroPage_apply_of_ne other, zeroPage_apply_of_ne other]
      exact ⟨rfl, rfl⟩
    · intro off less
      dsimp only [fillPage, pageBytes]
      rw [zero _ off less, zero _ off less]
      simp
  · rename_i nothing
    have short : copyNow remaining = 0 := by
      obtain rfl : remaining = 0 := by omega
      rfl
    refine .ret ⟨rfl, rfl, ?_, ?_⟩
    · intro q off other
      exact ⟨zeroPage_apply_of_ne other, zeroPage_apply_of_ne other⟩
    · intro off less
      dsimp only [pageBytes]
      rw [zero _ off less, zero _ off less, short]
      simp

theorem segmentLoop_succ : segmentLoop image false root (rounds + 1) va src remaining =
    newPage root va PAGE_USER (fun p => do
        modify fun s : VmState => { s with memory := zeroPage s.memory p }
        copyFile image false p src remaining)
      (fun _ => segmentLoop image false root rounds (va + PGSIZE)
        ((src + copyNow remaining) % 2 ^ 64) (remaining - copyNow remaining))
      (return false) := by
  rw [segmentLoop]
  unfold newPage
  simp only [USER_BASE, Nat.zero_add]
  rfl

/-- The bytes of a segment: those of the file, and zeros after them. -/
def segmentByte (image : Image) (src remaining k : Nat) : UInt8 :=
  if k < remaining then image.bytes ((src + k) % 2 ^ 64) else 0

theorem pageBytes_eq {off : Nat} (less : off < PGSIZE) :
    pageBytes image src remaining off = segmentByte image src remaining off := by
  unfold pageBytes segmentByte copyNow
  congr 1
  apply propext
  split <;> omega

/-- What is left of a segment after its first page. -/
theorem segmentByte_next (k : Nat) :
    segmentByte image ((src + copyNow remaining) % 2 ^ 64) (remaining - copyNow remaining) k =
      segmentByte image src remaining (PGSIZE + k) := by
  unfold segmentByte copyNow
  by_cases short : remaining < PGSIZE
  · rw [if_pos short, if_neg (by omega), if_neg (by omega)]
  · rw [if_neg short, Nat.mod_add_mod, Nat.add_assoc]
    congr 1
    apply propext
    omega

/-- A page is mapped for the user, with these bytes. -/
def PageAt (root va : Nat) (bytes : Nat → UInt8) (place : Place) (memory : Memory) : Prop :=
  ∃ p, place (leafSlot root va) = some p ∧ Maps memory place root va p PAGE_USER ∧
    ∀ off < PGSIZE, memory p off = bytes off

theorem PageAt.extend {bytes : Nat → UInt8} {place' : Place}
    (pageAt : PageAt root va bytes place s.memory)
    (extended : Extended root live place place' s s' t t') : PageAt root va bytes place' t.memory := by
  obtain ⟨p, leaf, maps, holds⟩ := pageAt
  refine ⟨p, extended.keeps _ _ leaf, extended.maps maps leaf, fun off less => ?_⟩
  rw [← holds off less]
  exact (extended.pages _ p off leaf).1

/-- The pages from an address on are mapped, with the bytes of a segment. -/
def SegmentAt (image : Image) (root rounds va src remaining : Nat) (place : Place) (memory : Memory) :
    Prop :=
  ∀ j < rounds, PageAt root (va + j * PGSIZE)
    (fun off => segmentByte image src remaining (j * PGSIZE + off)) place memory

theorem SegmentAt.extend {place' : Place}
    (segmentAt : SegmentAt image root rounds va src remaining place s.memory)
    (extended : Extended root live place place' s s' t t') :
    SegmentAt image root rounds va src remaining place' t.memory :=
  fun j less => (segmentAt j less).extend extended

/-- The first page, and the others after it. -/
theorem SegmentAt.cons {memory : Memory}
    (first : PageAt root va (pageBytes image src remaining) place memory)
    (rest : SegmentAt image root rounds (va + PGSIZE) ((src + copyNow remaining) % 2 ^ 64)
      (remaining - copyNow remaining) place memory) :
    SegmentAt image root (rounds + 1) va src remaining place memory := by
  rintro (_ | j) less
  · obtain ⟨p, leaf, maps, holds⟩ := first
    simp only [Nat.zero_mul, Nat.add_zero, Nat.zero_add]
    exact ⟨p, leaf, maps, fun off small => (holds off small).trans (pageBytes_eq small)⟩
  · obtain ⟨p, leaf, maps, holds⟩ := rest j (by omega)
    have shift : va + (j + 1) * PGSIZE = va + PGSIZE + j * PGSIZE := by
      rw [Nat.add_mul, Nat.one_mul]
      omega
    rw [shift]
    refine ⟨p, leaf, maps, fun off small => ?_⟩
    rw [holds off small]
    dsimp only
    rw [segmentByte_next, Nat.add_mul, Nat.one_mul]
    congr 1
    omega

/-- A page number is one of the pages from an address on. -/
def Spans (va rounds v : Nat) : Prop := va ≤ v * PGSIZE ∧ v * PGSIZE < va + rounds * PGSIZE

theorem segmentLoop_twinOr (twins : Twins live place s s') (bare : place (.hand 0) = none)
    (rooted : place (.table root 0 0) = some root) (aligned : va % PGSIZE = 0) :
    TwinOr Panic.OfMapping (segmentLoop image false root rounds va src remaining) s s'
      fun r t t' => ∃ place', Extended root live place place' s s' t t' ∧ (r = true →
        SegmentAt image root rounds va src remaining place' t.memory ∧
        ∀ v, ¬ Spans va rounds v → place' (.leaf root v) = place (.leaf root v)) := by
  induction rounds generalizing place s s' va src remaining with
  | zero => exact .ret ⟨place, .refl twins, fun _ => ⟨fun _ less => absurd less (Nat.not_lt_zero _),
      fun _ _ => rfl⟩⟩
  | succ rounds ih =>
      have aligned' : (va + PGSIZE) % PGSIZE = 0 := by
        rw [Nat.add_mod_right]
        exact aligned
      rw [segmentLoop_succ]
      refine newPage_twinOr (pageBytes image src remaining) twins (safe_ofMapping _ _ _) bare rooted
        aligned attributes_user (fun p t t' _ _ => copyFile_filled) ?_ ?_
      · intro p place' u u' extended others leaf maps _ holds _
        refine (ih extended.twins (extended.hand bare) (extended.keeps _ _ rooted) aligned').mono ?_
        rintro r v v' ⟨place'', more, mapped⟩
        refine ⟨place'', extended.trans more, fun all => ?_⟩
        obtain ⟨rest, only⟩ := mapped all
        have first : PageAt root va (pageBytes image src remaining) place' u.memory :=
          ⟨p, leaf, maps, fun off less => (holds off less).1⟩
        refine ⟨.cons (first.extend more) rest, fun v outside => ?_⟩
        unfold Spans at only outside
        rw [Nat.add_mul, Nat.one_mul] at outside
        rw [only v (by unfold PGSIZE at *; omega), others v (by unfold PGSIZE at *; omega)]
      · intro place' u u' extended _ _
        refine .ret ⟨place', extended, ?_⟩
        rintro ⟨⟩

/-- The pages that a segment takes. -/
abbrev Proghdr.Covers (ph : Proghdr) (v : Nat) : Prop := Spans ph.vaddr ph.rounds v

/-- The segment of a header is mapped. -/
abbrev Proghdr.At (image : Image) (ph : Proghdr) (root : Nat) (place : Place) (memory : Memory) : Prop :=
  SegmentAt image root ph.rounds ph.vaddr ph.off ph.filesz place memory

theorem loadSegment_twinOr {ph : Proghdr} (twins : Twins live place s s')
    (bare : place (.hand 0) = none) (rooted : place (.table root 0 0) = some root) :
    TwinOr Panic.OfMapping (loadSegment image false root ph.off ph) s s' fun r t t' => ∃ place',
      Extended root live place place' s s' t t' ∧ (r = true → ph.vaddr % PGSIZE = 0 ∧
        ph.At image root place' t.memory ∧
        ∀ v, ¬ ph.Covers v → place' (.leaf root v) = place (.leaf root v)) := by
  unfold loadSegment
  split
  · exact .ret ⟨place, .refl twins, by rintro ⟨⟩⟩
  · rename_i aligned
    split
    · exact .ret ⟨place, .refl twins, by rintro ⟨⟩⟩
    · refine (segmentLoop_twinOr twins bare rooted (not_not.mp aligned)).mono ?_
      rintro r t t' ⟨place', extended, mapped⟩
      exact ⟨place', extended, fun all => ⟨not_not.mp aligned, mapped all⟩⟩

/-- The headers of the segments to load, from the header `i` on. -/
def Image.loads (image : Image) (phoff phentsize left i : Nat) : List Proghdr :=
  ((List.range' i left).map fun i => image.proghdr ((phoff + i * phentsize) % 2 ^ 64)).filter
    fun ph => ph.type = PT_LOAD

theorem Image.loads_succ (image : Image) (phoff phentsize left i : Nat) :
    image.loads phoff phentsize (left + 1) i =
      if (image.proghdr ((phoff + i * phentsize) % 2 ^ 64)).type = PT_LOAD then
        image.proghdr ((phoff + i * phentsize) % 2 ^ 64) :: image.loads phoff phentsize left (i + 1)
      else image.loads phoff phentsize left (i + 1) := by
  unfold Image.loads
  rw [List.range'_succ, List.map_cons, List.filter_cons]
  simp only [decide_eq_true_eq]

/-- The sizes in a header make sense. -/
structure Proghdr.Sound (ph : Proghdr) : Prop where
  aligned : ph.vaddr % PGSIZE = 0
  sizes : ph.filesz ≤ ph.memsz
  stop : ph.stop = ph.vaddr + ph.memsz
  inUser : ph.vaddr + ph.memsz ≤ MAXUVA

/-- All segments are mapped, and no other page has been. -/
structure LoadedAt (image : Image) (root : Nat) (phs : List Proghdr) (place place' : Place)
    (memory : Memory) : Prop where
  sound : ∀ ph ∈ phs, ph.Sound
  segments : ∀ ph ∈ phs, ph.At image root place' memory
  only : ∀ v, (∀ ph ∈ phs, ¬ ph.Covers v) → place' (.leaf root v) = place (.leaf root v)

theorem LoadedAt.nil {memory : Memory} : LoadedAt image root [] place place memory :=
  ⟨by simp, by simp, fun _ _ => rfl⟩

theorem LoadedAt.cons {ph : Proghdr} {phs : List Proghdr} {place' place'' : Place} (sound : ph.Sound)
    (here : ph.At image root place' s.memory)
    (only : ∀ v, ¬ ph.Covers v → place' (.leaf root v) = place (.leaf root v))
    (extended : Extended root live place' place'' s s' t t')
    (rest : LoadedAt image root phs place' place'' t.memory) :
    LoadedAt image root (ph :: phs) place place'' t.memory := by
  refine ⟨List.forall_mem_cons.mpr ⟨sound, rest.sound⟩,
    List.forall_mem_cons.mpr ⟨here.extend extended, rest.segments⟩, fun v outside => ?_⟩
  obtain ⟨first, others⟩ := List.forall_mem_cons.mp outside
  rw [rest.only v others, only v first]

/-- The end of the segments. -/
def lastStop (phs : List Proghdr) (maxEnd : Nat) : Nat :=
  phs.foldl (fun stop ph => max stop ph.stop) maxEnd

/-- The checks of the loader make the sizes of a header sound. -/
theorem sound_of_checks {off : Nat} (sizes : ¬ (image.proghdr off).memsz < (image.proghdr off).filesz)
    (forward : ¬ (image.proghdr off).stop < (image.proghdr off).vaddr)
    (bound : ¬ MAXUVA < (image.proghdr off).stop)
    (aligned : (image.proghdr off).vaddr % PGSIZE = 0) : (image.proghdr off).Sound := by
  have vaddr : (image.proghdr off).vaddr < 2 ^ 64 := field_lt _ 8
  have memsz : (image.proghdr off).memsz < 2 ^ 64 := field_lt _ 8
  have stop : (image.proghdr off).stop = (image.proghdr off).vaddr + (image.proghdr off).memsz := by
    unfold Proghdr.stop at *
    omega
  exact ⟨aligned, by omega, stop, by omega⟩

theorem loadLoop_twinOr {phoff phentsize left i maxEnd : Nat} (twins : Twins live place s s')
    (bare : place (.hand 0) = none) (rooted : place (.table root 0 0) = some root)
    (small : maxEnd ≤ MAXUVA) :
    TwinOr Panic.OfMapping (loadLoop image false root phoff phentsize left i maxEnd) s s'
      fun r t t' => ∃ place', Extended root live place place' s s' t t' ∧
        ∀ stop, r = some stop → stop ≤ MAXUVA ∧
          stop = lastStop (image.loads phoff phentsize left i) maxEnd ∧
          LoadedAt image root (image.loads phoff phentsize left i) place place' t.memory := by
  induction left generalizing place s s' i maxEnd with
  | zero =>
      refine .ret ⟨place, .refl twins, ?_⟩
      rintro _ ⟨⟩
      exact ⟨small, rfl, .nil⟩
  | succ left ih =>
      rw [image.loads_succ]
      generalize atOff : (phoff + i * phentsize) % 2 ^ 64 = phOff
      have stops : ∀ {phs : List Proghdr}, TwinOr Panic.OfMapping (pure none : Vm (Option Nat)) s s'
          fun r t t' => ∃ place', Extended root live place place' s s' t t' ∧
            ∀ stop, r = some stop → stop ≤ MAXUVA ∧ stop = lastStop phs maxEnd ∧
              LoadedAt image root phs place place' t.memory :=
        .ret ⟨place, .refl twins, by simp⟩
      unfold loadLoop
      rw [atOff]
      dsimp only
      split
      · exact stops
      refine readRange_bindOr ?_
      split
      · exact ih twins bare rooted small
      rename_i load
      rw [if_pos (not_not.mp load)]
      refine readRange_bindOr (readRange_bindOr ?_)
      split
      · exact stops
      rename_i sizes
      refine readRange_bindOr ?_
      split
      · exact stops
      rename_i forward
      split
      · exact stops
      rename_i bound
      refine readRange_bindOr ?_
      split
      · exact stops
      refine (loadSegment_twinOr twins bare rooted).bind ?_
      rintro (_ | _) u u' ⟨place', extended, mapped⟩
      · exact .ret ⟨place', extended, by simp⟩
      · obtain ⟨aligned, here, only⟩ := mapped rfl
        refine (ih extended.twins (extended.hand bare) (extended.keeps _ _ rooted)
          (max_le small (not_lt.mp bound))).mono ?_
        rintro r v v' ⟨place'', more, reached⟩
        refine ⟨place'', extended.trans more, fun stop some_ => ?_⟩
        obtain ⟨le, last, loaded⟩ := reached stop some_
        have sound := sound_of_checks sizes forward bound aligned
        exact ⟨le, last, .cons sound here only more loaded⟩

/-- The headers of the segments of an image. -/
def Image.segments (image : Image) : List Proghdr :=
  image.loads image.elfhdr.phoff image.elfhdr.phentsize image.elfhdr.phnum 0

/-- `loadelf` stops at an assertion, or it adds pages to the page table; if it returns a size, the
pages of the segments. -/
theorem loadelf_twinOr (twins : Twins live place s s') (bare : place (.hand 0) = none)
    (rooted : place (.table root 0 0) = some root) :
    TwinOr Panic.OfMapping (loadelf image false root) s s' fun r t t' =>
      ∃ place', Extended root live place place' s s' t t' ∧ ∀ entry sz, r = some (entry, sz) →
        sz % PGSIZE = 0 ∧ 0 < sz ∧ entry = image.elfhdr.entry ∧
        lastStop image.segments 0 ≤ MAXUVA ∧ sz = pgRoundUp (lastStop image.segments 0) ∧
        LoadedAt image root image.segments place place' t.memory := by
  have stops : TwinOr Panic.OfMapping (pure none : Vm (Option (Nat × Nat))) s s' fun r t t' =>
      ∃ place', Extended root live place place' s s' t t' ∧ ∀ entry sz, r = some (entry, sz) →
        sz % PGSIZE = 0 ∧ 0 < sz ∧ entry = image.elfhdr.entry ∧
        lastStop image.segments 0 ≤ MAXUVA ∧ sz = pgRoundUp (lastStop image.segments 0) ∧
        LoadedAt image root image.segments place place' t.memory :=
    .ret ⟨place, .refl twins, by simp⟩
  unfold loadelf
  dsimp only
  split
  · exact stops
  refine readRange_bindOr ?_
  split
  · exact stops
  split
  · exact stops
  split
  · exact stops
  refine readRange_bindOr ?_
  split
  · exact stops
  refine readRange_bindOr ?_
  split
  · exact stops
  refine readRange_bindOr ?_
  split
  · exact stops
  refine readRange_bindOr (readRange_bindOr ?_)
  refine (loadLoop_twinOr twins bare rooted (Nat.zero_le _)).bind ?_
  rintro (_ | stop) u u' ⟨place', extended, reached⟩
  · exact .ret ⟨place', extended, by simp⟩
  obtain ⟨bound, rfl, loaded⟩ := reached stop rfl
  dsimp only
  split
  · exact .ret ⟨place', extended, by simp⟩
  rename_i positive
  refine readRange_bindOr (.ret ⟨place', extended, ?_⟩)
  rintro _ _ ⟨⟩
  refine ⟨?_, ?_, rfl, bound, rfl, loaded⟩
  · exact Nat.mul_mod_left ..
  · change ¬ lastStop image.segments 0 = 0 at positive
    unfold pgRoundUp pgRoundDown PGSIZE MAXUVA at *
    change 0 < (lastStop image.segments 0 + (4096 - 1)) % 2 ^ 64 / 4096 * 4096
    change lastStop image.segments 0 ≤ 2 ^ 48 at bound
    omega

theorem le_lastStop (phs : List Proghdr) (maxEnd : Nat) : maxEnd ≤ lastStop phs maxEnd := by
  induction phs generalizing maxEnd with
  | nil => exact Nat.le_refl _
  | cons ph phs ih => exact Nat.le_trans (Nat.le_max_left _ _) (ih _)

theorem stop_le_lastStop {phs : List Proghdr} {ph : Proghdr} {maxEnd : Nat} (member : ph ∈ phs) :
    ph.stop ≤ lastStop phs maxEnd := by
  induction phs generalizing maxEnd with
  | nil => cases member
  | cons first phs ih =>
      rcases List.mem_cons.mp member with rfl | later
      · exact Nat.le_trans (Nat.le_max_right _ _) (le_lastStop phs _)
      · exact ih later

/-- A page of a segment starts before the end of the segment. -/
theorem Proghdr.Sound.covers_lt {ph : Proghdr} {v : Nat} (sound : ph.Sound) (covers : ph.Covers v) :
    v * PGSIZE < ph.stop := by
  obtain ⟨aligned, -, stop, -⟩ := sound
  unfold Proghdr.Covers Spans Proghdr.rounds PGSIZE at *
  omega

/-- In a page table that was empty, the pages of an image are below its size. -/
theorem LoadedAt.below {phs : List Proghdr} {place' : Place} {memory : Memory} {size v : Nat}
    (loadedAt : LoadedAt image root phs place place' memory) (last : size = pgRoundUp (lastStop phs 0))
    (inUser : lastStop phs 0 ≤ MAXUVA) (empty : ∀ v, place (.leaf root v) = none)
    (filled : place' (.leaf root v) ≠ none) : v * PGSIZE < size := by
  have covered : ∃ ph ∈ phs, ph.Covers v := by
    by_contra none_
    push Not at none_
    rw [loadedAt.only v none_, empty v] at filled
    exact filled rfl
  obtain ⟨ph, member, covers⟩ := covered
  have less := (loadedAt.sound ph member).covers_lt covers
  have le := @stop_le_lastStop phs ph 0 member
  rw [last]
  unfold pgRoundUp pgRoundDown PGSIZE MAXUVA at *
  omega

end Elf

end Av6
