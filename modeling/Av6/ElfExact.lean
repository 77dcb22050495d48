import Av6.ExecLimits

/-!
# The loaded image is exact

What the user of a fresh page table sees when `loadelf` has returned a size: the segments, zeros up
to the end of their last pages, and nothing else.
-/

namespace Av6

namespace Elf

open FallibleState Kmem Pmap Exec

variable {image : Image} {s t : VmState} {live : CacheRef → Multiset Nat} {place : Place}
  {root entry sz va k : Nat} {ph : Proghdr}

/-- The size of a segment in memory, up to the end of its last page. -/
def Proghdr.extent (ph : Proghdr) : Nat := (ph.memsz + (PGSIZE - 1)) / PGSIZE * PGSIZE

/-- The user sees the image, and no other page. -/
structure ImageLoaded (image : Image) (root : Nat) (memory : Memory) (entry sz : Nat) : Prop where
  bytes : ∀ ph ∈ image.segments, ∀ k < ph.memsz, userByte memory root (ph.vaddr + k) =
    some (if k < ph.filesz then image.bytes ((ph.off + k) % 2 ^ 64) else 0)
  tails : ∀ ph ∈ image.segments, ∀ k, ph.memsz ≤ k → k < ph.extent →
    userByte memory root (ph.vaddr + k) = some 0
  others : ∀ va, (∀ ph ∈ image.segments, ¬ (ph.vaddr ≤ va ∧ va < ph.vaddr + ph.extent)) →
    translate memory root va = none
  attributes : ∀ va pte, translate memory root va = some pte →
    pte = kvaToPa (ptePage pte) ||| PAGE_USER
  entry : entry = image.elfhdr.entry
  size : ∃ ph ∈ image.segments, (∀ ph' ∈ image.segments, ph'.vaddr + ph'.memsz ≤ ph.vaddr + ph.memsz) ∧
    sz = (ph.vaddr + ph.memsz + (PGSIZE - 1)) / PGSIZE * PGSIZE

theorem Proghdr.Sound.extent_eq (sound : ph.Sound) : ph.rounds * PGSIZE = ph.extent := by
  unfold Proghdr.rounds Proghdr.extent
  rw [sound.stop, Nat.add_sub_cancel_left]

section

variable (tree : UserTree root live place t)
include tree

/-- The page of a segment that an address is in. -/
theorem Proghdr.At.userPage (sound : ph.Sound) (here : ph.At image root place t.memory)
    (less : k < ph.extent) : ∃ p, UserPage root p (ph.vaddr + k / PGSIZE * PGSIZE) live t t ∧
      t.memory p (k % PGSIZE) = segmentByte image ph.off ph.filesz k := by
  have number : k / PGSIZE < ph.rounds := by
    rw [← sound.extent_eq] at less
    exact Nat.div_lt_of_lt_mul (by rwa [Nat.mul_comm])
  obtain ⟨p, leaf, maps, holds⟩ := here (k / PGSIZE) number
  have byte := holds (k % PGSIZE) (Nat.mod_lt k (by decide))
  dsimp only at byte
  rw [Nat.div_add_mod'] at byte
  exact ⟨p, ⟨place, tree.twins, tree.rooted, leaf, maps⟩, byte⟩

omit tree in
/-- The page starts at a user address. -/
theorem Proghdr.Sound.page_start (sound : ph.Sound) (less : k < ph.extent) :
    (ph.vaddr + k / PGSIZE * PGSIZE) % PGSIZE = 0 ∧ ph.vaddr + k / PGSIZE * PGSIZE < MAXUVA ∧
      ph.vaddr + k / PGSIZE * PGSIZE + k % PGSIZE = ph.vaddr + k := by
  obtain ⟨aligned, -, -, inUser⟩ := sound
  unfold Proghdr.extent at less
  unfold PGSIZE MAXUVA at *
  omega

/-- The user sees the bytes of a segment, up to the end of its last page. -/
theorem Proghdr.At.userByte_eq (sound : ph.Sound) (here : ph.At image root place t.memory)
    (less : k < ph.extent) :
    userByte t.memory root (ph.vaddr + k) = some (segmentByte image ph.off ph.filesz k) := by
  obtain ⟨p, userPage, byte⟩ := here.userPage tree sound less
  obtain ⟨aligned, small, whole⟩ := sound.page_start less
  have seen := userPage.userByte_eq aligned small (Nat.mod_lt k (by decide))
  rw [whole, byte] at seen
  exact seen

/-- An address that is translated is in a segment. -/
theorem LoadedAt.covered {place₀ : Place} {pte : Nat}
    (loadedAt : LoadedAt image root image.segments place₀ place t.memory)
    (empty : ∀ v, place₀ (.leaf root v) = none) (found : translate t.memory root va = some pte) :
    ∃ ph ∈ image.segments, ph.vaddr ≤ va ∧ va < ph.vaddr + ph.extent := by
  have leaf := translate_leaf tree.twins tree.rooted found
  obtain ⟨ph, member, covers⟩ : ∃ ph ∈ image.segments, ph.Covers (va / PGSIZE) := by
    by_contra none_
    push Not at none_
    have bare := loadedAt.only (va / PGSIZE) none_
    rw [empty] at bare
    exact absurd (leaf.symm.trans bare) (Option.some_ne_none _)
  have sound := loadedAt.sound ph member
  have aligned := sound.aligned
  obtain ⟨low, high⟩ := covers
  rw [sound.extent_eq] at high
  refine ⟨ph, member, ?_, ?_⟩
  · unfold PGSIZE at *
    omega
  · unfold Proghdr.extent PGSIZE at *
    omega

/-- The pages of the segments have the attributes of the user. -/
theorem Proghdr.At.attributes {pte : Nat} (sound : ph.Sound)
    (here : ph.At image root place t.memory) (from_ : ph.vaddr ≤ va)
    (before : va < ph.vaddr + ph.extent) (found : translate t.memory root va = some pte) :
    pte = kvaToPa (ptePage pte) ||| PAGE_USER := by
  obtain ⟨k, rfl⟩ := Nat.exists_eq_add_of_le from_
  have less : k < ph.extent := by omega
  obtain ⟨p, userPage, -⟩ := here.userPage tree sound less
  obtain ⟨aligned, small, whole⟩ := sound.page_start less
  have seen := userPage.translate_eq aligned small (Nat.mod_lt k (by decide))
  rw [whole, found] at seen
  cases seen
  rw [ptePage_entry userPage.direct attributes_user]

end

/-- The end of the segments is the end of one of them, or the start of the search. -/
theorem lastStop_mem (phs : List Proghdr) (maxEnd : Nat) :
    lastStop phs maxEnd = maxEnd ∨ ∃ ph ∈ phs, lastStop phs maxEnd = ph.stop := by
  induction phs generalizing maxEnd with
  | nil => exact .inl rfl
  | cons first phs ih =>
      rcases ih (max maxEnd first.stop) with here | ⟨ph, member, there⟩
      · change lastStop (first :: phs) maxEnd = max maxEnd first.stop at here
        rcases Nat.le_total maxEnd first.stop with le | le
        · exact .inr ⟨first, List.mem_cons_self, here.trans (Nat.max_eq_right le)⟩
        · exact .inl (here.trans (Nat.max_eq_left le))
      · exact .inr ⟨ph, List.mem_cons_of_mem _ member, there⟩

/-- When `loadelf` returns a size, the user sees the image and no other page. -/
theorem loadelf_exact (fresh : Fresh root s)
    (runs : loadelf image false root s = .ok (some (entry, sz), t)) :
    ImageLoaded image root t.memory entry sz := by
  obtain ⟨live, place, built⟩ := fresh
  have empty : ∀ v, place (.leaf root v) = none := by
    intro v
    by_contra filled
    exact absurd ((built.leaves v).mp filled) List.not_mem_nil
  have either : TwinOr _ (loadelf image false root) s s _ :=
    loadelf_twinOr built.twins built.hand built.rooted
  rcases either with ⟨e, -, fails, -⟩ | twin
  · rw [Fails, runs] at fails
    cases fails
  obtain ⟨place', extended, loaded⟩ := twin.self.post_of_eq runs
  obtain ⟨-, positive, entry_, inUser, size, loadedAt⟩ := loaded entry sz rfl
  have tree : UserTree root live place' t := ⟨extended.twins, extended.keeps _ _ built.rooted⟩
  refine ⟨?_, ?_, ?_, ?_, entry_, ?_⟩
  · intro ph member k less
    have sound := loadedAt.sound ph member
    apply (loadedAt.segments ph member).userByte_eq tree sound
    unfold Proghdr.extent PGSIZE
    omega
  · intro ph member k from_ less
    have sound := loadedAt.sound ph member
    rw [(loadedAt.segments ph member).userByte_eq tree sound less, segmentByte, if_neg]
    have sizes := sound.sizes
    omega
  · intro va outside
    by_contra found
    obtain ⟨pte, there⟩ := Option.ne_none_iff_exists'.mp found
    obtain ⟨ph, member, inside⟩ := loadedAt.covered tree empty there
    exact outside ph member inside
  · intro va pte found
    obtain ⟨ph, member, from_, before⟩ := loadedAt.covered tree empty found
    exact (loadedAt.segments ph member).attributes tree (loadedAt.sound ph member) from_ before found
  · rcases lastStop_mem image.segments 0 with zero | ⟨ph, member, last⟩
    · rw [size, zero] at positive
      exact absurd positive (by decide)
    · refine ⟨ph, member, fun ph' member' => ?_, ?_⟩
      · rw [← (loadedAt.sound ph member).stop, ← (loadedAt.sound ph' member').stop, ← last]
        exact stop_le_lastStop member'
      · rw [size, last, ← (loadedAt.sound ph member).stop]
        rw [last] at inUser
        unfold pgRoundUp pgRoundDown PGSIZE MAXUVA at *
        omega

/-- The image of one segment, which is one page of zeros. -/
theorem loadelf_exact_plainImage : ∃ root s entry t,
    loadelf plainImage false root s = .ok (some (entry, 0x2000), t) ∧
    ImageLoaded plainImage root t.memory entry 0x2000 := by
  have need : demand [] plainImage.plan = 4 := by
    rw [plainImage_plan]
    decide
  obtain ⟨root, s, fresh, supplies⟩ := @exists_fresh 4 (by decide)
  rw [← need] at supplies
  obtain ⟨entry, t, runs⟩ := loadable_plainImage root s fresh supplies
  exact ⟨root, s, entry, t, runs, loadelf_exact fresh runs⟩

end Elf

end Av6
