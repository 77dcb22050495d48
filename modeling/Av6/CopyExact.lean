import Av6.PmapCopy
import Av6.UserStores
import Av6.ExecLimits

/-!
# A copied address space

After `uvmcopy` the copy maps what the original maps, to new pages of the same contents, and
neither user sees what the other one stores.
-/

namespace Av6

namespace Pmap

open FallibleState Kmem Exec

variable {s t : VmState} {live : CacheRef → Multiset Nat} {place place' : Place}
  {root src dst sz va p flags pte pte' : Nat}

/-- The attributes of a descriptor: all that is not the address. -/
def attributesOf (pte : Nat) : Nat := pte ^^^ pteAddr pte

/-- The second page table is a copy of the first, which is as it was. -/
structure ExactCopy (src dst : Nat) (live : CacheRef → Multiset Nat) (place place' : Place)
    (s t : VmState) : Prop where
  original : UserTree src live place' t
  copy : UserTree dst live place' t
  mapped : ∀ va, translate t.memory dst va = none ↔ translate s.memory src va = none
  same : ∀ va pte pte', translate s.memory src va = some pte → translate t.memory dst va = some pte' →
    attributesOf pte' = attributesOf pte ∧ (∀ slot, place slot ≠ some (ptePage pte')) ∧
      ∀ off < PGSIZE, t.memory (ptePage pte') off = s.memory (ptePage pte) off
  distinct : ∀ va va' pte pte', translate t.memory dst va = some pte →
    translate t.memory dst va' = some pte' → ptePage pte = ptePage pte' → va / PGSIZE = va' / PGSIZE
  places : ∀ slot, slot.Of src → place' slot = place slot
  contents : ∀ slot p off, slot.Of src → place slot = some p → t.memory p off = s.memory p off

/-- The users of two page tables store as they like, and neither sees what the other stores. -/
def Isolated (memory : Memory) (src dst : Nat) : Prop :=
  ∀ stores : List Store, (∀ store ∈ stores, store.root = src ∨ store.root = dst) →
    ∀ root, root = src ∨ root = dst → ∀ va, userByte (userStores memory stores) root va =
      userByte (userStores memory (stores.filter fun store => store.root = root)) root va

/-- What an entry maps is found by the translation of every address of the page. -/
theorem translate_of_maps (tree : UserTree root live place s) (small : va < MAXUVA)
    (leaf : place (leafSlot root va) = some p)
    (maps : Maps s.memory place root (va / PGSIZE * PGSIZE) p flags) :
    translate s.memory root va = some (kvaToPa p ||| flags) := by
  obtain ⟨table, path, word⟩ := maps
  obtain ⟨table', last, found⟩ := translate_of_leaf tree.twins tree.rooted small (by simp [leaf])
  have samePath : pathSlot root (va / PGSIZE * PGSIZE) 3 = pathSlot root va 3 := by
    unfold pathSlot
    unfold PGSIZE
    simp only [Slot.table.injEq, true_and]
    omega
  have sameIndex : tableIndex (va / PGSIZE * PGSIZE) 3 = tableIndex va 3 := by
    unfold tableIndex ptShift TABLE_ENTRIES
    unfold PGSIZE
    omega
  rw [samePath, last] at path
  cases path
  rw [found, ← word, sameIndex]

theorem attributesOf_entry (direct : Direct p) (attributes : Attributes flags) :
    attributesOf (kvaToPa p ||| flags) = flags :=
  entry_xor direct attributes

/-- The first of two runs. -/
theorem Copied.left {s' t' : VmState} {va : Nat} (copied : Copied src dst va live place place' s s' t t') :
    Copied src dst va live place place' s s t t :=
  ⟨⟨copied.extended.twins.left, copied.extended.within.left, copied.extended.keeps,
    copied.extended.words, fun v p off there =>
      ⟨(copied.extended.pages v p off there).1, (copied.extended.pages v p off there).1⟩⟩,
    copied.below, copied.ahead⟩

section

variable (tree : UserTree src live place s) (tree' : UserTree dst live place s) (apart : src ≠ dst)
  (inside : ∀ v, place (.leaf src v) ≠ none → v * PGSIZE < sz)
  (copied : Copied src dst ((sz + (PGSIZE - 1)) / PGSIZE * PGSIZE) live place place' s s t t)

include tree' copied in
theorem Copied.copy : UserTree dst live place' t :=
  ⟨copied.extended.twins, copied.extended.keeps _ _ tree'.rooted⟩

include tree copied in
theorem Copied.original : UserTree src live place' t :=
  ⟨copied.extended.twins, copied.extended.keeps _ _ tree.rooted⟩

include inside in
/-- The pages of the original are in the range that is copied. -/
theorem low_of_inside {v : Nat} (filled : place (.leaf src v) ≠ none) :
    v * PGSIZE < (sz + (PGSIZE - 1)) / PGSIZE * PGSIZE := by
  have less := inside v filled
  unfold PGSIZE at *
  omega

include inside copied in
/-- The copy has just the pages of the original. -/
theorem Copied.leaf_iff (v : Nat) : place' (.leaf dst v) = none ↔ place (.leaf src v) = none := by
  by_cases low : v * PGSIZE < (sz + (PGSIZE - 1)) / PGSIZE * PGSIZE
  · have page := copied.below v low
    unfold CopiedPage at page
    cases leaf : place (.leaf src v) with
    | none =>
        rw [leaf] at page
        exact iff_of_true page rfl
    | some q =>
        rw [leaf] at page
        obtain ⟨p, flags, -, there, -⟩ := page
        exact iff_of_false (by simp [there]) (by simp)
  · refine iff_of_true (copied.ahead v (by omega)) ?_
    by_contra filled
    exact low (low_of_inside inside filled)

include tree tree' inside copied in
theorem Copied.same (here : translate s.memory src va = some pte)
    (there : translate t.memory dst va = some pte') :
    attributesOf pte' = attributesOf pte ∧ (∀ slot, place slot ≠ some (ptePage pte')) ∧
      ∀ off < PGSIZE, t.memory (ptePage pte') off = s.memory (ptePage pte) off := by
  have copy := copied.copy tree'
  have small : va < MAXUVA := by
    by_contra high
    unfold Exec.translate at here
    rw [if_neg high] at here
    cases here
  have leaf : place (.leaf src (va / PGSIZE)) = some (ptePage pte) :=
    translate_leaf tree.twins tree.rooted here
  have page := copied.below (va / PGSIZE) (low_of_inside inside (by simp [leaf]))
  unfold CopiedPage at page
  rw [leaf] at page
  obtain ⟨p, flags, attributes, leaf', fresh, maps, maps', contents⟩ := page
  have found := translate_of_maps tree small leaf maps
  have found' := translate_of_maps copy small leaf' maps'
  have value := Option.some.inj (here.symm.trans found)
  have value' := Option.some.inj (there.symm.trans found')
  have page' : ptePage pte' = p := by
    rw [value']
    exact ptePage_entry (copy.twins.ok.direct_of_place leaf') attributes
  refine ⟨?_, by rwa [page'], by rwa [page']⟩
  rw [value', attributesOf_entry (copy.twins.ok.direct_of_place leaf') attributes, value,
    attributesOf_entry (tree.twins.ok.direct_of_place leaf) attributes]

include tree tree' apart inside copied in
theorem Copied.exact : ExactCopy src dst live place place' s t := by
  have copy := copied.copy tree'
  have off : ∀ {slot : Slot}, slot.Of src → ¬ slot.Of dst := by
    intro slot ofSrc ofDst
    cases slot with
    | table | leaf => exact apart (ofSrc.symm.trans ofDst)
    | stackTable | stack | hand | client => exact ofSrc.elim
  refine ⟨copied.original tree, copy, ?_, ?_, ?_, ?_, ?_⟩
  · intro va
    by_cases small : va < MAXUVA
    · rw [translate_eq_none_iff copy.twins copy.rooted small,
        translate_eq_none_iff tree.twins tree.rooted small]
      exact copied.leaf_iff inside _
    · unfold Exec.translate
      rw [if_neg small, if_neg small]
  · intro va pte pte' here there
    exact copied.same tree tree' inside here there
  · intro va va' pte pte' here there same
    have leaf := translate_leaf copy.twins copy.rooted here
    have leaf' := translate_leaf copy.twins copy.rooted there
    rw [same] at leaf
    have unique := copy.twins.ok.unique leaf leaf'
    exact (Slot.leaf.inj unique).2
  · intro slot ofSrc
    exact copied.extended.within.only slot (off ofSrc)
  · intro slot p k ofSrc there
    exact (copied.extended.within.contents slot p k (off ofSrc) there).1

end

/-- The bit for access from user mode is one of the attributes. -/
theorem attributesOf_access (same : attributesOf pte' = attributesOf pte) :
    pte' &&& PTE_AP_RW_ALL = pte &&& PTE_AP_RW_ALL := by
  have bit : ∀ n, (attributesOf n).testBit 6 = n.testBit 6 := by
    intro n
    unfold attributesOf pteAddr
    rw [Nat.testBit_xor, Nat.testBit_and, Nat.testBit_shiftLeft]
    simp
  have six : pte'.testBit 6 = pte.testBit 6 := by rw [← bit, same, bit]
  unfold PTE_AP_RW_ALL
  apply Nat.eq_of_testBit_eq
  intro i
  rw [Nat.one_shiftLeft, Nat.testBit_and, Nat.testBit_and, Nat.testBit_two_pow]
  by_cases at_ : 6 = i
  · rw [← at_, six]
  · simp [at_]

/-- The user of the copy reads what the user of the original read. -/
theorem ExactCopy.userByte_eq (exact_ : ExactCopy src dst live place place' s t) (va : Nat) :
    userByte t.memory dst va = userByte s.memory src va := by
  unfold userByte
  cases here : translate s.memory src va with
  | none => rw [(exact_.mapped va).mpr here]
  | some pte =>
      cases there : translate t.memory dst va with
      | none =>
          rw [(exact_.mapped va).mp there] at here
          cases here
      | some pte' =>
          obtain ⟨attributes, -, contents⟩ := exact_.same va pte pte' here there
          dsimp only
          rw [attributesOf_access attributes, contents _ (Nat.mod_lt _ (by decide))]

theorem ExactCopy.isolated (exact_ : ExactCopy src dst live place place' s t) :
    Isolated t.memory src dst := by
  intro stores roots root which va
  have rooted : ∀ root, root = src ∨ root = dst → place' (.table root 0 0) = some root := by
    rintro root (rfl | rfl)
    · exact exact_.original.rooted
    · exact exact_.copy.rooted
  exact userByte_stores exact_.copy.twins (rooted root which) stores
    (fun store member => rooted store.root (roots store member)) va

/-- `uvmcopy` copies an address space whose pages are below a size exactly, into an empty page
table, and isolates the two. -/
theorem uvmcopy_exact (tree : UserTree src live place s) (tree' : UserTree dst live place s)
    (apart : src ≠ dst) (bare : place (.hand 0) = none) (fresh : ∀ v, place (.leaf dst v) = none)
    (inside : ∀ v, place (.leaf src v) ≠ none → v * PGSIZE < sz)
    (runs : uvmcopy src dst sz s = .ok (true, t)) :
    ∃ place', ExactCopy src dst live place place' s t ∧ Isolated t.memory src dst := by
  have safe : (∀ e, Panic.OfMapping e → Panic.OfMapping e) ∨ sz ≤ MAXUVA := .inl fun _ => id
  have ends := uvmcopy_twinOr tree.twins apart bare tree.rooted tree'.rooted fresh safe
  rcases ends with ⟨e, -, fails, -⟩ | twin
  · rw [Fails, runs] at fails
    cases fails
  · obtain ⟨place', -, -, copied⟩ := twin.self.post_of_eq runs
    have copy := (copied rfl).exact tree tree' apart inside
    exact ⟨place', copy, copy.isolated⟩

/-- An address space with one page is copied. -/
theorem uvmcopy_page : ∃ src dst live place s t place', place (.leaf src 1) ≠ none ∧
    uvmcopy src dst 0x2000 s = .ok (true, t) ∧
    ExactCopy src dst live place place' s t ∧ Isolated t.memory src dst := by
  obtain ⟨live, place, src, page, v, onePage, supplies, -⟩ := exists_onePage (n := 9) (fun _ => 1)
    (by decide : 0x1000 % PGSIZE = 0) (by decide) (by decide)
  obtain ⟨r, s, -, ⟨-, dry, -⟩ | ⟨dst, -, bare, taken, twins, grown⟩⟩ :=
    (uvmcreate_twin onePage.tree.twins).self
  · exact absurd (takePages_dry (n := 0) dry) (supplies.mono (by omega))
  have source := grown.keeps _ _ onePage.tree.rooted
  have apart : src ≠ dst := by
    rintro rfl
    rw [onePage.tree.rooted] at bare
    cases bare
  have leaves : ∀ root v, Function.update place (.table dst 0 0) (some dst) (.leaf root v) =
      place (.leaf root v) := fun root v => grown.only _ (by rintro ⟨⟩)
  have empty : ∀ v, place (.leaf dst v) = none := by
    intro v
    by_contra filled
    have inTree := onePage.tree.twins.forest.below_root (show (Slot.leaf dst v).Of dst from rfl) filled
    exact filled (onePage.tree.twins.forest.bare_below (Nat.zero_le 4) bare inTree)
  have hand : Function.update place (.table dst 0 0) (some dst) (.hand 0) = none := by
    rw [grown.only _ (by rintro ⟨⟩), onePage.bare]
  have inside : ∀ v, Function.update place (.table dst 0 0) (some dst) (.leaf src v) ≠ none →
      v * PGSIZE < 0x2000 := by
    intro v filled
    by_contra high
    rw [leaves, onePage.others v] at filled
    · exact filled rfl
    · rintro rfl
      exact high (by decide)
  have small : (∀ e, Panic.OfMapping e → False) ∨ 0x2000 ≤ MAXUVA := .inr (by decide)
  obtain ⟨r, t, runs, -, -, enough, -⟩ := (uvmcopy_twinOr twins apart hand source
    (Function.update_self ..) (fun v => (leaves dst v).trans (empty v)) small).twin.self
  obtain rfl : r = true := enough (takePages_after (takePages_one taken) supplies)
  obtain ⟨place', holds⟩ := uvmcopy_exact ⟨twins, source⟩ ⟨twins, Function.update_self ..⟩ apart hand
    (fun v => (leaves dst v).trans (empty v)) inside runs
  refine ⟨src, dst, live, _, s, t, place', ?_, runs, holds⟩
  have leaf : place (.leaf src 1) = some page := onePage.leaf
  rw [leaves, leaf]
  exact Option.some_ne_none page

end Pmap

end Av6
