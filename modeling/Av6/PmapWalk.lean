import Av6.PmapForest

/-!
# Walking and mapping

`walk` finds the last table on the way to an address, and with `alloc` it makes the tables that
are missing.  `mappages` puts a page below an empty entry of the last table.
-/

namespace Av6

namespace Pmap

open FallibleState Kmem

variable {kind : Slot → Prop} {s s' t t' : VmState} {live : CacheRef → Multiset Nat} {place place' : Place}
  {slot up : Slot} {root va level left page p i : Nat}

/-- Two states that hold the same placed pages, with the page tables in memory. -/
structure Twins (live : CacheRef → Multiset Nat) (place : Place) (s s' : VmState) : Prop where
  ok : VmOk s live place
  forest : Forest s.memory place
  agree : Agree place s s'

/-- Pages may have been put into empty places of a kind, and the pages of other places are as
they were. -/
structure Grown (kind : Slot → Prop) (place place' : Place) (s s' t t' : VmState) : Prop where
  keeps : ∀ slot p, place slot = some p → place' slot = some p
  only : ∀ slot, ¬ kind slot → place' slot = place slot
  words : EntriesKept place place' s.memory t.memory
  contents : ∀ slot p off, ¬ kind slot → place slot = some p →
    t.memory p off = s.memory p off ∧ t'.memory p off = s'.memory p off

theorem Grown.refl (kind : Slot → Prop) (place : Place) (s s' : VmState) :
    Grown kind place place s s' s s' :=
  ⟨fun _ _ => id, fun _ _ => rfl, fun _ _ _ _ _ _ _ _ => rfl, fun _ _ _ _ _ => ⟨rfl, rfl⟩⟩

theorem Grown.trans {place₁ place₂ place₃ : Place} {s₁ s₂ s₃ s₁' s₂' s₃' : VmState}
    (first : Grown kind place₁ place₂ s₁ s₁' s₂ s₂')
    (second : Grown kind place₂ place₃ s₂ s₂' s₃ s₃') (forest : Forest s₃.memory place₃) :
    Grown kind place₁ place₃ s₁ s₁' s₃ s₃' := by
  refine ⟨fun slot p there => second.keeps slot p (first.keeps slot p there), ?_,
    first.words.trans second.words forest ?_, ?_⟩
  · intro slot other
    rw [second.only slot other, first.only slot other]
  · intro slot filled _
    obtain ⟨p, there⟩ := Option.ne_none_iff_exists'.mp filled
    rw [there, first.keeps slot p there]
  · intro slot p off other there
    obtain ⟨same, same'⟩ := first.contents slot p off other there
    obtain ⟨next, next'⟩ := second.contents slot p off other (first.keeps slot p there)
    exact ⟨next.trans same, next'.trans same'⟩

/-- The tables on the way to an address. -/
def OnPath (root va : Nat) (slot : Slot) : Prop := ∃ level ≤ 3, slot = pathSlot root va level

theorem readPte_twin (twins : Twins live place s s') (hangs : Hangs slot up i)
    (there : place up = some page) :
    Twin (readPte page i) s s' fun r t t' => r = wordAt s.memory page i ∧ s = t ∧ s' = t' := by
  have same := twins.agree.word hangs.known_up there hangs.1
  refine ⟨wordAt s.memory page i, s, s', rfl, ?_, rfl, rfl, rfl⟩
  show Except.ok (wordAt s'.memory page i, s') = _
  rw [same]

/-- The number of tables that are missing below a level, on the way to an address. -/
def missing (place : Place) (root va : Nat) : Nat → Nat → Nat
  | 0, _ => 0
  | left + 1, level =>
      (if place (pathSlot root va (level + 1)) = none then 1 else 0)
        + missing place root va left (level + 1)

theorem missing_le (place : Place) (root va : Nat) : missing place root va 3 0 ≤ 3 := by
  simp only [missing]
  split <;> split <;> split <;> omega

theorem Forest.path_none {memory : Memory} (forest : Forest memory place) (low : level < 3)
    (bare : place (pathSlot root va level) = none) :
    place (pathSlot root va (level + 1)) = none := by
  by_contra filled
  exact forest.parent _ _ _ (hangs_path low) filled bare

theorem Forest.path_some {memory : Memory} (forest : Forest memory place) {l : Nat}
    (last : place (pathSlot root va 3) ≠ none) (low : l ≤ 3) : place (pathSlot root va l) ≠ none := by
  intro bare
  have deeper : ∀ d, l + d ≤ 3 → place (pathSlot root va (l + d)) = none := by
    intro d
    induction d with
    | zero => exact fun _ => bare
    | succ d ih => exact fun le => forest.path_none (show l + d < 3 by omega) (ih (by omega))
  have none_ := deeper (3 - l) (by omega)
  rw [show l + (3 - l) = 3 by omega] at none_
  exact last none_

theorem missing_congr (same : ∀ l, level < l → place' (pathSlot root va l) =
    place (pathSlot root va l)) : missing place' root va left level = missing place root va left level := by
  induction left generalizing level with
  | zero => rfl
  | succ left ih =>
      rw [missing, missing, same _ (Nat.lt_succ_self level), ih fun l less => same l (by omega)]

/-- `walk` without `alloc` finds the last table if it is there. -/
theorem walkLoop_find (twins : Twins live place s s') (depth : level + left = 3)
    (there : place (pathSlot root va level) = some page) :
    Twin (walkLoop va false left level page) s s' fun r t t' =>
      s = t ∧ s' = t' ∧ r = place (pathSlot root va 3) := by
  induction left generalizing level page with
  | zero =>
      obtain rfl : level = 3 := by omega
      exact .ret ⟨rfl, rfl, there.symm⟩
  | succ left ih =>
      have hangs := @hangs_path root va level (by omega)
      have entry := twins.forest.entry _ _ _ _ hangs there
      refine (readPte_twin twins hangs there).bind ?_
      rintro _ _ _ ⟨rfl, rfl, rfl⟩
      cases below : place (pathSlot root va (level + 1)) with
      | none =>
          rw [below] at entry
          rw [if_neg fun valid => entry.isValid_iff.mp valid rfl]
          refine .ret ⟨rfl, rfl, ?_⟩
          -- nothing is placed below an empty entry
          by_contra filled
          exact twins.forest.path_some (Ne.symm filled) (show level + 1 ≤ 3 by omega) below
      | some next =>
          rw [below] at entry
          rw [if_pos (entry.isValid_iff.mpr (by simp)),
            entry.ptePage_eq (twins.ok.direct_of_place below)]
          exact ih (by omega) below

theorem setWord_agree {m m' : Memory} {q off word : Nat} (same : m' q off = m q off) :
    setWord m' page i word q off = setWord m page i word q off := by
  unfold setWord
  rw [same]

theorem zeroPage_agree {m m' : Memory} {q off : Nat} (small : off < PGSIZE)
    (same : q = page ∨ m' q off = m q off) : zeroPage m' page q off = zeroPage m page q off := by
  unfold zeroPage
  split
  · rfl
  · rcases same with rfl | same
    · rename_i outside
      exact absurd ⟨rfl, small⟩ outside
    · exact same

/-- A new table has been cleared, and it is hung below an empty entry. -/
theorem Twins.link {next : Nat} (twins : Twins live place s s') (hangs : Hangs slot up i)
    (there : place up = some page) (bare : place slot = none) (taken : Taken live place next s t)
    (memory : t.memory = zeroPage s.memory next) (memory' : t'.memory = zeroPage s'.memory next)
    (kmem : t'.kmem = t.kmem) :
    Twins live (Function.update place slot (some next))
      { t with memory := setWord t.memory page i (kvaToPa next ||| PTE_VALID ||| PTE_TABLE) }
      { t' with memory := setWord t'.memory page i (kvaToPa next ||| PTE_VALID ||| PTE_TABLE) } := by
  have ok := taken.ok slot bare
  have direct : Direct next := ok.direct_of_place (Function.update_self slot _ _)
  have apart : next ≠ page := by
    rintro rfl
    exact taken.fresh up there
  rw [Nat.or_assoc, memory, memory']
  have pageWindow := (twins.ok.direct_of_place there).ne_window.symm
  refine ⟨ok.setMemory _, ?_, kmem, ?_, ?_⟩
  · refine twins.forest.relink (fun _ _ _ => twins.ok.unique) hangs there ?_ ?_ ?_ ?_ ?_
    · rw [wordAt_setWord (entry_lt direct attributes_table)]
      exact ⟨_, attributes_table, rfl⟩
    · intro slot' up' j q hangs' atUp other _
      have old : q ≠ next := by
        rintro rfl
        exact taken.fresh up' atUp
      rw [wordAt_setWord_of_ne other]
      exact wordAt_congr fun k _ => zeroPage_apply_of_ne old
    · intro i _
      rw [wordAt_setWord_of_ne (.inl pageWindow)]
      exact wordAt_congr fun k _ => zeroPage_apply_of_ne direct.ne_window.symm
    · intro child j below
      by_contra filled
      exact twins.forest.parent child slot j below filled bare
    · rintro child j _ below ⟨⟩
      rw [wordAt_setWord_of_ne (.inl apart)]
      exact wordAt_zeroPage below.1
  · intro slot' q known atSlot off small
    refine setWord_agree (zeroPage_agree small ?_)
    by_cases same : slot' = slot
    · subst same
      rw [Function.update_self] at atSlot
      cases atSlot
      exact .inl rfl
    · rw [Function.update_of_ne same] at atSlot
      exact .inr (twins.agree.contents slot' q known atSlot off small)
  · intro off small
    exact setWord_agree (zeroPage_agree small (.inr (twins.agree.window off small)))

/-- A page that has been taken is in a hand, and it alone has been written to. -/
theorem Twins.inHand {k : Nat} {m m' : Memory} (twins : Twins live place s s')
    (bare : place (.hand k) = none) (taken : Taken live place p s t) (kmem : t'.kmem = t.kmem)
    (others : ∀ q off, q ≠ p → m q off = s.memory q off)
    (others' : ∀ q off, q ≠ p → m' q off = s'.memory q off) :
    Twins live (Function.update place (.hand k) (some p)) { t with memory := m }
      { t' with memory := m' } := by
  have mapped : ∀ slot : Slot, slot.Mapped →
      Function.update place (.hand k) (some p) slot = place slot := by
    intro slot mapped
    rw [Function.update_of_ne]
    rintro rfl
    exact mapped
  have direct : Direct p := (taken.ok _ bare).direct_of_place
    (Function.update_self (Slot.hand k) _ _)
  refine ⟨(taken.ok _ bare).setMemory m, ?_, kmem, ?_, ?_⟩
  · refine twins.forest.frame (fun slot up i page hangs there => ?_) (fun i _ => ?_) mapped
    · refine wordAt_congr fun k _ => others _ _ ?_
      rintro rfl
      exact taken.fresh up there
    · exact wordAt_congr fun k _ => others _ _ direct.ne_window.symm
  · intro slot q known there off less
    rw [mapped slot known.mapped] at there
    have old : q ≠ p := by
      rintro rfl
      exact taken.fresh slot there
    dsimp only
    rw [others q off old, others' q off old]
    exact twins.agree.contents slot q known there off less
  · intro off less
    dsimp only
    rw [others _ off direct.ne_window.symm, others' _ off direct.ne_window.symm]
    exact twins.agree.window off less

/-- Nothing has been taken, and no contents have changed. -/
theorem Twins.dry (twins : Twins live place s s') (dry : Dry live place s t)
    (memory : t.memory = s.memory) (memory' : t'.memory = s'.memory) (kmem : t'.kmem = t.kmem) :
    Twins live place t t' := by
  refine ⟨dry.ok, by rw [memory]; exact twins.forest, kmem, ?_, ?_⟩
  · rw [memory, memory']
    exact twins.agree.contents
  · rw [memory, memory']
    exact twins.agree.window

theorem Grown.of_memory (memory : t.memory = s.memory) (memory' : t'.memory = s'.memory) :
    Grown kind place place s s' t t' := by
  refine ⟨fun _ _ => id, fun _ _ => rfl, fun _ _ _ _ _ _ _ _ => ?_, fun _ _ _ _ _ => ?_⟩
  · rw [memory]
  · rw [memory, memory']
    exact ⟨rfl, rfl⟩

/-- A table has been hung in. -/
theorem Grown.link {next : Nat} (word : Nat) (twins : Twins live place s s')
    (hangs : Hangs slot up i) (there : place up = some page) (kindUp : kind up) (kindSlot : kind slot)
    (bare : place slot = none) (taken : Taken live place next s t)
    (memory : t.memory = zeroPage s.memory next) (memory' : t'.memory = zeroPage s'.memory next) :
    Grown kind place (Function.update place slot (some next)) s s'
      { t with memory := setWord t.memory page i word }
      { t' with memory := setWord t'.memory page i word } := by
  refine ⟨?_, ?_, ?_, ?_⟩
  · intro slot' p atSlot
    rw [Function.update_of_ne]
    · exact atSlot
    · rintro rfl
      rw [bare] at atSlot
      cases atSlot
  · intro slot' other
    rw [Function.update_of_ne]
    rintro rfl
    exact other kindSlot
  · intro slot' up' j q hangs' atUp filled _
    have old : q ≠ next := by
      rintro rfl
      exact taken.fresh up' atUp
    dsimp only
    rw [wordAt_setWord_of_ne, memory]
    · exact wordAt_congr fun k _ => zeroPage_apply_of_ne old
    · by_contra both
      obtain ⟨rfl, rfl⟩ : q = page ∧ j = i := by tauto
      obtain rfl := twins.ok.unique atUp there
      exact filled (by rw [hangs'.slot_unique hangs, bare])
  · intro slot' p off other atSlot
    have old : p ≠ next := by
      rintro rfl
      exact taken.fresh slot' atSlot
    have notUp : p ≠ page := by
      rintro rfl
      rw [twins.ok.unique atSlot there] at other
      exact other kindUp
    dsimp only
    rw [setWord_apply_of_ne (.inl notUp), setWord_apply_of_ne (.inl notUp), memory, memory',
      zeroPage_apply_of_ne old, zeroPage_apply_of_ne old]
    exact ⟨rfl, rfl⟩

/-- `walk` with `alloc` makes the tables that are missing, while there are pages. -/
theorem walkLoop_alloc (twins : Twins live place s s') (depth : level + left = 3)
    (there : place (pathSlot root va level) = some page) :
    Twin (walkLoop va true left level page) s s' fun r t t' => ∃ place',
      Twins live place' t t' ∧ Grown (OnPath root va) place place' s s' t t' ∧
      (r = none ∧ takePages (missing place root va left level) s.kmem = none ∨
        ∃ last, r = some last ∧ place' (pathSlot root va 3) = some last ∧
          takePages (missing place root va left level) s.kmem = some t.kmem) := by
  induction left generalizing level page place s s' with
  | zero =>
      obtain rfl : level = 3 := by omega
      exact .ret ⟨place, twins, .refl .., .inr ⟨page, rfl, there, rfl⟩⟩
  | succ left ih =>
      have hangs := @hangs_path root va level (by omega)
      have entry := twins.forest.entry _ _ _ _ hangs there
      refine (readPte_twin twins hangs there).bind ?_
      rintro _ _ _ ⟨rfl, rfl, rfl⟩
      cases below : place (pathSlot root va (level + 1)) with
      | some next =>
          rw [below] at entry
          rw [if_pos (entry.isValid_iff.mpr (by simp)),
            entry.ptePage_eq (twins.ok.direct_of_place below)]
          simp only [missing, below, reduceCtorEq, if_false, Nat.zero_add]
          exact ih twins (by omega) below
      | none =>
          rw [below] at entry
          rw [if_neg fun valid => entry.isValid_iff.mp valid rfl, if_pos rfl]
          simp only [missing, below, if_true, Nat.add_comm 1]
          refine (ptalloc_twin twins.ok twins.agree.kmem).bind ?_
          rintro r t t' ⟨kmem, ⟨rfl, memory, memory', dry⟩ | ⟨next, rfl, memory, memory', taken⟩⟩
          · exact .ret ⟨place, twins.dry dry memory memory' kmem, .of_memory memory memory',
              .inl ⟨rfl, takePages_dry dry.runs⟩⟩
          · refine .update_bind ?_
            have onPath : OnPath root va (pathSlot root va level) := ⟨level, by omega, rfl⟩
            have onPath' : OnPath root va (pathSlot root va (level + 1)) :=
              ⟨level + 1, by omega, rfl⟩
            have linked := twins.link hangs there below taken memory memory' kmem
            have grown := Grown.link (kvaToPa next ||| PTE_VALID ||| PTE_TABLE) twins hangs there
              onPath onPath' below taken memory memory'
            refine (ih linked (by omega) (Function.update_self ..)).mono ?_
            rintro r u u' ⟨place', twins', grown', outcome⟩
            rw [missing_congr fun l less => Function.update_of_ne ?_ _ _] at outcome
            · rw [takePages_succ taken.runs]
              exact ⟨place', twins', grown.trans grown' twins'.forest, outcome⟩
            · unfold pathSlot
              simp only [ne_eq, Slot.table.injEq]
              omega

theorem walk_find (twins : Twins live place s s') (small : va < MAXUVA)
    (rooted : place (.table root 0 0) = some root) :
    Twin (walk root va false) s s' fun r t t' =>
      s = t ∧ s' = t' ∧ r = (place (pathSlot root va 3)).map fun last => (last, tableIndex va 3) := by
  rw [← pathSlot_zero small] at rooted
  refine .check_bind small ((walkLoop_find twins rfl rooted).bind ?_)
  rintro _ _ _ ⟨rfl, rfl, rfl⟩
  exact .ret ⟨rfl, rfl, rfl⟩

theorem walk_alloc (twins : Twins live place s s') (small : va < MAXUVA)
    (rooted : place (.table root 0 0) = some root) :
    Twin (walk root va true) s s' fun r t t' => ∃ place',
      Twins live place' t t' ∧ Grown (OnPath root va) place place' s s' t t' ∧
      (r = none ∧ takePages (missing place root va 3 0) s.kmem = none ∨
        ∃ last, r = some (last, tableIndex va 3) ∧ place' (pathSlot root va 3) = some last ∧
          takePages (missing place root va 3 0) s.kmem = some t.kmem) := by
  rw [← pathSlot_zero small] at rooted
  refine .check_bind small ((walkLoop_alloc twins rfl rooted).bind ?_)
  rintro r t t' ⟨place', twins', grown, ⟨rfl, dry⟩ | ⟨last, rfl, there, taken⟩⟩
  · exact .ret ⟨place', twins', grown, .inl ⟨rfl, dry⟩⟩
  · exact .ret ⟨place', twins', grown, .inr ⟨last, rfl, there, taken⟩⟩

/-- The page in a hand is hung below an empty entry. -/
theorem Twins.hang {k flags : Nat} (twins : Twins live place s s') (hangs : Hangs slot up i)
    (there : place up = some page) (bare : place slot = none)
    (childless : ∀ child j, ¬ Hangs child slot j)
    (inHand : place (.hand k) = some p) (attributes : Attributes flags)
    (same : slot.Known → ∀ off < PGSIZE, s'.memory p off = s.memory p off) :
    Twins live (Function.update (Function.update place (.hand k) none) slot (some p))
      { s with memory := setWord s.memory page i (kvaToPa p ||| flags) }
      { s' with memory := setWord s'.memory page i (kvaToPa p ||| flags) } := by
  have notHand : ∀ {slot : Slot}, slot.Mapped → slot ≠ .hand k := by
    rintro _ mapped rfl
    exact mapped
  have pageWindow := (twins.ok.direct_of_place there).ne_window.symm
  have released : Forest s.memory (Function.update place (.hand k) none) :=
    twins.forest.frame (fun _ _ _ _ _ _ => rfl) (fun _ _ => rfl) fun slot mapped =>
      Function.update_of_ne (notHand mapped) _ _
  have atUp : Function.update place (.hand k) none up = some page := by
    rw [Function.update_of_ne (notHand hangs.mapped_up)]
    exact there
  have unhand : ∀ {slot : Slot} {q}, Function.update place (.hand k) none slot = some q →
      place slot = some q := by
    intro slot q atSlot
    by_cases hand : slot = .hand k
    · subst hand
      rw [Function.update_self] at atSlot
      cases atSlot
    · rwa [Function.update_of_ne hand] at atSlot
  refine ⟨(twins.ok.move inHand bare).setMemory _, ?_, twins.agree.kmem, ?_, ?_⟩
  · refine released.relink ?_ hangs atUp ?_ ?_ ?_ ?_ ?_
    · intro slot slot' q atSlot atSlot'
      exact twins.ok.unique (unhand atSlot) (unhand atSlot')
    · rw [wordAt_setWord (entry_lt (twins.ok.direct_of_place inHand) attributes)]
      exact ⟨flags, attributes, rfl⟩
    · intro slot' up' j q hangs' atUp other _
      exact wordAt_setWord_of_ne other
    · intro j _
      exact wordAt_setWord_of_ne (.inl pageWindow)
    · intro child j below
      exact absurd below (childless child j)
    · intro child j next below
      exact absurd below (childless child j)
  · intro slot' q known atSlot off less
    refine setWord_agree ?_
    by_cases leaf : slot' = slot
    · subst leaf
      rw [Function.update_self] at atSlot
      cases atSlot
      exact same known off less
    · rw [Function.update_of_ne leaf] at atSlot
      exact twins.agree.contents slot' q known (unhand atSlot) off less
  · intro off less
    exact setWord_agree (twins.agree.window off less)

theorem leaf_childless (root vpn : Nat) (child : Slot) (j : Nat) :
    ¬ Hangs child (.leaf root vpn) j := by
  rintro ⟨-, _, _, ⟨_, -, same, -⟩ | ⟨same, -⟩ | ⟨same, -⟩⟩ <;> cases same

/-- One page is mapped: `mappages` takes one round. -/
theorem mappages_page {pa perm : Nat} (aligned : va % PGSIZE = 0) :
    mappages root va pa PGSIZE perm = mapLoop root perm 0 va pa := by
  have first : pgRoundDown va = va := by
    unfold pgRoundDown
    exact Nat.div_mul_cancel (Nat.dvd_of_mod_eq_zero aligned)
  have last : pgRoundDown (va + PGSIZE - 1) = va := by
    unfold pgRoundDown
    unfold PGSIZE at *
    omega
  unfold mappages
  rw [first, last]
  dsimp only
  rw [Nat.sub_self, Nat.zero_div]
  rfl

/-- `mappages` stops at an address that is out of range. -/
theorem mappages_fails {pa perm : Nat} (aligned : va % PGSIZE = 0) (high : ¬ va < MAXUVA) :
    Fails (mappages root va pa PGSIZE perm) s (.walkRange va) := by
  rw [mappages_page aligned]
  unfold mapLoop
  exact Fails.bind (Fails.check_bind high)

/-- The entry for an address leads to a page, with these attributes. -/
def Maps (memory : Memory) (place : Place) (root va p flags : Nat) : Prop :=
  ∃ table, place (pathSlot root va 3) = some table ∧
    wordAt memory table (tableIndex va 3) = kvaToPa p ||| flags

/-- `mappages` of a page in a hand, at an address that is not mapped. -/
theorem mappages_twin {k flags : Nat} (twins : Twins live place s s') (small : va < MAXUVA)
    (aligned : va % PGSIZE = 0) (rooted : place (.table root 0 0) = some root)
    (bare : place (leafSlot root va) = none) (inHand : place (.hand k) = some p)
    (attributes : Attributes flags) (same : ∀ off < PGSIZE, s'.memory p off = s.memory p off) :
    Twin (mappages root va (kvaToPa p) PGSIZE flags) s s' fun r t t' => ∃ place',
      Grown (OnPath root va) place place' s s' t t' ∧
      (r = false ∧ Twins live place' t t' ∧ takePages (missing place root va 3 0) s.kmem = none ∨
        r = true ∧ Maps t.memory place' root va p flags ∧
          Twins live (Function.update (Function.update place' (.hand k) none) (leafSlot root va)
            (some p)) t t' ∧
          takePages (missing place root va 3 0) s.kmem = some t.kmem) := by
  rw [mappages_page aligned]
  unfold mapLoop
  refine (walk_alloc twins small rooted).bind ?_
  rintro r t t' ⟨place', twins', grown, ⟨rfl, dry⟩ | ⟨last, rfl, there, taken⟩⟩
  · exact .ret ⟨place', grown, .inl ⟨rfl, twins', dry⟩⟩
  · have hangs := hangs_leaf root va
    have bare' : place' (leafSlot root va) = none := by
      rw [grown.only _ (by rintro ⟨_, -, ⟨⟩⟩)]
      exact bare
    have entry := twins'.forest.entry _ _ _ _ hangs there
    rw [bare'] at entry
    refine (readPte_twin twins' hangs there).bind ?_
    rintro _ _ _ ⟨rfl, rfl, rfl⟩
    refine .check_bind (fun valid => entry.isValid_iff.mp valid rfl) (.update_bind (.ret ?_))
    have inHand' := grown.keeps _ _ inHand
    have contents := fun off => grown.contents (.hand k) p off (by rintro ⟨_, -, ⟨⟩⟩) inHand
    have word := entry_lt (twins'.ok.direct_of_place inHand') attributes
    refine ⟨place', ?_, .inr ⟨rfl, ⟨last, there, wordAt_setWord word⟩, ?_, taken⟩⟩
    · refine ⟨grown.keeps, grown.only, ?_, ?_⟩
      · intro slot up i q hangs' atUp filled after
        rw [← grown.words slot up i q hangs' atUp filled after]
        dsimp only
        rw [wordAt_setWord_of_ne]
        by_contra both
        obtain ⟨rfl, rfl⟩ : q = last ∧ i = tableIndex va 3 := by tauto
        obtain rfl := twins'.ok.unique (grown.keeps _ _ atUp) there
        exact after (by rw [hangs'.slot_unique hangs, bare'])
      · intro slot q off other atSlot
        have notTable : q ≠ last := by
          rintro rfl
          exact other ⟨3, by omega, twins'.ok.unique (grown.keeps _ _ atSlot) there⟩
        dsimp only
        rw [setWord_apply_of_ne (.inl notTable), setWord_apply_of_ne (.inl notTable)]
        exact grown.contents slot q off other atSlot
    · refine twins'.hang hangs there bare' (leaf_childless _ _) inHand' attributes fun _ off less => ?_
      rw [(contents off).1, (contents off).2, same off less]

/-- `mappages` stops at an address that is mapped. -/
theorem mappages_remap {pa perm : Nat} (twins : Twins live place s s) (small : va < MAXUVA)
    (aligned : va % PGSIZE = 0) (rooted : place (.table root 0 0) = some root)
    (mapped : place (leafSlot root va) = some p) :
    Fails (mappages root va pa PGSIZE perm) s (.remap va) := by
  rw [mappages_page aligned]
  have hangs := hangs_leaf root va
  have third := twins.forest.parent _ _ _ hangs (by simp [mapped])
  have second := twins.forest.parent _ _ _ (@hangs_path root va 2 (by omega)) third
  have first := twins.forest.parent _ _ _ (@hangs_path root va 1 (by omega)) second
  have complete : missing place root va 3 0 = 0 := by
    simp [missing, third, second, first]
  unfold mapLoop
  refine (walk_alloc twins small rooted).bind_fails ?_
  rw [complete]
  rintro r t ⟨place', twins', grown, ⟨-, ⟨⟩⟩ | ⟨last, rfl, there, -⟩⟩
  have entry := twins'.forest.entry _ _ _ _ hangs there
  rw [grown.keeps _ _ mapped] at entry
  have valid := entry.isValid_iff.mpr (Option.some_ne_none p)
  have stops : ¬ ¬ isValid (wordAt t.memory last (tableIndex va 3)) := not_not_intro valid
  exact Yields.bind_fails (P := fun r u => r = wordAt t.memory last (tableIndex va 3) ∧ u = t)
    ⟨_, t, rfl, rfl, rfl⟩ fun r u same => by
      obtain ⟨rfl, rfl⟩ := same
      exact Fails.check_bind stops

/-- `uvmcreate` plants an empty tree. -/
theorem uvmcreate_twin (twins : Twins live place s s') :
    Twin uvmcreate s s' fun r t t' =>
      r = none ∧ kpageAlloc s.kmem = .ok (none, t.kmem) ∧ Twins live place t t' ∧
          Grown (fun _ => False) place place s s' t t' ∨
        ∃ root, r = some root ∧ place (.table root 0 0) = none ∧
          kpageAlloc s.kmem = .ok (some (root * PGSIZE), t.kmem) ∧
          Twins live (Function.update place (.table root 0 0) (some root)) t t' ∧
          Grown (· = .table root 0 0) place (Function.update place (.table root 0 0) (some root))
            s s' t t' := by
  refine (ptalloc_twin twins.ok twins.agree.kmem).mono ?_
  rintro r t t' ⟨kmem, ⟨rfl, memory, memory', dry⟩ | ⟨root, rfl, memory, memory', taken⟩⟩
  · exact .inl ⟨rfl, dry.runs, twins.dry dry memory memory' kmem, .of_memory memory memory'⟩
  · have bare : place (.table root 0 0) = none := by
      by_contra filled
      obtain ⟨p, there⟩ := Option.ne_none_iff_exists'.mp filled
      obtain ⟨-, rfl⟩ := twins.forest.root root 0 p there
      exact taken.fresh _ there
    have old : ∀ {slot q}, place slot = some q → q ≠ root := by
      rintro slot q there rfl
      exact taken.fresh slot there
    have direct : Direct root := (taken.ok _ bare).direct_of_place
      (Function.update_self (Slot.table root 0 0) _ _)
    refine .inr ⟨root, rfl, bare, taken.runs, ⟨taken.ok _ bare, ?_, kmem, ?_, ?_⟩, ?_, ?_, ?_, ?_⟩
    · refine twins.forest.plant bare ?_ ?_ ?_
      · intro i small
        rw [memory]
        exact wordAt_zeroPage small
      · intro slot up i q hangs there
        rw [memory]
        exact wordAt_congr fun k _ => zeroPage_apply_of_ne (old there)
      · intro i _
        rw [memory]
        exact wordAt_congr fun k _ => zeroPage_apply_of_ne direct.ne_window.symm
    · intro slot q known there off less
      rw [memory, memory']
      refine zeroPage_agree less ?_
      by_cases same : slot = .table root 0 0
      · subst same
        rw [Function.update_self] at there
        cases there
        exact .inl rfl
      · rw [Function.update_of_ne same] at there
        exact .inr (twins.agree.contents slot q known there off less)
    · intro off less
      rw [memory, memory']
      exact zeroPage_agree less (.inr (twins.agree.window off less))
    · intro slot q there
      rw [Function.update_of_ne]
      · exact there
      · rintro rfl
        rw [bare] at there
        cases there
    · intro slot other
      rw [Function.update_of_ne other]
    · intro slot up i q hangs atUp _ _
      rw [memory]
      exact wordAt_congr fun k _ => zeroPage_apply_of_ne (old atUp)
    · intro slot q off other there
      rw [memory, memory', zeroPage_apply_of_ne (old there), zeroPage_apply_of_ne (old there)]
      exact ⟨rfl, rfl⟩

end Pmap

end Av6
