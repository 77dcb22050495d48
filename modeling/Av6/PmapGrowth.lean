import Av6.PmapUnmap

/-!
# Growing address spaces

What `uvmalloc` does to the places of the pages.  The assertions of `walk` and `mappages` may
stop it; the page allocator's never do.
-/

namespace Av6

namespace Pmap

open FallibleState Kmem

variable {s s' t t' u u' : VmState} {live : CacheRef → Multiset Nat}
  {place place' place'' : Place} {kind kind' : Slot → Prop} {slot : Slot}
  {root va p k flags rounds : Nat} {E : Panic → Prop}

/-- The assertions of `walk` and `mappages`. -/
def Panic.OfMapping : Panic → Prop
  | .walkRange _ => True
  | .remap _ => True
  | _ => False

/-- Only places of a kind, and the pages in them, have changed. -/
structure Within (kind : Slot → Prop) (place place' : Place) (s s' t t' : VmState) : Prop where
  only : ∀ slot, ¬ kind slot → place' slot = place slot
  contents : ∀ slot p off, ¬ kind slot → place slot = some p →
    t.memory p off = s.memory p off ∧ t'.memory p off = s'.memory p off

theorem Within.refl (kind : Slot → Prop) (place : Place) (s s' : VmState) :
    Within kind place place s s' s s' :=
  ⟨fun _ _ => rfl, fun _ _ _ _ _ => ⟨rfl, rfl⟩⟩

theorem Within.left (within : Within kind place place' s s' t t') :
    Within kind place place' s s t t := by
  refine ⟨within.only, ?_⟩
  intro slot p off other there
  have same := (within.contents slot p off other there).1
  exact ⟨same, same⟩

theorem Grown.left (grown : Grown kind place place' s s' t t') :
    Grown kind place place' s s t t := by
  refine ⟨grown.keeps, grown.only, grown.words, ?_⟩
  intro slot p off other there
  have same := (grown.contents slot p off other there).1
  exact ⟨same, same⟩

theorem Within.trans {place₁ place₂ place₃ : Place} {s₁ s₂ s₃ s₁' s₂' s₃' : VmState}
    (first : Within kind place₁ place₂ s₁ s₁' s₂ s₂')
    (second : Within kind place₂ place₃ s₂ s₂' s₃ s₃') :
    Within kind place₁ place₃ s₁ s₁' s₃ s₃' := by
  refine ⟨?_, ?_⟩
  · intro slot other
    rw [second.only slot other, first.only slot other]
  · intro slot p off other there
    obtain ⟨same, same'⟩ := first.contents slot p off other there
    obtain ⟨next, next'⟩ := second.contents slot p off other (by rwa [first.only slot other])
    exact ⟨next.trans same, next'.trans same'⟩

theorem Within.mono (within : Within kind place place' s s' t t')
    (more : ∀ slot, kind slot → kind' slot) : Within kind' place place' s s' t t' :=
  ⟨fun slot other => within.only slot fun is => other (more slot is),
    fun slot p off other => within.contents slot p off fun is => other (more slot is)⟩

theorem Grown.within (grown : Grown kind place place' s s' t t') :
    Within kind place place' s s' t t' :=
  ⟨grown.only, grown.contents⟩

theorem Trimmed.within {level above : Nat} {cut : Nat → Prop} (twins : Twins live place s s')
    (trimmed : Trimmed root level above cut live place place' s s' t t') :
    Within (Slot.Of root) place place' s s' t t' := by
  refine ⟨fun slot other => trimmed.frame slot fun below => other below.of, ?_⟩
  intro slot p off other there
  refine trimmed.contents p (fun l a below atTable => ?_) off
  rw [twins.ok.unique there atTable] at other
  exact other rfl

/-- Each of two states is as good beside itself. -/
theorem Twins.left (twins : Twins live place s s') : Twins live place s s :=
  ⟨twins.ok, twins.forest, .refl _ _⟩

theorem Twins.right (twins : Twins live place s s') : Twins live place s' s' := by
  obtain ⟨ok, forest, agree⟩ := twins
  refine ⟨⟨?_, ?_, ?_⟩, ?_, .refl _ _⟩
  · rw [agree.kmem]
    exact ok.accounts
  · rw [agree.kmem]
    exact ok.held
  · rw [agree.kmem]
    exact ok.direct
  · refine forest.frame (fun slot up i page hangs there => agree.word hangs.known_up there hangs.1)
      (fun i small => ?_) fun _ _ => rfl
    unfold TABLE_ENTRIES at small
    refine wordAt_congr fun k less => agree.window _ ?_
    unfold PGSIZE
    omega

/-- The assertions that an address violates are allowed to stop a program. -/
structure Safe (E : Panic → Prop) (place : Place) (root va : Nat) : Prop where
  range : ¬ va < MAXUVA → E (.walkRange va)
  remap : place (leafSlot root va) ≠ none → E (.remap va)

theorem safe_ofMapping (place : Place) (root va : Nat) : Safe Panic.OfMapping place root va :=
  ⟨fun _ => trivial, fun _ => trivial⟩

theorem safe_of_free (small : va < MAXUVA) (free : place (leafSlot root va) = none) :
    Safe E place root va :=
  ⟨fun high => absurd small high, fun filled => absurd free filled⟩

/-- `mappages` of a page in a hand stops at an assertion, runs out of pages, or maps the page. -/
theorem mappages_twinOr (twins : Twins live place s s') (safe : Safe E place root va)
    (aligned : va % PGSIZE = 0) (rooted : place (.table root 0 0) = some root)
    (inHand : place (.hand k) = some p) (attributes : Attributes flags)
    (same : ∀ off < PGSIZE, s'.memory p off = s.memory p off) :
    TwinOr E (mappages root va (kvaToPa p) PGSIZE flags) s s' fun r t t' => ∃ place',
      Grown (OnPath root va) place place' s s' t t' ∧
      (r = false ∧ Twins live place' t t' ∧ takePages (missing place root va 3 0) s.kmem = none ∨
        r = true ∧ va < MAXUVA ∧ place (leafSlot root va) = none ∧
          Maps t.memory place' root va p flags ∧
          Twins live (Function.update (Function.update place' (.hand k) none) (leafSlot root va)
            (some p)) t t' ∧
          takePages (missing place root va 3 0) s.kmem = some t.kmem) := by
  by_cases small : va < MAXUVA
  · cases leaf : place (leafSlot root va) with
    | none =>
        refine .inr ((mappages_twin twins small aligned rooted leaf inHand attributes same).mono ?_)
        rintro r t t' ⟨place', grown, ⟨rfl, twins', dry⟩ | ⟨rfl, maps, twins', taken⟩⟩
        · exact ⟨place', grown, .inl ⟨rfl, twins', dry⟩⟩
        · exact ⟨place', grown, .inr ⟨rfl, small, rfl, maps, twins', taken⟩⟩
    | some q =>
        have first : Twins live place s s := ⟨twins.ok, twins.forest, .refl _ _⟩
        exact TwinOr.fails (safe.remap (by simp [leaf]))
          (mappages_remap first small aligned rooted leaf)
          (mappages_remap twins.right small aligned rooted leaf)
  · exact TwinOr.fails (safe.range small) (mappages_fails aligned small) (mappages_fails aligned small)

/-- Pages have been put into places of one user page table; nothing has been taken away. -/
structure Extended (root : Nat) (live : CacheRef → Multiset Nat) (place place' : Place)
    (s s' t t' : VmState) : Prop where
  twins : Twins live place' t t'
  within : Within (Slot.Of root) place place' s s' t t'
  keeps : ∀ slot p, place slot = some p → place' slot = some p
  words : EntriesKept place place' s.memory t.memory
  pages : ∀ v p off, place (.leaf root v) = some p →
    t.memory p off = s.memory p off ∧ t'.memory p off = s'.memory p off

theorem Extended.refl (twins : Twins live place s s') : Extended root live place place s s' s s' :=
  ⟨twins, .refl _ _ _ _, fun _ _ => id, fun _ _ _ _ _ _ _ _ => rfl, fun _ _ _ _ => ⟨rfl, rfl⟩⟩

theorem Extended.trans {place₁ place₂ place₃ : Place} {s₁ s₂ s₃ s₁' s₂' s₃' : VmState}
    (first : Extended root live place₁ place₂ s₁ s₁' s₂ s₂')
    (second : Extended root live place₂ place₃ s₂ s₂' s₃ s₃') :
    Extended root live place₁ place₃ s₁ s₁' s₃ s₃' := by
  refine ⟨second.twins, first.within.trans second.within,
    fun slot p there => second.keeps slot p (first.keeps slot p there),
    first.words.trans second.words second.twins.forest ?_, ?_⟩
  · intro slot filled _
    obtain ⟨p, there⟩ := Option.ne_none_iff_exists'.mp filled
    rw [there, first.keeps slot p there]
  · intro v p off there
    obtain ⟨same, same'⟩ := first.pages v p off there
    obtain ⟨next, next'⟩ := second.pages v p off (first.keeps _ _ there)
    exact ⟨next.trans same, next'.trans same'⟩

theorem Extended.hand (extended : Extended root live place place' s s' t t')
    (bare : place (.hand k) = none) : place' (.hand k) = none := by
  rw [extended.within.only (.hand k) id, bare]

theorem Extended.dry (twins : Twins live place s s') (dry : Dry live place s t)
    (memory : t.memory = s.memory) (memory' : t'.memory = s'.memory) (kmem : t'.kmem = t.kmem) :
    Extended root live place place s s' t t' := by
  have same : ∀ p off, t.memory p off = s.memory p off ∧ t'.memory p off = s'.memory p off := by
    intro p off
    rw [memory, memory']
    exact ⟨rfl, rfl⟩
  refine ⟨twins.dry dry memory memory' kmem, ⟨fun _ _ => rfl, fun _ p off _ _ => same p off⟩,
    fun _ _ => id, ?_, fun _ p off _ => same p off⟩
  intro slot up i page _ _ _ _
  rw [memory]

theorem leafSlot_page (root v : Nat) : leafSlot root (v * PGSIZE) = .leaf root v := by
  unfold leafSlot
  rw [Nat.mul_div_cancel v (by decide)]

/-- What an entry maps stays mapped. -/
theorem Extended.maps (extended : Extended root live place place' s s' t t')
    (maps : Maps s.memory place root va p flags) (leaf : place (leafSlot root va) = some p) :
    Maps t.memory place' root va p flags := by
  obtain ⟨table, path, word⟩ := maps
  refine ⟨table, extended.keeps _ _ path, ?_⟩
  rw [extended.words _ _ _ _ (hangs_leaf root va) path (by simp [leaf])
    (by simp [extended.keeps _ _ leaf]), word]

theorem onPath_of (onPath : OnPath root va slot) : slot.Of root := by
  obtain ⟨level, -, rfl⟩ := onPath
  exact rfl

/-- Only the places of one user page table have changed, and its root is there. -/
structure Changed (root : Nat) (live : CacheRef → Multiset Nat) (place place' : Place)
    (s s' t t' : VmState) : Prop where
  twins : Twins live place' t t'
  within : Within (Slot.Of root) place place' s s' t t'
  rooted : place' (.table root 0 0) = some root

theorem Extended.changed (extended : Extended root live place place' s s' t t')
    (rooted : place (.table root 0 0) = some root) : Changed root live place place' s s' t t' :=
  ⟨extended.twins, extended.within, extended.keeps _ _ rooted⟩

/-- The first of two runs, beside itself. -/
theorem Changed.left (changed : Changed root live place place' s s' t t') :
    Changed root live place place' s s t t :=
  ⟨changed.twins.left, changed.within.left, changed.rooted⟩

theorem Changed.trans {place₁ place₂ place₃ : Place} {s₁ s₂ s₃ s₁' s₂' s₃' : VmState}
    (first : Changed root live place₁ place₂ s₁ s₁' s₂ s₂')
    (second : Changed root live place₂ place₃ s₂ s₂' s₃ s₃') :
    Changed root live place₁ place₃ s₁ s₁' s₃ s₃' :=
  ⟨second.twins, first.within.trans second.within, second.rooted⟩

theorem Trimmed.changed {cut : Nat → Prop} (twins : Twins live place s s')
    (trimmed : Trimmed root 0 0 cut live place place' s s' t t')
    (rooted : place (.table root 0 0) = some root) : Changed root live place place' s s' t t' :=
  ⟨trimmed.twins, trimmed.within twins, trimmed.top.trans rooted⟩

/-- A page that has been taken is mapped, and the program goes on; or it is given back. -/
theorem mapHand_twinOr {α : Type} {next failed : Vm α} {Q : α → VmState → VmState → Prop}
    (bare : place (.hand k) = none)
    (twins : Twins live (Function.update place (.hand k) (some p)) t t')
    (before : ∀ slot q off, place slot = some q →
      t.memory q off = s.memory q off ∧ t'.memory q off = s'.memory q off)
    (safe : Safe E place root va) (aligned : va % PGSIZE = 0) (rooted : place (.table root 0 0) = some root)
    (attributes : Attributes flags) (same : ∀ off < PGSIZE, t'.memory p off = t.memory p off)
    (mapped : ∀ place' u u', Extended root live place place' s s' u u' →
      (∀ v, v ≠ va / PGSIZE → place' (.leaf root v) = place (.leaf root v)) →
      place' (leafSlot root va) = some p → Maps u.memory place' root va p flags → va < MAXUVA →
      (∀ off, u.memory p off = t.memory p off ∧ u'.memory p off = t'.memory p off) →
      takePages (missing place root va 3 0) t.kmem = some u.kmem → TwinOr E next u u' Q)
    (unmapped : ∀ place' u u', Extended root live place place' s s' u u' →
      (∀ v, place' (.leaf root v) = place (.leaf root v)) →
      takePages (missing place root va 3 0) t.kmem = none → TwinOr E failed u u' Q) :
    TwinOr E (do
      if ← mappages root va (kvaToPa p) PGSIZE flags then next
      else do
        freePage p
        failed) t t' Q := by
  have apart : ∀ {slot : Slot}, place slot ≠ none → slot ≠ .hand k := by
    rintro slot filled rfl
    exact filled bare
  have inHand : Function.update place (.hand k) (some p) (.hand k) = some p := Function.update_self ..
  have rooted' : Function.update place (.hand k) (some p) (.table root 0 0) = some root := by
    rw [Function.update_of_ne (by rintro ⟨⟩)]
    exact rooted
  have safe' : Safe E (Function.update place (.hand k) (some p)) root va := by
    refine ⟨safe.range, ?_⟩
    rw [Function.update_of_ne (by rintro ⟨⟩)]
    exact safe.remap
  have need : missing (Function.update place (.hand k) (some p)) root va 3 0 =
      missing place root va 3 0 :=
    missing_congr fun l _ => Function.update_of_ne (by rintro ⟨⟩) _ _
  refine (mappages_twinOr twins safe' aligned rooted' inHand attributes same).bind ?_
  rw [need]
  rintro r u u' ⟨place', grown, outcome⟩
  have contents : ∀ slot q off, ¬ slot.Of root → place slot = some q →
      u.memory q off = s.memory q off ∧ u'.memory q off = s'.memory q off := by
    intro slot q off other there
    have there' : Function.update place (.hand k) (some p) slot = some q := by
      rw [Function.update_of_ne (apart (by simp [there]))]
      exact there
    obtain ⟨first, first'⟩ := before slot q off there
    obtain ⟨second, second'⟩ := grown.contents slot q off (fun on => other (onPath_of on)) there'
    exact ⟨second.trans first, second'.trans first'⟩
  have keeps : ∀ slot q, place slot = some q → slot ≠ .hand k ∧ place' slot = some q := by
    intro slot q there
    have other := apart (show place slot ≠ none by simp [there])
    refine ⟨other, grown.keeps slot q ?_⟩
    rw [Function.update_of_ne other]
    exact there
  have only : ∀ slot, ¬ OnPath root va slot → slot ≠ .hand k → place' slot = place slot := by
    intro slot other notHand
    rw [grown.only slot other, Function.update_of_ne notHand]
  have words : ∀ slot up i q, Hangs slot up i → place up = some q → place slot ≠ none →
      wordAt u.memory q i = wordAt s.memory q i := by
    intro slot up i q hangs atUp filled
    obtain ⟨q', there⟩ := Option.ne_none_iff_exists'.mp filled
    have same : wordAt t.memory q i = wordAt s.memory q i :=
      wordAt_congr fun k _ => (before up q _ atUp).1
    rw [← same]
    refine grown.words slot up i q hangs ?_ ?_ (by simp [(keeps slot q' there).2])
    · rw [Function.update_of_ne (keeps up q atUp).1, atUp]
    · rwa [Function.update_of_ne (keeps slot q' there).1]
  have notOn : ∀ v, ¬ OnPath root va (.leaf root v) := by
    rintro v ⟨_, -, ⟨⟩⟩
  have pages : ∀ v q off, place (.leaf root v) = some q →
      u.memory q off = s.memory q off ∧ u'.memory q off = s'.memory q off := by
    intro v q off there
    have there' : Function.update place (.hand k) (some p) (.leaf root v) = some q := by
      rw [Function.update_of_ne (keeps _ q there).1, there]
    obtain ⟨first, first'⟩ := before _ q off there
    obtain ⟨second, second'⟩ := grown.contents _ q off (notOn v) there'
    exact ⟨second.trans first, second'.trans first'⟩
  have page := fun off => grown.contents (.hand k) p off (by rintro ⟨_, -, ⟨⟩⟩) inHand
  rcases outcome with ⟨rfl, twins', dry⟩ | ⟨rfl, small, free, ⟨table, path, word⟩, twins', taken⟩
  · rw [if_neg (by simp)]
    refine (freePage_twin twins'.ok twins'.agree.kmem (grown.keeps _ _ inHand)).bindOr ?_
    rintro - v v' ⟨memory, memory', kmem, ok⟩
    refine unmapped (Function.update place' (.hand k) none) v v'
      ⟨⟨ok, ?_, ?_⟩, ⟨?_, ?_⟩, ?_, ?_, ?_⟩ ?_ dry
    · rw [memory]
      refine twins'.forest.frame (fun _ _ _ _ _ _ => rfl) (fun _ _ => rfl) fun slot isMapped => ?_
      rw [Function.update_of_ne]
      rintro rfl
      exact isMapped
    · exact twins'.agree.shrink (fun _ _ there => (some_of_update_none there).2) memory memory' kmem
    · intro slot other
      by_cases hand : slot = .hand k
      · rw [hand, Function.update_self, bare]
      · rw [Function.update_of_ne hand, only slot (fun on => other (onPath_of on)) hand]
    · intro slot q off other there
      rw [memory, memory']
      exact contents slot q off other there
    · intro slot q there
      rw [Function.update_of_ne (keeps slot q there).1, (keeps slot q there).2]
    · intro slot up i q hangs atUp filled _
      rw [memory]
      exact words slot up i q hangs atUp filled
    · intro v q off there
      rw [memory, memory']
      exact pages v q off there
    · intro v
      rw [Function.update_of_ne (by rintro ⟨⟩), only _ (notOn v) (by rintro ⟨⟩)]
  · rw [if_pos rfl]
    have leafFree : place (leafSlot root va) = none := by
      rwa [Function.update_of_ne (by rintro ⟨⟩)] at free
    have maps : Maps u.memory (Function.update (Function.update place' (.hand k) none)
        (leafSlot root va) (some p)) root va p flags := by
      refine ⟨table, ?_, word⟩
      rw [Function.update_of_ne (by rintro ⟨⟩), Function.update_of_ne (by rintro ⟨⟩), path]
    refine mapped _ u u' ⟨twins', ⟨?_, contents⟩, ?_, fun slot up i q hangs atUp filled _ =>
      words slot up i q hangs atUp filled, pages⟩ ?_ (Function.update_self ..) maps small page taken
    · intro slot other
      rw [Function.update_of_ne (by rintro rfl; exact other rfl)]
      by_cases hand : slot = .hand k
      · rw [hand, Function.update_self, bare]
      · rw [Function.update_of_ne hand, only slot (fun on => other (onPath_of on)) hand]
    · intro slot q there
      rw [Function.update_of_ne, Function.update_of_ne (keeps slot q there).1]
      · exact (keeps slot q there).2
      · rintro rfl
        rw [leafFree] at there
        cases there
    · intro v other
      rw [Function.update_of_ne, Function.update_of_ne (by rintro ⟨⟩),
        only _ (notOn v) (by rintro ⟨⟩)]
      intro same
      exact other (Slot.leaf.inj same).2

/-- The bytes of one page have been written, the same in both runs, and nothing else. -/
structure Filled (p : Nat) (bytes : Nat → UInt8) (t t' u u' : VmState) : Prop where
  kmem : u.kmem = t.kmem
  kmem' : u'.kmem = t'.kmem
  others : ∀ q off, q ≠ p → u.memory q off = t.memory q off ∧ u'.memory q off = t'.memory q off
  page : ∀ off < PGSIZE, u.memory p off = bytes off ∧ u'.memory p off = bytes off

/-- Take a page, fill it, and map it: the form of all programs that add a page. -/
def newPage {α : Type} (root va flags : Nat) (fill : Nat → Vm Unit) (next : Nat → Vm α)
    (failed : Vm α) : Vm α := do
  match ← allocPage with
  | none => failed
  | some p => do
      fill p
      if ← mappages root va (kvaToPa p) PGSIZE flags then next p
      else do
        freePage p
        failed

theorem newPage_twinOr {α : Type} {fill : Nat → Vm Unit} {next : Nat → Vm α} {failed : Vm α}
    {Q : α → VmState → VmState → Prop} (bytes : Nat → UInt8) (twins : Twins live place s s')
    (safe : Safe E place root va) (bare : place (.hand 0) = none)
    (rooted : place (.table root 0 0) = some root) (aligned : va % PGSIZE = 0)
    (attributes : Attributes flags)
    (fills : ∀ p t t', t.memory = s.memory → t'.memory = s'.memory →
      Twin (fill p) t t' fun _ u u' => Filled p bytes t t' u u')
    (mapped : ∀ p place' u u', Extended root live place place' s s' u u' →
      (∀ v, v ≠ va / PGSIZE → place' (.leaf root v) = place (.leaf root v)) →
      place' (leafSlot root va) = some p → Maps u.memory place' root va p flags → va < MAXUVA →
      (∀ off < PGSIZE, u.memory p off = bytes off ∧ u'.memory p off = bytes off) →
      takePages (missing place root va 3 0 + 1) s.kmem = some u.kmem → TwinOr E (next p) u u' Q)
    (unmapped : ∀ place' u u', Extended root live place place' s s' u u' →
      (∀ v, place' (.leaf root v) = place (.leaf root v)) →
      takePages (missing place root va 3 0 + 1) s.kmem = none → TwinOr E failed u u' Q) :
    TwinOr E (newPage root va flags fill next failed) s s' Q := by
  refine (allocPage_twin twins.ok twins.agree.kmem).bindOr ?_
  rintro r t t' ⟨memory, memory', kmem, ⟨rfl, dry⟩ | ⟨p, rfl, taken⟩⟩
  · exact unmapped place t t' (.dry twins dry memory memory' kmem) (fun _ => rfl)
      (takePages_dry dry.runs)
  have took : takePages (missing place root va 3 0 + 1) s.kmem =
      takePages (missing place root va 3 0) t.kmem := takePages_succ taken.runs
  rw [took] at mapped unmapped
  refine (fills p t t' memory memory').bindOr ?_
  rintro - ⟨_, m⟩ ⟨_, m'⟩ ⟨rfl, rfl, others, page⟩
  rw [memory, memory'] at others
  have inHand := twins.inHand bare taken kmem (fun q off other => (others q off other).1)
    fun q off other => (others q off other).2
  have before : ∀ slot q off, place slot = some q →
      m q off = s.memory q off ∧ m' q off = s'.memory q off := by
    intro slot q off there
    refine others q off ?_
    rintro rfl
    exact taken.fresh slot there
  refine mapHand_twinOr bare inHand before safe aligned rooted attributes ?_ ?_ unmapped
  · intro off less
    exact (page off less).2.trans (page off less).1.symm
  · intro place' u u' extended others leaf maps small same
    refine mapped p place' u u' extended others leaf maps small fun off less => ?_
    exact ⟨(same off).1.trans (page off less).1, (same off).2.trans (page off less).2⟩

theorem zeroPage_filled {p : Nat} : Twin
    (modify fun s : VmState => { s with memory := zeroPage s.memory p } : Vm Unit) t t'
    fun _ u u' => Filled p (fun _ => 0) t t' u u' := by
  refine .update ⟨rfl, rfl, fun q off other => ?_, fun off less => ?_⟩
  · exact ⟨zeroPage_apply_of_ne other, zeroPage_apply_of_ne other⟩
  · have cleared := fun m : Memory => show zeroPage m p p off = 0 from if_pos ⟨rfl, less⟩
    exact ⟨cleared _, cleared _⟩

theorem pgRoundUp_aligned (aligned : va % PGSIZE = 0) (small : va ≤ MAXUVA) : pgRoundUp va = va := by
  unfold pgRoundUp pgRoundDown PGSIZE MAXUVA at *
  omega

/-- `uvmdealloc` of pages that have just been added. -/
theorem undo_twin {a start : Nat} (twins : Twins live place s s')
    (rooted : place (.table root 0 0) = some root) (aligned : a % PGSIZE = 0)
    (small : a ≤ MAXUVA) :
    Twin (do
      let _ ← uvmdealloc root a start
      return 0) s s' fun r t t' => r = 0 ∧ ∃ place', Changed root live place place' s s' t t' := by
  have bound : pgRoundUp a ≤ MAXUVA := by
    rw [pgRoundUp_aligned aligned small]
    exact small
  refine (uvmdealloc_twin twins rooted bound).bind ?_
  rintro _ t t' ⟨place', rfl, trimmed⟩
  exact .ret ⟨rfl, place', trimmed.changed twins rooted⟩

/-- The loop of `uvmalloc` adds pages, or takes back those it has added. -/
theorem allocLoop_twinOr {a start newsz : Nat} (twins : Twins live place s s')
    (bare : place (.hand 0) = none) (rooted : place (.table root 0 0) = some root)
    (aligned : a % PGSIZE = 0) (small : a ≤ MAXUVA) (enough : newsz ≤ a + rounds * PGSIZE) :
    TwinOr Panic.OfMapping (allocLoop root start newsz rounds a) s s' fun r t t' =>
      (r = 0 ∨ r = newsz) ∧ r ≤ MAXUVA ∧ ∃ place', Changed root live place place' s s' t t' := by
  induction rounds generalizing place s s' a with
  | zero =>
      refine .ret ⟨.inr rfl, by omega, place, ?_⟩
      exact (Extended.refl twins).changed rooted
  | succ rounds ih =>
      have aligned' : (a + PGSIZE) % PGSIZE = 0 := by
        rw [Nat.add_mod_right]
        exact aligned
      have attributes : Attributes PAGE_USER := attributes_user
      unfold allocLoop
      simp only [USER_BASE, Nat.zero_add]
      refine newPage_twinOr (fun _ => 0) twins (safe_ofMapping _ _ _) bare rooted aligned attributes
        (fun p t t' _ _ => zeroPage_filled) ?_ ?_
      · intro p place' u u' extended _ _ _ below _ _
        have small' : a + PGSIZE ≤ MAXUVA := by
          unfold PGSIZE MAXUVA at *
          omega
        refine (ih extended.twins (extended.hand bare) (extended.keeps _ _ rooted) aligned' small'
          (by rw [Nat.add_mul, Nat.one_mul] at enough; omega)).mono ?_
        rintro r v v' ⟨which, bound, place'', changed⟩
        exact ⟨which, bound, place'', (extended.changed rooted).trans changed⟩
      · intro place' u u' extended _ _
        refine (undo_twin extended.twins (extended.keeps _ _ rooted) aligned small).orFails.mono ?_
        rintro _ v v' ⟨rfl, place'', changed⟩
        exact ⟨.inl rfl, Nat.zero_le _, place'', (extended.changed rooted).trans changed⟩

/-- `uvmalloc` stops at an assertion, or it changes the places of one user page table only. -/
theorem uvmalloc_twinOr {oldsz newsz : Nat} (twins : Twins live place s s')
    (bare : place (.hand 0) = none) (rooted : place (.table root 0 0) = some root)
    (small : oldsz ≤ MAXUVA) :
    TwinOr Panic.OfMapping (uvmalloc root oldsz newsz) s s' fun r t t' =>
      r ≤ MAXUVA ∧ ∃ place', Changed root live place place' s s' t t' := by
  unfold uvmalloc
  split
  · exact .ret ⟨small, place, (Extended.refl twins).changed rooted⟩
  · have aligned : pgRoundUp oldsz % PGSIZE = 0 := Nat.mul_mod_left ..
    have bound : pgRoundUp oldsz ≤ MAXUVA := by
      unfold pgRoundUp pgRoundDown PGSIZE MAXUVA at *
      omega
    refine (allocLoop_twinOr twins bare rooted aligned bound ?_).mono ?_
    · unfold PGSIZE
      omega
    · rintro r t t' ⟨-, le, changed⟩
      exact ⟨le, changed⟩

end Pmap

end Av6
