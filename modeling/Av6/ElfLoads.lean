import Av6.ElfPlan
import Av6.PmapWalk

/-!
# The loader follows its plan

From a fresh page table the loader does what the plan of the image says: it ends with a
result, it reads outside of the image, or it maps a page again.
-/

namespace Av6

namespace Elf

open FallibleState Kmem Pmap

variable {image : Image} {watched : Bool} {s t : VmState} {live : CacheRef → Multiset Nat}
  {place : Place} {root va src len remaining rounds taken : Nat} {pages : List Nat}
  {a : AllocState}

/-- A page table that maps just these pages, with no other tables than they need. -/
structure Built (root : Nat) (pages : List Nat) (live : CacheRef → Multiset Nat) (place : Place)
    (s : VmState) : Prop where
  twins : Twins live place s s
  rooted : place (.table root 0 0) = some root
  inner : ∀ l < 3, ∀ above, place (.table root (l + 1) above) ≠ none ↔
    ∃ v ∈ pages, v / 2 ^ (27 - 9 * l) = above
  leaves : ∀ vpn, place (.leaf root vpn) ≠ none ↔ vpn ∈ pages
  hand : place (.hand 0) = none

theorem inside_iff (small : src < 2 ^ 64) (short : len ≤ PGSIZE) :
    image.Inside src len ↔ len = 0 ∨ src + len ≤ image.size := by
  have bound := image.size_lt
  unfold PGSIZE at short
  constructor
  · intro inside
    by_contra neither
    rw [not_or] at neither
    by_cases wraps : src + (len - 1) < 2 ^ 64
    · have last := inside (len - 1) (by omega)
      omega
    · have first := inside 0 (by omega)
      omega
  · rintro (rfl | below) k less
    · omega
    · omega

theorem path_div (va : Nat) {l : Nat} (low : l < 3) :
    va / 2 ^ (48 - 9 * (l + 1)) = va / PGSIZE / 2 ^ (27 - 9 * l) := by
  obtain rfl | rfl | rfl : l = 0 ∨ l = 1 ∨ l = 2 := by omega
  all_goals
    unfold PGSIZE
    omega

theorem Built.missing_eq (built : Built root pages live place s) (va : Nat) :
    missing place root va 3 0 = tables pages (va / PGSIZE) := by
  have level : ∀ l < 3, place (pathSlot root va (l + 1)) = none ↔
      ∀ e ∈ pages, e / 2 ^ (27 - 9 * l) ≠ va / PGSIZE / 2 ^ (27 - 9 * l) := by
    intro l low
    have iff := (built.inner l low (va / PGSIZE / 2 ^ (27 - 9 * l))).not
    rw [not_not] at iff
    unfold pathSlot
    rw [path_div va low, iff]
    push Not
    exact Iff.rfl
  have first := level 0 (by omega)
  have second := level 1 (by omega)
  have third := level 2 (by omega)
  simp only [missing, Nat.zero_add, Nat.reduceAdd] at first second third ⊢
  unfold tables
  simp only [first, second, third, List.range_succ, List.range_zero, List.nil_append,
    List.cons_append, List.filter_cons, List.filter_nil, decide_eq_true_eq]
  split <;> split <;> split <;> rfl

/-- A page has been mapped. -/
theorem Built.extend {place' : Place} {p : Nat} (built : Built root pages live place s)
    (only : ∀ slot : Slot, slot.Mapped → ¬ OnPath root va slot → place' slot = place slot)
    (rooted : place' (.table root 0 0) = some root)
    (last : place' (pathSlot root va 3) ≠ none)
    (twins : Twins live (Function.update (Function.update place' (.hand 0) none)
      (leafSlot root va) (some p)) t t) :
    Built root (va / PGSIZE :: pages) live (Function.update (Function.update place' (.hand 0) none)
      (leafSlot root va) (some p)) t := by
  have table : ∀ level above, Function.update (Function.update place' (.hand 0) none)
      (leafSlot root va) (some p) (.table root level above) = place' (.table root level above) := by
    intro level above
    rw [Function.update_of_ne (by rintro ⟨⟩), Function.update_of_ne (by rintro ⟨⟩)]
  refine ⟨twins, ?_, ?_, ?_, ?_⟩
  · rw [table]
    exact rooted
  · intro l low above
    by_cases here : above = va / PGSIZE / 2 ^ (27 - 9 * l)
    · refine iff_of_true ?_ ⟨va / PGSIZE, by simp, here.symm⟩
      rw [pathSlot, ← table] at last
      have path := twins.forest.path_some last (show l + 1 ≤ 3 by omega)
      unfold pathSlot at path
      rwa [path_div va low, ← here] at path
    · rw [table, only (.table root (l + 1) above) trivial, built.inner l low]
      · constructor
        · rintro ⟨v, there, eq⟩
          exact ⟨v, by simp [there], eq⟩
        · rintro ⟨v, there, rfl⟩
          rcases List.mem_cons.mp there with rfl | there
          · exact absurd rfl here
          · exact ⟨v, there, rfl⟩
      · rintro ⟨level, -, same⟩
        simp only [pathSlot, Slot.table.injEq, true_and] at same
        obtain ⟨rfl, same⟩ := same
        rw [path_div va low] at same
        exact here same
  · intro vpn
    by_cases here : vpn = va / PGSIZE
    · subst here
      refine iff_of_true ?_ (by simp)
      rw [show Slot.leaf root (va / PGSIZE) = leafSlot root va from rfl, Function.update_self]
      exact Option.some_ne_none p
    · have other : Slot.leaf root vpn ≠ leafSlot root va := by
        unfold leafSlot
        simpa using here
      rw [Function.update_of_ne other, Function.update_of_ne (by rintro ⟨⟩),
        only (.leaf root vpn) trivial, built.leaves]
      · simp [here]
      · rintro ⟨level, -, ⟨⟩⟩
  · rw [Function.update_of_ne (by rintro ⟨⟩), Function.update_self]

/-- A program ends as the plan says; `done` holds after the whole plan, `dry` when there was
no page. -/
def Ends {α : Type} (m : Vm α) (s : VmState) (done : List Nat → Nat → α → VmState → Prop)
    (dry : α → Prop) : Fate → Prop
  | .built pages taken => Yields m s (done pages taken)
  | .dry => Yields m s fun r _ => dry r
  | .outside => ∃ off len, Fails m s (.imageOutside off len)
  | .remap => ∃ va, Fails m s (.remap va)

section

variable {α β : Type} {m : Vm α} {done : List Nat → Nat → α → VmState → Prop} {dry : α → Prop}
  {outcome : Fate}

theorem Ends.bind {f : β → Vm α} {first : Vm β} {P : β → VmState → Prop} (yields : Yields first s P)
    (rest : ∀ r t, P r t → Ends (f r) t done dry outcome) :
    Ends (first >>= f) s done dry outcome := by
  obtain ⟨r, t, runs, holds⟩ := yields
  have after := rest r t holds
  have same : (first >>= f) s = f r t := bind_eq_of_ok runs
  cases outcome with
  | built pages taken =>
      obtain ⟨b, u, runs', holds'⟩ := after
      exact ⟨b, u, same.trans runs', holds'⟩
  | dry =>
      obtain ⟨b, u, runs', holds'⟩ := after
      exact ⟨b, u, same.trans runs', holds'⟩
  | outside =>
      obtain ⟨off, len, fails⟩ := after
      exact ⟨off, len, same.trans fails⟩
  | remap =>
      obtain ⟨va, fails⟩ := after
      exact ⟨va, same.trans fails⟩

theorem Ends.mono {done' : List Nat → Nat → α → VmState → Prop} (ends : Ends m s done dry outcome)
    (weaker : ∀ pages taken r t, done pages taken r t → done' pages taken r t) :
    Ends m s done' dry outcome := by
  cases outcome with
  | built pages taken => exact Yields.mono ends fun r t => weaker pages taken r t
  | dry => exact ends
  | outside => exact ends
  | remap => exact ends

theorem Ends.outside {off len : Nat} (fails : Fails m s (.imageOutside off len)) :
    Ends m s done dry .outside :=
  ⟨off, len, fails⟩

theorem Ends.remap (fails : Fails m s (.remap va)) : Ends m s done dry .remap :=
  ⟨va, fails⟩

end

/-- The loop over the pages of a segment ends as the plan says. -/
def Follows (root : Nat) (a : AllocState) (m : Vm Bool) (s : VmState) (outcome : Fate) : Prop :=
  Ends m s (fun pages taken r t => r = true ∧ (∃ live place, Built root pages live place t) ∧
    takePages taken a = some t.kmem) (· = false) outcome

theorem copyNow_le (remaining : Nat) : copyNow remaining ≤ PGSIZE := by
  unfold copyNow
  split <;> omega

theorem strays_iff (small : src < 2 ^ 64) : (Event.page va src (copyNow remaining)).Strays image ↔
    ¬ image.Inside src (copyNow remaining) := by
  rw [inside_iff small (copyNow_le remaining), Event.Strays]
  omega

/-- The copy is made, unless a watched loader would read outside of the image. -/
theorem copyFile_yields {p : Nat} (small : src < 2 ^ 64)
    (stays : ¬ (watched ∧ (Event.page va src (copyNow remaining)).Strays image)) :
    Yields (copyFile image watched p src remaining) s fun _ t => ∃ m, t = { s with memory := m } ∧
      ∀ q off, q ≠ p → m q off = s.memory q off := by
  unfold copyFile
  split
  · refine .check_bind ?_ (.update ⟨_, rfl, ?_⟩)
    · intro watching
      by_contra outside
      exact stays ⟨watching, (strays_iff small).mpr outside⟩
    · intro q off other
      exact if_neg fun here => other here.1
  · exact .ret ⟨s.memory, rfl, fun _ _ _ => rfl⟩

theorem copyFile_fails {p : Nat} (small : src < 2 ^ 64) (watching : watched)
    (strays : (Event.page va src (copyNow remaining)).Strays image) :
    Fails (copyFile image watched p src remaining) s (.imageOutside src (copyNow remaining)) := by
  have positive : 0 < remaining := by
    have length := strays.1
    unfold copyNow at length
    split at length
    · exact length
    · unfold PGSIZE at *
      omega
  unfold copyFile
  rw [if_pos positive]
  exact Fails.check_bind fun inside => (strays_iff small).mp strays (inside watching)

/-- A page in the hand is mapped, and the loop goes on; or it is given back. -/
theorem mapped_follows {p : Nat} {rest : Vm Bool} {events : List Event}
    (built : Built root pages live place s)
    (twins : Twins live (Function.update place (.hand 0) (some p)) t t)
    (took : takePages (taken + 1) a = some t.kmem) (small : va < MAXUVA)
    (aligned : va % PGSIZE = 0)
    (goesOn : va / PGSIZE ∉ pages → ∀ place' u, Built root (va / PGSIZE :: pages) live place' u →
      takePages (taken + 1 + tables pages (va / PGSIZE)) a = some u.kmem →
      Follows root a rest u (fate image watched a events (va / PGSIZE :: pages)
        (taken + 1 + tables pages (va / PGSIZE)))) :
    Follows root a (do
      if ← mappages root (USER_BASE + va) (kvaToPa p) PGSIZE PAGE_USER then rest
      else do
        freePage p
        return false) t
      (if va / PGSIZE ∈ pages then .remap
       else if ¬ Supplies a (taken + 1 + tables pages (va / PGSIZE)) then .dry
       else fate image watched a events (va / PGSIZE :: pages)
         (taken + 1 + tables pages (va / PGSIZE))) := by
  rw [USER_BASE, Nat.zero_add]
  have mapped : ∀ slot : Slot, slot.Mapped →
      Function.update place (.hand 0) (some p) slot = place slot := by
    intro slot isMapped
    rw [Function.update_of_ne]
    rintro rfl
    exact isMapped
  have rooted : Function.update place (.hand 0) (some p) (.table root 0 0) = some root := by
    rw [mapped (.table root 0 0) trivial]
    exact built.rooted
  have leaf := mapped (leafSlot root va) trivial
  by_cases there : va / PGSIZE ∈ pages
  · rw [if_pos there]
    obtain ⟨q, mapped⟩ := Option.ne_none_iff_exists'.mp ((built.leaves _).mpr there)
    exact .remap (mappages_remap twins small aligned rooted (leaf.trans mapped)).bind
  · rw [if_neg there]
    have bare : place (leafSlot root va) = none := by
      by_contra filled
      exact there ((built.leaves _).mp filled)
    have need : missing (Function.update place (.hand 0) (some p)) root va 3 0 =
        tables pages (va / PGSIZE) := by
      rw [← built.missing_eq va]
      exact missing_congr fun l _ => mapped (pathSlot root va l) trivial
    have more : takePages (taken + 1 + tables pages (va / PGSIZE)) a =
        takePages (tables pages (va / PGSIZE)) t.kmem := by
      rw [takePages_add, took, Option.bind_some]
    refine Ends.bind (mappages_twin twins small aligned rooted (leaf.trans bare)
      (Function.update_self ..) attributes_user fun _ _ => rfl).self ?_
    rw [need]
    rintro r u ⟨place', grown, ⟨rfl, twins', dry⟩ | ⟨rfl, ⟨table, there', -⟩, twins', all⟩⟩
    · rw [if_pos (not_supplies (more.trans dry)), if_neg (by simp)]
      have inHand := grown.keeps (.hand 0) p (Function.update_self ..)
      exact (freePage_twin twins'.ok rfl inHand).self.bind fun _ _ _ => .ret rfl
    · rw [if_neg (not_not_intro (supplies_of_eq (more.trans all))), if_pos rfl]
      refine goesOn there _ u (built.extend ?_ (grown.keeps _ _ rooted) (by simp [there']) twins') (more.trans all)
      intro slot isMapped off
      rw [grown.only slot off, mapped slot isMapped]

/-- The pages of a segment are mapped as the plan says. -/
theorem segmentLoop_follows (built : Built root pages live place s)
    (took : takePages taken a = some s.kmem) (aligned : va % PGSIZE = 0)
    (below : va + rounds * PGSIZE ≤ MAXUVA) (small : src < 2 ^ 64) :
    Follows root a (segmentLoop image watched root rounds va src remaining) s
      (fate image watched a (planPages rounds va src remaining) pages taken) := by
  induction rounds generalizing pages live place s taken va src remaining with
  | zero => exact Yields.ret ⟨rfl, ⟨live, place, built⟩, took⟩
  | succ rounds ih =>
      have vaSmall : va < MAXUVA := by
        unfold MAXUVA PGSIZE at *
        omega
      have next : takePages (taken + 1) a = takePages 1 s.kmem := by
        rw [takePages_add, took, Option.bind_some]
      rw [planPages, fate]
      refine Ends.bind (allocPage_twin built.twins.ok rfl).self ?_
      rintro r t ⟨memory, -, -, ⟨rfl, dry⟩ | ⟨p, rfl, taking⟩⟩
      · rw [if_pos (not_supplies (next.trans (takePages_dry dry.runs)))]
        exact Yields.ret rfl
      · have took' : takePages (taken + 1) a = some t.kmem :=
          next.trans (takePages_succ taking.runs)
        rw [if_neg (not_not_intro (supplies_of_eq took'))]
        refine Ends.bind
          (Yields.update (Q := fun _ u => u = { t with memory := zeroPage t.memory p }) rfl) ?_
        rintro - _ rfl
        by_cases strays : watched ∧ (Event.page va src (copyNow remaining)).Strays image
        · rw [if_pos strays]
          exact .outside (copyFile_fails small strays.1 strays.2).bind
        · rw [if_neg strays]
          refine Ends.bind (copyFile_yields small strays) ?_
          rintro - _ ⟨m, rfl, others⟩
          have cleared : ∀ q off, q ≠ p → m q off = s.memory q off := by
            intro q off other
            rw [others q off other]
            dsimp only
            rw [zeroPage_apply_of_ne other, memory]
          have inHand : Twins live (Function.update place (.hand 0) (some p))
              { t with memory := m } { t with memory := m } :=
            built.twins.inHand built.hand taking rfl cleared cleared
          refine mapped_follows built inHand took' vaSmall aligned ?_
          intro _ place' u built' took''
          refine ih built' took'' ?_ ?_ (Nat.mod_lt _ (by decide))
          · rw [Nat.add_mod_right]
            exact aligned
          · rw [Nat.succ_mul] at below
            omega

/-- After a segment the plan goes on, if the segment has been mapped. -/
theorem Follows.bind {α : Type} {m : Vm Bool} {f : Bool → Vm α} {dry : α → Prop}
    {done : List Nat → Nat → α → VmState → Prop} {events : List Event} {outcome : Fate}
    (follows : Follows root a m s outcome)
    (rest : ∀ pages taken live place t, Built root pages live place t →
      takePages taken a = some t.kmem →
      Ends (f true) t done dry (fate image watched a events pages taken))
    (none_ : ∀ t, Yields (f false) t fun r _ => dry r) :
    Ends (m >>= f) s done dry (outcome.andThen (fate image watched a events)) := by
  cases outcome with
  | built pages taken =>
      refine Ends.bind follows ?_
      rintro _ t ⟨rfl, ⟨live, place, built⟩, took⟩
      exact rest pages taken live place t built took
  | dry =>
      refine Ends.bind follows ?_
      rintro _ t rfl
      exact none_ t
  | outside =>
      obtain ⟨off, len, fails⟩ := follows
      exact .outside fails.bind
  | remap =>
      obtain ⟨va, fails⟩ := follows
      exact .remap fails.bind

theorem header_strays_iff {off : Nat} (small : off < 2 ^ 64)
    (passed : (off + PROGHDR_SIZE) % 2 ^ 64 ≤ image.size) :
    (Event.header off).Strays image ↔ ¬ image.Inside off 4 := by
  have bound := image.size_lt
  rw [inside_iff small (by decide), Event.Strays]
  unfold PROGHDR_SIZE at *
  omega

/-- The other fields of a header that has been read lie in the image. -/
theorem field_inside {off c : Nat} (stays : ¬ (watched ∧ (Event.header off).Strays image))
    (within : c + 8 ≤ PROGHDR_SIZE) (watching : watched) : image.Inside (off + c) 8 := by
  have bound := image.size_lt
  have inside : off + PROGHDR_SIZE ≤ image.size := by
    by_contra outside
    exact stays ⟨watching, Nat.lt_of_not_le outside⟩
  intro k less
  omega

/-- Bytes of the image are read. -/
theorem Ends.read {α : Type} {f : Unit → Vm α} {done : List Nat → Nat → α → VmState → Prop}
    {dry : α → Prop} {outcome : Fate} {off : Nat} (inside : watched → image.Inside off len)
    (rest : Ends (f ()) s done dry outcome) :
    Ends (readRange image watched off len >>= f) s done dry outcome := by
  refine Ends.bind (P := fun _ t => t = s) ?_ ?_
  · unfold readRange check
    rw [if_pos inside]
    exact .ret rfl
  · rintro - _ rfl
    exact rest

/-- The loop over the program headers has come to its end: it returns the end of the segments,
and the pages of the plan are mapped below it. -/
def Reached (root : Nat) (a : AllocState) (events : List Event) (maxEnd : Nat) (pages : List Nat)
    (taken : Nat) (r : Option Nat) (t : VmState) : Prop :=
  ∀ stop, r = some stop → maxEnd ≤ stop ∧ stop ≤ MAXUVA ∧
    (∀ v ∈ pagesOf events, v * PGSIZE < stop) ∧ (∃ live place, Built root pages live place t) ∧
    takePages taken a = some t.kmem

/-- The loop over the program headers ends as the plan says. -/
theorem loadLoop_ends {phoff phentsize left i maxEnd : Nat} (built : Built root pages live place s)
    (took : takePages taken a = some s.kmem) (low : maxEnd ≤ MAXUVA) :
    Ends (loadLoop image watched root phoff phentsize left i maxEnd) s
      (Reached root a (image.planFrom phoff phentsize left i) maxEnd) (· = none)
      (fate image watched a (image.planFrom phoff phentsize left i) pages taken) := by
  induction left generalizing pages live place s taken i maxEnd with
  | zero =>
      refine Yields.ret ?_
      rintro _ ⟨⟩
      exact ⟨le_refl _, low, by simp [Image.planFrom, pagesOf], ⟨live, place, built⟩, took⟩
  | succ left ih =>
      have rejected : ∀ {events pages taken}, Yields (pure none : Vm (Option Nat)) s
          (Reached root a events maxEnd pages taken) := by
        intro events pages taken
        refine .ret ?_
        rintro _ ⟨⟩
      rw [loadLoop, Image.planFrom]
      generalize phOffEq : (phoff + i * phentsize) % 2 ^ 64 = phOff
      have small : phOff < 2 ^ 64 := by omega
      dsimp only
      split
      · exact rejected
      · rename_i passed
        rw [Nat.not_lt] at passed
        rw [fate]
        by_cases strays : watched ∧ (Event.header phOff).Strays image
        · rw [if_pos strays]
          exact .outside (Fails.check_bind fun inside =>
            (header_strays_iff small passed).mp strays.2 (inside strays.1))
        · rw [if_neg strays]
          refine Ends.read ?_ ?_
          · intro watching
            by_contra outside
            exact strays ⟨watching, (header_strays_iff small passed).mpr outside⟩
          · generalize phEq : image.proghdr phOff = ph
            split
            · exact ih built took low
            · refine Ends.read (field_inside strays (by decide))
                (Ends.read (field_inside strays (by decide)) ?_)
              by_cases accepts : image.Accepts ph
              · obtain ⟨sizes, forward, within, range, aligned⟩ := id accepts
                rw [if_pos accepts, fate_append, if_neg (by omega)]
                refine Ends.read (field_inside strays (by decide)) ?_
                rw [if_neg (by omega), if_neg (by omega)]
                refine Ends.read (field_inside strays (by decide)) ?_
                have offSmall : ph.off < 2 ^ 64 := by
                  rw [← phEq]
                  exact field_lt _ 8
                rw [if_neg (by omega), loadSegment, if_neg (by omega), if_neg (by omega)]
                have below : ph.vaddr + ph.rounds * PGSIZE ≤ MAXUVA := by
                  unfold Proghdr.rounds PGSIZE MAXUVA at *
                  omega
                refine (segmentLoop_follows built took aligned below offSmall).bind ?_ ?_
                · intro pages taken live place t built took
                  refine (ih built took (max_le low within)).mono ?_
                  intro pages' taken' r u reached stop some_
                  obtain ⟨le, high, inside, rest⟩ := reached stop some_
                  refine ⟨le_trans (le_max_left _ _) le, high, fun v there => ?_, rest⟩
                  rw [pagesOf, List.filterMap_cons_none rfl, List.filterMap_append,
                    List.mem_append] at there
                  rcases there with here | later
                  · -- the last page of the segment starts below its end
                    have less := planPages_lt aligned here
                    have ends := le_trans (le_max_right _ _) le
                    unfold Proghdr.rounds PGSIZE at *
                    omega
                  · exact inside v later
                · exact fun t => .ret rfl
              · rw [if_neg accepts]
                split
                · exact rejected
                · refine Ends.read (field_inside strays (by decide)) ?_
                  split
                  · exact rejected
                  · split
                    · exact rejected
                    · refine Ends.read (field_inside strays (by decide)) ?_
                      split
                      · exact rejected
                      · have misaligned : ph.vaddr % PGSIZE ≠ 0 := by
                          intro aligned
                          exact accepts ⟨by omega, by omega, by omega, by omega, aligned⟩
                        rw [loadSegment, if_pos misaligned]
                        exact rejected

theorem elfhdr_inside {off : Nat} (whole : ELFHDR_SIZE ≤ image.size)
    (within : off + len ≤ ELFHDR_SIZE) : image.Inside off len := by
  intro k less
  have bound := image.size_lt
  omega

/-- What comes after the plan has been followed runs to its end. -/
theorem Ends.andThen {α β : Type} {m : Vm α} {f : α → Vm β} {outcome : Fate}
    {done : List Nat → Nat → α → VmState → Prop} {done' : List Nat → Nat → β → VmState → Prop}
    {dry : α → Prop} {dry' : β → Prop} (ends : Ends m s done dry outcome)
    (rest : ∀ pages taken r t, done pages taken r t → Yields (f r) t (done' pages taken))
    (none_ : ∀ r t, dry r → Yields (f r) t fun r _ => dry' r) :
    Ends (m >>= f) s done' dry' outcome := by
  cases outcome with
  | built pages taken => exact Yields.bind ends fun r t => rest pages taken r t
  | dry => exact Yields.bind ends fun r t => none_ r t
  | outside =>
      obtain ⟨off, len, fails⟩ := ends
      exact .outside fails.bind
  | remap =>
      obtain ⟨va, fails⟩ := ends
      exact .remap fails.bind

/-- An image has been loaded: the pages of the plan are mapped below the size. -/
def LoadedTo (root : Nat) (a : AllocState) (events : List Event) (pages : List Nat) (taken : Nat)
    (r : Option (Nat × Nat)) (t : VmState) : Prop :=
  ∀ entry sz, r = some (entry, sz) → (∀ v ∈ pagesOf events, v * PGSIZE < sz) ∧
    (∃ live place, Built root pages live place t) ∧ takePages taken a = some t.kmem

/-- `loadelf` ends as the plan says. -/
theorem loadelf_ends (built : Built root [] live place s) :
    Ends (loadelf image watched root) s (LoadedTo root s.kmem image.plan) (· = none)
      (fate image watched s.kmem image.plan [] 0) := by
  have rejected : ∀ {events pages taken} {t : VmState},
      Yields (pure none : Vm (Option (Nat × Nat))) t (LoadedTo root s.kmem events pages taken) := by
    intro events pages taken t
    refine .ret ?_
    rintro _ _ ⟨⟩
  unfold loadelf
  by_cases whole : ELFHDR_SIZE ≤ image.size
  · have read : ∀ {off len}, off + len ≤ ELFHDR_SIZE → watched → image.Inside off len :=
      fun within _ => elfhdr_inside whole within
    rw [if_neg (by omega)]
    refine Ends.read (read (by decide)) ?_
    by_cases accepted : image.elfhdr.Accepted
    · rw [show image.plan = _ from if_pos ⟨whole, accepted⟩]
      obtain ⟨magic, class_, data, machine, type, phentsize⟩ := accepted
      rw [if_neg (not_not_intro magic), if_neg (not_not_intro class_), if_neg (not_not_intro data)]
      refine Ends.read (read (by decide)) ?_
      rw [if_neg (not_not_intro machine)]
      refine Ends.read (read (by decide)) ?_
      rw [if_neg (not_not_intro type)]
      refine Ends.read (read (by decide)) ?_
      rw [if_neg (not_not_intro phentsize)]
      refine Ends.read (read (by decide)) (Ends.read (read (by decide)) ?_)
      refine (loadLoop_ends built rfl (Nat.zero_le _)).andThen ?_ ?_
      · rintro pages taken (_ | maxEnd) t reached
        · exact rejected
        · dsimp only
          split
          · exact rejected
          · refine .check_bind (read (by decide)) (.ret ?_)
            rintro _ _ ⟨⟩
            obtain ⟨-, high, below, rest⟩ := reached maxEnd rfl
            refine ⟨fun v there => lt_of_lt_of_le (below v there) ?_, rest⟩
            unfold pgRoundUp pgRoundDown PGSIZE MAXUVA at *
            omega
      · rintro _ t rfl
        exact .ret rfl
    · rw [show image.plan = [] from if_neg fun both => accepted both.2]
      split
      · exact rejected
      · split
        · exact rejected
        · split
          · exact rejected
          · refine Ends.read (read (by decide)) ?_
            split
            · exact rejected
            · refine Ends.read (read (by decide)) ?_
              split
              · exact rejected
              · refine Ends.read (read (by decide)) ?_
                rename_i magic class_ data machine type
                have size : image.elfhdr.phentsize ≠ PROGHDR_SIZE := by
                  intro same
                  exact accepted ⟨not_not.mp magic, not_not.mp class_, not_not.mp data,
                    not_not.mp machine, not_not.mp type, same⟩
                rw [if_pos size]
                exact rejected
  · rw [show image.plan = [] from if_neg fun both => whole both.1, if_pos (by omega)]
    exact rejected

/-- A loader that is not watched, if it returns a size: it has taken the pages that the plan
demands, and mapped pages below the size only. -/
theorem loadelf_built {entry sz : Nat} (built : Built root [] live place s)
    (runs : loadelf image false root s = .ok (some (entry, sz), t)) :
    takePages (demand [] image.plan) s.kmem = some t.kmem ∧
      ∃ pages live place, Built root pages live place t ∧ ∀ v ∈ pages, v * PGSIZE < sz := by
  have ends := @loadelf_ends image false s live place root built
  cases outcome : fate image false s.kmem image.plan [] 0 with
  | built pages taken =>
      rw [outcome] at ends
      obtain ⟨below, ⟨live', place', built'⟩, took⟩ := Yields.post_of_eq ends runs entry sz rfl
      obtain ⟨rfl, mem⟩ := fate_built outcome
      rw [Nat.zero_add] at took
      refine ⟨took, pages, live', place', built', fun v there => below v ?_⟩
      exact (mem v there).resolve_left (List.not_mem_nil)
  | dry =>
      rw [outcome] at ends
      cases Yields.post_of_eq ends runs
  | outside => exact absurd outcome fate_ne_outside
  | remap =>
      rw [outcome] at ends
      obtain ⟨va, fails⟩ := ends
      rw [Fails, runs] at fails
      cases fails

/-- A page table that `uvmcreate` has just made. -/
def Fresh (root : Nat) (s : VmState) : Prop := ∃ live place, Built root [] live place s

end Elf

end Av6
