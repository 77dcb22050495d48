import Av6.ElfModel
import Av6.PmapPages

/-!
# What the loader plans

The program headers of an image, up to the first one that is rejected, say which headers the
loader reads and which pages it maps.  How far the loader gets along this plan depends on the
image and on the pages that the allocator can give.
-/

namespace Av6

namespace Elf

open FallibleState Kmem Pmap

/-- The type of a header is read, or a page is filled from the image and mapped. -/
inductive Event where
  | header (off : Nat)
  | page (va off len : Nat)
  deriving DecidableEq

/-- The pages of a segment. -/
def planPages : Nat → Nat → Nat → Nat → List Event
  | 0, _, _, _ => []
  | rounds + 1, va, src, remaining =>
      .page va src (copyNow remaining) ::
        planPages rounds (va + PGSIZE) ((src + copyNow remaining) % 2 ^ 64)
          (remaining - copyNow remaining)

/-- A field of a header, as a number of 64 bits. -/
theorem field_lt {image : Image} (off n : Nat) : image.field off n < 2 ^ (8 * n) := by
  induction n generalizing off with
  | zero => exact Nat.one_pos
  | succ n ih =>
      have byte : image.byte off < 2 ^ 8 := UInt8.toNat_lt _
      have rest := ih (off + 1)
      rw [Image.field, Nat.mul_succ, Nat.pow_add]
      omega

/-- The checks that a segment has to pass. -/
def Image.Accepts (image : Image) (ph : Proghdr) : Prop :=
  ph.filesz ≤ ph.memsz ∧ ph.vaddr ≤ ph.stop ∧ ph.stop ≤ MAXUVA ∧
    (ph.off + ph.filesz) % 2 ^ 64 ≤ image.size ∧ ph.vaddr % PGSIZE = 0

instance (image : Image) (ph : Proghdr) : Decidable (image.Accepts ph) :=
  inferInstanceAs (Decidable (_ ∧ _ ∧ _ ∧ _ ∧ _))

/-- The plan from the header `i` on. -/
def Image.planFrom (image : Image) (phoff phentsize : Nat) : Nat → Nat → List Event
  | 0, _ => []
  | left + 1, i =>
      let phOff := (phoff + i * phentsize) % 2 ^ 64
      let ph := image.proghdr phOff
      if image.size < (phOff + PROGHDR_SIZE) % 2 ^ 64 then []
      else .header phOff ::
        if ph.type ≠ PT_LOAD then image.planFrom phoff phentsize left (i + 1)
        else if image.Accepts ph then planPages ph.rounds ph.vaddr ph.off ph.filesz ++
          image.planFrom phoff phentsize left (i + 1)
        else []

/-- The checks that the ELF header has to pass. -/
def Elfhdr.Accepted (eh : Elfhdr) : Prop :=
  eh.magic = ELFMAG ∧ eh.class = ELFCLASS64 ∧ eh.data = ELFDATA2LSB ∧ eh.machine = EM_AARCH64 ∧
    eh.type = ET_EXEC ∧ eh.phentsize = PROGHDR_SIZE

instance (eh : Elfhdr) : Decidable eh.Accepted :=
  inferInstanceAs (Decidable (_ ∧ _ ∧ _ ∧ _ ∧ _ ∧ _))

def Image.plan (image : Image) : List Event :=
  if ELFHDR_SIZE ≤ image.size ∧ image.elfhdr.Accepted then
    image.planFrom image.elfhdr.phoff image.elfhdr.phentsize image.elfhdr.phnum 0
  else []

/-- The page numbers that a plan maps. -/
def pagesOf (events : List Event) : List Nat :=
  events.filterMap fun
    | .header _ => none
    | .page va _ _ => some (va / PGSIZE)

/-- The number of tables that a page needs beside those of the pages before it. -/
def tables (pages : List Nat) (vpn : Nat) : Nat :=
  ((List.range 3).filter fun l => ∀ e ∈ pages, e / 2 ^ (27 - 9 * l) ≠ vpn / 2 ^ (27 - 9 * l)).length

/-- The pages to take from the allocator for a plan, after the pages that are there. -/
def demand : List Nat → List Event → Nat
  | _, [] => 0
  | pages, .header _ :: rest => demand pages rest
  | pages, .page va _ _ :: rest =>
      1 + tables pages (va / PGSIZE) + demand (va / PGSIZE :: pages) rest

/-- The event maps a page that an earlier one has mapped. -/
def Repeats (events : List Event) (k : Nat) : Prop :=
  ∃ va off len, events[k]? = some (.page va off len) ∧ va / PGSIZE ∈ pagesOf (events.take k)

/-- The event reads outside of the image. -/
def Event.Strays (image : Image) : Event → Prop
  | .header off => image.size < off + PROGHDR_SIZE
  | .page _ off len => 0 < len ∧ image.size < off + len

instance (image : Image) (event : Event) : Decidable (event.Strays image) :=
  match event with
  | .header _ => inferInstanceAs (Decidable (_ < _))
  | .page _ _ _ => inferInstanceAs (Decidable (_ ∧ _))

/-- The pages to take from the allocator before an event reads. -/
def Event.taking : Event → Nat
  | .header _ => 0
  | .page _ _ _ => 1

/-- The allocator can give this many pages. -/
def Supplies (a : AllocState) (n : Nat) : Prop := takePages n a ≠ none

instance (a : AllocState) (n : Nat) : Decidable (Supplies a n) :=
  decidable_of_iff ((takePages n a).isSome = true) (by rw [Supplies, Option.isSome_iff_ne_none])

theorem not_supplies {a : AllocState} {n : Nat} (dry : takePages n a = none) : ¬ Supplies a n :=
  fun supplies => supplies dry

theorem supplies_of_eq {a b : AllocState} {n : Nat} (taken : takePages n a = some b) :
    Supplies a n := by
  rw [Supplies, taken]
  exact Option.some_ne_none b

theorem Supplies.mono {a : AllocState} {n k : Nat} (supplies : Supplies a k) (le : n ≤ k) :
    Supplies a n :=
  fun dry => supplies (takePages_mono le dry)

/-- How the loader gets along a plan. -/
inductive Fate where
  | built (pages : List Nat) (taken : Nat)
  | dry
  | outside
  | remap
  deriving DecidableEq

/-- The rest of a plan is followed when the first part has been. -/
def Fate.andThen (rest : List Nat → Nat → Fate) : Fate → Fate
  | .built pages taken => rest pages taken
  | .dry => .dry
  | .outside => .outside
  | .remap => .remap

/-- The loader follows a plan, after the pages that are there, with `taken` pages taken. -/
def fate (image : Image) (watched : Bool) (a : AllocState) :
    List Event → List Nat → Nat → Fate
  | [], pages, taken => .built pages taken
  | .header off :: rest, pages, taken =>
      if watched ∧ (Event.header off).Strays image then .outside
      else fate image watched a rest pages taken
  | .page va off len :: rest, pages, taken =>
      if ¬ Supplies a (taken + 1) then .dry
      else if watched ∧ (Event.page va off len).Strays image then .outside
      else if va / PGSIZE ∈ pages then .remap
      else if ¬ Supplies a (taken + 1 + tables pages (va / PGSIZE)) then .dry
      else fate image watched a rest (va / PGSIZE :: pages)
        (taken + 1 + tables pages (va / PGSIZE))

section

variable {image : Image} {watched : Bool} {a : AllocState} {events rest : List Event}
  {pages : List Nat} {taken va off len k : Nat} {event : Event}

theorem fate_append (first second : List Event) :
    fate image watched a (first ++ second) pages taken =
      (fate image watched a first pages taken).andThen (fate image watched a second) := by
  induction first generalizing pages taken with
  | nil => rfl
  | cons event rest ih =>
      cases event with
      | header off =>
          rw [List.cons_append, fate, fate]
          split
          · rfl
          · exact ih
      | page va off len =>
          rw [List.cons_append, fate, fate]
          split
          · rfl
          · split
            · rfl
            · split
              · rfl
              · split
                · rfl
                · exact ih

/-- The event maps a page that is there, or that an earlier event has mapped. -/
def RepeatsAfter (pages : List Nat) (events : List Event) (k : Nat) : Prop :=
  ∃ va off len, events[k]? = some (.page va off len) ∧
    (va / PGSIZE ∈ pages ∨ va / PGSIZE ∈ pagesOf (events.take k))

theorem repeatsAfter_nil : RepeatsAfter [] events k ↔ Repeats events k := by
  simp [RepeatsAfter, Repeats]

theorem repeatsAfter_header : RepeatsAfter pages (.header off :: rest) (k + 1) ↔
    RepeatsAfter pages rest k :=
  Iff.rfl

theorem repeatsAfter_page : RepeatsAfter pages (.page va off len :: rest) (k + 1) ↔
    RepeatsAfter (va / PGSIZE :: pages) rest k := by
  simp only [RepeatsAfter, pagesOf, List.getElem?_cons_succ, List.take_succ_cons,
    List.filterMap_cons, List.mem_cons]
  constructor <;>
  · rintro ⟨va', off', len', there, repeats⟩
    exact ⟨va', off', len', there, by tauto⟩

theorem not_repeatsAfter_header : ¬ RepeatsAfter pages (.header off :: rest) 0 := by
  rintro ⟨_, _, _, ⟨⟩, -⟩

theorem repeatsAfter_page_zero : RepeatsAfter pages (.page va off len :: rest) 0 ↔
    va / PGSIZE ∈ pages := by
  constructor
  · rintro ⟨_, _, _, ⟨⟩, there | ⟨⟨⟩⟩⟩
    exact there
  · exact fun there => ⟨va, off, len, rfl, .inl there⟩

theorem demand_take_page :
    taken + demand pages ((Event.page va off len :: rest).take (k + 1)) =
      taken + 1 + tables pages (va / PGSIZE) + demand (va / PGSIZE :: pages) (rest.take k) := by
  rw [List.take_succ_cons, demand]
  omega

/-- An unwatched loader maps a page again exactly when the plan does and the pages suffice. -/
theorem fate_remap_iff : fate image false a events pages taken = .remap ↔
    ∃ k, RepeatsAfter pages events k ∧ Supplies a (taken + demand pages (events.take k) + 1) := by
  induction events generalizing pages taken with
  | nil =>
      refine iff_of_false (by rintro ⟨⟩) ?_
      rintro ⟨k, ⟨_, _, _, ⟨⟩, -⟩, -⟩
  | cons event rest ih =>
      cases event with
      | header off =>
          rw [fate, if_neg (by simp), ih]
          constructor
          · rintro ⟨k, repeats, supplies⟩
            exact ⟨k + 1, repeatsAfter_header.mpr repeats, supplies⟩
          · rintro ⟨_ | k, repeats, supplies⟩
            · exact absurd repeats not_repeatsAfter_header
            · exact ⟨k, repeatsAfter_header.mp repeats, supplies⟩
      | page va off len =>
          rw [fate]
          by_cases first : Supplies a (taken + 1)
          · rw [if_neg (not_not_intro first), if_neg (by simp)]
            by_cases there : va / PGSIZE ∈ pages
            · rw [if_pos there]
              exact iff_of_true rfl ⟨0, repeatsAfter_page_zero.mpr there, first⟩
            · rw [if_neg there]
              by_cases all : Supplies a (taken + 1 + tables pages (va / PGSIZE))
              · rw [if_neg (not_not_intro all), ih]
                constructor
                · rintro ⟨k, repeats, supplies⟩
                  exact ⟨k + 1, repeatsAfter_page.mpr repeats, by rwa [demand_take_page]⟩
                · rintro ⟨_ | k, repeats, supplies⟩
                  · exact absurd (repeatsAfter_page_zero.mp repeats) there
                  · exact ⟨k, repeatsAfter_page.mp repeats, by rwa [demand_take_page] at supplies⟩
              · rw [if_pos all]
                refine iff_of_false (by rintro ⟨⟩) ?_
                rintro ⟨_ | k, repeats, supplies⟩
                · exact there (repeatsAfter_page_zero.mp repeats)
                · rw [demand_take_page] at supplies
                  exact all (supplies.mono (by omega))
          · rw [if_pos first]
            refine iff_of_false (by rintro ⟨⟩) ?_
            rintro ⟨k, -, supplies⟩
            exact first (supplies.mono (by omega))

/-- A plan that has been followed has taken what it demands, and its pages are there. -/
theorem fate_built {pages' : List Nat} {taken' : Nat}
    (built : fate image watched a events pages taken = .built pages' taken') :
    taken' = taken + demand pages events ∧ ∀ v ∈ pages', v ∈ pages ∨ v ∈ pagesOf events := by
  induction events generalizing pages taken with
  | nil =>
      cases built
      exact ⟨rfl, fun v => .inl⟩
  | cons event rest ih =>
      cases event with
      | header off =>
          rw [fate] at built
          split at built
          · cases built
          · exact ih built
      | page va off len =>
          rw [fate] at built
          split at built
          · cases built
          split at built
          · cases built
          split at built
          · cases built
          split at built
          · cases built
          obtain ⟨rfl, mem⟩ := ih built
          refine ⟨by rw [demand]; omega, fun v there => ?_⟩
          rcases mem v there with first | later
          · rcases List.mem_cons.mp first with rfl | old
            · exact .inr (by simp [pagesOf])
            · exact .inl old
          · exact .inr (List.mem_cons_of_mem _ later)

/-- The pages of a segment lie in it. -/
theorem planPages_lt {rounds src remaining v : Nat} (aligned : va % PGSIZE = 0)
    (there : v ∈ pagesOf (planPages rounds va src remaining)) :
    v * PGSIZE < va + rounds * PGSIZE := by
  induction rounds generalizing va src remaining with
  | zero => cases there
  | succ rounds ih =>
      rw [planPages] at there
      rcases List.mem_cons.mp there with rfl | later
      · rw [Nat.div_mul_cancel (Nat.dvd_of_mod_eq_zero aligned), Nat.succ_mul]
        have positive : 0 < PGSIZE := by decide
        omega
      · have less := ih (by rw [Nat.add_mod_right]; exact aligned) later
        rw [Nat.succ_mul]
        omega

theorem fate_ne_outside : fate image false a events pages taken ≠ .outside := by
  induction events generalizing pages taken with
  | nil => rintro ⟨⟩
  | cons event rest ih =>
      cases event with
      | header off =>
          rw [fate, if_neg (by simp)]
          exact ih
      | page va off len =>
          rw [fate]
          split
          · rintro ⟨⟩
          · rw [if_neg (by simp)]
            split
            · rintro ⟨⟩
            · split
              · rintro ⟨⟩
              · exact ih

/-- A watched loader reads outside of the image exactly when the plan does, no page is mapped
again before, and the pages suffice. -/
theorem fate_outside_iff (start : Supplies a taken) :
    fate image true a events pages taken = .outside ↔
    ∃ k event, events[k]? = some event ∧ event.Strays image ∧
      (∀ j < k, ¬ RepeatsAfter pages events j) ∧
      Supplies a (taken + demand pages (events.take k) + event.taking) := by
  induction events generalizing pages taken with
  | nil =>
      refine iff_of_false (by rintro ⟨⟩) ?_
      rintro ⟨k, _, ⟨⟩, -⟩
  | cons event rest ih =>
      cases event with
      | header off =>
          rw [fate]
          by_cases strays : (Event.header off).Strays image
          · rw [if_pos ⟨rfl, strays⟩]
            exact iff_of_true rfl ⟨0, _, rfl, strays, by simp, start⟩
          · rw [if_neg fun both => strays both.2, ih start]
            constructor
            · rintro ⟨k, event, there, strays', before, supplies⟩
              refine ⟨k + 1, event, there, strays', ?_, supplies⟩
              rintro (_ | j) less
              · exact not_repeatsAfter_header
              · exact before j (by omega)
            · rintro ⟨_ | k, event, there, strays', before, supplies⟩
              · cases there
                exact absurd strays' strays
              · exact ⟨k, event, there, strays', fun j less => before (j + 1) (by omega), supplies⟩
      | page va off len =>
          rw [fate]
          by_cases first : Supplies a (taken + 1)
          · rw [if_neg (not_not_intro first)]
            by_cases strays : (Event.page va off len).Strays image
            · rw [if_pos ⟨rfl, strays⟩]
              exact iff_of_true rfl ⟨0, _, rfl, strays, by simp, first⟩
            · rw [if_neg fun both => strays both.2]
              by_cases there : va / PGSIZE ∈ pages
              · rw [if_pos there]
                refine iff_of_false (by rintro ⟨⟩) ?_
                rintro ⟨_ | k, event, same, strays', before, -⟩
                · cases same
                  exact strays strays'
                · exact before 0 (by omega) (repeatsAfter_page_zero.mpr there)
              · rw [if_neg there]
                by_cases all : Supplies a (taken + 1 + tables pages (va / PGSIZE))
                · rw [if_neg (not_not_intro all), ih all]
                  constructor
                  · rintro ⟨k, event, same, strays', before, supplies⟩
                    refine ⟨k + 1, event, same, strays', ?_, by rwa [demand_take_page]⟩
                    rintro (_ | j) less
                    · rwa [repeatsAfter_page_zero]
                    · rw [repeatsAfter_page]
                      exact before j (by omega)
                  · rintro ⟨_ | k, event, same, strays', before, supplies⟩
                    · cases same
                      exact absurd strays' strays
                    · refine ⟨k, event, same, strays', ?_, by rwa [demand_take_page] at supplies⟩
                      intro j less
                      rw [← repeatsAfter_page]
                      exact before (j + 1) (by omega)
                · rw [if_pos all]
                  refine iff_of_false (by rintro ⟨⟩) ?_
                  rintro ⟨_ | k, event, same, strays', -, supplies⟩
                  · cases same
                    exact strays strays'
                  · rw [demand_take_page] at supplies
                    exact all (supplies.mono (by omega))
          · rw [if_pos first]
            refine iff_of_false (by rintro ⟨⟩) ?_
            rintro ⟨_ | k, event, same, -, -, supplies⟩
            · cases same
              exact first supplies
            · rw [List.take_succ_cons, demand] at supplies
              exact first (supplies.mono (by omega))

end

end Elf

end Av6
