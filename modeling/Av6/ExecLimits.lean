import Av6.ExecAtomic

/-!
# How many arguments exec takes

The header says that `MAXARG` bounds the number of the arguments without the NULL at their end.
The loop over them gives up when it has seen `MAXARG` strings, before it looks for the NULL; all
other limits are as they are documented.
-/

namespace Av6

namespace Exec

open FallibleState Kmem Pmap Elf PackedStrings

variable {s t : ExecState} {u v : VmState} {live : CacheRef → Multiset Nat} {place : Place}
  {programs : List (String × Image)} {path : String} {image : Image}
  {uargv root stack newSz old va off i n : Nat} {args : List (List UInt8)}

def roundUp16 (n : Nat) : Nat := (n + 15) / 16 * 16

/-- The packed strings and the block of `argc + 5` words fit into a page, both rounded up. -/
def FitsPage (args : List (List UInt8)) : Prop :=
  roundUp16 (packedArgs args).length + roundUp16 ((args.length + 5) * 8) ≤ PGSIZE

instance (args : List (List UInt8)) : Decidable (FitsPage args) :=
  inferInstanceAs (Decidable (_ ≤ _))

theorem accepted_iff (aligned : newSz % PGSIZE = 0) (positive : 0 < newSz) :
    Accepted newSz args ↔ args.length < MAXARG ∧ FitsPage args := by
  unfold Accepted FitsPage stackPointer stringBase roundUp16
  unfold PGSIZE at *
  generalize (packedArgs args).length = pos
  omega

/-- The loader accepts an image, given the pages that it needs, and makes the program this big. -/
def Loadable (image : Image) (newSz : Nat) : Prop :=
  ∀ root s, Fresh root s → Supplies s.kmem (demand [] image.plan) →
    ∃ entry t, loadelf image false root s = .ok (some (entry, newSz), t)

/-- The pages that `exec` of an image takes at most: the page table, what the image demands, the
stack page with three tables, and the scratch page. -/
def execDemand (image : Image) : Nat := demand [] image.plan + 6

theorem supplies_after {a b : AllocState} {k : Nat} (took : takePages k a = some b)
    (supplies : Supplies a (k + n)) : Supplies b n :=
  takePages_after took supplies

theorem LowStrings.congr {memory memory' : Memory} (low : LowStrings memory root uargv args)
    (same : ∀ va, userByte memory' root va = userByte memory root va) :
    LowStrings memory' root uargv args := by
  intro i less uarg found
  rw [userWord_congr same] at found
  exact low i less uarg found

/-- `exec` from the stack page on, with a page table that has been loaded. -/
def afterLoad (root newSz old entry uargv : Nat) : Vm (Option Loaded) :=
  newPage root newSz PAGE_USER
    (fun stack => modify fun s : VmState => { s with memory := zeroPage s.memory stack })
    (fun stack => arguments old root stack newSz entry uargv)
    (do
      uvmfree root
      return none)

/-- The image has been loaded to a new page table, and five pages are left. -/
structure Ready (root newSz : Nat) (live : CacheRef → Multiset Nat) (place₀ place : Place)
    (v w : VmState) : Prop where
  changed : Changed root live place₀ place v v w w
  fresh : ∀ slot : Slot, slot.Of root → place₀ slot = none
  bare : place (.hand 0) = none
  leaf : newSz < MAXUVA → place (leafSlot root newSz) = none
  supplies : Supplies w.kmem 5
  aligned : newSz % PGSIZE = 0
  positive : 0 < newSz

/-- With enough memory, a loadable image is loaded. -/
theorem execImage_loads (twins : Twins live place v v) (bare : place (.hand 0) = none)
    (loadable : Loadable image newSz) (enough : Supplies v.kmem (execDemand image)) :
    ∃ root entry place' w, execImage image old uargv v = afterLoad root newSz old entry uargv w ∧
      Ready root newSz live place place' v w := by
  have supplied : Supplies v.kmem (1 + (demand [] image.plan + 5)) := by
    rw [Nat.add_comm]
    exact enough
  rw [execImage_eq]
  obtain ⟨r, t, runs, ⟨-, dry, -⟩ | ⟨root, rfl, -, taken, -⟩⟩ := (uvmcreate_twin twins).self
  · have first : Supplies v.kmem 1 := supplied.mono (by omega)
    exact absurd (takePages_dry dry) first
  obtain ⟨fresh, built, planted⟩ := created_built twins bare runs
  have took : takePages 1 v.kmem = some t.kmem := takePages_succ taken
  have left := supplies_after took supplied
  obtain ⟨entry, w, loads⟩ := loadable root t ⟨_, _, built⟩ (left.mono (by omega))
  obtain ⟨took', pages, live', place'', built', below⟩ := loadelf_built built loads
  have either : TwinOr _ (loadelf image false root) t t _ :=
    loadelf_twinOr built.twins built.hand built.rooted
  rcases either with ⟨e, -, fails, -⟩ | twin
  · rw [Fails, loads] at fails
    cases fails
  obtain ⟨place', extended, loaded⟩ := twin.self.post_of_eq loads
  obtain ⟨aligned, positive, -⟩ := loaded entry newSz rfl
  refine ⟨root, entry, place', w, ?_, ?_⟩
  · rw [bind_eq_of_ok runs]
    dsimp only
    rw [bind_eq_of_ok loads]
    rfl
  · have rooted' := extended.keeps _ _ built.rooted
    refine ⟨⟨extended.twins, planted.trans extended.within, rooted'⟩, fresh, extended.hand built.hand,
      fun small => ?_, supplies_after took' left, aligned, positive⟩
    by_contra filled
    obtain ⟨_, -, found⟩ := translate_of_leaf extended.twins rooted' small filled
    have there := translate_leaf built'.twins built'.rooted found
    have less := below (newSz / PGSIZE) ((built'.leaves _).mp (by
      rw [show Slot.leaf root (newSz / PGSIZE) = leafSlot root newSz from rfl, there]
      exact Option.some_ne_none _))
    rw [Nat.div_mul_cancel (Nat.dvd_of_mod_eq_zero aligned)] at less
    omega

section

variable {place₀ : Place} {w : VmState}
  (ready : Ready root newSz live place₀ place v w)
include ready

/-- The page above an image that ends at the end of the user addresses cannot be mapped. -/
theorem afterLoad_fails (entry : Nat) (high : ¬ newSz < MAXUVA) :
    Fails (afterLoad root newSz old entry uargv) w (.walkRange newSz) := by
  have first : Supplies w.kmem 1 := ready.supplies.mono (by omega)
  unfold afterLoad newPage
  refine (allocPage_twin ready.changed.twins.ok rfl).self.bind_fails ?_
  rintro r u ⟨-, -, -, ⟨-, dry⟩ | ⟨p, rfl, -⟩⟩
  · exact absurd (takePages_dry dry.runs) first
  · exact Fails.update_bind (mappages_fails ready.aligned high).bind

/-- `exec` takes the arguments that are accepted, and no other. -/
theorem afterLoad_decides (entry : Nat) (twins : Twins live place₀ v v)
    (caller : place₀ (.table old 0 0) = some old) (small : newSz < MAXUVA)
    (argv : ArgvOf v.memory old uargv args) (low : LowStrings v.memory old uargv args) :
    Yields (afterLoad root newSz old entry uargv) w fun r _ => r = none ↔ ¬ Accepted newSz args := by
  obtain ⟨changed, fresh, bare, leaf, supplies, aligned, positive⟩ := ready
  have few := missing_le place root newSz
  refine (newPage_twinOr (E := fun _ => False) (Q := fun r _ _ => r = none ↔ ¬ Accepted newSz args)
    (fun _ => 0) changed.twins (safe_of_free small (leaf small)) bare changed.rooted aligned attributes_user
    (fun p _ _ _ _ => zeroPage_filled) ?_ ?_).twin.self
  · intro stack place' u u' extended _ atLeaf maps _ _ took
    have changed' : Changed root live place₀ place' v v u u' :=
      ⟨extended.twins, changed.within.trans extended.within, extended.keeps _ _ changed.rooted⟩
    have mounted : Mounted root stack newSz live place₀ place' v v u u' :=
      ⟨changed', extended.hand bare, atLeaf, maps⟩
    have sees := userByte_of_changed changed' twins fresh caller
    have one : Supplies u.kmem 1 := by
      refine Supplies.mono (k := 4 - missing place root newSz 3 0) ?_ (by omega)
      exact supplies_after took (supplies.mono (by omega))
    refine (arguments_twin args mounted fresh caller aligned positive small).orFails.mono ?_
    intro r x x' ended
    constructor
    · intro none_
      exact (ended.failed none_).2 (argv.congr sees) (low.congr sees) one
    · intro rejected
      by_contra some_
      obtain ⟨loaded, rfl⟩ := Option.ne_none_iff_exists'.mp some_
      obtain ⟨-, -, -, -, -, laid⟩ := ended.entered loaded rfl
      exact rejected (laid (argv.congr sees)).1
  · intro place' u u' _ _ dry
    have enough : Supplies w.kmem (missing place root newSz 3 0 + 1) := supplies.mono (by omega)
    exact absurd dry enough

end

theorem exec_of_find {program : String × Image}
    (found : (programs.find? fun program => program.1 = path) = some program) :
    exec programs path old uargv = execImage program.2 old uargv := by
  unfold exec
  rw [found]

/-- With a loadable image that leaves room for the stack page, and enough memory, `exec` takes the
arguments if there are fewer than `MAXARG` and they fit, and no other. -/
theorem exec_decides {program : String × Image} (caller : Caller live place s)
    (found : (programs.find? fun program => program.1 = path) = some program)
    (loadable : Loadable program.2 newSz) (small : newSz < MAXUVA)
    (enough : Supplies s.vm.kmem (execDemand program.2))
    (argv : ArgvOf s.vm.memory s.proc.pagetable uargv args)
    (low : LowStrings s.vm.memory s.proc.pagetable uargv args) :
    ∃ result vm, execProc programs path uargv s = .ok (settle path result { s with vm }) ∧
      (result = none ↔ ¬ (args.length < MAXARG ∧ FitsPage args)) := by
  obtain ⟨root, entry, place', w, loads, ready⟩ := @execImage_loads s.vm live place program.2 uargv
    newSz s.proc.pagetable caller.twins caller.bare loadable enough
  obtain ⟨result, vm, runs, decides⟩ :=
    afterLoad_decides ready entry caller.twins caller.rooted small argv low
  rw [accepted_iff ready.aligned ready.positive] at decides
  rw [← exec_of_find found] at loads
  exact ⟨result, vm, execProc_eq (loads.trans runs), decides⟩

/-- The image of one segment is loadable: it has four pages to take. -/
theorem loadable_plainImage : Loadable plainImage 0x2000 := by
  intro root s ⟨live, place, built⟩ supplies
  have need : demand [] plainImage.plan = 4 := by
    rw [plainImage_plan]
    decide
  rw [need] at supplies
  have loop : Yields (segmentLoop plainImage false root 1 0x1000 0 0) s fun r _ => r = true := by
    have follows := @segmentLoop_follows plainImage false s live place root 0x1000 0 0 1 0 [] s.kmem
      built rfl (by decide) (by decide) (by decide)
    have fate_ : fate plainImage false s.kmem (planPages 1 0x1000 0 0) [] 0 = .built [1] 4 := by
      rw [show planPages 1 0x1000 0 0 = [.page 0x1000 0 0] from rfl, fate,
        if_neg (not_not_intro (supplies.mono (by decide))), if_neg (by decide), if_neg (by decide),
        show 0 + 1 + tables [] (0x1000 / PGSIZE) = 4 from rfl, if_neg (not_not_intro supplies)]
      rfl
    rw [fate_] at follows
    exact Yields.mono follows fun r t done => done.1
  have header : plainImage.elfhdr = ⟨ELFMAG, 2, 1, 2, 183, 0, 64, 56, 1⟩ := by
    simp only [Image.elfhdr, Elfhdr.mk.injEq]
    decide +kernel
  have segment : plainImage.proghdr 64 = ⟨1, 0, 0x1000, 0, 0x1000⟩ := by
    simp only [Image.proghdr, Proghdr.mk.injEq]
    decide +kernel
  suffices loads : Yields (loadelf plainImage false root) s fun r _ => r = some (0, 0x2000) by
    obtain ⟨_, t, runs, rfl⟩ := loads
    exact ⟨0, t, runs⟩
  have read : ∀ {off len}, false = true → plainImage.Inside off len := by
    rintro _ _ ⟨⟩
  have size : plainImage.size = 120 := by decide +kernel
  unfold loadelf
  rw [header, size, if_neg (by decide)]
  refine .check_bind read ?_
  rw [if_neg (by decide), if_neg (by decide), if_neg (by decide)]
  refine .check_bind read ?_
  rw [if_neg (by decide)]
  refine .check_bind read ?_
  rw [if_neg (by decide)]
  refine .check_bind read ?_
  rw [if_neg (by decide)]
  refine .check_bind read (.check_bind read (Yields.bind (P := fun r _ => r = some 0x2000) ?_ ?_))
  · unfold loadLoop
    dsimp only
    rw [show (64 + 0 * 56) % 2 ^ 64 = 64 from rfl, segment, size, if_neg (by decide)]
    refine .check_bind read ?_
    rw [if_neg (by decide)]
    refine .check_bind read (.check_bind read ?_)
    rw [if_neg (by decide)]
    refine .check_bind read ?_
    rw [if_neg (by decide), if_neg (by decide)]
    refine .check_bind read ?_
    rw [if_neg (by decide)]
    refine Yields.bind (P := fun r _ => r = true) loop ?_
    rintro _ t rfl
    exact .ret rfl
  · rintro _ t rfl
    exact .check_bind read (.ret rfl)

/-- All bytes of a page are written. -/
def writePage (bytes : Nat → UInt8) (p : Nat) : Vm Unit :=
  modify fun s : VmState => { s with memory := fun q off => if q = p then bytes off else s.memory q off }

theorem writePage_filled {p : Nat} {bytes : Nat → UInt8} : Twin (writePage bytes p) u v fun _ t t' =>
    Filled p bytes u v t t' := by
  refine .update ⟨rfl, rfl, fun q off other => ?_, fun off less => ?_⟩
  · exact ⟨if_neg other, if_neg other⟩
  · exact ⟨if_pos rfl, if_pos rfl⟩

/-- An address space with just one page. -/
structure OnePage (root page base : Nat) (live : CacheRef → Multiset Nat) (place : Place)
    (vm : VmState) : Prop where
  tree : UserTree root live place vm
  bare : place (.hand 0) = none
  leaf : place (leafSlot root base) = some page
  maps : Maps vm.memory place root base page PAGE_USER
  others : ∀ v, v ≠ base / PGSIZE → place (.leaf root v) = none

/-- There are address spaces with just one page, of given bytes. -/
theorem exists_onePage {base : Nat} (bytes : Nat → UInt8) (aligned : base % PGSIZE = 0)
    (small : base < MAXUVA) (few : n + 4 < 2 ^ 36) :
    ∃ live place root page vm, OnePage root page base live place vm ∧ Supplies vm.kmem n ∧
      ∀ off < PGSIZE, vm.memory page off = bytes off := by
  obtain ⟨root, v, ⟨live, place, built⟩, supplies⟩ := exists_fresh few
  have empty : ∀ v, place (.leaf root v) = none := by
    intro v
    by_contra filled
    exact absurd ((built.leaves _).mp filled) List.not_mem_nil
  have need : missing place root base 3 0 = 3 := built.missing_eq base
  have mapped : Yields (newPage root base PAGE_USER (writePage bytes) (fun p => pure (some p))
      (pure none)) v fun page vm => ∃ p place', page = some p ∧ OnePage root p base live place' vm ∧
        Supplies vm.kmem n ∧ ∀ off < PGSIZE, vm.memory p off = bytes off := by
    refine (newPage_twinOr (E := fun _ => False) (Q := fun page vm vm' => vm = vm' → ∃ p place',
      page = some p ∧ OnePage root p base live place' vm ∧ Supplies vm.kmem n ∧
      ∀ off < PGSIZE, vm.memory p off = bytes off) bytes built.twins (safe_of_free small (empty _)) built.hand
      built.rooted aligned attributes_user (fun p _ _ _ _ => writePage_filled) ?_ ?_).twin.self.mono
      fun _ _ holds => holds rfl
    · intro p place' u u' extended others leaf maps _ holds took
      rw [need] at took
      have left : Supplies u.kmem n := supplies_after took (by rwa [Nat.add_comm])
      refine .ret fun same => ⟨p, place', rfl, ⟨⟨?_, extended.keeps _ _ built.rooted⟩,
        extended.hand built.hand, leaf, maps, fun v other => ?_⟩, left, fun off less => (holds off less).1⟩
      · subst same
        exact extended.twins
      · rw [others v other, empty v]
    · intro place' u u' _ _ dry
      rw [need] at dry
      exact absurd dry (supplies.mono (by omega))
  obtain ⟨_, vm, -, page, place', rfl, onePage, supplies', holds⟩ := mapped
  exact ⟨live, place', root, page, vm, onePage, supplies', holds⟩

/-- A process with a page of given bytes in its address space. -/
theorem exists_caller_page (bytes : Nat → UInt8) (few : n + 4 < 2 ^ 36) :
    ∃ live place root page vm, Caller live place (runningOn root vm) ∧ Supplies vm.kmem n ∧
      UserPage root page 0x1000 live vm vm ∧ ∀ off < PGSIZE, vm.memory page off = bytes off := by
  obtain ⟨live, place, root, page, vm, onePage, supplies, holds⟩ :=
    exists_onePage bytes (by decide : 0x1000 % PGSIZE = 0) (by decide) few
  exact ⟨live, place, root, page, vm, ⟨onePage.tree.twins, onePage.tree.rooted, onePage.bare⟩,
    supplies, ⟨place, onePage.tree.twins, onePage.tree.rooted, onePage.leaf, onePage.maps⟩, holds⟩

/-- The bytes of a user page that starts with an array of pointers to its string "A". -/
def pointerBytes (count off : Nat) : UInt8 :=
  if off = 0xF00 then 0x41 else if off < count * 8 ∧ off % 8 = 1 then 0x1F else 0

theorem wordAt_pointerBytes {memory : Memory} {page count : Nat}
    (holds : ∀ off < PGSIZE, memory page off = pointerBytes count off) (below : i * 8 + 8 ≤ 0xF00) :
    wordAt memory page i = if i < count then 0x1F00 else 0 := by
  have byte : ∀ k < 8, memory page (8 * i + k) = if i < count ∧ k = 1 then 0x1F else 0 := by
    intro k less
    rw [holds _ (by unfold PGSIZE; omega), pointerBytes, if_neg (by omega)]
    congr 1
    apply propext
    omega
  unfold wordAt
  rw [byte 1 (by omega), byte 2 (by omega), byte 3 (by omega), byte 4 (by omega), byte 5 (by omega),
    byte 6 (by omega), byte 7 (by omega), ← Nat.add_zero (8 * i), byte 0 (by omega)]
  by_cases less : i < count
  · simp [less]
  · simp [less]

/-- A process calls `exec` with this many arguments, all of them "A". -/
theorem exists_call (count : Nat) (short : count * 8 + 8 ≤ 0xF00) (few : n + 4 < 2 ^ 36) :
    ∃ live place s, Caller live place s ∧ Supplies s.vm.kmem n ∧
      ArgvOf s.vm.memory s.proc.pagetable 0x1000 (List.replicate count [0x41]) ∧
      LowStrings s.vm.memory s.proc.pagetable 0x1000 (List.replicate count [0x41]) := by
  obtain ⟨live, place, root, page, vm, caller, supplies, userPage, holds⟩ :=
    exists_caller_page (pointerBytes count) few
  have word : ∀ i ≤ count, userWord (runningOn root vm).vm.memory (runningOn root vm).proc.pagetable
      (0x1000 + i * 8) = some (if i < count then 0x1F00 else 0) := by
    intro i le
    show userWord vm.memory root _ = _
    rw [userPage.userWord_eq (by decide) (by decide) (by unfold TABLE_ENTRIES; omega),
      wordAt_pointerBytes holds (by omega)]
  have string : UserString vm.memory root 0x1F00 [0x41] := by
    have there : Holds (vm.memory page) 0xF00 ([0x41] ++ [0]) := by
      intro k less
      have small : k < 2 := less
      rw [holds _ (by unfold PGSIZE; omega)]
      obtain rfl | rfl : k = 0 ∨ k = 1 := by omega
      · rfl
      · unfold pointerBytes
        rw [if_neg (by decide), if_neg (by omega)]
        rfl
    exact userPage.userString (by decide) (by decide) there (by decide) (by decide)
  refine ⟨live, place, runningOn root vm, caller, supplies, ⟨?_, ?_⟩, ?_⟩
  · intro i less
    rw [List.length_replicate] at less
    refine ⟨0x1F00, (word i less.le).trans (by rw [if_pos less]), by decide, ?_⟩
    rw [List.getElem_replicate]
    exact string
  · rw [List.length_replicate, word count (le_refl _), if_neg (Nat.lt_irrefl _)]
  · intro i less uarg found
    rw [List.length_replicate] at less
    rw [word i less.le, if_pos less] at found
    cases found
    decide

theorem find_plainImage : ([("/init", plainImage)].find? fun program => program.1 = "/init") =
    some ("/init", plainImage) :=
  rfl

theorem execDemand_plainImage : execDemand plainImage = 10 := by
  unfold execDemand
  rw [plainImage_plan]
  decide

/-- The documented limits: at most `MAXARG` strings, which fit into a page with the block. -/
def Documented (args : List (List UInt8)) : Prop := args.length ≤ MAXARG ∧ FitsPage args

instance (args : List (List UInt8)) : Decidable (Documented args) :=
  inferInstanceAs (Decidable (_ ∧ _))

/-- For a loadable image and enough memory, `exec` succeeds within the documented limits and returns
-1 otherwise: exactly when there is room for the stack page above the image, and there are not
`MAXARG` strings that fit. -/
theorem exec_limits_iff {program : String × Image} (caller : Caller live place s)
    (found : (programs.find? fun program => program.1 = path) = some program)
    (loadable : Loadable program.2 newSz) (enough : Supplies s.vm.kmem (execDemand program.2))
    (argv : ArgvOf s.vm.memory s.proc.pagetable uargv args)
    (low : LowStrings s.vm.memory s.proc.pagetable uargv args) :
    (∃ t, execProc programs path uargv s = .ok (if Documented args then 0 else -1, t)) ↔
      newSz < MAXUVA ∧ ¬ (args.length = MAXARG ∧ FitsPage args) := by
  by_cases small : newSz < MAXUVA
  · obtain ⟨result, vm, outcome, decides⟩ := exec_decides caller found loadable small enough argv low
    cases result with
    | none =>
        have rejected := decides.mp rfl
        constructor
        · rintro ⟨t, runs⟩
          refine ⟨small, fun both => ?_⟩
          rw [outcome, if_pos ⟨Nat.le_of_eq both.1, both.2⟩] at runs
          cases runs
        · rintro ⟨-, notFull⟩
          have undocumented : ¬ Documented args := by
            rintro ⟨few, fits⟩
            rcases Nat.lt_or_eq_of_le few with less | full
            · exact rejected ⟨less, fits⟩
            · exact notFull ⟨full, fits⟩
          refine ⟨{ s with vm }, ?_⟩
          rw [outcome, if_neg undocumented]
          rfl
    | some loaded =>
        have taken : args.length < MAXARG ∧ FitsPage args := by
          by_contra rejected
          exact Option.some_ne_none _ (decides.mpr rejected)
        obtain ⟨less, fits⟩ := taken
        rw [outcome, if_pos ⟨Nat.le_of_lt less, fits⟩]
        exact iff_of_true ⟨_, rfl⟩ ⟨small, fun both => Nat.ne_of_lt less both.1⟩
  · obtain ⟨root, entry, place', w, loads, ready⟩ := @execImage_loads s.vm live place program.2 uargv
      newSz s.proc.pagetable caller.twins caller.bare loadable enough
    rw [← exec_of_find found] at loads
    refine iff_of_false ?_ fun both => small both.1
    rintro ⟨t, runs⟩
    rw [execProc_fails (loads.trans (afterLoad_fails ready entry small))] at runs
    cases runs

theorem exec_limits_iff_twoArgs : ∃ live place s, Caller live place s ∧
    ∃ t, execProc [("/init", plainImage)] "/init" 0x1000 s =
      .ok (if Documented (List.replicate 2 [0x41]) then 0 else -1, t) := by
  have few : execDemand plainImage + 4 < 2 ^ 36 := by
    rw [execDemand_plainImage]
    decide
  obtain ⟨live, place, s, caller, supplies, argv, low⟩ := exists_call 2 (by decide) few
  refine ⟨live, place, s, caller, ?_⟩
  exact (exec_limits_iff caller find_plainImage loadable_plainImage supplies argv low).mpr
    ⟨by decide, by decide⟩

/-- `MAXARG` arguments are within the documented limits, and `exec` returns -1. -/
theorem exec_rejects_maxarg : ∃ live place s, Caller live place s ∧
    Loadable plainImage 0x2000 ∧ Supplies s.vm.kmem (execDemand plainImage) ∧
    ArgvOf s.vm.memory s.proc.pagetable 0x1000 (List.replicate 32 [0x41]) ∧
    LowStrings s.vm.memory s.proc.pagetable 0x1000 (List.replicate 32 [0x41]) ∧
    Documented (List.replicate 32 [0x41]) ∧
    ∃ t, execProc [("/init", plainImage)] "/init" 0x1000 s = .ok (-1, t) := by
  have few : execDemand plainImage + 4 < 2 ^ 36 := by
    rw [execDemand_plainImage]
    decide
  obtain ⟨live, place, s, caller, supplies, argv, low⟩ := exists_call 32 (by decide) few
  obtain ⟨result, vm, outcome, decides⟩ := exec_decides caller find_plainImage loadable_plainImage
    (by decide) supplies argv low
  obtain rfl : result = none := decides.mpr fun taken => absurd taken.1 (by decide)
  exact ⟨live, place, s, caller, loadable_plainImage, supplies, argv, low, by decide +kernel, _, outcome⟩

end Exec

end Av6
