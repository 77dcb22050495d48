import Av6.ExecRuns
import Av6.PairedRuns

/-!
# Runs of fork

What `allocproc` takes, and that `freeproc` and the failing branches give all of it back.  A call
that fails leaves the bitmaps, the lists and the objects of processes as they were, and in the
memory at most a new table of the kernel-stack window.
-/

namespace Av6

namespace Fork

open FallibleState Kmem Pmap Bitstring Exec

variable {s t u : Kernel} {w w' w'' : VmState} {E : Pmap.Panic → Prop}
  {live : CacheRef → Multiset Nat} {place place' place'' : Place}
  {p np pid idx kstack root : Nat} {cpu : Fin NCPU_MAX} {α : Type}

/-- The page table of a process: its root is in place, and it has no page at or above the size. -/
structure UserSpace (place : Place) (root sz : Nat) : Prop where
  rooted : place (.table root 0 0) = some root
  small : sz ≤ MAXUVA
  below : ∀ v, place (.leaf root v) ≠ none → v * PGSIZE < sz

/-- What holds of a process in the list: it has a slot of the window, and a user process has an
address space. -/
structure ProcOk (place : Place) (slotmap : Bitstr) (q : Proc) : Prop where
  slot : q.kslot < KSTACK_NSLOTS
  used : bitTest slotmap q.kslot = true
  space : ∀ root, q.pagetable = some root → UserSpace place root q.sz
  kernel : q.pagetable = none → q.sz = 0

/-- What holds between the calls: the pages are accounted for, the stacks are those of slots in
use, the objects of the listed processes are handed out, and no two of them share a page table. -/
structure KernelOk (live : CacheRef → Multiset Nat) (place : Place) (s : Kernel) : Prop where
  twins : Twins live place s.vm s.vm
  bare : place (.hand 0) = none
  useMag : s.procCache.useMag = true
  member : s.procCache ∈ s.vm.kmem.kmemCaches
  pids : s.pidmap.length = KSTACK_NSLOTS / 64
  slots : s.kstackSlotmap.length = KSTACK_NSLOTS / 64
  mapped : ∀ idx < KSTACK_NSLOTS, ∀ i < KSTACK_PAGES, place (stackSlot idx i) ≠ none →
    bitTest s.kstackSlotmap idx = true
  objects : ∀ p ∈ s.allproc, p ∈ live s.procCache
  process : ∀ p ∈ s.allproc, ProcOk place s.kstackSlotmap (s.procs p)
  apart : ∀ p ∈ s.allproc, ∀ q ∈ s.allproc, ∀ root, (s.procs p).pagetable = some root →
    (s.procs q).pagetable = some root → p = q

/-- A call that fails has changed neither the bitmaps and the lists nor the objects in use, and in
the memory it has made at most a table of the window. -/
structure Withdrawn (live : CacheRef → Multiset Nat) (place : Place) (s t : Kernel) : Prop where
  rest : t = { s with vm := t.vm, procs := t.procs }
  procs : ∀ p ∈ live s.procCache, t.procs p = s.procs p
  kept : KeepsCaches s.vm t.vm
  window : ∃ place', Twins live place' t.vm t.vm ∧ Grown IsWindowTable place place' s.vm s.vm t.vm t.vm

/-- A call that fails in two runs. -/
structure WithdrawnTwin (live : CacheRef → Multiset Nat) (place : Place) (s : Kernel) (w : VmState)
    (t : Kernel) (w' : VmState) : Prop where
  rest : t = { s with vm := t.vm, procs := t.procs }
  procs : ∀ p ∈ live s.procCache, t.procs p = s.procs p
  kept : KeepsCaches s.vm t.vm
  window : ∃ place', Twins live place' t.vm w' ∧ Grown IsWindowTable place place' s.vm w t.vm w'

theorem WithdrawnTwin.withdrawn (withdrawn : WithdrawnTwin live place s w t w') :
    Withdrawn live place s t := by
  obtain ⟨rest, procs, kept, place', twins, grown⟩ := withdrawn
  exact ⟨rest, procs, kept, place', twins.left, grown.left⟩

theorem pidAlloc_eq (s : Kernel) : pidAlloc s =
    .ok ((kstackSlotAlloc s.pidmap).1, { s with pidmap := (kstackSlotAlloc s.pidmap).2 }) := by
  have read : (get : Kern Kernel) s = .ok (s, s) := rfl
  unfold pidAlloc kstackSlotAlloc
  rw [bind_eq_of_ok read]
  dsimp only
  split
  · rfl
  · rfl

theorem pidAlloc_paired (length : s.pidmap.length = KSTACK_NSLOTS / 64) :
    Paired E pidAlloc s w fun r t w' => w = w' ∧ (r = -1 ∧ t = s ∨
      ∃ pid < KSTACK_NSLOTS, r = Int.ofNat pid ∧ bitTest s.pidmap pid = false ∧
        t = { s with pidmap := bitSet s.pidmap pid }) := by
  refine .inr ⟨_, _, w, pidAlloc_eq s, pidAlloc_eq _, rfl, ?_⟩
  rcases kstackSlotAlloc_cases s.pidmap length with none_ | ⟨pid, less, clear, some_⟩
  · rw [none_]
    exact .inl ⟨rfl, rfl⟩
  · rw [some_]
    exact .inr ⟨pid, less, rfl, clear, rfl⟩

theorem slotAlloc_paired (length : s.kstackSlotmap.length = KSTACK_NSLOTS / 64) :
    Paired E slotAlloc s w fun r t w' => w = w' ∧ (r = -1 ∧ t = s ∨
      ∃ idx < KSTACK_NSLOTS, r = Int.ofNat idx ∧ bitTest s.kstackSlotmap idx = false ∧
        t = { s with kstackSlotmap := bitSet s.kstackSlotmap idx }) := by
  refine .inr ⟨(kstackSlotAlloc s.kstackSlotmap).1,
    { s with kstackSlotmap := (kstackSlotAlloc s.kstackSlotmap).2 }, w, rfl, rfl, rfl, ?_⟩
  rcases kstackSlotAlloc_cases s.kstackSlotmap length with none_ | ⟨idx, less, clear, some_⟩
  · rw [none_]
    exact .inl ⟨rfl, rfl⟩
  · rw [some_]
    exact .inr ⟨idx, less, rfl, clear, rfl⟩

/-- `allocproc` has built a process. -/
structure Built (np pid idx kstack : Nat) (live : CacheRef → Multiset Nat) (place place' : Place)
    (s t : Kernel) : Prop where
  rest : t = { s with
    vm := t.vm
    pidmap := bitSet s.pidmap pid
    kstackSlotmap := bitSet s.kstackSlotmap idx
    procs := Function.update s.procs np (freshProc (s.procs np) pid idx kstack s.forkret) }
  free : pid < KSTACK_NSLOTS ∧ bitTest s.pidmap pid = false
  slot : idx < KSTACK_NSLOTS ∧ bitTest s.kstackSlotmap idx = false
  top : kstack ≠ 0
  kept : KeepsCaches s.vm t.vm
  fresh : np ∉ live s.procCache
  stacked : Stacked idx (fun _ => True) (live + Pi.single s.procCache {np}) place place'
    s.vm s.vm t.vm t.vm

/-- `allocproc` has built a process in two runs. -/
structure BuiltTwin (np pid idx kstack : Nat) (live : CacheRef → Multiset Nat)
    (place place' : Place) (s : Kernel) (w : VmState) (t : Kernel) (w' : VmState) : Prop where
  built : Built np pid idx kstack live place place' s t
  stacked : Stacked idx (fun _ => True) (live + Pi.single s.procCache {np}) place place'
    s.vm w t.vm w'

theorem KernelOk.free (ok : KernelOk live place s) (small : idx < KSTACK_NSLOTS)
    (clear : bitTest s.kstackSlotmap idx = false) (i : Nat) (low : i < KSTACK_PAGES) :
    place (stackSlot idx i) = none := by
  by_contra filled
  have used := ok.mapped idx small i low filled
  rw [clear] at used
  cases used

/-- `allocproc` builds a process, or it gives back what it has taken. -/
theorem allocproc_paired (ok : KernelOk live place s) (twins : Twins live place s.vm w) :
    Paired E (allocproc cpu) s w fun r t w' => r = none ∧ WithdrawnTwin live place s w t w' ∨
      ∃ np pid idx kstack place', r = some np ∧
        BuiltTwin np pid idx kstack live place place' s w t w' := by
  have slots := slots_eq
  have nothing : WithdrawnTwin live place s w s w :=
    ⟨rfl, fun _ _ => rfl, .refl _, place, twins, .refl _ _ _ _⟩
  unfold allocproc
  apply (pidAlloc_paired ok.pids).bind
  rintro _ _ _ ⟨rfl, ⟨rfl, rfl⟩ | ⟨pid, pidLess, rfl, pidClear, rfl⟩⟩
  · exact .ret (.inl ⟨rfl, nothing⟩)
  rw [if_neg (by simp)]
  have pidBack : bitClear (bitSet s.pidmap pid) pid = s.pidmap :=
    bitClear_bitSet (by rw [ok.pids]; omega) pidClear
  apply (slotAlloc_paired (s := { s with pidmap := bitSet s.pidmap pid }) ok.slots).bind
  rintro _ _ _ ⟨rfl, ⟨rfl, rfl⟩ | ⟨idx, less, rfl, clear, rfl⟩⟩
  · refine .update_bind rfl (.ret (.inl ⟨rfl, ?_⟩))
    show WithdrawnTwin live place s w { s with pidmap := bitClear (bitSet s.pidmap pid) pid } w
    rw [pidBack]
    exact nothing
  rw [if_neg (by simp)]
  have slotBack : kstackSlotFree (bitSet s.kstackSlotmap idx) idx = s.kstackSlotmap :=
    bitClear_bitSet (by rw [ok.slots]; omega) clear
  -- what is left when the slot and the pid are given back
  have gaveBack : ∀ {place' vm w'}, Stacked idx (fun _ => False) live place place' s.vm w vm w' →
      KeepsCaches s.vm vm → WithdrawnTwin live place s w { s with
        vm
        kstackSlotmap := kstackSlotFree (bitSet s.kstackSlotmap idx) idx
        pidmap := bitClear (bitSet s.pidmap pid) pid } w' := by
    intro place' vm w' stacked kept
    rw [slotBack, pidBack]
    exact ⟨rfl, fun _ _ => rfl, kept, place', stacked.twins,
      grown_of_stacked stacked (ok.free less clear)⟩
  have made := kstackAlloc_twin twins less ok.bare (ok.free less clear)
  generalize taken : { s with
    pidmap := bitSet s.pidmap pid
    kstackSlotmap := bitSet s.kstackSlotmap idx : Kernel } = s₁
  apply (Paired.onVm (s := s₁) (by rw [← taken]; exact made.orFails) (kstackAlloc_keepsSlabs _ _)).bind
  subst taken
  rintro kstack _ w₁ ⟨vm, rfl, ⟨-, place', stacked⟩, kept⟩
  split
  · rename_i failed
    refine .update_bind rfl (.update_bind rfl (.ret (.inl ⟨rfl,
      gaveBack (stacked.congr fun _ _ => ?_) kept⟩)))
    simp [failed]
  rename_i top
  refine .read_bind rfl ?_
  have member : s.procCache ∈ vm.kmem.kmemCaches := by
    rw [kept.kmemCaches]
    exact ok.member
  have serves := cacheAlloc_twin cpu stacked.twins member ok.useMag
  generalize here : { s with
    vm
    pidmap := bitSet s.pidmap pid
    kstackSlotmap := bitSet s.kstackSlotmap idx : Kernel } = s₂
  apply (Paired.vm (s := s₂) (by rw [← here]; exact serves.orFails)).bind
  subst here
  rintro _ _ w₂ ⟨vm', rfl, memory, memory', served, ⟨rfl, twins'⟩ | ⟨np, rfl, twins'⟩⟩
  · have around := aroundStack_of_memory stacked.around memory memory'
    have freed := kstackFree_twin twins' less
    generalize here : { s with
      vm := vm'
      pidmap := bitSet s.pidmap pid
      kstackSlotmap := bitSet s.kstackSlotmap idx : Kernel } = s₂
    apply (Paired.onVm (s := s₂) (by rw [← here]; exact freed.orFails) (kstackFree_keepsSlabs _ _)).bind
    subst here
    rintro _ _ w₃ ⟨vm'', rfl, ⟨place'', freed, -⟩, kept'⟩
    refine .update_bind rfl (.update_bind rfl (.ret (.inl ⟨rfl,
      gaveBack ⟨freed.twins, ?_, freed.filled⟩ ?_⟩)))
    · exact around.trans freed.around
    · exact (kept.trans (keepsCaches_of_served served)).trans kept'
  · have stacked' : Stacked idx (fun _ => True) (live + Pi.single s.procCache {np}) place place'
        s.vm w vm' w₂ := by
      refine ⟨twins', aroundStack_of_memory stacked.around memory memory', ?_⟩
      exact fun i low => (stacked.filled i low).trans (iff_of_true top trivial)
    refine .update_bind rfl (.ret (.inr ⟨np, pid, idx, kstack, place', rfl, ?_, stacked'⟩))
    refine ⟨rfl, ⟨pidLess, pidClear⟩, ⟨less, clear⟩, top, ?_, ?_, stacked'.left⟩
    · exact kept.trans (keepsCaches_of_served served)
    · exact object_fresh twins' (by rwa [served.kmemCaches])

/-- A single run of `allocproc`. -/
theorem allocproc_yields (ok : KernelOk live place s) :
    Yields (allocproc cpu) s fun r t => r = none ∧ Withdrawn live place s t ∨
      ∃ np pid idx kstack place', r = some np ∧ Built np pid idx kstack live place place' s t := by
  apply (allocproc_paired ok ok.twins).yields.mono
  rintro r t (⟨none_, withdrawn⟩ | ⟨np, pid, idx, kstack, place', some_, built⟩)
  · exact .inl ⟨none_, withdrawn.withdrawn⟩
  · exact .inr ⟨np, pid, idx, kstack, place', some_, built.built⟩

/-- The object of a process that has just been built. -/
theorem Built.object (built : Built np pid idx kstack live place place' s t) :
    t.procs np = freshProc (s.procs np) pid idx kstack s.forkret := by
  rw [built.rest]
  exact Function.update_self ..

/-- The top of a slot of the window of kernel stacks. -/
def kstackTop (idx : Nat) : Nat := KSTACK_WINDOW + (idx + 1) * KSTACK_SLOT_PAGES * PGSIZE

theorem kstackAlloc_top {v v' : VmState} (runs : kstackAlloc idx v = .ok (kstack, v')) :
    kstack = 0 ∨ kstack = kstackTop idx := by
  unfold kstackAlloc at runs
  obtain ⟨_, u, -, runs⟩ := exists_of_bind runs
  obtain ⟨made, u', -, runs⟩ := exists_of_bind runs
  cases made with
  | false =>
      cases runs
      exact .inl rfl
  | true =>
      cases runs
      exact .inr rfl

/-- The kernel stack of a new process is the one of its slot. -/
theorem allocproc_top (runs : allocproc cpu s = .ok (some np, t)) :
    (t.procs np).kstack = kstackTop (t.procs np).kslot := by
  unfold allocproc at runs
  obtain ⟨pid, s₁, -, runs⟩ := exists_of_bind runs
  split at runs
  · cases runs
  obtain ⟨slot, s₂, -, runs⟩ := exists_of_bind runs
  split at runs
  · obtain ⟨_, s₃, -, runs⟩ := exists_of_bind runs
    cases runs
  obtain ⟨kstack, s₃, made, runs⟩ := exists_of_bind runs
  split at runs
  · obtain ⟨_, s₄, -, runs⟩ := exists_of_bind runs
    obtain ⟨_, s₅, -, runs⟩ := exists_of_bind runs
    cases runs
  rename_i top
  obtain ⟨_, s₄, -, runs⟩ := exists_of_bind runs
  obtain ⟨object, s₅, -, runs⟩ := exists_of_bind runs
  cases object with
  | none =>
      obtain ⟨_, s₆, -, runs⟩ := exists_of_bind runs
      obtain ⟨_, s₇, -, runs⟩ := exists_of_bind runs
      obtain ⟨_, s₈, -, runs⟩ := exists_of_bind runs
      cases runs
  | some p =>
      obtain ⟨_, s₆, writes, runs⟩ := exists_of_bind runs
      cases writes
      cases runs
      obtain ⟨v, allocates, -⟩ := exists_of_onPart made
      dsimp only
      rw [Function.update_self]
      exact (kstackAlloc_top allocates).resolve_left top

/-- `freeproc` of a process that has been built and not been published, once its page table is
given back. -/
theorem freeproc_paired (ok : KernelOk live place s)
    (first : Paired E (freePagetable np) u w' fun _ t w'' =>
      BuiltTwin np pid idx kstack live place place' s w t w'') :
    Paired E (freeproc cpu np) u w' fun _ t w'' => WithdrawnTwin live place s w t w'' := by
  have slots := slots_eq
  unfold freeproc
  apply first.bind
  rintro - t w₁ ⟨built, second⟩
  obtain ⟨less, clear⟩ := built.slot
  have pidBack : bitClear (bitSet s.pidmap pid) pid = s.pidmap :=
    bitClear_bitSet (by have := ok.pids; have := built.free.1; omega) built.free.2
  have slotBack : kstackSlotFree (bitSet s.kstackSlotmap idx) idx = s.kstackSlotmap :=
    bitClear_bitSet (by have := ok.slots; omega) clear
  have freed := kstackFree_twin second.twins less
  have released : Paired E (freeKstack np) t w₁ fun _ u w₂ => u.vm.kmem.freelist ≠ [] ∧
      KeepsCaches s.vm u.vm ∧ (∃ place'', Stacked idx (fun _ => False)
        (live + Pi.single s.procCache {np}) place place'' s.vm w u.vm w₂) ∧
      u = { s with
        vm := u.vm
        pidmap := bitSet s.pidmap pid
        procs := Function.update s.procs np { t.procs np with kstack := 0 } } := by
    unfold freeKstack
    refine .read_bind rfl ?_
    have object := built.object
    rw [if_neg (by rw [object]; exact built.top)]
    have slot : (t.procs np).kslot = idx := by rw [object, freshProc]
    rw [slot]
    apply (Paired.onVm freed.orFails (kstackFree_keepsSlabs _ _)).bind
    rintro - _ w₂ ⟨vm, rfl, ⟨place'', freed, some_⟩, kept⟩
    refine .update_bind rfl (.update rfl ⟨?_, built.kept.trans kept, ⟨place'', freed.twins,
      second.around.trans freed.around, freed.filled⟩, ?_⟩)
    · exact some_ ⟨0, by decide, (built.stacked.filled 0 (by decide)).mpr trivial⟩
    · have rest := built.rest
      generalize t.procs np = q
      rw [rest]
      dsimp only
      rw [slotBack, Function.update_idem]
  apply released.bind
  rintro - v w₂ ⟨some_, kept, ⟨place'', stacked⟩, rest⟩
  refine .read_bind rfl (.update_bind rfl ?_)
  have pid_ : (v.procs np).pid = pid := by
    rw [rest]
    dsimp only
    rw [Function.update_self, built.object, freshProc]
  have cache : v.procCache = s.procCache := by rw [rest]
  have member : s.procCache ∈ v.vm.kmem.kmemCaches := by
    rw [kept.kmemCaches]
    exact ok.member
  rw [pid_, cache]
  have gives := cacheFree_twin cpu stacked.twins member ok.useMag some_
  apply (Paired.vm (s := { v with procCache := s.procCache, pidmap := bitClear v.pidmap pid })
    gives.orFails).mono
  rintro - _ w₃ ⟨vm, rfl, memory, memory', served, twins⟩
  refine ⟨?_, ?_, kept.trans (keepsCaches_of_served served), place'', twins, ?_⟩
  · rw [rest]
    dsimp only
    rw [pidBack]
  · intro p there
    rw [rest]
    refine Function.update_of_ne ?_ _ _
    rintro rfl
    exact built.fresh there
  · refine grown_of_stacked ⟨twins, ?_, stacked.filled⟩ (ok.free less clear)
    exact aroundStack_of_memory stacked.around memory memory'

theorem UserSpace.congr {sz : Nat} (space : UserSpace place root sz)
    (same : ∀ slot : Slot, slot.Of root → place' slot = place slot) : UserSpace place' root sz := by
  obtain ⟨rooted, small, below⟩ := space
  refine ⟨?_, small, fun v filled => below v ?_⟩
  · rw [same (.table root 0 0) rfl]
    exact rooted
  · rwa [same (.leaf root v) rfl] at filled

theorem not_ofStack {slot : Slot} (of : slot.Of root) : ¬ slot.OfStack idx := by
  cases slot with
  | table | leaf =>
      rintro (same | ⟨i, -, same⟩)
      · cases same
      · cases same
  | stackTable | stack | hand | client => exact of.elim

theorem other_stack {idx' i : Nat} (low : i < KSTACK_PAGES) (other : idx' ≠ idx) :
    ¬ (stackSlot idx' i).OfStack idx := by
  rintro (same | ⟨k, less, same⟩)
  · cases same
  · rw [← slotPage_stack, ← slotPage_stack] at same
    unfold KSTACK_PAGES at low less
    refine other (slotPage_inj ?_ ?_ same).1
    · unfold KSTACK_SLOT_PAGES KSTACK_GUARD_PAGES KSTACK_PAGES
      omega
    · unfold KSTACK_SLOT_PAGES KSTACK_GUARD_PAGES KSTACK_PAGES
      omega

/-- The lists after `proc_activate`, with the process that has been built. -/
def published (s : Kernel) (np pid idx : Nat) (q : Proc) (frames : Nat → Trapframe) (vm : VmState) :
    Kernel :=
  { s with
    vm
    pidmap := bitSet s.pidmap pid
    kstackSlotmap := bitSet s.kstackSlotmap idx
    procs := Function.update s.procs np q
    frames
    allproc := np :: s.allproc
    pidhash := Function.update s.pidhash (pid &&& (PIDHASH_BUCKETS - 1))
      (np :: s.pidhash (pid &&& (PIDHASH_BUCKETS - 1)))
    runq := s.runq ++ [np] }

/-- The address space of a new process, if it has one: its root is new, and nothing else has
changed place. -/
structure NewSpace (q : Proc) (place place' : Place) : Prop where
  others : ∀ slot : Slot, (∀ r, q.pagetable = some r → ¬ slot.Of r) → place' slot = place slot
  fresh : ∀ r, q.pagetable = some r → ∀ slot : Slot, slot.Of r → place slot = none
  space : ∀ r, q.pagetable = some r → UserSpace place' r q.sz
  kernel : q.pagetable = none → q.sz = 0

/-- The invariant holds again when the new process is in the lists. -/
theorem Built.published {q : Proc} {frames : Nat → Trapframe} {vm : VmState}
    (built : Built np pid idx kstack live place place' s t) (ok : KernelOk live place s)
    (twins : Twins (live + Pi.single s.procCache {np}) place'' vm vm) (kept : KeepsCaches s.vm vm)
    (new : NewSpace q place' place'') (slot : q.kslot = idx) :
    KernelOk (live + Pi.single s.procCache {np}) place''
      (published s np pid idx q frames vm) := by
  have slots := slots_eq
  have length := ok.slots
  obtain ⟨less, clear⟩ := built.slot
  have inside : idx / 64 < s.kstackSlotmap.length := by omega
  have marks : ∀ {i}, bitTest s.kstackSlotmap i = true →
      bitTest (bitSet s.kstackSlotmap idx) i = true := by
    intro i used
    rw [bitTest_bitSet inside, used, Bool.or_true]
  have notNew : ∀ {p}, p ∈ s.allproc → p ≠ np := by
    rintro p there rfl
    exact built.fresh (ok.objects p there)
  have only := built.stacked.within.only
  -- the page tables of the others
  have tree : ∀ {p r}, p ∈ s.allproc → (s.procs p).pagetable = some r →
      (∀ r', q.pagetable = some r' → r ≠ r') ∧ UserSpace place'' r (s.procs p).sz := by
    intro p r there has
    have space := (ok.process p there).space r has
    have apart : ∀ r', q.pagetable = some r' → r ≠ r' := by
      rintro r' has' rfl
      have of : (Slot.table r 0 0).Of r := rfl
      have gone := new.fresh r has' _ of
      rw [only _ (not_ofStack of), space.rooted] at gone
      cases gone
    refine ⟨apart, space.congr fun slot of => ?_⟩
    rw [new.others slot fun r' has' of' => apart r' has' (root_unique of of'), only _ (not_ofStack of)]
  refine ⟨twins, ?_, ok.useMag, ?_, ?_, ?_, ?_, ?_, ?_, ?_⟩
  · rw [new.others (.hand 0) fun _ _ => id, only (.hand 0)]
    · exact ok.bare
    · rintro (same | ⟨i, -, same⟩)
      · cases same
      · cases same
  · show s.procCache ∈ vm.kmem.kmemCaches
    rw [kept.kmemCaches]
    exact ok.member
  · exact (length_bitSet _ _).trans ok.pids
  · exact (length_bitSet _ _).trans ok.slots
  · intro i small k low filled
    by_cases same : i = idx
    · subst same
      show bitTest (bitSet s.kstackSlotmap i) i = true
      rw [bitTest_bitSet inside]
      simp
    · rw [new.others (stackSlot i k) fun _ _ => id, only _ (other_stack low same)] at filled
      exact marks (ok.mapped i small k low filled)
  · intro p there
    show p ∈ live s.procCache + (Pi.single s.procCache {np} : CacheRef → Multiset Nat) s.procCache
    rw [Pi.single_eq_same, Multiset.mem_add, Multiset.mem_singleton]
    rcases List.mem_cons.mp there with rfl | there
    · exact .inr rfl
    · exact .inl (ok.objects p there)
  · intro p there
    show ProcOk place'' (bitSet s.kstackSlotmap idx) (Function.update s.procs np q p)
    rcases List.mem_cons.mp there with rfl | there
    · rw [Function.update_self]
      refine ⟨by rwa [slot], ?_, new.space, new.kernel⟩
      rw [slot, bitTest_bitSet inside]
      simp
    · rw [Function.update_of_ne (notNew there)]
      have before := ok.process p there
      exact ⟨before.slot, marks before.used, fun r has => (tree there has).2, before.kernel⟩
  · intro p there p' there' r has has'
    replace has : (Function.update s.procs np q p).pagetable = some r := has
    replace has' : (Function.update s.procs np q p').pagetable = some r := has'
    rcases List.mem_cons.mp there with here | listed <;>
      rcases List.mem_cons.mp there' with here' | listed'
    · rw [here, here']
    · rw [here, Function.update_self] at has
      rw [Function.update_of_ne (notNew listed')] at has'
      exact absurd rfl ((tree listed' has').1 r has)
    · rw [here', Function.update_self] at has'
      rw [Function.update_of_ne (notNew listed)] at has
      exact absurd rfl ((tree listed has).1 r has')
    · rw [Function.update_of_ne (notNew listed)] at has
      rw [Function.update_of_ne (notNew listed')] at has'
      exact ok.apart p listed p' listed' r has has'

/-- The invariant holds after a call that has left at most tables of the window. -/
theorem KernelOk.withdrawn {place' : Place} {v : VmState} (ok : KernelOk live place s)
    (rest : t = { s with vm := t.vm, procs := t.procs })
    (procs : ∀ p ∈ live s.procCache, t.procs p = s.procs p) (kept : KeepsCaches s.vm t.vm)
    (vm : Twins live place' t.vm t.vm) (grown : Grown IsWindowTable place place' s.vm w t.vm v) :
    KernelOk live place' t := by
  have same : ∀ {slot : Slot}, (∀ i, slot ≠ .stackTable i) → place' slot = place slot := by
    intro slot other
    apply grown.only
    rintro ⟨i, table⟩
    exact other i table
  have object : ∀ {p}, p ∈ s.allproc → t.procs p = s.procs p := fun there =>
    procs _ (ok.objects _ there)
  generalize t.vm = v at *
  generalize t.procs = objects at *
  subst rest
  refine ⟨vm, ?_, ok.useMag, ?_, ok.pids, ok.slots, ?_, ok.objects, ?_, ?_⟩
  · rw [same (by rintro i ⟨⟩)]
    exact ok.bare
  · rw [kept.kmemCaches]
    exact ok.member
  · intro idx small i low filled
    rw [same (by rintro i ⟨⟩)] at filled
    exact ok.mapped idx small i low filled
  · intro p there
    show ProcOk place' s.kstackSlotmap (objects p)
    rw [object there]
    obtain ⟨slot, used, space, kernel⟩ := ok.process p there
    refine ⟨slot, used, fun r has => (space r has).congr fun slot of => same ?_, kernel⟩
    rintro i rfl
    exact of
  · intro p there p' there' r has has'
    replace has : (objects p).pagetable = some r := has
    replace has' : (objects p').pagetable = some r := has'
    rw [object there] at has
    rw [object there'] at has'
    exact ok.apart p there p' there' r has has'

/-- The invariant holds after a call that fails. -/
theorem Withdrawn.ok (withdrawn : Withdrawn live place s t) (ok : KernelOk live place s) :
    ∃ place', KernelOk live place' t ∧
      Grown IsWindowTable place place' s.vm s.vm t.vm t.vm := by
  obtain ⟨rest, procs, kept, place', twins, grown⟩ := withdrawn
  exact ⟨place', ok.withdrawn rest procs kept twins grown, grown⟩

theorem WithdrawnTwin.ok (withdrawn : WithdrawnTwin live place s w t w')
    (ok : KernelOk live place s) :
    ∃ place', KernelOk live place' t ∧ Twins live place' t.vm w' := by
  obtain ⟨rest, procs, kept, place', twins, grown⟩ := withdrawn
  exact ⟨place', ok.withdrawn rest procs kept twins.left grown, twins⟩

/-- The pages of the parent, if there is one, are copied to the new process. -/
def Inherits (parent : Option Nat) (q : Proc) (place place' : Place) (s : Kernel) : Prop :=
  ∀ p, parent = some p → ∃ root', q.pagetable = some root' ∧
    ∀ root, (s.procs p).pagetable = some root → ∀ v, place (.leaf root v) ≠ none →
      place' (.leaf root' v) ≠ none

/-- A new process is in the lists, under a pid that was free, with a stack in a slot that was. -/
structure Spawned (parent : Option Nat) (live : CacheRef → Multiset Nat) (place : Place)
    (pid : Nat) (s t : Kernel) : Prop where
  free : pid < KSTACK_NSLOTS ∧ bitTest s.pidmap pid = false
  made : ∃ np idx q frames vm place', t = published s np pid idx q frames vm ∧
    np ∉ live s.procCache ∧ q.pid = pid ∧ q.kslot = idx ∧ q.state = .runnable ∧
    idx < KSTACK_NSLOTS ∧ bitTest s.kstackSlotmap idx = false ∧
    (∀ i < KSTACK_PAGES, place' (stackSlot idx i) ≠ none) ∧ Inherits parent q place place' s ∧
    KernelOk (live + Pi.single s.procCache {np}) place' t

/-- The new process in two runs. -/
structure SpawnedTwin (parent : Option Nat) (live : CacheRef → Multiset Nat) (place : Place)
    (pid : Nat) (s t : Kernel) (w' : VmState) : Prop where
  free : pid < KSTACK_NSLOTS ∧ bitTest s.pidmap pid = false
  made : ∃ np idx q frames vm place', t = published s np pid idx q frames vm ∧
    np ∉ live s.procCache ∧ q.pid = pid ∧ q.kslot = idx ∧ q.state = .runnable ∧
    idx < KSTACK_NSLOTS ∧ bitTest s.kstackSlotmap idx = false ∧
    (∀ i < KSTACK_PAGES, place' (stackSlot idx i) ≠ none) ∧ Inherits parent q place place' s ∧
    KernelOk (live + Pi.single s.procCache {np}) place' t ∧
    Twins (live + Pi.single s.procCache {np}) place' vm w'

theorem SpawnedTwin.spawned {parent : Option Nat}
    (spawned : SpawnedTwin parent live place pid s t w') : Spawned parent live place pid s t := by
  obtain ⟨free, np, idx, q, frames, vm, place', after, fresh, pid_, slot, state, less, clear, stack,
    inherits, ok, -⟩ := spawned
  exact ⟨free, np, idx, q, frames, vm, place', after, fresh, pid_, slot, state, less, clear, stack,
    inherits, ok⟩

/-- The places in which a new process has its pages. -/
def OfNew (idx : Nat) (q : Proc) (slot : Slot) : Prop :=
  slot.OfStack idx ∨ ∃ r, q.pagetable = some r ∧ slot.Of r

/-- What a new process has of its parent: the size, and the registers but for a 0. -/
def Resembles (parent : Option Nat) (q : Proc) (s t : Kernel) : Prop :=
  ∀ p, parent = some p → q.sz = (s.procs p).sz ∧ t.frames q.tf =
    { s.frames (s.procs p).tf with x := Function.update (s.frames (s.procs p).tf).x 0 0 }

/-- A new process reads what its parent read. -/
def Clones (parent : Option Nat) (q : Proc) (s t : Kernel) : Prop :=
  ∀ p, parent = some p → ∀ r, (s.procs p).pagetable = some r → ∀ r', q.pagetable = some r' → ∀ va,
    userByte t.vm.memory r' va = userByte s.vm.memory r va

/-- All that a new process changes, in two runs. -/
structure Birth (parent : Option Nat) (live : CacheRef → Multiset Nat) (place place' : Place)
    (np pid idx : Nat) (q : Proc) (s : Kernel) (w : VmState) (t : Kernel) (w' : VmState) : Prop where
  after : t = published s np pid idx q t.frames t.vm
  free : pid < KSTACK_NSLOTS ∧ bitTest s.pidmap pid = false
  slot : idx < KSTACK_NSLOTS ∧ bitTest s.kstackSlotmap idx = false
  fresh : np ∉ live s.procCache
  named : q.pid = pid ∧ q.kslot = idx ∧ q.state = .runnable ∧ q.parent = parent
  top : q.kstack = kstackTop idx ∧ q.tf = kstackTop idx - TF_SIZE
  frames : ∀ a ≠ q.tf, t.frames a = s.frames a
  resembles : Resembles parent q s t
  stack : ∀ i < KSTACK_PAGES, place' (stackSlot idx i) ≠ none
  inherits : Inherits parent q place place' s
  clones : Clones parent q s t
  ok : KernelOk (live + Pi.single s.procCache {np}) place' t
  twins : Twins (live + Pi.single s.procCache {np}) place' t.vm w'
  within : Within (OfNew idx q) place place' s.vm w t.vm w'

theorem Birth.spawnedTwin {parent : Option Nat} {q : Proc}
    (birth : Birth parent live place place' np pid idx q s w t w') :
    SpawnedTwin parent live place pid s t w' := by
  obtain ⟨after, free, slot, fresh, ⟨pid_, kslot, state, -⟩, -, -, -, stack, inherits, -, ok, twins, -⟩ :=
    birth
  exact ⟨free, np, idx, q, t.frames, t.vm, place', after, fresh, pid_, kslot, state, slot.1, slot.2,
    stack, inherits, ok, twins⟩

/-- The pages of a new process are its own. -/
theorem BuiltTwin.ofNew {q : Proc} {vm : VmState}
    (two : BuiltTwin np pid idx kstack live place place' s w t w')
    (within : Within (fun slot => ∃ r, q.pagetable = some r ∧ slot.Of r) place' place''
      t.vm w' vm w'') : Within (OfNew idx q) place place'' s.vm w vm w'' :=
  (two.stacked.within.mono fun _ => .inl).trans (within.mono fun _ => .inr)

/-- `proc_activate` of a process that has been built. -/
theorem procActivate_paired {parent : Option Nat} {q : Proc} {frames : Nat → Trapframe}
    {vm : VmState} (pid_ : q.pid = pid) (rest : u = { s with
      vm
      pidmap := bitSet s.pidmap pid
      kstackSlotmap := bitSet s.kstackSlotmap idx
      procs := Function.update s.procs np q
      frames }) :
    Paired E (procActivate np parent) u w fun _ t w' => w = w' ∧ t = published s np pid idx
      { q with parent := parent <|> q.parent, state := .runnable } frames vm := by
  subst rest pid_
  refine .update rfl ⟨rfl, ?_⟩
  unfold published
  simp only [Function.update_self, Function.update_idem]

/-- A single run of it. -/
theorem procActivate_yields {parent : Option Nat} {q : Proc} {frames : Nat → Trapframe}
    {vm : VmState} (pid_ : q.pid = pid) (rest : u = { s with
      vm
      pidmap := bitSet s.pidmap pid
      kstackSlotmap := bitSet s.kstackSlotmap idx
      procs := Function.update s.procs np q
      frames }) :
    Yields (procActivate np parent) u fun _ t => t = published s np pid idx
      { q with parent := parent <|> q.parent, state := .runnable } frames vm := by
  apply (procActivate_paired pid_ rest).yields.mono
  rintro _ t ⟨-, after⟩
  exact after

/-- `kthread_add` makes a thread, or fails and gives back what it has taken. -/
theorem kthreadAdd_births (ok : KernelOk live place s) (twin : Twins live place s.vm w)
    (fn isrc : Nat) (name : List Char) :
    Paired E (kthreadAdd cpu fn isrc name) s w fun r t w' =>
      r = -1 ∧ WithdrawnTwin live place s w t w' ∨ ∃ np pid idx q place', r = Int.ofNat pid ∧
        q.pagetable = none ∧ Birth none live place place' np pid idx q s w t w' := by
  unfold kthreadAdd
  apply (allocproc_paired ok twin).post.bind
  rintro _ t w₁ ⟨runs, ⟨rfl, withdrawn⟩ | ⟨np, pid, idx, kstack, place', rfl, two⟩⟩
  · exact .ret (.inl ⟨rfl, withdrawn⟩)
  have built := two.built
  have top := allocproc_top runs
  refine .update_bind rfl (.read_bind rfl ?_)
  dsimp only
  rw [built.object] at top ⊢
  rw [Function.update_self]
  generalize thread : ({ freshProc (s.procs np) pid idx kstack s.forkret with
    context := _, isrc, name := copyName name } : Proc) = q
  have pid_ : q.pid = pid := by rw [← thread, freshProc]
  have slot : q.kslot = idx := by rw [← thread, freshProc]
  have noTable : q.pagetable = none := by rw [← thread, freshProc]
  have noSize : q.sz = 0 := by rw [← thread, freshProc]
  have orphan : q.parent = none := by rw [← thread, freshProc]
  have stackTop : q.kstack = kstackTop idx := by
    rw [← thread]
    exact top
  have frame : q.tf = kstackTop idx - TF_SIZE := by
    rw [← stackTop, ← thread, freshProc]
  have active : Paired E (procActivate np none) { t with procs := Function.update t.procs np q } w₁
      fun _ u w₂ => w₁ = w₂ ∧
        u = published s np pid idx { q with parent := none <|> q.parent, state := .runnable }
          s.frames t.vm := by
    refine procActivate_paired pid_ ?_
    rw [built.rest]
    simp only [Function.update_idem]
  apply active.bind
  rintro _ _ _ ⟨rfl, rfl⟩
  have new : NewSpace { q with parent := none <|> q.parent, state := .runnable } place' place' := by
    refine ⟨fun _ _ => rfl, ?_, ?_, fun _ => noSize⟩
    · intro r has
      rw [noTable] at has
      cases has
    · intro r has
      rw [noTable] at has
      cases has
  have stack : ∀ i < KSTACK_PAGES, place' (stackSlot idx i) ≠ none :=
    fun i low => (built.stacked.filled i low).mpr trivial
  refine .ret (.inr ⟨np, pid, idx, { q with parent := none <|> q.parent, state := .runnable }, place',
    ?_, noTable, rfl, built.free, built.slot, built.fresh, ⟨pid_, slot, rfl, orphan⟩,
    ⟨stackTop, frame⟩, fun _ _ => rfl, ?_, stack, ?_, ?_,
    built.published ok built.stacked.twins built.kept new slot, two.stacked.twins,
    two.ofNew (.refl _ _ _ _)⟩)
  · rw [pid_]
    rfl
  · rintro p ⟨⟩
  · rintro p ⟨⟩
  · rintro p ⟨⟩

/-- A single run of `kthread_add`. -/
theorem kthreadAdd_yields (ok : KernelOk live place s) (fn isrc : Nat) (name : List Char) :
    Yields (kthreadAdd cpu fn isrc name) s fun r t => r = -1 ∧ Withdrawn live place s t ∨
      ∃ pid, r = Int.ofNat pid ∧ Spawned none live place pid s t := by
  apply (kthreadAdd_births ok ok.twins fn isrc name).yields.mono
  rintro r t (⟨failed, withdrawn⟩ | ⟨np, pid, idx, q, place', some_, -, birth⟩)
  · exact .inl ⟨failed, withdrawn.withdrawn⟩
  · exact .inr ⟨pid, some_, birth.spawnedTwin.spawned⟩

/-- The memory is the same for the places of the process that has been built. -/
theorem BuiltTwin.elsewhere {vm : VmState}
    (built : BuiltTwin np pid idx kstack live place place' s w t w')
    (twins : Twins (live + Pi.single s.procCache {np}) place' vm w'')
    (within : Within (fun _ => False) place' place' t.vm w' vm w'') (kept : KeepsCaches t.vm vm) :
    BuiltTwin np pid idx kstack live place place' s w { t with vm } w'' := by
  obtain ⟨built, stacked⟩ := built
  have stacked' : Stacked idx (fun _ => True) (live + Pi.single s.procCache {np}) place place'
      s.vm w vm w'' :=
    ⟨twins, stacked.around.trans (aroundStack_of_within within), stacked.filled⟩
  refine ⟨⟨?_, built.free, built.slot, built.top, built.kept.trans kept, built.fresh,
    stacked'.left⟩, stacked'⟩
  rw [built.rest]

theorem Built.noTable (built : Built np pid idx kstack live place place' s t) :
    (t.procs np).pagetable = none := by
  rw [built.object, freshProc]

/-- The page table of a process that has been built is given back. -/
theorem freePagetable_paired {vm : VmState}
    (built : BuiltTwin np pid idx kstack live place place' s w t w')
    (changed : Changed root (live + Pi.single s.procCache {np}) place' place'' t.vm w' vm w'')
    (fresh : ∀ slot : Slot, slot.Of root → place' slot = none) (kept : KeepsCaches t.vm vm) :
    Paired E (freePagetable np) { t with
      vm
      procs := Function.update t.procs np { t.procs np with pagetable := some root } } w'' fun _ u v =>
        BuiltTwin np pid idx kstack live place place' s w u v := by
  refine .read_bind rfl ?_
  dsimp only
  rw [Function.update_self]
  generalize tabled : { t with
    vm
    procs := Function.update t.procs np { t.procs np with pagetable := some root } : Kernel } = t₁
  have discards := discard_twin changed fresh
  apply (Paired.onVm (s := t₁) (by rw [← tabled]; exact discards.orFails) (uvmfree_keepsSlabs _ _)).bind
  subst tabled
  rintro _ _ v ⟨u, rfl, undone, kept'⟩
  have same : ({ ({ t.procs np with pagetable := some root } : Proc) with pagetable := none } : Proc) =
      t.procs np := by
    rw [← built.built.noTable]
  have back := built.elsewhere undone.twins undone.within (kept.trans kept')
  refine .update rfl ?_
  dsimp only
  rw [Function.update_self, same, Function.update_idem, Function.update_eq_self]
  exact back

/-- `fork` makes a process, or fails and gives back what it has taken. -/
theorem fork_births {cpu' : Fin NCPU_MAX} (ok : KernelOk live place s)
    (twin : Twins live place s.vm w) (caller : p ∈ s.allproc) :
    Paired E (fork cpu cpu' p) s w fun r t w' => r = -1 ∧ WithdrawnTwin live place s w t w' ∨
      ∃ np pid idx q place', r = Int.ofNat pid ∧
        Birth (some p) live place place' np pid idx q s w t w' := by
  unfold fork
  apply (allocproc_paired ok twin).post.bind
  rintro _ t w₁ ⟨runs, ⟨rfl, withdrawn⟩ | ⟨np, pid, idx, kstack, place', rfl, two⟩⟩
  · exact .ret (.inl ⟨rfl, withdrawn⟩)
  have built := two.built
  have top := allocproc_top runs
  have twins := two.stacked.twins
  apply (Paired.onVm (uvmcreate_twin twins).orFails (ptalloc_keepsSlabs _)).bind
  rintro _ _ w₂ ⟨vm, rfl, ⟨rfl, -, twins₁, grown⟩ | ⟨root, rfl, bareRoot, -, twins₁, grown⟩, kept⟩
  · have two' := two.elsewhere twins₁ grown.within kept
    have first : Paired E (freePagetable np) { t with vm } w₂ fun _ u v =>
        BuiltTwin np pid idx kstack live place place' s w u v := by
      refine .read_bind rfl ?_
      rw [two'.built.noTable]
      exact .ret two'
    apply (freeproc_paired ok first).bind
    rintro _ u w₃ withdrawn
    exact .ret (.inl ⟨rfl, withdrawn⟩)
  refine .update_bind rfl (.read_bind rfl ?_)
  have notNew : p ≠ np := by
    rintro rfl
    exact built.fresh (ok.objects p caller)
  have parent : t.procs p = s.procs p := by
    rw [built.rest]
    exact Function.update_of_ne notNew _ _
  have process := ok.process p caller
  have fresh := fresh_of_bare twins bareRoot
  have rooted : Function.update place' (.table root 0 0) (some root) (.table root 0 0) = some root :=
    Function.update_self ..
  have planted : Within (Slot.Of root) place' (Function.update place' (.table root 0 0) (some root))
      t.vm w₁ vm w₂ := by
    refine grown.within.mono ?_
    rintro _ rfl
    exact rfl
  have source : ∀ r, (s.procs p).pagetable = some r →
      Function.update place' (.table root 0 0) (some root) (.table r 0 0) = some r ∧ r ≠ root := by
    intro r has
    have of : (Slot.table r 0 0).Of r := rfl
    have there : place' (.table r 0 0) = some r := by
      rw [built.stacked.within.only _ (not_ofStack of)]
      exact (process.space r has).rooted
    have apart : r ≠ root := by
      rintro rfl
      rw [fresh _ of] at there
      cases there
    refine ⟨?_, apart⟩
    rw [Function.update_of_ne]
    · exact there
    · rintro ⟨⟩
      exact apart rfl
  have small : (s.procs p).sz ≤ MAXUVA := by
    cases has : (s.procs p).pagetable with
    | none =>
        rw [process.kernel has]
        exact Nat.zero_le _
    | some r => exact (process.space r has).small
  have bare : Function.update place' (.table root 0 0) (some root) (.hand 0) = none := by
    rw [Function.update_of_ne (by rintro ⟨⟩), built.stacked.within.only, ok.bare]
    rintro (same | ⟨i, -, same⟩)
    · cases same
    · cases same
  have empty : ∀ v, Function.update place' (.table root 0 0) (some root) (.leaf root v) = none := by
    intro v
    rw [Function.update_of_ne (by rintro ⟨⟩), fresh (.leaf root v) rfl]
  have copies := copyFrom_twin twins₁ bare rooted empty small source process.kernel
  dsimp only
  rw [Function.update_of_ne notNew, parent]
  generalize tabled : { t with
    vm
    procs := Function.update t.procs np { t.procs np with pagetable := some root } : Kernel } = t₁
  apply (Paired.onVm (s := t₁) (by rw [← tabled]; exact copies.orFails)
    (copyFrom_keepsSlabs _ _ _ _)).bind
  subst tabled
  rintro made _ w₃ ⟨v, rfl, ⟨place₃, extended, copied⟩, kept'⟩
  have changed : Changed root (live + Pi.single s.procCache {np}) place' place₃ t.vm w₁ v w₃ :=
    ⟨extended.twins, planted.trans extended.within, extended.keeps _ _ rooted⟩
  cases made with
  | false =>
      have first := freePagetable_paired (E := E) two changed fresh (kept.trans kept')
      apply (freeproc_paired ok first).bind
      rintro _ u w₄ withdrawn
      exact .ret (.inl ⟨rfl, withdrawn⟩)
  | true =>
      refine .update_bind rfl (.read_bind rfl ?_)
      unfold Fork.inherit
      dsimp only
      rw [Function.update_self, Function.update_of_ne notNew, Function.update_self,
        Function.update_idem, parent, built.object]
      generalize child : ({ freshProc (s.procs np) pid idx kstack s.forkret with
        pagetable := some root, sz := (s.procs p).sz, name := copyName (s.procs p).name } : Proc) = q
      generalize framed : Function.update t.frames _ _ = frames
      have pid_ : q.pid = pid := by rw [← child, freshProc]
      have slot : q.kslot = idx := by rw [← child, freshProc]
      have table : q.pagetable = some root := by rw [← child]
      have size : q.sz = (s.procs p).sz := by rw [← child]
      have before : t.frames = s.frames := by rw [built.rest]
      have copiedFrame : frames = Function.update s.frames q.tf { s.frames (s.procs p).tf with
          x := Function.update (s.frames (s.procs p).tf).x 0 0 } := by
        rw [← framed, before, ← child]
      have stackTop : q.kstack = kstackTop idx := by
        rw [built.object] at top
        rw [← child]
        exact top
      have tf : q.tf = kstackTop idx - TF_SIZE := by
        rw [← stackTop, ← child, freshProc]
      have active : Paired E (procActivate np (some p))
          { t with vm := v, procs := Function.update t.procs np q, frames } w₃ fun _ u w₄ =>
            w₃ = w₄ ∧ u = published s np pid idx
              { q with parent := some p <|> q.parent, state := .runnable } frames v := by
        apply procActivate_paired pid_
        rw [built.rest]
        simp only [Function.update_idem]
      apply active.bind
      rintro _ _ _ ⟨rfl, rfl⟩
      have new :
          NewSpace { q with parent := some p <|> q.parent, state := .runnable } place' place₃ := by
        refine ⟨fun slot notOf => ?_, ?_, ?_, ?_⟩
        · exact changed.within.only slot (notOf root table)
        · intro r has
          obtain rfl : root = r := Option.some.inj (table.symm.trans has)
          exact fresh
        · intro r has
          obtain rfl : root = r := Option.some.inj (table.symm.trans has)
          refine ⟨changed.rooted, ?_, ?_⟩
          · exact size.trans_le small
          · intro v filled
            exact ((copied rfl).1 v filled).trans_eq size.symm
        · intro has
          cases table.symm.trans has
      have stack : ∀ i < KSTACK_PAGES, place₃ (stackSlot idx i) ≠ none := by
        intro i low
        rw [changed.within.only (stackSlot idx i) id]
        exact (built.stacked.filled i low).mpr trivial
      have ofNew : Within (OfNew idx { q with parent := some p <|> q.parent, state := .runnable })
          place place₃ s.vm w v w₃ := by
        apply two.ofNew (changed.within.mono _)
        intro slot of
        exact ⟨root, table, of⟩
      refine .ret (.inr ⟨np, pid, idx, { q with parent := some p <|> q.parent, state := .runnable },
        place₃, ?_, rfl, built.free, built.slot, built.fresh, ⟨pid_, slot, rfl, rfl⟩, ⟨stackTop, tf⟩,
        ?_, ?_, stack, ?_, ?_,
        built.published ok changed.left.twins ((built.kept.trans kept).trans kept') new slot,
        changed.twins, ofNew⟩)
      · rw [pid_]
        rfl
      · intro a other
        show frames a = s.frames a
        rw [copiedFrame, Function.update_of_ne other]
      · rintro _ ⟨⟩
        refine ⟨size, ?_⟩
        show frames q.tf = _
        rw [copiedFrame, Function.update_self]
      · rintro _ ⟨⟩
        refine ⟨root, table, fun r has v filled => (copied rfl).2.1 r has v ?_ ?_⟩
        · exact (process.space r has).below v filled
        · have of : (Slot.leaf r v).Of r := rfl
          rw [Function.update_of_ne (by rintro ⟨⟩), built.stacked.within.only _ (not_ofStack of)]
          exact filled
      · rintro _ ⟨⟩ r has r' has' va
        obtain rfl : root = r' := Option.some.inj (table.symm.trans has')
        have notRoot : ∀ {slot : Slot}, slot.Of r → ¬ slot.Of root := fun of of' =>
          (source r has).2 (root_unique of of')
        have before : ∀ {slot : Slot}, slot.Of r → place' slot = place slot := fun of =>
          built.stacked.within.only _ (not_ofStack of)
        have same : TreeSame place r s.vm.memory vm.memory := by
          intro slot page off of there
          have first := (built.stacked.within.contents slot page off (not_ofStack of) there).1
          rw [← before of] at there
          exact (planted.contents slot page off (notRoot of) there).1.trans first
        have inside : ∀ v, Function.update place' (.table root 0 0) (some root) (.leaf r v) ≠ none →
            v * PGSIZE < (s.procs p).sz := by
          intro v filled
          have of : (Slot.leaf r v).Of r := rfl
          rw [Function.update_of_ne (by rintro ⟨⟩), before of] at filled
          exact (process.space r has).below v filled
        exact ((copied rfl).2.2 r has inside va).trans
          (same.userByte_eq ok.twins (process.space r has).rooted va)

theorem fork_paired {cpu' : Fin NCPU_MAX} (ok : KernelOk live place s)
    (twin : Twins live place s.vm w) (caller : p ∈ s.allproc) :
    Paired E (fork cpu cpu' p) s w fun r t w' => r = -1 ∧ WithdrawnTwin live place s w t w' ∨
      ∃ pid, r = Int.ofNat pid ∧ SpawnedTwin (some p) live place pid s t w' := by
  apply (fork_births ok twin caller).mono
  rintro r t w' (failed | ⟨np, pid, idx, q, place', some_, birth⟩)
  · exact .inl failed
  · exact .inr ⟨pid, some_, birth.spawnedTwin⟩

/-- A single run of `fork`. -/
theorem fork_yields {cpu' : Fin NCPU_MAX} (ok : KernelOk live place s) (caller : p ∈ s.allproc) :
    Yields (fork cpu cpu' p) s fun r t => r = -1 ∧ Withdrawn live place s t ∨
      ∃ pid, r = Int.ofNat pid ∧ Spawned (some p) live place pid s t := by
  apply (fork_paired ok ok.twins caller).yields.mono
  rintro r t (⟨failed, withdrawn⟩ | ⟨pid, some_, spawned⟩)
  · exact .inl ⟨failed, withdrawn.withdrawn⟩
  · exact .inr ⟨pid, some_, spawned.spawned⟩

end Fork

end Av6
