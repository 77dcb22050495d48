import Av6.ForkAtomic
import Av6.PtableOwners
import Av6.PtableRuns

/-!
# Coherence of the process table

What every step of a creation or a release keeps, and what follows for `pid_lookup` and `kill`.
-/

namespace Av6

namespace Ptable

open Fork Bitstring Pmap

variable {T : Type} {s u : Table T} {t : T} {a : Task} {k : Kernel} {r : Resource}
  {p np bucket : Nat}

structure TableOk (s : Table T) : Prop where
  owned : ∀ r, Owned (s.inUse r) r.reserved (s.has r)
  pids : s.kernel.pidmap.length = KSTACK_NSLOTS / 64
  slots : s.kernel.kstackSlotmap.length = KSTACK_NSLOTS / 64
  listed : s.kernel.allproc.Nodup
  hashed : ∀ bucket p, p ∈ s.kernel.pidhash bucket ↔
    p ∈ s.kernel.allproc ∧ bucket = pidBucket (s.kernel.procs p).pid
  hashedOnce : ∀ bucket, (s.kernel.pidhash bucket).Nodup
  stacked : ∀ p, (p ∈ s.kernel.allproc ∨ ∃ t, (s.tasks t).stacked = some p) →
    (s.kernel.procs p).kstack ≠ 0

theorem TableOk.mem_objects (ok : TableOk s) (listed : p ∈ s.kernel.allproc) : p ∈ s.objects :=
  (ok.owned .object).mem_used (Table.has_published listed)

/-- What is private is not listed. -/
theorem TableOk.unlisted (ok : TableOk s) (own : (s.tasks t).has s.kernel.procs .object = some p) :
    p ∉ s.kernel.allproc := by
  intro listed
  have both := (ok.owned .object).distinct (.published p) (.task t) p
    (Table.has_published listed) own
  cases both

/-- Neither the lists nor what is in them change. -/
theorem TableOk.congr (ok : TableOk s) (allproc : u.kernel.allproc = s.kernel.allproc)
    (pidhash : u.kernel.pidhash = s.kernel.pidhash) (same : SameFields s u)
    (pids : u.kernel.pidmap.length = s.kernel.pidmap.length)
    (slots : u.kernel.kstackSlotmap.length = s.kernel.kstackSlotmap.length)
    (stacked : ∀ p, (p ∈ s.kernel.allproc ∨ ∃ t, (u.tasks t).stacked = some p) →
      (u.kernel.procs p).kstack ≠ 0)
    (owned : ∀ r, Owned (u.inUse r) r.reserved (u.has r)) : TableOk u where
  owned := owned
  pids := pids.trans ok.pids
  slots := slots.trans ok.slots
  listed := by
    rw [allproc]
    exact ok.listed
  hashed := by
    intro bucket p
    rw [pidhash, allproc, ok.hashed bucket p]
    apply and_congr_right
    intro listed
    have pid : (u.kernel.procs p).pid = (s.kernel.procs p).pid :=
      same .pid p (ok.mem_objects listed)
    rw [pid]
  hashedOnce := by
    rw [pidhash]
    exact ok.hashedOnce
  stacked := by
    rw [allproc]
    exact stacked

/-- Only objects change, and their numbers stay. -/
theorem TableOk.setKernel (ok : TableOk s) (allproc : k.allproc = s.kernel.allproc)
    (pidhash : k.pidhash = s.kernel.pidhash) (pidmap : k.pidmap = s.kernel.pidmap)
    (slotmap : k.kstackSlotmap = s.kernel.kstackSlotmap)
    (fields : ∀ (r : Resource) p, r.field p (k.procs p) = r.field p (s.kernel.procs p))
    (stacked : ∀ p, (p ∈ s.kernel.allproc ∨ ∃ t, (s.tasks t).stacked = some p) →
      (k.procs p).kstack ≠ 0) : TableOk { s with kernel := k } := by
  have same : SameFields s { s with kernel := k } := fun r p _ => fields r p
  apply ok.congr (u := { s with kernel := k }) allproc pidhash same
  · rw [pidmap]
  · rw [slotmap]
  · exact stacked
  · intro r
    have unmoved : Table.has { s with kernel := k } r = s.has r := by
      ext1 h
      exact Table.has_congr (ok.owned .object) allproc same fun _ _ => rfl
    have used : Table.inUse { s with kernel := k } r = s.inUse r := by
      cases r with
      | pid => exact congrArg bits pidmap
      | slot => exact congrArg bits slotmap
      | object => rfl
    rw [unmoved, used]
    exact ok.owned r

/-- Objects change, but not in what identifies them. -/
structure Marks (k k' : Kernel) : Prop where
  allproc : k'.allproc = k.allproc
  pidhash : k'.pidhash = k.pidhash
  pidmap : k'.pidmap = k.pidmap
  slotmap : k'.kstackSlotmap = k.kstackSlotmap
  same : ∀ p, SameIds (k.procs p) (k'.procs p)

theorem TableOk.mark (ok : TableOk s) (marks : Marks s.kernel k) :
    TableOk { s with kernel := k } := by
  apply ok.setKernel marks.allproc marks.pidhash marks.pidmap marks.slotmap
  · exact fun r p => r.field_congr (marks.same p) p
  · intro p has
    rw [(marks.same p).2.2]
    exact ok.stacked p has

variable [DecidableEq T]

/-- A thread moves on, and the lists stay. -/
theorem TableOk.put (ok : TableOk s) (tasks : u.tasks = Function.update s.tasks t a)
    (allproc : u.kernel.allproc = s.kernel.allproc)
    (pidhash : u.kernel.pidhash = s.kernel.pidhash) (same : SameFields s u)
    (pids : u.kernel.pidmap.length = s.kernel.pidmap.length)
    (slots : u.kernel.kstackSlotmap.length = s.kernel.kstackSlotmap.length)
    (others : ∀ p ∈ s.objects, s.has .object (.task t) ≠ some p →
      (u.kernel.procs p).kstack = (s.kernel.procs p).kstack)
    (stacked : ∀ p, a.stacked = some p → (u.kernel.procs p).kstack ≠ 0)
    (owned : ∀ r, Owned (u.inUse r) r.reserved
      (Function.update (s.has r) (.task t) (a.has u.kernel.procs r))) : TableOk u := by
  apply ok.congr allproc pidhash same pids slots
  · have kept : ∀ h p, s.has .object h = some p → h ≠ .task t →
        (s.kernel.procs p).kstack ≠ 0 → (u.kernel.procs p).kstack ≠ 0 := by
      intro h p own other stack
      rw [others p ((ok.owned .object).mem_used own)]
      · exact stack
      · intro this
        exact other ((ok.owned .object).distinct h (.task t) p own this)
    rintro p (listed | ⟨t', there⟩)
    · exact kept (.published p) p (Table.has_published listed) (by simp)
        (ok.stacked p (.inl listed))
    · rw [tasks] at there
      by_cases this : t' = t
      · rw [this, Function.update_self] at there
        exact stacked p there
      · rw [Function.update_of_ne this] at there
        exact kept (.task t') p (Task.has_of_stacked there) (by simpa using this)
          (ok.stacked p (.inr ⟨t', there⟩))
  · intro r
    rw [Table.has_update (ok.owned .object) tasks allproc same]
    exact owned r

/-- The thread that moves on has what it had. -/
theorem TableOk.keep (ok : TableOk s) (r : Resource) {procs : Nat → Fork.Proc}
    (same : a.has procs r = (s.tasks t).has s.kernel.procs r) :
    Owned (s.inUse r) r.reserved (Function.update (s.has r) (.task t) (a.has procs r)) := by
  have here : s.has r (.task t) = a.has procs r := same.symm
  rw [← here, Function.update_eq_self]
  exact ok.owned r

/-- A thread moves on, and only bitmaps change. -/
theorem TableOk.setMaps (ok : TableOk s) {pidmap slotmap : Bitstr}
    (pids : pidmap.length = s.kernel.pidmap.length)
    (slots : slotmap.length = s.kernel.kstackSlotmap.length)
    (stacked : ∀ p, a.stacked = some p → (s.tasks t).stacked = some p)
    (pid : Owned (bits pidmap) Resource.pid.reserved
      (Function.update (s.has .pid) (.task t) (a.has s.kernel.procs .pid)))
    (slot : Owned (bits slotmap) Resource.slot.reserved
      (Function.update (s.has .slot) (.task t) (a.has s.kernel.procs .slot)))
    (object : a.has s.kernel.procs .object = (s.tasks t).has s.kernel.procs .object) :
    TableOk (s.put t a { s.kernel with pidmap, kstackSlotmap := slotmap }) := by
  apply ok.put (t := t) (a := a)
  case tasks => rfl
  case allproc => rfl
  case pidhash => rfl
  case same => exact fun _ _ _ => rfl
  case pids => exact pids
  case slots => exact slots
  case others => exact fun _ _ _ => rfl
  case stacked => exact fun p there => ok.stacked p (.inr ⟨t, stacked p there⟩)
  case owned =>
    intro r
    cases r with
    | pid => exact pid
    | slot => exact slot
    | object => exact ok.keep .object object

/-- A thread moves on, and nothing changes hands. -/
theorem TableOk.advance (ok : TableOk s)
    (stacked : ∀ p, a.stacked = some p → (s.tasks t).stacked = some p)
    (same : ∀ r, a.has s.kernel.procs r = (s.tasks t).has s.kernel.procs r) :
    TableOk (s.put t a s.kernel) :=
  ok.setMaps rfl rfl stacked (ok.keep .pid (same .pid)) (ok.keep .slot (same .slot)) (same .object)

theorem pidAlloc_inv {kernel : Kernel} {pid : Int} (runs : Fork.pidAlloc kernel = .ok (pid, k)) :
    (bitAlloc KSTACK_NSLOTS kernel.pidmap).1 = pid ∧
      k = { kernel with pidmap := (bitAlloc KSTACK_NSLOTS kernel.pidmap).2 } := by
  rw [pidAlloc_eq, kstackSlotAlloc_eq] at runs
  injection runs with same
  injection same with found after
  exact ⟨found, after.symm⟩

theorem slotAlloc_inv {kernel : Kernel} {slot : Int}
    (runs : Fork.slotAlloc kernel = .ok (slot, k)) :
    (bitAlloc KSTACK_NSLOTS kernel.kstackSlotmap).1 = slot ∧
      k = { kernel with kstackSlotmap := (bitAlloc KSTACK_NSLOTS kernel.kstackSlotmap).2 } := by
  have call : slotAlloc kernel = .ok ((kstackSlotAlloc kernel.kstackSlotmap).1,
      { kernel with kstackSlotmap := (kstackSlotAlloc kernel.kstackSlotmap).2 }) := rfl
  rw [call, kstackSlotAlloc_eq] at runs
  injection runs with same
  injection same with found after
  exact ⟨found, after.symm⟩

omit [DecidableEq T] in
theorem TableOk.covered_pids (ok : TableOk s) :
    KSTACK_NSLOTS ≤ s.kernel.pidmap.length * 64 := by
  rw [ok.pids]
  decide

omit [DecidableEq T] in
theorem TableOk.covered_slots (ok : TableOk s) :
    KSTACK_NSLOTS ≤ s.kernel.kstackSlotmap.length * 64 := by
  rw [ok.slots]
  decide

/-- `pid_alloc` returns a pid. -/
theorem TableOk.takePid (ok : TableOk s) {pid : Nat} (at_ : s.tasks t = .idle)
    (runs : Fork.pidAlloc s.kernel = .ok (Int.ofNat pid, k)) : TableOk (s.put t (.pid pid) k) := by
  obtain ⟨found, rfl⟩ := pidAlloc_inv runs
  obtain ⟨unused, after⟩ := bits_bitAlloc ok.covered_pids found
  apply ok.setMaps
  case pids => exact length_bitAlloc ok.covered_pids
  case slots => rfl
  case stacked => exact fun p has => by cases has
  case pid =>
    rw [after]
    apply (ok.owned .pid).take unused
    rw [Table.has, at_, Task.has]
    all_goals simp
  case slot =>
    apply ok.keep .slot
    rw [at_]
    rfl
  case object =>
    rw [at_]
    rfl

/-- `kstack_slot_alloc` returns a slot. -/
theorem TableOk.takeSlot (ok : TableOk s) {pid slot : Nat} (at_ : s.tasks t = .pid pid)
    (runs : Fork.slotAlloc s.kernel = .ok (Int.ofNat slot, k)) :
    TableOk (s.put t (.slot pid slot) k) := by
  obtain ⟨found, rfl⟩ := slotAlloc_inv runs
  obtain ⟨unused, after⟩ := bits_bitAlloc ok.covered_slots found
  apply ok.setMaps
  case pids => rfl
  case slots => exact length_bitAlloc ok.covered_slots
  case stacked => exact fun p has => by cases has
  case pid =>
    apply ok.keep .pid
    rw [at_]
    rfl
  case slot =>
    rw [after]
    apply (ok.owned .slot).take unused
    rw [Table.has, at_]
    rfl
  case object =>
    rw [at_]
    rfl

/-- `pid_free` of the pid that the thread has. -/
theorem TableOk.givePid (ok : TableOk s) {pid : Nat}
    (own : s.has .pid (.task t) = some pid)
    (none_ : a.has s.kernel.procs .pid = none)
    (slot : a.has s.kernel.procs .slot = (s.tasks t).has s.kernel.procs .slot)
    (object : a.has s.kernel.procs .object = (s.tasks t).has s.kernel.procs .object)
    (bare : a.stacked = none) (runs : Fork.pidFree pid s.kernel = .ok ((), k)) :
    TableOk (s.put t a k) := by
  cases runs
  have inside := lt_of_mem_bits ((ok.owned .pid).mem_used own)
  apply ok.setMaps
  case pids => exact length_bitClear _ _
  case slots => rfl
  case stacked => simp [bare]
  case pid =>
    rw [none_, bits_bitClear inside]
    exact (ok.owned .pid).give own
  case slot => exact ok.keep .slot slot
  case object => exact object

/-- `kstack_slot_free` of the slot that the thread has. -/
theorem TableOk.giveSlot (ok : TableOk s) {slot : Nat}
    (own : s.has .slot (.task t) = some slot)
    (none_ : a.has s.kernel.procs .slot = none)
    (pid : a.has s.kernel.procs .pid = (s.tasks t).has s.kernel.procs .pid)
    (object : a.has s.kernel.procs .object = (s.tasks t).has s.kernel.procs .object)
    (bare : a.stacked = none) (runs : Fork.slotFree slot s.kernel = .ok ((), k)) :
    TableOk (s.put t a k) := by
  cases runs
  have inside := lt_of_mem_bits ((ok.owned .slot).mem_used own)
  apply ok.setMaps
  case pids => rfl
  case slots => exact length_bitClear _ _
  case stacked => simp [bare]
  case pid => exact ok.keep .pid pid
  case slot =>
    rw [none_]
    show Owned (bits (bitClear s.kernel.kstackSlotmap slot)) _ _
    rw [bits_bitClear inside]
    exact (ok.owned .slot).give own
  case object => exact object

/-- An object is written to. -/
structure Writes (k : Kernel) (p : Nat) (q : Fork.Proc) (k' : Kernel) : Prop where
  allproc : k'.allproc = k.allproc
  pidhash : k'.pidhash = k.pidhash
  pidmap : k'.pidmap = k.pidmap
  slotmap : k'.kstackSlotmap = k.kstackSlotmap
  this : k'.procs p = q
  others : ∀ p', p' ≠ p → k'.procs p' = k.procs p'

theorem setProc_writes {f : Fork.Proc → Fork.Proc} {kernel : Kernel}
    (runs : setProc p f kernel = .ok ((), k)) : Writes kernel p (f (kernel.procs p)) k := by
  cases runs
  exact ⟨rfl, rfl, rfl, rfl, Function.update_self .., fun _ other => Function.update_of_ne other ..⟩

/-- An object that nobody has is written to, with the numbers that the thread has. -/
theorem TableOk.takeObject (ok : TableOk s) {q : Fork.Proc}
    (none_ : (s.tasks t).has s.kernel.procs .object = none)
    (pid : (s.tasks t).has s.kernel.procs .pid = some q.pid)
    (slot : (s.tasks t).has s.kernel.procs .slot = some q.kslot)
    (stack : q.kstack ≠ 0) (unused : np ∉ s.objects) (writes : Writes s.kernel np q k) :
    TableOk { s.put t (.built np) k with objects := insert np s.objects } := by
  have others : ∀ p ∈ s.objects, k.procs p = s.kernel.procs p := by
    intro p there
    apply writes.others
    rintro rfl
    exact unused there
  apply ok.put (t := t) (a := .built np)
  case tasks => rfl
  case allproc => exact writes.allproc
  case pidhash => exact writes.pidhash
  case same => exact fun r p there => congrArg (r.field p ·) (others p there)
  case pids => exact congrArg List.length writes.pidmap
  case slots => exact congrArg List.length writes.slotmap
  case others => exact fun p there _ => congrArg Proc.kstack (others p there)
  case stacked =>
    rintro p ⟨⟩
    show (k.procs np).kstack ≠ 0
    rw [writes.this]
    exact stack
  case owned =>
    intro r
    cases r with
    | pid =>
        show Owned (bits k.pidmap) _ _
        rw [writes.pidmap]
        apply ok.keep .pid
        rw [pid, ← writes.this]
        rfl
    | slot =>
        show Owned (bits k.kstackSlotmap) _ _
        rw [writes.slotmap]
        apply ok.keep .slot
        rw [slot, ← writes.this]
        rfl
    | object => exact (ok.owned .object).take unused none_

/-- `kmem_cache_free` -/
theorem TableOk.giveObject (ok : TableOk s) (at_ : s.tasks t = .pidFreed np) :
    TableOk { s.put t .idle s.kernel with objects := s.objects \ {np} } := by
  have own : s.has .object (.task t) = some np := by
    rw [Table.has, at_]
    rfl
  apply ok.put (t := t) (a := .idle)
  case tasks => rfl
  case allproc => rfl
  case pidhash => rfl
  case same => exact fun _ _ _ => rfl
  case pids => rfl
  case slots => rfl
  case others => exact fun _ _ _ => rfl
  case stacked => exact fun p has => by cases has
  case owned =>
    intro r
    cases r with
    | pid =>
        apply ok.keep .pid
        rw [at_]
        rfl
    | slot =>
        apply ok.keep .slot
        rw [at_]
        rfl
    | object => exact (ok.owned .object).give own

theorem pidBucket_natCast (pid : Nat) : pidBucket pid = pid &&& (PIDHASH_BUCKETS - 1) := by
  unfold pidBucket
  have low : pid &&& (2 ^ 6 - 1) = pid % 2 ^ 6 := Nat.and_two_pow_sub_one_eq_mod pid 6
  have buckets : PIDHASH_BUCKETS = 2 ^ 6 := rfl
  rw [buckets, low]
  exact Int.toNat_natCast _

/-- What `proc_activate` does to the tables. -/
structure Activates (k : Kernel) (np : Nat) (k' : Kernel) : Prop where
  allproc : k'.allproc = np :: k.allproc
  pidhash : k'.pidhash = Function.update k.pidhash (pidBucket (k.procs np).pid)
    (np :: k.pidhash (pidBucket (k.procs np).pid))
  pidmap : k'.pidmap = k.pidmap
  slotmap : k'.kstackSlotmap = k.kstackSlotmap
  same : ∀ p, SameIds (k.procs p) (k'.procs p)

theorem procActivate_activates {kernel : Kernel} {parent : Option Nat}
    (runs : procActivate np parent kernel = .ok ((), k)) : Activates kernel np k := by
  cases runs
  constructor
  case allproc => rfl
  case pidhash =>
    rw [pidBucket_natCast]
  case pidmap => rfl
  case slotmap => rfl
  case same =>
    intro p
    show SameIds _ (Function.update kernel.procs np _ p)
    by_cases this : p = np
    · rw [this, Function.update_self]
      exact ⟨rfl, rfl, rfl⟩
    · rw [Function.update_of_ne this]
      exact ⟨rfl, rfl, rfl⟩

/-- A private object goes to the lists. -/
theorem TableOk.activate (ok : TableOk s) (at_ : s.tasks t = .built np)
    (activates : Activates s.kernel np k) : TableOk (s.put t .idle k) := by
  have own : s.has .object (.task t) = some np := by
    rw [Table.has, at_]
    rfl
  have unlisted := ok.unlisted own
  have fields : ∀ (r : Resource) p, r.field p (k.procs p) = r.field p (s.kernel.procs p) :=
    fun r p => r.field_congr (activates.same p) p
  have pid : ∀ p, (k.procs p).pid = (s.kernel.procs p).pid := fields .pid
  have moved : ∀ r, Owned (s.inUse r) r.reserved ((s.put t .idle k).has r) := by
    intro r
    apply (ok.owned r).move (x := .task t) (y := .published np)
    · simp only [Table.has, Table.tasks_put, if_true]
      rfl
    · exact Table.has_unpublished unlisted
    · have listed : np ∈ (s.put t .idle k).kernel.allproc := by
        show np ∈ k.allproc
        rw [activates.allproc]
        exact List.mem_cons_self ..
      rw [Table.has_published listed, Table.has, at_]
      exact congrArg some (fields r np)
    · intro x notTask notThis
      cases x with
      | published p =>
          have other : p ≠ np := by simpa using notThis
          simp only [Table.has, Table.put, activates.allproc, List.mem_cons, other, false_or,
            fields]
      | task t' =>
          have other : t' ≠ t := by simpa using notTask
          simp only [Table.has, Table.tasks_put, if_neg other]
          exact Task.has_congr fun p _ => fields r p
  constructor
  case owned =>
    intro r
    have used : (s.put t .idle k).inUse r = s.inUse r := by
      cases r with
      | pid => exact congrArg bits activates.pidmap
      | slot => exact congrArg bits activates.slotmap
      | object => rfl
    rw [used]
    exact moved r
  case pids => exact (congrArg List.length activates.pidmap).trans ok.pids
  case slots => exact (congrArg List.length activates.slotmap).trans ok.slots
  case listed =>
    show k.allproc.Nodup
    rw [activates.allproc, List.nodup_cons]
    exact ⟨unlisted, ok.listed⟩
  case hashed =>
    intro bucket p
    show p ∈ k.pidhash bucket ↔ p ∈ k.allproc ∧ bucket = pidBucket (k.procs p).pid
    rw [activates.allproc, activates.pidhash, pid, List.mem_cons]
    by_cases here : bucket = pidBucket (s.kernel.procs np).pid
    · rw [here, Function.update_self, List.mem_cons, ok.hashed]
      by_cases this : p = np
      · simp [this]
      · simp [this]
    · rw [Function.update_of_ne here, ok.hashed]
      by_cases this : p = np
      · simp [this, here, unlisted]
      · simp [this]
  case hashedOnce =>
    intro bucket
    show (k.pidhash bucket).Nodup
    rw [activates.pidhash]
    by_cases here : bucket = pidBucket (s.kernel.procs np).pid
    · rw [here, Function.update_self, List.nodup_cons]
      refine ⟨?_, ok.hashedOnce _⟩
      intro there
      exact unlisted ((ok.hashed _ _).mp there).1
    · rw [Function.update_of_ne here]
      exact ok.hashedOnce bucket
  case stacked =>
    intro p has
    show (k.procs p).kstack ≠ 0
    rw [(activates.same p).2.2]
    apply ok.stacked p
    rcases has with listed | ⟨t', there⟩
    · replace listed : p ∈ k.allproc := listed
      rw [activates.allproc, List.mem_cons] at listed
      rcases listed with rfl | listed
      · exact .inr ⟨t, by rw [at_]; rfl⟩
      · exact .inl listed
    · rw [Table.tasks_put] at there
      by_cases this : t' = t
      · rw [if_pos this] at there
        cases there
      · rw [if_neg this] at there
        exact .inr ⟨t', there⟩

/-- A listed process goes to the thread that releases it. -/
theorem TableOk.reap (ok : TableOk s) (at_ : s.tasks t = .idle) (listed : np ∈ s.kernel.allproc)
    (runs : unlink np s.kernel = .ok ((), k)) : TableOk (s.put t (.release np) k) := by
  cases runs
  have mem_left : ∀ p, p ∈ s.kernel.allproc.erase np ↔ p ≠ np ∧ p ∈ s.kernel.allproc :=
    fun p => ok.listed.mem_erase_iff
  have gone : np ∉ s.kernel.allproc.erase np := by simp [mem_left]
  have moved : ∀ r, Owned (s.inUse r) r.reserved ((s.put t (.release np) { s.kernel with
      allproc := s.kernel.allproc.erase np
      pidhash := fun bucket => (s.kernel.pidhash bucket).erase np }).has r) := by
    intro r
    apply (ok.owned r).move (x := .published np) (y := .task t)
    · exact Table.has_unpublished gone
    · rw [Table.has, at_]
      cases r <;> rfl
    · simp only [Table.has, Table.tasks_put, if_true, listed]
      rfl
    · intro x notThis notTask
      cases x with
      | published p =>
          have other : p ≠ np := by simpa using notThis
          simp only [Table.has, Table.put, mem_left, other, ne_eq, not_false_eq_true, true_and]
      | task t' =>
          have other : t' ≠ t := by simpa using notTask
          simp only [Table.has, Table.tasks_put, if_neg other]
          rfl
  constructor
  case owned =>
    intro r
    cases r with
    | pid => exact moved .pid
    | slot => exact moved .slot
    | object => exact moved .object
  case pids => exact ok.pids
  case slots => exact ok.slots
  case listed => exact ok.listed.erase np
  case hashed =>
    intro bucket p
    show p ∈ (s.kernel.pidhash bucket).erase np ↔ p ∈ s.kernel.allproc.erase np ∧ _
    rw [(ok.hashedOnce bucket).mem_erase_iff, ok.hashed, mem_left, and_assoc]
    rfl
  case hashedOnce => exact fun bucket => (ok.hashedOnce bucket).erase np
  case stacked =>
    intro p has
    apply ok.stacked p
    rcases has with left | ⟨t', there⟩
    · exact .inl ((mem_left p).mp left).2
    · rw [Table.tasks_put] at there
      by_cases this : t' = t
      · rw [if_pos this] at there
        cases there
        exact .inl listed
      · rw [if_neg this] at there
        exact .inr ⟨t', there⟩

omit [DecidableEq T] in
/-- The object loses its stack. -/
theorem TableOk.dropStack (ok : TableOk s) (unlisted : np ∉ s.kernel.allproc)
    (bare : ∀ t, (s.tasks t).stacked ≠ some np)
    (runs : setProc np ({ · with kstack := 0 }) s.kernel = .ok ((), k)) :
    TableOk { s with kernel := k } := by
  have writes := setProc_writes runs
  apply ok.setKernel writes.allproc writes.pidhash writes.pidmap writes.slotmap
  · intro r p
    by_cases this : p = np
    · rw [this, writes.this]
      cases r <;> rfl
    · rw [writes.others p this]
  · intro p has
    have other : p ≠ np := by
      rintro rfl
      rcases has with listed | ⟨t, there⟩
      · exact unlisted listed
      · exact bare t there
    rw [writes.others p other]
    exact ok.stacked p has

/-- `freeproc` gives the slot back. -/
theorem TableOk.freeStack (ok : TableOk s) {k' : Kernel} (at_ : s.tasks t = .release np)
    (runs : Fork.slotFree (s.kernel.procs np).kslot s.kernel = .ok ((), k))
    (cleared : setProc np ({ · with kstack := 0 }) k = .ok ((), k')) :
    TableOk (s.put t (.slotFreed np) k') := by
  have own : ∀ r : Resource, s.has r (.task t) = some (r.field np (s.kernel.procs np)) := by
    intro r
    rw [Table.has, at_]
    rfl
  have given : TableOk (s.put t (.slotFreed np) k) := by
    apply ok.giveSlot (own .slot) _ _ _ _ runs
    · rfl
    · exact (own .pid).symm
    · exact (own .object).symm
    · rfl
  have unlisted : np ∉ (s.put t (.slotFreed np) k).kernel.allproc := by
    apply given.unlisted (t := t)
    rw [Table.tasks_put, if_pos rfl]
    rfl
  apply given.dropStack unlisted _ cleared
  intro t' there
  rw [Table.tasks_put] at there
  by_cases this : t' = t
  · rw [if_pos this] at there
    cases there
  · rw [if_neg this] at there
    have both := (ok.owned .object).distinct (.task t') (.task t) np
      (Task.has_of_stacked there) (own .object)
    cases both
    exact this rfl

omit [DecidableEq T] in
theorem Start.ok (start : Start s) : TableOk s := by
  have empty : ∀ r h, s.has r h = none := by
    intro r h
    cases h with
    | published p => exact Table.has_unpublished (by simp [start.allproc])
    | task t =>
        rw [Table.has, start.tasks]
        cases r <;> rfl
  have clear : bits (List.replicate (KSTACK_NSLOTS / 64) 0) = ∅ := by
    ext n
    simp [bits, Kmem.bitTest_replicate]
  have inside : 0 < (List.replicate (KSTACK_NSLOTS / 64) 0 : Bitstr).length * 64 := by
    rw [List.length_replicate]
    decide
  constructor
  case owned =>
    intro r
    have reserved : s.inUse r = r.reserved := by
      cases r with
      | pid =>
          show bits s.kernel.pidmap = {0}
          rw [start.pidmap, bits_bitSet inside, clear, insert_empty_eq]
      | slot =>
          show bits s.kernel.kstackSlotmap = ∅
          rw [start.slotmap, clear]
      | object => exact start.objects
    rw [reserved]
    exact Owned.start (empty r)
  case pids => rw [start.pidmap, length_bitSet, List.length_replicate]
  case slots => rw [start.slotmap, List.length_replicate]
  case listed =>
    rw [start.allproc]
    exact List.nodup_nil
  case hashed => simp [start.pidhash, start.allproc]
  case hashedOnce => simp [start.pidhash]
  case stacked =>
    rintro p (listed | ⟨t, there⟩)
    · simp [start.allproc] at listed
    · rw [start.tasks] at there
      cases there

theorem marks_update {kernel : Kernel} {q : Fork.Proc} (same : SameIds (kernel.procs p) q) :
    Marks kernel { kernel with procs := Function.update kernel.procs p q } := by
  refine ⟨rfl, rfl, rfl, rfl, ?_⟩
  intro p'
  show SameIds _ (Function.update kernel.procs p q p')
  by_cases this : p' = p
  · rw [this, Function.update_self]
    exact same
  · rw [Function.update_of_ne this]
    exact ⟨rfl, rfl, rfl⟩

theorem reparent_marks {kernel : Kernel} {initproc : Nat}
    (runs : reparent p initproc kernel = .ok ((), k)) : Marks kernel k := by
  cases runs
  refine ⟨rfl, rfl, rfl, rfl, ?_⟩
  intro child
  show SameIds _ (if _ then _ else _)
  split
  · exact ⟨rfl, rfl, rfl⟩
  · exact ⟨rfl, rfl, rfl⟩

/-- What `kill` does, where a process has the pid and where none has. -/
theorem kill_cases (pid : Int) (kernel : Kernel) :
    (pidLookup kernel pid = none ∧ kill pid kernel = .ok (-1, kernel)) ∨
      ∃ p q runq, pidLookup kernel pid = some p ∧ SameIds (kernel.procs p) q ∧ q.killed = 1 ∧
        kill pid kernel = .ok (0, { kernel with
          procs := Function.update kernel.procs p q
          runq }) := by
  have read : (get : Kern Kernel) kernel = .ok (kernel, kernel) := rfl
  unfold kill
  rw [FallibleState.bind_eq_of_ok read]
  cases found : pidLookup kernel pid with
  | none => exact .inl ⟨rfl, rfl⟩
  | some p =>
      right
      by_cases asleep : (kernel.procs p).state = .sleeping
      · refine ⟨p, { kernel.procs p with killed := 1, state := .runnable }, kernel.runq ++ [p],
          rfl, ⟨rfl, rfl, rfl⟩, rfl, ?_⟩
        simp only [asleep, if_true]
        rfl
      · refine ⟨p, { kernel.procs p with killed := 1 }, kernel.runq, rfl, ⟨rfl, rfl, rfl⟩, rfl, ?_⟩
        simp only [asleep, if_false]
        rfl

theorem kill_marks {pid r : Int} {kernel : Kernel} (runs : kill pid kernel = .ok (r, k)) :
    Marks kernel k := by
  rcases kill_cases pid kernel with ⟨-, fails⟩ | ⟨p, q, runq, -, same, -, kills⟩
  · rw [fails] at runs
    cases runs
    exact ⟨rfl, rfl, rfl, rfl, fun _ => ⟨rfl, rfl, rfl⟩⟩
  · rw [kills] at runs
    cases runs
    exact ⟨rfl, rfl, rfl, rfl, (marks_update same).same⟩

/-- No step of a creation or a release breaks the tables. -/
theorem Step.ok (step : Step s u) (ok : TableOk s) : TableOk u := by
  cases step with
  | pidNone at_ runs none_ =>
      obtain ⟨found, rfl⟩ := pidAlloc_inv runs
      rw [← found] at none_
      rw [bitAlloc_none ok.covered_pids none_]
      apply ok.advance
      · exact fun p has => by cases has
      · intro r
        rw [at_]
  | pidAlloc at_ runs => exact ok.takePid at_ runs
  | slotNone at_ runs none_ =>
      obtain ⟨found, rfl⟩ := slotAlloc_inv runs
      rw [← found] at none_
      rw [bitAlloc_none ok.covered_slots none_]
      apply ok.advance
      · exact fun p has => by cases has
      · intro r
        rw [at_]
        cases r <;> rfl
  | slotAlloc at_ runs => exact ok.takeSlot at_ runs
  | kstackNone at_ =>
      apply ok.advance
      · exact fun p has => by cases has
      · intro r
        rw [at_]
        cases r <;> rfl
  | kstackAlloc at_ =>
      apply ok.advance
      · exact fun p has => by cases has
      · intro r
        rw [at_]
        cases r <;> rfl
  | objectNone at_ =>
      apply ok.advance
      · exact fun p has => by cases has
      · intro r
        rw [at_]
        cases r <;> rfl
  | @objectAlloc t pid slot kstack np k at_ unused runs =>
      apply ok.takeObject _ _ _ kstack.property unused (setProc_writes runs)
      all_goals
        rw [at_]
        rfl
  | slotBack at_ runs =>
      apply ok.giveSlot _ rfl _ _ rfl runs
      · rw [Table.has, at_]
        rfl
      all_goals
        rw [at_]
        rfl
  | pidBack at_ runs =>
      apply ok.givePid _ rfl _ _ rfl runs
      · rw [Table.has, at_]
        rfl
      all_goals
        rw [at_]
        rfl
  | activate at_ runs => exact ok.activate at_ (procActivate_activates runs)
  | abandon at_ =>
      apply ok.advance
      · rintro p ⟨⟩
        rw [at_]
        rfl
      · intro r
        rw [at_]
        rfl
  | reap at_ listed _ _ runs => exact ok.reap at_ listed runs
  | slotFree at_ _ runs cleared => exact ok.freeStack at_ runs cleared
  | slotSkip at_ stack =>
      -- An object with a place in `freeproc` has its stack.
      exact absurd stack (ok.stacked _ (.inr ⟨_, by rw [at_]; rfl⟩))
  | pidFree at_ runs =>
      apply ok.givePid _ rfl _ _ rfl runs
      · rw [Table.has, at_]
        rfl
      all_goals
        rw [at_]
        rfl
  | objectFree at_ => exact ok.giveObject at_
  | reparent runs => exact ok.mark (reparent_marks runs)
  | becomeZombie runs =>
      cases runs
      exact ok.mark (marks_update ⟨rfl, rfl, rfl⟩)
  | kill runs => exact ok.mark (kill_marks runs)
  | object same => exact ok.mark (marks_update same)
  | memory => exact ok.mark ⟨rfl, rfl, rfl, rfl, fun _ => ⟨rfl, rfl, rfl⟩⟩

theorem Reachable.ok (reachable : Reachable s) : TableOk s :=
  TransitionSystem.Reachable.invariant (fun _ start => start.ok)
    (fun _ _ _ ok step => step.ok ok) reachable

/-- `proc_activate` has published the process, and `wait` has not unlinked it. -/
def Published (s : Table T) (p : Nat) : Prop :=
  p ∈ s.objects ∧ ∀ t, (s.tasks t).has s.kernel.procs .object ≠ some p

/-- The owner has the number: it is that of a published process, or the thread has taken it and not
yet given it back. -/
def HasNumber (s : Table T) (r : Resource) (n : Nat) : Owner T → Prop
  | .published p => Published s p ∧ r.field p (s.kernel.procs p) = n
  | .task t => (s.tasks t).has s.kernel.procs r = some n

/-- The lists, the bitmaps and the processes say the same. -/
structure Coherent (s : Table T) : Prop where
  published : ∀ p, Published s p → s.kernel.allproc.count p = 1 ∧
    (s.kernel.pidhash ((s.kernel.procs p).pid &&& 63)).count p = 1
  unpublished : ∀ p, ¬Published s p → p ∉ s.kernel.allproc
  bucket : ∀ bucket p, p ∈ s.kernel.pidhash bucket →
    Published s p ∧ bucket = (s.kernel.procs p).pid &&& 63
  pids : ∀ h h' pid, HasNumber s .pid pid h → HasNumber s .pid pid h' → h = h'
  pidmap : ∀ n, bitTest s.kernel.pidmap n = true ↔ n = 0 ∨ ∃ h, HasNumber s .pid n h
  nonzero : ∀ h, ¬HasNumber s .pid 0 h
  slots : ∀ h h' slot, HasNumber s .slot slot h → HasNumber s .slot slot h' → h = h'
  slotmap : ∀ n, bitTest s.kernel.kstackSlotmap n = true ↔ ∃ h, HasNumber s .slot n h
  lookup : ∀ (pid : Int) p, pidLookup s.kernel pid = some p ↔
    Published s p ∧ (s.kernel.procs p).pid = pid
  unique : ∀ p p', Published s p → Published s p' →
    (s.kernel.procs p).pid = (s.kernel.procs p').pid → p = p'
  kill : ∀ pid : Int,
    ((∀ p, Published s p → (s.kernel.procs p).pid ≠ pid) ∧ kill pid s.kernel = .ok (-1, s.kernel)) ∨
      ∃ p q runq, Published s p ∧ (s.kernel.procs p).pid = pid ∧ q.killed = 1 ∧
        kill pid s.kernel = .ok (0, { s.kernel with
          procs := Function.update s.kernel.procs p q
          runq })

omit [DecidableEq T] in
theorem TableOk.published_iff (ok : TableOk s) : Published s p ↔ p ∈ s.kernel.allproc := by
  constructor
  · rintro ⟨out, shared⟩
    rcases ((ok.owned .object).used p).mp out with reserved | ⟨h, own⟩
    · exact absurd reserved (Set.notMem_empty p)
    · cases h with
      | published p' =>
          by_cases listed : p' ∈ s.kernel.allproc
          · rw [Table.has_published listed] at own
            cases own
            exact listed
          · rw [Table.has_unpublished listed] at own
            cases own
      | task t => exact absurd own (shared t)
  · intro listed
    exact ⟨ok.mem_objects listed, fun t own => ok.unlisted own listed⟩

omit [DecidableEq T] in
theorem TableOk.hasNumber_iff (ok : TableOk s) {n : Nat} {h : Owner T} :
    HasNumber s r n h ↔ s.has r h = some n := by
  cases h with
  | published p =>
      show Published s p ∧ r.field p (s.kernel.procs p) = n ↔ _
      rw [ok.published_iff]
      by_cases listed : p ∈ s.kernel.allproc
      · simp [Table.has_published, listed]
      · simp [Table.has_unpublished, listed]
  | task t => rfl

omit [DecidableEq T] in
/-- No two processes have one pid. -/
theorem TableOk.eq_of_pid (ok : TableOk s) {p p' : Nat} (listed : p ∈ s.kernel.allproc)
    (listed' : p' ∈ s.kernel.allproc)
    (same : (s.kernel.procs p).pid = (s.kernel.procs p').pid) : p = p' := by
  have both := (ok.owned .pid).distinct (.published p) (.published p') (s.kernel.procs p').pid
  rw [Table.has_published listed, Table.has_published listed'] at both
  have equal := both (congrArg some same) rfl
  cases equal
  rfl

omit [DecidableEq T] in
theorem TableOk.lookup (ok : TableOk s) {pid : Int} : pidLookup s.kernel pid = some p ↔
    p ∈ s.kernel.allproc ∧ (s.kernel.procs p).pid = pid := by
  constructor
  · intro found
    have there := List.mem_of_find?_eq_some found
    have matches_ := List.find?_some found
    exact ⟨((ok.hashed _ p).mp there).1, by simpa using matches_⟩
  · rintro ⟨listed, rfl⟩
    have there := (ok.hashed _ p).mpr ⟨listed, rfl⟩
    cases found : pidLookup s.kernel (s.kernel.procs p).pid with
    | none =>
        have none_ := List.find?_eq_none.mp found p there
        simp at none_
    | some p' =>
        have there' := List.mem_of_find?_eq_some found
        have matches_ : ((s.kernel.procs p').pid : Int) = (s.kernel.procs p).pid := by
          simpa using List.find?_some found
        have listed' := ((ok.hashed _ p').mp there').1
        rw [ok.eq_of_pid listed' listed (by omega)]

omit [DecidableEq T] in
theorem TableOk.coherent (ok : TableOk s) : Coherent s where
  published := by
    intro p published
    have listed := ok.published_iff.mp published
    refine ⟨List.count_eq_one_of_mem ok.listed listed, ?_⟩
    apply List.count_eq_one_of_mem (ok.hashedOnce _)
    rw [ok.hashed, pidBucket_natCast]
    exact ⟨listed, rfl⟩
  unpublished := fun p => mt ok.published_iff.mpr
  bucket := by
    intro bucket p there
    obtain ⟨listed, here⟩ := (ok.hashed bucket p).mp there
    rw [pidBucket_natCast] at here
    exact ⟨ok.published_iff.mpr listed, here⟩
  pids := by
    intro h h' pid own own'
    rw [ok.hasNumber_iff] at own own'
    exact (ok.owned .pid).distinct h h' pid own own'
  pidmap := by
    intro n
    simp only [ok.hasNumber_iff]
    exact (ok.owned .pid).used n
  nonzero := by
    intro h own
    rw [ok.hasNumber_iff] at own
    exact (ok.owned .pid).unreserved h 0 own rfl
  slots := by
    intro h h' slot own own'
    rw [ok.hasNumber_iff] at own own'
    exact (ok.owned .slot).distinct h h' slot own own'
  slotmap := by
    intro n
    simp only [ok.hasNumber_iff]
    exact ((ok.owned .slot).used n).trans (or_iff_right (Set.notMem_empty n))
  lookup := by
    intro pid p
    rw [ok.lookup, ok.published_iff]
  unique := by
    intro p p' published published' same
    rw [ok.published_iff] at published published'
    exact ok.eq_of_pid published published' same
  kill := by
    intro pid
    rcases kill_cases pid s.kernel with ⟨none_, fails⟩ | ⟨p, q, runq, found, -, killed, kills⟩
    · left
      refine ⟨?_, fails⟩
      intro p published same
      have found := ok.lookup.mpr ⟨ok.published_iff.mp published, same⟩
      rw [none_] at found
      cases found
    · right
      obtain ⟨listed, same⟩ := ok.lookup.mp found
      exact ⟨p, q, runq, ok.published_iff.mpr listed, same, killed, kills⟩

/-- The process table is coherent under any interleaving of creations and releases. -/
theorem table_coherent (reachable : Reachable s) : Coherent s := reachable.ok.coherent

/-- A thread adds a process after boot. -/
theorem table_coherent_thread :
    ∃ s : Table Unit, Reachable s ∧ (∃ p, Published s p) ∧ Coherent s := by
  obtain ⟨live, a, c, r, k, p, boot, runs, listed⟩ := exists_boot
  have start : Start (⟨bootKernel a c, ∅, fun _ => .idle⟩ : Table Unit) :=
    ⟨rfl, rfl, rfl, fun _ => rfl, rfl, fun _ => rfl⟩
  obtain ⟨s, run, rfl, -⟩ := kthreadAdd_run (t := ()) (start.tasks ()) runs boot (by rintro np ⟨⟩)
  have reached : Reachable s := ⟨_, start, run⟩
  have coherent := table_coherent reached
  refine ⟨s, reached, ⟨p, ?_⟩, coherent⟩
  by_contra hidden
  exact coherent.unpublished p hidden (listed ▸ List.mem_singleton_self p)

end Ptable

end Av6
