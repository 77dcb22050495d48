import Av6.LifeRuns

/-!
# What a call leaves alone

Every call keeps the invariant, and it keeps every page with its holder.  A process that stays in
the list is left alone by the calls of others: its pages, what is in them, and its registers.
-/

namespace Av6

namespace Life

open FallibleState Kmem Pmap Elf Fork Sbrk Bitstring

variable {s t u : Kernel} {live live' live'' : CacheRef → Multiset Nat}
  {place place' place'' : Place} {pages : List Nat} {p q np pid idx root : Nat} {slot : Slot}
  {who who' : Nat → Prop} {initproc : Option Nat} {cpu cpu' : Fin NCPU_MAX}

/-- A process that is listed and has not exited. -/
def Alive (s : Kernel) (p : Nat) : Prop := p ∈ s.allproc ∧ (s.procs p).state ≠ .zombie

/-- `initproc` has not exited, nor has the parent of any process.  The parents, and the parents of
those, end with a process that has none. -/
structure Family (initproc : Option Nat) (s : Kernel) : Prop where
  init : ∀ i, initproc = some i → Alive s i ∧ (s.procs i).parent = none
  parents : ∀ p ∈ s.allproc, ∀ q, (s.procs p).parent = some q → Alive s q
  ranked : ∃ rank : Nat → Nat, ∀ p ∈ s.allproc, ∀ q, (s.procs p).parent = some q → rank q < rank p

theorem Family.keep (family : Family initproc s)
    (fewer : ∀ p ∈ t.allproc, p ∈ s.allproc ∧ (t.procs p).parent = (s.procs p).parent)
    (alive : ∀ p, Alive s p → Alive t p) : Family initproc t := by
  obtain ⟨init, parents, rank, ranked⟩ := family
  refine ⟨?_, ?_, rank, ?_⟩
  · intro i some_
    obtain ⟨before, orphan⟩ := init i some_
    have after := alive i before
    exact ⟨after, (fewer i after.1).2.trans orphan⟩
  · intro p there q parent
    obtain ⟨before, same⟩ := fewer p there
    exact alive q (parents p before q (same.symm.trans parent))
  · intro p there q parent
    obtain ⟨before, same⟩ := fewer p there
    exact ranked p before q (same.symm.trans parent)

/-- A process that is left alone. -/
structure Spared (place place' : Place) (s t : Kernel) (q : Nat) : Prop where
  object : holdings (t.procs q) = holdings (s.procs q)
  frame : t.frames (s.procs q).tf = s.frames (s.procs q).tf
  pages : ∀ slot, OfProcess s q slot → place' slot = place slot ∧
    ∀ page, place slot = some page → ∀ off, t.vm.memory page off = s.vm.memory page off

theorem Spared.trans (first : Spared place place' s t q) (second : Spared place' place'' t u q) :
    Spared place place'' s u q := by
  obtain ⟨kslot, -, tf, table, -⟩ := holdings_fields first.object
  refine ⟨second.object.trans first.object, ?_, ?_⟩
  · rw [← first.frame, ← tf]
    exact second.frame
  · intro slot of
    obtain ⟨place_, contents⟩ := first.pages slot of
    obtain ⟨place_', contents'⟩ := second.pages slot (of.congr kslot fun r has _ => table.trans has)
    refine ⟨place_'.trans place_, ?_⟩
    intro page there off
    exact (contents' page (place_.trans there) off).trans (contents page there off)

/-- What holds after a call, when the processes in `who` are those that it works on. -/
structure Effect (who : Nat → Prop) (initproc : Option Nat) (pages : List Nat) (place : Place)
    (s : Kernel) (live' : CacheRef → Multiset Nat) (place' : Place) (t : Kernel) : Prop where
  ok : KernelOk live' place' t
  housed : Housed pages place' t
  family : Family initproc s → Family initproc t
  alive : ∀ q, ¬ who q → Alive s q → Alive t q
  spared : ∀ q ∈ s.allproc, q ∈ t.allproc → ¬ who q → Spared place place' s t q

theorem Effect.trans (first : Effect who initproc pages place s live' place' t)
    (second : Effect who' initproc pages place' t live'' place'' u) (less : ∀ p, who' p → who p)
    (between : ∀ q ∈ s.allproc, q ∈ u.allproc → q ∈ t.allproc) :
    Effect who initproc pages place s live'' place'' u := by
  refine ⟨second.ok, second.housed, fun family => second.family (first.family family), ?_, ?_⟩
  · intro q other alive
    exact second.alive q (fun mine => other (less q mine)) (first.alive q other alive)
  · intro q there there' other
    have middle := between q there there'
    exact (first.spared q there middle other).trans
      (second.spared q middle there' fun mine => other (less q mine))

theorem Effect.more (effect : Effect who initproc pages place s live' place' t)
    (more : ∀ p, who p → who' p) : Effect who' initproc pages place s live' place' t := by
  refine ⟨effect.ok, effect.housed, effect.family, ?_, ?_⟩
  · intro q other
    exact effect.alive q fun mine => other (more q mine)
  · intro q there there' other
    exact effect.spared q there there' fun mine => other (more q mine)

theorem SameSpaces.effect (same : SameSpaces s t) (ok : KernelOk live place s)
    (housed : Housed pages place s) (family : Family initproc s → Family initproc t)
    (alive : ∀ q, ¬ who q → Alive s q → Alive t q) :
    Effect who initproc pages place s live place t := by
  refine ⟨same.ok ok, same.housed housed, family, alive, ?_⟩
  intro q there there' other
  have memory : t.vm = s.vm := by rw [same.rest]
  have frames : t.frames = s.frames := by rw [same.rest]
  refine ⟨same.object q, by rw [frames], ?_⟩
  intro slot of
  refine ⟨rfl, ?_⟩
  intro page _ off
  rw [memory]

theorem Effect.refl (ok : KernelOk live place s) (housed : Housed pages place s) :
    Effect who initproc pages place s live place s :=
  (SameSpaces.refl s).effect ok housed id fun _ _ => id

/-- One object has changed, and no process has exited. -/
theorem update_effect {o : Proc} {runq : List Nat} (ok : KernelOk live place s)
    (housed : Housed pages place s) (object : holdings o = holdings (s.procs p))
    (parent : o.parent = (s.procs p).parent)
    (state : (s.procs p).state ≠ .zombie → o.state ≠ .zombie) :
    Effect who initproc pages place s live place
      { s with procs := Function.update s.procs p o, runq } := by
  have still : ∀ q, Alive s q → Alive { s with procs := Function.update s.procs p o, runq } q := by
    rintro q ⟨there, alive⟩
    refine ⟨there, ?_⟩
    dsimp only
    by_cases same : q = p
    · rw [same, Function.update_self]
      rw [same] at alive
      exact state alive
    · rwa [Function.update_of_ne same]
  refine (SameSpaces.update object).effect ok housed (fun family => family.keep ?_ still) fun q _ =>
    still q
  intro q there
  refine ⟨there, ?_⟩
  dsimp only
  by_cases same : q = p
  · rw [same, Function.update_self, parent]
  · rw [Function.update_of_ne same]

/-- Two processes do not have their registers in one place. -/
theorem Housed.tf_ne (housed : Housed pages place s) (there : p ∈ s.allproc)
    (there' : q ∈ s.allproc) (apart : q ≠ p) : (s.procs q).tf ≠ (s.procs p).tf := by
  rw [(housed.tops p there).2, (housed.tops q there').2]
  intro same
  apply apart
  apply housed.slots q there' p there
  have window : TF_SIZE < KSTACK_WINDOW := by decide
  have size : KSTACK_SLOT_PAGES * PGSIZE = 32768 := by decide
  unfold kstackTop at same
  rw [Nat.mul_assoc, Nat.mul_assoc, size] at same
  omega

/-- A process keeps what is not in the places that a call changes. -/
theorem spared_of_within {O : Slot → Prop} (within : Within O place place' s.vm s.vm t.vm t.vm)
    (object : holdings (t.procs q) = holdings (s.procs q))
    (frame : t.frames (s.procs q).tf = s.frames (s.procs q).tf)
    (outside : ∀ slot, OfProcess s q slot → ¬ O slot) : Spared place place' s t q := by
  refine ⟨object, frame, ?_⟩
  intro slot of
  refine ⟨within.only slot (outside slot of), ?_⟩
  intro page there off
  exact (within.contents slot page off (outside slot of) there).1

theorem Reseated.other (reseated : Reseated p place place' s t) (apart : q ≠ p) :
    t.procs q = s.procs q := by
  rw [reseated.rest]
  exact Function.update_of_ne apart _ _

theorem Reseated.kin (reseated : Reseated p place place' s t) (q : Nat) :
    (t.procs q).parent = (s.procs q).parent ∧ (t.procs q).state = (s.procs q).state := by
  by_cases same : q = p
  · rw [same]
    exact reseated.kept.2.2.2.2
  · rw [Reseated.other reseated same]
    exact ⟨rfl, rfl⟩

theorem Reseated.alive (reseated : Reseated p place place' s t) (q : Nat) (alive : Alive s q) :
    Alive t q := by
  obtain ⟨there, state⟩ := alive
  refine ⟨?_, by rwa [(Reseated.kin reseated q).2]⟩
  rw [reseated.rest]
  exact there

theorem Reseated.effect (reseated : Reseated p place place' s t) (ok : KernelOk live place s)
    (ok' : KernelOk live' place' t) (housed : Housed pages place s) (listed : p ∈ s.allproc) :
    Effect (· = p) initproc pages place s live' place' t := by
  have list : t.allproc = s.allproc := by rw [reseated.rest]
  have still := Reseated.alive reseated
  refine ⟨ok', housed.reseated listed reseated, ?_, fun q _ => still q, ?_⟩
  · intro family
    apply family.keep ?_ still
    intro q there
    rw [list] at there
    exact ⟨there, (Reseated.kin reseated q).1⟩
  · intro q there there' apart
    have same := Reseated.other reseated apart
    apply spared_of_within reseated.within
    · rw [same]
    · exact reseated.frames _ (housed.tf_ne listed there apart)
    · rintro slot (⟨k, -, stack⟩ | ⟨r, has, of⟩) ⟨r', table, of'⟩
      · rw [stack] at of'
        exact of'
      · obtain rfl := Exec.root_unique of of'
        rcases table with old | new
        · exact apart (ok.apart q there p listed r has old)
        · exact apart (ok'.apart q there' p (by rwa [list]) r (by rwa [same]) new)

theorem Reaped.effect (reaped : Reaped np live' place place' s t) (ok : KernelOk live place s)
    (housed : Housed pages place s) (listed : np ∈ s.allproc)
    (zombie : (s.procs np).state = .zombie) :
    Effect (fun _ => False) initproc pages place s live' place' t := by
  have list : t.allproc = s.allproc.erase np := by rw [reaped.rest]
  have mem : ∀ {q}, q ∈ t.allproc ↔ q ≠ np ∧ q ∈ s.allproc := by
    intro q
    rw [list]
    exact housed.nodup.mem_erase_iff
  have still : ∀ q, Alive s q → Alive t q := by
    rintro q ⟨there, state⟩
    have apart : q ≠ np := by
      rintro rfl
      exact state zombie
    exact ⟨mem.mpr ⟨apart, there⟩, by rwa [reaped.procs q apart]⟩
  refine ⟨reaped.ok, housed.reaped ok listed reaped, ?_, fun q _ => still q, ?_⟩
  · intro family
    apply family.keep ?_ still
    intro q there
    obtain ⟨apart, before⟩ := mem.mp there
    exact ⟨before, by rw [reaped.procs q apart]⟩
  · intro q there there' _
    obtain ⟨apart, -⟩ := mem.mp there'
    apply spared_of_within reaped.within
    · rw [reaped.procs q apart]
    · rw [reaped.rest]
    · exact fun slot of => other_process ok housed there listed apart of

/-- A new process has a parent that has not exited, or none. -/
theorem Family.birth {parent : Option Nat} {o : Proc} (family : Family initproc s)
    (birth : Birth parent live place place' np pid idx o s s.vm t t.vm)
    (notNew : ∀ q ∈ s.allproc, q ≠ np) (alive : ∀ p, parent = some p → Alive s p) :
    Family initproc t := by
  obtain ⟨init, parents, rank, ranked⟩ := family
  have list : t.allproc = np :: s.allproc := by rw [birth.after]; rfl
  have new : (t.procs np).parent = parent := by
    rw [← birth.named.2.2.2, birth.after]
    exact congrArg Proc.parent (Function.update_self ..)
  have old : ∀ q ∈ s.allproc, t.procs q = s.procs q := by
    intro q there
    rw [birth.after]
    exact Function.update_of_ne (notNew q there) _ _
  have still : ∀ q, Alive s q → Alive t q := by
    rintro q ⟨there, state⟩
    refine ⟨?_, by rwa [old q there]⟩
    rw [list]
    exact List.mem_cons_of_mem _ there
  refine ⟨?_, ?_, Function.update rank np (parent.elim 0 fun p => rank p + 1), ?_⟩
  · intro i some_
    obtain ⟨before, orphan⟩ := init i some_
    exact ⟨still i before, by rw [old i before.1, orphan]⟩
  · intro p there q has
    rw [list] at there
    rcases List.mem_cons.mp there with rfl | there
    · rw [new] at has
      exact still q (alive q has)
    · rw [old p there] at has
      exact still q (parents p there q has)
  · intro p there q has
    rw [list] at there
    rcases List.mem_cons.mp there with rfl | there
    · rw [new] at has
      rw [Function.update_self, Function.update_of_ne (notNew q (alive q has).1), has]
      exact Nat.lt_succ_self _
    · rw [old p there] at has
      rw [Function.update_of_ne (notNew p there),
        Function.update_of_ne (notNew q (parents p there q has).1)]
      exact ranked p there q has

theorem Birth.effect {parent : Option Nat} {o : Proc} (ok : KernelOk live place s)
    (birth : Birth parent live place place' np pid idx o s s.vm t t.vm)
    (housed : Housed pages place s) (alive : ∀ p, parent = some p → Alive s p) :
    Effect (fun _ => False) initproc pages place s (live + Pi.single s.procCache {np}) place' t := by
  obtain ⟨less, clear⟩ := birth.slot
  have notNew : ∀ {q}, q ∈ s.allproc → q ≠ np := by
    rintro q there rfl
    exact birth.fresh (ok.objects q there)
  have new : t.procs np = o := by
    rw [birth.after]
    exact Function.update_self ..
  have old : ∀ {q}, q ∈ s.allproc → t.procs q = s.procs q := by
    intro q there
    rw [birth.after]
    exact Function.update_of_ne (notNew there) _ _
  have list : t.allproc = np :: s.allproc := by rw [birth.after]; rfl
  have housed' := housed.birth ok birth
  have newListed : np ∈ t.allproc := by
    rw [list]
    exact List.mem_cons_self ..
  have still : ∀ {q}, Alive s q → Alive t q := by
    rintro q ⟨there, state⟩
    refine ⟨?_, ?_⟩
    · rw [list]
      exact List.mem_cons_of_mem _ there
    · rw [old there]
      exact state
  refine ⟨birth.ok, housed', ?_, fun q _ => still, ?_⟩
  · intro family
    exact family.birth birth (fun _ => notNew) alive
  · intro q there there' _
    have same := old there
    have unused : (s.procs q).kslot ≠ idx := by
      intro same
      have used := (ok.process q there).used
      rw [same, clear] at used
      cases used
    apply spared_of_within birth.within
    · rw [same]
    · apply birth.frames
      have apart := housed'.tf_ne newListed there' (notNew there)
      rwa [same, new] at apart
    · rintro slot (⟨k, low, stack⟩ | ⟨r, has, of⟩) (mine | ⟨r', table, of'⟩)
      · rw [stack] at mine
        exact other_stack low unused mine
      · rw [stack] at of'
        exact of'
      · exact not_ofStack of mine
      · obtain rfl := Exec.root_unique of of'
        exact notNew there (birth.ok.apart q there' np newListed r (by rwa [same]) (by rwa [new]))

/-- After a call that fails. -/
theorem Withdrawn.effect (withdrawn : Withdrawn live place s t) (ok : KernelOk live place s)
    (housed : Housed pages place s) :
    ∃ place', Effect (fun _ => False) initproc pages place s live place' t := by
  obtain ⟨rest, procs, kept, place', twins, grown⟩ := withdrawn
  have list : t.allproc = s.allproc := by rw [rest]
  have object : ∀ {q}, q ∈ s.allproc → t.procs q = s.procs q := fun there =>
    procs _ (ok.objects _ there)
  have still : ∀ q, Alive s q → Alive t q := by
    rintro q ⟨there, state⟩
    exact ⟨by rwa [list], by rwa [object there]⟩
  refine ⟨place', ok.withdrawn rest procs kept twins grown,
    housed.withdrawn ok rest procs grown, ?_, fun q _ => still q, ?_⟩
  · intro family
    apply family.keep ?_ still
    intro q there
    rw [list] at there
    exact ⟨there, by rw [object there]⟩
  · intro q there there' _
    apply spared_of_within grown.within
    · rw [object there]
    · rw [rest]
    · rintro slot (⟨k, -, stack⟩ | ⟨r, -, of⟩) ⟨i, table⟩
      · rw [table] at stack
        cases stack
      · rw [table] at of
        exact of

/-- What holds after some call. -/
def Effected (who : Nat → Prop) (initproc : Option Nat) (pages : List Nat) (place : Place)
    (s t : Kernel) : Prop :=
  ∃ live' place', Effect who initproc pages place s live' place' t

section

variable (initproc) (ok : KernelOk live place s) (housed : Housed pages place s)
include ok housed

theorem kthreadAdd_effect (fn isrc : Nat) (name : List Char) :
    Yields (kthreadAdd cpu fn isrc name) s fun _ t =>
      Effected (fun _ => False) initproc pages place s t := by
  apply (kthreadAdd_births ok ok.twins fn isrc name).yields.mono
  rintro r t (⟨-, withdrawn⟩ | ⟨np, pid, idx, q, place', -, -, birth⟩)
  · obtain ⟨place', effect⟩ := Withdrawn.effect withdrawn.withdrawn ok housed
    exact ⟨live, place', effect⟩
  · exact ⟨_, place', Birth.effect ok birth housed nofun⟩

theorem fork_effect (alive : Alive s p) : Yields (fork cpu cpu' p) s fun _ t =>
    Effected (fun _ => False) initproc pages place s t := by
  apply (fork_births ok ok.twins alive.1).yields.mono
  rintro r t (⟨-, withdrawn⟩ | ⟨np, pid, idx, q, place', -, birth⟩)
  · obtain ⟨place', effect⟩ := Withdrawn.effect withdrawn.withdrawn ok housed
    exact ⟨live, place', effect⟩
  · refine ⟨_, place', Birth.effect ok birth housed ?_⟩
    rintro _ ⟨⟩
    exact alive

theorem exec_effect {programs : List (String × Image)} {path : String} {uargv : Nat}
    (listed : p ∈ s.allproc) : YieldsOr (ExecStops s p) (Sbrk.exec programs path uargv p) s fun _ t =>
      Effected (· = p) initproc pages place s t ∧ ∀ q, Alive s q → Alive t q := by
  apply (exec_reseats ok ok.twins listed).self.mono fun _ => id
  rintro r t ⟨place', ok', -, reseated⟩
  exact ⟨⟨live, place', Reseated.effect reseated ok ok' housed listed⟩, Reseated.alive reseated⟩

/-- Why `growproc` may stop: the caller is a kernel thread, or the new size is past the end of the
user addresses. -/
def GrowprocStops (s : Kernel) (p : Nat) (n : BitVec 32) (e : Pmap.Panic) : Prop :=
  e = .nullPte ∧ (s.procs p).pagetable = none ∨ PastEnd ((s.procs p).sz + n.toInt).toNat e

theorem growproc_effect (n : BitVec 32) (listed : p ∈ s.allproc) :
    YieldsOr (GrowprocStops s p n) (Sbrk.growproc p n) s fun _ t =>
      Effected (· = p) initproc pages place s t ∧ ∀ q, Alive s q → Alive t q := by
  cases table : (s.procs p).pagetable with
  | none =>
      apply (growproc_thread (w := s.vm) table).self.mono
      · rintro _ rfl
        exact .inl ⟨rfl, table⟩
      · rintro r t ⟨rfl, -⟩
        exact ⟨⟨live, place, Effect.refl ok housed⟩, fun _ => id⟩
  | some root =>
      apply (growproc_settles ok listed table n).mono fun _ => .inr
      rintro r t ⟨place', settled⟩
      have reseated := settled.reseated table
      exact ⟨⟨live, place', Reseated.effect reseated ok (settled.ok ok listed table) housed listed⟩,
        Reseated.alive reseated⟩

/-- `kill` makes a process that sleeps runnable. -/
theorem kill_effect (pid : Nat) : Yields (kill pid) s fun _ t =>
    Effected (fun _ => False) initproc pages place s t := by
  unfold kill
  apply Yields.read_bind
  split
  · exact .ret ⟨live, place, Effect.refl ok housed⟩
  · rename_i p found
    have marked : Effect (fun _ => False) initproc pages place s live place { s with
        procs := Function.update s.procs p { s.procs p with killed := 1 }, runq := s.runq } :=
      update_effect ok housed rfl rfl id
    refine .update_bind ?_
    split
    · refine .update_bind (.ret ⟨live, place, ?_⟩)
      refine marked.trans (update_effect marked.ok marked.housed rfl rfl ?_) (fun _ => id) ?_
      · intro _ zombie
        cases zombie
      · exact fun q _ there => there
    · exact .ret ⟨live, place, marked⟩

/-- A zombie is taken out of the lists. -/
theorem reap_effect (listed : np ∈ s.allproc) (zombie : (s.procs np).state = .zombie) :
    Yields (reap cpu np) s fun _ t => Effected (fun _ => False) initproc pages place s t := by
  unfold reap
  refine .read_bind (.update_bind ?_)
  apply (freeproc_reaps ok housed listed).bind
  rintro _ t ⟨live', place', reaped⟩
  exact .ret ⟨live', place', Reaped.effect reaped ok housed listed zombie⟩

/-- The status of a zombie is copied out. -/
theorem copyout_effect {xstatus : Nat} (bytes : List UInt8) (listed : p ∈ s.allproc) :
    Yields (onVm (copyout (s.procs p).pagetable xstatus bytes)) s fun _ t =>
      t = { s with vm := t.vm } ∧ Effect (· = p) initproc pages place s live place t := by
  have rooted : ∀ r, (s.procs p).pagetable = some r → place (.table r 0 0) = some r :=
    fun r has => ((ok.process p listed).space r has).rooted
  apply (Yields.onPart (copyout_stores rooted bytes ok.twins)).mono
  rintro _ _ ⟨vm, rfl, stored⟩
  exact ⟨rfl, Reseated.effect stored.reseated ok (stored.ok ok) housed listed⟩

/-- A round of `wait`; the caller does not exit. -/
theorem waitScan_effect {xstatus : Nat} (alive : Alive s p) (rest : List Nat)
    (sub : ∀ q ∈ rest, q ∈ s.allproc) (havekids : Bool) :
    Yields (waitScan cpu p xstatus rest havekids) s fun _ t =>
      Effected (· = p) initproc pages place s t ∧ Alive t p := by
  induction rest generalizing havekids with
  | nil =>
      unfold waitScan
      apply Yields.read_bind
      split
      · exact .ret ⟨⟨live, place, Effect.refl ok housed⟩, alive⟩
      · have asleep : Effect (fun _ => False) initproc pages place s live place { s with
            procs := Function.update s.procs p { s.procs p with chan := p, state := .sleeping }
            runq := s.runq } :=
          update_effect ok housed rfl rfl fun _ => nofun
        exact .update_bind (.ret ⟨⟨live, place, asleep.more fun _ => False.elim⟩,
          asleep.alive p id alive⟩)
  | cons np rest ih =>
      have more := ih fun q there => sub q (List.mem_cons_of_mem _ there)
      have there := sub np (List.mem_cons_self ..)
      unfold waitScan
      apply Yields.read_bind
      split
      · exact more havekids
      split
      · rename_i zombie
        split
        · apply (reap_effect initproc ok housed there zombie).mono
          rintro _ t ⟨live', place', effect⟩
          exact ⟨⟨live', place', effect.more fun _ => False.elim⟩, effect.alive p id alive⟩
        · apply (copyout_effect initproc ok housed _ alive.1).bind
          rintro copied t ⟨rest_, first⟩
          have alive' : Alive t p := by
            rw [rest_]
            exact alive
          split
          · have there' : np ∈ t.allproc := by rwa [rest_]
            have zombie' : (t.procs np).state = .zombie := by rwa [rest_]
            apply (reap_effect initproc first.ok first.housed there' zombie').mono
            rintro _ u ⟨live', place', second⟩
            refine ⟨⟨live', place', first.trans second (fun _ => False.elim) ?_⟩,
              second.alive p id alive'⟩
            intro q before _
            rwa [rest_]
          · exact .ret ⟨⟨live, place, first⟩, alive'⟩
      · exact more true

theorem wait_effect {xstatus : Nat} {woken : Bool} (alive : Alive s p) :
    Yields (wait cpu p xstatus woken) s fun _ t =>
      Effected (· = p) initproc pages place s t ∧ Alive t p := by
  unfold wait
  cases woken with
  | false => exact .read_bind (waitScan_effect initproc ok housed alive _ (fun _ => id) false)
  | true =>
      have cleared : Effect (fun _ => False) initproc pages place s live place { s with
          procs := Function.update s.procs p { s.procs p with chan := 0 }, runq := s.runq } :=
        update_effect ok housed rfl rfl id
      have alive' := cleared.alive p id alive
      refine .update_bind (.read_bind ?_)
      apply (waitScan_effect initproc cleared.ok cleared.housed alive' _ (fun _ => id) false).mono
      rintro _ t ⟨⟨live', place', second⟩, still⟩
      have first : Effect (· = p) initproc pages place s live place _ :=
        cleared.more fun _ => False.elim
      exact ⟨⟨live', place', first.trans second (fun _ => id) fun _ there _ => there⟩, still⟩

/-- `userinit` makes a process that can be `initproc`. -/
theorem userinit_effect {image : Image} (runs : Sbrk.userinit cpu image s = .ok ((), t)) :
    Effected (fun _ => False) initproc pages place s t ∧
      ∃ np, t.allproc = np :: s.allproc ∧ Alive t np ∧ (t.procs np).parent = none := by
  obtain ⟨np, pid, idx, q, place', birth⟩ := userinit_births ok runs
  have object : t.procs np = q := by
    rw [birth.after]
    exact Function.update_self ..
  obtain ⟨-, -, state, parent⟩ := birth.named
  refine ⟨⟨_, place', Birth.effect ok birth housed nofun⟩, np, ?_, ⟨?_, ?_⟩, ?_⟩
  · rw [birth.after]
    rfl
  · rw [birth.after]
    exact List.mem_cons_self ..
  · rw [object, state]
    exact nofun
  · rw [object, parent]

end

theorem wakeup_kin (self chan : Nat) (s : Kernel) (q : Nat) :
    ((wakeup self chan s).procs q).parent = (s.procs q).parent ∧
      ((s.procs q).state ≠ .zombie → ((wakeup self chan s).procs q).state ≠ .zombie) := by
  show (if _ then _ else _ : Proc).parent = _ ∧ (_ → (if _ then _ else _ : Proc).state ≠ _)
  split
  · exact ⟨rfl, fun _ => nofun⟩
  · exact ⟨rfl, id⟩

theorem wakeParent_kin (p : Nat) (initproc : Option Nat) (s : Kernel) (q : Nat) :
    ((wakeParent p initproc s).procs q).parent = (s.procs q).parent ∧
      ((s.procs q).state ≠ .zombie → ((wakeParent p initproc s).procs q).state ≠ .zombie) := by
  unfold wakeParent
  split
  · exact ⟨rfl, id⟩
  · split
    · exact ⟨rfl, id⟩
    · exact wakeup_kin _ _ _ _

/-- A process that exits has no children then. -/
theorem bury_family (status : Int) (family : Family initproc s) (notInit : initproc ≠ some p) :
    Family initproc (bury p initproc status s) ∧
      ∀ q, q ≠ p → Alive s q → Alive (bury p initproc status s) q := by
  have list : (bury p initproc status s).allproc = s.allproc := by
    rw [(bury_sameSpaces p initproc status s).rest]
  have kin : ∀ q, ((wakeParent p initproc (wakeup p (initproc.getD 0)
      (reparent p initproc s))).procs q).parent = ((reparent p initproc s).procs q).parent ∧
      (((reparent p initproc s).procs q).state ≠ .zombie → ((wakeParent p initproc
        (wakeup p (initproc.getD 0) (reparent p initproc s))).procs q).state ≠ .zombie) := by
    intro q
    obtain ⟨parent, state⟩ := wakeup_kin p (initproc.getD 0) (reparent p initproc s) q
    obtain ⟨parent', state'⟩ := wakeParent_kin p initproc
      (wakeup p (initproc.getD 0) (reparent p initproc s)) q
    exact ⟨parent'.trans parent, fun alive => state' (state alive)⟩
  have parent : ∀ q, ((bury p initproc status s).procs q).parent =
      ((reparent p initproc s).procs q).parent := by
    intro q
    unfold bury
    dsimp only
    by_cases same : q = p
    · rw [same, Function.update_self]
      exact (kin p).1
    · rw [Function.update_of_ne same]
      exact (kin q).1
  have alive : ∀ q, q ≠ p → Alive s q → Alive (bury p initproc status s) q := by
    rintro q apart ⟨there, state⟩
    refine ⟨by rwa [list], ?_⟩
    unfold bury
    dsimp only
    rw [Function.update_of_ne apart]
    apply (kin q).2
    show (if _ then _ else _ : Proc).state ≠ _
    split <;> exact state
  have apart : ∀ i, initproc = some i → i ≠ p := by
    rintro i some_ rfl
    exact notInit some_
  obtain ⟨init, parents, rank, ranked⟩ := family
  -- what `reparent` has made of a parent
  have parent_cases : ∀ c ∈ s.allproc, ∀ q, ((bury p initproc status s).procs c).parent = some q →
      (s.procs c).parent = some p ∧ initproc = some q ∨ (s.procs c).parent = some q ∧ q ≠ p := by
    intro c there q has
    rw [parent] at has
    replace has : (if _ then _ else _ : Proc).parent = some q := has
    split at has
    · rename_i child
      exact .inl ⟨child.2, has⟩
    · rename_i other
      refine .inr ⟨has, ?_⟩
      rintro rfl
      exact other ⟨there, has⟩
  refine ⟨⟨?_, ?_, fun q => if initproc = some q then 0 else rank q + 1, ?_⟩, alive⟩
  · intro i some_
    obtain ⟨before, orphan⟩ := init i some_
    refine ⟨alive i (apart i some_) before, ?_⟩
    cases has : ((bury p initproc status s).procs i).parent with
    | none => rfl
    | some q =>
        rcases parent_cases i before.1 q has with ⟨old, -⟩ | ⟨old, -⟩ <;>
        · rw [orphan] at old
          cases old
  · intro c there q has
    rw [list] at there
    rcases parent_cases c there q has with ⟨-, some_⟩ | ⟨old, other⟩
    · exact alive q (apart q some_) (init q some_).1
    · exact alive q other (parents c there q old)
  · intro c there q has
    rw [list] at there
    have notInit' : initproc ≠ some c := by
      intro some_
      have orphan := (init c some_).2
      rcases parent_cases c there q has with ⟨old, -⟩ | ⟨old, -⟩ <;>
      · rw [orphan] at old
        cases old
    dsimp only
    rw [if_neg notInit']
    rcases parent_cases c there q has with ⟨-, some_⟩ | ⟨old, -⟩
    · rw [if_pos some_]
      exact Nat.succ_pos _
    · have less := ranked c there q old
      split <;> omega

end Life

end Av6
