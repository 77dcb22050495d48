import Av6.KmemInvariant

/-!
# What an operation can come to

On a state that is in order, an operation returns and leaves the state in order, stops at
the assertion of `kmem_cache_destroy`, or comes back to a lock that it holds; the last
happens exactly when the operation is `Stuck`.
-/

namespace Av6

namespace Kmem

open FallibleState TransitionSystem

variable {s t : System} {a : AllocState} {c : CacheRef} {g : Grant} {cpu : Fin NCPU_MAX}
  {op : Op} {size : BitVec 64} {ptr : Nat}

/-- A cache that is created has slots that fit one page. -/
def Op.Fits : Op → Prop
  | create size align =>
      (cacheLayout size align).slotsPerSlab ≠ 0 → (cacheLayout size align).Fits
  | _ => True

/-- The operation frees an object, finds its magazines full and no empty one, and
`magazine_cache`, which has to grow, would be reclaimed from another cache's depot. -/
def Op.Stuck (s : System) (cpu : Fin NCPU_MAX) : Op → Prop
  | kfree ptr => ZERO_SIZE_PTR < ptr ∧ kpageIsSlab s.alloc ptr = true ∧
      FreeStuck s.alloc cpu (s.alloc.slabs (ptr / PGSIZE)).cache
  | cacheFree c _ => FreeStuck s.alloc cpu c
  | _ => False

theorem SystemOk.stuck_iff (ok : SystemOk s) (member : g ∈ s.grants) :
    g.Stuck s.alloc cpu ↔ (Op.kfree g.ptr).Stuck s cpu := by
  have nonzero := ok.ptr_gt member
  have route := ok.kpageIsSlab_iff member
  constructor
  · rintro ⟨c, from_, stuck⟩
    obtain ⟨isSlab, owner⟩ := route.1 c from_
    exact ⟨nonzero, isSlab, by rwa [owner]⟩
  · rintro ⟨-, isSlab, stuck⟩
    cases from_ : g.origin with
    | some c =>
        rw [(route.1 c from_).2] at stuck
        exact ⟨c, from_, stuck⟩
    | none => simp [route.2 from_] at isSlab

/-- The class of a size is large enough. -/
theorem classOf_spec : ∀ n : Fin (KMALLOC_MAX_SLAB + 1), n.val ≠ 0 →
    classOf (BitVec.ofNat 64 n) < kmallocSize.length ∧
      n ≤ kmallocSize.getD (classOf (BitVec.ofNat 64 n)) 0 := by
  decide +kernel

/-- The layout of a class: the slots start right behind the header. -/
theorem classLayout : ∀ i : Fin kmallocSize.length,
    let l := cacheLayout (BitVec.ofNat 64 (kmallocSize.getD i 0)) 16
    l.objsize = kmallocSize.getD i 0 ∧ l.objOffset = slabHeaderSize ∧ l.objsize % 16 = 0 ∧
      l.Fits := by
  decide +kernel

theorem SystemOk.exists_class (ok : SystemOk s) (nonzero : size ≠ 0)
    (small : size.toNat ≤ KMALLOC_MAX_SLAB) :
    ∃ c, s.classes[classOf size]? = some c ∧ c ∈ s.classes ∧
      size.toNat ≤ (s.alloc.caches c).layout.objsize := by
  obtain ⟨inside, enough⟩ := classOf_spec ⟨size.toNat, by omega⟩ (by
    show size.toNat ≠ 0
    rwa [Ne, ← BitVec.toNat_inj] at nonzero)
  simp only [BitVec.ofNat_toNat, BitVec.setWidth_eq] at inside enough
  have there : classOf size < s.classes.length := by rwa [ok.classes.length]
  refine ⟨s.classes[classOf size], List.getElem?_eq_getElem there, List.getElem_mem there, ?_⟩
  rw [ok.classes.layout _ _ (List.getElem?_eq_getElem there),
    (classLayout ⟨classOf size, inside⟩).1]
  exact enough

/-- The operation has been done, and the books are in order. -/
def Settles (s : System) (cpu : Fin NCPU_MAX) (op : Op) : Prop :=
  Yields (op.run cpu s.classes) s.alloc fun result a =>
    SystemOk { s with alloc := a, grants := op.grants s result }

section Alloc

variable (ok : SystemOk s)
include ok

/-- A public operation does not hold the lock of `magazine_cache` when it grows a cache. -/
theorem SystemOk.kmemCacheAlloc (useMag : c.useMag = true) (member : c ∈ s.alloc.kmemCaches) :
    Yields (kmemCacheAlloc cpu c) s.alloc fun r t =>
      Served s.alloc t ∧ Handed (liveOf s.grants) (wholeOf s.grants) c r t := by
  refine kmemCacheAlloc_yields ok.kmem member useMag (by simp [ok.held]) ok.pageLocks ?_
  rintro ⟨-, -, -, taken, -⟩
  have same : c = .magazineCache := by simpa [AllocState.lock, ok.held, eq_comm] using taken
  rw [same] at useMag
  cases useMag

theorem SystemOk.notReclaimStuck : ¬ ReclaimStuck s.alloc := by
  rintro ⟨taken, -⟩
  simp [ok.held] at taken

/-- A page for a client. -/
theorem SystemOk.kpageAlloc {bytes : Nat} (small : bytes ≤ PGSIZE) :
    Yields kpageAlloc s.alloc fun r a =>
      SystemOk { s with alloc := a, grants := grantOf bytes none r ++ s.grants } := by
  refine (kpageAlloc_yields ok.kmem ok.pageLocks fun _ => ok.notReclaimStuck).mono ?_
  rintro _ a ⟨frame, ⟨rfl, kmem⟩ | ⟨p, rfl, kmem⟩⟩
  · exact ok.served frame.served kmem ok.grant ok.idle
  · exact ok.handedPage frame.served kmem small

theorem SystemOk.kmalloc : Settles s cpu (.kmalloc size) := by
  unfold Settles
  simp only [Op.run, Kmem.kmalloc, Op.grants]
  split
  · exact .ret ok
  · rename_i nonzero
    split
    · rename_i small
      obtain ⟨c, there, listed, enough⟩ := ok.exists_class nonzero small
      have useMag := ok.classes.useMag c listed
      have member := ok.classes.known c listed
      have from_ : kmallocOrigin s.classes size = some c := by
        rw [kmallocOrigin, if_pos small, there]
      rw [there, from_]
      refine (ok.kmemCacheAlloc useMag member).mono ?_
      rintro r a ⟨served, handed⟩
      exact ok.handed served handed useMag member enough
    · rename_i large
      have from_ : kmallocOrigin s.classes size = none := if_neg large
      rw [from_]
      split
      · rename_i small
        exact ok.kpageAlloc small
      · exact .ret ok

theorem SystemOk.cacheAlloc (legal : (Op.cacheAlloc c).Legal s) :
    Settles s cpu (.cacheAlloc c) := by
  refine (ok.kmemCacheAlloc legal.1 legal.2).mono ?_
  rintro r a ⟨served, handed⟩
  exact ok.handed served handed legal.1 legal.2 le_rfl

theorem SystemOk.reclaim : Settles s cpu .reclaim := by
  refine (kmemReclaim_yields ok.kmem ok.pageLocks ok.notReclaimStuck).bind ?_
  rintro - a ⟨kmem, frame⟩
  exact .ret (ok.served frame.served kmem ok.grant ok.idle)

end Alloc

section Free

variable (ok : SystemOk s)
include ok

theorem SystemOk.pageFree {vaddr : Nat} (legal : (Op.pageFree vaddr).Legal s) :
    Settles s cpu (.pageFree vaddr) := by
  obtain ⟨g, -, found, split⟩ := exists_perm_eraseP
    (P := fun g => g.ptr = vaddr ∧ g.origin = none) (by simpa [Op.Legal] using legal)
  obtain ⟨rfl, from_⟩ : g.ptr = vaddr ∧ g.origin = none := by simpa using found
  have back := ok.giveBack_yields cpu split (by
    rintro ⟨c, object, -⟩
    rw [from_] at object
    cases object)
  rw [giveBack, from_] at back
  exact back.bind fun _ a done => .ret done

theorem SystemOk.cacheFree (legal : (Op.cacheFree c ptr).Legal s)
    (free : ¬ (Op.cacheFree c ptr).Stuck s cpu) : Settles s cpu (.cacheFree c ptr) := by
  obtain ⟨g, -, found, split⟩ := exists_perm_eraseP
    (P := fun g => g.ptr = ptr ∧ g.origin = some c) (by simpa [Op.Legal] using legal)
  obtain ⟨rfl, from_⟩ : g.ptr = ptr ∧ g.origin = some c := by simpa using found
  have back := ok.giveBack_yields cpu split (by
    rintro ⟨d, object, stuck⟩
    rw [from_] at object
    cases object
    exact free stuck)
  rw [giveBack, from_] at back
  exact back.bind fun _ a done => .ret done

theorem SystemOk.kfree (legal : (Op.kfree ptr).Legal s) (free : ¬ (Op.kfree ptr).Stuck s cpu) :
    Settles s cpu (.kfree ptr) := by
  rcases Nat.lt_or_ge ZERO_SIZE_PTR ptr with nonzero | zero
  · obtain ⟨g, member, found, split⟩ := exists_perm_eraseP (P := fun g => g.ptr = ptr)
      (by simpa [Op.Legal, Nat.not_le.mpr nonzero] using legal)
    obtain rfl : g.ptr = ptr := by simpa using found
    have back := ok.giveBack_yields cpu split (fun stuck => free ((ok.stuck_iff member).mp stuck))
    obtain ⟨u, a, runs, done⟩ := back
    rw [← ok.kfree_eq member] at runs
    exact Yields.bind (.of_eq runs done) fun _ a done => .ret done
  · have nothing : (s.grants.eraseP fun g => g.ptr = ptr) = s.grants := by
      refine List.eraseP_of_forall_not fun g member => ?_
      have away := ok.ptr_gt member
      simp only [decide_eq_true_eq]
      omega
    unfold Settles
    simp only [Op.run, Kmem.kfree, if_pos zero, Op.grants, nothing]
    exact .ret ok

theorem SystemOk.run_fails (legal : op.Legal s) (stuck : op.Stuck s cpu) :
    Fails (op.run cpu s.classes) s.alloc (.alreadyHeld (.cache .magazineCache)) := by
  cases op with
  | kfree ptr =>
      obtain ⟨g, member, rfl⟩ : ∃ g ∈ s.grants, g.ptr = ptr :=
        legal.resolve_left (Nat.not_le.mpr stuck.1)
      refine Fails.bind ?_
      unfold Fails
      rw [ok.kfree_eq member]
      exact ok.giveBack_fails member ((ok.stuck_iff member).mpr stuck)
  | cacheFree c obj =>
      obtain ⟨g, member, rfl, from_⟩ := legal
      have back := ok.giveBack_fails member ⟨c, from_, stuck⟩
      rw [giveBack, from_] at back
      exact back.bind
  | _ => exact stuck.elim

end Free

section List

variable (ok : SystemOk s)
include ok

/-- An operation on the list of caches. -/
theorem SystemOk.relist (kmem : KmemOk a (liveOf s.grants) (wholeOf s.grants)) (held : a.held = [])
    (idle : ∀ c, c ∉ a.kmemCaches → liveOf s.grants c = 0)
    (known : ∀ c ∈ s.classes, c ∈ a.kmemCaches)
    (layout : ∀ c ∈ s.alloc.kmemCaches, (a.caches c).layout = (s.alloc.caches c).layout) :
    SystemOk { s with alloc := a } := by
  refine ⟨kmem, held, idle, ⟨ok.classes.length, ok.classes.useMag, known, ?_⟩, fun g member => ?_⟩
  · intro i c there
    rw [← ok.classes.layout i c there]
    exact layout c (ok.classes.known c (List.mem_of_getElem? there))
  · have here := ok.grant g member
    unfold GrantOk at here ⊢
    split at here
    · rename_i c from_
      have same := layout c (ok.known member from_).2
      exact ⟨here.1, here.2.trans_eq (congrArg Layout.objsize same.symm)⟩
    · exact here

theorem SystemOk.create {align : BitVec 64} (fits : (Op.create size align).Fits) :
    Settles s cpu (.create size align) := by
  refine (kmemCacheCreate_yields cpu ok.kmem ok.idle ok.pageLocks (by simp [ok.held])
    (by simp [ok.held]) fits).bind ?_
  rintro _ a ⟨held, -, layout, made⟩
  have unlocked := held.trans ok.held
  refine .ret ?_
  cases made with
  | none list kmem =>
      refine ok.relist kmem unlocked ?_ ?_ layout
      · rw [list]
        exact ok.idle
      · rw [list]
        exact ok.classes.known
  | some addr list _ kmem =>
      refine ok.relist kmem unlocked (fun c outside => ok.idle c fun there => ?_) (fun c there => ?_)
        layout
      · exact outside (by simp [list, there])
      · simp [list, ok.classes.known c there]

theorem SystemOk.destroy {addr : Nat} (legal : (Op.destroy addr).Legal s) :
    Settles s cpu (.destroy addr) ∨
      Fails ((Op.destroy addr).run cpu s.classes) s.alloc .liveObjects := by
  obtain ⟨member, notClass⟩ := legal
  rcases kmemCacheDestroy_yields ok.kmem member ok.held with yields | fails
  · refine Or.inl (yields.bind ?_)
    rintro - a ⟨held, -, list, layout, idle, kmem⟩
    refine .ret (ok.relist kmem (held.trans ok.held) (fun c outside => ?_) (fun c there => ?_)
      fun c _ => layout c)
    · by_cases same : c = .object addr
      · rw [same]
        exact idle
      · exact ok.idle c fun there => outside (by rw [list]; exact (List.mem_erase_of_ne same).mpr there)
    · rw [list]
      have distinct : c ≠ .object addr := by
        rintro rfl
        exact notClass there
      exact (List.mem_erase_of_ne distinct).mpr (ok.classes.known c there)
  · exact Or.inr fails.bind

end List

/-- Every operation that is not stuck returns, unless it destroys a cache in use. -/
theorem SystemOk.run (ok : SystemOk s) (legal : op.Legal s) (fits : op.Fits)
    (free : ¬ op.Stuck s cpu) :
    Settles s cpu op ∨ Fails (op.run cpu s.classes) s.alloc .liveObjects := by
  cases op with
  | kmalloc size => exact Or.inl ok.kmalloc
  | kfree ptr => exact Or.inl (ok.kfree legal free)
  | cacheAlloc c => exact Or.inl (ok.cacheAlloc legal)
  | cacheFree c obj => exact Or.inl (ok.cacheFree legal free)
  | create size align => exact Or.inl (ok.create fits)
  | destroy addr => exact ok.destroy legal
  | pageAlloc => exact Or.inl (ok.kpageAlloc le_rfl)
  | pageFree vaddr => exact Or.inl (ok.pageFree legal)
  | reclaim => exact Or.inl ok.reclaim

theorem exec_eq_ok {t : System} : s.exec cpu op = .ok t ↔ ∃ result a,
    op.run cpu s.classes s.alloc = .ok (result, a) ∧
      t = { s with alloc := a, grants := op.grants s result } := by
  unfold System.exec
  cases outcome : op.run cpu s.classes s.alloc with
  | error e => simp [bind, Except.bind]
  | ok pair =>
      obtain ⟨result, a⟩ := pair
      simp [bind, Except.bind, pure, Except.pure, eq_comm]

theorem SystemOk.exec (ok : SystemOk s) (legal : op.Legal s) (fits : op.Fits)
    (next : s.exec cpu op = .ok t) : SystemOk t := by
  obtain ⟨result, a, runs, rfl⟩ := exec_eq_ok.mp next
  by_cases stuck : op.Stuck s cpu
  · have fails := ok.run_fails legal stuck
    rw [Fails, runs] at fails
    cases fails
  · rcases ok.run legal fits stuck with settles | fails
    · exact Yields.post_of_eq settles runs
    · rw [Fails, runs] at fails
      cases fails

end Kmem

end Av6
