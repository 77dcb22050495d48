import Av6.ExecAtomic
import Av6.KmemReachable
import Av6.SbrkRuns
import Av6.TransitionSystem

/-!
# Runs of processes

The states that `userinit`, `kthread_add`, `fork`, `exec` and `growproc` lead to, from a state in
which there is no process yet.  In each of them the pages are accounted for, and every user process
has an address space with no page above its size.
-/

namespace Av6

namespace Sbrk

open FallibleState Kmem Pmap Elf Fork TransitionSystem Bitstring
open Exec (Rewritten fresh_of_bare writeWord_twin)

variable {s t : Kernel} {live : CacheRef → Multiset Nat} {place place' : Place}
  {programs : List (String × Image)} {path : String} {image : Image}
  {p root stack sz uargv : Nat} {n : BitVec 32} {r : Int} {cpu : Fin NCPU_MAX}
  {v w : VmState}

/-- The invariant holds after `growproc`. -/
theorem Settled.ok (settled : Settled p root n live place s r t place')
    (ok : KernelOk live place s) (listed : p ∈ s.allproc)
    (table : (s.procs p).pagetable = some root) : KernelOk live place' t := by
  obtain ⟨reshaped, kept, ends⟩ := settled
  have space := (ok.process p listed).space root table
  have changed := reshaped.changed
  have others : ∀ slot : Slot, ¬ slot.Of root → ¬ slot.Of root → place' slot = place slot :=
    fun slot notOf _ => changed.within.only slot notOf
  rcases ends with ⟨-, after, same⟩ | ⟨-, -, newsz, small, -, after, moved⟩
  · have space' : UserSpace place' root (s.procs p).sz := by
      refine ⟨changed.rooted, space.small, ?_⟩
      intro v filled
      rw [same v] at filled
      exact space.below v filled
    have ok' := @replaced_ok _ _ _ _ _ _ _ _ _ s.frames ok listed table table changed.twins kept others
      (.inl rfl) space' rfl
    rw [Function.update_eq_self] at ok'
    rw [after]
    exact ok'
  · have space' : UserSpace place' root newsz := by
      refine ⟨changed.rooted, small, ?_⟩
      intro v filled
      by_contra high
      have above := le_pgRoundUp small
      apply filled
      apply moved.above v
      unfold pgRoundUp pgRoundDown PGSIZE MAXUVA at *
      omega
    rw [after]
    exact replaced_ok (q := { s.procs p with sz := newsz }) ok listed table table changed.twins kept
      others (.inl rfl) space' rfl

/-- Why `exec` may stop: the caller is a kernel thread, or the image is one that cannot be mapped. -/
def ExecStops (s : Kernel) (p : Nat) (e : Pmap.Panic) : Prop :=
  e = .nullPte ∧ (s.procs p).pagetable = none ∨ Panic.OfMapping e

/-- `exec` in two runs: the process has the new address space, or its old one. -/
theorem exec_reseats (ok : KernelOk live place s) (twins : Twins live place s.vm w)
    (listed : p ∈ s.allproc) : Paired (ExecStops s p) (exec programs path uargv p) s w
      fun _ t w' => ∃ place', KernelOk live place' t ∧ Twins live place' t.vm w' ∧
        Reseated p place place' s t := by
  unfold exec
  apply Paired.read_bind rfl
  cases table : (s.procs p).pagetable with
  | none => exact .inl ⟨.nullPte, .inl ⟨rfl, table⟩, rfl⟩
  | some old =>
      have space := (ok.process p listed).space old table
      have finishes := Exec.exec_twinOr programs path uargv [] twins ok.bare space.rooted
      have ends := Paired.onVm finishes (Exec.exec_keepsSlabs programs path old uargv s.vm)
      apply (ends.allow fun _ => .inr).bind
      rintro result _ w' ⟨vm, rfl, finished, kept⟩
      cases result with
      | none =>
          have undone := finished.failed rfl
          have ok' := @replaced_ok _ _ _ _ _ _ _ _ _ s.frames ok listed table table
            undone.twins.left kept (fun _ _ _ => rfl) (.inl rfl) space rfl
          rw [Function.update_eq_self] at ok'
          have still := @reseated_of_update s place place p vm (s.procs p) s.frames
            ⟨rfl, rfl, rfl, rfl, rfl, rfl⟩ (fun _ _ => rfl)
            (undone.within.left.mono fun _ => False.elim) fun r has _ _ _ => has
          rw [Function.update_eq_self] at still
          exact .ret ⟨place, ok', undone.twins, still⟩
      | some loaded =>
          obtain ⟨place', exchanged⟩ := finished.exchanged loaded rfl
          have space' : UserSpace place' loaded.pagetable loaded.sz :=
            ⟨exchanged.rooted, exchanged.inUser, exchanged.below⟩
          have others : ∀ slot : Slot, ¬ slot.Of old → ¬ slot.Of loaded.pagetable →
              place' slot = place slot :=
            fun slot notOld notNew => exchanged.others slot notNew notOld
          have apart : ∀ slot, ¬ OfSpaces (some old) (some loaded.pagetable) slot →
              ¬ slot.Of loaded.pagetable ∧ ¬ slot.Of old := by
            intro slot outside
            exact ⟨fun of => outside ⟨_, .inr rfl, of⟩, fun of => outside ⟨_, .inl rfl, of⟩⟩
          have within : Within (OfSpaces (some old) (some loaded.pagetable)) place place'
              s.vm s.vm vm vm := by
            constructor
            · intro slot outside
              obtain ⟨notNew, notOld⟩ := apart slot outside
              exact exchanged.others slot notNew notOld
            · intro slot q off outside there
              obtain ⟨notNew, notOld⟩ := apart slot outside
              have same := (exchanged.contents slot q off notNew notOld there).1
              exact ⟨same, same⟩
          refine .update_bind rfl (.ret ⟨place', ?_, exchanged.twins, ?_⟩)
          · unfold install
            exact replaced_ok (s := s) ok listed table rfl exchanged.twins.left kept others
              (.inr exchanged.fresh) space' rfl
          · unfold install
            refine reseated_of_update (s := s) ?_ ?_ ?_ ?_
            · exact ⟨rfl, rfl, rfl, rfl, rfl, rfl⟩
            · intro a other
              exact Function.update_of_ne other _ _
            · rw [table]
              exact within
            · intro r has slot of filled
              obtain rfl : old = r := Option.some.inj (table.symm.trans has)
              exact absurd (exchanged.gone slot of) filled

theorem exec_paired (ok : KernelOk live place s) (twins : Twins live place s.vm w)
    (listed : p ∈ s.allproc) : Paired (fun _ => True) (exec programs path uargv p) s w
      fun _ t w' => ∃ place', KernelOk live place' t ∧ Twins live place' t.vm w' := by
  apply ((exec_reseats ok twins listed).allow fun _ _ => trivial).mono
  intro r t w' ⟨place', ok', twins', _⟩
  exact ⟨place', ok', twins'⟩

/-- The invariant holds after `exec`. -/
theorem exec_ok (ok : KernelOk live place s) (listed : p ∈ s.allproc)
    (runs : exec programs path uargv p s = .ok (r, t)) : ∃ place', KernelOk live place' t := by
  obtain ⟨w', -, place', ok', -⟩ := (exec_paired ok ok.twins listed).second runs
  exact ⟨place', ok'⟩

/-- A page of a page table is written to, and is no table. -/
theorem Changed.rewritten {va : Nat} {u : VmState} (changed : Changed root live place place' v v w w)
    (leaf : place' (leafSlot root va) = some p) (twins : Twins live place' u u)
    (rewritten : Rewritten p w w u u) : Changed root live place place' v v u u := by
  have within := changed.within
  refine ⟨twins, ⟨within.only, ?_⟩, changed.rooted⟩
  intro slot q off notOf there
  have apart : q ≠ p := by
    rintro rfl
    rw [← within.only slot notOf] at there
    rw [changed.twins.ok.unique there leaf] at notOf
    exact notOf rfl
  have kept := within.contents slot q off notOf there
  have same := rewritten.others q off apart
  exact ⟨same.1.trans kept.1, same.2.trans kept.2⟩

theorem initStack_yields {va sp : Nat} (twins : Twins live place v v)
    (leaf : place (leafSlot root va) = some stack) :
    Yields (initStack stack sz sp) v fun _ w => Twins live place w w ∧ Rewritten stack v v w w := by
  have loop : Twin (initStack stack sz sp) v v fun _ w w' =>
      Twins live place w w' ∧ Rewritten stack v v w w' := by
    apply Twin.forM_range (I := fun _ w w' => Twins live place w w' ∧ Rewritten stack v v w w') 5
    · intro i _ w w' ⟨twins, rewritten⟩
      apply (writeWord_twin twins leaf trivial (leaf_childless _ _)).mono
      intro _ u u' ⟨twins', rewritten'⟩
      exact ⟨twins', rewritten.trans rewritten'⟩
    · exact ⟨twins, .refl _ _ _⟩
  exact loop.self

/-- A page table with an image and a stack page above it. -/
structure FirstSpace (root sz : Nat) (live : CacheRef → Multiset Nat) (place place' : Place)
    (v w : VmState) : Prop where
  changed : Changed root live place place' v v w w
  fresh : ∀ slot : Slot, slot.Of root → place slot = none
  space : UserSpace place' root (sz + PGSIZE)
  kept : KeepsCaches v w

/-- A run of the memory part of `userinit`. -/
theorem firstSpace_of_runs {entry sp : Nat} {v₁ v₂ v₃ v₄ : VmState} (twins : Twins live place v v)
    (bare : place (.hand 0) = none) (creates : uvmcreate v = .ok (some root, v₁))
    (loads : loadelf image false root v₁ = .ok (some (entry, sz), v₂))
    (takes : allocPage v₂ = .ok (some stack, v₃))
    (maps : mappages root sz (kvaToPa stack) PGSIZE PAGE_USER
      { v₃ with memory := zeroPage v₃.memory stack } = .ok (true, v₄))
    (writes : initStack stack sz sp v₄ = .ok ((), w)) :
    ∃ place', FirstSpace root sz live place place' v w := by
  rcases (uvmcreate_twin twins).self.post_of_eq creates with
    ⟨none_, -⟩ | ⟨root', some_, bareRoot, -, twins₁, grown⟩
  · cases none_
  cases some_
  have fresh := fresh_of_bare twins bareRoot
  have bare₁ : Function.update place (.table root 0 0) (some root) (.hand 0) = none := by
    rw [Function.update_of_ne (by simp), bare]
  have rooted₁ : Function.update place (.table root 0 0) (some root) (.table root 0 0) = some root :=
    Function.update_self ..
  have empty : ∀ v, Function.update place (.table root 0 0) (some root) (.leaf root v) = none := by
    intro v
    have of : (Slot.leaf root v).Of root := rfl
    rw [Function.update_of_ne (by simp), fresh _ of]
  have planted : Within (Slot.Of root) place (Function.update place (.table root 0 0) (some root))
      v v v₁ v₁ := by
    apply grown.within.mono
    intro slot same
    subst same
    exact rfl
  obtain ⟨place₂, extended, loaded⟩ := (loadelf_twinOr twins₁ bare₁ rooted₁).self.post_of_eq loads
  obtain ⟨aligned, -, -, inUser, size, loadedAt⟩ := loaded entry sz rfl
  -- the stack page
  have mounts : TwinOr Panic.OfMapping (newPage root sz PAGE_USER
      (fun stack => modify fun s : VmState => { s with memory := zeroPage s.memory stack })
      (fun stack => pure (some stack)) (pure none)) v₂ v₂ fun r t t' => ∀ stack, r = some stack →
        ∃ place₃, Extended root live place₂ place₃ v₂ v₂ t t' ∧ sz < MAXUVA ∧
          (∀ v, v ≠ sz / PGSIZE → place₃ (.leaf root v) = place₂ (.leaf root v)) ∧
          place₃ (leafSlot root sz) = some stack := by
    apply newPage_twinOr (fun _ => 0) extended.twins (safe_ofMapping _ _ _) (extended.hand bare₁)
      (extended.keeps _ _ rooted₁) aligned attributes_user fun p t t' _ _ => zeroPage_filled
    · intro p place₃ t t' extended' others leaf _ small _ _
      apply TwinOr.ret
      intro stack same
      cases same
      exact ⟨place₃, extended', small, others, leaf⟩
    · intro place₃ t t' _ _ _
      apply TwinOr.ret
      intro stack same
      cases same
  have mounted : newPage root sz PAGE_USER
      (fun stack => modify fun s : VmState => { s with memory := zeroPage s.memory stack })
      (fun stack => pure (some stack)) (pure none) v₂ = .ok (some stack, v₄) := by
    unfold newPage
    rw [bind_eq_of_ok takes]
    have cleared : (modify fun s : VmState => { s with memory := zeroPage s.memory stack } : Vm Unit)
        v₃ = .ok ((), { v₃ with memory := zeroPage v₃.memory stack }) := rfl
    dsimp only
    rw [bind_eq_of_ok cleared, bind_eq_of_ok maps]
    rfl
  obtain ⟨place₃, extended', small, others, leaf⟩ := mounts.self.post_of_eq mounted stack rfl
  obtain ⟨twins₄, rewritten⟩ := (initStack_yields extended'.twins leaf).post_of_eq writes
  have whole := extended.trans extended'
  have changed : Changed root live place place₃ v v v₄ v₄ :=
    ⟨whole.twins, planted.trans whole.within, whole.keeps _ _ rooted₁⟩
  have kept : KeepsCaches v w := by
    have first := keepsCaches_of_slabs (Exec.ptalloc_keepsSlabs v _ _ creates)
    have second := keepsCaches_of_slabs (Exec.loadelf_keepsSlabs image false root v₁ _ _ loads)
    have third := keepsCaches_of_slabs (Exec.allocPage_keepsSlabs v₂ _ _ takes)
    have fourth := keepsCaches_of_slabs (Exec.mappages_keepsSlabs _ _ _ _ _ _ _ _ maps)
    have cleared : KeepsCaches v₃ { v₃ with memory := zeroPage v₃.memory stack } := ⟨rfl, rfl⟩
    have fifth : KeepsCaches v₄ w := ⟨by rw [rewritten.kmem], by rw [rewritten.kmem]⟩
    exact ((((first.trans second).trans third).trans cleared).trans fourth).trans fifth
  refine ⟨place₃, Changed.rewritten changed leaf twins₄ rewritten, fresh,
    ⟨changed.rooted, ?_, ?_⟩, kept⟩
  · unfold PGSIZE MAXUVA at *
    omega
  · intro v filled
    by_cases top : v = sz / PGSIZE
    · subst top
      unfold PGSIZE at *
      omega
    · rw [others v top] at filled
      have low := loadedAt.below size inUser empty filled
      omega

theorem exists_of_onVm {α : Type} {m : Vm α} {a : α} (runs : onKern (onVm m) s = .ok (a, t)) :
    ∃ vm, m s.vm = .ok (a, vm) ∧ t = { s with vm } := by
  obtain ⟨u, part, rfl⟩ := exists_of_onPart runs
  exact exists_of_onPart part

/-- `userinit` makes a process, if it returns. -/
theorem userinit_births (ok : KernelOk live place s) (runs : userinit cpu image s = .ok ((), t)) :
    ∃ np pid idx q place', Birth none live place place' np pid idx q s s.vm t t.vm := by
  obtain ⟨made, u, part, runs⟩ := exists_of_bind runs
  obtain ⟨_, allocates, rfl⟩ := exists_of_onPart part
  rcases (allocproc_yields ok).post_of_eq allocates with
    ⟨rfl, -⟩ | ⟨np, pid, idx, kstack, place₁, rfl, built⟩
  · cases runs
  obtain ⟨created, _, part, runs⟩ := exists_of_bind runs
  obtain ⟨v₁, creates, rfl⟩ := exists_of_onVm part
  cases created with
  | none => cases runs
  | some root =>
  obtain ⟨_, _, tabled, runs⟩ := exists_of_bind runs
  cases tabled
  obtain ⟨loaded, _, part, runs⟩ := exists_of_bind runs
  obtain ⟨v₂, loads, rfl⟩ := exists_of_onVm part
  rcases loaded with _ | ⟨entry, sz⟩
  · cases runs
  obtain ⟨page, _, part, runs⟩ := exists_of_bind runs
  obtain ⟨v₃, takes, rfl⟩ := exists_of_onVm part
  cases page with
  | none => cases runs
  | some stack =>
  obtain ⟨_, _, part, runs⟩ := exists_of_bind runs
  obtain ⟨_, clears, rfl⟩ := exists_of_onVm part
  cases clears
  obtain ⟨mapped, _, part, runs⟩ := exists_of_bind runs
  obtain ⟨v₄, maps, rfl⟩ := exists_of_onVm part
  cases mapped with
  | false => cases runs
  | true =>
  obtain ⟨_, _, part, runs⟩ := exists_of_bind runs
  obtain ⟨w, writes, rfl⟩ := exists_of_onVm part
  obtain ⟨_, _, initializes, runs⟩ := exists_of_bind runs
  cases initializes
  have bare₁ : place₁ (.hand 0) = none := by
    rw [built.stacked.within.only, ok.bare]
    rintro (same | ⟨i, -, same⟩)
    · cases same
    · cases same
  have at_ : sz = USER_BASE + sz := (Nat.zero_add sz).symm
  rw [← at_] at maps
  obtain ⟨place₂, first⟩ := firstSpace_of_runs built.stacked.twins bare₁ creates loads takes maps writes
  obtain ⟨t', activates, rfl⟩ := exists_of_onPart runs
  unfold initProc at activates
  dsimp only [id] at activates ⊢
  rw [Function.update_self, Function.update_idem, built.object] at activates
  generalize child : ({ freshProc (s.procs np) pid idx kstack s.forkret with
    pagetable := some root, sz := sz + PGSIZE, name := copyName "init".toList } : Proc) = q at activates
  generalize framed : Function.update u.frames _ _ = frames at activates
  have pid_ : q.pid = pid := by rw [← child, freshProc]
  have slot : q.kslot = idx := by rw [← child, freshProc]
  have table : q.pagetable = some root := by rw [← child]
  have size : q.sz = sz + PGSIZE := by rw [← child]
  have top := allocproc_top allocates
  rw [built.object] at top
  have stackTop : q.kstack = kstackTop idx := by
    rw [← child]
    exact top
  have tf : q.tf = kstackTop idx - TF_SIZE := by
    rw [← stackTop, ← child, freshProc]
  have others : ∀ a ≠ q.tf, frames a = s.frames a := by
    intro a other
    rw [← framed, built.rest]
    rw [← child] at other
    exact Function.update_of_ne other _ _
  have active : Yields (procActivate np none)
      { u with vm := w, procs := Function.update u.procs np q, frames } fun _ t =>
        t = published s np pid idx { q with parent := none <|> q.parent, state := .runnable }
          frames w := by
    apply procActivate_yields pid_
    rw [built.rest]
    simp only [Function.update_idem]
  have after := active.post_of_eq activates
  have new : NewSpace { q with parent := none <|> q.parent, state := .runnable } place₁ place₂ := by
    refine ⟨?_, ?_, ?_, ?_⟩
    · intro slot notOf
      exact first.changed.within.only slot (notOf root table)
    · intro r has
      obtain rfl : root = r := Option.some.inj (table.symm.trans has)
      exact first.fresh
    · intro r has
      obtain rfl : root = r := Option.some.inj (table.symm.trans has)
      show UserSpace place₂ root q.sz
      rw [size]
      exact first.space
    · intro has
      cases table.symm.trans has
  have two : BuiltTwin np pid idx kstack live place place₁ s s.vm u u.vm := ⟨built, built.stacked⟩
  have ofNew : Within (OfNew idx { q with parent := none <|> q.parent, state := .runnable })
      place place₂ s.vm s.vm w w := by
    apply two.ofNew (first.changed.within.mono _)
    intro slot of
    exact ⟨root, table, of⟩
  have stack : ∀ i < KSTACK_PAGES, place₂ (stackSlot idx i) ≠ none := by
    intro i low
    rw [first.changed.within.only (stackSlot idx i) id]
    exact (built.stacked.filled i low).mpr trivial
  rw [after]
  refine ⟨np, pid, idx, { q with parent := none <|> q.parent, state := .runnable }, place₂, rfl,
    built.free, built.slot, built.fresh, ⟨pid_, slot, rfl, ?_⟩, ⟨stackTop, tf⟩, others, ?_, stack, ?_, ?_,
    built.published ok first.changed.twins (built.kept.trans first.kept) new slot,
    first.changed.twins, ofNew⟩
  · rw [← child, freshProc]
    rfl
  · rintro p ⟨⟩
  · rintro p ⟨⟩
  · rintro p ⟨⟩

/-- The invariant holds after `userinit`. -/
theorem userinit_ok (ok : KernelOk live place s) (runs : userinit cpu image s = .ok ((), t)) :
    ∃ live place, KernelOk live place t := by
  obtain ⟨np, pid, idx, q, place', birth⟩ := userinit_births ok runs
  exact ⟨_, place', birth.ok⟩

/-- The pages that clients hold whole, in the order of their grants. -/
def wholePages (gs : List Grant) : List Nat :=
  gs.filterMap fun g => if g.origin = none then some (g.ptr / PGSIZE) else none

/-- The pages that clients of the page allocator hold, by number. -/
def clientPlace (pages : List Nat) : Place
  | .client i => pages[i]?
  | _ => none

theorem accounts_clientPlace {pages : List Nat} (nodup : pages.Nodup) :
    Accounts (clientPlace pages) pages := by
  refine ⟨Multiset.coe_nodup.mpr nodup, ?_, ?_⟩
  · intro page
    rw [Multiset.mem_coe, List.mem_iff_getElem?]
    constructor
    · intro ⟨i, there⟩
      exact ⟨.client i, there⟩
    · intro ⟨slot, there⟩
      cases slot with
      | client i => exact ⟨i, there⟩
      | table | leaf | stackTable | stack | hand => cases there
  · intro slot slot' page there there'
    cases slot with
    | client i =>
        cases slot' with
        | client j =>
            obtain ⟨less, -⟩ := List.getElem?_eq_some_iff.mp there
            have same : pages[i]? = pages[j]? := there.trans there'.symm
            rw [(List.getElem?_inj less nodup).mp same]
        | table | leaf | stackTable | stack | hand => cases there'
    | table | leaf | stackTable | stack | hand => cases there

/-- The state when `userinit` is called: the allocators are set up and may have been used, the
window of kernel stacks is empty, pid 0 is reserved, and there is no process. -/
structure Initial (s : Kernel) : Prop where
  kmem : ∃ clients, KmemReachable Op.Fits clients ∧ clients.alloc = s.vm.kmem
  direct : ∀ page ∈ s.vm.kmem.managed, Direct page
  cache : s.procCache ∈ s.vm.kmem.kmemCaches ∧ s.procCache.useMag = true
  window : ∀ i < TABLE_ENTRIES, wordAt s.vm.memory L2_KSTACK i = 0
  pidmap : s.pidmap = bitSet (List.replicate (KSTACK_NSLOTS / 64) 0) 0
  slots : s.kstackSlotmap = List.replicate (KSTACK_NSLOTS / 64) 0
  allproc : s.allproc = []

/-- The places are those of the pages that the clients hold. -/
theorem Initial.ok_clients (initial : Initial s) {clients : System}
    (reached : KmemReachable Op.Fits clients) (same : clients.alloc = s.vm.kmem) :
    ∃ live, KernelOk live (clientPlace (wholePages clients.grants)) s := by
  obtain ⟨-, direct, ⟨member, useMag⟩, window, pidmap, slots, allproc⟩ := initial
  have system := systemOk_of_reachable (fun _ => id) reached
  have kmem := system.kmem
  have held := system.held
  replace kmem : KmemOk clients.alloc _ (wholePages clients.grants : Multiset Nat) := kmem
  generalize wholePages clients.grants = pages at kmem
  rw [same] at kmem held
  have accounts := accounts_clientPlace (Multiset.coe_nodup.mp kmem.slabs.pages.whole_nodup)
  have mapped : ∀ slot : Slot, slot.Mapped → clientPlace pages slot = none := by
    intro slot isMapped
    cases slot with
    | client i => exact isMapped.elim
    | table | leaf | stackTable | stack | hand => rfl
  have forest : Forest s.vm.memory (clientPlace pages) := by
    refine ⟨by simp [clientPlace], by simp [clientPlace], by simp [clientPlace],
      by simp [clientPlace], ?_, ?_, ?_⟩
    · intro slot up i hangs filled
      exact absurd (mapped slot hangs.mapped) filled
    · intro slot up i page hangs there
      rw [mapped up hangs.mapped_up] at there
      cases there
    · exact window
  refine ⟨liveOf clients.grants, ⟨⟨⟨_, kmem, accounts⟩, held, direct⟩, forest, .refl _ _⟩,
    rfl, useMag, member, ?_, ?_, ?_, ?_, ?_, ?_⟩
  · rw [pidmap]
    exact (length_bitSet _ _).trans List.length_replicate
  · rw [slots]
    exact List.length_replicate
  · intro idx _ i _ filled
    exact absurd rfl filled
  · simp [allproc]
  · simp [allproc]
  · simp [allproc]

theorem Initial.ok (initial : Initial s) : ∃ live place, KernelOk live place s := by
  obtain ⟨clients, reached, same⟩ := initial.kmem
  obtain ⟨live, ok⟩ := initial.ok_clients reached same
  exact ⟨live, _, ok⟩

/-- The state after `procinit` is one of these. -/
theorem bootKernel_initial {clients : System} {c : CacheRef} {n : Nat}
    (reached : KmemReachable Op.Fits clients) (ram : clients.alloc.managed = ramPages n)
    (few : n ≤ 2 ^ 36) (member : c ∈ clients.alloc.kmemCaches) (useMag : c.useMag = true) :
    Initial (bootKernel clients.alloc c) := by
  refine ⟨⟨clients, reached, rfl⟩, ?_, ⟨member, useMag⟩, ?_, rfl, rfl, rfl⟩
  · intro page there
    replace there : page ∈ clients.alloc.managed := there
    rw [ram] at there
    obtain ⟨i, small, rfl⟩ := List.mem_map.mp there
    rw [List.mem_range] at small
    unfold Direct KERN_BASE PGSIZE
    omega
  · intro i _
    simp [bootKernel, wordAt]

theorem spawned_ok {parent : Option Nat} {u : Kernel} (ok : KernelOk live place s)
    (outcome : r = -1 ∧ Withdrawn live place s u ∨
      ∃ pid, r = Int.ofNat pid ∧ Spawned parent live place pid s u) :
    ∃ live place, KernelOk live place u := by
  rcases outcome with ⟨-, withdrawn⟩ | ⟨pid, -, spawned⟩
  · obtain ⟨place', ok', -⟩ := withdrawn.ok ok
    exact ⟨live, place', ok'⟩
  · obtain ⟨np, idx, q, frames, vm, place', -, -, -, -, -, -, -, -, -, ok'⟩ := spawned.made
    exact ⟨_, place', ok'⟩

/-- A kernel thread has no pages to move the end of: `growproc` leaves its size alone. -/
theorem growproc_thread (table : (s.procs p).pagetable = none) :
    Paired (· = .nullPte) (growproc p n) s w fun _ t w' => t = s ∧ w = w' := by
  unfold growproc
  apply Paired.read_bind rfl
  dsimp only
  rw [table]
  split
  · exact .inl ⟨.nullPte, rfl, rfl⟩
  · split
    · split
      · exact .ret ⟨rfl, rfl⟩
      · exact .inl ⟨.nullPte, rfl, rfl⟩
    · refine .update_bind rfl (.ret ⟨?_, rfl⟩)
      simp

/-- A call in the list of processes. -/
theorem exists_of_call {α : Type} {m : Kern α}
    (runs : (do let _ ← onKern m : StateT Kernel (Except InitPanic) Unit) s = .ok ((), t)) :
    ∃ a, m s = .ok (a, t) := by
  obtain ⟨a, u, part, rest⟩ := exists_of_bind runs
  cases rest
  obtain ⟨_, runs, rfl⟩ := exists_of_onPart part
  exact ⟨a, runs⟩

/-- Every call keeps the invariant. -/
theorem step_ok (ok : KernelOk live place s) (step : Step programs s t) :
    ∃ live place, KernelOk live place t := by
  obtain ⟨call, legal, runs⟩ := step
  cases call with
  | userinit cpu image => exact userinit_ok ok runs
  | kthreadAdd cpu fn isrc name =>
      obtain ⟨r, runs⟩ := exists_of_call runs
      exact spawned_ok ok ((kthreadAdd_yields ok fn isrc name).post_of_eq runs)
  | fork cpu cpu' p =>
      obtain ⟨r, runs⟩ := exists_of_call runs
      exact spawned_ok ok ((fork_yields ok legal).post_of_eq runs)
  | exec path uargv p =>
      obtain ⟨r, runs⟩ := exists_of_call runs
      obtain ⟨place', ok'⟩ := exec_ok ok legal runs
      exact ⟨live, place', ok'⟩
  | growproc p n =>
      obtain ⟨r, runs⟩ := exists_of_call runs
      cases table : (s.procs p).pagetable with
      | none =>
          obtain ⟨w', -, same, -⟩ := (growproc_thread (w := s.vm) table).second runs
          rw [same]
          exact ⟨live, place, ok⟩
      | some root =>
          obtain ⟨place', settled⟩ := (growproc_settles ok legal table n).post_of_eq runs
          exact ⟨live, place', settled.ok ok legal table⟩

theorem reachable_ok (reached : Reachable Initial (Step programs) s) :
    ∃ live place, KernelOk live place s := by
  apply Reachable.invariant (I := fun s => ∃ live place, KernelOk live place s) ?_ ?_ reached
  · intro s initial
    exact initial.ok
  · intro s t _ ⟨live, place, ok⟩ step
    exact step_ok ok step

/-- Whether `userinit` has made this process, with this page table and size. -/
def makesUser (a : AllocState) (c : CacheRef) (p root sz : Nat) : Bool :=
  match userinit 0 plainImage (bootKernel a c) with
  | .ok (_, t) => t.allproc = [p] ∧ (t.procs p).pagetable = some root ∧ (t.procs p).sz = sz
  | .error _ => false

/-- The first process, with the plain image. -/
theorem exists_user : ∃ s p root, Reachable Initial (Step programs) s ∧ p ∈ s.allproc ∧
    (s.procs p).pagetable = some root ∧ (s.procs p).sz = 0x3000 := by
  have run : ((runFrom (ramPages 32) [(0, .create 512 0)]).any fun clients =>
      clients.alloc.managed = ramPages 32 ∧ .object 18446462598732966464 ∈ clients.alloc.kmemCaches ∧
      makesUser clients.alloc (.object 18446462598732966464) 18446462598732939328 4503530907893783
        0x3000 = true) = true := by
    decide +kernel
  obtain ⟨clients, reached, holds⟩ : ∃ clients, KmemReachable Op.Fits clients ∧ _ := by
    refine reachable_of_runFrom (by decide) (by decide) ?_ run
    intro step there
    obtain rfl := List.mem_singleton.mp there
    intro _
    decide
  obtain ⟨ram, member, makes⟩ := of_decide_eq_true holds
  have initial := bootKernel_initial reached ram (by decide) member rfl
  unfold makesUser at makes
  split at makes
  · rename_i t runs
    obtain ⟨listed, table, size⟩ := of_decide_eq_true makes
    refine ⟨t, _, _, Reachable.next (.start initial) ⟨.userinit 0 plainImage, trivial, runs⟩, ?_,
      table, size⟩
    rw [listed]
    exact List.mem_singleton_self _
  · cases makes

end Sbrk

end Av6
