import Av6.KmemOutcome

/-!
# The reachable states

Boot leaves the books in order, and every operation keeps them.
-/

namespace Av6

namespace Kmem

open FallibleState TransitionSystem

variable {s t : System} {a b : AllocState} {allowed : Op → Prop} {cpu : Fin NCPU_MAX}
  {ram : List Nat}

theorem kmemInit_ok (nodup : ram.Nodup) (low : ∀ p ∈ ram, 0 < p ∧ p < pageLimit) :
    KmemOk (kmemInit ram) 0 0 := by
  have caches : ∀ c ∈ (kmemInit ram).kmemCaches, (∃ size align,
      (kmemInit ram).caches c = cacheSetup size align ∧ (cacheLayout size align).Fits) := by
    intro c there
    have either : c = .magazineCache ∨ c = .cacheCache := by simpa [kmemInit] using there
    rcases either with rfl | rfl
    · exact ⟨BitVec.ofNat 64 magazineSize, 0, rfl, by decide⟩
    · exact ⟨BitVec.ofNat 64 cacheSize, 0, rfl, by decide⟩
  have mags : ∀ c ∈ (kmemInit ram).kmemCaches, ((kmemInit ram).caches c).mags = 0 := by
    intro c there
    obtain ⟨size, align, same, -⟩ := caches c there
    rw [same]
    exact mags_eq_zero (fun _ => rfl) (fun _ => rfl) rfl rfl
  have balance : ∀ c ∈ (kmemInit ram).kmemCaches, custody (kmemInit ram) 0 c = 0 := by
    intro c there
    have all : allMags (kmemInit ram) = 0 := by
      rw [allMags, List.sum_eq_zero]
      intro ms inside
      obtain ⟨d, member, rfl⟩ := List.mem_map.mp inside
      exact mags d member
    have none_ : created (kmemInit ram) = 0 := rfl
    simp [custody, contents, mags c there, all, none_]
  refine ⟨by simp [kmemInit], by simp [kmemInit], by simp [kmemInit],
    ⟨fun c there => ?_, ?_⟩, fun c there => ?_⟩
  · obtain ⟨size, align, same, fits⟩ := caches c there
    rw [balance c there]
    refine ⟨?_, ?_, ?_, ?_, ?_, ?_, ?_⟩
    · rw [same]
      exact fits
    all_goals simp [same, cacheSetup, Cache.slabPages, Kmem.handed]
  · refine ⟨low, by simpa [kmemInit] using nodup, ?_, by simp, by simp, ?_⟩
    · intro p there
      have listed : p ∈ ram := by simpa [kmemInit] using there
      exact ⟨listed, if_pos listed, rfl⟩
    · intro p managed
      refine Or.inl ?_
      have listed : p ∈ ram := managed
      simpa [kmemInit] using listed
  · obtain ⟨size, align, same, -⟩ := caches c there
    refine ⟨?_, ?_, ?_, ?_, fun _ => mags c there⟩
    all_goals simp [same, cacheSetup]

/-- What the loop of `kmalloc_init` has made of the state. -/
structure ClassesMade (a : AllocState) (sizes : List Nat) (classes : List CacheRef)
    (b : AllocState) : Prop where
  kmem : KmemOk b 0 0
  held : b.held = []
  kept : ∀ c ∈ a.kmemCaches, c ∈ b.kmemCaches ∧ (b.caches c).layout = (a.caches c).layout
  length : classes.length = sizes.length
  useMag : ∀ c ∈ classes, c.useMag = true
  known : ∀ c ∈ classes, c ∈ b.kmemCaches
  layout : ∀ i c, classes[i]? = some c →
    (b.caches c).layout = cacheLayout (BitVec.ofNat 64 (sizes.getD i 0)) 16

theorem createClasses_made {sizes : List Nat}
    (fits : ∀ size ∈ sizes, (cacheLayout (BitVec.ofNat 64 size) 16).Fits) (kmem : KmemOk a 0 0)
    (held : a.held = []) {classes : List CacheRef}
    (runs : createClasses cpu sizes a = .ok (classes, b)) : ClassesMade a sizes classes b := by
  induction sizes generalizing a classes with
  | nil =>
      cases runs
      exact ⟨kmem, held, fun c there => ⟨there, rfl⟩, rfl, by simp, by simp, by simp⟩
  | cons size rest ih =>
      obtain ⟨result, a', first, held', -, layout, made⟩ := kmemCacheCreate_yields cpu kmem
        (fun _ _ => rfl) ⟨by simp [held], by simp [held]⟩ (by simp [held]) (by simp [held])
        (fun _ => fits size (by simp))
      have align : (16 : BitVec 64) = BitVec.ofNat 64 KMALLOC_ALIGN := rfl
      rw [align] at first
      rw [createClasses, bind_eq_of_ok first] at runs
      cases made with
      | none list kmem' => cases runs
      | some addr list setup kmem' =>
          cases more : createClasses cpu rest a' with
          | error e =>
              simp only [bind, StateT.bind, more, Except.bind] at runs
              cases runs
          | ok pair =>
              obtain ⟨classes', b'⟩ := pair
              simp only [bind, StateT.bind, more, Except.bind] at runs
              cases runs
              have later := ih (fun size there => fits size (by simp [there])) kmem'
                (held'.trans held) more
              have here := later.kept (.object addr) (by simp [list])
              refine ⟨later.kmem, later.held, fun c there => ?_, by simp [later.length], ?_, ?_, ?_⟩
              · have next := later.kept c (by simp [list, there])
                exact ⟨next.1, next.2.trans (layout c there)⟩
              · intro c there
                rcases List.mem_cons.mp there with rfl | there
                · rfl
                · exact later.useMag c there
              · intro c there
                rcases List.mem_cons.mp there with rfl | there
                · exact here.1
                · exact later.known c there
              · intro i c there
                cases i with
                | zero =>
                    cases there
                    exact here.2.trans setup
                | succ i => exact later.layout i c there

theorem booted_ok (boot : Booted s) : SystemOk s := by
  obtain ⟨ram, nodup, low, cpu, runs, none_⟩ := boot
  have made := createClasses_made (by decide) (kmemInit_ok nodup low) rfl runs
  have live : liveOf s.grants = 0 := by
    rw [none_]
    rfl
  have whole : wholeOf s.grants = 0 := by
    rw [none_]
    rfl
  refine ⟨by rw [live, whole]; exact made.kmem, made.held, fun c _ => by rw [live]; rfl,
    ⟨made.length, made.useMag, made.known, made.layout⟩, by simp [none_]⟩

theorem systemOk_of_reachable (fits : ∀ op, allowed op → op.Fits)
    (reached : KmemReachable allowed s) : SystemOk s := by
  refine Reachable.invariant ?_ ?_ reached
  · intro start boot
    exact booted_ok boot
  · rintro state after - ok ⟨cpu, op, legal, fine, next⟩
    exact ok.exec legal (fits op fine) next

/-- A run from boot on the given pages. -/
def runFrom (ram : List Nat) (ops : List (Fin NCPU_MAX × Op)) : Option System :=
  match kmallocInit 0 (kmemInit ram) with
  | .ok (classes, alloc) => ({ alloc, classes, grants := [] } : System).execAll ops
  | .error _ => none

theorem reachable_of_runFrom {ops : List (Fin NCPU_MAX × Op)} (nodup : ram.Nodup)
    (low : ∀ p ∈ ram, 0 < p ∧ p < 2 ^ 52) (fine : ∀ step ∈ ops, allowed step.2)
    {P : System → Bool} (ends : (runFrom ram ops).any P = true) :
    ∃ s, KmemReachable allowed s ∧ P s = true := by
  obtain ⟨s, runs, holds⟩ : ∃ s, runFrom ram ops = some s ∧ P s = true := by
    simpa [Option.any_eq_true] using ends
  refine ⟨s, ?_, holds⟩
  unfold runFrom at runs
  split at runs
  · rename_i classes alloc boot
    have start : KmemReachable allowed { alloc, classes, grants := [] } :=
      .start ⟨ram, nodup, low, 0, boot, rfl⟩
    exact start.execAll fine runs
  · cases runs

/-- Whether an operation would stop at the given assertion. -/
def System.stopsAt (s : System) (cpu : Fin NCPU_MAX) (op : Op) (e : Panic) : Bool :=
  match op.run cpu s.classes s.alloc with
  | .error e' => e' = e
  | .ok _ => false

theorem fails_of_stopsAt {op : Op} {e : Panic} (stops : s.stopsAt cpu op e = true) :
    Fails (op.run cpu s.classes) s.alloc e := by
  unfold System.stopsAt at stops
  unfold Fails
  split at stops
  · rename_i found
    rw [found]
    simpa using stops
  · cases stops

end Kmem

end Av6
