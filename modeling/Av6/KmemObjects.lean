import Av6.MagazineMoves

/-!
# Allocating and freeing objects

The rules for `kmem_cache_alloc` and `kmem_cache_free`, through all three layers.
-/

namespace Av6

namespace Kmem

open FallibleState

variable {s t r : AllocState} {c d : CacheRef} {m obj : Nat} {live : CacheRef → Multiset Nat}
  {whole : Multiset Nat} {cpu : Fin NCPU_MAX}

/-- What an operation on one cache leaves alone. -/
structure Served (s t : AllocState) : Prop where
  held : t.held = s.held
  kmemCaches : t.kmemCaches = s.kmemCaches
  managed : t.managed = s.managed
  layout : ∀ c, (t.caches c).layout = (s.caches c).layout

theorem Served.trans (first : Served s t) (second : Served t r) : Served s r :=
  ⟨second.held.trans first.held, second.kmemCaches.trans first.kmemCaches,
    second.managed.trans first.managed, fun c => (second.layout c).trans (first.layout c)⟩

theorem Frame.served (frame : Frame s t) : Served s t :=
  ⟨frame.held, frame.kmemCaches, frame.managed, frame.layout⟩

theorem served_updateCache {f : Cache → Cache} (layout : (f (s.caches c)).layout =
    (s.caches c).layout) : Served s (s.updateCache c f) := by
  refine ⟨rfl, rfl, rfl, fun d => ?_⟩
  by_cases same : d = c
  · subst same
    simpa [AllocState.updateCache] using layout
  · simp [AllocState.updateCache, same]

/-- An object has been handed to the caller, or memory has run out. -/
def Handed (live : CacheRef → Multiset Nat) (whole : Multiset Nat) (c : CacheRef)
    (r : Option Nat) (t : AllocState) : Prop :=
  r = none ∧ KmemOk t live whole ∨ ∃ obj, r = some obj ∧ KmemOk t (live + Pi.single c {obj}) whole

theorem Handed.setHeld {result : Option Nat} (handed : Handed live whole c result t)
    (held : List Lock) : Handed live whole c result { t with held := held } := by
  rcases handed with ⟨none_, ok⟩ | ⟨obj, some_, ok⟩
  · exact Or.inl ⟨none_, ok.setHeld held⟩
  · exact Or.inr ⟨obj, some_, ok.setHeld held⟩

/-- The state with one more lock held. -/
def AllocState.lock (s : AllocState) (l : Lock) : AllocState :=
  { s with held := l :: s.held }

theorem PageLocks.lock (locks : PageLocks s) (c : CacheRef) : PageLocks (s.lock (.cache c)) :=
  ⟨by simp [AllocState.lock, locks.kmem], by simp [AllocState.lock, locks.list]⟩

section Direct

variable (ok : KmemOk s live whole) (unlocked : .cache c ∉ s.held) (locks : PageLocks s)
include ok unlocked locks

theorem allocDirect_yields (member : c ∈ s.kmemCaches)
    (free : ¬ GrowStuck (s.lock (.cache c)) c) :
    Yields (allocDirect c) s fun r t => Frame s t ∧ Handed live whole c r t := by
  refine acquire_bind unlocked ((slabAllocLocked_yields (ok.setHeld (.cache c :: s.held)) member
    (locks.lock c) free).bind ?_)
  rintro result t ⟨frame, handed⟩
  have held := frame.held
  refine release_bind (by simp [held]) (.ret ⟨?_, Handed.setHeld handed _⟩)
  exact ⟨by simp [held], frame.kmemCaches, frame.managed, frame.layout, frame.loaded,
    frame.previous, frame.magazines⟩

theorem allocDirect_fails (stuck : GrowStuck (s.lock (.cache c)) c) :
    Fails (allocDirect c) s (.alreadyHeld (.cache .magazineCache)) := by
  refine Yields.bind_fails (acquire_yields (Q := fun _ t => t = s.lock (.cache c)) unlocked rfl) ?_
  rintro - _ rfl
  exact Fails.bind (slabAllocLocked_fails (ok.setHeld (.cache c :: s.held)) (locks.lock c) stuck)

end Direct

theorem top_eq_some {slot : Option Nat} : s.top slot = some (m, obj) ↔
    slot = some m ∧ ∃ rest, s.magazines m = rest ++ [obj] := by
  cases slot with
  | none => simp [AllocState.top]
  | some m' =>
      simp only [AllocState.top, Option.bind_some, Option.map_eq_some_iff, Prod.mk.injEq,
        Option.some.injEq, List.getLast?_eq_some_iff]
      constructor
      · rintro ⟨o, ⟨rest, entries⟩, rfl, rfl⟩
        exact ⟨rfl, rest, entries⟩
      · rintro ⟨rfl, rest, entries⟩
        exact ⟨obj, ⟨rest, entries⟩, rfl, rfl⟩

theorem top_eq_none {slot : Option Nat} : s.top slot = none ↔
    ∀ m, slot = some m → s.magazines m = [] := by
  cases slot <;> simp [AllocState.top]

theorem room_eq_none {slot : Option Nat} : s.room slot = none ↔
    ∀ m, slot = some m → MAG_DEPTH ≤ (s.magazines m).length := by
  cases slot <;> simp [AllocState.room]

theorem room_eq_some {slot : Option Nat} : s.room slot = some m ↔
    slot = some m ∧ (s.magazines m).length < MAG_DEPTH := by
  rw [AllocState.room, Option.filter_eq_some_iff]
  simp

/-- A full magazine has an object on its top. -/
theorem exists_top_of_full {objs : List Nat} (full : objs.length = MAG_DEPTH) :
    ∃ rest obj, objs = rest ++ [obj] := by
  rcases List.eq_nil_or_concat objs with rfl | ⟨rest, obj, rfl⟩
  · cases full
  · exact ⟨rest, obj, List.concat_eq_append⟩

section Alloc

variable (ok : KmemOk s live whole) (member : c ∈ s.kmemCaches)
include ok member

/-- A loaded magazine with an object serves the request. -/
theorem allocLoop_pop (obj rounds : Nat) (first : s.top ((s.caches c).loaded cpu) = some (m, obj)) :
    Yields (allocLoop cpu c (rounds + 1)) s fun r t => Served s t ∧ Handed live whole c r t := by
  obtain ⟨slot, rest, entries⟩ := top_eq_some.mp first
  have depth := (ok.mags c member).loaded cpu m slot
  unfold allocLoop
  refine .read_bind ?_
  simp only [first]
  refine .write_bind (.ret ⟨⟨rfl, rfl, rfl, fun _ => rfl⟩, Or.inr ⟨obj, rfl, ?_⟩⟩)
  rw [entries, List.dropLast_concat]
  refine ok.setLoaded member slot ?_ ?_
  · rw [entries, List.length_append] at depth
    omega
  · rw [entries, ← Multiset.coe_add, Multiset.coe_singleton, Pi.single_add]
    abel

theorem kmemCacheAlloc_yields (useMag : c.useMag = true) (unlocked : .cache c ∉ s.held)
    (locks : PageLocks s) (free : ¬ GrowStuck (s.lock (.cache c)) c) :
    Yields (kmemCacheAlloc cpu c) s fun r t => Served s t ∧ Handed live whole c r t := by
  unfold kmemCacheAlloc
  rw [if_pos useMag]
  cases first : s.top ((s.caches c).loaded cpu) with
  | some entry => exact allocLoop_pop ok member entry.2 1 first
  | none =>
      have drained := top_eq_none.mp first
      unfold allocLoop
      refine .read_bind ?_
      simp only [first]
      split
      · rename_i full
        obtain ⟨m, slot, depth⟩ : ∃ m, (s.caches c).previous cpu = some m ∧
            (s.magazines m).length = MAG_DEPTH := by
          simpa [AllocState.hasCount, Option.any_eq_true] using full
        have swapped : KmemOk (s.swap cpu c) live whole :=
          ok.swap member useMag fun m slot => Or.inl (by simp [drained m slot])
        have loaded : ((s.swap cpu c).caches c).loaded cpu = some m := by
          simp [AllocState.swap, AllocState.updateCache, slot]
        obtain ⟨rest, obj, entries⟩ := exists_top_of_full depth
        refine .write_bind ((allocLoop_pop (m := m) swapped member obj 0 ?_).mono ?_)
        · exact top_eq_some.mpr ⟨loaded, rest, entries⟩
        · rintro result t ⟨served, handed⟩
          exact ⟨(served_updateCache rfl).trans served, handed⟩
      · rename_i notFull
        refine acquire_bind unlocked ?_
        cases depot : (s.caches c).fullMags with
        | cons full rest =>
            have loadedFull := (ok.loadFull member useMag depot
              (fun m slot => by simp [drained m slot]) (by simpa using notFull)).setHeld
            have depth := (ok.mags c member).full full (by simp [depot])
            obtain ⟨rest, obj, entries⟩ := exists_top_of_full depth
            refine .update_bind (unlock_bind rfl ?_)
            refine (allocLoop_pop (m := full) (loadedFull s.held) member obj 0 ?_).mono ?_
            · refine top_eq_some.mpr ⟨?_, rest, entries⟩
              simp [AllocState.loadFull, AllocState.updateCache]
            · rintro result t ⟨served, handed⟩
              have first : Served s (s.loadFull cpu c full) := served_updateCache rfl
              exact ⟨first.trans served, handed⟩
        | nil =>
            refine (slabAllocLocked_yields (ok.setHeld (.cache c :: s.held)) member (locks.lock c)
              free).bind ?_
            rintro result t ⟨frame, handed⟩
            have held := frame.held
            refine release_bind (by simp [held]) (.ret ⟨?_, Handed.setHeld handed _⟩)
            exact ⟨by simp [held], frame.kmemCaches, frame.managed, frame.layout⟩

end Alloc

section Free

variable (locks : PageLocks s) (member : c ∈ s.kmemCaches)
  (unlocked : .cache .magazineCache ∉ s.held)
include locks member unlocked

/-- An empty magazine, in the hands of the caller. -/
theorem emptyMagazine_yields (ok : KmemOk s live whole)
    (free : (s.caches c).emptyMags = [] →
      ¬ GrowStuck (s.lock (.cache .magazineCache)) .magazineCache) :
    Yields (emptyMagazine c) s fun r t => Frame s t ∧
      (r = none ∧ KmemOk t live whole ∨ ∃ empty, r = some empty ∧ t.magazines empty = [] ∧
        KmemOk t (live + Pi.single .magazineCache {empty}) whole) := by
  cases depot : (s.caches c).emptyMags with
  | cons empty rest =>
      obtain ⟨entries, ok⟩ := ok.takeEmpty member depot
      refine .read_bind ?_
      simp only [depot]
      refine .write_bind (.ret ⟨?_, Or.inr ⟨empty, rfl, entries, by simpa [depot] using ok⟩⟩)
      refine ⟨rfl, rfl, rfl, fun d => ?_, fun d => ?_, fun d => ?_, fun _ _ _ _ _ => rfl⟩ <;>
        by_cases same : d = c <;> simp [AllocState.updateCache, same]
  | nil =>
      refine .read_bind ?_
      simp only [depot]
      refine (allocDirect_yields ok unlocked locks ok.magazineCache (free depot)).bind ?_
      rintro _ t ⟨frame, ⟨rfl, ok⟩ | ⟨empty, rfl, ok⟩⟩
      · exact .ret ⟨frame, Or.inl ⟨rfl, ok⟩⟩
      · obtain ⟨outside, cleared⟩ := ok.clearNew
        refine .update_bind (.ret ⟨?_, Or.inr ⟨empty, rfl, Function.update_self .., cleared⟩⟩)
        refine frame.trans ⟨rfl, rfl, rfl, fun _ => rfl, fun _ => rfl, fun _ => rfl, ?_⟩
        intro d there i m slot
        have distinct : m ≠ empty := by
          rintro rfl
          exact outside d there (mem_mags.mpr (Or.inl ⟨i, slot⟩))
        exact Function.update_of_ne distinct ..

end Free

section Free

variable (ok : KmemOk s (live + Pi.single c {obj}) whole) (member : c ∈ s.kmemCaches)
include ok member

/-- A loaded magazine with room takes the object. -/
theorem freeLoop_push (rounds : Nat) (first : s.room ((s.caches c).loaded cpu) = some m) :
    Yields (freeLoop cpu c obj (rounds + 1)) s fun _ t => Served s t ∧ KmemOk t live whole := by
  obtain ⟨slot, depth⟩ := room_eq_some.mp first
  unfold freeLoop
  refine .read_bind ?_
  simp only [first]
  refine .write ⟨⟨rfl, rfl, rfl, fun _ => rfl⟩, ok.setLoaded member slot ?_ ?_⟩
  · rw [List.length_append, List.length_singleton]
    omega
  · rw [← Multiset.coe_add, Multiset.coe_singleton, Pi.single_add]
    abel

/-- What makes `kmem_cache_free` come back to `magazine_cache`: the object does not fit into
the magazines of the CPU, and there is neither an empty magazine nor room for a new one. -/
def FreeStuck (s : AllocState) (cpu : Fin NCPU_MAX) (c : CacheRef) : Prop :=
  s.room ((s.caches c).loaded cpu) = none ∧ s.hasCount ((s.caches c).previous cpu) 0 = false ∧
    (s.caches c).emptyMags = [] ∧
      GrowStuck ((s.lock (.cache c)).lock (.cache .magazineCache)) .magazineCache

theorem kmemCacheFree_yields (useMag : c.useMag = true) (unlocked : .cache c ∉ s.held)
    (internal : .cache .magazineCache ∉ s.held) (locks : PageLocks s)
    (free : ¬ FreeStuck s cpu c) :
    Yields (kmemCacheFree cpu c obj) s fun _ t => Served s t ∧ KmemOk t live whole := by
  have notInternal : c ≠ .magazineCache := by
    rintro rfl
    cases useMag
  unfold kmemCacheFree
  rw [if_pos useMag]
  cases first : s.room ((s.caches c).loaded cpu) with
  | some m => exact freeLoop_push ok member 1 first
  | none =>
      have filled : ∀ m, (s.caches c).loaded cpu = some m →
          (s.magazines m).length = MAG_DEPTH := fun m slot =>
        le_antisymm ((ok.mags c member).loaded cpu m slot) (room_eq_none.mp first m slot)
      unfold freeLoop
      refine .read_bind ?_
      simp only [first]
      split
      · rename_i empty
        obtain ⟨m, slot, depth⟩ : ∃ m, (s.caches c).previous cpu = some m ∧
            (s.magazines m).length = 0 := by
          simpa [AllocState.hasCount, Option.any_eq_true] using empty
        have swapped : KmemOk (s.swap cpu c) (live + Pi.single c {obj}) whole :=
          ok.swap member useMag fun m slot => Or.inr (filled m slot)
        refine .write_bind ((freeLoop_push (m := m) swapped member 0 ?_).mono ?_)
        · refine room_eq_some.mpr ⟨?_, ?_⟩
          · simp [AllocState.swap, AllocState.updateCache, slot]
          · show (s.magazines m).length < MAG_DEPTH
            rw [depth]
            decide
        · rintro - t ⟨served, ok⟩
          exact ⟨(served_updateCache rfl).trans served, ok⟩
      · rename_i notEmpty
        refine acquire_bind unlocked ?_
        have fetch := emptyMagazine_yields (c := c) (locks.lock c) member
          (by simp [AllocState.lock, internal, Ne.symm notInternal])
          (ok.setHeld (.cache c :: s.held))
          fun none_ stuck => free ⟨first, by simpa using notEmpty, none_, stuck⟩
        refine fetch.bind ?_
        rintro _ t ⟨frame, ⟨rfl, ok⟩ | ⟨empty, rfl, entries, ok⟩⟩
        · have member : c ∈ t.kmemCaches := by
            rw [frame.kmemCaches]
            exact member
          have layer := ok.slabs
          rw [← custody_add] at layer
          refine (slabFreeLocked_yields member layer).bind ?_
          rintro - r ⟨layer, quiet, magazines, -⟩
          refine release_yields (by rw [quiet.held, frame.held]; simp [AllocState.lock])
            ⟨⟨?_, ?_, ?_, ?_⟩, (ok.quiet quiet magazines layer).setHeld _⟩
          · rw [quiet.held, frame.held]
            simp [AllocState.lock]
          · exact quiet.kmemCaches.trans frame.kmemCaches
          · exact quiet.managed.trans frame.managed
          · exact fun d => (quiet.depot d).layout.trans (frame.layout d)
        · have member' : c ∈ t.kmemCaches := by
            rw [frame.kmemCaches]
            exact member
          have previous : t.hasCount ((t.caches c).previous cpu) 0 = false := by
            rw [frame.previous]
            cases slot : (s.caches c).previous cpu with
            | none => simp [slot, AllocState.hasCount, AllocState.lock]
            | some m =>
                have same := frame.magazines c member cpu m (Or.inr slot)
                simp [AllocState.hasCount, slot] at notEmpty
                simp [slot, AllocState.hasCount, AllocState.lock, same, notEmpty]
          have full : ∀ m, (t.caches c).loaded cpu = some m →
              (t.magazines m).length = MAG_DEPTH := by
            intro m slot
            rw [frame.loaded] at slot
            rw [frame.magazines c member cpu m (Or.inl slot)]
            exact filled m slot
          have loaded := ok.loadEmpty cpu member' useMag entries full previous
          refine .update_bind (unlock_bind frame.held ?_)
          refine (freeLoop_push (m := empty) (loaded.setHeld s.held) member' 0 ?_).mono ?_
          · refine room_eq_some.mpr ⟨?_, ?_⟩
            · simp [AllocState.loadEmpty, AllocState.updateCache]
            · show (t.magazines empty).length < MAG_DEPTH
              rw [entries]
              decide
          · rintro - r ⟨served, ok⟩
            have second : Served t (t.loadEmpty cpu c empty) := served_updateCache rfl
            refine ⟨⟨served.held, ?_, ?_, ?_⟩, ok⟩
            · exact served.kmemCaches.trans frame.kmemCaches
            · exact served.managed.trans frame.managed
            · exact fun d => (served.layout d).trans ((second.layout d).trans (frame.layout d))

theorem kmemCacheFree_fails (useMag : c.useMag = true) (unlocked : .cache c ∉ s.held)
    (internal : .cache .magazineCache ∉ s.held) (locks : PageLocks s)
    (stuck : FreeStuck s cpu c) :
    Fails (kmemCacheFree cpu c obj) s (.alreadyHeld (.cache .magazineCache)) := by
  have notInternal : c ≠ .magazineCache := by
    rintro rfl
    cases useMag
  obtain ⟨first, notEmpty, none_, stuck⟩ := stuck
  unfold kmemCacheFree
  rw [if_pos useMag]
  unfold freeLoop
  refine .read_bind ?_
  simp only [first, notEmpty, if_false, Bool.false_eq_true]
  refine Yields.bind_fails (acquire_yields (Q := fun _ t => t = s.lock (.cache c)) unlocked rfl) ?_
  rintro - _ rfl
  refine Fails.bind (.read_bind ?_)
  simp only [AllocState.lock, none_]
  exact Fails.bind (allocDirect_fails (ok.setHeld (.cache c :: s.held))
    (by simp [internal, Ne.symm notInternal]) (locks.lock c) stuck)

end Free

end Kmem

end Av6
