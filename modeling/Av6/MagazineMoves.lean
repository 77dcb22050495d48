import Av6.KmemAlloc

/-!
# Moves in the magazine layer

Objects enter and leave a CPU's loaded magazine, and magazines move between the CPUs'
slots, the depot and `magazine_cache`.
-/

namespace Av6

namespace Kmem

variable {s t : AllocState} {c d : CacheRef} {m obj : Nat} {objs : List Nat} {k : Cache}
  {f : Cache → Cache} {live : CacheRef → Multiset Nat} {whole : Multiset Nat}
  {cpu : Fin NCPU_MAX}

/-- The cache takes magazines over. -/
theorem custody_take {ms : List Nat} (member : c ∈ s.kmemCaches) (nodup : s.kmemCaches.Nodup)
    (more : (f (s.caches c)).mags = ms + (s.caches c).mags) :
    custody (s.updateCache c f) live = custody s live +
      Pi.single .magazineCache (ms : Multiset Nat) +
        Pi.single c (ms.flatMap s.magazines : Multiset Nat) := by
  have all : allMags (s.updateCache c f) = allMags s + ms := by
    have total := allMags_update (f := f) member nodup
    rw [more, ← add_assoc] at total
    exact Multiset.add_left_inj.mp total
  have inside : contents (s.updateCache c f) = contents s +
      Pi.single c (ms.flatMap s.magazines : Multiset Nat) := by
    funext d
    by_cases here : d = c
    · subst here
      simp [contents, AllocState.updateCache, more, add_comm, Multiset.coe_bind]
    · simp [contents_update_of_ne here, here]
  rw [custody, inside, all, custody, Pi.single_add]
  show live + (contents s + _) + _ + Pi.single .cacheCache (created s) = _
  abel

/-- A CPU's slots and the depot are filled anew. -/
def Cache.reslot (cpu : Fin NCPU_MAX) (loaded previous : Option Nat)
    (fullMags emptyMags : List Nat) (k : Cache) : Cache :=
  { k with
    loaded := Function.update k.loaded cpu loaded
    previous := Function.update k.previous cpu previous
    fullMags := fullMags
    emptyMags := emptyMags }

/-- A magazine, and the others that the cache has. -/
theorem mags_eq_loaded (k : Cache) (cpu : Fin NCPU_MAX) :
    ∃ rest, k.mags = slotMag (k.loaded cpu) + slotMag (k.previous cpu) + rest ∧
      (∀ m, m ∈ rest ↔ (∃ i, i ≠ cpu ∧ (k.loaded i = some m ∨ k.previous i = some m)) ∨
        m ∈ k.fullMags ∨ m ∈ k.emptyMags) ∧
      ∀ loaded previous fullMags emptyMags,
        (k.reslot cpu loaded previous fullMags emptyMags).mags +
            (k.fullMags + k.emptyMags : Multiset Nat) =
          slotMag loaded + slotMag previous + rest + (fullMags + emptyMags : Multiset Nat) := by
  refine ⟨(∑ i ∈ Finset.univ.erase cpu, (slotMag (k.loaded i) + slotMag (k.previous i))) +
    (k.fullMags + k.emptyMags : Multiset Nat), ?_, ?_, ?_⟩
  · rw [Cache.mags, Cache.cpuMags, ← Finset.add_sum_erase _ _ (Finset.mem_univ cpu)]
    abel
  · intro m
    have slot : ∀ o : Option Nat, m ∈ slotMag o ↔ o = some m := by
      intro o
      cases o <;> simp [eq_comm]
    simp [Multiset.mem_sum, slot]
  · intro loaded previous fullMags emptyMags
    have rest : (∑ i ∈ Finset.univ.erase cpu, (slotMag (Function.update k.loaded cpu loaded i) +
        slotMag (Function.update k.previous cpu previous i))) =
        ∑ i ∈ Finset.univ.erase cpu, (slotMag (k.loaded i) + slotMag (k.previous i)) := by
      refine Finset.sum_congr rfl fun i there => ?_
      have distinct := Finset.ne_of_mem_erase there
      simp [distinct]
    simp only [Cache.mags, Cache.cpuMags, Cache.reslot]
    rw [← Finset.add_sum_erase _ _ (Finset.mem_univ cpu), rest, Function.update_self,
      Function.update_self]
    abel

section Loaded

variable (ok : KmemOk s live whole) (member : c ∈ s.kmemCaches)
  (here : (s.caches c).loaded cpu = some m)
include ok member here

/-- A loaded magazine is nowhere else. -/
theorem KmemOk.loaded_unique :
    (∃ rest, (s.caches c).mags = m ::ₘ rest ∧ m ∉ rest) ∧
      (∀ i, (s.caches c).previous i ≠ some m) ∧ m ∉ (s.caches c).fullMags ∧
        m ∉ (s.caches c).emptyMags := by
  obtain ⟨rest, total, inside, -⟩ := mags_eq_loaded (s.caches c) cpu
  have nodup := (ok.mags_split member).1
  rw [here, slotMag_some, add_assoc, Multiset.singleton_add] at total
  rw [total, Multiset.nodup_cons] at nodup
  have outside := nodup.1
  rw [Multiset.mem_add, not_or, inside] at outside
  refine ⟨⟨_, total, nodup.1⟩, ?_, ?_, ?_⟩
  · intro i there
    by_cases same : i = cpu
    · subst same
      exact outside.1 (by simp [there])
    · exact outside.2 (Or.inl ⟨i, same, Or.inr there⟩)
  · exact fun there => outside.2 (Or.inr (Or.inl there))
  · exact fun there => outside.2 (Or.inr (Or.inr there))

/-- The entries of a loaded magazine change. -/
theorem KmemOk.setLoaded (small : objs.length ≤ MAG_DEPTH) {live' : CacheRef → Multiset Nat}
    (balance : live' + Pi.single c (objs : Multiset Nat) =
      live + Pi.single c (s.magazines m : Multiset Nat)) :
    KmemOk { s with magazines := Function.update s.magazines m objs } live' whole := by
  obtain ⟨⟨rest, total, unique⟩, previous, full, empty⟩ := ok.loaded_unique member here
  have mine : m ∈ (s.caches c).mags := by simp [total]
  have outside : ∀ d ∈ s.kmemCaches, d ≠ c → m ∉ (s.caches d).mags := fun d there distinct inside =>
    distinct (ok.mags_inj member there mine inside)
  have others : ∀ m', m' ≠ m → Function.update s.magazines m objs m' = s.magazines m' :=
    fun m' distinct => Function.update_of_ne distinct ..
  have contents_ : ∀ d ∈ s.kmemCaches,
      contents { s with magazines := Function.update s.magazines m objs } d +
        (Pi.single c (s.magazines m : Multiset Nat) : CacheRef → Multiset Nat) d =
      contents s d + (Pi.single c (objs : Multiset Nat) : CacheRef → Multiset Nat) d := by
    intro d there
    by_cases same : d = c
    · subst same
      have unchanged : (rest.bind fun m' =>
          (Function.update s.magazines m objs m' : Multiset Nat)) =
          rest.bind fun m' => (s.magazines m' : Multiset Nat) := by
        refine Multiset.bind_congr fun m' listed => ?_
        rw [others m']
        rintro rfl
        exact unique listed
      simp only [contents, total, Multiset.cons_bind, unchanged, Pi.single_eq_same,
        Function.update_self]
      abel
    · rw [Pi.single_eq_of_ne same, Pi.single_eq_of_ne same, add_zero, add_zero]
      refine Multiset.bind_congr fun m' listed => ?_
      refine congrArg (fun l : List Nat => (l : Multiset Nat)) (others m' ?_)
      rintro rfl
      exact outside d there same listed
  refine ⟨ok.nodup, ok.cacheCache, ok.magazineCache, ?_, ?_⟩
  · have layer := ok.slabs.congr (t := { s with magazines := Function.update s.magazines m objs })
      (fun _ => .refl _) rfl rfl rfl rfl rfl
    refine layer.congr_out fun d there => ?_
    have first := contents_ d there
    have second := congrFun balance d
    simp only [Pi.add_apply] at second
    simp only [custody, Pi.add_apply]
    show live' d + contents _ d + (Pi.single .magazineCache (allMags s) : CacheRef → Multiset Nat) d +
      (Pi.single .cacheCache (created s) : CacheRef → Multiset Nat) d = _
    have sum : live' d + contents { s with magazines := Function.update s.magazines m objs } d =
        live d + contents s d := by
      refine add_right_cancel (b := (Pi.single c (s.magazines m : Multiset Nat) :
        CacheRef → Multiset Nat) d) ?_
      calc _ = live' d + (contents { s with magazines := Function.update s.magazines m objs } d +
              (Pi.single c (s.magazines m : Multiset Nat) : CacheRef → Multiset Nat) d) := by abel
        _ = live' d + (Pi.single c (objs : Multiset Nat) : CacheRef → Multiset Nat) d +
              contents s d := by rw [first]; abel
        _ = _ := by rw [second]; abel
    rw [sum]
  · intro d there
    by_cases same : d = c
    · subst same
      obtain ⟨loadedOk, previousOk, fullOk, emptyOk, internal⟩ := ok.mags d there
      refine ⟨?_, ?_, ?_, ?_, internal⟩
      · intro i m' slot
        by_cases changed : m' = m
        · rw [changed]
          simpa using small
        · simpa [changed] using loadedOk i m' slot
      · intro i m' slot
        have distinct : m' ≠ m := by
          rintro rfl
          exact previous i slot
        simpa [distinct] using previousOk i m' slot
      · intro m' listed
        have distinct : m' ≠ m := by
          rintro rfl
          exact full listed
        simpa [distinct] using fullOk m' listed
      · intro m' listed
        have distinct : m' ≠ m := by
          rintro rfl
          exact empty listed
        simpa [distinct] using emptyOk m' listed
    · refine (ok.mags d there).congr (.refl _) fun m' inside => others m' ?_
      rintro rfl
      exact outside d there same inside

end Loaded

/-- The slab layer ignores a change of the magazines. -/
theorem KmemOk.updateMags (ok : KmemOk s live whole) {live' : CacheRef → Multiset Nat}
    (slabs : SameSlabs (s.caches c) (f (s.caches c)))
    (balance : custody (s.updateCache c f) live' = custody s live)
    (mags : MagazinesOk (s.updateCache c f) c) : KmemOk (s.updateCache c f) live' whole := by
  refine ⟨ok.nodup, ok.cacheCache, ok.magazineCache, ?_, ?_⟩
  · rw [balance]
    refine ok.slabs.congr (fun d => ?_) rfl rfl rfl rfl rfl
    by_cases same : d = c
    · subst same
      simpa [AllocState.updateCache] using slabs
    · simpa [AllocState.updateCache, same] using .refl _
  · intro d there
    by_cases same : d = c
    · rwa [same]
    · exact (ok.mags d there).congr
        (by simpa [AllocState.updateCache, same] using .refl _) fun _ _ => rfl

/-- A CPU's slots and the depot are filled anew, with empty magazines `ms` from outside. -/
theorem KmemOk.reslot (ms fullMags emptyMags : List Nat) (loaded previous : Option Nat)
    (ok : KmemOk s (live + Pi.single .magazineCache (ms : Multiset Nat)) whole)
    (member : c ∈ s.kmemCaches) (useMag : c.useMag = true)
    (mags : slotMag loaded + slotMag previous + (fullMags + emptyMags : Multiset Nat) =
      slotMag ((s.caches c).loaded cpu) + slotMag ((s.caches c).previous cpu) +
        ((s.caches c).fullMags + (s.caches c).emptyMags : Multiset Nat) + ms)
    (entries : ∀ m ∈ ms, s.magazines m = [])
    (loadedOk : ∀ m, loaded = some m → (s.magazines m).length ≤ MAG_DEPTH)
    (previousOk : ∀ m, previous = some m →
      (s.magazines m).length = 0 ∨ (s.magazines m).length = MAG_DEPTH)
    (fullOk : ∀ m ∈ fullMags, (s.magazines m).length = MAG_DEPTH)
    (emptyOk : ∀ m ∈ emptyMags, (s.magazines m).length = 0) :
    KmemOk (s.updateCache c (Cache.reslot cpu loaded previous fullMags emptyMags)) live whole := by
  obtain ⟨rest, total, -, after⟩ := mags_eq_loaded (s.caches c) cpu
  have more : ((s.caches c).reslot cpu loaded previous fullMags emptyMags).mags =
      ms + (s.caches c).mags := by
    refine add_right_cancel (b := ((s.caches c).fullMags + (s.caches c).emptyMags : Multiset Nat)) ?_
    rw [after loaded previous fullMags emptyMags, total]
    calc _ = slotMag loaded + slotMag previous + (fullMags + emptyMags : Multiset Nat) + rest := by
          abel
      _ = _ := by
          rw [mags]
          abel
  have old := ok.mags c member
  refine ok.updateMags ⟨rfl, rfl, rfl, rfl⟩ ?_ ⟨?_, ?_, ?_, ?_, ?_⟩
  · rw [custody_take member ok.nodup more, ← custody_add]
    have nothing : ms.flatMap s.magazines = [] := List.flatMap_eq_nil_iff.mpr entries
    simp [nothing]
  · intro i m slot
    simp only [AllocState.updateCache, Function.update_self, Cache.reslot] at slot
    by_cases same : i = cpu
    · subst same
      exact loadedOk m (by simpa using slot)
    · exact old.loaded i m (by simpa [same] using slot)
  · intro i m slot
    simp only [AllocState.updateCache, Function.update_self, Cache.reslot] at slot
    by_cases same : i = cpu
    · subst same
      exact previousOk m (by simpa using slot)
    · exact old.previous i m (by simpa [same] using slot)
  · simpa [AllocState.updateCache, Cache.reslot] using fullOk
  · simpa [AllocState.updateCache, Cache.reslot] using emptyOk
  · intro internal
    rw [useMag] at internal
    cases internal

section Moves

variable (ok : KmemOk s live whole) (member : c ∈ s.kmemCaches) (useMag : c.useMag = true)
include ok member useMag

/-- Exchange the two magazines of a CPU. -/
theorem KmemOk.swap (settled : ∀ m, (s.caches c).loaded cpu = some m →
      (s.magazines m).length = 0 ∨ (s.magazines m).length = MAG_DEPTH) :
    KmemOk (s.swap cpu c) live whole := by
  have old := ok.mags c member
  refine KmemOk.reslot [] (s.caches c).fullMags (s.caches c).emptyMags
    ((s.caches c).previous cpu) ((s.caches c).loaded cpu) (by simpa using ok) member useMag ?_ (by simp) ?_ settled
    old.full old.empty
  · simp only [Multiset.coe_nil, add_zero]
    abel
  · intro m slot
    rcases old.previous cpu m slot with none_ | full <;> omega

theorem KmemOk.loadFull {full : Nat} {rest : List Nat}
    (first : (s.caches c).fullMags = full :: rest)
    (empty : ∀ m, (s.caches c).loaded cpu = some m → (s.magazines m).length = 0)
    (notFull : s.hasCount ((s.caches c).previous cpu) MAG_DEPTH = false) :
    KmemOk (s.loadFull cpu c full) live whole := by
  have old := ok.mags c member
  refine KmemOk.reslot [] ((s.caches c).fullMags.erase full)
    (((s.caches c).previous cpu).toList ++ (s.caches c).emptyMags) (some full)
    ((s.caches c).loaded cpu)
    (by simpa using ok) member useMag ?_ (by simp) ?_ (fun m slot => Or.inl (empty m slot)) ?_ ?_
  · rw [first, List.erase_cons_head, ← Multiset.coe_add, ← Multiset.cons_coe,
      ← Multiset.singleton_add, slotMag_some]
    have slot : (((s.caches c).previous cpu).toList : Multiset Nat) =
        slotMag ((s.caches c).previous cpu) := by
      cases (s.caches c).previous cpu <;> rfl
    rw [slot]
    simp only [Multiset.coe_nil, add_zero]
    abel
  · rintro _ ⟨⟩
    exact (old.full full (by simp [first])).le
  · exact fun m listed => old.full m (List.mem_of_mem_erase listed)
  · intro m listed
    rcases List.mem_append.mp listed with slot | listed
    · have here : (s.caches c).previous cpu = some m := by simpa using slot
      rcases old.previous cpu m here with none_ | depth
      · exact none_
      · simp [AllocState.hasCount, here, depth] at notFull
    · exact old.empty m listed

end Moves

theorem KmemOk.loadEmpty {empty : Nat}
    (ok : KmemOk s (live + Pi.single .magazineCache {empty}) whole) (cpu : Fin NCPU_MAX)
    (member : c ∈ s.kmemCaches)
    (useMag : c.useMag = true) (entries : s.magazines empty = [])
    (full : ∀ m, (s.caches c).loaded cpu = some m → (s.magazines m).length = MAG_DEPTH)
    (notEmpty : s.hasCount ((s.caches c).previous cpu) 0 = false) :
    KmemOk (s.loadEmpty cpu c empty) live whole := by
  have old := ok.mags c member
  refine KmemOk.reslot [empty] (((s.caches c).previous cpu).toList ++ (s.caches c).fullMags)
    (s.caches c).emptyMags (some empty) ((s.caches c).loaded cpu) (by simpa using ok) member useMag ?_ (by simpa using entries)
    ?_ (fun m slot => Or.inr (full m slot)) ?_ old.empty
  · have slot : (((s.caches c).previous cpu).toList : Multiset Nat) =
        slotMag ((s.caches c).previous cpu) := by
      cases (s.caches c).previous cpu <;> rfl
    rw [← Multiset.coe_add, slot, slotMag_some, Multiset.coe_singleton]
    abel
  · rintro _ ⟨⟩
    simp [entries]
  · intro m listed
    rcases List.mem_append.mp listed with slot | listed
    · have here : (s.caches c).previous cpu = some m := by simpa using slot
      rcases old.previous cpu m here with none_ | depth
      · simp [AllocState.hasCount, here, List.length_eq_zero_iff.mp none_] at notEmpty
      · exact depth
    · exact old.full m listed

/-- An empty magazine of the depot is taken out. -/
theorem KmemOk.takeEmpty {empty : Nat} {rest : List Nat} (ok : KmemOk s live whole)
    (member : c ∈ s.kmemCaches) (first : (s.caches c).emptyMags = empty :: rest) :
    s.magazines empty = [] ∧
      KmemOk (s.updateCache c fun k => { k with emptyMags := k.emptyMags.erase empty })
        (live + Pi.single .magazineCache {empty}) whole := by
  have old := ok.mags c member
  have entries : s.magazines empty = [] :=
    List.length_eq_zero_iff.mp (old.empty empty (by simp [first]))
  have less : (s.caches c).mags = ([empty] : List Nat) +
      ({ s.caches c with emptyMags := (s.caches c).emptyMags.erase empty } : Cache).mags := by
    simp only [Cache.mags, Cache.cpuMags, first, List.erase_cons_head, ← Multiset.cons_coe,
      ← Multiset.singleton_add, Multiset.coe_nil, add_zero]
    abel
  refine ⟨entries, ok.updateMags ⟨rfl, rfl, rfl, rfl⟩ ?_ ⟨?_, ?_, ?_, ?_, ?_⟩⟩
  · rw [custody_give (f := fun k => { k with emptyMags := k.emptyMags.erase empty }) [empty] live
      member ok.nodup less, ← custody_add]
    simp [entries]
  · simpa [AllocState.updateCache] using old.loaded
  · simpa [AllocState.updateCache] using old.previous
  · simpa [AllocState.updateCache] using old.full
  · simpa [AllocState.updateCache] using fun m listed => old.empty m (List.mem_of_mem_erase listed)
  · intro internal
    have none_ := (old.noDepot internal).2
    rw [first] at none_
    cases none_

/-- The entries of a new magazine are cleared. -/
theorem KmemOk.clearNew {empty : Nat}
    (ok : KmemOk s (live + Pi.single .magazineCache {empty}) whole) :
    (∀ c ∈ s.kmemCaches, empty ∉ (s.caches c).mags) ∧
      KmemOk { s with magazines := Function.update s.magazines empty [] }
        (live + Pi.single .magazineCache {empty}) whole := by
  have low : ∀ p ∈ s.managed, p < pageLimit := fun p managed => (ok.slabs.pages.low p managed).2
  have nodup := (ok.slabs.cache _ ok.magazineCache).out_nodup low
  have outside : ∀ c ∈ s.kmemCaches, empty ∉ (s.caches c).mags := by
    intro c member inside
    have all : empty ∈ allMags s := by
      rw [allMags, ← List.sum_map_erase _ member]
      exact Multiset.mem_add.mpr (Or.inl inside)
    have twice : ({empty} + allMags s : Multiset Nat) ≤
        custody s (live + Pi.single .magazineCache {empty}) .magazineCache := by
      simp only [custody, Pi.add_apply, Pi.single_eq_same]
      have order : live .magazineCache + {empty} + contents s .magazineCache + allMags s +
          (Pi.single .cacheCache (created s) : CacheRef → Multiset Nat) .magazineCache =
          {empty} + allMags s + (live .magazineCache + contents s .magazineCache +
            (Pi.single .cacheCache (created s) : CacheRef → Multiset Nat) .magazineCache) := by
        abel
      rw [order]
      exact Multiset.le_add_right ..
    have both := Multiset.nodup_of_le twice nodup
    rw [Multiset.singleton_add, Multiset.nodup_cons] at both
    exact both.1 all
  refine ⟨outside, ok.nodup, ok.cacheCache, ok.magazineCache, ?_, ?_⟩
  · have layer := ok.slabs.congr
      (t := { s with magazines := Function.update s.magazines empty [] }) (fun _ => .refl _) rfl rfl
      rfl rfl rfl
    refine layer.congr_out fun c member => custody_congr rfl (fun _ _ => rfl) ?_ member
    intro d there m inside
    have distinct : m ≠ empty := by
      rintro rfl
      exact outside d there inside
    simp [distinct]
  · intro c member
    refine (ok.mags c member).congr (.refl _) fun m inside => ?_
    have distinct : m ≠ empty := by
      rintro rfl
      exact outside c member inside
    simp [distinct]

end Kmem

end Av6
