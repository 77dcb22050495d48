import Av6.ExecStack
import Av6.ElfPlan

/-!
# Runs of exec

What the parts of `exec` do to the places of the pages.  Where it gives up, the new page table and
the scratch page are given back, and every page is where it was, with the bytes that it had.
-/

namespace Av6

namespace Exec

open FallibleState Kmem Pmap Elf PackedStrings

variable {s s' t t' u u' : VmState} {live : CacheRef → Multiset Nat} {place₀ place : Place}
  {old root stack newSz entry argc pos uargv : Nat} {argbuf : Option Nat}
  {args : List (List UInt8)}

theorem root_unique {slot : Slot} {root' : Nat} (of : slot.Of root) (of' : slot.Of root') :
    root = root' := by
  cases slot with
  | table | leaf => exact of.symm.trans of'
  | stackTable | stack | hand | client => exact of.elim

/-- Every page is where it was, and has the bytes that it had. -/
structure Undone (live : CacheRef → Multiset Nat) (place : Place) (s s' u u' : VmState) : Prop where
  twins : Twins live place u u'
  within : Within (fun _ => False) place place s s' u u'

/-- The new page table is given back. -/
theorem discard_twin (changed : Changed root live place₀ place s s' t t')
    (fresh : ∀ slot : Slot, slot.Of root → place₀ slot = none) :
    Twin (uvmfree root) t t' fun _ u u' => Undone live place₀ s s' u u' := by
  refine (uvmfree_twin changed.twins changed.rooted).mono ?_
  intro _ u u' ⟨place', twins, emptied⟩
  have same : place' = place₀ := by
    funext slot
    by_cases of : slot.Of root
    · rw [emptied.emptied slot of, fresh slot of]
    · rw [emptied.others slot of, changed.within.only slot of]
  subst same
  refine ⟨twins, fun _ _ => rfl, ?_⟩
  intro slot p off _ there
  have notOf : ¬ slot.Of root := by
    intro of
    rw [fresh slot of] at there
    cases there
  have there' := there
  rw [emptied.others slot notOf] at there'
  have untouched : ∀ other : Slot, other.Of root → place other ≠ some p := by
    intro other of atOther
    rw [changed.twins.ok.unique there' atOther] at notOf
    exact notOf of
  obtain ⟨first, first'⟩ := changed.within.contents slot p off notOf there
  obtain ⟨second, second'⟩ := emptied.contents p untouched off
  exact ⟨second.trans first, second'.trans first'⟩

/-- The scratch page, if there is one, is given back. -/
theorem freeArgbuf_twin (twins : Twins live place t t') (hand : place (.hand 0) = argbuf) :
    Twin (freeArgbuf argbuf) t t' fun _ u u' =>
      Twins live (Function.update place (.hand 0) none) u u' ∧ u.memory = t.memory ∧
        u'.memory = t'.memory := by
  unfold freeArgbuf
  cases argbuf with
  | none =>
      have same : Function.update place (.hand 0) none = place := by
        rw [← hand, Function.update_eq_self]
      rw [same]
      exact .ret ⟨twins, rfl, rfl⟩
  | some p =>
      refine (freePage_twin twins.ok twins.agree.kmem hand).mono ?_
      intro _ u u' ⟨memory, memory', kmem, ok⟩
      refine ⟨⟨ok, ?_, ?_⟩, memory, memory'⟩
      · rw [memory]
        refine twins.forest.frame (fun _ _ _ _ _ _ => rfl) (fun _ _ => rfl) fun slot isMapped => ?_
        rw [Function.update_of_ne]
        rintro rfl
        exact isMapped
      · exact twins.agree.shrink (fun _ _ there => (some_of_update_none there).2) memory memory' kmem

/-- The new page table has a stack page, and the arguments are in the scratch page. -/
structure Prepared (root stack newSz : Nat) (argbuf : Option Nat) (argc pos : Nat)
    (live : CacheRef → Multiset Nat) (place₀ place : Place) (s s' t t' : VmState) : Prop where
  twins : Twins live place t t'
  rooted : place (.table root 0 0) = some root
  within : Within (Slot.Of root) place₀ (Function.update place (.hand 0) none) s s' t t'
  scratch : Scratch place argbuf argc pos t t'
  leaf : place (leafSlot root newSz) = some stack
  maps : Maps t.memory place root newSz stack PAGE_USER

theorem Within.memory {kind : Slot → Prop} {place place' : Place}
    (within : Within kind place place' s s' t t') (memory : u.memory = t.memory)
    (memory' : u'.memory = t'.memory) : Within kind place place' s s' u u' := by
  refine ⟨within.only, ?_⟩
  rw [memory, memory']
  exact within.contents

/-- The stack page is written to. -/
theorem Prepared.rewritten
    (prepared : Prepared root stack newSz argbuf argc pos live place₀ place s s' t t')
    (twins : Twins live place u u') (rewritten : Rewritten stack t t' u u') :
    Prepared root stack newSz argbuf argc pos live place₀ place s s' u u' := by
  obtain ⟨before, rooted, within, scratch, leaf, table, path, word⟩ := prepared
  refine ⟨twins, rooted, ⟨within.only, ?_⟩, ?_, leaf, table, path, ?_⟩
  · intro slot p off notOf there
    have apart : p ≠ stack := by
      rintro rfl
      have there' := there
      rw [← within.only slot notOf] at there'
      rw [before.ok.unique (some_of_update_none there').2 leaf] at notOf
      exact notOf rfl
    obtain ⟨first, first'⟩ := within.contents slot p off notOf there
    obtain ⟨second, second'⟩ := rewritten.others p off apart
    exact ⟨second.trans first, second'.trans first'⟩
  · exact scratch.rewritten before leaf trivial rewritten
  · have apart : table ≠ stack := by
      rintro rfl
      cases before.ok.unique path leaf
    rw [← word]
    exact wordAt_congr fun k _ => (rewritten.others table _ apart).1

theorem Prepared.changed
    (prepared : Prepared root stack newSz argbuf argc pos live place₀ place s s' t t')
    (twins : Twins live (Function.update place (.hand 0) none) u u')
    (memory : u.memory = t.memory) (memory' : u'.memory = t'.memory) :
    Changed root live place₀ (Function.update place (.hand 0) none) s s' u u' := by
  refine ⟨twins, Within.memory prepared.within memory memory', ?_⟩
  rw [Function.update_of_ne (by rintro ⟨⟩)]
  exact prepared.rooted

/-- `exec` gives up. -/
theorem bad_twin
    (prepared : Prepared root stack newSz argbuf argc pos live place₀ place s s' t t')
    (fresh : ∀ slot : Slot, slot.Of root → place₀ slot = none) :
    Twin (bad argbuf root) t t' fun r u u' => r = none ∧ Undone live place₀ s s' u u' := by
  unfold bad
  refine (freeArgbuf_twin prepared.twins prepared.scratch.hand).bind ?_
  intro _ u u' ⟨twins, memory, memory'⟩
  refine (discard_twin (prepared.changed twins memory memory') fresh).bind ?_
  intro _ v v' undone
  exact .ret ⟨rfl, undone⟩

/-- What is in the stack page: the packed strings, and the block below them. -/
structure StackLaid (memory : Memory) (stack newSz : Nat) (args : List (List UInt8)) : Prop where
  info : InfoBlock memory stack
    ((stackPointer newSz args.length (packedArgs args).length - newSz) / 8)
    (stringBase newSz (packedArgs args).length) args
  strings : Holds (memory stack) (stringBase newSz (packedArgs args).length - newSz)
    (packedArgs args)

theorem StackLaid.congr {memory memory' : Memory} (laid : StackLaid memory stack newSz args)
    (same : ∀ off, memory' stack off = memory stack off) : StackLaid memory' stack newSz args := by
  obtain ⟨⟨count, pointers, rest⟩, strings⟩ := laid
  have word : ∀ i, wordAt memory' stack i = wordAt memory stack i :=
    fun i => wordAt_congr fun k _ => same _
  refine ⟨⟨?_, fun i less => ?_, fun i less => ?_⟩, strings.congr fun k _ _ => same k⟩
  · rw [word, count]
  · rw [word, pointers i less]
  · rw [word, rest i less]

/-- The strings have been copied to the top of the stack page. -/
theorem copyStrings_writes {dst : Nat} (argsIn : ArgsIn t.memory stack argbuf args) :
    Yields (copyStrings stack dst argbuf (packedArgs args).length) t fun _ u =>
      Others stack t u ∧ Holds (u.memory stack) dst (packedArgs args) := by
  unfold copyStrings ArgsIn at *
  cases argbuf with
  | none =>
      dsimp only at argsIn
      subst argsIn
      exact .ret ⟨.refl stack t, holds_nil _ _⟩
  | some src =>
      obtain ⟨apart, holds⟩ := argsIn
      refine .update ⟨fun q off other => if_neg fun here => other here.1, fun k less => ?_⟩
      have there := holds k less
      rw [Nat.zero_add] at there
      rw [← there]
      show copyBytes t.memory stack dst src (packedArgs args).length stack (dst + k) = _
      unfold copyBytes
      rw [if_pos ⟨rfl, by omega, by omega⟩, Nat.add_sub_cancel_left]

/-- The arguments fit into the stack page. -/
theorem stack_bounds (aligned : newSz % PGSIZE = 0) (positive : 0 < newSz)
    (fits : newSz ≤ stackPointer newSz argc pos) :
    (stackPointer newSz argc pos - newSz) / 8 * 8 = stackPointer newSz argc pos - newSz ∧
      stackPointer newSz argc pos + (argc + 5) * 8 ≤ stringBase newSz pos ∧
      stringBase newSz pos + pos ≤ newSz + PGSIZE := by
  unfold stackPointer stringBase PGSIZE at *
  omega

/-- These are the arguments, and the scratch page holds them. -/
structure ArgsFrom (memory : Memory) (stack : Nat) (argbuf : Option Nat) (argc pos : Nat)
    (args : List (List UInt8)) : Prop where
  count : argc = args.length
  size : pos = (packedArgs args).length
  le : pos ≤ PGSIZE
  bodies : ∀ string ∈ args, 0 ∉ string
  argsIn : ArgsIn memory stack argbuf args

/-- The block is written below the strings. -/
theorem writeInfo_lays (known : ArgsFrom t.memory stack argbuf argc pos args)
    (strings : Holds (t.memory stack) (stringBase newSz pos - newSz) (packedArgs args))
    (aligned : newSz % PGSIZE = 0) (positive : 0 < newSz) (small : newSz < MAXUVA)
    (fits : newSz ≤ stackPointer newSz argc pos) :
    Yields (writeInfo stack ((stackPointer newSz argc pos - newSz) / 8) (stringBase newSz pos)
      argbuf argc) t fun _ u => StackLaid u.memory stack newSz args := by
  obtain ⟨rfl, rfl, le, bodies, argsIn⟩ := known
  obtain ⟨words, below, above⟩ := stack_bounds aligned positive fits
  refine (writeInfo_writes argsIn bodies le ?_ ?_).mono ?_
  · unfold MAXUVA PGSIZE at *
    omega
  · unfold MAXUVA PGSIZE at *
    omega
  · intro _ u ⟨info, outside⟩
    refine ⟨info, strings.congr fun k low _ => outside k (.inr ?_)⟩
    omega

/-- The old page table has been given back, and the new one is as it was. -/
structure Replaced (old root : Nat) (live : CacheRef → Multiset Nat) (place₀ place place' : Place)
    (s s' u u' : VmState) : Prop where
  twins : Twins live place' u u'
  tree : ∀ slot : Slot, slot.Of root → place' slot = place slot
  gone : ∀ slot : Slot, slot.Of old → place' slot = none
  others : ∀ slot : Slot, ¬ slot.Of root → ¬ slot.Of old → place' slot = place₀ slot
  contents : ∀ (slot : Slot) p off, ¬ slot.Of root → ¬ slot.Of old → place₀ slot = some p →
    u.memory p off = s.memory p off ∧ u'.memory p off = s'.memory p off

theorem of_ne_hand {slot : Slot} (of : slot.Of root) (k : Nat) : slot ≠ .hand k := by
  rintro rfl
  exact of

/-- `exec` from the layout of the stack on. -/
theorem layout_twin (args : List (List UInt8))
    (prepared : Prepared root stack newSz argbuf argc pos live place₀ place s s' t t')
    (fresh : ∀ slot : Slot, slot.Of root → place₀ slot = none)
    (caller : place₀ (.table old 0 0) = some old) (aligned : newSz % PGSIZE = 0)
    (positive : 0 < newSz) (small : newSz < MAXUVA) :
    Twin (layout old root stack newSz entry argbuf argc pos) t t' fun r u u' =>
      r = none ∧ stackPointer newSz argc pos < newSz ∧ Undone live place₀ s s' u u' ∨
      r = some ⟨root, newSz + PGSIZE, entry, stackPointer newSz argc pos⟩ ∧
        newSz ≤ stackPointer newSz argc pos ∧ UserPage root stack newSz live u u' ∧
        (∃ place', Replaced old root live place₀ place place' s s' u u') ∧
        (ArgsFrom t.memory stack argbuf argc pos args → StackLaid u.memory stack newSz args) := by
  rw [layout_eq]
  have copies : ArgsFrom t.memory stack argbuf argc pos args →
      Yields (copyStrings stack (stringBase newSz pos - newSz) argbuf pos) t fun _ u =>
        Others stack t u ∧ Holds (u.memory stack) (stringBase newSz pos - newSz) (packedArgs args) := by
    intro known
    rw [known.size]
    exact copyStrings_writes known.argsIn
  refine ((copyStrings_twin prepared.twins prepared.leaf trivial (leaf_childless _ _)
    prepared.scratch).and_first copies).bind ?_
  intro _ t₁ t₁' ⟨⟨twins₁, rewritten₁⟩, strings⟩
  have prepared₁ := prepared.rewritten twins₁ rewritten₁
  by_cases beyond : stackPointer newSz argc pos < newSz
  · rw [if_pos beyond]
    refine (bad_twin prepared₁ fresh).mono ?_
    intro r u u' ⟨failed, undone⟩
    exact .inl ⟨failed, beyond, undone⟩
  rw [if_neg beyond]
  have fits : newSz ≤ stackPointer newSz argc pos := by omega
  have lays : ArgsFrom t.memory stack argbuf argc pos args →
      Yields (writeInfo stack ((stackPointer newSz argc pos - newSz) / 8) (stringBase newSz pos)
        argbuf argc) t₁ fun _ u => StackLaid u.memory stack newSz args := by
    intro known
    obtain ⟨others, holds⟩ := strings known
    have known₁ : ArgsFrom t₁.memory stack argbuf argc pos args :=
      ⟨known.count, known.size, known.le, known.bodies, known.argsIn.others others⟩
    exact writeInfo_lays known₁ holds aligned positive small fits
  refine ((writeInfo_twin prepared₁.twins prepared₁.leaf trivial (leaf_childless _ _)
    prepared₁.scratch).and_first lays).bind ?_
  intro _ t₂ t₂' ⟨⟨twins₂, rewritten₂⟩, laid⟩
  have prepared₂ := prepared₁.rewritten twins₂ rewritten₂
  refine (freeArgbuf_twin prepared₂.twins prepared₂.scratch.hand).bind ?_
  intro _ t₃ t₃' ⟨twins₃, memory, memory'⟩
  have notOf : ¬ (Slot.table old 0 0).Of root := by
    intro of
    rw [fresh _ of] at caller
    cases caller
  have changed := prepared₂.changed twins₃ memory memory'
  have atOld : Function.update place (.hand 0) none (.table old 0 0) = some old := by
    rw [changed.within.only _ notOf, caller]
  refine (uvmfree_twin twins₃ atOld).bind ?_
  intro _ u u' ⟨place', twins', emptied⟩
  have apart : root ≠ old := by
    rintro rfl
    exact notOf rfl
  -- the pages of the new page table are not those that are given back
  have keeps : ∀ {slot : Slot} {p}, place slot = some p → slot.Of root →
      place' slot = some p ∧ ∀ off, u.memory p off = t₂.memory p off := by
    intro slot p there of
    have there' : Function.update place (.hand 0) none slot = some p := by
      rw [Function.update_of_ne]
      · exact there
      · rintro rfl
        exact of
    have notOld : ¬ slot.Of old := fun ofOld => apart (root_unique of ofOld)
    refine ⟨(emptied.others slot notOld).trans there', fun off => ?_⟩
    rw [← memory]
    refine (emptied.contents p ?_ off).1
    intro other ofOld atOther
    rw [twins₃.ok.unique there' atOther] at notOld
    exact notOld ofOld
  obtain ⟨table, path, word⟩ := prepared₂.maps
  have replaced : Replaced old root live place₀ place place' s s' u u' := by
    refine ⟨twins', ?_, emptied.emptied, ?_, ?_⟩
    · intro slot of
      have notOld : ¬ slot.Of old := fun ofOld => apart (root_unique of ofOld)
      rw [emptied.others slot notOld, Function.update_of_ne (of_ne_hand of 0)]
    · intro slot notRoot notOld
      rw [emptied.others slot notOld, changed.within.only slot notRoot]
    · intro slot p off notRoot notOld there
      obtain ⟨first, first'⟩ := changed.within.contents slot p off notRoot there
      rw [← changed.within.only slot notRoot] at there
      obtain ⟨second, second'⟩ := emptied.contents p (fun other ofOld atOther => by
        rw [twins₃.ok.unique there atOther] at notOld
        exact notOld ofOld) off
      exact ⟨second.trans first, second'.trans first'⟩
  refine .ret (.inr ⟨rfl, fits, ⟨place', twins', ?_, ?_, table, ?_, ?_⟩, ⟨place', replaced⟩,
    fun known => (laid known).congr ?_⟩)
  · exact (keeps prepared₂.rooted rfl).1
  · exact (keeps prepared₂.leaf rfl).1
  · exact (keeps path rfl).1
  · rw [← word]
    exact wordAt_congr fun k _ => (keeps path rfl).2 _
  · exact (keeps prepared₂.leaf rfl).2

/-- The new page table has a stack page, and there is no scratch page yet. -/
structure Mounted (root stack newSz : Nat) (live : CacheRef → Multiset Nat) (place₀ place : Place)
    (s s' t t' : VmState) : Prop where
  changed : Changed root live place₀ place s s' t t'
  bare : place (.hand 0) = none
  leaf : place (leafSlot root newSz) = some stack
  maps : Maps t.memory place root newSz stack PAGE_USER

/-- A scratch page has been taken, or none, and no other page has been written to. -/
theorem Mounted.prepared (mounted : Mounted root stack newSz live place₀ place s s' t t')
    (twins : Twins live (Function.update place (.hand 0) argbuf) u u')
    (same : ∀ slot p off, place slot = some p → u.memory p off = t.memory p off ∧
      u'.memory p off = t'.memory p off)
    (scratch : Scratch (Function.update place (.hand 0) argbuf) argbuf argc pos u u') :
    Prepared root stack newSz argbuf argc pos live place₀ (Function.update place (.hand 0) argbuf)
      s s' u u' := by
  obtain ⟨⟨_, within, rooted⟩, bare, leaf, table, path, word⟩ := mounted
  have emptied : Function.update place (.hand 0) none = place := by
    rw [← bare, Function.update_eq_self]
  refine ⟨twins, ?_, ⟨?_, ?_⟩, scratch, ?_, table, ?_, ?_⟩
  · rw [Function.update_of_ne (by rintro ⟨⟩)]
    exact rooted
  · intro slot notOf
    rw [Function.update_idem, emptied]
    exact within.only slot notOf
  · intro slot p off notOf there
    obtain ⟨first, first'⟩ := within.contents slot p off notOf there
    obtain ⟨second, second'⟩ := same slot p off (by rwa [within.only slot notOf])
    exact ⟨second.trans first, second'.trans first'⟩
  · rw [Function.update_of_ne (by rintro ⟨⟩)]
    exact leaf
  · rw [Function.update_of_ne (by rintro ⟨⟩)]
    exact path
  · rw [← word]
    exact wordAt_congr fun k _ => (same _ table _ path).1

/-- The arguments that `exec` takes: few enough, and with room in the scratch page and in the
stack page. -/
def Accepted (newSz : Nat) (args : List (List UInt8)) : Prop :=
  args.length < MAXARG ∧ (packedArgs args).length ≤ PGSIZE ∧
    newSz ≤ stackPointer newSz args.length (packedArgs args).length

/-- How `exec` ends, from the arguments on. -/
structure Ended (old root stack newSz entry uargv : Nat) (args : List (List UInt8))
    (live : CacheRef → Multiset Nat) (place₀ place : Place) (s s' t : VmState) (r : Option Loaded)
    (u u' : VmState) : Prop where
  failed : r = none → Undone live place₀ s s' u u' ∧ (ArgvOf t.memory old uargv args →
    LowStrings t.memory old uargv args → Supplies t.kmem 1 → ¬ Accepted newSz args)
  entered : ∀ loaded, r = some loaded → UserPage root stack newSz live u u' ∧
    (∃ place', Replaced old root live place₀ place place' s s' u u') ∧ loaded.pagetable = root ∧
    loaded.sz = newSz + PGSIZE ∧ loaded.entry = entry ∧
    (ArgvOf t.memory old uargv args → Accepted newSz args ∧ StackLaid u.memory stack newSz args ∧
      loaded.sp = stackPointer newSz args.length (packedArgs args).length)

theorem Argv.bodies {memory : Memory} (argv : Argv memory root uargv args) :
    ∀ string ∈ args, 0 ∉ string := by
  intro string member
  obtain ⟨i, less, rfl⟩ := List.mem_iff_getElem.mp member
  obtain ⟨_, _, _, user⟩ := argv.strings i less
  exact user.body

/-- `exec` lays out the stack, with the arguments or without. -/
theorem layout_ended {place₁ : Place} (args : List (List UInt8))
    (prepared : Prepared root stack newSz argbuf argc pos live place₀ place s s' u u')
    (tree : ∀ slot : Slot, slot.Of root → place slot = place₁ slot)
    (fresh : ∀ slot : Slot, slot.Of root → place₀ slot = none)
    (caller : place₀ (.table old 0 0) = some old) (aligned : newSz % PGSIZE = 0)
    (positive : 0 < newSz) (small : newSz < MAXUVA)
    (known : ArgvOf t.memory old uargv args → args.length < MAXARG ∧
      ArgsFrom u.memory stack argbuf argc pos args) :
    Twin (layout old root stack newSz entry argbuf argc pos) u u' fun r v v' =>
      Ended old root stack newSz entry uargv args live place₀ place₁ s s' t r v v' := by
  refine (layout_twin args prepared fresh caller aligned positive small).mono ?_
  rintro r v v' (⟨rfl, beyond, undone⟩ | ⟨rfl, fits, entered, ⟨place', replaced⟩, laid⟩)
  · refine ⟨fun _ => ⟨undone, fun argv _ _ accepted => ?_⟩, ?_⟩
    · obtain ⟨-, rfl, rfl, -⟩ := known argv
      exact absurd accepted.2.2 (by omega)
    · rintro _ ⟨⟩
  · refine ⟨?_, ?_⟩
    · rintro ⟨⟩
    · rintro _ ⟨⟩
      have tree' := fun slot of => (replaced.tree slot of).trans (tree slot of)
      refine ⟨entered, ⟨place', { replaced with tree := tree' }⟩, rfl, rfl, rfl, fun argv => ?_⟩
      obtain ⟨few, from_⟩ := known argv
      have stackLaid := laid from_
      obtain ⟨rfl, rfl, le, -⟩ := from_
      exact ⟨⟨few, le, fits⟩, stackLaid, rfl⟩

/-- `exec` from the arguments on. -/
theorem arguments_twin (args : List (List UInt8))
    (mounted : Mounted root stack newSz live place₀ place s s' t t')
    (fresh : ∀ slot : Slot, slot.Of root → place₀ slot = none)
    (caller : place₀ (.table old 0 0) = some old) (aligned : newSz % PGSIZE = 0)
    (positive : 0 < newSz) (small : newSz < MAXUVA) :
    Twin (arguments old root stack newSz entry uargv) t t' fun r u u' =>
      Ended old root stack newSz entry uargv args live place₀ place s s' t r u u' := by
  have bareTwins : ∀ {v v'}, Twins live place v v' →
      Twins live (Function.update place (.hand 0) none) v v' := by
    intro v v' twins
    rwa [← mounted.bare, Function.update_eq_self]
  have bareScratch : ∀ v v', Scratch (Function.update place (.hand 0) none) none 0 0 v v' := by
    intro v v'
    refine ⟨Function.update_self .., ?_, fun _ => ⟨rfl, rfl⟩⟩
    rintro _ ⟨⟩
  have twins := mounted.changed.twins
  have tree : ∀ argbuf, ∀ slot : Slot, slot.Of root →
      Function.update place (.hand 0) argbuf slot = place slot :=
    fun _ slot of => Function.update_of_ne (of_ne_hand of 0) _ _
  unfold arguments
  by_cases none_ : uargv = 0
  · rw [if_pos none_]
    have prepared := mounted.prepared (bareTwins twins) (fun _ _ _ _ => ⟨rfl, rfl⟩) (bareScratch t t')
    refine layout_ended args prepared (tree _) fresh caller aligned positive small fun argv => ?_
    rw [ArgvOf, if_pos none_] at argv
    subst argv
    exact ⟨by decide, rfl, rfl, by decide, by simp, rfl⟩
  rw [if_neg none_]
  refine (allocPage_twin twins.ok twins.agree.kmem).bind ?_
  rintro r u u' ⟨memory, memory', kmem, ⟨rfl, dry⟩ | ⟨p, rfl, taken⟩⟩
  · have prepared := mounted.prepared (bareTwins (twins.dry dry memory memory' kmem))
      (fun _ _ _ _ => by rw [memory, memory']; exact ⟨rfl, rfl⟩) (bareScratch u u')
    refine (bad_twin prepared fresh).mono ?_
    rintro _ v v' ⟨rfl, undone⟩
    refine ⟨fun _ => ⟨undone, fun _ _ supplies => absurd (takePages_dry dry.runs) supplies⟩, ?_⟩
    rintro _ ⟨⟩
  · have notOf : ¬ (Slot.table old 0 0).Of root := by
      intro of
      rw [fresh _ of] at caller
      cases caller
    have twins₁ : Twins live (Function.update place (.hand 0) (some p)) u u' :=
      twins.inHand mounted.bare taken kmem (fun _ _ _ => by rw [memory]) (fun _ _ _ => by rw [memory'])
    have rooted : Function.update place (.hand 0) (some p) (.table old 0 0) = some old := by
      rw [Function.update_of_ne (by rintro ⟨⟩), mounted.changed.within.only _ notOf, caller]
    have inHand : Function.update place (.hand 0) (some p) (.hand 0) = some p := Function.update_self ..
    have empty : ∀ v v', Packed p 0 0 v v' := fun v v' =>
      ⟨Nat.zero_le _, .nil 0, fun off less => absurd less (Nat.not_lt_zero off)⟩
    have gathers : ArgvOf t.memory old uargv args →
        Yields (argLoop old p uargv MAXARG 0 0) u fun r v =>
          Gathered p (0 + MAXARG) uargv old args u r u v := by
      intro argv
      rw [ArgvOf, if_neg none_, ← memory] at argv
      have unseen : Unseen p old u := unseen_hand ⟨twins₁.ok, twins₁.forest, .refl _ _⟩ rooted inHand
      have loop := @argLoop_gathers u u old p uargv MAXARG 0 args unseen argv (.refl p u)
        (Nat.zero_le _) (holds_nil _ _) (by simp)
      rwa [start_zero] at loop
    refine ((argLoop_twin twins₁ rooted inHand (empty u u')).and_first gathers).bind ?_
    intro r v v' ⟨⟨rewritten, packed⟩, gathered⟩
    have twins₂ := rewritten.twins twins₁ inHand (hand_childless 0) False.elim
    have same : ∀ slot q off, place slot = some q → v.memory q off = t.memory q off ∧
        v'.memory q off = t'.memory q off := by
      intro slot q off there
      have apart : q ≠ p := by
        rintro rfl
        exact taken.fresh slot there
      obtain ⟨kept, kept'⟩ := rewritten.others q off apart
      rw [kept, kept', memory, memory']
      exact ⟨rfl, rfl⟩
    cases r with
    | none =>
        have prepared := mounted.prepared twins₂ same ⟨inHand, by rintro _ ⟨⟩; exact empty v v', by simp⟩
        refine (bad_twin prepared fresh).mono ?_
        rintro _ w w' ⟨rfl, undone⟩
        refine ⟨fun _ => ⟨undone, fun argv low _ accepted => ?_⟩, ?_⟩
        · rw [← memory] at low
          obtain ⟨few, room, -⟩ := accepted
          rcases (gathered argv).gaveUp rfl low with many | long
          · omega
          · omega
        · rintro _ ⟨⟩
    | some result =>
        obtain ⟨argc, pos⟩ := result
        have packed' := packed argc pos rfl
        have prepared := mounted.prepared twins₂ same ⟨inHand, by rintro _ ⟨⟩; exact packed', by simp⟩
        refine layout_ended args prepared (tree _) fresh caller aligned positive small fun argv => ?_
        obtain ⟨count, size, holds, few, -⟩ := (gathered argv).all argc pos rfl
        have apart : p ≠ stack := by
          rintro rfl
          exact taken.fresh _ mounted.leaf
        rw [ArgvOf, if_neg none_] at argv
        exact ⟨by omega, count, size, packed'.le, argv.bodies, apart, holds⟩

/-- A page table that is not there has no pages. -/
theorem fresh_of_bare (twins : Twins live place s s') (bare : place (.table root 0 0) = none) :
    ∀ slot : Slot, slot.Of root → place slot = none := by
  intro slot of
  have top : place (node root 0 0) = none := bare
  by_contra filled
  exact filled (twins.forest.bare_below (Nat.zero_le 4) top (twins.forest.below_root of filled))

/-- The user sees the same while only places of another page table change. -/
theorem userByte_of_changed (changed : Changed root live place₀ place s s' t t')
    (twins : Twins live place₀ s s') (fresh : ∀ slot : Slot, slot.Of root → place₀ slot = none)
    (caller : place₀ (.table old 0 0) = some old) (va : Nat) :
    userByte t.memory old va = userByte s.memory old va := by
  have same : TreeSame place₀ old s.memory t.memory := by
    intro slot p off _ there
    refine (changed.within.contents slot p off (fun of => ?_) there).1
    rw [fresh slot of] at there
    cases there
  exact same.userByte_eq ⟨twins.ok, twins.forest, .refl _ _⟩ caller va

/-- The process has the new page table in the place of the old one, with no page above its size. -/
structure Exchanged (old : Nat) (loaded : Loaded) (live : CacheRef → Multiset Nat)
    (place place' : Place) (s s' u u' : VmState) : Prop where
  twins : Twins live place' u u'
  rooted : place' (.table loaded.pagetable 0 0) = some loaded.pagetable
  fresh : ∀ slot : Slot, slot.Of loaded.pagetable → place slot = none
  inUser : loaded.sz ≤ MAXUVA
  below : ∀ v, place' (.leaf loaded.pagetable v) ≠ none → v * PGSIZE < loaded.sz
  gone : ∀ slot : Slot, slot.Of old → place' slot = none
  others : ∀ slot : Slot, ¬ slot.Of loaded.pagetable → ¬ slot.Of old → place' slot = place slot
  contents : ∀ (slot : Slot) p off, ¬ slot.Of loaded.pagetable → ¬ slot.Of old →
    place slot = some p → u.memory p off = s.memory p off ∧ u'.memory p off = s'.memory p off

/-- How `exec` ends. -/
structure Finished (old uargv : Nat) (args : List (List UInt8)) (live : CacheRef → Multiset Nat)
    (place : Place) (s s' : VmState) (r : Option Loaded) (u u' : VmState) : Prop where
  failed : r = none → Undone live place s s' u u'
  exchanged : ∀ loaded, r = some loaded → ∃ place', Exchanged old loaded live place place' s s' u u'
  entered : ∀ loaded, r = some loaded → ∃ stack newSz, newSz % PGSIZE = 0 ∧ 0 < newSz ∧
    newSz < MAXUVA ∧ UserPage loaded.pagetable stack newSz live u u' ∧ loaded.sz = newSz + PGSIZE ∧
    (ArgvOf s.memory old uargv args → Accepted newSz args ∧ StackLaid u.memory stack newSz args ∧
      loaded.sp = stackPointer newSz args.length (packedArgs args).length)

theorem Finished.failure (undone : Undone live place s s' u u') :
    Finished old uargv args live place s s' none u u' :=
  ⟨fun _ => undone, by rintro _ ⟨⟩, by rintro _ ⟨⟩⟩

theorem execImage_eq (image : Image) (old uargv : Nat) : execImage image old uargv = (do
    match ← uvmcreate with
    | none => return none
    | some root => do
        match ← loadelf image false root with
        | none => do
            uvmfree root
            return none
        | some (entry, newSz) =>
            newPage root newSz PAGE_USER
              (fun stack => modify fun s : VmState => { s with memory := zeroPage s.memory stack })
              (fun stack => arguments old root stack newSz entry uargv)
              (do
                uvmfree root
                return none)) := by
  refine bind_congr fun created => ?_
  cases created with
  | none => rfl
  | some root =>
      refine bind_congr fun loaded => ?_
      cases loaded with
      | none => rfl
      | some loaded =>
          obtain ⟨entry, newSz⟩ := loaded
          -- the stack page is mapped at `USER_BASE + newSz`
          exact congrArg (fun va => newPage root va PAGE_USER
            (fun stack => modify fun s : VmState => { s with memory := zeroPage s.memory stack })
            (fun stack => arguments old root stack newSz entry uargv)
            (do
              uvmfree root
              return none)) (Nat.zero_add newSz)

/-- `exec` after the image has been loaded: the stack page is mapped above it, and the arguments are
put there. -/
theorem mountStack_twinOr {E : Pmap.Panic → Prop} {entry newSz : Nat} (uargv : Nat)
    (args : List (List UInt8)) (twins : Twins live place₀ s s')
    (caller : place₀ (.table old 0 0) = some old)
    (fresh : ∀ slot : Slot, slot.Of root → place₀ slot = none)
    (changed : Changed root live place₀ place s s' t t') (bare : place (.hand 0) = none)
    (aligned : newSz % PGSIZE = 0) (positive : 0 < newSz)
    (below : ∀ v, place (.leaf root v) ≠ none → v * PGSIZE < newSz)
    (range : ¬ newSz < MAXUVA → E (.walkRange newSz)) :
    TwinOr E (newPage root newSz PAGE_USER
      (fun stack => modify fun s : VmState => { s with memory := zeroPage s.memory stack })
      (fun stack => arguments old root stack newSz entry uargv)
      (do
        uvmfree root
        return none)) t t' fun r u u' => Finished old uargv args live place₀ s s' r u u' := by
  have free : place (leafSlot root newSz) = none := by
    by_contra filled
    have low := below _ filled
    rw [Nat.div_mul_cancel (Nat.dvd_of_mod_eq_zero aligned)] at low
    omega
  refine newPage_twinOr (fun _ => 0) changed.twins ⟨range, fun filled => absurd free filled⟩ bare
    changed.rooted aligned attributes_user (fun p _ _ _ _ => zeroPage_filled) ?_ ?_
  · intro stack place' w w' extended others leaf maps small _ _
    have changed' := changed.trans (extended.changed changed.rooted)
    have mounted : Mounted root stack newSz live place₀ place' s s' w w' :=
      ⟨changed', extended.hand bare, leaf, maps⟩
    refine (arguments_twin args mounted fresh caller aligned positive small).orFails.mono ?_
    intro r u u' ended
    refine ⟨fun none_ => (ended.failed none_).1, fun loaded some_ => ?_, fun loaded some_ => ?_⟩
    · obtain ⟨-, ⟨place₃, replaced⟩, rfl, size, -⟩ := ended.entered loaded some_
      refine ⟨place₃, replaced.twins, ?_, fresh, ?_, ?_, replaced.gone, replaced.others,
        replaced.contents⟩
      · rw [replaced.tree (.table _ 0 0) rfl]
        exact changed'.rooted
      · rw [size]
        unfold PGSIZE MAXUVA at *
        omega
      · intro v filled
        rw [replaced.tree (.leaf _ v) rfl] at filled
        rw [size]
        by_cases top : v = newSz / PGSIZE
        · subst top
          unfold PGSIZE at *
          omega
        · rw [others v top] at filled
          exact Nat.lt_of_lt_of_le (below v filled) (Nat.le_add_right _ _)
    · obtain ⟨entered, -, rfl, size, -, laid⟩ := ended.entered loaded some_
      refine ⟨stack, newSz, aligned, positive, small, entered, size, fun argv => ?_⟩
      exact laid (argv.congr (userByte_of_changed changed' twins fresh caller))
  · intro place' w w' extended _ _
    have changed' := changed.trans (extended.changed changed.rooted)
    refine (discard_twin changed' fresh).bindOr ?_
    intro _ u u' undone
    exact .ret (.failure undone)

/-- `exec` of an image stops at an assertion of `walk` or `mappages`, or it fails and every page is
where it was, or the new page table is entered. -/
theorem execImage_twinOr (image : Image) (uargv : Nat) (args : List (List UInt8))
    (twins : Twins live place s s') (bare : place (.hand 0) = none)
    (caller : place (.table old 0 0) = some old) :
    TwinOr Panic.OfMapping (execImage image old uargv) s s' fun r u u' =>
      Finished old uargv args live place s s' r u u' := by
  rw [execImage_eq]
  refine (uvmcreate_twin twins).bindOr ?_
  rintro _ t t' (⟨rfl, -, twins₁, grown⟩ | ⟨root, rfl, bareRoot, -, twins₁, grown⟩)
  · exact .ret (.failure ⟨twins₁, grown.within⟩)
  have fresh := fresh_of_bare twins bareRoot
  have bare₁ : Function.update place (.table root 0 0) (some root) (.hand 0) = none := by
    rw [Function.update_of_ne (by rintro ⟨⟩), bare]
  have rooted₁ : Function.update place (.table root 0 0) (some root) (.table root 0 0) = some root :=
    Function.update_self ..
  have planted : Within (Slot.Of root) place (Function.update place (.table root 0 0) (some root))
      s s' t t' := by
    refine grown.within.mono ?_
    rintro _ rfl
    exact rfl
  have changes : ∀ {place' v v'}, Extended root live
      (Function.update place (.table root 0 0) (some root)) place' t t' v v' →
      Changed root live place place' s s' v v' := by
    intro place' v v' extended
    exact ⟨extended.twins, planted.trans extended.within, extended.keeps _ _ rooted₁⟩
  refine (loadelf_twinOr twins₁ bare₁ rooted₁).bind ?_
  rintro (_ | ⟨entry, newSz⟩) v v' ⟨place', extended, loaded⟩
  · refine (discard_twin (changes extended) fresh).bindOr ?_
    intro _ w w' undone
    exact .ret (.failure undone)
  obtain ⟨aligned, positive, -, inUser, size_, loadedAt⟩ := loaded entry newSz rfl
  have empty : ∀ v, Function.update place (.table root 0 0) (some root) (.leaf root v) = none := by
    intro v
    rw [Function.update_of_ne (by rintro ⟨⟩), fresh (.leaf root v) rfl]
  exact mountStack_twinOr uargv args twins caller fresh (changes extended) (extended.hand bare₁)
    aligned positive (fun v => loadedAt.below size_ inUser empty) fun _ => trivial

end Exec

end Av6
