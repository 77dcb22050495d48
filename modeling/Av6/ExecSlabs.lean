import Av6.SlabRelease
import Av6.ExecStack

/-!
# exec makes no slabs

`exec` takes pages and gives pages back, and does nothing else with the allocators.
-/

namespace Av6

namespace Exec

open FallibleState Kmem Pmap Elf

/-- The slab pages of a state were slab pages before. -/
abbrev KeepsSlabs : VmState → VmState → Prop := Order.Preimage VmState.kmem NoNewSlabs

variable {α : Type}

theorem onKmem_keepsSlabs {m : Alloc α} (moves : ∀ a, Moves NoNewSlabs m a) (s : VmState) :
    Moves KeepsSlabs (onKmem m) s :=
  (moves s.kmem).onPart fun _ _ => rfl

theorem memory_keepsSlabs (g : VmState → Memory) (s : VmState) :
    Moves KeepsSlabs (modify fun s : VmState => { s with memory := g s } : Vm Unit) s :=
  .update (refl_of NoNewSlabs s.kmem)

theorem allocPage_keepsSlabs (s : VmState) : Moves KeepsSlabs allocPage s :=
  (onKmem_keepsSlabs kpageAlloc_noNewSlabs s).bind fun _ _ => .ret

theorem freePage_keepsSlabs (page : Nat) (s : VmState) : Moves KeepsSlabs (freePage page) s :=
  onKmem_keepsSlabs ((noNewSlabs_steps .magazineCache).kpageFree _) s

theorem readPte_keepsSlabs (page i : Nat) (s : VmState) : Moves KeepsSlabs (readPte page i) s :=
  .read_bind .ret

theorem writePte_keepsSlabs (page i word : Nat) (s : VmState) :
    Moves KeepsSlabs (writePte page i word) s :=
  memory_keepsSlabs _ s

theorem ptalloc_keepsSlabs (s : VmState) : Moves KeepsSlabs ptalloc s := by
  refine (allocPage_keepsSlabs s).bind fun page t => ?_
  cases page with
  | none => exact .ret
  | some page => exact (memory_keepsSlabs _ t).bind fun _ _ => .ret

theorem walkLoop_keepsSlabs (va : Nat) (alloc : Bool) (left level page : Nat) (s : VmState) :
    Moves KeepsSlabs (walkLoop va alloc left level page) s := by
  induction left generalizing level page s with
  | zero => exact .ret
  | succ left ih =>
      unfold walkLoop
      refine (readPte_keepsSlabs page _ s).bind fun pte t => ?_
      split
      · exact ih _ _ t
      · split
        · refine (ptalloc_keepsSlabs t).bind fun next u => ?_
          cases next with
          | none => exact .ret
          | some next => exact (writePte_keepsSlabs _ _ _ u).bind fun _ v => ih _ _ v
        · exact .ret

theorem mapLoop_keepsSlabs (pagetable perm rounds a pa : Nat) (s : VmState) :
    Moves KeepsSlabs (mapLoop pagetable perm rounds a pa) s := by
  induction rounds generalizing a pa s with
  | zero =>
      unfold mapLoop
      refine Moves.bind (.check_bind ((walkLoop_keepsSlabs _ _ _ _ _ s).bind fun _ _ => .ret)) ?_
      intro entry t
      cases entry with
      | none => exact .ret
      | some entry =>
          refine (readPte_keepsSlabs _ _ t).bind fun _ u => .check_bind ?_
          exact (writePte_keepsSlabs _ _ _ u).bind fun _ _ => .ret
  | succ rounds ih =>
      unfold mapLoop
      refine Moves.bind (.check_bind ((walkLoop_keepsSlabs _ _ _ _ _ s).bind fun _ _ => .ret)) ?_
      intro entry t
      cases entry with
      | none => exact .ret
      | some entry =>
          refine (readPte_keepsSlabs _ _ t).bind fun _ u => .check_bind ?_
          exact (writePte_keepsSlabs _ _ _ u).bind fun _ v => ih _ _ v

theorem mappages_keepsSlabs (pagetable va pa sz perm : Nat) (s : VmState) :
    Moves KeepsSlabs (mappages pagetable va pa sz perm) s :=
  .check_bind (mapLoop_keepsSlabs _ _ _ _ _ s)

theorem freeEntry_keepsSlabs {dispose : Nat → Vm Unit}
    (disposes : ∀ page s, Moves KeepsSlabs (dispose page) s) (page i : Nat) (s : VmState) :
    Moves KeepsSlabs (freeEntry dispose page i) s := by
  refine (readPte_keepsSlabs page i s).bind fun entry t => ?_
  split
  · exact (disposes _ t).bind fun _ u => writePte_keepsSlabs _ _ _ u
  · exact .ret

theorem freewalk_keepsSlabs (left page : Nat) (s : VmState) :
    Moves KeepsSlabs (freewalk left page) s := by
  induction left generalizing page s with
  | zero =>
      refine (Moves.forM (freeEntry_keepsSlabs freePage_keepsSlabs page) _ s).bind fun _ t => ?_
      exact freePage_keepsSlabs page t
  | succ left ih =>
      refine (Moves.forM (freeEntry_keepsSlabs ih page) _ s).bind fun _ t => ?_
      exact freePage_keepsSlabs page t

theorem uvmfree_keepsSlabs (pagetable : Nat) (s : VmState) :
    Moves KeepsSlabs (uvmfree pagetable) s :=
  freewalk_keepsSlabs 3 pagetable s

section

variable (image : Image) (watched : Bool)

theorem readRange_keepsSlabs {f : Unit → Vm α} (off len : Nat) (s : VmState)
    (rest : Moves KeepsSlabs (f ()) s) : Moves KeepsSlabs (readRange image watched off len >>= f) s :=
  .check_bind rest

theorem copyFile_keepsSlabs (page src remaining : Nat) (s : VmState) :
    Moves KeepsSlabs (copyFile image watched page src remaining) s := by
  unfold copyFile
  split
  · exact readRange_keepsSlabs image watched _ _ s (memory_keepsSlabs _ s)
  · exact .ret

theorem segmentLoop_keepsSlabs (pagetable rounds va src remaining : Nat) (s : VmState) :
    Moves KeepsSlabs (segmentLoop image watched pagetable rounds va src remaining) s := by
  induction rounds generalizing va src remaining s with
  | zero => exact .ret
  | succ rounds ih =>
      unfold segmentLoop
      refine (allocPage_keepsSlabs s).bind fun page t => ?_
      cases page with
      | none => exact .ret
      | some page =>
          refine (memory_keepsSlabs _ t).bind fun _ u => ?_
          refine (copyFile_keepsSlabs image watched _ _ _ u).bind fun _ v => ?_
          refine (mappages_keepsSlabs _ _ _ _ _ v).bind fun mapped w => ?_
          split
          · exact ih _ _ _ w
          · exact (freePage_keepsSlabs page w).bind fun _ _ => .ret

theorem loadSegment_keepsSlabs (pagetable src : Nat) (ph : Proghdr) (s : VmState) :
    Moves KeepsSlabs (loadSegment image watched pagetable src ph) s := by
  unfold loadSegment
  split
  · exact .ret
  · split
    · exact .ret
    · exact segmentLoop_keepsSlabs image watched _ _ _ _ _ s

theorem loadLoop_keepsSlabs (pagetable phoff phentsize left i maxEnd : Nat) (s : VmState) :
    Moves KeepsSlabs (loadLoop image watched pagetable phoff phentsize left i maxEnd) s := by
  induction left generalizing i maxEnd s with
  | zero => exact .ret
  | succ left ih =>
      unfold loadLoop
      dsimp only
      split
      · exact .ret
      refine readRange_keepsSlabs image watched _ _ s ?_
      split
      · exact ih _ _ s
      refine readRange_keepsSlabs image watched _ _ s (readRange_keepsSlabs image watched _ _ s ?_)
      split
      · exact .ret
      refine readRange_keepsSlabs image watched _ _ s ?_
      split
      · exact .ret
      split
      · exact .ret
      refine readRange_keepsSlabs image watched _ _ s ?_
      split
      · exact .ret
      refine (loadSegment_keepsSlabs image watched _ _ _ s).bind fun loaded t => ?_
      split
      · exact ih _ _ t
      · exact .ret

theorem loadelf_keepsSlabs (pagetable : Nat) (s : VmState) :
    Moves KeepsSlabs (loadelf image watched pagetable) s := by
  have read := fun {f : Unit → Vm (Option (Nat × Nat))} (off len : Nat)
    (rest : Moves KeepsSlabs (f ()) s) => readRange_keepsSlabs image watched off len s rest
  unfold loadelf
  dsimp only
  split
  · exact .ret
  refine read _ _ ?_
  split
  · exact .ret
  split
  · exact .ret
  split
  · exact .ret
  refine read _ _ ?_
  split
  · exact .ret
  refine read _ _ ?_
  split
  · exact .ret
  refine read _ _ ?_
  split
  · exact .ret
  refine read _ _ (read _ _ ?_)
  refine (loadLoop_keepsSlabs image watched _ _ _ _ _ _ s).bind fun maxEnd t => ?_
  cases maxEnd with
  | none => exact .ret
  | some maxEnd =>
      dsimp only
      split
      · exact .ret
      · exact readRange_keepsSlabs image watched _ _ t .ret

end

theorem ldtrb_keepsSlabs (pagetable va : Nat) (s : VmState) :
    Moves KeepsSlabs (ldtrb pagetable va) s := by
  refine (walkLoop_keepsSlabs _ _ _ _ _ s).bind fun table t => ?_
  cases table with
  | none => exact .ret
  | some table =>
      refine (readPte_keepsSlabs _ _ t).bind fun pte u => ?_
      split
      · exact .read_bind .ret
      · exact .ret

theorem copyin_keepsSlabs (pagetable src len : Nat) (s : VmState) :
    Moves KeepsSlabs (copyin pagetable src len) s := by
  have bytes : ∀ len src s, Moves KeepsSlabs (copyinBytes pagetable len src) s := by
    intro len
    induction len with
    | zero => exact fun _ _ => .ret
    | succ len ih =>
        intro src s
        unfold copyinBytes
        refine (ldtrb_keepsSlabs _ _ s).bind fun byte t => ?_
        cases byte with
        | none => exact .ret
        | some byte => exact (ih _ t).bind fun _ _ => .ret
  unfold copyin
  split
  · exact .ret
  · split
    · exact .ret
    · exact bytes len src s

theorem copyinstr_keepsSlabs (pagetable page dst src max : Nat) (s : VmState) :
    Moves KeepsSlabs (copyinstr pagetable page dst src max) s := by
  have bytes : ∀ max dst src s, Moves KeepsSlabs (copyinstrBytes pagetable page max dst src) s := by
    intro max
    induction max with
    | zero => exact fun _ _ _ => .ret
    | succ max ih =>
        intro dst src s
        unfold copyinstrBytes
        refine (ldtrb_keepsSlabs _ _ s).bind fun byte t => ?_
        cases byte with
        | none => exact .ret
        | some byte =>
            refine (memory_keepsSlabs _ t).bind fun _ u => ?_
            split
            · exact .ret
            · exact (ih _ _ u).bind fun _ _ => .ret
  unfold copyinstr
  split
  · exact .ret
  · split
    · exact .ret
    · exact bytes max dst src s

theorem argLoop_keepsSlabs (pagetable argbuf uargv left argc pos : Nat) (s : VmState) :
    Moves KeepsSlabs (argLoop pagetable argbuf uargv left argc pos) s := by
  induction left generalizing argc pos s with
  | zero => exact .ret
  | succ left ih =>
      unfold argLoop
      refine (copyin_keepsSlabs _ _ _ s).bind fun bytes t => ?_
      cases bytes with
      | none => exact .ret
      | some bytes =>
          dsimp only
          split
          · exact .ret
          · refine (copyinstr_keepsSlabs _ _ _ _ _ t).bind fun slen u => ?_
            cases slen with
            | none => exact .ret
            | some slen => exact ih _ _ u

theorem pointerLoop_keepsSlabs (stack w strbase argbuf left i off : Nat) (s : VmState) :
    Moves KeepsSlabs (pointerLoop stack w strbase argbuf left i off) s := by
  induction left generalizing i off s with
  | zero => exact .ret
  | succ left ih =>
      unfold pointerLoop
      exact (writePte_keepsSlabs _ _ _ s).bind fun _ t => .read_bind (ih _ _ t)

theorem freeArgbuf_keepsSlabs (argbuf : Option Nat) (s : VmState) :
    Moves KeepsSlabs (freeArgbuf argbuf) s := by
  cases argbuf with
  | none => exact .ret
  | some argbuf => exact freePage_keepsSlabs argbuf s

theorem bad_keepsSlabs (argbuf : Option Nat) (newPagetable : Nat) (s : VmState) :
    Moves KeepsSlabs (bad argbuf newPagetable) s :=
  (freeArgbuf_keepsSlabs argbuf s).bind fun _ t => (uvmfree_keepsSlabs _ t).bind fun _ _ => .ret

theorem copyStrings_keepsSlabs (stack dst : Nat) (argbuf : Option Nat) (pos : Nat) (s : VmState) :
    Moves KeepsSlabs (copyStrings stack dst argbuf pos) s := by
  cases argbuf with
  | none => exact .ret
  | some src => exact memory_keepsSlabs _ s

theorem writeInfo_keepsSlabs (stack w strbase : Nat) (argbuf : Option Nat) (argc : Nat)
    (s : VmState) : Moves KeepsSlabs (writeInfo stack w strbase argbuf argc) s := by
  have zeros : ∀ w s, Moves KeepsSlabs (writeZeros stack w) s := by
    intro w s
    refine (writePte_keepsSlabs _ _ _ s).bind fun _ t => ?_
    refine (writePte_keepsSlabs _ _ _ t).bind fun _ u => ?_
    exact (writePte_keepsSlabs _ _ _ u).bind fun _ v => writePte_keepsSlabs _ _ _ v
  have pointers : ∀ s, Moves KeepsSlabs (writePointers stack w strbase argbuf argc) s := by
    intro s
    cases argbuf with
    | none => exact .ret
    | some src => exact pointerLoop_keepsSlabs _ _ _ _ _ _ _ s
  refine (writePte_keepsSlabs _ _ _ s).bind fun _ t => ?_
  exact (pointers t).bind fun _ u => zeros _ u

theorem layout_keepsSlabs (oldPagetable newPagetable stack newSz entry : Nat) (argbuf : Option Nat)
    (argc pos : Nat) (s : VmState) :
    Moves KeepsSlabs (layout oldPagetable newPagetable stack newSz entry argbuf argc pos) s := by
  rw [layout_eq]
  refine (copyStrings_keepsSlabs _ _ _ _ s).bind fun _ t => ?_
  split
  · exact bad_keepsSlabs _ _ t
  · refine (writeInfo_keepsSlabs _ _ _ _ _ t).bind fun _ u => ?_
    refine (freeArgbuf_keepsSlabs _ u).bind fun _ v => ?_
    exact (uvmfree_keepsSlabs _ v).bind fun _ _ => .ret

theorem arguments_keepsSlabs (oldPagetable newPagetable stack newSz entry uargv : Nat)
    (s : VmState) :
    Moves KeepsSlabs (arguments oldPagetable newPagetable stack newSz entry uargv) s := by
  unfold arguments
  split
  · exact layout_keepsSlabs _ _ _ _ _ _ _ _ s
  · refine (allocPage_keepsSlabs s).bind fun page t => ?_
    cases page with
    | none => exact bad_keepsSlabs _ _ t
    | some argbuf =>
        refine (argLoop_keepsSlabs _ _ _ _ _ _ t).bind fun result u => ?_
        cases result with
        | none => exact bad_keepsSlabs _ _ u
        | some result => exact layout_keepsSlabs _ _ _ _ _ _ _ _ u

theorem exec_keepsSlabs (programs : List (String × Image)) (path : String)
    (oldPagetable uargv : Nat) (s : VmState) :
    Moves KeepsSlabs (exec programs path oldPagetable uargv) s := by
  have discards : ∀ newPagetable t, Moves KeepsSlabs (do
      uvmfree newPagetable
      return none : Vm (Option Loaded)) t :=
    fun _ t => (uvmfree_keepsSlabs _ t).bind fun _ _ => .ret
  unfold exec
  split
  · exact .ret
  unfold execImage
  refine (ptalloc_keepsSlabs s).bind fun table t => ?_
  cases table with
  | none => exact .ret
  | some newPagetable =>
      refine (loadelf_keepsSlabs _ _ _ t).bind fun loaded u => ?_
      cases loaded with
      | none => exact discards _ u
      | some loaded =>
          refine (allocPage_keepsSlabs u).bind fun page v => ?_
          cases page with
          | none => exact discards _ v
          | some stack =>
              refine (memory_keepsSlabs _ v).bind fun _ w => ?_
              refine (mappages_keepsSlabs _ _ _ _ _ w).bind fun mapped x => ?_
              split
              · exact arguments_keepsSlabs _ _ _ _ _ _ x
              · exact (freePage_keepsSlabs _ x).bind fun _ y => discards _ y

end Exec

end Av6
