import Av6.FdtTokens

/-!
# Walks over the structure block

Every function of the reader is a walk from token to token.  The places such a walk can
stand at are the token boundaries; a node that a call returns points at the boundary behind
its name.  The loops end, as every token takes some bytes, and what a call reads is bounded by
what is read at one boundary.
-/

namespace Av6

namespace DeviceTree

variable {fdt : Fdt} {p q : Nat} {tag : Tag}

open Traced

/-- The places reached from the start of the block by well formed tokens, up to `FDT_END`. -/
inductive Boundary (fdt : Fdt) : Nat → Prop
  | start : Boundary fdt fdt.structStart
  | next {p q : Nat} {tag : Tag} (before : Boundary fdt p) (inside : p < fdt.structEnd)
      (span : Span fdt p tag q) (notEnd : tag.type ≠ FDT_END) : Boundary fdt q

/-- The boundaries of a node's property list. -/
inductive PropBoundary (fdt : Fdt) : Nat → Prop
  | first {p q : Nat} {tag : Tag} (before : Boundary fdt p) (inside : p < fdt.structEnd)
      (span : Span fdt p tag q) (begins : tag.type = FDT_BEGIN_NODE) : PropBoundary fdt q
  | next {p q : Nat} {tag : Tag} (before : PropBoundary fdt p) (inside : p < fdt.structEnd)
      (span : Span fdt p tag q) (kind : tag.type = FDT_NOP ∨ tag.type = FDT_PROP) :
      PropBoundary fdt q

theorem PropBoundary.boundary (boundary : PropBoundary fdt p) : Boundary fdt p := by
  induction boundary with
  | first before inside span begins =>
      refine before.next inside span ?_
      rw [begins]
      decide
  | next before inside span kind ih =>
      refine ih.next inside span ?_
      rcases kind with kind | kind <;> rw [kind] <;> decide

theorem Boundary.ge_start (boundary : Boundary fdt p) : fdt.structStart ≤ p := by
  induction boundary with
  | start => exact Nat.le_refl _
  | next before inside span notEnd ih =>
      have := span.lt
      omega

theorem PropBoundary.ge_start (boundary : PropBoundary fdt p) : fdt.structStart ≤ p :=
  boundary.boundary.ge_start

/-- A property that some `fdt_getprop` meets. -/
structure Property (fdt : Fdt) (tag : Tag) : Prop where
  type : tag.type = FDT_PROP
  listed : ∃ p q, PropBoundary fdt p ∧ p < fdt.structEnd ∧ Span fdt p tag q

/-- What the walks read, boundary by boundary. -/
structure Allows (fdt : Fdt) (P : Read → Prop) : Prop where
  token : ∀ p, Boundary fdt p → ∀ r, Touches fdt p r → P r
  name : ∀ tag, Property fdt tag → ∀ key, ∀ r ∈ (strEq fdt.memory .name tag.name key).reads, P r
  value : ∀ tag, Property fdt tag → 4 ≤ tag.len → ∀ i < 4, P ⟨.value, tag.value + i⟩

def IsPanic (e : Stop) : Prop := ∃ why, e = .panic why

theorem strEq_returns (memory : Memory) (purpose : Purpose) (key : List UInt8) : ∀ str : Nat,
    ∃ same, (strEq memory purpose str key).result = .ok same := by
  induction key with
  | nil => exact fun str => ⟨_, rfl⟩
  | cons k key ih =>
      intro str
      unfold strEq
      rw [result_bind_of_ok (a := (memory str).toNat) rfl]
      split
      · split
        · exact ⟨true, rfl⟩
        · exact ih _
      · exact ⟨false, rfl⟩

section

variable {P : Read → Prop} {key : List UInt8}

theorem strEq_runs (allows : Allows fdt P) (property : Property fdt tag) :
    Runs P IsPanic (fun _ => True) (strEq fdt.memory .name tag.name key) := by
  refine ⟨allows.name tag property key, ?_, fun _ _ => trivial⟩
  intro e stops
  obtain ⟨same, returns⟩ := strEq_returns fdt.memory .name key tag.name
  rw [returns] at stops
  cases stops

variable (bounded : fdt.Bounded) (allows : Allows fdt P)

include bounded allows

theorem nextTag_runs_at (boundary : Boundary fdt p) :
    Runs P IsPanic (fun r => p < fdt.structEnd ∧ Span fdt p r.1 r.2) (nextTag fdt p) :=
  (nextTag_runs bounded boundary.ge_start).mono (allows.token p boundary) (fun _ => And.left)
    fun _ => id

/-- A node that a walk returns: it points behind a name that ends inside the block. -/
structure Listed (fdt : Fdt) (node : Node) : Prop where
  list : PropBoundary fdt node.props
  named : ∃ stop < fdt.structEnd, NameEndsAt fdt.memory node.name stop ∧
    fdt.structStart ≤ node.name

/-- A node found from `p` on is listed, and the walk has moved. -/
def FoundFrom (fdt : Fdt) (p : Nat) (found : Option Node) : Prop :=
  ∀ node ∈ found, Listed fdt node ∧ p < fdt.structEnd ∧ p < node.props

omit bounded allows in
theorem FoundFrom.none : FoundFrom fdt p none := by
  rintro node ⟨⟩

theorem nextNodeLoop_runs (fuel : Nat) : ∀ (p : Nat) (depth : Int), Boundary fdt p →
    fdt.structEnd - p < fuel →
    Runs P IsPanic (FoundFrom fdt p) (nextNodeLoop fdt fuel p depth) := by
  induction fuel with
  | zero => intro p depth boundary enough; omega
  | succ fuel ih =>
      intro p depth boundary enough
      unfold nextNodeLoop
      refine (nextTag_runs_at bounded allows boundary).bind ?_
      rintro ⟨tag, q⟩ ⟨inside, span⟩
      have advances := span.lt
      have further : ∀ depth, tag.type ≠ FDT_END →
          Runs P IsPanic (FoundFrom fdt p) (nextNodeLoop fdt fuel q depth) := by
        intro depth notEnd
        refine (ih q depth (boundary.next inside span notEnd) (by omega)).post ?_
        intro found spec node mem
        obtain ⟨listed, -, moved⟩ := spec node mem
        exact ⟨listed, inside, by omega⟩
      dsimp only
      split
      · next begins =>
        refine Runs.ret ?_
        rintro node ⟨⟩
        refine ⟨⟨.first boundary inside span begins, ?_⟩, inside, by simp only; omega⟩
        exact span.named boundary.ge_start begins
      · split
        · next ends => exact further _ (by rw [ends]; decide)
        · split
          · exact Runs.ret .none
          · next notEnd => exact further _ notEnd

theorem nextNode_runs {node : Node} (boundary : Boundary fdt node.props) :
    Runs P IsPanic (FoundFrom fdt node.props) (nextNode fdt node) :=
  nextNodeLoop_runs bounded allows _ _ _ boundary (Nat.lt_succ_self _)

theorem firstNode_runs : Runs P IsPanic (FoundFrom fdt fdt.structStart) (firstNode fdt) :=
  nextNode_runs bounded allows
    (show Boundary fdt (Node.mk fdt.structStart 0 (-1)).props from .start)

theorem nextSubnodeLoop_runs (parent : Node) (fuel : Nat) : ∀ child : Node,
    Boundary fdt child.props → fdt.structEnd - child.props < fuel →
    Runs P IsPanic (FoundFrom fdt child.props) (nextSubnodeLoop fdt parent fuel child) := by
  induction fuel with
  | zero => intro child boundary enough; omega
  | succ fuel ih =>
      intro child boundary enough
      unfold nextSubnodeLoop
      refine (nextNode_runs bounded allows boundary).bind ?_
      intro found spec
      cases found with
      | none => exact Runs.ret .none
      | some next =>
          obtain ⟨listed, inside, moved⟩ := spec next rfl
          dsimp only
          split
          · exact Runs.ret .none
          · split
            · refine Runs.ret ?_
              rintro node ⟨⟩
              exact ⟨listed, inside, moved⟩
            · refine (ih next listed.list.boundary (by omega)).post ?_
              intro found spec node mem
              obtain ⟨listed, -, movedOn⟩ := spec node mem
              exact ⟨listed, inside, by omega⟩

theorem nextSubnode_runs {parent child : Node} (boundary : Boundary fdt child.props) :
    Runs P IsPanic (FoundFrom fdt child.props) (nextSubnode fdt parent child) :=
  nextSubnodeLoop_runs bounded allows parent _ child boundary (Nat.lt_succ_self _)

/-- The value and length that a property in the list has. -/
def IsPropertyOf (fdt : Fdt) (found : Option (Nat × Nat)) : Prop :=
  ∀ v ∈ found, ∃ tag, Property fdt tag ∧ v = (tag.value, tag.len)

theorem getpropLoop_runs (fuel : Nat) : ∀ p : Nat, PropBoundary fdt p →
    fdt.structEnd - p < fuel →
    Runs P IsPanic (IsPropertyOf fdt) (getpropLoop fdt key fuel p) := by
  induction fuel with
  | zero => intro p boundary enough; omega
  | succ fuel ih =>
      intro p boundary enough
      unfold getpropLoop
      refine (nextTag_runs_at bounded allows boundary.boundary).bind ?_
      rintro ⟨tag, q⟩ ⟨inside, span⟩
      have advances := span.lt
      have further : tag.type = FDT_NOP ∨ tag.type = FDT_PROP →
          Runs P IsPanic (IsPropertyOf fdt) (getpropLoop fdt key fuel q) :=
        fun kind => ih q (boundary.next inside span kind) (by omega)
      dsimp only
      split
      · next nop => exact further (.inl nop)
      · split
        · exact Runs.ret (by rintro v ⟨⟩)
        · next prop =>
          have type : tag.type = FDT_PROP := not_not.mp prop
          have property : Property fdt tag := ⟨type, p, q, boundary, inside, span⟩
          refine (strEq_runs allows property).bind ?_
          rintro same -
          split
          · refine Runs.ret ?_
            rintro v ⟨⟩
            exact ⟨tag, property, rfl⟩
          · exact further (.inr type)

theorem getprop_runs {node : Node} (boundary : PropBoundary fdt node.props) :
    Runs P IsPanic (IsPropertyOf fdt) (getprop fdt node key) :=
  getpropLoop_runs bounded allows _ _ boundary (Nat.lt_succ_self _)

theorem propU32_runs {node : Node} (boundary : PropBoundary fdt node.props) :
    Runs P IsPanic (fun _ => True) (propU32 fdt node key) := by
  unfold propU32
  refine (getprop_runs bounded allows boundary).bind ?_
  intro found spec
  rcases found with - | ⟨value, len⟩
  · exact Runs.ret trivial
  · obtain ⟨tag, property, eq⟩ := spec _ rfl
    cases eq
    dsimp only
    split
    · exact Runs.ret trivial
    · next long =>
      refine (loadCell_runs fun i small =>
        allows.value tag property (by omega) i small).bind ?_
      rintro v -
      exact Runs.ret trivial

theorem nodeByPhandleLoop_runs (phandle fuel : Nat) : ∀ found : Option Node,
    (∀ node ∈ found, Listed fdt node ∧ fdt.structEnd - node.props < fuel) →
    Runs P IsPanic (fun found => ∀ node ∈ found, Listed fdt node)
      (nodeByPhandleLoop fdt phandle fuel found) := by
  induction fuel with
  | zero =>
      rintro (- | node) spec
      · exact Runs.ret (by simp)
      · have := (spec node rfl).2
        omega
  | succ fuel ih =>
      rintro (- | node) spec
      · exact Runs.ret (by simp)
      · obtain ⟨listed, enough⟩ := spec node rfl
        unfold nodeByPhandleLoop
        refine (propU32_runs bounded allows listed.list).bind ?_
        rintro v -
        split
        · refine Runs.ret ?_
          rintro node ⟨⟩
          exact listed
        · refine (nextNode_runs bounded allows listed.list.boundary).bind ?_
          intro found moved
          refine ih found ?_
          intro next mem
          obtain ⟨listedNext, inside, further⟩ := moved next mem
          exact ⟨listedNext, by omega⟩

theorem nodeByPhandle_runs (phandle : Nat) :
    Runs P IsPanic (fun found => ∀ node ∈ found, Listed fdt node)
      (nodeByPhandle fdt phandle) := by
  unfold nodeByPhandle
  refine (firstNode_runs bounded allows).bind ?_
  intro found spec
  refine nodeByPhandleLoop_runs bounded allows phandle _ found ?_
  intro node mem
  obtain ⟨listed, inside, moved⟩ := spec node mem
  exact ⟨listed, by unfold tokenBound; omega⟩

end

end DeviceTree

end Av6
