import Av6.DtbModel
import Av6.FdtWalks
import Av6.FdtEncoding

/-!
# The walks end

A blob can hold any bytes, and a cursor can stand anywhere, also before the structure block or
between two tokens.  Every token that `fdt_next_tag` accepts lies ahead of the cursor, as the
lengths are rounded in 32 bits and the block ends below `2 ^ 53`, and at the end of the block
it panics.  So each loop of the reader has the rest of the block as its measure.
-/

namespace Av6

namespace DeviceTree

variable {fdt : Fdt} {p : Nat}

open Traced

/-- The run returns or panics. -/
def Ends {α : Type} (x : Reader α) : Prop := ∀ e, x.result = .error e → IsPanic e

/-- The cursor was inside the block and has moved behind the type of the token. -/
def Forward (fdt : Fdt) (p : Nat) (r : Tag × Nat) : Prop := p < fdt.structEnd ∧ p + 4 ≤ r.2

/-- The node lies ahead of the cursor, which was inside the block. -/
def Ahead (fdt : Fdt) (p : Nat) (found : Option Node) : Prop :=
  ∀ node ∈ found, p < fdt.structEnd ∧ p < node.props

theorem Ahead.none : Ahead fdt p none := by
  rintro node ⟨⟩

theorem Ahead.of_lt {q : Nat} {found : Option Node} (ahead : Ahead fdt q found)
    (inside : p < fdt.structEnd) (lt : p < q) : Ahead fdt p found := by
  intro node mem
  have further := (ahead node mem).2
  exact ⟨inside, by omega⟩

/-- A node ahead of the cursor leaves less of the block than the cursor had. -/
theorem rest_lt {fuel : Nat} {found : Option Node} (ahead : Ahead fdt p found)
    (enough : fdt.structEnd - p < fuel + 1) :
    ∀ node ∈ found, fdt.structEnd - node.props < fuel := by
  intro node mem
  obtain ⟨inside, moved⟩ := ahead node mem
  omega

/-- A panic ends a run, whatever its result should have been. -/
theorem panic_ends {α : Type} {Q : α → Prop} (why : Panic) :
    Runs (fun _ => True) IsPanic Q (panic why) :=
  Runs.stop ⟨why, rfl⟩

theorem nameEnd_ends (memory : Memory) (left : Nat) : ∀ s : Nat,
    Runs (fun _ => True) IsPanic (fun _ => True) (nameEnd memory s left) := by
  induction left with
  | zero => exact fun s => Runs.ret trivial
  | succ left ih =>
      intro s
      unfold nameEnd
      apply (loadByte_runs trivial).bind
      rintro b -
      split
      · exact ih (s + 1)
      · exact Runs.ret trivial

theorem namelen_ends (memory : Memory) (name stop : Nat) :
    Runs (fun _ => True) IsPanic (fun _ => True) (namelen memory name stop) := by
  unfold namelen
  apply (nameEnd_ends memory _ name).bind
  rintro s -
  exact Runs.ret trivial

/-- Below the end of the block nothing that is rounded to 32 bits makes a pointer wrap. -/
theorem le_advance_align4 {a : Nat} (low : a < 2 ^ 54) (v : Nat) :
    a ≤ advance a (align4 v / 4 * 4) := by
  have rounded := align4_lt v
  rw [align4_words, advance_eq (by omega)]
  omega

/-- The step of every walk, from wherever the cursor stands. -/
theorem nextTag_forward (bounded : fdt.Bounded) (p : Nat) :
    Runs (fun _ => True) IsPanic (Forward fdt p) (nextTag fdt p) := by
  have low := bounded.struct_low
  unfold nextTag
  split
  · exact panic_ends _
  · next inside =>
    have inside : p < fdt.structEnd := by omega
    apply (loadCell_runs fun _ _ => trivial).bind
    rintro type -
    rw [advance_eq (p := p) (by omega)]
    dsimp only
    split
    · apply (namelen_ends fdt.memory _ _).bind
      rintro len -
      split
      · exact panic_ends _
      · exact Runs.ret ⟨inside, le_advance_align4 (by omega) len⟩
    · split
      · split
        · exact panic_ends _
        · apply (loadCell_runs fun _ _ => trivial).bind
          rintro len -
          apply (loadCell_runs fun _ _ => trivial).bind
          rintro nameoff -
          split
          · exact panic_ends _
          · split
            · exact panic_ends _
            · -- A length near `2 ^ 32` is rounded to zero: the header alone is ahead.
              have value := le_advance_align4 (a := p + 4 + 8) (by omega) len
              apply Runs.ret
              rw [advance_eq (p := p + 4) (by omega)]
              exact ⟨inside, by simp only; omega⟩
      · split
        · exact Runs.ret ⟨inside, Nat.le_refl _⟩
        · exact panic_ends _

theorem nextTag_past {fdt : Fdt} (past : fdt.structEnd ≤ p) :
    nextTag fdt p = panic .noEnd := by
  unfold nextTag
  rw [if_pos past]

section

variable (bounded : fdt.Bounded)

include bounded

theorem nextNodeLoop_ends (fuel : Nat) : ∀ (p : Nat) (depth : Int), fdt.structEnd - p < fuel →
    Runs (fun _ => True) IsPanic (Ahead fdt p) (nextNodeLoop fdt fuel p depth) := by
  induction fuel with
  | zero => intro p depth enough; omega
  | succ fuel ih =>
      intro p depth enough
      unfold nextNodeLoop
      apply (nextTag_forward bounded p).bind
      rintro ⟨tag, q⟩ ⟨inside, moved⟩
      simp only at moved
      have further : ∀ depth,
          Runs (fun _ => True) IsPanic (Ahead fdt p) (nextNodeLoop fdt fuel q depth) := by
        intro depth
        apply (ih q depth (by omega)).post
        intro found ahead
        exact ahead.of_lt inside (by omega)
      dsimp only
      split
      · apply Runs.ret
        rintro node ⟨⟩
        exact ⟨inside, by simp only; omega⟩
      · split
        · exact further (depth - 1)
        · split
          · exact Runs.ret .none
          · exact further depth

theorem nextNode_ends (node : Node) :
    Runs (fun _ => True) IsPanic (Ahead fdt node.props) (nextNode fdt node) :=
  nextNodeLoop_ends bounded _ _ _ (Nat.lt_succ_self _)

theorem nextSubnodeLoop_ends (parent : Node) (fuel : Nat) : ∀ child : Node,
    fdt.structEnd - child.props < fuel →
    Runs (fun _ => True) IsPanic (Ahead fdt child.props)
      (nextSubnodeLoop fdt parent fuel child) := by
  induction fuel with
  | zero => intro child enough; omega
  | succ fuel ih =>
      intro child enough
      unfold nextSubnodeLoop
      apply (nextNode_ends bounded child).bind
      intro found ahead
      cases found with
      | none => exact Runs.ret .none
      | some next =>
          obtain ⟨inside, moved⟩ := ahead next rfl
          dsimp only
          split
          · exact Runs.ret .none
          · split
            · exact Runs.ret ahead
            · apply (ih next (by omega)).post
              intro found ahead
              exact ahead.of_lt inside moved

theorem nextSubnode_ends (parent child : Node) :
    Runs (fun _ => True) IsPanic (Ahead fdt child.props) (nextSubnode fdt parent child) :=
  nextSubnodeLoop_ends bounded parent _ child (Nat.lt_succ_self _)

theorem getpropLoop_ends (key : List UInt8) (fuel : Nat) : ∀ p : Nat, fdt.structEnd - p < fuel →
    Runs (fun _ => True) IsPanic (fun _ => True) (getpropLoop fdt key fuel p) := by
  induction fuel with
  | zero => intro p enough; omega
  | succ fuel ih =>
      intro p enough
      unfold getpropLoop
      apply (nextTag_forward bounded p).bind
      rintro ⟨tag, q⟩ ⟨inside, moved⟩
      have further := ih q (by simp only at moved; omega)
      dsimp only
      split
      · exact further
      · split
        · exact Runs.ret trivial
        · have compared : Runs (fun _ => True) IsPanic (fun _ => True)
              (strEq fdt.memory .name tag.name key) := by
            obtain ⟨same, returns⟩ := strEq_returns fdt.memory .name key tag.name
            refine ⟨fun _ _ => trivial, ?_, fun _ _ => trivial⟩
            intro e stops
            rw [returns] at stops
            cases stops
          apply compared.bind
          rintro same -
          split
          · exact Runs.ret trivial
          · exact further

theorem getprop_ends (node : Node) (key : List UInt8) :
    Runs (fun _ => True) IsPanic (fun _ => True) (getprop fdt node key) :=
  getpropLoop_ends bounded key _ _ (Nat.lt_succ_self _)

theorem propU32_ends (node : Node) (key : List UInt8) :
    Runs (fun _ => True) IsPanic (fun _ => True) (propU32 fdt node key) := by
  unfold propU32
  apply (getprop_ends bounded node key).bind
  rintro found -
  rcases found with - | ⟨value, len⟩
  · exact Runs.ret trivial
  · dsimp only
    split
    · exact Runs.ret trivial
    · apply (loadCell_runs fun _ _ => trivial).bind
      rintro v -
      exact Runs.ret trivial

theorem firstNode_ends :
    Runs (fun _ => True) IsPanic (Ahead fdt fdt.structStart) (firstNode fdt) :=
  nextNode_ends bounded { props := fdt.structStart, name := 0, depth := -1 }

theorem nodeByPhandleLoop_ends (phandle fuel : Nat) : ∀ found : Option Node,
    (∀ node ∈ found, fdt.structEnd - node.props < fuel) →
    Runs (fun _ => True) IsPanic (fun _ => True)
      (nodeByPhandleLoop fdt phandle fuel found) := by
  induction fuel with
  | zero =>
      rintro (- | node) enough
      · exact Runs.ret trivial
      · exact absurd (enough node rfl) (Nat.not_lt_zero _)
  | succ fuel ih =>
      rintro (- | node) enough
      · exact Runs.ret trivial
      · unfold nodeByPhandleLoop
        apply (propU32_ends bounded node _).bind
        rintro v -
        split
        · exact Runs.ret trivial
        · apply (nextNode_ends bounded node).bind
          intro found ahead
          exact ih found (rest_lt ahead (enough node rfl))

theorem nodeByPhandle_ends (phandle : Nat) :
    Runs (fun _ => True) IsPanic (fun _ => True) (nodeByPhandle fdt phandle) := by
  unfold nodeByPhandle
  apply (firstNode_ends bounded).bind
  intro found ahead
  apply nodeByPhandleLoop_ends bounded
  intro node mem
  obtain ⟨inside, moved⟩ := ahead node mem
  unfold tokenBound
  omega

end

/-- The loop of `dtb_init` hands the node and the facts to a consumer, in its run from the
node found first. -/
inductive Consumes (fdt : Fdt) : Option Node → Dtb → Node → Dtb → Prop
  | here {node : Node} {dtb : Dtb} : Consumes fdt (some node) dtb node dtb
  | later {node last : Node} {found : Option Node} {dtb dtb' dtb'' : Dtb}
      (parsed : (parseNode fdt node dtb).result = .ok dtb')
      (next : (nextNode fdt node).result = .ok found)
      (rest : Consumes fdt found dtb' last dtb'') : Consumes fdt (some node) dtb last dtb''

/-- The stop is a panic, or a consumer has stopped with it in this run. -/
def StopsConsumer (fdt : Fdt) (found : Option Node) (dtb : Dtb) (e : Stop) : Prop :=
  IsPanic e ∨ ∃ node dtb', Consumes fdt found dtb node dtb' ∧
    (parseNode fdt node dtb').result = .error e

theorem dtbInitLoop_ends (bounded : fdt.Bounded) (fuel : Nat) :
    ∀ (found : Option Node) (dtb : Dtb), (∀ node ∈ found, fdt.structEnd - node.props < fuel) →
    Runs (fun _ => True) (StopsConsumer fdt found dtb) (fun _ => True)
      (dtbInitLoop fdt fuel found dtb) := by
  induction fuel with
  | zero =>
      rintro (- | node) dtb enough
      · exact Runs.ret trivial
      · exact absurd (enough node rfl) (Nat.not_lt_zero _)
  | succ fuel ih =>
      rintro (- | node) dtb enough
      · exact Runs.ret trivial
      · unfold dtbInitLoop
        have consumes : Runs (fun _ => True) (StopsConsumer fdt (some node) dtb)
            (fun dtb' => (parseNode fdt node dtb).result = .ok dtb') (parseNode fdt node dtb) :=
          ⟨fun _ _ => trivial, fun e stops => .inr ⟨node, dtb, .here, stops⟩, fun _ => id⟩
        apply consumes.bind
        intro dtb' parsed
        have moves : Runs (fun _ => True) (StopsConsumer fdt (some node) dtb)
            (fun found => Ahead fdt node.props found ∧ (nextNode fdt node).result = .ok found)
            (nextNode fdt node) :=
          (nextNode_ends bounded node).and_result.mono (fun _ => id) (fun _ => .inl) fun _ => id
        apply moves.bind
        rintro found ⟨ahead, next⟩
        apply (ih found dtb' (rest_lt ahead (enough node rfl))).mono (fun _ => id) ?_ fun _ => id
        rintro e (panics | ⟨last, dtb'', consumed, stops⟩)
        · exact .inl panics
        · exact .inr ⟨last, dtb'', .later parsed next consumed, stops⟩

/-- Every walk over the tree ends, from every node. -/
structure WalksEnd (fdt : Fdt) : Prop where
  forward : ∀ p tag q, (nextTag fdt p).result = .ok (tag, q) → p < q
  past : ∀ p, fdt.structEnd ≤ p → (nextTag fdt p).result = .error (.panic .noEnd)
  nextNode : ∀ node, Ends (nextNode fdt node)
  getprop : ∀ node key, Ends (getprop fdt node key)
  nextSubnode : ∀ parent child, Ends (nextSubnode fdt parent child)
  nodeByPhandle : ∀ phandle, Ends (nodeByPhandle fdt phandle)
  firstNode : Ends (firstNode fdt)
  dtbInit : ∀ first dtb, (DeviceTree.firstNode fdt).result = .ok first → ∀ e,
    (dtbInitLoop fdt (tokenBound fdt fdt.structStart) first dtb).result = .error e →
    StopsConsumer fdt first dtb e

/-- Whatever blob `fdt_open` accepts, the walks over it end. -/
theorem walks_end {memory : Memory} {blob : Nat} (physical : blob < 2 ^ 52)
    (opens : (fdtOpen memory blob).result = .ok fdt) : WalksEnd fdt := by
  have bounded := fdtOpen_bounded physical opens
  constructor
  case forward =>
    intro p tag q returns
    have moved := ((nextTag_forward bounded p).ok _ returns).2
    simp only at moved
    omega
  case past =>
    intro p past
    rw [nextTag_past past]
    rfl
  case nextNode => exact fun node => (nextNode_ends bounded node).error
  case getprop => exact fun node key => (getprop_ends bounded node key).error
  case nextSubnode => exact fun parent child => (nextSubnode_ends bounded parent child).error
  case nodeByPhandle => exact fun phandle => (nodeByPhandle_ends bounded phandle).error
  case firstNode => exact (firstNode_ends bounded).error
  case dtbInit =>
    intro first dtb returns
    have ahead := (firstNode_ends bounded).ok _ returns
    exact (dtbInitLoop_ends bounded _ first dtb (rest_lt ahead (by unfold tokenBound; omega))).error

/-- A tree whose property has a length that is rounded to zero. -/
theorem walks_end_rounded :
    WalksEnd (treeOf 0x40000000 (be32 FDT_PROP ++ be32 0xFFFFFFFF ++ be32 0) [0]) :=
  walks_end (by decide) (fdtOpen_treeOf (by decide) (by decide))

end DeviceTree

end Av6
