import Av6.FdtDecode
import Mathlib.Data.List.Forall2

/-!
# Decoding undoes encoding

The reader enumerates the nodes of an encoded tree in preorder, finds the first property of a
name among a node's own, and enumerates the direct children of a node.  The proof follows the
encoding: what the walk returns behind a list of nodes is carried through the list.
-/

namespace Av6

namespace DeviceTree

variable {fdt : Fdt} {p : Nat} {depth : Int} {key : List UInt8}

open Traced

/-- Stepping on from `first` yields these nodes one after the other, and then `last`. -/
def Enumerates (step : Node → Except Stop (Option Node)) :
    Except Stop (Option Node) → List Node → Except Stop (Option Node) → Prop
  | first, [], last => first = last
  | first, node :: nodes, last =>
      first = .ok (some node) ∧ Enumerates step (step node) nodes last

namespace Enumerates

variable {step : Node → Except Stop (Option Node)}
  {first middle last : Except Stop (Option Node)} {nodes more : List Node}

theorem append (start : Enumerates step first nodes middle)
    (rest : Enumerates step middle more last) : Enumerates step first (nodes ++ more) last := by
  induction nodes generalizing first with
  | nil =>
      cases start
      exact rest
  | cons node nodes ih => exact ⟨start.1, ih start.2⟩

end Enumerates

/-- What follows a node's name: its properties, its children and its end. -/
def body (t : Subtree) (endNops : Nat) : List UInt8 :=
  encodeProps t.props ++ (t.children.encode ++ (encodeNops endNops ++ be32 FDT_END_NODE))

/-- The node points at this part of the encoding, and the walk can go on behind it. -/
structure Located (fdt : Fdt) (node : Node) (t : Subtree) : Prop where
  depth : node.depth = t.depth
  name : Holds fdt.memory node.name (t.name ++ [0])
  above : fdt.structStart ≤ node.props
  props : ∀ e ∈ t.props, e.Stored fdt.memory fdt.strings fdt.stringsEnd
  children : t.children.Stored fdt.memory fdt.strings fdt.stringsEnd
  body : ∃ endNops, Holds fdt.memory node.props (body t endNops) ∧
    node.props + (body t endNops).length ≤ fdt.structEnd ∧
    ∃ r, scan fdt (node.props + (DeviceTree.body t endNops).length) (t.depth - 1) = .ok r

section

variable (bounded : fdt.Bounded)

include bounded

omit bounded in
theorem Located.deeper {nodes : List Node} {subtrees : List Subtree}
    (located : List.Forall₂ (Located fdt) nodes subtrees)
    (deep : ∀ t ∈ subtrees, depth ≤ t.depth) :
    ∀ node ∈ nodes, fdt.structStart ≤ node.props ∧ depth ≤ node.depth := by
  induction located with
  | nil => intro node mem; cases mem
  | cons here rest ih =>
      intro node mem
      rcases List.mem_cons.mp mem with rfl | mem
      · rw [here.depth]
        exact ⟨here.above, deep _ (by simp)⟩
      · exact ih (fun t mem => deep t (by simp [mem])) node mem

end

end DeviceTree

end Av6
