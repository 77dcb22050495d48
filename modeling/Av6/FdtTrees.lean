import Av6.FdtEncoding

/-!
# Device trees and their encoding

An ordered tree of nodes with properties, as its first child and its next sibling, with the
number of NOP tokens before each of its tokens; its structure block; and what it is for a blob
of version 17 to encode it.
-/

namespace Av6

namespace DeviceTree

variable {memory : Memory} {blob : Nat}

/-- A property, the NOPs before it, and the offset of its name in the strings block. -/
structure Entry where
  nops : Nat
  nameoff : Nat
  name : List UInt8
  value : List UInt8

/-- A list of nodes with a common parent.  `endNops` stand before the node's `FDT_END_NODE`. -/
inductive Forest where
  | nil
  | cons (nops : Nat) (name : List UInt8) (props : List Entry) (children : Forest)
      (endNops : Nat) (siblings : Forest)

/-- One root node, with the NOPs before `FDT_END`. -/
structure Tree where
  nops : Nat
  name : List UInt8
  props : List Entry
  children : Forest
  endNops : Nat
  lastNops : Nat

def Tree.forest (t : Tree) : Forest :=
  .cons t.nops t.name t.props t.children t.endNops .nil

/-- Zeros up to the next cell. -/
def pad4 (bytes : List UInt8) : List UInt8 :=
  bytes ++ List.replicate ((bytes.length + 3) / 4 * 4 - bytes.length) 0

def encodeNops : Nat → List UInt8
  | 0 => []
  | n + 1 => be32 FDT_NOP ++ encodeNops n

def Entry.encode (e : Entry) : List UInt8 :=
  encodeNops e.nops ++ (be32 FDT_PROP ++ (be32 e.value.length ++ (be32 e.nameoff ++
    pad4 e.value)))

def encodeProps : List Entry → List UInt8
  | [] => []
  | e :: rest => e.encode ++ encodeProps rest

def Forest.encode : Forest → List UInt8
  | .nil => []
  | .cons nops name props children endNops siblings =>
      encodeNops nops ++ (be32 FDT_BEGIN_NODE ++ (pad4 (name ++ [0]) ++ (encodeProps props ++
        (children.encode ++ (encodeNops endNops ++ (be32 FDT_END_NODE ++ siblings.encode))))))

/-- The structure block. -/
def Tree.encode (t : Tree) : List UInt8 :=
  t.forest.encode ++ (encodeNops t.lastNops ++ be32 FDT_END)

/-- A node of a tree, with all that is below it. -/
structure Subtree where
  depth : Int
  name : List UInt8
  props : List Entry
  children : Forest

/-- The nodes of a list, without what is below them. -/
def Forest.roots (depth : Int) : Forest → List Subtree
  | .nil => []
  | .cons _ name props children _ siblings =>
      ⟨depth, name, props, children⟩ :: siblings.roots depth

/-- No name has a NUL, and the strings block has the names of the properties. -/
structure Entry.Stored (e : Entry) (memory : Memory) (strings stringsEnd : Nat) : Prop where
  nonzero : ∀ b ∈ e.name, b ≠ 0
  inside : strings + e.nameoff + e.name.length < stringsEnd
  holds : Holds memory (strings + e.nameoff) (e.name ++ [0])

def Forest.Stored (memory : Memory) (strings stringsEnd : Nat) : Forest → Prop
  | .nil => True
  | .cons _ name props children _ siblings =>
      (∀ b ∈ name, b ≠ 0) ∧ (∀ e ∈ props, e.Stored memory strings stringsEnd) ∧
        children.Stored memory strings stringsEnd ∧ siblings.Stored memory strings stringsEnd

/-- A blob of version 17 for the tree: a header, its structure block and the names, at any
offsets and with anything between them. -/
structure Encodes (memory : Memory) (blob : Nat) (t : Tree) (fdt : Fdt) : Prop where
  physical : blob < 2 ^ 52
  header : ∃ totalsize offStruct sizeStruct offStrings sizeStrings,
    Holds memory blob (header totalsize offStruct sizeStruct offStrings sizeStrings) ∧
    totalsize < 2 ^ 32 ∧ offStruct + sizeStruct ≤ totalsize ∧
    offStrings + sizeStrings ≤ totalsize ∧ sizeStruct = t.encode.length ∧
    fdt = ⟨memory, blob + offStruct, blob + offStruct + sizeStruct, blob + offStrings,
      blob + offStrings + sizeStrings⟩
  structBlock : Holds memory fdt.structStart t.encode
  names : t.forest.Stored memory fdt.strings fdt.stringsEnd

theorem Encodes.opens {t : Tree} {fdt : Fdt} (encodes : Encodes memory blob t fdt) :
    (fdtOpen memory blob).result = .ok fdt := by
  obtain ⟨totalsize, offStruct, sizeStruct, offStrings, sizeStrings, holds, small, structFits,
    stringsFits, -, rfl⟩ := encodes.header
  exact fdtOpen_of_holds encodes.physical small structFits stringsFits holds

theorem Encodes.extent {t : Tree} {fdt : Fdt} (encodes : Encodes memory blob t fdt) :
    fdt.memory = memory ∧ fdt.structEnd = fdt.structStart + t.encode.length := by
  obtain ⟨totalsize, offStruct, sizeStruct, offStrings, sizeStrings, -, -, -, -, rfl, rfl⟩ :=
    encodes.header
  exact ⟨rfl, rfl⟩

end DeviceTree

end Av6
