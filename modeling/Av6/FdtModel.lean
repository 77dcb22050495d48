import Av6.TracedReader
import Mathlib.Algebra.Group.Nat.Hom

/-!
# The flattened device tree reader

`libkern/fdt.c`.  Memory is a function from addresses to bytes, so that a read past the end of
a block finds whatever lies there, and every read is recorded with its purpose.  Pointers are
64 bits wide and lengths 32 bits, and both wrap around.  `dtb_init` runs with the MMU off:
the blob lies at a physical address, which the architecture bounds by 52 bits.
-/

namespace Av6

namespace DeviceTree

def FDT_MAGIC : Nat := 0xD00DFEED

def FDT_BEGIN_NODE : Nat := 1

def FDT_END_NODE : Nat := 2

def FDT_PROP : Nat := 3

def FDT_NOP : Nat := 4

def FDT_END : Nat := 9

def FDT_FIRST_SUPPORTED_VERSION : Nat := 0x02

def FDT_LAST_SUPPORTED_VERSION : Nat := 0x11

/-- The panics of the reader, and then those of `dtb_init`. -/
inductive Panic where
  | badMagic
  | unsupportedVersion (version : Nat)
  | blockOutside (totalsize : Nat)
  | noEnd
  | unterminatedName
  | truncatedProperty
  | nameOutside
  | valueOutside
  | unknownToken (type : Nat)
  | cellCount (n : Int)
  | interruptType (type : Nat)
  | duplicateCpu
  | tooManyBanks
  | bootCpuMissing
  | noMemory
  | noUartInterrupt
  | noTimerInterrupt
  deriving DecidableEq

/-- A run ends early in a panic; `endless` is a loop that passed its bound. -/
inductive Stop where
  | panic (why : Panic)
  | endless
  deriving DecidableEq

inductive Purpose where
  | header
  | token
  | name
  | value
  | nodeName
  deriving DecidableEq

structure Read where
  purpose : Purpose
  addr : Nat
  deriving DecidableEq

abbrev Reader := Traced Stop Read

abbrev Memory := Nat → UInt8

def panic {α : Type} (why : Panic) : Reader α := .stop (.panic why)

def add32 (a b : Nat) : Nat := (a + b) % 2 ^ 32

/-- Pointer arithmetic, in bytes. -/
def advance (p n : Nat) : Nat := (p + n) % 2 ^ 64

def loadByte (memory : Memory) (purpose : Purpose) (p : Nat) : Reader Nat :=
  .load ⟨purpose, p⟩ (memory p).toNat

/-- A little-endian load of 32 bits. -/
def load32 (memory : Memory) (purpose : Purpose) (p : Nat) : Reader Nat := do
  let b0 ← loadByte memory purpose p
  let b1 ← loadByte memory purpose (p + 1)
  let b2 ← loadByte memory purpose (p + 2)
  let b3 ← loadByte memory purpose (p + 3)
  return b0 + b1 * 2 ^ 8 + b2 * 2 ^ 16 + b3 * 2 ^ 24

/-- `fdt32`: the bytes in the other order.  The four masked parts share no bit. -/
def fdt32 (v : Nat) : Nat :=
  v % 2 ^ 8 * 2 ^ 24 + v / 2 ^ 8 % 2 ^ 8 * 2 ^ 16 + v / 2 ^ 16 % 2 ^ 8 * 2 ^ 8
    + v / 2 ^ 24 % 2 ^ 8

/-- `fdt32(*p)` -/
def loadCell (memory : Memory) (purpose : Purpose) (p : Nat) : Reader Nat := do
  let v ← load32 memory purpose p
  return fdt32 v

/-- `fdt64` -/
def fdt64 (memory : Memory) (cells : Nat) : Reader Nat := do
  let high ← loadCell memory .value cells
  let low ← loadCell memory .value (advance cells 4)
  return high * 2 ^ 32 + low

/-- `fdt_cells` -/
def fdtCells (memory : Memory) (cells : Nat) (n : Int) : Reader Nat :=
  if n = 1 then loadCell memory .value cells
  else if n = 2 then fdt64 memory cells
  else panic (.cellCount n)

def align4 (v : Nat) : Nat := add32 v 3 / 4 * 4

/-- The blob, as `fdt_open` leaves it. -/
structure Fdt where
  memory : Memory
  structStart : Nat
  structEnd : Nat
  strings : Nat
  stringsEnd : Nat

/-- The pointers that do not apply are null. -/
structure Tag where
  type : Nat
  name : Nat := 0
  value : Nat := 0
  len : Nat := 0
  deriving DecidableEq

structure Node where
  props : Nat
  name : Nat
  depth : Int
  deriving DecidableEq

/-- The loop of `fdt_namelen`, with `end - s` as its count. -/
def nameEnd (memory : Memory) (s : Nat) : Nat → Reader Nat
  | 0 => return s
  | left + 1 => do
      let b ← loadByte memory .name s
      if b ≠ 0 then nameEnd memory (s + 1) left else return s

/-- `fdt_namelen` -/
def namelen (memory : Memory) (name stop : Nat) : Reader Nat := do
  let s ← nameEnd memory name (stop - name)
  return if s < stop then add32 ((s - name) % 2 ^ 32) 1 else 0

/-- `fdt_next_tag` -/
def nextTag (fdt : Fdt) (p : Nat) : Reader (Tag × Nat) :=
  if p ≥ fdt.structEnd then panic .noEnd
  else do
    let type ← loadCell fdt.memory .token p
    let p := advance p 4
    if type = FDT_BEGIN_NODE then
      let len ← namelen fdt.memory p fdt.structEnd
      if len = 0 then panic .unterminatedName
      else return ({ type, name := p }, advance p (align4 len / 4 * 4))
    else if type = FDT_PROP then
      if advance p 8 > fdt.structEnd then panic .truncatedProperty
      else
        let len ← loadCell fdt.memory .token p
        let nameoff ← loadCell fdt.memory .token (advance p 4)
        let p := advance p 8
        if advance fdt.strings nameoff ≥ fdt.stringsEnd then panic .nameOutside
        else if advance p (align4 len) > fdt.structEnd ∨ advance p (align4 len) < p then
          panic .valueOutside
        else
          return ({ type, name := advance fdt.strings nameoff, value := p, len },
            advance p (align4 len / 4 * 4))
    else if type = FDT_END_NODE ∨ type = FDT_NOP ∨ type = FDT_END then
      return ({ type }, p)
    else panic (.unknownToken type)

/-- `fdt_open`, with the blob at `blob`. -/
def fdtOpen (memory : Memory) (blob : Nat) : Reader Fdt := do
  let magic ← loadCell memory .header blob
  if magic ≠ FDT_MAGIC then panic .badMagic
  else
    let version ← loadCell memory .header (blob + 20)
    let lastCompVersion ← loadCell memory .header (blob + 24)
    if version < FDT_FIRST_SUPPORTED_VERSION
        ∨ lastCompVersion > FDT_LAST_SUPPORTED_VERSION then
      panic (.unsupportedVersion version)
    else
      let totalsize ← loadCell memory .header (blob + 4)
      let offStruct ← loadCell memory .header (blob + 8)
      let offStrings ← loadCell memory .header (blob + 12)
      let sizeStrings ← loadCell memory .header (blob + 32)
      let sizeStruct ← loadCell memory .header (blob + 36)
      if add32 offStruct sizeStruct < offStruct ∨ add32 offStruct sizeStruct > totalsize
          ∨ add32 offStrings sizeStrings < offStrings
          ∨ add32 offStrings sizeStrings > totalsize then
        panic (.blockOutside totalsize)
      else
        return {
          memory
          structStart := advance blob offStruct
          structEnd := advance (advance blob offStruct) sizeStruct
          strings := advance blob offStrings
          stringsEnd := advance (advance blob offStrings) sizeStrings }

/-- The loop of `fdt_next_node`. -/
def nextNodeLoop (fdt : Fdt) : Nat → Nat → Int → Reader (Option Node)
  | 0, _, _ => .stop .endless
  | fuel + 1, p, depth => do
      let (tag, p) ← nextTag fdt p
      if tag.type = FDT_BEGIN_NODE then
        return some { props := p, name := tag.name, depth := depth + 1 }
      else if tag.type = FDT_END_NODE then nextNodeLoop fdt fuel p (depth - 1)
      else if tag.type = FDT_END then return none
      else nextNodeLoop fdt fuel p depth

/-- More tokens than the loops meet from `p` on, as each token takes some bytes. -/
def tokenBound (fdt : Fdt) (p : Nat) : Nat := fdt.structEnd - p + 1

/-- `fdt_next_node`; `none` is the return value 0. -/
def nextNode (fdt : Fdt) (node : Node) : Reader (Option Node) :=
  nextNodeLoop fdt (tokenBound fdt node.props) node.props node.depth

/-- `fdt_first_node` -/
def firstNode (fdt : Fdt) : Reader (Option Node) :=
  nextNode fdt { props := fdt.structStart, name := 0, depth := -1 }

/-- The loop of `fdt_next_subnode`. -/
def nextSubnodeLoop (fdt : Fdt) (parent : Node) : Nat → Node → Reader (Option Node)
  | 0, _ => .stop .endless
  | fuel + 1, child => do
      match ← nextNode fdt child with
      | none => return none
      | some child =>
          if child.depth ≤ parent.depth then return none
          else if child.depth = parent.depth + 1 then return some child
          else nextSubnodeLoop fdt parent fuel child

/-- `fdt_next_subnode` -/
def nextSubnode (fdt : Fdt) (parent child : Node) : Reader (Option Node) :=
  nextSubnodeLoop fdt parent (tokenBound fdt child.props) child

/-- `fdt_first_subnode` -/
def firstSubnode (fdt : Fdt) (parent : Node) : Reader (Option Node) :=
  nextSubnode fdt parent parent

/-- `strcmp(str, key) == 0`, where `key` is a constant of the kernel, without its NUL. -/
def strEq (memory : Memory) (purpose : Purpose) (str : Nat) : List UInt8 → Reader Bool
  | [] => do
      let b ← loadByte memory purpose str
      return b = 0
  | k :: key => do
      let b ← loadByte memory purpose str
      if b = k.toNat then
        if b = 0 then return true else strEq memory purpose (advance str 1) key
      else return false

/-- The loop of `fdt_getprop`. -/
def getpropLoop (fdt : Fdt) (key : List UInt8) : Nat → Nat → Reader (Option (Nat × Nat))
  | 0, _ => .stop .endless
  | fuel + 1, p => do
      let (tag, p) ← nextTag fdt p
      if tag.type = FDT_NOP then getpropLoop fdt key fuel p
      else if tag.type ≠ FDT_PROP then return none
      else
        let same ← strEq fdt.memory .name tag.name key
        if same then return some (tag.value, tag.len) else getpropLoop fdt key fuel p

/-- `fdt_getprop`, with the value and its length. -/
def getprop (fdt : Fdt) (node : Node) (key : List UInt8) : Reader (Option (Nat × Nat)) :=
  getpropLoop fdt key (tokenBound fdt node.props) node.props

/-- `fdt_prop_u32` -/
def propU32 (fdt : Fdt) (node : Node) (key : List UInt8) : Reader (Option Nat) := do
  match ← getprop fdt node key with
  | none => return none
  | some (value, len) =>
      if len < 4 then return none
      else
        let v ← loadCell fdt.memory .value value
        return some v

/-- The bytes of a string constant. -/
def cstring (s : String) : List UInt8 := s.toList.map fun c => c.toNat.toUInt8

/-- The loop of `fdt_node_by_phandle`. -/
def nodeByPhandleLoop (fdt : Fdt) (phandle : Nat) : Nat → Option Node → Reader (Option Node)
  | _, none => return none
  | 0, some _ => .stop .endless
  | fuel + 1, some node => do
      if (← propU32 fdt node (cstring "phandle")) = some phandle then return some node
      else
        let node ← nextNode fdt node
        nodeByPhandleLoop fdt phandle fuel node

/-- `fdt_node_by_phandle` -/
def nodeByPhandle (fdt : Fdt) (phandle : Nat) : Reader (Option Node) := do
  let node ← firstNode fdt
  nodeByPhandleLoop fdt phandle (tokenBound fdt fdt.structStart) node

/-- `fdt_node_is` -/
def nodeIs (memory : Memory) (s : Nat) : List UInt8 → Reader Bool
  | [] => do
      let b ← loadByte memory .nodeName s
      return b = 0 ∨ b = '@'.toNat
  | k :: key => do
      let b ← loadByte memory .nodeName s
      if b ≠ k.toNat then return false else nodeIs memory (advance s 1) key

end DeviceTree

end Av6
