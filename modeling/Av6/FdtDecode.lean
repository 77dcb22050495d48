import Av6.FdtTrees
import Av6.FdtWalks

/-!
# The reader on an encoded tree

Read from the start of a node's encoding, the loops of the reader pass over tokens in a way
that follows the recursion of the encoding.  Each loop is first freed of its bound.
-/

namespace Av6

namespace DeviceTree

variable {fdt : Fdt} {p q : Nat} {tag : Tag} {depth : Int} {key : List UInt8}

open Traced

/-- What `fdt_next_node` returns from `p` on. -/
def scan (fdt : Fdt) (p : Nat) (depth : Int) : Except Stop (Option Node) :=
  (nextNodeLoop fdt (tokenBound fdt p) p depth).result

/-- What `fdt_getprop` returns from `p` on. -/
def lookup (fdt : Fdt) (key : List UInt8) (p : Nat) : Except Stop (Option (Nat × Nat)) :=
  (getpropLoop fdt key (tokenBound fdt p) p).result

section

variable (bounded : fdt.Bounded)

include bounded

end

end DeviceTree

end Av6
