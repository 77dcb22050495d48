import Mathlib.Algebra.Group.Nat.Hom
import Mathlib.Data.List.Basic

/-!
# The physical memory map

`vm/physmem.c`: the list of RAM banks, the list of excluded ranges, and the segments that
are left when the second is subtracted from the first.  Addresses are 64 bits wide, and sums
wrap around.  The arrays are lists that are never longer than the arrays.
-/

namespace Av6

namespace Physmem

def PGSIZE : Nat := 4096

def MAX_HWCNT : Nat := 16

def MAX_EXCNT : Nat := 16

def VM_PHYSSEG_MAX : Nat := 64

/-- The sum of two 64-bit values. -/
def add64 (a b : Nat) : Nat := (a + b) % 2 ^ 64

/-- The difference of two 64-bit values. -/
def sub64 (a b : Nat) : Nat := (a + (2 ^ 64 - b)) % 2 ^ 64

/-- `PGROUNDUP` -/
def pgRoundUp (a : Nat) : Nat := add64 a (PGSIZE - 1) / PGSIZE * PGSIZE

/-- `PGROUNDDW` -/
def pgRoundDown (a : Nat) : Nat := a / PGSIZE * PGSIZE

structure Region where
  addr : Nat
  size : Nat
  deriving DecidableEq

def Region.stop (r : Region) : Nat := add64 r.addr r.size

/-- The first loop of `merge_upper`: the end that the entry grows to, and the entries it
does not reach. -/
def absorb (stop : Nat) : List Region → Nat × List Region
  | [] => (stop, [])
  | r :: rest =>
      if stop < r.addr then (stop, r :: rest)
      else absorb (if stop < r.stop then r.stop else stop) rest

/-- `merge_upper`, on the entry that has grown and those behind it. -/
def mergeUpper (r : Region) (rest : List Region) : List Region :=
  let (stop, rest) := absorb r.stop rest
  { r with size := sub64 stop r.addr } :: rest

/-- `insert_region`; `room` says whether the array has a free entry. -/
def insertRegion (room : Bool) (addr size : Nat) : List Region → Option (List Region)
  | [] => if room then some [⟨addr, size⟩] else none
  | r :: rest =>
      if addr ≤ r.stop ∧ r.addr ≤ add64 addr size then
        let start := if addr < r.addr then addr else r.addr
        let stop := if add64 addr size < r.stop then r.stop else add64 addr size
        some (mergeUpper ⟨start, sub64 stop start⟩ rest)
      else if addr < r.addr then
        if room then some (⟨addr, size⟩ :: r :: rest) else none
      else (insertRegion room addr size rest).map (r :: ·)

/-- The lists `hwregions` and `exregions`. -/
structure MemoryMap where
  hwregions : List Region
  exregions : List Region
  deriving DecidableEq

/-- `physmem_hardware_region`; there is no result when it panics. -/
def MemoryMap.hardwareRegion (m : MemoryMap) (pa size : Nat) : Option MemoryMap :=
  let start := pgRoundUp pa
  let stop := pgRoundDown (add64 pa size)
  if stop ≤ start then some m
  else (insertRegion (m.hwregions.length < MAX_HWCNT) start (sub64 stop start) m.hwregions).map
    fun hwregions => { m with hwregions }

/-- `physmem_exclude_region` -/
def MemoryMap.excludeRegion (m : MemoryMap) (pa size : Nat) : Option MemoryMap :=
  let start := pgRoundDown pa
  let stop := pgRoundUp (add64 pa size)
  if stop ≤ start then some m
  else (insertRegion (m.exregions.length < MAX_EXCNT) start (sub64 stop start) m.exregions).map
    fun exregions => { m with exregions }

/-- `add_seg`, without its limit. -/
def addSeg (start stop : Nat) : List (Nat × Nat) :=
  if stop ≤ start then [] else [(start, stop)]

/-- The inner loop of `physmem_avail`: what the exclusions leave of `[start, stop)`. -/
def clip (start stop : Nat) : List Region → List (Nat × Nat)
  | [] => addSeg start stop
  | x :: rest =>
      if x.stop ≤ start then clip start stop rest
      else if stop ≤ x.addr then addSeg start stop
      else if x.addr ≤ start then
        if stop ≤ x.stop then addSeg x.stop stop else clip x.stop stop rest
      else if stop ≤ x.stop then addSeg start x.addr
      else addSeg start x.addr ++ clip x.stop stop rest

/-- `physmem_avail`: the segments; the limit of `add_seg` is checked at the end. -/
def MemoryMap.avail (m : MemoryMap) : Option (List (Nat × Nat)) :=
  let segs := m.hwregions.flatMap fun r => clip r.addr r.stop m.exregions
  if segs.length ≤ VM_PHYSSEG_MAX then some segs else none

/-- What the boot code reports. -/
inductive Report
  | hardware (pa size : Nat)
  | exclude (pa size : Nat)
  deriving DecidableEq

def MemoryMap.report (m : MemoryMap) : Report → Option MemoryMap
  | .hardware pa size => m.hardwareRegion pa size
  | .exclude pa size => m.excludeRegion pa size

def MemoryMap.reportAll (m : MemoryMap) : List Report → Option MemoryMap
  | [] => some m
  | r :: rest => (m.report r).bind (·.reportAll rest)

/-- No bank and no exclusion. -/
def empty : MemoryMap := ⟨[], []⟩

end Physmem

end Av6
