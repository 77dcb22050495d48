import Av6.FdtModel
import Av6.PhysmemModel
import Mathlib.Algebra.Ring.Int.Defs

/-!
# Facts the kernel takes from the device tree

`arch/dtb.c`: one consumer for each type of node.  The static variables of the file are one
record, which every consumer updates.
-/

namespace Av6

namespace DeviceTree

def NCPU_MAX : Nat := 32

def GIC_PPI_BASE : Nat := 16

def GIC_SPI_BASE : Nat := 32

def DT_INTR_SPI : Nat := 0

def DT_INTR_PPI : Nat := 1

def DT_TIMER_PHYS_NS : Nat := 1

inductive Conduit where
  | hvc
  | smc
  deriving DecidableEq

structure Platform where
  uartBase : Nat := 0
  uartClk : Nat := 0
  uartIrq : Nat := 0
  gicdBase : Nat := 0
  gicrBase : Nat := 0
  timerIrq : Nat := 0
  deriving DecidableEq

/-- The variables of `dtb.c`; `cpuMpidr` has `ncpus` entries. -/
structure Dtb where
  cpuMpidr : List Nat
  psciConduit : Conduit := .hvc
  timerFreq : Nat := 0
  platform : Platform := {}
  rootAcells : Int := 2
  rootScells : Int := 1
  bootMpidr : Nat
  nbanks : Nat := 0
  bootFound : Bool := false
  cpuOverflow : Bool := false
  uartClkPhandle : Nat := 0
  physmem : Physmem.MemoryMap := Physmem.empty
  deriving DecidableEq

/-- A 32-bit value as an `int`. -/
def toInt32 (v : Nat) : Int := if v < 2 ^ 31 then v else v - 2 ^ 32

/-- `dtb_intid` -/
def dtbIntid (memory : Memory) (intr : Nat) : Reader Nat := do
  let type ← loadCell memory .value intr
  if type = DT_INTR_SPI then
    let n ← loadCell memory .value (advance intr 4)
    return add32 GIC_SPI_BASE n
  else if type = DT_INTR_PPI then
    let n ← loadCell memory .value (advance intr 4)
    return add32 GIC_PPI_BASE n
  else panic (.interruptType type)

/-- `dtb_parse_root` -/
def parseRoot (fdt : Fdt) (node : Node) (dtb : Dtb) : Reader Dtb := do
  let acells ← propU32 fdt node (cstring "#address-cells")
  let scells ← propU32 fdt node (cstring "#size-cells")
  return { dtb with
    rootAcells := (acells.map toInt32).getD dtb.rootAcells
    rootScells := (scells.map toInt32).getD dtb.rootScells }

/-- What `dtb_parse_cpus` does with the MPIDR of one node. -/
def addCpu (mpidr : Nat) (dtb : Dtb) : Reader Dtb :=
  if mpidr = dtb.bootMpidr then
    if dtb.bootFound then panic .duplicateCpu else return { dtb with bootFound := true }
  else if mpidr ∈ dtb.cpuMpidr.tail then panic .duplicateCpu
  else if dtb.cpuMpidr.length < NCPU_MAX then
    return { dtb with cpuMpidr := dtb.cpuMpidr ++ [mpidr] }
  else return { dtb with cpuOverflow := true }

/-- The body of the loop of `dtb_parse_cpus`. -/
def parseCpu (fdt : Fdt) (cpu : Node) (dtb : Dtb) : Reader Dtb := do
  if ← nodeIs fdt.memory cpu.name (cstring "cpu") then
    match ← getprop fdt cpu (cstring "reg") with
    | none => return dtb
    | some (reg, len) =>
        if len < 4 then return dtb
        else
          let mpidr ← if len = 4 then loadCell fdt.memory .value reg else fdt64 fdt.memory reg
          addCpu mpidr dtb
  else return dtb

/-- The loop of `dtb_parse_cpus`. -/
def parseCpusLoop (fdt : Fdt) (cpus : Node) : Nat → Option Node → Dtb → Reader Dtb
  | _, none, dtb => return dtb
  | 0, some _, _ => .stop .endless
  | fuel + 1, some cpu, dtb => do
      let dtb ← parseCpu fdt cpu dtb
      let next ← nextSubnode fdt cpus cpu
      parseCpusLoop fdt cpus fuel next dtb

/-- `dtb_parse_cpus` -/
def parseCpus (fdt : Fdt) (cpus : Node) (dtb : Dtb) : Reader Dtb := do
  let first ← firstSubnode fdt cpus
  parseCpusLoop fdt cpus (tokenBound fdt cpus.props) first dtb

/-- `physmem_hardware_region` -/
def hardwareRegion (dtb : Dtb) (base size : Nat) : Reader Dtb :=
  match dtb.physmem.hardwareRegion base size with
  | none => panic .tooManyBanks
  | some physmem => return { dtb with physmem, nbanks := dtb.nbanks + 1 }

/-- `(uint32)(root_acells + root_scells)` -/
def entryCells (dtb : Dtb) : Nat := ((dtb.rootAcells + dtb.rootScells) % 2 ^ 32).toNat

/-- The loop of `dtb_parse_memory`. -/
def parseMemoryLoop (fdt : Fdt) (reg len : Nat) : Nat → Nat → Dtb → Reader Dtb
  | 0, _, _ => .stop .endless
  | fuel + 1, off, dtb =>
      let ec := entryCells dtb
      if add32 off ec * 4 % 2 ^ 32 ≤ len then do
        let entry := advance reg (off * 4)
        let base ← fdtCells fdt.memory entry dtb.rootAcells
        let size ← fdtCells fdt.memory (advance entry (dtb.rootAcells.toNat * 4)) dtb.rootScells
        let dtb ← if size > 0 then hardwareRegion dtb base size else pure dtb
        parseMemoryLoop fdt reg len fuel (add32 off ec) dtb
      else return dtb

/-- `dtb_parse_memory` -/
def parseMemory (fdt : Fdt) (node : Node) (dtb : Dtb) : Reader Dtb := do
  match ← getprop fdt node (cstring "reg") with
  | none => return dtb
  | some (reg, len) => parseMemoryLoop fdt reg len (len + 1) 0 dtb

/-- `dtb_parse_psci` -/
def parsePsci (fdt : Fdt) (node : Node) (dtb : Dtb) : Reader Dtb := do
  match ← getprop fdt node (cstring "method") with
  | none => return dtb
  | some (method, len) =>
      if len = 0 then return dtb
      else
        let last ← loadByte fdt.memory .value (advance method (len - 1))
        if last ≠ 0 then return dtb
        else
          let smc ← strEq fdt.memory .value method (cstring "smc")
          return { dtb with psciConduit := if smc then .smc else .hvc }

/-- `dtb_parse_timer` -/
def parseTimer (fdt : Fdt) (node : Node) (dtb : Dtb) : Reader Dtb := do
  let freq ← propU32 fdt node (cstring "clock-frequency")
  let dtb := { dtb with timerFreq := freq.getD dtb.timerFreq }
  match ← getprop fdt node (cstring "interrupts") with
  | none => return dtb
  | some (intr, len) =>
      if len ≥ (DT_TIMER_PHYS_NS + 1) * 12 then
        let irq ← dtbIntid fdt.memory (advance intr (DT_TIMER_PHYS_NS * 12))
        return { dtb with platform := { dtb.platform with timerIrq := irq } }
      else return dtb

/-- The UART's base address. -/
def parseUartBase (fdt : Fdt) (node : Node) (dtb : Dtb) : Reader Dtb := do
  match ← getprop fdt node (cstring "reg") with
  | none => return dtb
  | some (reg, len) =>
      if len ≥ 16 then
        let base ← fdt64 fdt.memory reg
        return { dtb with platform := { dtb.platform with uartBase := base } }
      else return dtb

/-- The UART's clock, or the phandle of its clock. -/
def parseUartClock (fdt : Fdt) (node : Node) (dtb : Dtb) : Reader Dtb := do
  match ← propU32 fdt node (cstring "clock-frequency") with
  | some v => return { dtb with platform := { dtb.platform with uartClk := v } }
  | none =>
      match ← propU32 fdt node (cstring "clocks") with
      | some v => return { dtb with uartClkPhandle := v }
      | none => return dtb

/-- The UART's interrupt. -/
def parseUartIrq (fdt : Fdt) (node : Node) (dtb : Dtb) : Reader Dtb := do
  match ← getprop fdt node (cstring "interrupts") with
  | none => return dtb
  | some (intr, len) =>
      if len ≥ 12 then
        let irq ← dtbIntid fdt.memory intr
        return { dtb with platform := { dtb.platform with uartIrq := irq } }
      else return dtb

/-- `dtb_parse_uart` -/
def parseUart (fdt : Fdt) (node : Node) (dtb : Dtb) : Reader Dtb := do
  let dtb ← parseUartBase fdt node dtb
  let dtb ← parseUartClock fdt node dtb
  parseUartIrq fdt node dtb

/-- `dtb_parse_gic` -/
def parseGic (fdt : Fdt) (node : Node) (dtb : Dtb) : Reader Dtb := do
  match ← getprop fdt node (cstring "reg") with
  | none => return dtb
  | some (reg, len) =>
      if len ≥ 32 then
        let gicd ← fdt64 fdt.memory reg
        let gicr ← fdt64 fdt.memory (advance reg 16)
        return { dtb with platform := { dtb.platform with gicdBase := gicd, gicrBase := gicr } }
      else return dtb

/-- The consumers of the nodes below the root, in the order they are tried. -/
def consumers : List (String × (Fdt → Node → Dtb → Reader Dtb)) :=
  [("cpus", parseCpus), ("memory", parseMemory), ("psci", parsePsci), ("timer", parseTimer),
    ("pl011", parseUart), ("intc", parseGic)]

/-- The chain of tests on the name of a node below the root. -/
def parseByName (fdt : Fdt) (node : Node) (dtb : Dtb) :
    List (String × (Fdt → Node → Dtb → Reader Dtb)) → Reader Dtb
  | [] => return dtb
  | (name, parse) :: rest => do
      if ← nodeIs fdt.memory node.name (cstring name) then parse fdt node dtb
      else parseByName fdt node dtb rest

/-- The body of the loop of `dtb_init`. -/
def parseNode (fdt : Fdt) (node : Node) (dtb : Dtb) : Reader Dtb :=
  if node.depth = 0 then parseRoot fdt node dtb
  else if node.depth ≠ 1 then return dtb
  else parseByName fdt node dtb consumers

/-- The loop of `dtb_init`. -/
def dtbInitLoop (fdt : Fdt) : Nat → Option Node → Dtb → Reader Dtb
  | _, none, dtb => return dtb
  | 0, some _, _ => .stop .endless
  | fuel + 1, some node, dtb => do
      let dtb ← parseNode fdt node dtb
      let next ← nextNode fdt node
      dtbInitLoop fdt fuel next dtb

/-- The UART's clock, when the UART names it by a phandle. -/
def resolveUartClock (fdt : Fdt) (dtb : Dtb) : Reader Dtb :=
  if dtb.platform.uartClk = 0 ∧ dtb.uartClkPhandle ≠ 0 then do
    match ← nodeByPhandle fdt dtb.uartClkPhandle with
    | none => return dtb
    | some clk =>
        let freq ← propU32 fdt clk (cstring "clock-frequency")
        return { dtb with platform := { dtb.platform with
          uartClk := freq.getD dtb.platform.uartClk } }
  else return dtb

/-- `dtb_init`, on the blob that `fdt_open` has accepted, up to its messages. -/
def dtbInit (fdt : Fdt) (mpidr : Nat) : Reader Dtb := do
  let first ← firstNode fdt
  let dtb ← dtbInitLoop fdt (tokenBound fdt fdt.structStart) first
    { cpuMpidr := [mpidr], bootMpidr := mpidr }
  let dtb ← resolveUartClock fdt dtb
  if ¬ dtb.bootFound then panic .bootCpuMissing
  else if dtb.nbanks = 0 then panic .noMemory
  else if dtb.platform.uartIrq = 0 then panic .noUartInterrupt
  else if dtb.platform.timerIrq = 0 then panic .noTimerInterrupt
  else return dtb

end DeviceTree

end Av6
