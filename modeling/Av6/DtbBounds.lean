import Av6.DtbModel
import Av6.FdtBounds

/-!
# Property values

`fdt_next_tag` compares the length of a property, rounded up to cells in 32 bits, with the
rest of the structure block.  The rounding wraps for the last three lengths; for every
other length the value lies inside, and then so does all that the consumers read.
-/

namespace Av6

namespace DeviceTree

variable {fdt : Fdt} {memory : Memory} {purpose : Purpose} {p q : Nat} {tag : Tag}
  {node : Node} {dtb : Dtb}

open Traced

/-- The largest length whose rounding does not wrap. -/
def MAX_LENGTH : Nat := 0xFFFFFFFC

/-- Every property that the consumers can meet has a length that does not wrap. -/
def ShortLengths (fdt : Fdt) : Prop := ∀ tag, Property fdt tag → tag.len ≤ MAX_LENGTH

/-- Reads of values and of the names of nodes lie in the structure block. -/
def ReadsInside (fdt : Fdt) (r : Read) : Prop :=
  r.purpose = .value ∨ r.purpose = .nodeName →
    fdt.structStart ≤ r.addr ∧ r.addr < fdt.structEnd

/-- Where a value of this length may lie: the root's name and the property's header come
before it, and the block has room for whole cells. -/
structure Value (fdt : Fdt) (value len : Nat) : Prop where
  ge_start : fdt.structStart + 20 ≤ value
  fits : value + (len + 3) / 4 * 4 ≤ fdt.structEnd

theorem PropBoundary.ge_name (bounded : fdt.Bounded) (boundary : PropBoundary fdt p) :
    fdt.structStart + 8 ≤ p := by
  have size := bounded.struct_size
  induction boundary with
  | first before inside span begins =>
      have start := before.ge_start
      cases span with
      | @beginNode stop type name inside =>
          have le := name.le
          rw [align4_of_le (by omega)]
          omega
      | prop _ _ _ _ => cases begins
      | plain _ kind => cases begins; exact absurd kind (by decide)
  | next before inside span kind ih =>
      have := span.lt
      omega

theorem Property.valueInside (bounded : fdt.Bounded) (short : ShortLengths fdt)
    (property : Property fdt tag) : Value fdt tag.value tag.len := by
  have small := short tag property
  obtain ⟨type, p, q, boundary, inside, span⟩ := property
  have start := boundary.ge_name bounded
  cases span with
  | beginNode _ _ _ => cases type
  | plain _ kind => cases type; exact absurd kind (by decide)
  | prop _ header _ value =>
      rw [align4_of_le small] at value
      exact ⟨by simp only; omega, value⟩

theorem strEq_purpose (key : List UInt8) : ∀ str : Nat,
    ∀ r ∈ (strEq memory purpose str key).reads, r.purpose = purpose := by
  induction key with
  | nil =>
      intro str r mem
      rw [List.mem_singleton.mp mem]
  | cons k key ih =>
      intro str r mem
      rcases mem_reads_bind.mp mem with mem | ⟨b, -, mem⟩
      · rw [List.mem_singleton.mp mem]
      · split at mem
        · split at mem
          · simp at mem
          · exact ih _ r mem
        · simp at mem

theorem ShortLengths.allows (bounded : fdt.Bounded) (short : ShortLengths fdt) :
    Allows fdt (ReadsInside fdt) := by
  refine ⟨?_, ?_, ?_⟩
  · rintro p - r ⟨scans, -⟩ wanted
    rcases scans with eq | eq <;> rw [eq] at wanted <;> exact absurd wanted (by decide)
  · rintro tag - key r mem wanted
    rw [strEq_purpose key _ r mem] at wanted
    exact absurd wanted (by decide)
  · rintro tag property long i small -
    have value := property.valueInside bounded short
    have start := value.ge_start
    have fits := value.fits
    exact ⟨by simp only; omega, by simp only; omega⟩

section

variable {value len : Nat}

variable (bounded : fdt.Bounded)

include bounded

end

/-- Two states with the same cell counts. -/
def SameCells (dtb dtb' : Dtb) : Prop :=
  dtb'.rootAcells = dtb.rootAcells ∧ dtb'.rootScells = dtb.rootScells

theorem SameCells.trans {dtb₁ dtb₂ : Dtb} (first : SameCells dtb dtb₁)
    (second : SameCells dtb₁ dtb₂) : SameCells dtb dtb₂ :=
  ⟨second.1.trans first.1, second.2.trans first.2⟩

section

variable (bounded : fdt.Bounded) (short : ShortLengths fdt)

include bounded short

-- Where the pair's size wraps, an empty `reg` at the end of the block is read past the end.
example : ⟨.value, 0x4000003C⟩ ∈
    (parseMemory (treeOf 0x40000000 (be32 FDT_BEGIN_NODE ++ be32 0 ++ be32 FDT_PROP ++ be32 0 ++
      be32 0) [114, 101, 103, 0]) ⟨0x40000030, 0x4000002C, 1⟩
      { cpuMpidr := [], bootMpidr := 0, rootAcells := 1, rootScells := 0x3FFFFFFF }).reads := by
  decide

end

end DeviceTree

end Av6
