import Av6.FdtTokens

/-!
# Bytes of a device tree blob

Big-endian cells as bytes, lists of bytes that memory holds at an address, and the header of
a blob of version 17.
-/

namespace Av6

namespace DeviceTree

variable {memory : Memory} {p n : Nat} {first second bytes : List UInt8}

/-- The bytes of a cell. -/
def be32 (n : Nat) : List UInt8 :=
  [UInt8.ofNat (n / 2 ^ 24), UInt8.ofNat (n / 2 ^ 16), UInt8.ofNat (n / 2 ^ 8), UInt8.ofNat n]

@[simp]
theorem be32_length (n : Nat) : (be32 n).length = 4 := rfl

/-- Memory has these bytes from `p` on. -/
def Holds (memory : Memory) (p : Nat) (bytes : List UInt8) : Prop :=
  ∀ i b, bytes[i]? = some b → memory (p + i) = b

@[simp]
theorem holds_nil : Holds memory p [] := by
  intro i b eq
  simp at eq

@[simp]
theorem holds_cons {b : UInt8} :
    Holds memory p (b :: bytes) ↔ memory p = b ∧ Holds memory (p + 1) bytes := by
  constructor
  · intro holds
    refine ⟨holds 0 b rfl, ?_⟩
    intro i c eq
    rw [Nat.add_right_comm]
    exact holds (i + 1) c eq
  · rintro ⟨head, tail⟩ i c eq
    cases i with
    | zero =>
        cases eq
        exact head
    | succ i =>
        rw [← Nat.add_assoc, Nat.add_right_comm]
        exact tail i c eq

theorem holds_append : Holds memory p (first ++ second) ↔
    Holds memory p first ∧ Holds memory (p + first.length) second := by
  induction first generalizing p with
  | nil => simp
  | cons b first ih =>
      simp only [List.cons_append, holds_cons, ih, List.length_cons]
      rw [Nat.add_assoc, Nat.add_comm 1, and_assoc]

theorem cellAt_of_holds (lt : n < 2 ^ 32) (holds : Holds memory p (be32 n)) :
    cellAt memory p = n := by
  simp only [be32, holds_cons, Nat.add_assoc, Nat.reduceAdd] at holds
  obtain ⟨b0, b1, b2, b3, -⟩ := holds
  unfold cellAt
  rw [b0, b1, b2, b3]
  simp only [UInt8.toNat_ofNat']
  omega

/-- The header of a blob of version 17. -/
def header (totalsize offStruct sizeStruct offStrings sizeStrings : Nat) : List UInt8 :=
  be32 FDT_MAGIC ++ (be32 totalsize ++ (be32 offStruct ++ (be32 offStrings ++ (be32 40 ++
    (be32 17 ++ (be32 16 ++ (be32 0 ++ (be32 sizeStrings ++ be32 sizeStruct))))))))

/-- `fdt_open` accepts such a header, whatever surrounds the blob. -/
theorem fdtOpen_of_holds {blob totalsize offStruct sizeStruct offStrings sizeStrings : Nat}
    (physical : blob < 2 ^ 52) (small : totalsize < 2 ^ 32)
    (structFits : offStruct + sizeStruct ≤ totalsize)
    (stringsFits : offStrings + sizeStrings ≤ totalsize)
    (holds : Holds memory blob (header totalsize offStruct sizeStruct offStrings sizeStrings)) :
    (fdtOpen memory blob).result = .ok {
      memory
      structStart := blob + offStruct
      structEnd := blob + offStruct + sizeStruct
      strings := blob + offStrings
      stringsEnd := blob + offStrings + sizeStrings } := by
  simp only [header, holds_append, be32_length, Nat.add_assoc, Nat.reduceAdd] at holds
  obtain ⟨magic, total, structAt, stringsAt, -, version, compatible, -, stringsLength,
    structLength⟩ := holds
  refine fdtOpen_of_header physical (cellAt_of_holds (by decide) magic) ?_ ?_
    (cellAt_of_holds small total) (cellAt_of_holds (by omega) structAt)
    (cellAt_of_holds (by omega) stringsAt) (cellAt_of_holds (by omega) stringsLength)
    (cellAt_of_holds (by omega) structLength) structFits stringsFits
  · rw [cellAt_of_holds (by decide) version]
    decide
  · rw [cellAt_of_holds (by decide) compatible]
    decide

/-- Memory with the bytes at `blob`, and zeros elsewhere. -/
def memoryOf (blob : Nat) (bytes : List UInt8) : Memory := fun a => bytes.getD (a - blob) 0

theorem holds_memoryOf (blob : Nat) (bytes : List UInt8) :
    Holds (memoryOf blob bytes) blob bytes := by
  intro i b eq
  unfold memoryOf
  rw [Nat.add_sub_cancel_left, List.getD_eq_getElem?_getD, eq]
  rfl

/-- A structure block and then a strings block, behind a header. -/
def blobOf (structs strings : List UInt8) : List UInt8 :=
  header (40 + structs.length + strings.length) 40 structs.length (40 + structs.length)
    strings.length ++ (structs ++ strings)

/-- What `fdt_open` makes of it. -/
def treeOf (blob : Nat) (structs strings : List UInt8) : Fdt :=
  { memory := memoryOf blob (blobOf structs strings)
    structStart := blob + 40
    structEnd := blob + 40 + structs.length
    strings := blob + (40 + structs.length)
    stringsEnd := blob + (40 + structs.length) + strings.length }

theorem fdtOpen_treeOf {blob : Nat} {structs strings : List UInt8} (physical : blob < 2 ^ 52)
    (small : 40 + structs.length + strings.length < 2 ^ 32) :
    (fdtOpen (treeOf blob structs strings).memory blob).result =
      .ok (treeOf blob structs strings) :=
  fdtOpen_of_holds physical small (by omega) (by omega)
    (holds_append.mp (holds_memoryOf blob (blobOf structs strings))).1

end DeviceTree

end Av6
