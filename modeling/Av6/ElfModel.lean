import Av6.PmapModel
import Mathlib.Algebra.Group.Nat.Hom

/-!
# The ELF loader

`loadelf` and `load_segment` of `kern/exec.c`.  The image is what the kernel was linked with;
pointers into it are offsets in 64 bits, and what lies outside of it is whatever the kernel
finds there.  A watched loader stops at the first read outside of the image.
-/

namespace Av6

namespace Elf

open FallibleState Kmem Pmap

/-- An object of the program: its bytes, by offset, and its size. -/
structure Image where
  bytes : Nat → UInt8
  size : Nat
  size_lt : size < 2 ^ 63

/-- The byte at an offset, in 64 bits. -/
def Image.byte (image : Image) (off : Nat) : Nat := (image.bytes (off % 2 ^ 64)).toNat

/-- A little-endian field of `n` bytes. -/
def Image.field (image : Image) : Nat → Nat → Nat
  | _, 0 => 0
  | off, n + 1 => image.byte off + 2 ^ 8 * image.field (off + 1) n

/-- All bytes of a range are bytes of the image. -/
def Image.Inside (image : Image) (off len : Nat) : Prop :=
  ∀ k < len, (off + k) % 2 ^ 64 < image.size

instance (image : Image) (off len : Nat) : Decidable (image.Inside off len) :=
  inferInstanceAs (Decidable (∀ k < len, _))

/-- `sizeof(struct elfhdr)` -/
def ELFHDR_SIZE : Nat := 64

/-- `sizeof(struct proghdr)` -/
def PROGHDR_SIZE : Nat := 56

def ELFMAG : List Nat := [0x7F, 0x45, 0x4C, 0x46]

def ELFCLASS64 : Nat := 2

def ELFDATA2LSB : Nat := 1

def EM_AARCH64 : Nat := 183

def ET_EXEC : Nat := 2

def PT_LOAD : Nat := 1

/-- The fields of `struct elfhdr` that the loader uses. -/
structure Elfhdr where
  magic : List Nat
  «class» : Nat
  data : Nat
  type : Nat
  machine : Nat
  entry : Nat
  phoff : Nat
  phentsize : Nat
  phnum : Nat

def Image.elfhdr (image : Image) : Elfhdr where
  magic := [image.byte 0, image.byte 1, image.byte 2, image.byte 3]
  «class» := image.byte 4
  data := image.byte 5
  type := image.field 16 2
  machine := image.field 18 2
  entry := image.field 24 8
  phoff := image.field 32 8
  phentsize := image.field 54 2
  phnum := image.field 56 2

/-- The fields of `struct proghdr` that the loader uses. -/
structure Proghdr where
  type : Nat
  off : Nat
  vaddr : Nat
  filesz : Nat
  memsz : Nat

def Image.proghdr (image : Image) (start : Nat) : Proghdr where
  type := image.field start 4
  off := image.field (start + 8) 8
  vaddr := image.field (start + 16) 8
  filesz := image.field (start + 32) 8
  memsz := image.field (start + 40) 8

/-- The address after a segment, in 64 bits. -/
def Proghdr.stop (ph : Proghdr) : Nat := (ph.vaddr + ph.memsz) % 2 ^ 64

/-- The rounds of the loop over the pages of a segment. -/
def Proghdr.rounds (ph : Proghdr) : Nat := (ph.stop - ph.vaddr + (PGSIZE - 1)) / PGSIZE

section

variable (image : Image) (watched : Bool)

/-- The bytes of a range are read. -/
def readRange (off len : Nat) : Vm Unit :=
  check (watched → image.Inside off len) (.imageOutside off len)

/-- `memcpy` from the image to a page. -/
def fillPage (memory : Memory) (page src len : Nat) : Memory := fun q off =>
  if q = page ∧ off < len then image.bytes ((src + off) % 2 ^ 64) else memory q off

/-- The bytes that go from the file to one page. -/
def copyNow (remaining : Nat) : Nat := if remaining < PGSIZE then remaining else PGSIZE

/-- The bytes of the file that belong to a page are copied to it. -/
def copyFile (page src remaining : Nat) : Vm Unit :=
  if 0 < remaining then do
    readRange image watched src (copyNow remaining)
    modify fun s => { s with memory := fillPage image s.memory page src (copyNow remaining) }
  else return ()

/-- The loop of `load_segment`; `remaining` is what is left of the file range at `src`. -/
def segmentLoop (pagetable : Nat) : Nat → Nat → Nat → Nat → Vm Bool
  | 0, _, _, _ => return true
  | rounds + 1, va, src, remaining => do
      match ← allocPage with
      | none => return false
      | some page => do
          modify fun s => { s with memory := zeroPage s.memory page }
          copyFile image watched page src remaining
          if ← mappages pagetable (USER_BASE + va) (kvaToPa page) PGSIZE PAGE_USER then
            segmentLoop pagetable rounds (va + PGSIZE) ((src + copyNow remaining) % 2 ^ 64)
              (remaining - copyNow remaining)
          else do
            freePage page
            return false

/-- `load_segment`; `false` is the return value -1. -/
def loadSegment (pagetable src : Nat) (ph : Proghdr) : Vm Bool := do
  if ph.vaddr % PGSIZE ≠ 0 then return false
  else if ph.memsz < ph.filesz then return false
  else segmentLoop image watched pagetable ph.rounds ph.vaddr src ph.filesz

/-- The loop of `loadelf` over the program headers, from the header `i` on. -/
def loadLoop (pagetable phoff phentsize : Nat) : Nat → Nat → Nat → Vm (Option Nat)
  | 0, _, maxEnd => return some maxEnd
  | left + 1, i, maxEnd => do
      let phOff := (phoff + i * phentsize) % 2 ^ 64
      if image.size < (phOff + PROGHDR_SIZE) % 2 ^ 64 then return none
      else do
        readRange image watched phOff 4
        let ph := image.proghdr phOff
        if ph.type ≠ PT_LOAD then loadLoop pagetable phoff phentsize left (i + 1) maxEnd
        else do
          readRange image watched (phOff + 40) 8
          readRange image watched (phOff + 32) 8
          if ph.memsz < ph.filesz then return none
          else do
            readRange image watched (phOff + 16) 8
            if ph.stop < ph.vaddr then return none
            else if MAXUVA < ph.stop then return none
            else do
              readRange image watched (phOff + 8) 8
              if image.size < (ph.off + ph.filesz) % 2 ^ 64 then return none
              else if ← loadSegment image watched pagetable ph.off ph then
                loadLoop pagetable phoff phentsize left (i + 1) (max maxEnd ph.stop)
              else return none

/-- `loadelf`: the entry point and the size, or `none` for the return value -1. -/
def loadelf (pagetable : Nat) : Vm (Option (Nat × Nat)) := do
  if image.size < ELFHDR_SIZE then return none
  else do
    let eh := image.elfhdr
    readRange image watched 0 6
    if eh.magic ≠ ELFMAG then return none
    else if eh.class ≠ ELFCLASS64 then return none
    else if eh.data ≠ ELFDATA2LSB then return none
    else do
      readRange image watched 18 2
      if eh.machine ≠ EM_AARCH64 then return none
      else do
        readRange image watched 16 2
        if eh.type ≠ ET_EXEC then return none
        else do
          readRange image watched 54 2
          if eh.phentsize ≠ PROGHDR_SIZE then return none
          else do
            readRange image watched 56 2
            readRange image watched 32 8
            match ← loadLoop image watched pagetable eh.phoff eh.phentsize eh.phnum 0 0 with
            | none => return none
            | some maxEnd => do
                if maxEnd = 0 then return none
                else do
                  readRange image watched 24 8
                  return some (eh.entry, pgRoundUp maxEnd)

end

end Elf

end Av6
