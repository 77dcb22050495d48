import Av6.A64Subset
import Av6.ElfModel

/-!
# exec

`exec` of `kern/exec.c`, with the copies from user space of `arch/copy.c` and
`arch/copy_user.s`.  The addresses of the caller are translated by its own page table, as the
processor does it; a byte that is not mapped for the user is a fault, and the copy returns -1.
The process and TTBR0 are not part of the memory: `exec` on the memory says what goes into them,
and `execProc` puts it there.
-/

namespace Av6

namespace Exec

open FallibleState Kmem Pmap Elf

def MAXARG : Nat := 32

/-- `PTE_AP_RW_ALL` -/
def PTE_AP_RW_ALL : Nat := 1 <<< 6

/-- `user_range_ok` -/
def userRangeOk (user len : Nat) : Prop := user < MAXUVA ∧ len ≤ MAXUVA - user

instance (user len : Nat) : Decidable (userRangeOk user len) :=
  inferInstanceAs (Decidable (_ ∧ _))

/-- `ldtrb`: the byte at a user address, or `none` for a fault. -/
def ldtrb (pagetable va : Nat) : Vm (Option UInt8) := do
  match ← walkLoop va false 3 0 pagetable with
  | none => return none
  | some table => do
      let pte ← readPte table (tableIndex va 3)
      if isValid pte ∧ pte &&& PTE_AP_RW_ALL ≠ 0 then do
        let s ← get
        return some (s.memory (ptePage pte) (va % PGSIZE))
      else return none

/-- `_copyin_bytes`: the bytes copied. -/
def copyinBytes (pagetable : Nat) : Nat → Nat → Vm (Option (List UInt8))
  | 0, _ => return some []
  | len + 1, src => do
      match ← ldtrb pagetable src with
      | none => return none
      | some byte => do
          let rest ← copyinBytes pagetable len (src + 1)
          return rest.map (byte :: ·)

/-- `copyin`; `none` is the return value -1. -/
def copyin (pagetable src len : Nat) : Vm (Option (List UInt8)) := do
  if len = 0 then return some []
  else if ¬ userRangeOk src len then return none
  else copyinBytes pagetable len src

def setByte (memory : Memory) (page dst : Nat) (byte : UInt8) : Memory := fun q off =>
  if q = page ∧ off = dst then byte else memory q off

/-- `_copyinstr_bytes`, to a page: the length without the end. -/
def copyinstrBytes (pagetable page : Nat) : Nat → Nat → Nat → Vm (Option Nat)
  | 0, _, _ => return none
  | max + 1, dst, src => do
      match ← ldtrb pagetable src with
      | none => return none
      | some byte => do
          modify fun s => { s with memory := setByte s.memory page dst byte }
          if byte = 0 then return some 0
          else do
            let len ← copyinstrBytes pagetable page max (dst + 1) (src + 1)
            return len.map (· + 1)

/-- `copyinstr`; `none` is the return value -1. -/
def copyinstr (pagetable page dst src max : Nat) : Vm (Option Nat) := do
  if max = 0 then return none
  else if ¬ userRangeOk src max then return none
  else copyinstrBytes pagetable page max dst src

/-- A little-endian number. -/
def ofBytes : List UInt8 → Nat
  | [] => 0
  | byte :: rest => byte.toNat + 2 ^ 8 * ofBytes rest

/-- The loop of `exec` that copies the arguments, to the scratch page: their number and the
bytes used, or `none` where it goes to `bad`. -/
def argLoop (pagetable argbuf uargv : Nat) : Nat → Nat → Nat → Vm (Option (Nat × Nat))
  | 0, _, _ => return none
  | left + 1, argc, pos => do
      match ← copyin pagetable ((uargv + argc * 8) % 2 ^ 64) 8 with
      | none => return none
      | some bytes => do
          if ofBytes bytes = 0 then return some (argc, pos)
          else
            match ← copyinstr pagetable argbuf pos (ofBytes bytes) (PGSIZE - pos) with
            | none => return none
            | some slen => argLoop pagetable argbuf uargv left (argc + 1) (pos + slen + 1)

/-- `strlen`, in the bytes from `off` on; it looks at no more than `fuel` of them. -/
def strlen (bytes : Nat → UInt8) : Nat → Nat → Nat
  | 0, _ => 0
  | fuel + 1, off => if bytes off = 0 then 0 else strlen bytes fuel (off + 1) + 1

/-- `memcpy` of bytes from the start of a page. -/
def copyBytes (memory : Memory) (dst off src len : Nat) : Memory := fun q k =>
  if q = dst ∧ off ≤ k ∧ k < off + len then memory src (k - off) else memory q k

/-- The loop of `exec` that writes the argument pointers, from the argument `i` on. -/
def pointerLoop (stack w strbase argbuf : Nat) : Nat → Nat → Nat → Vm Unit
  | 0, _, _ => return ()
  | left + 1, i, off => do
      writePte stack (w + 1 + i) (strbase + off)
      let s ← get
      pointerLoop stack w strbase argbuf left (i + 1)
        (off + strlen (s.memory argbuf) PGSIZE off + 1)

/-- What `exec` leaves in the process. -/
structure Loaded where
  pagetable : Nat
  sz : Nat
  entry : Nat
  sp : Nat

/-- `kpage_free(argbuf)`, if there is a scratch page. -/
def freeArgbuf : Option Nat → Vm Unit
  | none => return ()
  | some argbuf => freePage argbuf

/-- `bad` of `exec` -/
def bad (argbuf : Option Nat) (newPagetable : Nat) : Vm (Option Loaded) := do
  freeArgbuf argbuf
  uvmfree newPagetable
  return none

/-- `exec` from the layout of the stack on; without a scratch page there are no arguments. -/
def layout (oldPagetable newPagetable stack newSz entry : Nat) (argbuf : Option Nat)
    (argc pos : Nat) : Vm (Option Loaded) := do
  let strbase := (newSz + PGSIZE - pos) / 16 * 16
  match argbuf with
  | none => pure ()
  | some src =>
      modify fun s => { s with memory := copyBytes s.memory stack (strbase - newSz) src pos }
  let infosz := (argc + 5) * 8
  let sp := (strbase - infosz) / 16 * 16
  if sp < newSz then bad argbuf newPagetable
  else do
    let w := (sp - newSz) / 8
    writePte stack w argc
    match argbuf with
    | none => pure ()
    | some src => pointerLoop stack w strbase src argc 0 0
    writePte stack (w + 1 + argc) 0
    writePte stack (w + 2 + argc) 0
    writePte stack (w + 3 + argc) 0
    writePte stack (w + 4 + argc) 0
    freeArgbuf argbuf
    uvmfree oldPagetable
    return some ⟨newPagetable, newSz + PGSIZE, entry, sp⟩

/-- `exec` from the arguments on. -/
def arguments (oldPagetable newPagetable stack newSz entry uargv : Nat) : Vm (Option Loaded) := do
  if uargv = 0 then layout oldPagetable newPagetable stack newSz entry none 0 0
  else
    match ← allocPage with
    | none => bad none newPagetable
    | some argbuf => do
        match ← argLoop oldPagetable argbuf uargv MAXARG 0 0 with
        | none => bad (some argbuf) newPagetable
        | some (argc, pos) =>
            layout oldPagetable newPagetable stack newSz entry (some argbuf) argc pos

/-- `exec` of an image that was found; `none` is the return value -1. -/
def execImage (image : Image) (oldPagetable uargv : Nat) : Vm (Option Loaded) := do
  match ← uvmcreate with
  | none => return none
  | some newPagetable => do
      match ← loadelf image false newPagetable with
      | none => do
          uvmfree newPagetable
          return none
      | some (entry, newSz) => do
          match ← allocPage with
          | none => do
              uvmfree newPagetable
              return none
          | some stack => do
              modify fun s => { s with memory := zeroPage s.memory stack }
              if ← mappages newPagetable (USER_BASE + newSz) (kvaToPa stack) PGSIZE PAGE_USER then
                arguments oldPagetable newPagetable stack newSz entry uargv
              else do
                freePage stack
                uvmfree newPagetable
                return none

/-- `exec`: the path is looked up in the table of embedded programs. -/
def exec (programs : List (String × Image)) (path : String) (oldPagetable uargv : Nat) :
    Vm (Option Loaded) :=
  match programs.find? fun program => program.1 = path with
  | none => return none
  | some program => execImage program.2 oldPagetable uargv

/-- `struct trapframe` -/
structure Trapframe where
  x : Fin 31 → Nat
  sp : Nat
  elr : Nat
  spsr : Nat
  tpidr : Nat

/-- The fields of `struct proc` that `exec` uses; the page table is named by its page. -/
structure Proc where
  pagetable : Nat
  sz : Nat
  tf : Trapframe
  name : List Char
  asidCtx : Nat

/-- The memory, the calling process, and TTBR0 of the CPU that it runs on. -/
structure ExecState where
  vm : VmState
  proc : Proc
  ttbr0 : Nat
  asidNumTotal : Nat

/-- `asid_num`; the mask is one less than a power of two. -/
def asidNum (s : ExecState) : Nat := s.proc.asidCtx % s.asidNumTotal

/-- What `switchuvm` loads into TTBR0. -/
def switchuvm (asid pagetable : Nat) : Nat := asid <<< 48 ||| kvaToPa pagetable

/-- The loop over the path: what comes after the last slash. -/
def basename (base : List Char) : List Char → List Char
  | [] => base
  | c :: rest => basename (if c = '/' then rest else base) rest

/-- `strncpy` of 15 characters to `p->name`, and the NUL after them. -/
def procName (path : String) : List Char :=
  (basename path.toList path.toList ++ List.replicate 15 '\x00').take 15 ++ ['\x00']

/-- The second phase of `exec`, on the process and TTBR0. -/
def install (path : String) (loaded : Loaded) (s : ExecState) : ExecState :=
  { s with
    proc := { s.proc with
      pagetable := loaded.pagetable
      sz := loaded.sz
      tf := { x := fun _ => 0, sp := loaded.sp, elr := loaded.entry, spsr := 0, tpidr := 0 }
      name := procName path }
    ttbr0 := switchuvm (asidNum s) loaded.pagetable }

/-- `exec`, called by the process: the return value. -/
def execProc (programs : List (String × Image)) (path : String) (uargv : Nat) :
    StateT ExecState (Except Pmap.Panic) Int := do
  let s ← get
  match ← onPart ExecState.vm (fun s vm => { s with vm }) id
      (exec programs path s.proc.pagetable uargv) with
  | none => return -1
  | some loaded => do
      modify (install path loaded)
      return 0

end Exec

end Av6
