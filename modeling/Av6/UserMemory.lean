import Av6.ExecModel
import Av6.PmapFree
import Av6.PackedStrings

/-!
# What a user sees

The bytes at user addresses, as the page table in memory translates them, and the strings and
argument arrays that they make up.  The copies from user space find just these bytes; a write to
a page that the page table does not lead to leaves them as they are.
-/

namespace Av6

namespace Exec

open FallibleState Kmem Pmap PackedStrings

/-- The last table on the way to an address, from the table at a level. -/
def lastTable (memory : Memory) (va : Nat) : Nat → Nat → Nat → Option Nat
  | 0, _, page => some page
  | left + 1, level, page =>
      let pte := wordAt memory page (tableIndex va level)
      if isValid pte then lastTable memory va left (level + 1) (ptePage pte) else none

/-- The entry that translates a user address, or `none` if there is no translation. -/
def translate (memory : Memory) (root va : Nat) : Option Nat :=
  if va < MAXUVA then
    match lastTable memory va 3 0 root with
    | none => none
    | some table =>
        let pte := wordAt memory table (tableIndex va 3)
        if isValid pte then some pte else none
  else none

/-- The byte at a user address, or `none` if the user may not read it. -/
def userByte (memory : Memory) (root va : Nat) : Option UInt8 :=
  match translate memory root va with
  | none => none
  | some pte =>
      if pte &&& PTE_AP_RW_ALL ≠ 0 then some (memory (ptePage pte) (va % PGSIZE)) else none

/-- The bytes from a user address on. -/
def userBytes (memory : Memory) (root : Nat) : Nat → Nat → Option (List UInt8)
  | 0, _ => some []
  | len + 1, va =>
      match userByte memory root va with
      | none => none
      | some byte => (userBytes memory root len (va + 1)).map (byte :: ·)

/-- The little-endian word at a user address. -/
def userWord (memory : Memory) (root va : Nat) : Option Nat :=
  (userBytes memory root 8 va).map ofBytes

/-- At a user address there is a string, with its end. -/
structure UserString (memory : Memory) (root va : Nat) (string : List UInt8) : Prop where
  bytes : userBytes memory root string.length va = some string
  stop : userByte memory root (va + string.length) = some 0
  body : 0 ∉ string

/-- At a user address there is an array of pointers to strings, with a NULL at its end. -/
structure Argv (memory : Memory) (root uargv : Nat) (args : List (List UInt8)) : Prop where
  strings : ∀ i (less : i < args.length), ∃ uarg, userWord memory root (uargv + i * 8) = some uarg ∧
    uarg ≠ 0 ∧ UserString memory root uarg args[i]
  stop : userWord memory root (uargv + args.length * 8) = some 0

/-- The arguments of a call of `exec`: none if there is no array. -/
def ArgvOf (memory : Memory) (root uargv : Nat) (args : List (List UInt8)) : Prop :=
  if uargv = 0 then args = [] else Argv memory root uargv args

section

variable {memory memory' : Memory} {root va page level left len n : Nat} {byte : UInt8}
  {bytes string : List UInt8} {s : VmState} {live : CacheRef → Multiset Nat} {place : Place}

theorem userBytes_congr (same : ∀ va, userByte memory' root va = userByte memory root va)
    (len va : Nat) : userBytes memory' root len va = userBytes memory root len va := by
  induction len generalizing va with
  | zero => rfl
  | succ len ih =>
      unfold userBytes
      rw [same va, ih (va + 1)]

theorem userWord_congr (same : ∀ va, userByte memory' root va = userByte memory root va) (va : Nat) :
    userWord memory' root va = userWord memory root va := by
  unfold userWord
  rw [userBytes_congr same]

theorem ArgvOf.congr {uargv : Nat} {args : List (List UInt8)} (argv : ArgvOf memory root uargv args)
    (same : ∀ va, userByte memory' root va = userByte memory root va) :
    ArgvOf memory' root uargv args := by
  unfold ArgvOf at argv ⊢
  split
  · rename_i zero
    rwa [if_pos zero] at argv
  · rename_i nonzero
    rw [if_neg nonzero] at argv
    constructor
    · intro i less
      obtain ⟨uarg, found, nonnull, bytes, stop, body⟩ := argv.strings i less
      refine ⟨uarg, ?_, nonnull, ?_, ?_, body⟩
      · rw [userWord_congr same, found]
      · rw [userBytes_congr same, bytes]
      · rw [same, stop]
    · rw [userWord_congr same, argv.stop]

theorem userByte_lt (readable : userByte memory root va = some byte) : va < MAXUVA := by
  by_contra high
  unfold userByte translate at readable
  rw [if_neg high] at readable
  cases readable

theorem userBytes_succ (found : userBytes memory root (len + 1) va = some bytes) :
    ∃ byte rest, bytes = byte :: rest ∧ userByte memory root va = some byte ∧
      userBytes memory root len (va + 1) = some rest := by
  unfold userBytes at found
  cases first : userByte memory root va with
  | none =>
      rw [first] at found
      cases found
  | some byte =>
      rw [first] at found
      obtain ⟨rest, there, rfl⟩ := Option.map_eq_some_iff.mp found
      exact ⟨byte, rest, rfl, rfl, there⟩

theorem userBytes_lt (found : userBytes memory root (len + 1) va = some bytes) :
    va + len < MAXUVA := by
  induction len generalizing va bytes with
  | zero =>
      obtain ⟨byte, -, -, first, -⟩ := userBytes_succ found
      exact userByte_lt first
  | succ len ih =>
      obtain ⟨-, rest, -, -, more⟩ := userBytes_succ found
      have bound := ih more
      omega

/-- A walk that makes no tables only reads. -/
theorem walkLoop_eq (va left level page : Nat) (s : VmState) :
    walkLoop va false left level page s = .ok (lastTable s.memory va left level page, s) := by
  induction left generalizing level page with
  | zero => rfl
  | succ left ih =>
      unfold walkLoop lastTable
      rw [bind_eq_of_ok (show readPte page (tableIndex va level) s =
        .ok (wordAt s.memory page (tableIndex va level), s) from rfl)]
      dsimp only
      split
      · exact ih (level + 1) _
      · rfl

theorem userByte_none (last : lastTable memory va 3 0 root = none) :
    userByte memory root va = none := by
  unfold userByte translate
  rw [last]
  split_ifs <;> rfl

theorem translate_some {table : Nat} (small : va < MAXUVA)
    (last : lastTable memory va 3 0 root = some table) :
    translate memory root va =
      if isValid (wordAt memory table (tableIndex va 3)) then
        some (wordAt memory table (tableIndex va 3))
      else none := by
  unfold translate
  rw [if_pos small, last]

theorem userByte_some {table : Nat} (small : va < MAXUVA)
    (last : lastTable memory va 3 0 root = some table) :
    userByte memory root va =
      if isValid (wordAt memory table (tableIndex va 3)) ∧
          wordAt memory table (tableIndex va 3) &&& PTE_AP_RW_ALL ≠ 0 then
        some (memory (ptePage (wordAt memory table (tableIndex va 3))) (va % PGSIZE))
      else none := by
  unfold userByte
  rw [translate_some small last]
  generalize wordAt memory table (tableIndex va 3) = pte
  by_cases valid : isValid pte
  · rw [if_pos valid]
    by_cases access : pte &&& PTE_AP_RW_ALL ≠ 0
    · rw [if_pos ⟨valid, access⟩]
      exact if_pos access
    · rw [if_neg fun both => access both.2]
      exact if_neg access
  · rw [if_neg valid, if_neg fun both => valid both.1]

/-- An unprivileged load finds what the user sees. -/
theorem ldtrb_eq (small : va < MAXUVA) (s : VmState) :
    ldtrb root va s = .ok (userByte s.memory root va, s) := by
  have walked := walkLoop_eq va 3 0 root s
  unfold ldtrb
  cases last : lastTable s.memory va 3 0 root with
  | none =>
      rw [last] at walked
      rw [userByte_none last]
      exact bind_eq_of_ok walked
  | some table =>
      have read : readPte table (tableIndex va 3) s =
          .ok (wordAt s.memory table (tableIndex va 3), s) := rfl
      rw [last] at walked
      rw [userByte_some small last, bind_eq_of_ok walked]
      dsimp only
      rw [bind_eq_of_ok read]
      split
      · rfl
      · rfl

theorem copyinBytes_eq (small : va + len ≤ MAXUVA) (s : VmState) :
    copyinBytes root len va s = .ok (userBytes s.memory root len va, s) := by
  induction len generalizing va with
  | zero => rfl
  | succ len ih =>
      unfold copyinBytes userBytes
      rw [bind_eq_of_ok (ldtrb_eq (by omega) s)]
      cases userByte s.memory root va with
      | none => rfl
      | some byte =>
          dsimp only
          rw [bind_eq_of_ok (ih (by omega))]
          rfl

/-- `copyin` of a pointer finds the word that the user sees. -/
theorem copyin_word (found : userWord s.memory root va = some n) :
    ∃ bytes, copyin root (va % 2 ^ 64) 8 s = .ok (some bytes, s) ∧ ofBytes bytes = n := by
  obtain ⟨bytes, there, value⟩ := Option.map_eq_some_iff.mp found
  have bound := userBytes_lt there
  have same : va % 2 ^ 64 = va := by
    unfold MAXUVA at bound
    omega
  have range : userRangeOk va 8 := by
    unfold userRangeOk
    omega
  refine ⟨bytes, ?_, value⟩
  unfold copyin
  rw [same, if_neg (by omega), if_neg (not_not_intro range), copyinBytes_eq (by omega), there]

/-- The tables of a page table hold the same bytes. -/
def TablesSame (place : Place) (root : Nat) (memory memory' : Memory) : Prop :=
  ∀ level above p off, place (.table root level above) = some p → memory' p off = memory p off

/-- The pages of a page table, its tables and its leaves, hold the same bytes. -/
def TreeSame (place : Place) (root : Nat) (memory memory' : Memory) : Prop :=
  ∀ slot p off, slot.Of root → place slot = some p → memory' p off = memory p off

theorem TreeSame.tables (same : TreeSame place root memory memory') :
    TablesSame place root memory memory' :=
  fun level above p off there => same (.table root level above) p off rfl there

theorem TablesSame.lastTable_eq (same : TablesSame place root s.memory memory')
    (twins : Twins live place s s) (depth : level + left = 3)
    (there : place (pathSlot root va level) = some page) :
    lastTable memory' va left level page = lastTable s.memory va left level page := by
  induction left generalizing level page with
  | zero => rfl
  | succ left ih =>
      have word : wordAt memory' page (tableIndex va level) =
          wordAt s.memory page (tableIndex va level) :=
        wordAt_congr fun k _ => same _ _ page _ there
      have hangs := @hangs_path root va level (by omega)
      have entry := twins.forest.entry _ _ _ _ hangs there
      unfold lastTable
      dsimp only
      rw [word]
      cases below : place (pathSlot root va (level + 1)) with
      | none =>
          rw [below] at entry
          have invalid := fun valid => entry.isValid_iff.mp valid rfl
          rw [if_neg invalid, if_neg invalid]
      | some next =>
          rw [below] at entry
          have valid := entry.isValid_iff.mpr (Option.some_ne_none next)
          rw [if_pos valid, if_pos valid, entry.ptePage_eq (twins.ok.direct_of_place below)]
          exact ih (by omega) below

/-- The last table is the one that is placed there. -/
theorem lastTable_place (twins : Twins live place s s) (small : va < MAXUVA)
    (rooted : place (.table root 0 0) = some root) :
    lastTable s.memory va 3 0 root = place (pathSlot root va 3) := by
  rw [← pathSlot_zero small] at rooted
  obtain ⟨-, -, found⟩ := (walkLoop_find twins rfl rooted).self.post_of_eq (walkLoop_eq va 3 0 root s)
  exact found

/-- The translation of a user address, and the page that it leads to. -/
theorem TablesSame.translate_eq (same : TablesSame place root s.memory memory')
    (twins : Twins live place s s) (rooted : place (.table root 0 0) = some root) (va : Nat) :
    translate memory' root va = translate s.memory root va := by
  unfold translate
  by_cases small : va < MAXUVA
  · have top := rooted
    rw [← pathSlot_zero small] at top
    rw [if_pos small, if_pos small, same.lastTable_eq twins rfl top, lastTable_place twins small rooted]
    cases last : place (pathSlot root va 3) with
    | none => rfl
    | some table =>
        have word : wordAt memory' table (tableIndex va 3) = wordAt s.memory table (tableIndex va 3) :=
          wordAt_congr fun k _ => same _ _ table _ last
        dsimp only
        rw [word]
  · rw [if_neg small, if_neg small]

/-- A translation leads to a page in its place. -/
theorem translate_leaf {pte : Nat} (twins : Twins live place s s)
    (rooted : place (.table root 0 0) = some root) (found : translate s.memory root va = some pte) :
    place (leafSlot root va) = some (ptePage pte) := by
  unfold translate at found
  by_cases small : va < MAXUVA
  · rw [if_pos small, lastTable_place twins small rooted] at found
    cases last : place (pathSlot root va 3) with
    | none =>
        rw [last] at found
        cases found
    | some table =>
        have entry := twins.forest.entry _ _ _ _ (hangs_leaf root va) last
        rw [last] at found
        dsimp only at found
        split at found
        · rename_i valid
          cases found
          obtain ⟨p, leaf⟩ := Option.ne_none_iff_exists'.mp (entry.isValid_iff.mp valid)
          rw [leaf] at entry
          rw [entry.ptePage_eq (twins.ok.direct_of_place leaf), leaf]
        · cases found
  · rw [if_neg small] at found
    cases found

/-- An address whose page is in its place is translated. -/
theorem translate_of_leaf (twins : Twins live place s s) (rooted : place (.table root 0 0) = some root)
    (small : va < MAXUVA) (leaf : place (leafSlot root va) ≠ none) :
    ∃ table, place (pathSlot root va 3) = some table ∧
      translate s.memory root va = some (wordAt s.memory table (tableIndex va 3)) := by
  have hangs := hangs_leaf root va
  obtain ⟨table, last⟩ := Option.ne_none_iff_exists'.mp (twins.forest.parent _ _ _ hangs leaf)
  have found := lastTable_place twins small rooted
  have entry := twins.forest.entry _ _ _ _ hangs last
  rw [last] at found
  refine ⟨table, last, ?_⟩
  rw [translate_some small found, if_pos (entry.isValid_iff.mpr leaf)]

theorem translate_eq_none_iff (twins : Twins live place s s)
    (rooted : place (.table root 0 0) = some root) (small : va < MAXUVA) :
    translate s.memory root va = none ↔ place (leafSlot root va) = none := by
  constructor
  · intro missed
    by_contra leaf
    obtain ⟨table, -, found⟩ := translate_of_leaf twins rooted small leaf
    rw [missed] at found
    cases found
  · intro bare
    by_contra found
    obtain ⟨pte, there⟩ := Option.ne_none_iff_exists'.mp found
    rw [translate_leaf twins rooted there] at bare
    cases bare

/-- Two states of a page table, with pages in the same places where both have one. -/
theorem translate_kept {place' : Place} {t : VmState} (twins : Twins live place s s)
    (twins' : Twins live place' t t) (rooted : place (.table root 0 0) = some root)
    (rooted' : place' (.table root 0 0) = some root)
    (between : ∀ slot, place slot ≠ none → place' slot ≠ none → place' slot = place slot)
    (words : EntriesKept place place' s.memory t.memory)
    (same : place' (leafSlot root va) = none ↔ place (leafSlot root va) = none) :
    translate t.memory root va = translate s.memory root va := by
  by_cases small : va < MAXUVA
  · by_cases leaf : place (leafSlot root va) = none
    · rw [(translate_eq_none_iff twins rooted small).mpr leaf,
        (translate_eq_none_iff twins' rooted' small).mpr (same.mpr leaf)]
    · have leaf' := fun bare => leaf (same.mp bare)
      obtain ⟨table, last, found⟩ := translate_of_leaf twins rooted small leaf
      obtain ⟨table', last', found'⟩ := translate_of_leaf twins' rooted' small leaf'
      have path := between (pathSlot root va 3) (by simp [last]) (by simp [last'])
      rw [last, last'] at path
      cases path
      rw [found, found', words _ _ _ _ (hangs_leaf root va) last leaf leaf']
  · unfold translate
    rw [if_neg small, if_neg small]

/-- The user sees the same. -/
theorem TreeSame.userByte_eq (same : TreeSame place root s.memory memory')
    (twins : Twins live place s s) (rooted : place (.table root 0 0) = some root) (va : Nat) :
    userByte memory' root va = userByte s.memory root va := by
  unfold userByte
  rw [same.tables.translate_eq twins rooted]
  cases found : translate s.memory root va with
  | none => rfl
  | some pte =>
      dsimp only
      rw [same (leafSlot root va) (ptePage pte) _ rfl (translate_leaf twins rooted found)]

end

/-- A user page table, in a state in which every page has one place. -/
structure UserTree (root : Nat) (live : CacheRef → Multiset Nat) (place : Place) (s : VmState) :
    Prop where
  twins : Twins live place s s
  rooted : place (.table root 0 0) = some root

/-- A page is mapped for the user of a page table. -/
structure UserPage (root page base : Nat) (live : CacheRef → Multiset Nat) (u u' : VmState) : Prop where
  table : ∃ place, Twins live place u u' ∧ place (.table root 0 0) = some root ∧
    place (leafSlot root base) = some page ∧ Maps u.memory place root base page PAGE_USER

theorem readable_user (word : Nat) : (word ||| PAGE_USER) &&& PTE_AP_RW_ALL ≠ 0 := by
  rw [Nat.and_or_distrib_right]
  intro zero
  exact absurd (Nat.or_eq_zero_iff.mp zero).2 (by decide)

/-- The bytes of a word of a page. -/
def wordBytes (memory : Memory) (page i : Nat) : List UInt8 :=
  (List.range 8).map fun k => memory page (i * 8 + k)

theorem ofBytes_wordBytes (memory : Memory) (page i : Nat) :
    ofBytes (wordBytes memory page i) = wordAt memory page i := by
  have range : List.range 8 = [0, 1, 2, 3, 4, 5, 6, 7] := rfl
  unfold wordBytes wordAt
  rw [range]
  simp only [List.map_cons, List.map_nil, ofBytes, Nat.mul_comm i 8, Nat.add_zero]
  omega

section

variable {root page base off i : Nat} {bytes : List UInt8} {s : VmState}
  {live : CacheRef → Multiset Nat} (userPage : UserPage root page base live s s)
  (aligned : base % PGSIZE = 0) (small : base < MAXUVA)
include userPage aligned small

/-- The translation of an address in the page. -/
theorem UserPage.translate_eq (inPage : off < PGSIZE) :
    translate s.memory root (base + off) = some (kvaToPa page ||| PAGE_USER) := by
  obtain ⟨place, twins, rooted, leaf, table, last, word⟩ := userPage
  have low : base + off < MAXUVA := by
    unfold MAXUVA PGSIZE at *
    omega
  have path : pathSlot root (base + off) 3 = pathSlot root base 3 := by
    unfold pathSlot
    unfold PGSIZE at *
    simp only [Slot.table.injEq, true_and]
    omega
  have index : tableIndex (base + off) 3 = tableIndex base 3 := by
    unfold tableIndex ptShift TABLE_ENTRIES
    unfold PGSIZE at *
    omega
  have found := lastTable_place twins low rooted
  rw [path, last] at found
  rw [translate_some low found, index, word, if_pos (isValid_entry attributes_user)]

omit aligned small in
theorem UserPage.direct : Direct page := by
  obtain ⟨place, twins, -, leaf, -⟩ := userPage
  exact twins.ok.direct_of_place leaf

/-- The user sees the bytes of the page. -/
theorem UserPage.userByte_eq (inPage : off < PGSIZE) :
    userByte s.memory root (base + off) = some (s.memory page off) := by
  have rest : (base + off) % PGSIZE = off := by
    unfold PGSIZE at *
    omega
  unfold userByte
  rw [userPage.translate_eq aligned small inPage]
  dsimp only
  rw [if_pos (readable_user _), ptePage_entry userPage.direct attributes_user, rest]

theorem UserPage.userBytes_eq (holds : Holds (s.memory page) off bytes)
    (inPage : off + bytes.length ≤ PGSIZE) :
    userBytes s.memory root bytes.length (base + off) = some bytes := by
  induction bytes generalizing off with
  | nil => rfl
  | cons byte rest ih =>
      obtain ⟨first, holds'⟩ := holds_cons.mp holds
      rw [List.length_cons] at inPage
      have more := ih holds' (by omega)
      rw [List.length_cons, userBytes, userPage.userByte_eq aligned small (by omega), first]
      dsimp only
      rw [Nat.add_assoc, more]
      rfl

/-- The user sees the words of the page. -/
theorem UserPage.userWord_eq (inPage : i < TABLE_ENTRIES) :
    userWord s.memory root (base + i * 8) = some (wordAt s.memory page i) := by
  have bound : i * 8 + 8 ≤ PGSIZE := by
    unfold TABLE_ENTRIES PGSIZE at *
    omega
  have holds : Holds (s.memory page) (i * 8) (wordBytes s.memory page i) := by
    intro k less
    simp [wordBytes]
  have length : (wordBytes s.memory page i).length = 8 := by
    simp [wordBytes]
  have seen := userPage.userBytes_eq aligned small holds (by omega)
  rw [length] at seen
  unfold userWord
  rw [seen, Option.map_some, ofBytes_wordBytes]

/-- A string in the page is a string of the user. -/
theorem UserPage.userString (holds : Holds (s.memory page) off (bytes ++ [0])) (body : 0 ∉ bytes)
    (inPage : off + bytes.length < PGSIZE) : UserString s.memory root (base + off) bytes := by
  obtain ⟨there, ends⟩ := holds_append.mp holds
  refine ⟨userPage.userBytes_eq aligned small there (by omega), ?_, body⟩
  rw [Nat.add_assoc, userPage.userByte_eq aligned small inPage, (holds_cons.mp ends).1]

end

end Exec

end Av6
