import Av6.UserMemory

/-!
# What a user stores

A store through a page table changes a byte of a page that the page table leads to.  The pages
of two page tables have different places, so that neither user sees what the other one stores.
-/

namespace Av6

namespace Exec

open FallibleState Kmem Pmap

/-- `PTE_AP_RO_ALL` -/
def PTE_AP_RO_ALL : Nat := 3 <<< 6

/-- Of the two bits of `AP`, the one for EL0 is set and the one for read-only is not. -/
def isWritable (pte : Nat) : Prop := pte &&& PTE_AP_RO_ALL = PTE_AP_RW_ALL

instance (pte : Nat) : Decidable (isWritable pte) :=
  inferInstanceAs (Decidable (_ = _))

/-- A store of the user to an address; a fault changes nothing. -/
def userStore (memory : Memory) (root va : Nat) (byte : UInt8) : Memory :=
  match translate memory root va with
  | none => memory
  | some pte =>
      if isWritable pte then setByte memory (ptePage pte) (va % PGSIZE) byte else memory

/-- A store through one of several page tables. -/
structure Store where
  root : Nat
  va : Nat
  byte : UInt8

/-- Stores, one after the other. -/
def userStores (memory : Memory) (stores : List Store) : Memory :=
  stores.foldl (fun memory store => userStore memory store.root store.va store.byte) memory

variable {s : VmState} {live : CacheRef → Multiset Nat} {place : Place} {m m' : Memory}
  {root other va : Nat} {byte : UInt8}

/-- Two memories in which the page tables are as in a state, and that hold the same in the pages
of one of them. -/
structure SeenSame (place : Place) (root : Nat) (memory m m' : Memory) : Prop where
  tables : ∀ r, TablesSame place r memory m
  tables' : ∀ r, TablesSame place r memory m'
  pages : ∀ v p off, place (.leaf root v) = some p → m' p off = m p off

theorem userStore_apply_of_ne {p off : Nat}
    (outside : ∀ pte, translate m root va = some pte → p ≠ ptePage pte) :
    userStore m root va byte p off = m p off := by
  unfold userStore
  cases found : translate m root va with
  | none => rfl
  | some pte =>
      dsimp only
      split
      · exact if_neg fun both => outside pte found both.1
      · rfl

section

variable (twins : Twins live place s s)
include twins

/-- A store leaves the tables as they are. -/
theorem TablesSame.userStore {r : Nat} (same : TablesSame place root s.memory m)
    (same' : TablesSame place r s.memory m) (rooted : place (.table root 0 0) = some root) :
    TablesSame place r s.memory (userStore m root va byte) := by
  intro level above p off there
  rw [userStore_apply_of_ne, same' level above p off there]
  rintro pte found rfl
  rw [same.translate_eq twins rooted] at found
  cases twins.ok.unique there (translate_leaf twins rooted found)

/-- A store through another page table is not seen. -/
theorem SeenSame.skip (seen : SeenSame place root s.memory m m')
    (rooted : place (.table other 0 0) = some other) (apart : other ≠ root) :
    SeenSame place root s.memory (userStore m other va byte) m' := by
  refine ⟨fun r => (seen.tables other).userStore twins (seen.tables r) rooted, seen.tables', ?_⟩
  intro v p off there
  rw [userStore_apply_of_ne, seen.pages v p off there]
  rintro pte found rfl
  rw [(seen.tables other).translate_eq twins rooted] at found
  cases twins.ok.unique there (translate_leaf twins rooted found)
  exact apart rfl

/-- A store through the page table is seen in both memories. -/
theorem SeenSame.store (seen : SeenSame place root s.memory m m')
    (rooted : place (.table root 0 0) = some root) :
    SeenSame place root s.memory (userStore m root va byte) (userStore m' root va byte) := by
  refine ⟨fun r => (seen.tables root).userStore twins (seen.tables r) rooted,
    fun r => (seen.tables' root).userStore twins (seen.tables' r) rooted, ?_⟩
  intro v p off there
  unfold userStore
  rw [(seen.tables root).translate_eq twins rooted, (seen.tables' root).translate_eq twins rooted]
  cases translate s.memory root va with
  | none => exact seen.pages v p off there
  | some pte =>
      dsimp only
      split
      · unfold setByte
        rw [seen.pages v p off there]
      · exact seen.pages v p off there

theorem SeenSame.userByte_eq (seen : SeenSame place root s.memory m m')
    (rooted : place (.table root 0 0) = some root) (va : Nat) :
    userByte m' root va = userByte m root va := by
  unfold userByte
  rw [(seen.tables' root).translate_eq twins rooted, (seen.tables root).translate_eq twins rooted]
  split
  · rfl
  · rename_i pte found
    rw [seen.pages (va / PGSIZE) (ptePage pte) _ (translate_leaf twins rooted found)]

/-- Of any stores through page tables, only those through its own are seen by a user. -/
theorem SeenSame.stores {stores : List Store} (seen : SeenSame place root s.memory m m')
    (rooted : place (.table root 0 0) = some root)
    (roots : ∀ store ∈ stores, place (.table store.root 0 0) = some store.root) :
    SeenSame place root s.memory (userStores m stores)
      (userStores m' (stores.filter fun store => store.root = root)) := by
  induction stores generalizing m m' with
  | nil => exact seen
  | cons store rest ih =>
      have first := roots store (List.mem_cons_self ..)
      have others : ∀ store ∈ rest, place (.table store.root 0 0) = some store.root :=
        fun store member => roots store (List.mem_cons_of_mem _ member)
      by_cases own : store.root = root
      · rw [List.filter_cons_of_pos (by simpa using own)]
        subst own
        exact ih (seen.store twins rooted) others
      · rw [List.filter_cons_of_neg (by simpa using own)]
        exact ih (seen.skip twins first own) others

/-- Users with different page tables do not see each other's stores. -/
theorem userByte_stores (rooted : place (.table root 0 0) = some root) (stores : List Store)
    (roots : ∀ store ∈ stores, place (.table store.root 0 0) = some store.root) (va : Nat) :
    userByte (userStores s.memory stores) root va =
      userByte (userStores s.memory (stores.filter fun store => store.root = root)) root va := by
  have start : SeenSame place root s.memory s.memory s.memory :=
    ⟨fun _ _ _ _ _ _ => rfl, fun _ _ _ _ _ _ => rfl, fun _ _ _ _ => rfl⟩
  exact ((start.stores twins rooted roots).userByte_eq twins rooted va).symm

end

end Exec

end Av6
