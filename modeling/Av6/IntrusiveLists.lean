import Mathlib.Data.List.Nodup
import Mathlib.Logic.Function.Basic

/-!
# Intrusive lists

`sys/list.h`: lists whose links are fields of the nodes.  A node can be on a list for each of its
link fields.  A link is a slot, the first one in the head of the list and the others in the nodes,
and the back pointer of a node names the slot that holds the node.  Removing a node leaves its own
links as they are.
-/

namespace Av6

namespace IntrusiveLists

/-- `lh_first` or `tqh_first` of a head, and `le_next` or `tqe_next` of a link field of a node. -/
inductive Slot (N F H : Type)
  | head (h : H)
  | next (n : N) (f : F)
  deriving DecidableEq

/-- The slots, with the node each of them points to, the back pointers (`le_prev`, `tqe_prev`), and
`tqh_last` of the heads. -/
structure Heap (N F H : Type) where
  slot : Slot N F H → Option N
  prev : N → F → Slot N F H
  last : H → Slot N F H

variable {N F H : Type}

/-- The nodes that `LIST_FOREACH` visits from `var` on, if there are no more than the fuel. -/
def forEach (s : Heap N F H) (field : F) : Nat → Option N → Option (List N)
  | _, none => some []
  | 0, some _ => none
  | fuel + 1, some var => (forEach s field fuel (s.slot (.next var field))).map (var :: ·)

/-- `LIST_FOREACH_SAFE`: the nodes visited, and the heap after it.  The next node is read before
the body runs. -/
def forEachSafe (body : Heap N F H → N → Heap N F H) (field : F) :
    Nat → Heap N F H → Option N → Option (List N × Heap N F H)
  | _, s, none => some ([], s)
  | 0, _, some _ => none
  | fuel + 1, s, some var =>
      let tvar := s.slot (.next var field)
      (forEachSafe body field fuel (body s var) tvar).map fun after => (var :: after.1, after.2)

/-- The slot behind the nodes of a list. -/
def lastSlot (field : F) : Slot N F H → List N → Slot N F H
  | q, [] => q
  | _, n :: rest => lastSlot field (.next n field) rest

/-- The slot `q` begins a chain of the nodes, with back pointers. -/
def Chain (s : Heap N F H) (field : F) : Slot N F H → List N → Prop
  | q, [] => s.slot q = none
  | q, n :: rest => s.slot q = some n ∧ s.prev n field = q ∧ Chain s field (.next n field) rest

variable {s t : Heap N F H} {q : Slot N F H} {n : N} {f : F} {h : H} {l l' : List N}

theorem lastSlot_append : lastSlot f q (l ++ l') = lastSlot f (lastSlot f q l) l' := by
  induction l generalizing q with
  | nil => rfl
  | cons n rest ih => exact ih

theorem lastSlot_cases : lastSlot f q l = q ∨ ∃ n ∈ l, lastSlot f q l = .next n f := by
  induction l generalizing q with
  | nil => exact Or.inl rfl
  | cons n rest ih =>
      right
      rcases ih (q := .next n f) with here | ⟨m, member, there⟩
      · exact ⟨n, List.mem_cons_self, here⟩
      · exact ⟨m, List.mem_cons_of_mem _ member, there⟩

/-- The slot of the last node, or the one that the chain begins with. -/
theorem lastSlot_eq : lastSlot f q l = l.getLast?.elim q fun n => .next n f := by
  induction l generalizing q with
  | nil => rfl
  | cons n rest ih =>
      rw [lastSlot, ih]
      cases rest with
      | nil => rfl
      | cons m rest => simp [List.getLast?_cons]

/-- A chain is not seen to change where its slots and back pointers do not. -/
theorem Chain.congr (chain : Chain s f q l) (first : t.slot q = s.slot q)
    (nodes : ∀ n ∈ l, t.slot (.next n f) = s.slot (.next n f) ∧ t.prev n f = s.prev n f) :
    Chain t f q l := by
  induction l generalizing q with
  | nil => exact first.trans chain
  | cons n rest ih =>
      obtain ⟨holds, back, chain⟩ := chain
      obtain ⟨next, prev⟩ := nodes n List.mem_cons_self
      refine ⟨first.trans holds, prev.trans back, ?_⟩
      apply ih chain next
      intro m member
      exact nodes m (List.mem_cons_of_mem _ member)

theorem Chain.slot_eq (chain : Chain s f q l) : s.slot q = l.head? := by
  cases l with
  | nil => exact chain
  | cons n rest => exact chain.1

theorem Chain.prev_eq (chain : Chain s f q (l ++ n :: l')) : s.prev n f = lastSlot f q l := by
  induction l generalizing q with
  | nil => exact chain.2.1
  | cons m rest ih => exact ih chain.2.2

theorem Chain.drop (chain : Chain s f q (l ++ l')) : Chain s f (lastSlot f q l) l' := by
  induction l generalizing q with
  | nil => exact chain
  | cons m rest ih => exact ih chain.2.2

/-- The back pointer of a node names the slot that holds it. -/
theorem Chain.slot_prev (chain : Chain s f q l) (member : n ∈ l) : s.slot (s.prev n f) = some n := by
  obtain ⟨before, after, rfl⟩ := List.append_of_mem member
  rw [chain.prev_eq]
  exact chain.drop.1

theorem Chain.forEach_eq (chain : Chain s f q l) {fuel : Nat} (enough : l.length ≤ fuel) :
    forEach s f fuel (s.slot q) = some l := by
  induction l generalizing q fuel with
  | nil =>
      rw [chain.slot_eq]
      cases fuel with
      | zero => rfl
      | succ fuel => rfl
  | cons n rest ih =>
      obtain ⟨holds, -, chain⟩ := chain
      cases fuel with
      | zero => cases enough
      | succ fuel =>
          rw [holds, forEach, ih chain (Nat.le_of_succ_le_succ enough)]
          rfl

section

variable [DecidableEq N] [DecidableEq F] [DecidableEq H]

def Heap.setSlot (s : Heap N F H) (q : Slot N F H) (value : Option N) : Heap N F H :=
  { s with slot := Function.update s.slot q value }

def Heap.setPrev (s : Heap N F H) (n : N) (f : F) (q : Slot N F H) : Heap N F H :=
  { s with prev := Function.update s.prev n (Function.update (s.prev n) f q) }

def Heap.setLast (s : Heap N F H) (h : H) (q : Slot N F H) : Heap N F H :=
  { s with last := Function.update s.last h q }

/-- `LIST_INIT` -/
def listInit (s : Heap N F H) (h : H) : Heap N F H := s.setSlot (.head h) none

/-- `LIST_INSERT_HEAD` -/
def listInsertHead (s : Heap N F H) (h : H) (elm : N) (field : F) : Heap N F H :=
  let s := s.setSlot (.next elm field) (s.slot (.head h))
  let s := match s.slot (.next elm field) with
    | some _ =>
        match s.slot (.head h) with
        | some first => s.setPrev first field (.next elm field)
        | none => s
    | none => s
  let s := s.setSlot (.head h) (some elm)
  s.setPrev elm field (.head h)

/-- `LIST_REMOVE` -/
def listRemove (s : Heap N F H) (elm : N) (field : F) : Heap N F H :=
  let s := match s.slot (.next elm field) with
    | some next => s.setPrev next field (s.prev elm field)
    | none => s
  s.setSlot (s.prev elm field) (s.slot (.next elm field))

/-- `TAILQ_INIT` -/
def tailqInit (s : Heap N F H) (h : H) : Heap N F H :=
  (s.setSlot (.head h) none).setLast h (.head h)

/-- `TAILQ_INSERT_TAIL` -/
def tailqInsertTail (s : Heap N F H) (h : H) (elm : N) (field : F) : Heap N F H :=
  let s := s.setSlot (.next elm field) none
  let s := s.setPrev elm field (s.last h)
  let s := s.setSlot (s.last h) (some elm)
  s.setLast h (.next elm field)

/-- `TAILQ_REMOVE` -/
def tailqRemove (s : Heap N F H) (h : H) (elm : N) (field : F) : Heap N F H :=
  let s := match s.slot (.next elm field) with
    | some next => s.setPrev next field (s.prev elm field)
    | none => s.setLast h (s.prev elm field)
  s.setSlot (s.prev elm field) (s.slot (.next elm field))

section Updates

set_option linter.unusedSectionVars false

variable (s : Heap N F H) (q r : Slot N F H) (value : Option N) (n m : N) (f g : F) (h h' : H)

@[simp]
theorem slot_setSlot : (s.setSlot q value).slot q = value := Function.update_self ..

theorem slot_setSlot_of_ne (other : r ≠ q) : (s.setSlot q value).slot r = s.slot r :=
  Function.update_of_ne other ..

@[simp]
theorem prev_setSlot : (s.setSlot q value).prev = s.prev := rfl

@[simp]
theorem last_setSlot : (s.setSlot q value).last = s.last := rfl

@[simp]
theorem slot_setPrev : (s.setPrev n f q).slot = s.slot := rfl

@[simp]
theorem prev_setPrev : (s.setPrev n f q).prev n f = q := by
  unfold Heap.setPrev
  simp

theorem prev_setPrev_of_ne (other : m ≠ n ∨ g ≠ f) : (s.setPrev n f q).prev m g = s.prev m g := by
  unfold Heap.setPrev
  by_cases node : m = n
  · have field : g ≠ f := other.resolve_left (not_not.mpr node)
    simp [node, field]
  · simp [node]

@[simp]
theorem last_setPrev : (s.setPrev n f q).last = s.last := rfl

@[simp]
theorem slot_setLast : (s.setLast h q).slot = s.slot := rfl

@[simp]
theorem prev_setLast : (s.setLast h q).prev = s.prev := rfl

@[simp]
theorem last_setLast : (s.setLast h q).last h = q := Function.update_self ..

theorem last_setLast_of_ne (other : h' ≠ h) : (s.setLast h q).last h' = s.last h' :=
  Function.update_of_ne other ..

end Updates

end

end IntrusiveLists

end Av6
