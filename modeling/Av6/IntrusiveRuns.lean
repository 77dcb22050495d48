import Av6.IntrusiveSequences

/-!
# Runs of list operations

Any sequence of insertions and removals, on any number of lists and queues over the same nodes,
is one of operations on sequences: a list is a stack from which any member can be taken, and a
queue is first in, first out.
-/

namespace Av6

namespace IntrusiveLists

variable {N F H : Type} [DecidableEq N] [DecidableEq F] [DecidableEq H]

/-- A use of one of the macros on a list of the head. -/
inductive Op (N H : Type)
  | insertHead (h : H) (n : N)
  | remove (h : H) (n : N)
  | insertTail (h : H) (n : N)
  | removeQueued (h : H) (n : N)

def Op.exec (field : H → F) (s : Heap N F H) : Op N H → Heap N F H
  | insertHead h n => listInsertHead s h n (field h)
  | remove h n => listRemove s n (field h)
  | insertTail h n => tailqInsertTail s h n (field h)
  | removeQueued h n => tailqRemove s h n (field h)

def Op.list : Op N H → H
  | insertHead h _ | remove h _ | insertTail h _ | removeQueued h _ => h

def Op.node : Op N H → N
  | insertHead _ n | remove _ n | insertTail _ n | removeQueued _ n => n

/-- The node is on no list through the field of this one. -/
def Free (field : H → F) (seqs : H → List N) (h : H) (n : N) : Prop :=
  ∀ h', field h' = field h → n ∉ seqs h'

/-- What an operation means, where it is allowed: a node that is inserted is on no list through
the field, and one that is removed is a member. -/
inductive Means (field : H → F) (tailq : H → Bool) (seqs : H → List N) :
    Op N H → (H → List N) → Prop
  | insertHead {h n} (list : tailq h = false) (free : Free field seqs h n) :
      Means field tailq seqs (.insertHead h n) (Function.update seqs h (n :: seqs h))
  | remove {h n} (list : tailq h = false) (member : n ∈ seqs h) :
      Means field tailq seqs (.remove h n) (Function.update seqs h ((seqs h).erase n))
  | insertTail {h n} (queue : tailq h = true) (free : Free field seqs h n) :
      Means field tailq seqs (.insertTail h n) (Function.update seqs h (seqs h ++ [n]))
  | removeQueued {h n} (queue : tailq h = true) (member : n ∈ seqs h) :
      Means field tailq seqs (.removeQueued h n) (Function.update seqs h ((seqs h).erase n))

/-- A sequence of operations, each of them allowed. -/
inductive MeansAll (field : H → F) (tailq : H → Bool) :
    (H → List N) → List (Op N H) → (H → List N) → Prop
  | nil {seqs} : MeansAll field tailq seqs [] seqs
  | cons {seqs op seqs' ops seqs''} (first : Means field tailq seqs op seqs')
      (others : MeansAll field tailq seqs' ops seqs'') :
      MeansAll field tailq seqs (op :: ops) seqs''

/-- All heads after `LIST_INIT` and `TAILQ_INIT`; the links of the nodes are arbitrary. -/
def Initialised (tailq : H → Bool) (s : Heap N F H) : Prop :=
  ∀ h, s.slot (.head h) = none ∧ (tailq h = true → s.last h = .head h)

section

set_option linter.unusedSectionVars false

variable {field : H → F} {tailq : H → Bool} {s t : Heap N F H} {seqs seqs' : H → List N} {n : N}
  {h : H}

theorem Represents.of_initialised (fresh : Initialised tailq s) :
    Represents field tailq s fun _ => [] where
  chain h := (fresh h).1
  last h := (fresh h).2
  nodup _ := List.nodup_nil
  apart _ _ _ _ := nofun

theorem Represents.outside (ok : Represents field tailq s seqs)
    (node : ∀ h' ≠ h, field h' = field h → n ∉ seqs h') :
    ∀ h' ≠ h, field h' = field h → ∀ m ∈ n :: seqs h, m ∉ seqs h' := by
  intro h' other same m member there
  rcases List.mem_cons.mp member with rfl | member
  · exact node h' other same there
  · exact other (ok.apart h' h m same there member)

theorem Represents.insertHead (ok : Represents field tailq s seqs) (list : tailq h = false)
    (free : Free field seqs h n) :
    Represents field tailq (listInsertHead s h n (field h))
      (Function.update seqs h (n :: seqs h)) := by
  have nodup : (n :: seqs h).Nodup := List.nodup_cons.mpr ⟨free h rfl, ok.nodup h⟩
  apply ok.update (ok.chain h).within_insertHead
  · apply ok.outside
    intro h' _ same
    exact free h' same
  · exact (ok.chain h).insertHead nodup
  · rw [list]
    rintro ⟨⟩
  · exact nodup
  · exact fun _ => id

theorem Represents.within_insertTail (ok : Represents field tailq s seqs)
    (queue : tailq h = true) :
    Within (field h) h (n :: seqs h) s (tailqInsertTail s h n (field h)) := by
  have sub : ∀ m ∈ seqs h, m ∈ n :: seqs h := fun _ => List.mem_cons_of_mem _
  have inside := lastSlot_inside (f := field h) (h := h) sub
  rw [← ok.last h queue] at inside
  apply Within.setLast
  apply Within.setSlot inside
  apply Within.setPrev List.mem_cons_self
  apply Within.setSlot (Or.inr ⟨n, List.mem_cons_self, rfl⟩)
  exact .refl s

theorem Represents.insertTail (ok : Represents field tailq s seqs) (queue : tailq h = true)
    (free : Free field seqs h n) :
    Represents field tailq (tailqInsertTail s h n (field h))
      (Function.update seqs h (seqs h ++ [n])) := by
  have nodup : (n :: seqs h).Nodup := List.nodup_cons.mpr ⟨free h rfl, ok.nodup h⟩
  apply ok.update (ok.within_insertTail queue)
  · apply ok.outside
    intro h' _ same
    exact free h' same
  · exact (ok.chain h).insertTail nodup (ok.last h queue)
  · intro _
    rw [lastSlot_append]
    exact last_setLast ..
  · exact (List.perm_append_singleton n (seqs h)).nodup_iff.mpr nodup
  · intro m member
    simpa [or_comm] using member

/-- A member of a list, with what is before it and behind it. -/
theorem Represents.split (ok : Represents field tailq s seqs) (member : n ∈ seqs h) :
    ∃ before rest, seqs h = before ++ n :: rest ∧ (seqs h).erase n = before ++ rest ∧
      n ∉ rest ∧ s.slot (.next n (field h)) = rest.head? ∧
      s.prev n (field h) = lastSlot (field h) (.head h) before := by
  obtain ⟨before, rest, split⟩ := List.append_of_mem member
  have nodup := ok.nodup h
  have chain := ok.chain h
  rw [split] at nodup chain
  obtain ⟨-, nodup', apart⟩ := List.nodup_append.mp nodup
  have earlier : n ∉ before := fun there => apart n there n List.mem_cons_self rfl
  refine ⟨before, rest, split, ?_, (List.nodup_cons.mp nodup').1, ?_, chain.prev_eq⟩
  · rw [split, List.erase_append_right _ earlier, List.erase_cons_head]
  · exact chain.drop.2.2.slot_eq

theorem Represents.within_unlink (ok : Represents field tailq s seqs) (member : n ∈ seqs h) :
    Within (field h) h (n :: seqs h) s (listRemove s n (field h)) ∧
      Within (field h) h (n :: seqs h) s (tailqRemove s h n (field h)) := by
  obtain ⟨before, rest, split, -, alone, next, prev⟩ := ok.split member
  have sub : ∀ m ∈ before, m ∈ n :: seqs h := by
    intro m there
    simp [split, there]
  have inside := lastSlot_inside (f := field h) (h := h) sub
  rw [← prev] at inside
  rw [listRemove_eq next alone, tailqRemove_eq next alone]
  cases rest with
  | nil => exact ⟨.setSlot inside (.refl s), .setSlot inside (.setLast (.refl s))⟩
  | cons m rest =>
      have there : m ∈ n :: seqs h := by simp [split]
      have both : Within (field h) h (n :: seqs h) s ((s.setPrev m (field h)
          (s.prev n (field h))).setSlot (s.prev n (field h)) (some m)) :=
        .setSlot inside (.setPrev there (.refl s))
      exact ⟨both, both⟩

/-- A member is taken out, by either macro. -/
theorem Represents.unlink (ok : Represents field tailq s seqs) (member : n ∈ seqs h)
    (within : Within (field h) h (n :: seqs h) s t)
    (unlinks : ∀ before rest, seqs h = before ++ n :: rest →
      Unlinks (field h) (s.prev n (field h)) rest s t)
    (last : tailq h = true →
      t.last h = lastSlot (field h) (.head h) ((seqs h).erase n)) :
    Represents field tailq t (Function.update seqs h ((seqs h).erase n)) := by
  obtain ⟨before, rest, split, erased, -, -, prev⟩ := ok.split member
  have chain := ok.chain h
  have nodup := ok.nodup h
  apply ok.update within
  · apply ok.outside
    intro h' other same there
    exact other (ok.apart h' h n same there member)
  · rw [erased]
    rw [split] at chain nodup
    apply chain.unlink nodup
    · simp
    · rw [← prev]
      exact unlinks before rest split
  · exact last
  · exact nodup.erase n
  · intro m there
    exact List.mem_cons_of_mem _ (List.mem_of_mem_erase there)

theorem Represents.remove (ok : Represents field tailq s seqs) (list : tailq h = false)
    (member : n ∈ seqs h) :
    Represents field tailq (listRemove s n (field h))
      (Function.update seqs h ((seqs h).erase n)) := by
  apply ok.unlink member (ok.within_unlink member).1
  · intro before rest split
    have chain := ok.chain h
    have nodup := ok.nodup h
    rw [split] at chain nodup
    have alone := (List.nodup_cons.mp (List.nodup_append.mp nodup).2.1).1
    exact listRemove_unlinks chain.drop.2.2.slot_eq alone
  · rw [list]
    rintro ⟨⟩

theorem Represents.removeQueued (ok : Represents field tailq s seqs) (queue : tailq h = true)
    (member : n ∈ seqs h) :
    Represents field tailq (tailqRemove s h n (field h))
      (Function.update seqs h ((seqs h).erase n)) := by
  apply ok.unlink member (ok.within_unlink member).2
  · intro before rest split
    have chain := ok.chain h
    have nodup := ok.nodup h
    rw [split] at chain nodup
    have alone := (List.nodup_cons.mp (List.nodup_append.mp nodup).2.1).1
    exact tailqRemove_unlinks chain.drop.2.2.slot_eq alone
  · intro _
    obtain ⟨before, rest, split, erased, alone, next, prev⟩ := ok.split member
    rw [erased, tailqRemove_eq next alone]
    cases rest with
    | nil =>
        rw [List.append_nil, ← prev]
        exact last_setLast ..
    | cons m rest =>
        have last := ok.last h queue
        rw [split, lastSlot_append] at last
        rw [lastSlot_append]
        exact last

/-- One operation. -/
theorem Represents.step {op : Op N H} (ok : Represents field tailq s seqs)
    (means : Means field tailq seqs op seqs') :
    Represents field tailq (op.exec field s) seqs' ∧
      Within (field op.list) op.list (op.node :: seqs op.list) s (op.exec field s) := by
  cases means with
  | insertHead list free => exact ⟨ok.insertHead list free, (ok.chain _).within_insertHead⟩
  | remove list member => exact ⟨ok.remove list member, (ok.within_unlink member).1⟩
  | insertTail queue free => exact ⟨ok.insertTail queue free, ok.within_insertTail queue⟩
  | removeQueued queue member => exact ⟨ok.removeQueued queue member, (ok.within_unlink member).2⟩

/-- A run. -/
theorem Represents.run {ops : List (Op N H)} (ok : Represents field tailq s seqs)
    (means : MeansAll field tailq seqs ops seqs') :
    Represents field tailq (ops.foldl (Op.exec field) s) seqs' := by
  induction means generalizing s with
  | nil => exact ok
  | cons first others ih => exact ih (ok.step first).1

/-- What is left of the other lists: no slot and no back pointer for another field changes, nor
another head. -/
theorem Within.others {l : List N} {f : F} (within : Within f h l s t) :
    (∀ m g, g ≠ f → t.slot (.next m g) = s.slot (.next m g) ∧ t.prev m g = s.prev m g) ∧
      ∀ h', h' ≠ h → t.slot (.head h') = s.slot (.head h') ∧ t.last h' = s.last h' := by
  constructor
  · intro m g other
    constructor
    · apply within.slot
      · simp
      · intro n _ same
        injection same with _ field
        exact other field
    · exact within.prev m g fun _ => other
  · intro h' other
    constructor
    · apply within.slot
      · simpa using other
      · simp
    · exact within.last h' other

theorem Means.others {op : Op N H} (means : Means field tailq seqs op seqs') {h' : H}
    (other : h' ≠ op.list) : seqs' h' = seqs h' := by
  cases means with
  | _ => exact Function.update_of_ne other ..

/-- A loop body that takes the current node off the list that is walked, whatever else it does with
the node and with the other lists. -/
def RemovesCurrent (field : H → F) (tailq : H → Bool) (h : H)
    (body : Heap N F H → N → Heap N F H) : Prop :=
  ∀ s seqs n rest, Represents field tailq s seqs → seqs h = n :: rest →
    ∃ seqs', Represents field tailq (body s n) seqs' ∧ seqs' h = rest

theorem removesCurrent_listRemove (list : tailq h = false) :
    RemovesCurrent field tailq h fun (s : Heap N F H) n => listRemove s n (field h) := by
  intro s seqs n rest ok split
  refine ⟨_, ok.remove list (by simp [split]), ?_⟩
  rw [Function.update_self, split, List.erase_cons_head]

/-- `LIST_FOREACH_SAFE` with such a body visits the members in order, and empties the list. -/
theorem Represents.forEachSafe_eq {body : Heap N F H → N → Heap N F H}
    (removes : RemovesCurrent field tailq h body) (ok : Represents field tailq s seqs) {fuel : Nat}
    (enough : (seqs h).length ≤ fuel) :
    ∃ t seqs', forEachSafe body (field h) fuel s (s.slot (.head h)) = some (seqs h, t) ∧
      Represents field tailq t seqs' ∧ seqs' h = [] := by
  generalize members : seqs h = l at enough
  induction l generalizing s seqs fuel with
  | nil =>
      have empty := (ok.chain h).slot_eq
      rw [members] at empty
      rw [empty]
      refine ⟨s, seqs, ?_, ok, members⟩
      cases fuel with
      | zero => rfl
      | succ fuel => rfl
  | cons n rest ih =>
      have chain := ok.chain h
      rw [members] at chain
      obtain ⟨first, -, later⟩ := chain
      obtain ⟨seqs', ok', members'⟩ := removes s seqs n rest ok members
      cases fuel with
      | zero => cases enough
      | succ fuel =>
          obtain ⟨t, after, runs, final, empty⟩ := ih ok' members' (Nat.le_of_succ_le_succ enough)
          have next : s.slot (.next n (field h)) = (body s n).slot (.head h) := by
            rw [later.slot_eq, (ok'.chain h).slot_eq, members']
          refine ⟨t, after, ?_, final, empty⟩
          rw [first, forEachSafe, next, runs]
          rfl

/-- Intrusive lists implement sequences: after any run of allowed operations, the traversals give
the sequences, the back pointers name the slots of their nodes, and `tqh_last` is the slot behind
the last node; an operation leaves the other lists alone, and a `LIST_FOREACH_SAFE` whose body
removes the current node visits each member once. -/
theorem lists_implement_sequences {ops : List (Op N H)} (fresh : Initialised tailq s)
    (means : MeansAll field tailq (fun _ => []) ops seqs) (t : Heap N F H)
    (runs : ops.foldl (Op.exec field) s = t) :
    (∀ h fuel, (seqs h).length ≤ fuel →
      forEach t (field h) fuel (t.slot (.head h)) = some (seqs h)) ∧
    (∀ h, ∀ n ∈ seqs h, t.slot (t.prev n (field h)) = some n) ∧
    (∀ h, tailq h = true → t.last h =
      (seqs h).getLast?.elim (.head h) fun n => .next n (field h)) ∧
    (∀ op seqs', Means field tailq seqs op seqs' →
      (∀ m g, g ≠ field op.list → (op.exec field t).slot (.next m g) = t.slot (.next m g) ∧
        (op.exec field t).prev m g = t.prev m g) ∧
      ∀ h', h' ≠ op.list → seqs' h' = seqs h' ∧
        (op.exec field t).slot (.head h') = t.slot (.head h') ∧
        (op.exec field t).last h' = t.last h') ∧
    ∀ h body fuel, RemovesCurrent field tailq h body → (seqs h).length ≤ fuel →
      (seqs h).Nodup ∧
        ∃ u, forEachSafe body (field h) fuel t (t.slot (.head h)) = some (seqs h, u) := by
  subst runs
  have ok := (Represents.of_initialised fresh).run means
  refine ⟨?_, ?_, ?_, ?_, ?_⟩
  · intro h fuel enough
    exact (ok.chain h).forEach_eq enough
  · intro h n member
    exact (ok.chain h).slot_prev member
  · intro h queue
    rw [ok.last h queue, lastSlot_eq]
  · intro op seqs' allowed
    obtain ⟨links, heads⟩ := (ok.step allowed).2.others
    refine ⟨links, ?_⟩
    intro h' other
    exact ⟨allowed.others other, heads h' other⟩
  · intro h body fuel removes enough
    obtain ⟨u, -, walk, -⟩ := ok.forEachSafe_eq removes enough
    exact ⟨ok.nodup h, u, walk⟩

/-- Two nodes are queued, the first of them is put on a list as well, taken off the queue and queued
again. -/
theorem lists_implement_sequences_requeue :
    let s : Heap Nat Bool Bool :=
      tailqInit (listInit ⟨fun _ => none, fun _ _ => .head false, fun _ => .head false⟩ false) true
    let ops : List (Op Nat Bool) := [.insertTail true 1, .insertTail true 2, .insertHead false 1,
      .removeQueued true 1, .insertTail true 1]
    let t := ops.foldl (Op.exec id) s
    forEach t true 2 (t.slot (.head true)) = some [2, 1] := by
  intro s ops t
  have fresh : Initialised id s := by
    intro h
    cases h with
    | false => exact ⟨rfl, by rintro ⟨⟩⟩
    | true => exact ⟨rfl, fun _ => rfl⟩
  have means : MeansAll id id (fun _ => []) ops _ :=
    .cons (.insertTail rfl (by unfold Free; decide)) <|
      .cons (.insertTail rfl (by unfold Free; decide)) <|
      .cons (.insertHead rfl (by unfold Free; decide)) <|
      .cons (.removeQueued rfl (by decide)) <|
      .cons (.insertTail rfl (by unfold Free; decide)) .nil
  exact (lists_implement_sequences fresh means t rfl).1 true 2 (by decide)

end

end IntrusiveLists

end Av6
