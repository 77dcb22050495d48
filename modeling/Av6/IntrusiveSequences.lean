import Av6.IntrusiveLists
import Mathlib.Data.List.Basic

/-!
# Intrusive lists as sequences

The heap represents a sequence for each head: the chain from the head, through the link field of
its lists.  Insertion and removal act on the sequences as they should, a node that is removed may
be inserted again, and what is threaded through other fields is not touched.
-/

namespace Av6

namespace IntrusiveLists

variable {N F H : Type} {field : H → F} {tailq : H → Bool} {s t u : Heap N F H}
  {seqs : H → List N} {q : Slot N F H} {n m : N} {f : F} {h : H} {l l' rest : List N}

/-- The lists of the heads, those of `LIST` and those of `TAILQ`. -/
structure Represents (field : H → F) (tailq : H → Bool) (s : Heap N F H) (seqs : H → List N) :
    Prop where
  chain : ∀ h, Chain s (field h) (.head h) (seqs h)
  last : ∀ h, tailq h = true → s.last h = lastSlot (field h) (.head h) (seqs h)
  nodup : ∀ h, (seqs h).Nodup
  apart : ∀ h h' n, field h = field h' → n ∈ seqs h → n ∈ seqs h' → h = h'

/-- What is changed from `s` to `t` belongs to the head `h`, or to the links of the nodes for the
field `f`. -/
structure Within (f : F) (h : H) (l : List N) (s t : Heap N F H) : Prop where
  slot : ∀ q, q ≠ .head h → (∀ n ∈ l, q ≠ .next n f) → t.slot q = s.slot q
  prev : ∀ n g, (n ∈ l → g ≠ f) → t.prev n g = s.prev n g
  last : ∀ h', h' ≠ h → t.last h' = s.last h'

theorem Within.refl (s : Heap N F H) : Within f h l s s := ⟨fun _ _ _ => rfl, fun _ _ _ => rfl,
  fun _ _ => rfl⟩

section

set_option linter.unusedSectionVars false

variable [DecidableEq N] [DecidableEq F] [DecidableEq H]

theorem Within.setSlot {value : Option N} (inside : q = .head h ∨ ∃ n ∈ l, q = .next n f)
    (within : Within f h l s t) : Within f h l s (t.setSlot q value) where
  slot r head nodes := by
    rw [slot_setSlot_of_ne]
    · exact within.slot r head nodes
    · rintro rfl
      rcases inside with same | ⟨n, member, same⟩
      · exact head same
      · exact nodes n member same
  prev := within.prev
  last := within.last

theorem Within.setPrev (member : n ∈ l) (within : Within f h l s t) :
    Within f h l s (t.setPrev n f q) where
  slot := within.slot
  prev m g other := by
    rw [prev_setPrev_of_ne]
    · exact within.prev m g other
    · by_cases same : m = n
      · rw [same] at other
        exact Or.inr (other member)
      · exact Or.inl same
  last := within.last

theorem Within.setLast (within : Within f h l s t) : Within f h l s (t.setLast h q) where
  slot := within.slot
  prev := within.prev
  last h' other := by
    rw [last_setLast_of_ne _ _ _ _ other]
    exact within.last h' other

theorem lastSlot_inside (sub : ∀ n ∈ l', n ∈ l) :
    lastSlot f (.head h) l' = .head h ∨ ∃ n ∈ l, lastSlot f (.head h) l' = .next n f := by
  rcases lastSlot_cases (f := f) (q := (.head h : Slot N F H)) (l := l') with here | ⟨n, member, there⟩
  · exact Or.inl here
  · exact Or.inr ⟨n, sub n member, there⟩

/-- A change of one list is not seen by the others. -/
theorem Represents.update (ok : Represents field tailq s seqs)
    (within : Within (field h) h l s t)
    (outside : ∀ h' ≠ h, field h' = field h → ∀ n ∈ l, n ∉ seqs h')
    (chain : Chain t (field h) (.head h) l')
    (last : tailq h = true → t.last h = lastSlot (field h) (.head h) l') (nodup : l'.Nodup)
    (sub : ∀ n ∈ l', n ∈ l) : Represents field tailq t (Function.update seqs h l') where
  chain h' := by
    by_cases same : h' = h
    · subst same
      rwa [Function.update_self]
    · rw [Function.update_of_ne same]
      apply (ok.chain h').congr
      · apply within.slot
        · simpa using same
        · simp
      · intro n member
        constructor
        · apply within.slot
          · simp
          · intro m there equal
            injection equal with node other
            rw [← node] at there
            exact outside h' same other n there member
        · apply within.prev
          intro there other
          exact outside h' same other n there member
  last h' queue := by
    by_cases same : h' = h
    · subst same
      rw [Function.update_self]
      exact last queue
    · rw [Function.update_of_ne same, within.last h' same]
      exact ok.last h' queue
  nodup h' := by
    by_cases same : h' = h
    · subst same
      rwa [Function.update_self]
    · rw [Function.update_of_ne same]
      exact ok.nodup h'
  apart h₁ h₂ n equal first second := by
    by_cases same : h₁ = h
    · by_cases same' : h₂ = h
      · rw [same, same']
      · rw [same, Function.update_self] at first
        rw [Function.update_of_ne same'] at second
        rw [same] at equal
        exact absurd second (outside h₂ same' equal.symm n (sub n first))
    · by_cases same' : h₂ = h
      · rw [same', Function.update_self] at second
        rw [Function.update_of_ne same] at first
        rw [same'] at equal
        exact absurd first (outside h₁ same equal n (sub n second))
      · rw [Function.update_of_ne same] at first
        rw [Function.update_of_ne same'] at second
        exact ok.apart h₁ h₂ n equal first second

/-- The effect of `LIST_INSERT_HEAD` on a chain. -/
theorem listInsertHead_eq (first : s.slot (.head h) = l.head?) :
    listInsertHead s h n f = match l with
      | [] => ((s.setSlot (.next n f) none).setSlot (.head h) (some n)).setPrev n f (.head h)
      | m :: _ =>
          (((s.setSlot (.next n f) (some m)).setPrev m f (.next n f)).setSlot (.head h)
            (some n)).setPrev n f (.head h) := by
  cases l with
  | nil => simp [listInsertHead, first]
  | cons m rest => simp [listInsertHead, first, slot_setSlot_of_ne]

theorem Chain.within_insertHead (chain : Chain s f (.head h) l) :
    Within f h (n :: l) s (listInsertHead s h n f) := by
  rw [listInsertHead_eq chain.slot_eq]
  cases l with
  | nil =>
      apply Within.setPrev List.mem_cons_self
      apply Within.setSlot (Or.inl rfl)
      apply Within.setSlot (Or.inr ⟨n, List.mem_cons_self, rfl⟩)
      exact .refl s
  | cons m rest =>
      apply Within.setPrev List.mem_cons_self
      apply Within.setSlot (Or.inl rfl)
      apply Within.setPrev (List.mem_cons_of_mem _ List.mem_cons_self)
      apply Within.setSlot (Or.inr ⟨n, List.mem_cons_self, rfl⟩)
      exact .refl s

/-- A node that is not on the list is put before it. -/
theorem Chain.insertHead (chain : Chain s f (.head h) l) (nodup : (n :: l).Nodup) :
    Chain (listInsertHead s h n f) f (.head h) (n :: l) := by
  rw [listInsertHead_eq chain.slot_eq]
  cases l with
  | nil => exact ⟨by simp, by simp, by simp [Chain, slot_setSlot_of_ne]⟩
  | cons m rest =>
      obtain ⟨-, -, chain⟩ := chain
      obtain ⟨fresh, nodup⟩ := List.nodup_cons.mp nodup
      obtain ⟨alone, -⟩ := List.nodup_cons.mp nodup
      have distinct : m ≠ n := by
        rintro rfl
        exact fresh List.mem_cons_self
      refine ⟨by simp, by simp, by simp [slot_setSlot_of_ne], ?_, ?_⟩
      · rw [prev_setPrev_of_ne _ _ _ _ _ _ (Or.inl distinct)]
        simp
      · apply chain.congr
        · simp [slot_setSlot_of_ne, distinct]
        · intro x member
          have other : x ≠ n := by
            rintro rfl
            exact fresh (List.mem_cons_of_mem _ member)
          have other' : x ≠ m := by
            rintro rfl
            exact alone member
          simp [slot_setSlot_of_ne, prev_setPrev_of_ne, other, other']

/-- The slot before a node is given the node's own link, and the next node the back pointer. -/
structure Unlinks (f : F) (q : Slot N F H) (rest : List N) (s t : Heap N F H) : Prop where
  slot : t.slot q = rest.head?
  slots : ∀ r, r ≠ q → t.slot r = s.slot r
  prev : ∀ m, rest.head? = some m → t.prev m f = q
  prevs : ∀ m, rest.head? ≠ some m → t.prev m f = s.prev m f

/-- This takes the node out of the chain, whichever place it has there. -/
theorem Chain.unlink (chain : Chain s f q (l ++ n :: rest)) (nodup : (l ++ n :: rest).Nodup)
    (outside : ∀ m ∈ l ++ n :: rest, q ≠ .next m f)
    (unlinks : Unlinks f (lastSlot f q l) rest s t) : Chain t f q (l ++ rest) := by
  induction l generalizing q with
  | nil =>
      obtain ⟨-, -, chain⟩ := chain
      cases rest with
      | nil => exact unlinks.slot
      | cons m rest =>
          obtain ⟨-, -, chain⟩ := chain
          have unmoved : ∀ x ∈ m :: rest, t.slot (.next x f) = s.slot (.next x f) := by
            intro x member
            apply unlinks.slots
            exact (outside x (List.mem_cons_of_mem _ member)).symm
          refine ⟨unlinks.slot, unlinks.prev m rfl, ?_⟩
          apply chain.congr (unmoved m List.mem_cons_self)
          intro x member
          refine ⟨unmoved x (List.mem_cons_of_mem _ member), unlinks.prevs x ?_⟩
          intro same
          have heads : m = x := Option.some.inj same
          have alone := (List.nodup_cons.mp (List.nodup_cons.mp nodup).2).1
          rw [heads] at alone
          exact alone member
  | cons x l ih =>
      obtain ⟨holds, back, chain⟩ := chain
      obtain ⟨fresh, nodup⟩ := List.nodup_cons.mp nodup
      have before : q ≠ lastSlot f q (x :: l) := by
        rcases lastSlot_cases (f := f) (q := .next x f) (l := l) with here | ⟨m, member, there⟩
        · intro same
          exact outside x List.mem_cons_self (same.trans here)
        · intro same
          exact outside m (by simp [member]) (same.trans there)
      refine ⟨(unlinks.slots q before).trans holds, (unlinks.prevs x ?_).trans back, ?_⟩
      · intro same
        apply fresh
        have member := List.mem_of_mem_head? same
        simp [member]
      · apply ih chain nodup
        · intro m member same
          injection same with node
          rw [node] at fresh
          exact fresh member
        · exact unlinks

theorem listRemove_eq (next : s.slot (.next n f) = rest.head?) (alone : n ∉ rest) :
    listRemove s n f = match rest with
      | [] => s.setSlot (s.prev n f) none
      | m :: _ => (s.setPrev m f (s.prev n f)).setSlot (s.prev n f) (some m) := by
  cases rest with
  | nil => simp [listRemove, next]
  | cons m rest =>
      have distinct : n ≠ m := by
        rintro rfl
        exact alone List.mem_cons_self
      simp [listRemove, next, prev_setPrev_of_ne, distinct]

theorem tailqRemove_eq (next : s.slot (.next n f) = rest.head?) (alone : n ∉ rest) :
    tailqRemove s h n f = match rest with
      | [] => (s.setLast h (s.prev n f)).setSlot (s.prev n f) none
      | m :: _ => (s.setPrev m f (s.prev n f)).setSlot (s.prev n f) (some m) := by
  cases rest with
  | nil => simp [tailqRemove, next]
  | cons m rest =>
      have distinct : n ≠ m := by
        rintro rfl
        exact alone List.mem_cons_self
      simp [tailqRemove, next, prev_setPrev_of_ne, distinct]

theorem unlinks_cons (q : Slot N F H) :
    Unlinks f q (m :: rest) s ((s.setPrev m f q).setSlot q (some m)) where
  slot := by simp
  slots r other := by simp [slot_setSlot_of_ne, other]
  prev m' head := by
    rw [← Option.some.inj head]
    simp
  prevs m' head := by
    have other : m' ≠ m := fun same => head (congrArg some same.symm)
    simp [prev_setPrev_of_ne, other]

/-- `LIST_REMOVE` -/
theorem listRemove_unlinks (next : s.slot (.next n f) = rest.head?) (alone : n ∉ rest) :
    Unlinks f (s.prev n f) rest s (listRemove s n f) := by
  rw [listRemove_eq next alone]
  cases rest with
  | nil =>
      constructor
      · simp
      · intro r other
        simp [slot_setSlot_of_ne, other]
      · rintro m ⟨⟩
      · simp
  | cons m rest => exact unlinks_cons _

/-- `TAILQ_REMOVE` -/
theorem tailqRemove_unlinks (next : s.slot (.next n f) = rest.head?) (alone : n ∉ rest) :
    Unlinks f (s.prev n f) rest s (tailqRemove s h n f) := by
  rw [tailqRemove_eq next alone]
  cases rest with
  | nil =>
      constructor
      · simp
      · intro r other
        simp [slot_setSlot_of_ne, other]
      · rintro m ⟨⟩
      · simp
  | cons m rest => exact unlinks_cons _

/-- A node is appended: the slot behind the last one is given it, and it ends the chain. -/
theorem Chain.append (chain : Chain s f q l) (nodup : (n :: l).Nodup)
    (outside : ∀ m ∈ n :: l, q ≠ .next m f) (slot : t.slot (lastSlot f q l) = some n)
    (ends : t.slot (.next n f) = none) (back : t.prev n f = lastSlot f q l)
    (slots : ∀ r, r ≠ lastSlot f q l → r ≠ .next n f → t.slot r = s.slot r)
    (prevs : ∀ m, m ≠ n → t.prev m f = s.prev m f) : Chain t f q (l ++ [n]) := by
  induction l generalizing q with
  | nil => exact ⟨slot, back, ends⟩
  | cons x l ih =>
      obtain ⟨holds, back', chain⟩ := chain
      obtain ⟨fresh, nodup⟩ := List.nodup_cons.mp nodup
      obtain ⟨alone, nodup⟩ := List.nodup_cons.mp nodup
      have distinct : x ≠ n := by
        rintro rfl
        exact fresh List.mem_cons_self
      have before : q ≠ lastSlot f q (x :: l) := by
        rcases lastSlot_cases (f := f) (q := .next x f) (l := l) with here | ⟨m, member, there⟩
        · intro same
          exact outside x (by simp) (same.trans here)
        · intro same
          exact outside m (by simp [member]) (same.trans there)
      refine ⟨?_, (prevs x distinct).trans back', ?_⟩
      · exact (slots q before (outside n List.mem_cons_self)).trans holds
      · apply ih chain
        · exact List.nodup_cons.mpr ⟨fun there => fresh (List.mem_cons_of_mem _ there), nodup⟩
        · intro m member same
          injection same with node
          rcases List.mem_cons.mp member with here | there
          · exact distinct (node.trans here)
          · rw [node] at alone
            exact alone there
        · exact slot
        · exact back
        · exact slots

/-- `TAILQ_INSERT_TAIL` -/
theorem Chain.insertTail (chain : Chain s f (.head h) l) (nodup : (n :: l).Nodup)
    (last : s.last h = lastSlot f (.head h) l) :
    Chain (tailqInsertTail s h n f) f (.head h) (l ++ [n]) := by
  have result : tailqInsertTail s h n f = (((s.setSlot (.next n f) none).setPrev n f
      (s.last h)).setSlot (s.last h) (some n)).setLast h (.next n f) := rfl
  have apart : (.next n f : Slot N F H) ≠ lastSlot f (.head h) l := by
    have fresh := (List.nodup_cons.mp nodup).1
    rcases lastSlot_cases (f := f) (q := (.head h : Slot N F H)) (l := l) with
      here | ⟨m, member, there⟩
    · rw [here]
      simp
    · rw [there]
      intro same
      injection same with node
      rw [node] at fresh
      exact fresh member
  rw [result, last]
  apply chain.append nodup
  · simp
  · simp
  · simp [slot_setSlot_of_ne, apart]
  · simp
  · intro r other other'
    simp [slot_setSlot_of_ne, other, other']
  · intro m other
    simp [prev_setPrev_of_ne, other]

end

end IntrusiveLists

end Av6
