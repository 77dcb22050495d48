import Mathlib.Data.List.Induction

/-!
# A line discipline

What the input half of a console is for: a queue of committed bytes and a line that is still
being typed, in one bounded store.  Bytes go to the line, the editing keys take them back, and
the line is committed when it ends or when the store is full.  Readers take committed bytes
from the front.  A trace of received and taken bytes is accepted when the queue explains it.
-/

namespace LineDiscipline

variable {β T : Type*}

/-- The keys that mean something, and the size of the store. -/
structure Keys (β : Type*) where
  killLine : β
  backspace : β
  delete : β
  null : β
  carriageReturn : β
  newline : β
  endOfFile : β
  capacity : Nat

/-- Committed bytes, and the line that is being edited. -/
structure Input (β : Type*) where
  committed : List β
  line : List β

namespace Input

def empty : Input β := ⟨[], []⟩

def size (q : Input β) : Nat :=
  q.committed.length + q.line.length

def commit (q : Input β) : Input β :=
  ⟨q.committed ++ q.line, []⟩

def type (q : Input β) (c : β) : Input β :=
  { q with line := q.line ++ [c] }

/-- A byte is received. -/
def receive [DecidableEq β] (keys : Keys β) (q : Input β) (c : β) : Input β :=
  if c = keys.killLine then { q with line := [] }
  else if c = keys.backspace ∨ c = keys.delete then { q with line := q.line.dropLast }
  else if c = keys.null then q
  else if q.size < keys.capacity then
    let c := if c = keys.carriageReturn then keys.newline else c
    let q := q.type c
    if c = keys.newline ∨ c = keys.endOfFile ∨ q.size = keys.capacity then q.commit else q
  else q

/-- What holds of every input: it fits the store, a full store has no open line, and a line
that is being edited has no end. -/
structure Valid (keys : Keys β) (q : Input β) : Prop where
  size_le : q.size ≤ keys.capacity
  full : q.size = keys.capacity → q.line = []
  open_ : keys.newline ∉ q.line

end Input

/-- What happens to the input: a byte arrives, a read is called, or it takes a byte. -/
inductive Event (β T : Type*)
  | received (c : β)
  | called (t : T)
  | took (t : T) (c : β)

/-- The bytes that have been taken, oldest first. -/
def taken (trace : List (Event β T)) : List β :=
  trace.filterMap fun event =>
    match event with
    | .took _ c => some c
    | _ => none

/-- The bytes that the reader `t` has taken since its last call. -/
def takenBy [DecidableEq T] (t : T) (trace : List (Event β T)) : List β :=
  trace.foldl (fun got event =>
    match event with
    | .received _ => got
    | .called u => if u = t then [] else got
    | .took u c => if u = t then got ++ [c] else got) []

@[simp]
theorem taken_append (trace more : List (Event β T)) :
    taken (trace ++ more) = taken trace ++ taken more :=
  List.filterMap_append

theorem takenBy_received [DecidableEq T] (t : T) (trace : List (Event β T)) (c : β) :
    takenBy t (trace ++ [.received c]) = takenBy t trace := by
  simp [takenBy]

theorem takenBy_called [DecidableEq T] (t u : T) (trace : List (Event β T)) :
    takenBy t (trace ++ [.called u]) = if u = t then [] else takenBy t trace := by
  simp [takenBy]

theorem takenBy_took [DecidableEq T] (t u : T) (trace : List (Event β T)) (c : β) :
    takenBy t (trace ++ [.took u c]) =
      if u = t then takenBy t trace ++ [c] else takenBy t trace := by
  simp [takenBy]

theorem Input.valid_empty (keys : Keys β) : (Input.empty : Input β).Valid keys := by
  constructor
  · exact Nat.zero_le _
  · intro _
    rfl
  · exact List.not_mem_nil

theorem Input.Valid.kill {keys : Keys β} {q : Input β} (valid : q.Valid keys) :
    ({ q with line := [] } : Input β).Valid keys := by
  have sizeLe := valid.size_le
  constructor
  · simp only [Input.size, List.length_nil] at sizeLe ⊢
    omega
  · intro _
    rfl
  · exact List.not_mem_nil

theorem Input.Valid.backspace {keys : Keys β} {q : Input β} (valid : q.Valid keys) :
    ({ q with line := q.line.dropLast } : Input β).Valid keys := by
  have sizeLe := valid.size_le
  constructor
  · simp only [Input.size, List.length_dropLast] at sizeLe ⊢
    omega
  · intro full
    have same : q.line = [] := by
      apply valid.full
      simp only [Input.size, List.length_dropLast] at full sizeLe ⊢
      omega
    simp [same]
  · intro member
    exact valid.open_ (List.dropLast_subset _ member)

variable [DecidableEq β]

/-- The next input, unless a byte is taken that is not at the front. -/
def accept (keys : Keys β) (q : Input β) : Event β T → Option (Input β)
  | .received c => some (q.receive keys c)
  | .called _ => some q
  | .took _ c =>
      if q.committed.head? = some c then some { q with committed := q.committed.tail } else none

/-- The input after a trace, if the trace is accepted. -/
def run (keys : Keys β) (trace : List (Event β T)) : Option (Input β) :=
  trace.foldlM (accept keys) Input.empty

/-- All bytes that were committed in a trace, in order. -/
def commits (keys : Keys β) (trace : List (Event β T)) : List β :=
  (trace.foldl (fun (state : Input β × List β) event =>
    match event with
    | .received c =>
        let q := state.1.receive keys c
        (q, state.2 ++ q.committed.drop state.1.committed.length)
    | .called _ => state
    | .took _ _ => ({ state.1 with committed := state.1.committed.tail }, state.2))
    (Input.empty, [])).2

section Steps

variable {keys : Keys β} {q : Input β}

theorem run_concat (keys : Keys β) (trace : List (Event β T)) (event : Event β T) :
    run keys (trace ++ [event]) = (run keys trace).bind fun q => accept keys q event := by
  simp [run, List.foldlM_append]

/-- Receiving a byte only adds to the end of the queue. -/
theorem committed_receive (keys : Keys β) (q : Input β) (c : β) :
    q.committed <+: (q.receive keys c).committed := by
  unfold Input.receive
  split
  · exact List.prefix_refl _
  split
  · exact List.prefix_refl _
  split
  · exact List.prefix_refl _
  split
  · dsimp only
    generalize (if c = keys.carriageReturn then keys.newline else c) = typed
    split
    · exact List.prefix_append _ _
    · exact List.prefix_refl _
  · exact List.prefix_refl _

theorem Input.Valid.receive (valid : q.Valid keys) (c : β) : (q.receive keys c).Valid keys := by
  have sizeLe := valid.size_le
  unfold Input.receive
  split
  · exact valid.kill
  split
  · exact valid.backspace
  split
  · exact valid
  split
  · rename_i room
    dsimp only
    generalize (if c = keys.carriageReturn then keys.newline else c) = typed
    split
    · constructor
      · simp only [Input.size, Input.commit, Input.type, List.length_append, List.length_nil,
          List.length_singleton] at room ⊢
        omega
      · intro _
        rfl
      · exact List.not_mem_nil
    · rename_i goesOn
      simp only [not_or] at goesOn
      constructor
      · simp only [Input.size, Input.type, List.length_append, List.length_singleton] at room ⊢
        omega
      · intro full
        exact absurd full goesOn.2.2
      · simp only [Input.type, List.mem_append, List.mem_singleton, not_or]
        exact ⟨valid.open_, fun same => goesOn.1 same.symm⟩
  · exact valid

theorem Input.Valid.accept {q' : Input β} {event : Event β T} (valid : q.Valid keys)
    (accepted : accept keys q event = some q') : q'.Valid keys := by
  cases event with
  | received c =>
      cases accepted
      exact valid.receive c
  | called t =>
      cases accepted
      exact valid
  | took t c =>
      simp only [LineDiscipline.accept] at accepted
      split at accepted
      · rename_i front
        cases accepted
        obtain ⟨rest, split⟩ := List.head?_eq_some_iff.mp front
        have sizeLe := valid.size_le
        simp only [Input.size, split, List.length_cons] at sizeLe
        constructor
        · simp only [Input.size, split, List.tail_cons]
          omega
        · intro full
          simp only [Input.size, split, List.tail_cons] at full
          omega
        · exact valid.open_
      · cases accepted

end Steps

/-- Committed bytes are taken in order, each once, and none is lost. -/
theorem taken_append_committed {keys : Keys β} {trace : List (Event β T)} {q : Input β}
    (accepted : run keys trace = some q) : taken trace ++ q.committed = commits keys trace := by
  -- the fold of `commits` carries the same input along
  suffices carried : (trace.foldl (fun (state : Input β × List β) event =>
      match event with
      | .received c =>
          let q := state.1.receive keys c
          (q, state.2 ++ q.committed.drop state.1.committed.length)
      | .called _ => state
      | .took _ _ => ({ state.1 with committed := state.1.committed.tail }, state.2))
      (Input.empty, [])) = (q, taken trace ++ q.committed) by
    rw [commits, carried]
  induction trace using List.reverseRecOn generalizing q with
  | nil =>
      cases accepted
      rfl
  | append_singleton trace event ih =>
      rw [run_concat] at accepted
      obtain ⟨before, earlier, step⟩ := Option.bind_eq_some_iff.mp accepted
      rw [List.foldl_append, ih earlier]
      cases event with
      | received c =>
          cases step
          obtain ⟨more, split⟩ := committed_receive keys before c
          simp [taken, ← split]
      | called t =>
          cases step
          simp [taken]
      | took t c =>
          simp only [accept] at step
          split at step
          · rename_i front
            cases step
            obtain ⟨rest, split⟩ := List.head?_eq_some_iff.mp front
            simp [taken, split]
          · cases step

end LineDiscipline
