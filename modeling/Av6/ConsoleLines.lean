import Av6.CircularBuffer
import Av6.ConsoleInput

/-!
# The input ring represents the line discipline

Index `r` counts the bytes that readers have taken, `w` those that were committed and `e`
also those of the line, all modulo the word size; the ring holds the queue and behind it the
line.  Every step of the interrupt thread or of a reader is a step of the line discipline, or
none.
-/

namespace Av6

namespace ConsoleInput

open Fmt LineDiscipline CircularBuffer

/-- The keys of the console. -/
def consoleKeys : Keys Byte where
  killLine := ctrl 'U'
  backspace := ctrl 'H'
  delete := 0x7f
  null := 0
  carriageReturn := 13
  newline := 10
  endOfFile := ctrl 'D'
  capacity := INPUT_BUF_SIZE

/-- The index that counts `n` bytes. -/
def index (n : Nat) : BitVec 64 := BitVec.ofNat 64 n

theorem index_succ (n : Nat) : index (n + 1) = index n + 1 := by
  simp [index, BitVec.ofNat_add]

theorem index_pred {n : Nat} (pos : 0 < n) : index n - 1 = index (n - 1) := by
  obtain ⟨m, rfl⟩ := Nat.exists_eq_add_of_lt pos
  rw [Nat.zero_add, index_succ, Nat.add_sub_cancel, BitVec.add_sub_cancel]

theorem slot_index (n : Nat) : slot (index n) = n % INPUT_BUF_SIZE := by
  simp only [slot, index, BitVec.toNat_ofNat, INPUT_BUF_SIZE]
  omega

theorem index_sub {first last : Nat} (ordered : first ≤ last)
    (near : last ≤ first + INPUT_BUF_SIZE) :
    (index last - index first).toNat = last - first := by
  simp only [index, BitVec.toNat_sub, BitVec.toNat_ofNat, INPUT_BUF_SIZE] at near ⊢
  omega

theorem index_inj {first last : Nat} (ordered : first ≤ last)
    (near : last ≤ first + INPUT_BUF_SIZE) : index last = index first ↔ last = first := by
  constructor
  · intro same
    have distance := index_sub ordered near
    rw [same, BitVec.sub_self, BitVec.toNat_zero] at distance
    omega
  · intro same
    rw [same]

/-- The ring holds the input `q`, behind `r` bytes that are gone. -/
structure Holds (cons : Cons) (r : Nat) (q : Input Byte) : Prop where
  r_eq : cons.r = index r
  w_eq : cons.w = index (r + q.committed.length)
  e_eq : cons.e = index (r + q.size)
  bytes : slice INPUT_BUF_SIZE cons.buf r q.size = q.committed ++ q.line
  size_le : q.size ≤ INPUT_BUF_SIZE

section Ring

variable {cons : Cons} {r : Nat} {q : Input Byte}

/-- The order of the indices. -/
theorem Holds.ordered (holds : Holds cons r q) :
    r ≤ r + q.committed.length ∧ r + q.committed.length ≤ r + q.size ∧
      r + q.size ≤ r + INPUT_BUF_SIZE := by
  have := holds.size_le
  simp only [Input.size] at *
  omega

theorem Holds.edited (holds : Holds cons r q) : cons.e = cons.w ↔ q.line = [] := by
  obtain ⟨-, upper, limit⟩ := holds.ordered
  rw [holds.e_eq, holds.w_eq, index_inj upper (by omega), ← List.length_eq_zero_iff]
  simp only [Input.size]
  omega

theorem Holds.nothing (holds : Holds cons r q) : cons.r = cons.w ↔ q.committed = [] := by
  obtain ⟨lower, upper, limit⟩ := holds.ordered
  rw [eq_comm, holds.r_eq, holds.w_eq, index_inj lower (by omega), ← List.length_eq_zero_iff]
  omega

theorem Holds.used (holds : Holds cons r q) : (cons.e - cons.r).toNat = q.size := by
  obtain ⟨lower, upper, limit⟩ := holds.ordered
  rw [holds.e_eq, holds.r_eq, index_sub (by omega) limit]
  omega

/-- A byte at a position of the window. -/
theorem Holds.byte (holds : Holds cons r q) {i : Nat} (bound : i < q.size) :
    (q.committed ++ q.line)[i]? = some (cons.buf (slot (index (r + i)))) := by
  rw [← holds.bytes, List.getElem?_eq_getElem (by simpa using bound), slice_getElem, slot_index]

theorem holds_init (buf : Nat → Byte) : Holds ⟨buf, 0, 0, 0⟩ 0 Input.empty where
  r_eq := rfl
  w_eq := rfl
  e_eq := rfl
  bytes := rfl
  size_le := Nat.zero_le _

/-- The last byte of the line is taken back. -/
theorem Holds.erase (holds : Holds cons r q) (open_ : q.line ≠ []) :
    Holds { cons with e := cons.e - 1 } r { q with line := q.line.dropLast } := by
  have pos : 0 < q.line.length := List.length_pos_iff.mpr open_
  have size : q.size = ({ q with line := q.line.dropLast } : Input Byte).size + 1 := by
    simp only [Input.size, List.length_dropLast]
    omega
  constructor
  · exact holds.r_eq
  · exact holds.w_eq
  · rw [holds.e_eq, size, ← Nat.add_assoc, index_succ, BitVec.add_sub_cancel]
  · have window := holds.bytes
    have parts : q.committed ++ q.line = (q.committed ++ q.line.dropLast) ++
        [q.line.getLast open_] := by
      rw [List.append_assoc, List.dropLast_append_getLast]
    rw [size, slice_succ, parts] at window
    exact (List.append_inj' window rfl).1
  · have := holds.size_le
    omega

/-- Erasing the line byte by byte; it has no newline to stop at. -/
theorem Holds.killLine (holds : Holds cons r q) (open_ : 10 ∉ q.line) (rounds : Nat)
    (enough : q.line.length ≤ rounds) : Holds (killLine rounds cons).1 r { q with line := [] } := by
  induction rounds generalizing cons q with
  | zero =>
      have none_ := List.length_eq_zero_iff.mp (Nat.le_zero.mp enough)
      have same : ({ q with line := [] } : Input Byte) = q := by rw [← none_]
      rw [same]
      exact holds
  | succ rounds ih =>
      unfold ConsoleInput.killLine
      split
      · rename_i more
        have some_ : q.line ≠ [] := fun none_ => more.1 (holds.edited.mpr none_)
        have left : q.line.dropLast.length ≤ rounds := by
          simp only [List.length_dropLast]
          omega
        have after := ih (q := { q with line := q.line.dropLast }) (holds.erase some_)
          (fun member => open_ (List.dropLast_subset _ member)) left
        exact after
      · rename_i stops
        have none_ : q.line = [] := by
          by_contra some_
          have pos : 0 < q.line.length := List.length_pos_iff.mpr some_
          apply stops
          refine ⟨fun same => some_ (holds.edited.mp same), fun newline => ?_⟩
          have bound : q.size - 1 < q.size := by
            simp only [Input.size]
            omega
          have last := holds.byte bound
          have position : index (r + (q.size - 1)) = cons.e - 1 := by
            rw [holds.e_eq, index_pred (by omega)]
            congr 1
            omega
          rw [position, newline, List.getElem?_append_right (by simp only [Input.size]; omega)]
            at last
          exact open_ (List.mem_of_getElem? last)
        have same : ({ q with line := [] } : Input Byte) = q := by rw [← none_]
        rw [same]
        exact holds

/-- A byte is appended to the line. -/
theorem Holds.type (holds : Holds cons r q) (room : q.size < INPUT_BUF_SIZE) (c : Byte) :
    Holds { cons with buf := Function.update cons.buf (slot cons.e) c, e := cons.e + 1 } r
      (q.type c) := by
  have size : (q.type c).size = q.size + 1 := by
    simp only [Input.size, Input.type, List.length_append, List.length_singleton]
    omega
  constructor
  · exact holds.r_eq
  · exact holds.w_eq
  · rw [size, ← Nat.add_assoc, index_succ, holds.e_eq]
  · rw [size, slice_succ, holds.e_eq, slot_index]
    dsimp only
    rw [slice_update_behind _ _ _ room, holds.bytes, Function.update_self, List.append_assoc]
    rfl
  · omega

theorem Holds.commit (holds : Holds cons r q) : Holds { cons with w := cons.e } r q.commit := by
  have size : q.commit.size = q.size := by
    simp [Input.size, Input.commit]
  constructor
  · exact holds.r_eq
  · dsimp only
    rw [holds.e_eq]
    simp [Input.commit, Input.size]
  · rw [size]
    exact holds.e_eq
  · rw [size]
    simpa [Input.commit] using holds.bytes
  · rw [size]
    exact holds.size_le

/-- A byte at the end of the line, which may complete it. -/
def typeLine (q : Input Byte) (c : Byte) : Input Byte :=
  if c = 10 ∨ c = ctrl 'D' ∨ (q.type c).size = INPUT_BUF_SIZE then (q.type c).commit
  else q.type c

theorem receive_consoleKeys (q : Input Byte) (c : Byte) :
    q.receive consoleKeys c =
      if c = ctrl 'U' then { q with line := [] }
      else if c = ctrl 'H' ∨ c = 0x7f then { q with line := q.line.dropLast }
      else if c = 0 then q
      else if q.size < INPUT_BUF_SIZE then
        typeLine q (if c = 13 then 10 else c)
      else q :=
  rfl

/-- A byte is appended, and the line is committed if it ends there. -/
theorem Holds.typeLine (holds : Holds cons r q) (room : q.size < INPUT_BUF_SIZE) (c : Byte) :
    Holds (storeChar c cons).1 r (typeLine q c) ∧
      ((storeChar c cons).2.2 = false → (typeLine q c).committed = q.committed) := by
  have typed := holds.type room c
  unfold storeChar ConsoleInput.typeLine
  simp only [typed.used]
  split
  · exact ⟨typed.commit, by simp⟩
  · exact ⟨typed, fun _ => rfl⟩

/-- The switch of `console_intr` does what receiving the byte does, and wakes the readers
whenever there is something new for them. -/
theorem Holds.char (holds : Holds cons r q) (open_ : 10 ∉ q.line) (c : Byte) :
    Holds (consoleChar c cons).1 r (q.receive consoleKeys c) ∧
      ((consoleChar c cons).2.2 = false →
        (q.receive consoleKeys c).committed = q.committed) := by
  have length : (cons.e - cons.w).toNat = q.line.length := by
    obtain ⟨-, upper, limit⟩ := holds.ordered
    rw [holds.e_eq, holds.w_eq, index_sub upper (by omega)]
    simp only [Input.size]
    omega
  rw [receive_consoleKeys]
  unfold consoleChar
  by_cases kill : c = ctrl 'U'
  · rw [if_pos kill, if_pos kill]
    exact ⟨holds.killLine open_ _ (Nat.le_of_eq length.symm), fun _ => rfl⟩
  rw [if_neg kill, if_neg kill]
  by_cases erase : c = ctrl 'H' ∨ c = 0x7f
  · rw [if_pos erase, if_pos erase]
    by_cases line : cons.e = cons.w
    · have none_ := holds.edited.mp line
      have same : ({ q with line := q.line.dropLast } : Input Byte) = q := by
        simp only [none_, List.dropLast_nil]
        rw [← none_]
      rw [if_neg (not_not.mpr line), same]
      exact ⟨holds, fun _ => rfl⟩
    · rw [if_pos line]
      exact ⟨holds.erase fun none_ => line (holds.edited.mpr none_), fun _ => rfl⟩
  rw [if_neg erase, if_neg erase, holds.used]
  by_cases null : c = 0
  · rw [if_neg fun both => both.1 null, if_pos null]
    exact ⟨holds, fun _ => rfl⟩
  rw [if_neg null]
  by_cases room : q.size < INPUT_BUF_SIZE
  · rw [if_pos ⟨null, room⟩, if_pos room]
    exact holds.typeLine room _
  · rw [if_neg fun both => room both.2, if_neg room]
    exact ⟨holds, fun _ => rfl⟩

/-- A reader takes the byte at the front. -/
theorem Holds.take {c : Byte} {rest : List Byte} (holds : Holds cons r q)
    (front : q.committed = c :: rest) :
    cons.buf (slot cons.r) = c ∧
      Holds { cons with r := cons.r + 1 } (r + 1) { q with committed := rest } := by
  have size : q.size = ({ q with committed := rest } : Input Byte).size + 1 := by
    simp only [Input.size, front, List.length_cons]
    omega
  have window := holds.bytes
  rw [size, slice_cons, front] at window
  obtain ⟨first, others⟩ := List.cons.inj window
  constructor
  · rw [holds.r_eq, slot_index]
    exact first
  · constructor
    · rw [index_succ, holds.r_eq]
    · dsimp only
      rw [holds.w_eq, front, List.length_cons]
      congr 1
      omega
    · rw [holds.e_eq, size]
      congr 1
      omega
    · exact others
    · have := holds.size_le
      omega

end Ring

/-- The code that runs with `cons_lock` held. -/
def ReadPc.locked : ReadPc → Bool
  | .loop _ _ | .leave _ _ => true
  | _ => false

/-- What a read that has taken `got` returns, with `q` left: up to `target` bytes that end at
the first newline or stop before a `^D`, or nothing for a leading `^D`.  Only a killed process
fails. -/
def Outcome (q : Input Byte) (killed : Bool) (target : Nat) (got : List Byte) :
    Option (List Byte) → Prop
  | none => killed = true
  | some out =>
      out.length ≤ target ∧ (∀ c ∈ out, c ≠ ctrl 'D') ∧ (∀ c ∈ out.dropLast, c ≠ 10) ∧
        (got = out ∧ (out.length = target ∨ out.getLast? = some 10 ∨
            out ≠ [] ∧ q.committed.head? = some (ctrl 'D')) ∨
          0 < target ∧ out = [] ∧ got = [ctrl 'D'])

/-- What a read knows at its position; `got` is what it has taken. -/
def ReadPc.Ok (q : Input Byte) (killed : Bool) (got : List Byte) : ReadPc → Prop
  | .enter _ => got = []
  | .loop target out | .woken target out =>
      got = out ∧ out.length ≤ target ∧ ∀ c ∈ out, c ≠ 10 ∧ c ≠ ctrl 'D'
  | .asleep target out =>
      q.committed = [] ∧ got = out ∧ out.length ≤ target ∧ ∀ c ∈ out, c ≠ 10 ∧ c ≠ ctrl 'D'
  | .leave target result => Outcome q killed target got result
  | _ => True

theorem ReadPc.Ok.killed {q : Input Byte} {killed : Bool} {got : List Byte} {pc : ReadPc}
    (ok : pc.Ok q killed got) : pc.Ok q true got := by
  cases pc with
  | leave target result =>
      cases result with
      | none => exact rfl
      | some out => exact ok
  | _ => exact ok

/-- A step outside the lock keeps what a read knows, unless it sleeps over new input. -/
theorem ReadPc.Ok.outside {q q' : Input Byte} {killed : Bool} {got : List Byte} {pc : ReadPc}
    (ok : pc.Ok q killed got) (unlocked : pc.locked = false)
    (still : ∀ target out, pc = .asleep target out → q.committed = [] → q'.committed = []) :
    pc.Ok q' killed got := by
  cases pc with
  | leave target result => cases unlocked
  | asleep target out => exact ⟨still target out rfl ok.1, ok.2⟩
  | _ => exact ok

theorem ReadPc.Ok.wakeup {q q' : Input Byte} {killed : Bool} {got : List Byte} {pc : ReadPc}
    (ok : pc.Ok q killed got) (unlocked : pc.locked = false) : pc.wakeup.Ok q' killed got := by
  cases pc with
  | leave target result => cases unlocked
  | asleep target out => exact ok.2
  | _ => exact ok

theorem ReadPc.locked_wakeup (pc : ReadPc) : pc.wakeup.locked = pc.locked := by
  cases pc <;> rfl

variable {T : Type*} [DecidableEq T]

/-- The invariant, for an input `q`. -/
structure InputOk (s : InState T) (q : Input Byte) : Prop where
  accepted : run consoleKeys s.trace = some q
  holds : Holds s.cons (taken s.trace).length q
  valid : q.Valid consoleKeys
  lock : ∀ t, (s.pc t).locked = true ↔ s.lock = some (.reader t)
  intr : s.drained.isSome = true ↔ s.lock = some .intr
  reads : ∀ t, (s.pc t).Ok q (s.killed t) (takenBy t s.trace)

theorem inInit_ok (buf : Nat → Byte) : InputOk (inInit buf : InState T) Input.empty where
  accepted := rfl
  holds := holds_init buf
  valid := Input.valid_empty _
  lock t := by simp [inInit, ReadPc.locked]
  intr := by simp [inInit]
  reads _ := trivial

section Steps

variable {s : InState T} {q : Input Byte}

/-- No reader is inside the lock while the interrupt thread has it. -/
theorem InputOk.noReader (ok : InputOk s q) (held : s.lock = none ∨ s.lock = some .intr) (t : T) :
    (s.pc t).locked = false := by
  cases at_ : (s.pc t).locked with
  | false => rfl
  | true =>
      have here := (ok.lock t).mp at_
      rcases held with held | held <;> rw [held] at here <;> cases here

theorem InputOk.others (ok : InputOk s q) {t u : T} (held : (s.pc t).locked = true)
    (other : u ≠ t) : (s.pc u).locked = false := by
  cases at_ : (s.pc u).locked with
  | false => rfl
  | true =>
      have first := (ok.lock t).mp held
      rw [(ok.lock u).mp at_] at first
      cases first
      exact absurd rfl other

/-- The position of one reader changes, on the same side of the lock. -/
theorem InputOk.goto (ok : InputOk s q) {t : T} {pc : ReadPc}
    (side : pc.locked = (s.pc t).locked) (knows : pc.Ok q (s.killed t) (takenBy t s.trace)) :
    InputOk (s.goto t pc) q where
  accepted := ok.accepted
  holds := ok.holds
  valid := ok.valid
  lock u := by
    by_cases here : u = t
    · subst here
      simp only [InState.goto, Function.update_self, side]
      exact ok.lock u
    · simp only [InState.goto, Function.update_of_ne here]
      exact ok.lock u
  intr := ok.intr
  reads u := by
    by_cases here : u = t
    · subst here
      simpa only [InState.goto, Function.update_self] using knows
    · simpa only [InState.goto, Function.update_of_ne here] using ok.reads u

theorem InputOk.acquire (ok : InputOk s q) {t : T} {pc : ReadPc} (free : s.lock = none)
    (locked : pc.locked = true) (knows : pc.Ok q (s.killed t) (takenBy t s.trace)) :
    InputOk ({ s with lock := some (.reader t) }.goto t pc) q where
  accepted := ok.accepted
  holds := ok.holds
  valid := ok.valid
  lock u := by
    by_cases here : u = t
    · subst here
      simp [InState.goto, locked]
    · simp only [InState.goto, Function.update_of_ne here, ok.noReader (Or.inl free) u]
      simp [Ne.symm here]
  intr := by
    have idle := ok.intr
    rw [free] at idle
    simp only [InState.goto, idle]
    simp
  reads u := by
    by_cases here : u = t
    · subst here
      simpa only [InState.goto, Function.update_self] using knows
    · simpa only [InState.goto, Function.update_of_ne here] using ok.reads u

theorem InputOk.release (ok : InputOk s q) {t : T} {pc : ReadPc}
    (held : (s.pc t).locked = true) (unlocked : pc.locked = false)
    (knows : pc.Ok q (s.killed t) (takenBy t s.trace)) :
    InputOk ({ s with lock := none }.goto t pc) q where
  accepted := ok.accepted
  holds := ok.holds
  valid := ok.valid
  lock u := by
    by_cases here : u = t
    · subst here
      simp [InState.goto, unlocked]
    · simp [InState.goto, Function.update_of_ne here, ok.others held here]
  intr := by
    have idle := ok.intr
    rw [(ok.lock t).mp held] at idle
    simp only [InState.goto, idle]
    simp
  reads u := by
    by_cases here : u = t
    · subst here
      simpa only [InState.goto, Function.update_self] using knows
    · simpa only [InState.goto, Function.update_of_ne here] using ok.reads u

/-- The counters of the interrupt thread matter to nobody else. -/
theorem InputOk.count (ok : InputOk s q) (err : RxErr) {drained : Option Nat}
    (same : drained.isSome = s.drained.isSome) :
    InputOk { s with rxErr := err, drained := drained } q where
  accepted := ok.accepted
  holds := ok.holds
  valid := ok.valid
  lock := ok.lock
  intr := by
    simp only [same]
    exact ok.intr
  reads := ok.reads

/-- A character goes through the switch of `console_intr`. -/
theorem InputOk.char (ok : InputOk s q) (held : s.lock = some .intr) (c : Byte) (err : RxErr) :
    InputOk
      { s with
        rxErr := err
        cons := (consoleChar c s.cons).1
        echoed := s.echoed ++ (consoleChar c s.cons).2.1
        pc := if (consoleChar c s.cons).2.2 then fun t => (s.pc t).wakeup else s.pc
        trace := s.trace ++ [.received c] } (q.receive consoleKeys c) := by
  obtain ⟨holds, quiet⟩ := ok.holds.char ok.valid.open_ c
  constructor
  · rw [run_concat, ok.accepted]
    rfl
  · simpa [taken] using holds
  · exact ok.valid.receive c
  · intro t
    dsimp only
    split
    · rw [ReadPc.locked_wakeup]
      exact ok.lock t
    · exact ok.lock t
  · exact ok.intr
  · intro t
    have unlocked := ok.noReader (Or.inr held) t
    rw [takenBy_received]
    dsimp only
    split
    · exact (ok.reads t).wakeup unlocked
    · rename_i sleepOn
      apply (ok.reads t).outside unlocked
      intro target out _ nothing
      rw [quiet (Bool.eq_false_iff.mpr sleepOn), nothing]

theorem InputOk.receive (ok : InputOk s q) (held : s.lock = some .intr) (raw : BitVec 32) :
    ∃ q', InputOk (s.receive raw) q' := by
  unfold InState.receive
  dsimp only
  -- a word in error is counted; an overrun is counted and its byte is good
  split
  · split
    · exact ⟨q, ok.count _ rfl⟩
    · exact ⟨q, ok.count _ rfl⟩
  · split
    · exact ⟨_, ok.char held (dataOf raw) _⟩
    · exact ⟨_, ok.char held (dataOf raw) s.rxErr⟩

theorem InputOk.call (ok : InputOk s q) {t : T} (free : (s.pc t).locked = false) (target : Nat) :
    InputOk ({ s with trace := s.trace ++ [Event.called t] }.goto t (.enter target)) q where
  accepted := by
    simp only [InState.goto]
    rw [run_concat, ok.accepted]
    rfl
  holds := by simpa [InState.goto, taken] using ok.holds
  valid := ok.valid
  lock u := by
    by_cases here : u = t
    · subst here
      have unheld := ok.lock u
      rw [free] at unheld
      simpa [InState.goto, ReadPc.locked] using unheld
    · simp only [InState.goto, Function.update_of_ne here]
      exact ok.lock u
  intr := ok.intr
  reads u := by
    simp only [InState.goto]
    rw [takenBy_called]
    by_cases here : u = t
    · subst here
      rw [if_pos rfl, Function.update_self]
      exact rfl
    · rw [if_neg (Ne.symm here), Function.update_of_ne here]
      exact ok.reads u

/-- A reader takes the byte at the front. -/
theorem InputOk.take (ok : InputOk s q) {t : T} {c : Byte} {rest : List Byte} {pc : ReadPc}
    (held : (s.pc t).locked = true) (front : q.committed = c :: rest) (locked : pc.locked = true)
    (knows : pc.Ok { q with committed := rest } (s.killed t) (takenBy t s.trace ++ [c])) :
    InputOk ((s.take t c).goto t pc) { q with committed := rest } := by
  obtain ⟨-, holds⟩ := ok.holds.take front
  have accepted : accept consoleKeys q (.took t c) = some { q with committed := rest } := by
    simp [accept, front]
  constructor
  · simp only [InState.goto, InState.take]
    rw [run_concat, ok.accepted]
    exact accepted
  · simpa [InState.goto, InState.take, taken] using holds
  · exact ok.valid.accept accepted
  · intro u
    by_cases here : u = t
    · subst here
      simp only [InState.goto, Function.update_self]
      exact iff_of_true locked ((ok.lock u).mp held)
    · simp only [InState.goto, Function.update_of_ne here]
      exact ok.lock u
  · exact ok.intr
  · intro u
    simp only [InState.goto, InState.take]
    rw [takenBy_took]
    by_cases here : u = t
    · subst here
      rw [if_pos rfl, Function.update_self]
      exact knows
    · rw [if_neg (Ne.symm here), Function.update_of_ne here]
      apply (ok.reads u).outside (ok.others held here)
      intro target out _ nothing
      rw [nothing] at front
      cases front

/-- The rest of the loop of `console_read`. -/
theorem InputOk.readByte (ok : InputOk s q) {t : T} {target : Nat} {out : List Byte}
    (at_ : s.pc t = .loop target out) (more : 0 < target - out.length)
    (some_ : s.cons.r ≠ s.cons.w) :
    ∃ q', InputOk (s.readByte t target out (s.cons.buf (slot s.cons.r))) q' := by
  have held : (s.pc t).locked = true := by rw [at_]; rfl
  have knows := ok.reads t
  rw [at_] at knows
  obtain ⟨got, -, plain⟩ := knows
  have nonempty : q.committed ≠ [] := fun none_ => some_ (ok.holds.nothing.mpr none_)
  obtain ⟨c, rest, front⟩ := List.exists_cons_of_ne_nil nonempty
  rw [(ok.holds.take front).1]
  unfold InState.readByte
  split
  · rename_i eof
    split
    · rename_i something
      refine ⟨q, ok.goto (by rw [held]; rfl) ?_⟩
      refine ⟨by omega, fun b member => (plain b member).2,
        fun b member => (plain b (List.dropLast_subset _ member)).1, Or.inl ⟨got, ?_⟩⟩
      exact Or.inr (Or.inr ⟨something, by rw [front, eof]; rfl⟩)
    · rename_i none_
      rw [not_not] at none_
      subst none_
      refine ⟨_, ok.take held front rfl ?_⟩
      rw [got, eof]
      exact ⟨Nat.zero_le _, by simp, by simp, Or.inr ⟨by simpa using more, rfl, rfl⟩⟩
  · rename_i notEof
    have within : (out ++ [c]).length ≤ target := by
      rw [List.length_append, List.length_singleton]
      omega
    split
    · rename_i newline
      refine ⟨_, ok.take held front rfl ?_⟩
      rw [got]
      refine ⟨within, ?_, ?_, Or.inl ⟨rfl, Or.inr (Or.inl (by simp [newline]))⟩⟩
      · intro b member
        rcases List.mem_append.mp member with old | new
        · exact (plain b old).2
        · obtain rfl := List.mem_singleton.mp new
          exact notEof
      · rw [List.dropLast_concat]
        exact fun b member => (plain b member).1
    · rename_i notNewline
      refine ⟨_, ok.take held front rfl ?_⟩
      rw [got]
      refine ⟨rfl, within, ?_⟩
      intro b member
      rcases List.mem_append.mp member with old | new
      · exact plain b old
      · obtain rfl := List.mem_singleton.mp new
        exact ⟨notNewline, notEof⟩

theorem InputOk.step {s' : InState T} (ok : InputOk s q) (step : InStep s s') :
    ∃ q', InputOk s' q' := by
  cases step with
  | intrLock free idle =>
      refine ⟨q, ?_⟩
      exact {
        accepted := ok.accepted
        holds := ok.holds
        valid := ok.valid
        lock := fun t => by simp [ok.noReader (Or.inl free) t]
        intr := by simp
        reads := ok.reads }
  | @intrReceive drained at_ more raw some_ =>
      have held := ok.intr.mp (by rw [at_]; rfl)
      obtain ⟨q', after⟩ := ok.receive held raw
      have same : (s.receive raw).drained = s.drained := by
        unfold InState.receive
        dsimp only
        split <;> split <;> rfl
      exact ⟨q', after.count _ (by rw [same, at_]; rfl)⟩
  | intrEnd at_ =>
      have held := ok.intr.mp (by rw [at_]; rfl)
      refine ⟨q, ?_⟩
      exact {
        accepted := ok.accepted
        holds := ok.holds
        valid := ok.valid
        lock := fun t => by simp [ok.noReader (Or.inr held) t]
        intr := by simp
        reads := ok.reads }
  | kill t =>
      refine ⟨q, { ok with reads := fun u => ?_ }⟩
      by_cases here : u = t
      · subst here
        simp only [Function.update_self]
        exact (ok.reads u).killed
      · simp only [Function.update_of_ne here]
        exact ok.reads u
  | call t target at_ =>
      have free : (s.pc t).locked = false := by
        rcases at_ with at_ | ⟨n, result, at_⟩ <;> rw [at_] <;> rfl
      exact ⟨q, ok.call free target⟩
  | @lock t target at_ free =>
      have knows := ok.reads t
      rw [at_] at knows
      exact ⟨q, ok.acquire free rfl ⟨knows, Nat.zero_le _, by simp⟩⟩
  | @done t target out at_ enough =>
      have knows := ok.reads t
      rw [at_] at knows
      obtain ⟨got, within, plain⟩ := knows
      refine ⟨q, ok.goto (by rw [at_]; rfl) ?_⟩
      exact ⟨within, fun b member => (plain b member).2,
        fun b member => (plain b (List.dropLast_subset _ member)).1,
        Or.inl ⟨got, Or.inl (by omega)⟩⟩
  | @giveUp t target out at_ more nothing killed =>
      exact ⟨q, ok.goto (by rw [at_]; rfl) killed⟩
  | @sleep t target out at_ more nothing alive =>
      have knows := ok.reads t
      rw [at_] at knows
      exact ⟨q, ok.release (by rw [at_]; rfl) rfl ⟨ok.holds.nothing.mp nothing, knows⟩⟩
  | @wake t target out at_ =>
      have knows := ok.reads t
      rw [at_] at knows
      exact ⟨q, ok.goto (by rw [at_]; rfl) knows.2⟩
  | @relock t target out at_ free =>
      have knows := ok.reads t
      rw [at_] at knows
      exact ⟨q, ok.acquire free rfl knows⟩
  | read at_ more some_ => exact ok.readByte at_ more some_
  | @unlock t target result at_ => exact ⟨q, ok.release (by rw [at_]; rfl) rfl trivial⟩

end Steps

theorem inputOk_of_reachable {s : InState T} (reached : InReachable s) : ∃ q, InputOk s q := by
  apply TransitionSystem.Reachable.invariant (I := fun s => ∃ q, InputOk s q) ?_ ?_ reached
  · intro s start
    obtain ⟨buf, rfl⟩ := start
    exact ⟨_, inInit_ok buf⟩
  · intro s s' _ holds step
    obtain ⟨q, ok⟩ := holds
    exact ok.step step

/-- The ring holds the queue between `r` and `w` and the line between `w` and `e`; a full ring
is committed. -/
def Represents (cons : Cons) (q : Input Byte) : Prop :=
  ∃ r w e : Nat, cons.r = index r ∧ cons.w = index w ∧ cons.e = index e ∧
    r ≤ w ∧ w ≤ e ∧ e ≤ r + INPUT_BUF_SIZE ∧ (e = r + INPUT_BUF_SIZE → w = e) ∧
    slice INPUT_BUF_SIZE cons.buf r (w - r) = q.committed ∧
    slice INPUT_BUF_SIZE cons.buf w (e - w) = q.line

theorem Holds.represents {cons : Cons} {r : Nat} {q : Input Byte} (holds : Holds cons r q)
    (valid : q.Valid consoleKeys) : Represents cons q := by
  obtain ⟨lower, upper, limit⟩ := holds.ordered
  have window := holds.bytes
  rw [Input.size, slice_append] at window
  obtain ⟨committed, line⟩ := List.append_inj window (slice_length _ _ _ _)
  refine ⟨r, r + q.committed.length, r + q.size, holds.r_eq, holds.w_eq, holds.e_eq, lower, upper,
    limit, ?_, ?_, ?_⟩
  · intro full
    have none_ := valid.full (by omega : q.size = INPUT_BUF_SIZE)
    simp [Input.size, none_]
  · rw [Nat.add_sub_cancel_left]
    exact committed
  · have length : r + q.size - (r + q.committed.length) = q.line.length := by
      simp only [Input.size]
      omega
    rw [length]
    exact line

/-- The console implements its line discipline: what was received and taken is explained by a
queue and a line that the ring represents, committed bytes are taken in order and each once, a
reader sleeps only while nothing is committed, and every read has its outcome. -/
theorem console_input_refines {s : InState T} (reached : InReachable s) :
    ∃ q, run consoleKeys s.trace = some q ∧ Represents s.cons q ∧
      taken s.trace ++ q.committed = commits consoleKeys s.trace ∧
      (∀ t target out, s.pc t = .asleep target out → q.committed = []) ∧
      ∀ t target result, s.pc t = .leave target result →
        Outcome q (s.killed t) target (takenBy t s.trace) result := by
  obtain ⟨q, ok⟩ := inputOk_of_reachable reached
  refine ⟨q, ok.accepted, ok.holds.represents ok.valid, taken_append_committed ok.accepted, ?_, ?_⟩
  · intro t target out at_
    have knows := ok.reads t
    rw [at_] at knows
    exact knows.1
  · intro t target result at_
    have knows := ok.reads t
    rw [at_] at knows
    exact knows

/-- A reader asks for two bytes, sleeps, and is woken by the letter `A` and a carriage
return. -/
theorem exists_line_read : ∃ s : InState Unit, InReachable s ∧
    s.pc () = .leave 2 (some [ascii 'A', 10]) ∧ s.killed () = false := by
  have boot : InReachable (inInit fun _ => 0 : InState Unit) := .start ⟨_, rfl⟩
  have called := boot.next (.call () 2 (Or.inl rfl))
  have locked := called.next (.lock (t := ()) rfl rfl)
  have asleep := locked.next (.sleep (t := ()) rfl (by decide) rfl rfl)
  have intr := asleep.next (.intrLock rfl rfl)
  have letter := intr.next (.intrReceive rfl (by decide) 65 (by decide))
  have newline := letter.next (.intrReceive rfl (by decide) 13 (by decide))
  have drained := newline.next (.intrEnd rfl)
  have again := drained.next (.relock (t := ()) rfl rfl)
  have first := again.next (.read (t := ()) rfl (by decide) (by decide))
  have second := first.next (.read (t := ()) rfl (by decide) (by decide))
  exact ⟨_, second, rfl, rfl⟩

theorem console_input_refines_line : ∃ (s : InState Unit) (q : Input Byte), InReachable s ∧
    s.pc () = .leave 2 (some [ascii 'A', 10]) ∧ Represents s.cons q ∧
      Outcome q (s.killed ()) 2 (takenBy () s.trace) (some [ascii 'A', 10]) := by
  obtain ⟨s, reached, at_, -⟩ := exists_line_read
  obtain ⟨q, -, represents, -, -, outcomes⟩ := console_input_refines reached
  exact ⟨s, q, reached, at_, represents, outcomes () 2 _ at_⟩

end ConsoleInput

end Av6
