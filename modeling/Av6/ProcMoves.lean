import Av6.ProcInvariant

/-!
# Steps that touch only locks and the position of one context

Lock operations, decisions and returns do not change what the invariants say about
processes: the position before and the one after look the same to them.
-/

namespace Av6

namespace Proc

variable {ncpus : Nat} {P : Type*}

/-- The invariants cannot tell the two positions apart. -/
structure Moves (k k' : Code P) : Prop where
  zombied : k'.zombied = k.zombied
  owns : k'.owns = k.owns
  reaps : k'.reaps = k.reaps

theorem Code.quiet_of_interruptible {k : Code P} (open_ : k.interruptible = true) :
    k.zombied = false ∧ k.reaps = none ∧ k.scanned = [] := by
  cases k <;> first | exact ⟨rfl, rfl, rfl⟩ | cases open_

theorem Code.CallsWakeup.quiet {k : Code P} (back : k.CallsWakeup) :
    k.zombied = false ∧ k.reaps = none ∧ k.scanned = [] := by
  rcases back with open_ | ⟨st, rfl⟩ | ⟨st, rfl⟩
  · exact Code.quiet_of_interruptible open_
  · exact ⟨rfl, rfl, rfl⟩
  · exact ⟨rfl, rfl, rfl⟩

theorem Code.CallsActivate.quiet {k : Code P} (back : k.CallsActivate) :
    k.zombied = false ∧ k.reaps = none ∧ k.scanned = [] ∧ k.owns = none := by
  rcases back with rfl | ⟨pid, rfl⟩
  · exact ⟨rfl, rfl, rfl, rfl⟩
  · exact ⟨rfl, rfl, rfl, rfl⟩

section Control

variable {s : SchedState ncpus P} {self : Option P} {k k' : Code P} {l : Lock P}

theorem Acquires.moves (next : Acquires s self k l k') : Moves k k' := by
  cases next with
  | yield mine open_ =>
      obtain ⟨zombied, reaps, -⟩ := Code.quiet_of_interruptible open_
      exact ⟨zombied.symm, rfl, reaps.symm⟩
  | _ => exact ⟨rfl, rfl, rfl⟩

theorem Releases.moves (next : Releases s self k l k') (nested : k.Nested) : Moves k k' := by
  cases next with
  | yielded mine =>
      obtain ⟨zombied, reaps, -⟩ := Code.quiet_of_interruptible nested
      exact ⟨zombied, rfl, reaps⟩
  | wakeScan =>
      obtain ⟨zombied, reaps, -⟩ := Code.CallsWakeup.quiet nested
      exact ⟨zombied, rfl, reaps⟩
  | activateDone =>
      obtain ⟨zombied, reaps, -, owns⟩ := Code.CallsActivate.quiet nested
      exact ⟨zombied, owns, reaps⟩
  | waitKilled mine => split <;> exact ⟨rfl, rfl, rfl⟩
  | _ => exact ⟨rfl, rfl, rfl⟩

theorem Jumps.moves (next : Jumps s self k k') : Moves k k' := by
  cases next with
  | callWakeup addr open_ =>
      obtain ⟨zombied, reaps, -⟩ := Code.quiet_of_interruptible open_
      exact ⟨zombied.symm, rfl, reaps.symm⟩
  | _ => exact ⟨rfl, rfl, rfl⟩

theorem Returns.moves {value : Int} (next : Returns k l value) : Moves k .body := by
  cases next <;> exact ⟨rfl, rfl, rfl⟩

variable (listed : ∀ q ∈ k.scanned, q ∈ s.allproc)
include listed

theorem Acquires.scanned (hashed : ∀ b p, p ∈ s.pidhash b → p ∈ s.allproc)
    (next : Acquires s self k l k') : ∀ q ∈ k'.scanned, q ∈ s.allproc := by
  cases next with
  | wakeEnter => exact fun _ member => member
  | wakeScan => exact listed
  | waitLoop => exact fun _ member => member
  | waitScan => exact listed
  | killFind found =>
      intro q member
      simp only [Code.scanned, List.mem_singleton] at member
      subst member
      exact hashed _ _ (List.mem_of_find?_eq_some found)
  | _ => exact fun _ member => by cases member

theorem Releases.scanned (next : Releases s self k l k') (nested : k.Nested) :
    ∀ q ∈ k'.scanned, q ∈ s.allproc := by
  cases next with
  | yielded mine =>
      rw [(Code.quiet_of_interruptible nested).2.2]
      exact fun _ member => by cases member
  | wakeDone => exact fun q member => listed q (List.mem_cons_of_mem _ member)
  | wakeScan =>
      rw [(Code.CallsWakeup.quiet nested).2.2]
      exact fun _ member => by cases member
  | waitLocked => exact fun q member => listed q (List.mem_cons_of_mem _ member)
  | waitCopyFailed => exact listed
  | waitKilled => split <;> exact fun _ member => by cases member
  | activateDone =>
      rw [(Code.CallsActivate.quiet nested).2.2.1]
      exact fun _ member => by cases member
  | _ => exact fun _ member => by cases member

theorem Jumps.scanned (next : Jumps s self k k') : ∀ q ∈ k'.scanned, q ∈ s.allproc := by
  cases next with
  | wakeSelf => exact fun q member => listed q (List.mem_cons_of_mem _ member)
  | waitSkip => exact fun q member => listed q (List.mem_cons_of_mem _ member)
  | waitCopyout =>
      intro q member
      simp only [Code.scanned, List.mem_singleton] at member
      subst member
      exact listed q List.mem_cons_self
  | _ => exact fun _ member => by cases member

end Control

section Move

variable {s : SchedState ncpus P}

theorem SchedState.heldBy_congr {s t : SchedState ncpus P} {d : Fin ncpus}
    (cpu : t.cpu d = s.cpu d) (code : ∀ y, s.context d = some y → t.code y = s.code y) :
    t.heldBy d = s.heldBy d := by
  unfold heldBy
  unfold context at code
  rw [cpu]
  cases at_ : s.cpu d <;> simp_all

/-- Different CPUs execute different contexts. -/
theorem TokenOk.context_ne (ok : TokenOk s) {c d : Fin ncpus} {x : Context ncpus P}
    (on : s.context c = some x) (other : d ≠ c) : s.context d ≠ some x := by
  intro on'
  rcases s.context_eq_some on with ⟨p, running, rfl⟩ | ⟨-, rfl⟩ <;>
    rcases s.context_eq_some on' with ⟨q, running', same⟩ | ⟨-, same⟩ <;> cases same
  · exact other (ok.token_inj d c p (by rw [running']; rfl) (by rw [running]; rfl))
  · exact other rfl

/-- Nothing that the invariants are about changes, but locks and code. -/
structure SameData (s t : SchedState ncpus P) : Prop where
  state : ∀ p, (t.proc p).state = (s.proc p).state
  pid : ∀ p, (t.proc p).pid = (s.proc p).pid
  allocated : t.allocated = s.allocated
  allproc : t.allproc = s.allproc
  pidhash : t.pidhash = s.pidhash
  runq : t.runq = s.runq
  current : t.current = s.current
  cpu : t.cpu = s.cpu

theorem SameData.refl (s : SchedState ncpus P) : SameData s s :=
  ⟨fun _ => rfl, fun _ => rfl, rfl, rfl, rfl, rfl, rfl, rfl⟩

variable {t : SchedState ncpus P} {c : Fin ncpus} {x : Context ncpus P}

/-- The thread that a CPU executes is not waiting for a CPU. -/
theorem TokenOk.state_of_context (ok : TokenOk s) {p : P}
    (on : s.context c = some (.thread p)) :
    (s.proc p).state = .running ∨ (s.proc p).state = .zombie := by
  rcases s.context_eq_some on with ⟨q, running, same⟩ | ⟨-, same⟩ <;> cases same
  rw [ok.running c p running]
  split
  · exact Or.inr rfl
  · exact Or.inl rfl

/-- The lock invariant, when one context moves and the CPUs stay where they are. -/
theorem ControlOk.move (ok : ControlOk s) (token : TokenOk s) (on : s.context c = some x)
    (cpu : t.cpu = s.cpu) (current : t.current = s.current)
    (other : ∀ y, y ≠ x → t.code y = s.code y) (nested : (t.code x).Nested) (held : ∀ l, t.locks l = some c ↔ l ∈ (t.code x).held x.self)
    (others : ∀ d l, d ≠ c → (t.locks l = some d ↔ s.locks l = some d)) : ControlOk t := by
  refine ⟨?_, ?_, ?_, ?_, ?_⟩
  · intro d l
    by_cases same : d = c
    · subst same
      have on' : t.context d = some x := by
        unfold SchedState.context at on ⊢
        rwa [cpu]
      rw [t.heldBy_of_context on']
      exact held l
    · have heldBy : t.heldBy d = s.heldBy d := by
        refine SchedState.heldBy_congr (by rw [cpu]) ?_
        intro y on'
        refine other y ?_
        rintro rfl
        exact token.context_ne on same on'
      rw [heldBy, others d l same]
      exact ok.locks d l
  · intro y
    by_cases same : y = x
    · rw [same]
      exact nested
    · rw [other y same]
      exact ok.nested y
  · rw [current, cpu]
    exact ok.current
  · intro d busy
    rw [cpu] at busy
    rw [other]
    · exact ok.busy d busy
    · rintro rfl
      rcases s.context_eq_some on with ⟨p, -, same⟩ | ⟨idle, same⟩ <;> cases same
      rw [idle] at busy
      cases busy
  · intro p
    rw [cpu]
    by_cases same : Context.thread p = x
    · subst same
      rcases s.context_eq_some on with ⟨q, running, same⟩ | ⟨-, same⟩ <;> cases same
      exact Or.inl ⟨c, running⟩
    · rw [other _ same]
      exact ok.resting p

section Other

variable (data : SameData s t) (other : ∀ y, y ≠ x → t.code y = s.code y)
include data other

theorem TokenOk.move (ok : TokenOk s) (on : s.context c = some x)
    (moves : Moves (s.code x) (t.code x)) : TokenOk t := by
  have zombied : ∀ y, (t.code y).zombied = (s.code y).zombied := by
    intro y
    by_cases same : y = x
    · rw [same, moves.zombied]
    · rw [other y same]
  have owns : ∀ y, (t.code y).owns = (s.code y).owns := by
    intro y
    by_cases same : y = x
    · rw [same, moves.owns]
    · rw [other y same]
  have reaps : ∀ y, (t.code y).reaps = (s.code y).reaps := by
    intro y
    by_cases same : y = x
    · rw [same, moves.reaps]
    · rw [other y same]
  have waiting : ∀ p, (s.proc p).state = .used ∨ (s.proc p).state = .runnable ∨
      (s.proc p).state = .sleeping → t.code (.thread p) = s.code (.thread p) := by
    intro p waits
    refine other _ ?_
    rintro rfl
    rcases ok.state_of_context on with state | state <;> simp [state] at waits
  refine ⟨?_, ?_, ?_, ?_, ?_, ?_, ?_, ?_, ?_, ?_, ?_, ?_, ?_, ?_, ?_⟩ <;>
    simp only [data.runq, data.cpu, data.state, data.allocated, zombied, owns, reaps]
  · exact ok.runq_nodup
  · exact ok.runq_ok
  · exact ok.token_inj
  · exact ok.ready
  · exact ok.running
  · exact ok.back
  · exact ok.runnable
  · exact ok.requeued
  · intro p unborn
    rw [waiting p (Or.inl unborn)]
    exact ok.unborn p unborn
  · intro p waits
    rw [waiting p (Or.inr waits)]
    exact ok.suspended p waits
  · intro p sleeps
    rw [waiting p (Or.inr (Or.inr sleeps))]
    exact ok.sleeping p sleeps
  · exact ok.free
  · exact ok.owns
  · exact ok.owns_inj
  · exact ok.reaps

theorem TableOk.move (ok : TableOk s) (reaps : (t.code x).reaps = (s.code x).reaps)
    (scanned : ∀ q ∈ (t.code x).scanned, q ∈ s.allproc) : TableOk t := by
  refine ⟨?_, ?_, ?_, ?_, ?_, ?_, ?_⟩ <;>
    simp only [data.allproc, data.allocated, data.state, data.pidhash, data.pid]
  · exact ok.nodup
  · exact ok.published
  · exact ok.alive
  · exact ok.hashed
  · exact ok.hash_nodup
  · intro y
    by_cases same : y = x
    · rw [same]
      exact scanned
    · rw [other y same]
      exact ok.scanned y
  · intro y np reaped
    refine ok.reaped y np ?_
    by_cases same : y = x
    · rwa [same, ← reaps, ← same]
    · rwa [← other y same]

/-- The context of `c` moves, and the locks of `c` follow. -/
theorem SchedOk.move (ok : SchedOk s) (on : s.context c = some x)
    (moves : Moves (s.code x) (t.code x)) (nested : (t.code x).Nested)
    (scanned : ∀ q ∈ (t.code x).scanned, q ∈ s.allproc)
    (held : ∀ l, t.locks l = some c ↔ l ∈ (t.code x).held x.self)
    (others : ∀ d l, d ≠ c → (t.locks l = some d ↔ s.locks l = some d)) : SchedOk t :=
  ⟨ok.control.move ok.token on data.cpu data.current other nested held others,
    ok.token.move data other on moves, ok.table.move data other moves.reaps scanned⟩

end Other

theorem SchedOk.congr (ok : SchedOk s) (data : SameData s t) (locks : t.locks = s.locks)
    (code : t.code = s.code) : SchedOk t := by
  obtain ⟨⟨locksOk, nested, current, busy, resting⟩, token, table⟩ := ok
  refine ⟨⟨?_, ?_, ?_, ?_, ?_⟩, ?_, ?_⟩
  · intro c l
    rw [locks, SchedState.heldBy_congr (s := s) (by rw [data.cpu]) (by simp [code])]
    exact locksOk c l
  · rwa [code]
  · rwa [data.current, data.cpu]
  · rwa [data.cpu, code]
  · rwa [data.cpu, code]
  · obtain ⟨h1, h2, h3, h4, h5, h6, h7, h8, h9, h10, h11, h12, h13, h14, h15⟩ := token
    constructor <;> simp only [data.runq, data.cpu, data.state, data.allocated, code] <;>
      assumption
  · obtain ⟨h1, h2, h3, h4, h5, h6, h7⟩ := table
    constructor <;>
      simp only [data.allproc, data.allocated, data.state, data.pidhash, data.pid, code] <;>
      assumption

end Move

end Proc

end Av6
