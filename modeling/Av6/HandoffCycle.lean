import Mathlib.Data.List.Basic

/-!
# The life of a request that may be handed over

A source raises a request, and the one who takes it either settles it at once or hands it over
to a server, who runs a handler and settles it then.  Only a settled source can raise again.
A history that this automaton accepts settles nothing twice, settles nothing that was handed
over before its handler has run, and runs one handler at a time.
-/

namespace HandoffCycle

inductive Event
  | dispatch
  | schedule
  | start
  | finish
  | deactivate
  deriving DecidableEq

inductive Phase
  | idle
  | dispatched
  | scheduled
  | handling
  | handled
  deriving DecidableEq

def Phase.next : Phase → Event → Option Phase
  | .idle, .dispatch => some .dispatched
  | .dispatched, .schedule => some .scheduled
  | .dispatched, .deactivate => some .idle
  | .scheduled, .start => some .handling
  | .handling, .finish => some .handled
  | .handled, .deactivate => some .idle
  | _, _ => none

/-- The phase after a history, if the history is possible. -/
def run (phase : Phase) : List Event → Option Phase
  | [] => some phase
  | event :: events => (phase.next event).bind fun next => run next events

theorem run_append (phase : Phase) (first second : List Event) :
    run phase (first ++ second) = (run phase first).bind fun next => run next second := by
  induction first generalizing phase with
  | nil => rfl
  | cons event events ih =>
      cases step : phase.next event with
      | none => simp [run, step]
      | some next => simp [run, step, ih]

theorem run_snoc {phase middle next : Phase} {events : List Event}
    (ran : run phase events = some middle) (event : Event) (step : middle.next event = some next) :
    run phase (events ++ [event]) = some next := by
  rw [run_append, ran]
  simp [run, step]

/-- Every beginning of a possible history is possible. -/
theorem run_of_append {phase last : Phase} {first second : List Event}
    (ran : run phase (first ++ second) = some last) :
    ∃ middle, run phase first = some middle ∧ run middle second = some last := by
  rw [run_append] at ran
  exact Option.bind_eq_some_iff.mp ran

theorem run_cons {phase last : Phase} {event : Event} {events : List Event}
    (ran : run phase (event :: events) = some last) :
    ∃ next, phase.next event = some next ∧ run next events = some last :=
  Option.bind_eq_some_iff.mp ran

/-- A request that is handed over is settled after one whole run of the handler. -/
theorem eq_start_finish_of_run {last : Phase} {before between after : List Event}
    (ran : run .idle (before ++ .schedule :: (between ++ .deactivate :: after)) = some last)
    (first : Event.deactivate ∉ between) : between = [.start, .finish] := by
  obtain ⟨phase, -, ran⟩ := run_of_append ran
  obtain ⟨handed, step, ran⟩ := run_cons ran
  have same : handed = .scheduled := by
    cases phase <;> simp_all [Phase.next]
  subst same
  -- The automaton leaves the next two events no choice.
  match between, first, ran with
  | [], _, ran => simp [run, Phase.next] at ran
  | [one], _, ran =>
      obtain ⟨next, step, ran⟩ := run_cons ran
      cases one <;> simp_all [Phase.next, run]
  | one :: two :: rest, first, ran =>
      obtain ⟨next, step, ran⟩ := run_cons ran
      obtain ⟨next', step', ran⟩ := run_cons ran
      have started : one = .start ∧ next = .handling := by
        cases one <;> simp_all [Phase.next]
      obtain ⟨rfl, rfl⟩ := started
      have finished : two = .finish ∧ next' = .handled := by
        cases two <;> simp_all [Phase.next]
      obtain ⟨rfl, rfl⟩ := finished
      cases rest with
      | nil => rfl
      | cons three rest =>
          obtain ⟨next'', step'', -⟩ := run_cons ran
          cases three <;> simp_all [Phase.next]

/-- Whether a request is outstanding. -/
def Phase.open : Phase → Nat
  | .idle => 0
  | _ => 1

/-- Whether the handler is running. -/
def Phase.serving : Phase → Nat
  | .handling => 1
  | _ => 0

theorem balance_of_run {phase last : Phase} {events : List Event}
    (ran : run phase events = some last) :
    events.count .dispatch + phase.open = events.count .deactivate + last.open ∧
      events.count .start + phase.serving = events.count .finish + last.serving := by
  induction events generalizing phase with
  | nil =>
      cases ran
      simp
  | cons event events ih =>
      obtain ⟨next, step, ran⟩ := run_cons ran
      have rest := ih ran
      cases phase <;> cases event <;> simp only [Phase.next, reduceCtorEq] at step <;>
        cases step <;> simp [Phase.open, Phase.serving] at rest ⊢ <;> omega

end HandoffCycle
