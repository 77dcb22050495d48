import Av6.WaitReachable

/-!
# Every exit is returned once

The history records every `exit` that has taken effect and every `wait` that has
returned.  An exit is a zombie in the process list until a `wait` unlinks it, and that
`wait` alone returns it.
-/

namespace Av6

namespace Proc

variable {ncpus nslots : Nat} {P : Type*} {s t : SchedState ncpus P}
  {c : Fin ncpus} {x : Context ncpus P} {p q np : P} {k k' : Code P} {l : Lock P}

/-- What `wait` is about to return. -/
def Code.result : Code P → Option (WaitRecord P)
  | waitUnlinked _ r | waitUnlocked _ r | waitFree _ r | waitFreed r => some r
  | _ => none

/-- The child at hand in `wait`. -/
def Code.found : Code P → Option P
  | waitLocked _ np _ | waitCopyFailed np | waitFailed np => some np
  | _ => none

/-- The child whose status could not be copied out. -/
def Code.failed : Code P → Option P
  | waitCopyFailed np | waitFailed np => some np
  | _ => none

/-- The exit record of a process object. -/
def exitRecord (s : SchedState ncpus P) (p : P) : ExitRecord :=
  ⟨(s.proc p).birth, (s.proc p).pid, (s.proc p).xstate⟩

structure LedgerOk (s : SchedState ncpus P) : Prop where
  birth_lt : ∀ p, s.allocated p = true → (s.proc p).birth < s.births
  birth_inj : ∀ p q, s.allocated p = true → s.allocated q = true →
    (s.proc p).birth = (s.proc q).birth → p = q
  exits_lt : ∀ e ∈ s.exits, e.birth < s.births
  exits_nodup : (s.exits.map (·.birth)).Nodup
  alive : ∀ p, s.allocated p = true → (s.proc p).state ≠ .zombie →
    ∀ e ∈ s.exits, e.birth ≠ (s.proc p).birth
  zombie : ∀ p, s.allocated p = true → (s.proc p).state = .zombie → exitRecord s p ∈ s.exits
  found : ∀ p np, (s.code (.thread p)).found = some np → (s.proc np).parent = some p
  failed : ∀ x np, (s.code x).failed = some np → (s.proc np).state = .zombie
  result : ∀ x r, (s.code x).result = some r → x = .thread r.caller ∧
    r.parent = some r.caller ∧ r.child ∈ s.exits ∧
      ∀ r' ∈ s.returns, r'.child.birth ≠ r.child.birth
  reaping : ∀ x r np, (s.code x).result = some r → (s.code x).reaps = some np →
    r.child = exitRecord s np
  freed : ∀ x r, (s.code x).result = some r → (s.code x).reaps = none →
    ∀ p, s.allocated p = true → (s.proc p).birth ≠ r.child.birth
  returns : ∀ r ∈ s.returns, r.child ∈ s.exits ∧ r.parent = some r.caller ∧
    ∀ p, s.allocated p = true → (s.proc p).birth ≠ r.child.birth
  returns_nodup : (s.returns.map (·.child.birth)).Nodup
  /-- No exit is forgotten. -/
  accounted : ∀ e ∈ s.exits,
    (∃ q ∈ s.allproc, (s.proc q).state = .zombie ∧ exitRecord s q = e) ∨
      (∃ x r, (s.code x).result = some r ∧ r.child = e) ∨ ∃ r ∈ s.returns, r.child = e

/-- The step writes nothing into the history, and unlinks nothing. -/
structure SameLedger (s t : SchedState ncpus P) : Prop where
  births : t.births = s.births
  exits : t.exits = s.exits
  returns : t.returns = s.returns
  allocated : t.allocated = s.allocated
  record : ∀ p, exitRecord t p = exitRecord s p
  zombie : ∀ p, (t.proc p).state = .zombie ↔ (s.proc p).state = .zombie
  listed : ∀ q, q ∈ s.allproc → q ∈ t.allproc
  result : ∀ y, (t.code y).result = (s.code y).result
  reaps : ∀ y, (t.code y).reaps = (s.code y).reaps

theorem LedgerOk.frame (ok : LedgerOk s) (same : SameLedger s t)
    (found : ∀ p np, (t.code (.thread p)).found = some np → (t.proc np).parent = some p)
    (failed : ∀ x np, (t.code x).failed = some np → (t.proc np).state = .zombie) :
    LedgerOk t := by
  have birth : ∀ p, (t.proc p).birth = (s.proc p).birth := fun p =>
    congrArg ExitRecord.birth (same.record p)
  obtain ⟨birthLt, birthInj, exitsLt, exitsNodup, alive, zombie, -, -, result, reaping, freed,
    returns, returnsNodup, accounted⟩ := ok
  refine ⟨?_, ?_, ?_, ?_, ?_, ?_, found, failed, ?_, ?_, ?_, ?_, ?_, ?_⟩ <;>
    simp only [birth, same.births, same.exits, same.returns, same.allocated, same.record,
      same.zombie, same.result, same.reaps, ne_eq]
  · exact birthLt
  · exact birthInj
  · exact exitsLt
  · exact exitsNodup
  · exact alive
  · exact zombie
  · exact result
  · exact reaping
  · exact freed
  · exact returns
  · exact returnsNodup
  · intro e member
    rcases accounted e member with ⟨q, listed, rest⟩ | rest
    · exact Or.inl ⟨q, same.listed q listed, rest⟩
    · exact Or.inr rest

section Control

variable {self : Option P}

/-- How a move of the code changes what the ledger sees. -/
structure LedgerMove (s : SchedState ncpus P) (caller : Option P) (k k' : Code P) : Prop where
  result : k'.result = k.result
  reaps : k'.reaps = k.reaps
  found : ∀ np, k'.found = some np → k.found = some np ∨ (s.proc np).parent = caller
  failed : ∀ np, k'.failed = some np → k.failed = some np ∨ (s.proc np).state = .zombie

theorem Code.ledger_of_interruptible (open_ : k.interruptible = true) :
    k.result = none ∧ k.found = none ∧ k.failed = none := by
  cases k <;> first | exact ⟨rfl, rfl, rfl⟩ | cases open_

theorem LedgerMove.of_quiet (result : k.result = none ∧ k'.result = none)
    (reaps : k'.reaps = k.reaps) (found : k'.found = none) (failed : k'.failed = none) :
    LedgerMove s self k k' where
  result := result.2.trans result.1.symm
  reaps := reaps
  found np after := by
    rw [found] at after
    cases after
  failed np after := by
    rw [failed] at after
    cases after

theorem Acquires.ledger (next : Acquires s self k l k') : LedgerMove s self k k' := by
  have reaps := next.moves.reaps
  cases next with
  | yield mine open_ =>
      exact .of_quiet ⟨(Code.ledger_of_interruptible open_).1, rfl⟩ reaps rfl rfl
  | waitScan mine child =>
      refine ⟨rfl, rfl, ?_, by rintro np ⟨⟩⟩
      rintro _ ⟨⟩
      exact Or.inr (child.trans mine.symm)
  | _ => exact .of_quiet ⟨rfl, rfl⟩ rfl rfl rfl

theorem Releases.ledger (next : Releases s self k l k') (nested : k.Nested) :
    LedgerMove s self k k' := by
  have reaps := (next.moves nested).reaps
  cases next with
  | yielded mine =>
      obtain ⟨result, found, failed⟩ := Code.ledger_of_interruptible nested
      exact .of_quiet ⟨rfl, result⟩ reaps found failed
  | wakeScan =>
      rcases nested with open_ | ⟨st, rfl⟩ | ⟨st, rfl⟩
      · obtain ⟨result, found, failed⟩ := Code.ledger_of_interruptible open_
        exact .of_quiet ⟨rfl, result⟩ reaps found failed
      · exact .of_quiet ⟨rfl, rfl⟩ rfl rfl rfl
      · exact .of_quiet ⟨rfl, rfl⟩ rfl rfl rfl
  | activateDone =>
      rcases nested with rfl | ⟨pid, rfl⟩
      · exact .of_quiet ⟨rfl, rfl⟩ rfl rfl rfl
      · exact .of_quiet ⟨rfl, rfl⟩ rfl rfl rfl
  | waitKilled mine => split <;> exact .of_quiet ⟨rfl, rfl⟩ rfl rfl rfl
  | waitCopyFailed => exact ⟨rfl, rfl, fun _ => Or.inl, fun _ => Or.inl⟩
  | waitUnlinked => exact ⟨rfl, rfl, fun _ => Or.inl, fun _ => Or.inl⟩
  | waitUnlocked => exact ⟨rfl, rfl, fun _ => Or.inl, fun _ => Or.inl⟩
  | _ => exact .of_quiet ⟨rfl, rfl⟩ rfl rfl rfl

theorem Jumps.ledger (next : Jumps s self k k') : LedgerMove s self k k' := by
  have reaps := next.moves.reaps
  cases next with
  | callWakeup addr open_ =>
      exact .of_quiet ⟨(Code.ledger_of_interruptible open_).1, rfl⟩ reaps rfl rfl
  | waitCopyout exited pointer =>
      refine ⟨rfl, rfl, fun _ => Or.inl, ?_⟩
      rintro _ ⟨⟩
      exact Or.inr exited
  | _ => exact .of_quiet ⟨rfl, rfl⟩ rfl rfl rfl

end Control

end Proc

end Av6
