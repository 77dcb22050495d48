import Av6.LifeCalls

/-!
# Runs of the machine

What holds in every state that calls of processes lead to, from the boot on: the pages have their
holders, `initproc` and the parents have not exited.  A call stops for few reasons, none of them in
the allocators.
-/

namespace Av6

namespace Life

open FallibleState Kmem Pmap Elf Fork Sbrk TransitionSystem

variable {m m' : Machine} {live : CacheRef → Multiset Nat} {place : Place} {pages : List Nat}
  {p : Nat} {call : Call} {programs : List (String × Image)} {clients : System} {e : Panic}

/-- The machine before the first process, with what clients hold of the memory. -/
structure Start (clients : System) (m : Machine) : Prop where
  reached : KmemReachable Op.Fits clients
  alloc : clients.alloc = m.kernel.vm.kmem
  initial : Initial m.kernel
  initproc : m.initproc = none

/-- The states of the runs that start so. -/
def Runs (programs : List (String × Image)) (clients : System) (m : Machine) : Prop :=
  Reachable (Start clients) (Step programs) m

/-- What holds between the calls. -/
structure Sound (pages : List Nat) (live : CacheRef → Multiset Nat) (place : Place)
    (m : Machine) : Prop where
  ok : KernelOk live place m.kernel
  housed : Housed pages place m.kernel
  family : Family m.initproc m.kernel

theorem Start.sound (start : Start clients m) :
    ∃ live, Sound (wholePages clients.grants) live (clientPlace (wholePages clients.grants)) m := by
  obtain ⟨live, ok⟩ := start.initial.ok_clients start.reached start.alloc
  have none_ := start.initial.allproc
  refine ⟨live, ok, ?_, ?_⟩
  · refine ⟨fun _ => rfl, fun _ => rfl, ?_, ?_, ?_, ?_, ?_⟩
    · intro slot of filled
      cases slot with
      | table | leaf | stack => exact absurd rfl filled
      | stackTable | hand | client => exact of.elim
    · simp [none_]
    · simp [none_]
    · simp [none_]
    · simp [none_]
  · refine ⟨?_, ?_, fun _ => 0, ?_⟩
    · intro i some_
      rw [start.initproc] at some_
      cases some_
    · simp [none_]
    · simp [none_]

/-- The process whose memory a call works on. -/
def Call.Changes : Call → Nat → Prop
  | .exec _ _ p => (· = p)
  | .growproc p _ => (· = p)
  | .exit p _ => (· = p)
  | .wait _ p _ _ => (· = p)
  | _ => fun _ => False

/-- Why a call may stop. -/
def Call.Stops (m : Machine) : Call → Panic → Prop
  | .exec _ _ p, .kern why => ExecStops m.kernel p why
  | .growproc p n, .kern why => GrowprocStops m.kernel p n why
  | .exit p _, .initExiting => m.initproc = some p
  | _, _ => False

/-- A call on the kernel. -/
theorem onKernel_yields {α : Type} {f : Kern α} {E : Pmap.Panic → Prop} {E' : Panic → Prop}
    {who : Nat → Prop} (allowed : ∀ why, E why → E' (.kern why))
    (yields : YieldsOr E f m.kernel fun _ t => Effected who m.initproc pages place m.kernel t) :
    YieldsOr E' (onKernel f) m fun _ m' => m'.initproc = m.initproc ∧
      Effected who m.initproc pages place m.kernel m'.kernel := by
  apply yields.onPart.mono
  · rintro _ ⟨why, may, rfl⟩
    exact allowed why may
  · rintro _ _ ⟨t, rfl, effected⟩
    exact ⟨rfl, effected⟩

/-- The outcome of a call. -/
def Outcome (programs : List (String × Image)) (pages : List Nat) (place : Place) (m : Machine)
    (call : Call) : Prop :=
  YieldsOr (call.Stops m) (call.run programs) m fun _ m' => m'.initproc = m.initproc ∧
    Effected call.Changes m.initproc pages place m.kernel m'.kernel

/-- A call for which only the state after it matters. -/
theorem outcome_of_kernel {α : Type} {f : Kern α} {E : Pmap.Panic → Prop}
    (run : call.run programs = do let _ ← onKernel f)
    (allowed : ∀ why, E why → call.Stops m (.kern why))
    (yields : YieldsOr E f m.kernel fun _ t =>
      Effected call.Changes m.initproc pages place m.kernel t) :
    Outcome programs pages place m call := by
  unfold Outcome
  rw [run]
  apply (onKernel_yields allowed yields).bind
  intro _ m' holds
  exact .ret holds

/-- `exit` by a process that is not `initproc`. -/
theorem exit_effect {status : Int} (sound : Sound pages live place m) (listed : p ∈ m.kernel.allproc) :
    Outcome programs pages place m (.exit p status) := by
  unfold Outcome
  show YieldsOr _ (Life.exit p status) m _
  unfold Life.exit
  apply YieldsOr.read_bind
  split
  · rename_i init
    exact .inl ⟨.initExiting, init, rfl⟩
  · rename_i notInit
    have empties := (exitMemory_paired (E := fun _ => False) sound.ok listed).yields
    have kept : Yields (exitMemory p) m.kernel fun _ t =>
        Effected (· = p) m.initproc pages place m.kernel t := by
      apply empties.mono
      rintro _ t ⟨place', ok', reseated, -⟩
      exact ⟨live, place', Reseated.effect reseated sound.ok ok' sound.housed listed⟩
    apply (onKernel_yields (E := fun _ => False) (fun _ => False.elim) (.inr kept)).bind
    rintro _ m' ⟨same, live', place', first⟩
    refine .inr (.update ⟨same, live', place', ?_⟩)
    show Effect _ _ _ _ _ _ _ (bury p m'.initproc status m'.kernel)
    rw [same]
    have buried := bury_sameSpaces p m.initproc status m'.kernel
    obtain ⟨family, alive⟩ := bury_family status (first.family sound.family) notInit
    have second : Effect (· = p) m.initproc pages place' m'.kernel live' place' _ :=
      buried.effect first.ok first.housed (fun _ => family) alive
    refine first.trans second (fun _ => id) ?_
    intro q _ there
    rw [buried.rest] at there
    exact there

/-- Every call keeps the invariant, or stops for one of its reasons. -/
theorem call_effect (sound : Sound pages live place m) (legal : call.Legal m) :
    Outcome programs pages place m call := by
  obtain ⟨ok, housed, family⟩ := sound
  cases call with
  | kthreadAdd cpu fn isrc name =>
      exact outcome_of_kernel rfl (fun _ => False.elim) (.inr (kthreadAdd_effect m.initproc ok housed fn isrc name))
  | fork cpu cpu' p =>
      exact outcome_of_kernel rfl (fun _ => False.elim) (.inr (fork_effect m.initproc ok housed (legal p rfl)))
  | exec path uargv p =>
      exact outcome_of_kernel rfl (fun _ => id)
        ((exec_effect m.initproc ok housed (legal p rfl).1).mono (fun _ => id) fun _ _ => And.left)
  | growproc p n =>
      exact outcome_of_kernel rfl (fun _ => id)
        ((growproc_effect m.initproc ok housed n (legal p rfl).1).mono (fun _ => id) fun _ _ => And.left)
  | exit p status => exact exit_effect ⟨ok, housed, family⟩ (legal p rfl).1
  | wait cpu p xstatus woken =>
      exact outcome_of_kernel rfl (fun _ => False.elim)
        (.inr ((wait_effect m.initproc ok housed (legal p rfl)).mono fun _ _ => And.left))
  | kill pid => exact outcome_of_kernel rfl (fun _ => False.elim) (.inr (kill_effect m.initproc ok housed pid))

/-- Every step keeps the invariant. -/
theorem step_sound (sound : Sound pages live place m) (step : Step programs m m') :
    ∃ live place, Sound pages live place m' := by
  cases step with
  | call call legal runs =>
      obtain ⟨init, live', place', effect⟩ := (call_effect sound legal).post_of_eq runs
      refine ⟨live', place', effect.ok, effect.housed, ?_⟩
      rw [init]
      exact effect.family sound.family
  | userinit cpu image runs =>
      obtain ⟨⟨live', place', effect⟩, np, list, alive, orphan⟩ :=
        userinit_effect m.initproc sound.ok sound.housed runs
      have family := effect.family sound.family
      refine ⟨live', place', effect.ok, effect.housed, ?_, family.parents, family.ranked⟩
      intro i some_
      rw [list] at some_
      cases some_
      exact ⟨alive, orphan⟩

theorem runs_sound (runs : Runs programs clients m) :
    ∃ live place, Sound (wholePages clients.grants) live place m := by
  apply Reachable.invariant
    (I := fun m => ∃ live place, Sound (wholePages clients.grants) live place m) ?_ ?_ runs
  · intro m start
    obtain ⟨live, sound⟩ := start.sound
    exact ⟨live, _, sound⟩
  · intro m m' _ ⟨live, place, sound⟩ step
    exact step_sound sound step

/-- Whether a fork of the process `p` makes the process `c`. -/
def forksChild (m : Machine) (p c : Nat) : Bool :=
  match (Call.fork 0 0 p).run [] m with
  | .ok (_, t) => t.kernel.allproc = [c, p] ∧ t.initproc = some p ∧
      (t.kernel.procs c).parent = some p ∧ (t.kernel.procs c).state = .runnable ∧
      (t.kernel.procs p).state = .runnable
  | .error _ => false

/-- Whether `userinit` makes the process `p`, and a fork of it the process `c`. -/
def bootsChild (a : AllocState) (cache : CacheRef) (p c : Nat) : Bool :=
  match userinit 0 plainImage (bootKernel a cache) with
  | .ok (_, s) => s.allproc = [p] ∧ (s.procs p).state = .runnable ∧ forksChild ⟨s, some p⟩ p c
  | .error _ => false

/-- The first process with a child. -/
theorem exists_child : ∃ clients m p c, Runs [] clients m ∧ m.kernel.allproc = [c, p] ∧ c ≠ p ∧
    m.initproc = some p ∧ (m.kernel.procs c).parent = some p ∧
    (m.kernel.procs c).state = .runnable ∧ (m.kernel.procs p).state = .runnable := by
  have run : ((runFrom (ramPages 32) [(0, .create 512 0)]).any fun clients =>
      clients.alloc.managed = ramPages 32 ∧ .object 18446462598732966464 ∈ clients.alloc.kmemCaches ∧
      bootsChild clients.alloc (.object 18446462598732966464) 18446462598732939328
        18446462598732939840 = true) = true := by
    decide +kernel
  obtain ⟨clients, reached, holds⟩ : ∃ clients, KmemReachable Op.Fits clients ∧ _ := by
    refine reachable_of_runFrom (by decide) (by decide) ?_ run
    intro step there
    obtain rfl := List.mem_singleton.mp there
    intro _
    decide
  obtain ⟨ram, member, boots⟩ := of_decide_eq_true holds
  have initial := bootKernel_initial reached ram (by decide) member rfl
  unfold bootsChild at boots
  split at boots
  · rename_i s begins
    obtain ⟨listed, runnable, forks⟩ := of_decide_eq_true boots
    unfold forksChild at forks
    split at forks
    · rename_i m runs
      obtain ⟨both, init, parent, child, still⟩ := of_decide_eq_true forks
      have first : Runs [] clients ⟨s, s.allproc.head?⟩ :=
        (Reachable.start ⟨reached, rfl, initial, rfl⟩).next (.userinit (m := ⟨_, none⟩) 0 plainImage begins)
      rw [listed] at first
      have second : Runs [] clients m := by
        refine first.next (.call _ ?_ runs)
        rintro _ ⟨⟩
        exact ⟨by rw [listed]; exact List.mem_singleton_self _, by rw [runnable]; exact nofun⟩
      exact ⟨clients, m, _, _, second, both, by decide, init, parent, child, still⟩
    · cases forks
  · cases boots

/-- A call of a process that has not exited ends, or it stops for one of its reasons.  No assertion
of the page allocator or of the slab allocator fails. -/
theorem call_ends (runs : Runs programs clients m) (legal : call.Legal m) :
    (∃ m', call.run programs m = .ok ((), m')) ∨
      ∃ e, call.Stops m e ∧ call.run programs m = .error e := by
  obtain ⟨live, place, sound⟩ := runs_sound runs
  have outcome : Outcome programs _ place m call := call_effect sound legal
  rcases outcome with ⟨e, allowed, fails⟩ | yields
  · exact .inr ⟨e, allowed, fails⟩
  · obtain ⟨_, m', ends, -⟩ := yields
    exact .inl ⟨m', ends⟩

theorem call_ends_exit : ∃ clients m p c, Runs [] clients m ∧ m.kernel.allproc = [c, p] ∧
    (Call.exit c 3).Legal m ∧ ((∃ m', (Call.exit c 3).run [] m = .ok ((), m')) ∨
      ∃ e, (Call.exit c 3).Stops m e ∧ (Call.exit c 3).run [] m = .error e) := by
  obtain ⟨clients, m, p, c, runs, list, -, -, -, child, -⟩ := exists_child
  have legal : (Call.exit c 3).Legal m := by
    rintro _ ⟨⟩
    exact ⟨by simp [list], by simp [child]⟩
  exact ⟨clients, m, p, c, runs, list, legal, call_ends runs legal⟩

/-- The listed processes are a forest of processes that live, but for the leaves. -/
theorem family_of_runs (runs : Runs programs clients m) : Family m.initproc m.kernel := by
  obtain ⟨live, place, sound⟩ := runs_sound runs
  exact sound.family

theorem family_of_runs_child : ∃ clients m p c, Runs [] clients m ∧ m.kernel.allproc = [c, p] ∧
    (m.kernel.procs c).parent = some p ∧ Family m.initproc m.kernel := by
  obtain ⟨clients, m, p, c, runs, list, -, -, parent, -, -⟩ := exists_child
  exact ⟨clients, m, p, c, runs, list, parent, family_of_runs runs⟩

end Life

end Av6
