import Av6.Isolation
import Av6.SyscallExact

/-!
# Programs of users

Whatever the programs of the users compute, store and ask of the kernel, the machine stays sound, and
a process finds its memory and its registers as it left them.
-/

namespace Av6

namespace Syscall

open FallibleState Kmem Pmap Elf Fork Sbrk Life TransitionSystem
open Exec (userStore Trapframe userByte userBytes UserTree)
open UserCopy (Writable)

variable {s t : Sys} {m m' m'' : Machine} {live live' : CacheRef → Multiset Nat}
  {place place' : Place} {pages : List Nat} {p q root : Nat} {programs : List (String × Image)}
  {setting : Setting} {clients : System} {actor : Option Nat} {who : Nat → Prop}

/-- The machine is sound again, and all the processes but the one that acts are as they were. -/
structure Leaves (actor : Option Nat) (pages : List Nat) (m m' : Machine) : Prop where
  sound : ∃ live place, Sound pages live place m'
  others : ∀ q, actor ≠ some q → Alive m.kernel q → Alive m'.kernel q ∧ Untouched q m.kernel m'.kernel

theorem Leaves.trans (first : Leaves actor pages m m') (second : Leaves actor pages m' m'') :
    Leaves actor pages m m'' := by
  refine ⟨second.sound, fun q other alive => ?_⟩
  obtain ⟨alive', same⟩ := first.others q other alive
  obtain ⟨alive'', same'⟩ := second.others q other alive'
  exact ⟨alive'', same.trans same'⟩

theorem Leaves.refl (sound : Sound pages live place m) : Leaves actor pages m m :=
  ⟨⟨live, place, sound⟩, fun q _ alive => ⟨alive, .refl q _⟩⟩

theorem leaves_of_effected (sound : Sound pages live place m)
    (mine : ∀ q, who q → actor = some q)
    (effected : Effected who m.initproc pages place m.kernel m'.kernel)
    (init : Family m.initproc m'.kernel → Family m'.initproc m'.kernel) :
    Leaves actor pages m m' := by
  obtain ⟨live', place', effect⟩ := effected
  refine ⟨⟨live', place', effect.ok, effect.housed, init (effect.family sound.family)⟩, ?_⟩
  intro q other alive
  have not_mine := fun acts => other (mine q acts)
  have alive' := effect.alive q not_mine alive
  exact ⟨alive', (effect.spared q alive.1 alive'.1 not_mine).untouched sound.ok effect.ok alive.1⟩

/-- How far a system call of the process `p` has come. -/
structure Served (p : Nat) (pages : List Nat) (s t : Sys) : Prop where
  leaves : Leaves (some p) pages s.machine t.machine
  initproc : t.machine.initproc = s.machine.initproc

theorem Served.trans {u : Sys} (first : Served p pages s t) (second : Served p pages t u) :
    Served p pages s u :=
  ⟨first.leaves.trans second.leaves, second.initproc.trans first.initproc⟩

theorem Served.refl (sound : Sound pages live place s.machine) : Served p pages s s :=
  ⟨.refl sound, rfl⟩

section

variable (sound : Sound pages live place s.machine)
include sound

/-- A call of the kernel on behalf of the process. -/
theorem onKern_serves {α : Type} {f : Kern α} {E : Pmap.Panic → Prop} {E' : Life.Panic → Prop}
    {R : α → Kernel → Prop} (mine : ∀ q, who q → q = p) (allowed : ∀ why, E why → E' (.kern why))
    (yields : YieldsOr E f s.kernel fun a t =>
      Effected who s.machine.initproc pages place s.kernel t ∧ R a t) :
    YieldsOr E' (onKern f) s fun a t => Served p pages s t ∧ R a t.kernel := by
  have inMachine : YieldsOr E' (onKernel f) s.machine fun a m => (Leaves (some p) pages s.machine m ∧
      m.initproc = s.machine.initproc) ∧ R a m.kernel := by
    replace yields : YieldsOr E f s.machine.kernel _ := yields
    apply (YieldsOr.onPart yields).mono
    · rintro _ ⟨why, may, rfl⟩
      exact allowed why may
    · rintro a _ ⟨t, rfl, effected, holds⟩
      exact ⟨⟨leaves_of_effected sound (fun q acts => congrArg some (mine q acts).symm) effected id,
        rfl⟩, holds⟩
  apply (YieldsOr.onPart inMachine).mono
  · rintro _ ⟨e, may, rfl⟩
    exact may
  · rintro a _ ⟨m, rfl, ⟨leaves, init⟩, holds⟩
    exact ⟨⟨leaves, init⟩, holds⟩

/-- The process exits, unless it is `initproc`. -/
theorem exit_serves {status : Int} {E : Life.Panic → Prop} (alive : Alive s.kernel p)
    (allowed : s.machine.initproc = some p → E .initExiting) :
    YieldsOr E (onMachine (Life.exit p status)) s fun _ t => Served p pages s t := by
  have outcome : Outcome [] pages place s.machine (.exit p status) := exit_effect sound alive.1
  apply (YieldsOr.onPart outcome).mono
  · rintro e ⟨_, may, rfl⟩
    cases e with
    | kern why => exact may.elim
    | initExiting => exact allowed may
  · rintro _ _ ⟨m, rfl, init, effected⟩
    refine ⟨leaves_of_effected sound ?_ effected ?_, init⟩
    · exact fun q (acts : q = p) => congrArg some acts.symm
    · rw [init]
      exact id

/-- The process has other registers. -/
theorem setFrame_serves (alive : Alive s.kernel p) (frame : Trapframe) :
    Served p pages s (s.setFrame p frame) ∧ Alive (s.setFrame p frame).kernel p := by
  have reseated : Reseated p place place s.kernel (s.setFrame p frame).kernel := by
    have update := @reseated_of_update s.kernel place place p s.kernel.vm (s.kernel.procs p)
      (Function.update s.kernel.frames (s.kernel.procs p).tf frame) ⟨rfl, rfl, rfl, rfl, rfl, rfl⟩
      (fun a other => Function.update_of_ne other _ _) (.refl _ _ _ _) (fun r has _ _ _ => has)
    rw [Function.update_eq_self] at update
    exact update
  have ok : KernelOk live place (s.setFrame p frame).kernel := by
    obtain ⟨twins, bare, useMag, member, pids, slots, mapped, objects, process, apart⟩ := sound.ok
    exact ⟨twins, bare, useMag, member, pids, slots, mapped, objects, process, apart⟩
  refine ⟨⟨leaves_of_effected sound ?_
    ⟨live, place, Reseated.effect reseated sound.ok ok sound.housed alive.1⟩ id, rfl⟩, alive⟩
  exact fun q (acts : q = p) => congrArg some acts.symm

/-- The user has stored a byte. -/
theorem store_serves (user : UserMode s p root) (va : Nat) (byte : UInt8) :
    Served p pages s (s.withMemory (userStore s.kernel.vm.memory root va byte)) := by
  have space := user.space
  have rooted : ∀ r, some root = some r → place (.table r 0 0) = some r := by
    rintro r ⟨⟩
    exact ((sound.ok.process p user.listed).space root space).rooted
  have stored : Stored (s.kernel.procs p).pagetable live place s.kernel.vm
      { s.kernel.vm with memory := userStore s.kernel.vm.memory root va byte } := by
    rw [space]
    have stores : Yields (sttrb (some root) va byte) s.kernel.vm fun _ w =>
        Stored (some root) live place s.kernel.vm w := sttrb_stores rooted sound.ok.twins
    rcases sttrb_cases root va byte s.kernel.vm with ⟨-, runs⟩ | ⟨missed, runs⟩
    · exact stores.post_of_eq runs
    · rw [userStore_of_not_writable missed]
      exact stores.post_of_eq runs
  refine ⟨leaves_of_effected sound ?_ ⟨live, place,
    Reseated.effect stored.reseated sound.ok (stored.ok sound.ok) sound.housed user.listed⟩ id, rfl⟩
  exact fun q (acts : q = p) => congrArg some acts.symm

end

/-- Why a system call may stop. -/
def SyscallStops (s : Sys) (p : Nat) : Life.Panic → Prop
  | .initExiting => s.machine.initproc = some p
  | .kern why =>
      (s.frame p).x 8 = SYS_exec ∧ Panic.OfMapping why ∨
        (s.frame p).x 8 = SYS_sbrk ∧
          PastEnd ((s.kernel.procs p).sz + (BitVec.ofNat 32 ((s.frame p).x 0)).toInt).toNat why

/-- A handler of the table, called by the process. -/
def Serves (p : Nat) (pages : List Nat) (s : Sys) (handler : SysM (Option Nat)) : Prop :=
  YieldsOr (SyscallStops s p) handler s fun r t => Served p pages s t ∧ (r ≠ none → Alive t.kernel p)

theorem serves_map {α : Type} {m : SysM α} {f : α → Option Nat}
    (yields : YieldsOr (SyscallStops s p) m s fun _ t => Served p pages s t ∧ Alive t.kernel p) :
    Serves p pages s (f <$> m) := by
  have then_ : YieldsOr (SyscallStops s p) (m >>= fun a => pure (f a)) s fun r t =>
      Served p pages s t ∧ (r ≠ none → Alive t.kernel p) := by
    apply yields.bind
    rintro a t ⟨served, alive⟩
    exact .ret ⟨served, fun _ => alive⟩
  exact then_

theorem effected_alive {initproc : Option Nat} {k k' : Kernel} (alive : Alive k p)
    (effected : Effected (fun _ => False) initproc pages place k k') :
    Effected (fun _ => False) initproc pages place k k' ∧ Alive k' p := by
  obtain ⟨live', place', effect⟩ := effected
  exact ⟨⟨live', place', effect⟩, effect.alive p id alive⟩

theorem UserMode.alive (user : UserMode s p root) : Alive s.kernel p := ⟨user.listed, user.lives⟩

/-- The string that `copyinstr` finds depends on the memory alone. -/
theorem copyinstrBytes_reads {v : VmState} {max src : Nat} (inUser : src + max ≤ MAXUVA) :
    ∃ found, copyinstrBytes root max src v = .ok (found, v) := by
  induction max generalizing src with
  | zero => exact ⟨none, rfl⟩
  | succ max ih =>
      have here : src < MAXUVA := by omega
      unfold copyinstrBytes
      rw [bind_eq_of_ok (Exec.ldtrb_eq here v)]
      cases Exec.userByte v.memory root src with
      | none => exact ⟨none, rfl⟩
      | some byte =>
          dsimp only
          split
          · exact ⟨some [], rfl⟩
          · obtain ⟨rest, runs⟩ := @ih (src + 1) (by omega)
            rw [bind_eq_of_ok runs]
            exact ⟨rest.map (byte :: ·), rfl⟩

theorem copyinstr_reads (root : Nat) (v : VmState) (src max : Nat) :
    ∃ found, copyinstr root src max v = .ok (found, v) := by
  unfold copyinstr
  split
  · exact ⟨none, rfl⟩
  split
  · exact ⟨none, rfl⟩
  · rename_i range
    apply copyinstrBytes_reads
    unfold Exec.userRangeOk at range
    omega

section

variable (sound : Sound pages live place s.machine) (user : UserMode s p root)
include sound user

theorem fork_serves : Serves p pages s (some <$> sysFork setting p) := by
  have forks : YieldsOr (fun _ => False) (fork setting.cpu setting.cpu' p) s.kernel fun _ t =>
      Effected (fun _ => False) s.machine.initproc pages place s.kernel t ∧ Alive t p :=
    .inr ((fork_effect s.machine.initproc sound.ok sound.housed user.alive).mono fun _ _ =>
      effected_alive user.alive)
  apply serves_map
  apply (onKern_serves sound (fun _ => False.elim) (fun _ => False.elim) forks).bind
  rintro r t served
  exact .ret served

theorem exitCall_serves : Serves p pages s ((fun _ => none) <$> sysExit p) := by
  have exits : YieldsOr (SyscallStops s p) (sysExit p) s fun _ t => Served p pages s t :=
    YieldsOr.read_bind (exit_serves sound user.alive fun init => init)
  have then_ : Serves p pages s (sysExit p >>= fun _ => pure none) := by
    apply exits.bind
    rintro _ t served
    exact .ret ⟨served, fun some_ => absurd rfl some_⟩
  exact then_

theorem kill_serves : Serves p pages s (some <$> sysKill p) := by
  have kills : ∀ pid, YieldsOr (fun _ => False) (Life.kill pid) s.kernel fun _ t =>
      Effected (fun _ => False) s.machine.initproc pages place s.kernel t ∧ Alive t p := fun pid =>
    .inr ((kill_effect s.machine.initproc sound.ok sound.housed pid).mono fun _ _ =>
      effected_alive user.alive)
  apply serves_map
  unfold sysKill
  refine YieldsOr.read_bind ?_
  split
  · exact .ret ⟨.refl sound, user.alive⟩
  · apply (onKern_serves sound (fun _ => False.elim) (fun _ => False.elim) (kills _)).bind
    rintro r t served
    exact .ret served

theorem wait_serves : Serves p pages s (sysWait setting p) := by
  have waits : ∀ xstatus, YieldsOr (fun _ => False) (Life.wait setting.cpu p xstatus setting.woken)
      s.kernel fun _ t => Effected (· = p) s.machine.initproc pages place s.kernel t ∧ Alive t p :=
    fun xstatus => .inr (wait_effect s.machine.initproc sound.ok sound.housed user.alive)
  refine YieldsOr.read_bind ?_
  apply (onKern_serves sound (fun _ => id) (fun _ => False.elim) (waits _)).bind
  rintro r t ⟨served, alive⟩
  exact .ret ⟨served, fun _ => alive⟩

theorem sbrk_serves (number : (s.frame p).x 8 = SYS_sbrk) :
    Serves p pages s (some <$> sysSbrk p) := by
  have grows : ∀ n, YieldsOr (GrowprocStops s.kernel p n) (growproc p n) s.kernel fun _ t =>
      Effected (· = p) s.machine.initproc pages place s.kernel t ∧ Alive t p := fun n =>
    (growproc_effect s.machine.initproc sound.ok sound.housed n user.listed).mono (fun _ => id)
      fun _ _ ⟨effected, still⟩ => ⟨effected, still p user.alive⟩
  apply serves_map
  refine YieldsOr.read_bind ?_
  refine YieldsOr.read_bind ?_
  apply (onKern_serves sound (fun _ => id) ?_ (grows _)).bind
  · rintro r t served
    split
    · exact .ret served
    · exact .ret served
  · rintro why (⟨-, thread⟩ | past)
    · rw [user.space] at thread
      cases thread
    · exact .inr ⟨number, past⟩

theorem exec_serves (number : (s.frame p).x 8 = SYS_exec) :
    Serves p pages s (some <$> sysExec programs p) := by
  have execs : ∀ path uargv, YieldsOr (ExecStops s.kernel p) (Sbrk.exec programs path uargv p) s.kernel
      fun _ t => Effected (· = p) s.machine.initproc pages place s.kernel t ∧ Alive t p :=
    fun path uargv =>
      (exec_effect s.machine.initproc sound.ok sound.housed user.listed).mono (fun _ => id)
        fun _ _ ⟨effected, still⟩ => ⟨effected, still p user.alive⟩
  apply serves_map
  refine YieldsOr.read_bind ?_
  refine YieldsOr.read_bind ?_
  obtain ⟨found, runs⟩ := copyinstr_reads root s.kernel.vm ((s.frame p).x 0) MAXPATH
  have copied : onUser p (copyinstr · ((s.frame p).x 0) MAXPATH) s = .ok (found, s) :=
    onUser_eq user.space runs
  have read : YieldsOr (SyscallStops s p) (onUser p (copyinstr · ((s.frame p).x 0) MAXPATH)) s
      fun _ t => t = s := .inr (.of_eq copied rfl)
  apply read.bind
  rintro (_ | path) _ rfl
  · exact .ret ⟨.refl sound, user.alive⟩
  · apply (onKern_serves sound (fun _ => id) ?_ (execs _ _)).bind
    · rintro r t served
      exact .ret served
    · rintro why (⟨-, thread⟩ | mapping)
      · rw [user.space] at thread
        cases thread
      · exact .inl ⟨number, mapping⟩

theorem write_serves : Serves p pages s (some <$> sysWrite p) := by
  apply serves_map
  refine YieldsOr.read_bind ?_
  refine YieldsOr.read_bind ?_
  refine YieldsOr.read_bind ?_
  split
  · exact .ret ⟨.refl sound, user.alive⟩
  · obtain ⟨w, bytes, -, -, runs, -⟩ := writeLoop_yields user.space ((s.frame p).x 1)
      (Nat.zero_le ((s.frame p).x 2))
    exact .inr (.of_eq runs ⟨⟨.refl sound, rfl⟩, user.alive⟩)

theorem read_serves : Serves p pages s (some <$> sysRead setting p) := by
  have copies : ∀ buf bytes, YieldsOr (fun _ => False)
      (onVm (Life.copyout (s.kernel.procs p).pagetable buf bytes)) s.kernel fun _ t =>
        Effected (· = p) s.machine.initproc pages place s.kernel t ∧ Alive t p := by
    intro buf bytes
    refine .inr ((copyout_effect s.machine.initproc sound.ok sound.housed bytes user.listed).mono ?_)
    rintro _ t ⟨rest, effect⟩
    refine ⟨⟨live, place, effect⟩, ?_⟩
    rw [rest]
    exact user.alive
  apply serves_map
  refine YieldsOr.read_bind ?_
  refine YieldsOr.read_bind ?_
  refine YieldsOr.read_bind ?_
  split
  · exact .ret ⟨.refl sound, user.alive⟩
  split
  · exact .ret ⟨.refl sound, user.alive⟩
  dsimp only
  generalize setting.consoleRead _ = line
  cases line with
  | none => exact .ret ⟨.refl sound, user.alive⟩
  | some bytes =>
      dsimp only
      split
      · exact .ret ⟨.refl sound, user.alive⟩
      · refine YieldsOr.read_bind ?_
        apply (onKern_serves sound (fun _ => id) (fun _ => False.elim) (copies _ bytes)).bind
        rintro copied t served
        split
        · exact .ret served
        · exact .ret served

end

/-- Every system call leaves the other processes alone. -/
theorem syscall_serves (sound : Sound pages live place s.machine) (user : UserMode s p root) :
    YieldsOr (SyscallStops s p) (syscall programs setting p) s fun back t =>
      Served p pages s t ∧ (back = true → Alive t.kernel p) := by
  have answers : ∀ r t, Served p pages s t → Alive t.kernel p →
      Served p pages s (t.answer p r) ∧ (true = true → Alive (t.answer p r).kernel p) := by
    intro r t served alive
    obtain ⟨live', place', sound'⟩ := served.leaves.sound
    obtain ⟨answered, still⟩ := setFrame_serves sound' alive
      { t.frame p with x := Function.update (t.frame p).x 0 r }
    exact ⟨served.trans answered, fun _ => still⟩
  have handlers : ∀ handler, syscalls programs setting p ((s.frame p).x 8) = some handler →
      Serves p pages s handler := by
    intro handler table
    unfold syscalls at table
    split at table <;> cases table
    · apply serves_map
      exact .read_bind (.ret ⟨.refl sound, user.alive⟩)
    · exact write_serves sound user
    · exact fork_serves sound user
    · exact exitCall_serves sound user
    · exact wait_serves sound user
    · exact kill_serves sound user
    · exact sbrk_serves sound user ‹_›
    · exact exec_serves sound user ‹_›
    · exact read_serves sound user
  unfold syscall
  refine YieldsOr.read_bind ?_
  cases table : syscalls programs setting p ((s.frame p).x 8) with
  | none => exact .update_bind (.ret (answers _ _ (.refl sound) user.alive))
  | some handler =>
      apply (handlers handler table).bind
      rintro (_ | r) t ⟨served, alive⟩
      · exact .ret ⟨served, nofun⟩
      · exact .update_bind (.ret (answers r t served (alive nofun)))

/-- A trap of a process leaves the other processes alone. -/
theorem usertrap_serves (sound : Sound pages live place s.machine) (user : UserMode s p root)
    (esr : BitVec 64) : YieldsOr (SyscallStops s p) (usertrapSync programs setting p esr) s fun _ t =>
      Served p pages s t := by
  unfold usertrapSync
  split
  · apply (syscall_serves sound user).bind
    rintro (_ | _) t ⟨served, alive⟩
    · exact .ret served
    · obtain ⟨live', place', sound'⟩ := served.leaves.sound
      rw [if_pos rfl]
      apply YieldsOr.read_bind
      split
      · apply (exit_serves sound' (alive rfl) ?_).mono fun _ => id
        · exact fun _ u exited => served.trans exited
        · intro init
          exact served.initproc.symm.trans init
      · exact .ret served
  · exact exit_serves sound user.alive id

/-- Every step leaves the processes alone whose step it is not. -/
theorem step_leaves (sound : Sound pages live place s.machine) (step : Step programs actor s t) :
    Leaves actor pages s.machine t.machine := by
  cases step with
  | compute user frame => exact (setFrame_serves sound user.alive frame).1.leaves
  | store user va byte => exact (store_serves sound user va byte).leaves
  | trap user setting esr runs => exact ((usertrap_serves sound user esr).post_of_eq runs).leaves
  | kthreadAdd cpu fn isrc name runs =>
      unfold onKern onMachine onKernel at runs
      obtain ⟨m, inMachine, rfl⟩ := exists_of_onPart runs
      obtain ⟨k, inKernel, rfl⟩ := exists_of_onPart inMachine
      have effected := (kthreadAdd_effect s.machine.initproc sound.ok sound.housed fn isrc name).post_of_eq
        inKernel
      exact leaves_of_effected sound (fun _ => False.elim) effected id
  | userinit cpu image runs =>
      obtain ⟨effected, np, list, alive, orphan⟩ :=
        userinit_effect s.machine.initproc sound.ok sound.housed runs
      refine leaves_of_effected sound (fun _ => False.elim) effected fun family => ?_
      refine ⟨?_, family.parents, family.ranked⟩
      intro i some_
      replace some_ : _ = some i := some_
      rw [list] at some_
      cases some_
      exact ⟨alive, orphan⟩

/-- The machine before the first process; the console has been given nothing. -/
structure Boots (clients : System) (s : Sys) : Prop where
  start : Start clients s.machine
  output : s.output = []

/-- The states of the runs of the whole system. -/
def Runs (programs : List (String × Image)) (clients : System) (s : Sys) : Prop :=
  Reachable (Boots clients) (fun s t => ∃ actor, Step programs actor s t) s

theorem runs_sound (runs : Runs programs clients s) :
    ∃ live place, Sound (wholePages clients.grants) live place s.machine := by
  apply Reachable.invariant
    (I := fun s : Sys => ∃ live place, Sound (wholePages clients.grants) live place s.machine) ?_ ?_ runs
  · intro s boots
    obtain ⟨live, sound⟩ := boots.start.sound
    exact ⟨live, _, sound⟩
  · rintro s t _ ⟨live, place, sound⟩ ⟨actor, step⟩
    exact (step_leaves sound step).sound

/-- The syndrome of a system call. -/
def svcSyndrome : BitVec 64 := 0x15 <<< 26

/-- A setting in which nobody types. -/
def quietSetting : Setting := ⟨0, 0, false, fun _ => none, nofun⟩

/-- Registers that all hold a number. -/
def uniform (n : Nat) : Trapframe := ⟨fun _ => n, 0, 0, 0, 0⟩

/-- Whether a system call of the user `p` makes the user `c`. -/
def forksUser (s : Sys) (p c : Nat) : Bool :=
  match usertrapSync [] quietSetting p svcSyndrome (s.setFrame p (uniform SYS_fork)) with
  | .ok (_, t) => t.kernel.allproc = [c, p] ∧ (t.kernel.procs c).state = .runnable ∧
      (t.kernel.procs p).state = .runnable ∧ (t.kernel.procs c).pagetable.isSome ∧
      (t.kernel.procs p).pagetable.isSome
  | .error _ => false

/-- Whether `userinit` makes the user `p`, and a system call of it the user `c`. -/
def bootsUsers (a : AllocState) (cache : CacheRef) (p c : Nat) : Bool :=
  match Sbrk.userinit 0 plainImage (bootKernel a cache) with
  | .ok (_, k) => k.allproc = [p] ∧ (k.procs p).state = .runnable ∧ (k.procs p).pagetable.isSome ∧
      forksUser ⟨⟨k, some p⟩, []⟩ p c
  | .error _ => false

theorem runs_of_bootsUsers {cache : CacheRef} {c : Nat} (reached : KmemReachable Op.Fits clients)
    (initial : Initial (bootKernel clients.alloc cache))
    (boots : bootsUsers clients.alloc cache p c = true) :
    ∃ s root root', Runs [] clients s ∧ UserMode s p root ∧ UserMode s c root' := by
  unfold bootsUsers at boots
  split at boots
  · rename_i k begins
    obtain ⟨listed, runnable, space, forks⟩ := of_decide_eq_true boots
    unfold forksUser at forks
    split at forks
    · rename_i t traps
      obtain ⟨both, child, parent, space', space''⟩ := of_decide_eq_true forks
      obtain ⟨root, space⟩ := Option.isSome_iff_exists.mp space
      obtain ⟨root', space'⟩ := Option.isSome_iff_exists.mp space'
      obtain ⟨root'', space''⟩ := Option.isSome_iff_exists.mp space''
      have first : Runs [] clients ⟨⟨k, k.allproc.head?⟩, []⟩ :=
        (Reachable.start ⟨⟨reached, rfl, initial, rfl⟩, rfl⟩).next
          ⟨none, .userinit (s := ⟨⟨_, none⟩, []⟩) 0 plainImage begins⟩
      rw [listed] at first
      have user : UserMode ⟨⟨k, some p⟩, []⟩ p root :=
        ⟨by simp [Sys.kernel, listed], by simp [Sys.kernel, runnable], space⟩
      have second := first.next ⟨_, .compute user (uniform SYS_fork)⟩
      have third : Runs [] clients t := second.next
        ⟨_, .trap ⟨user.listed, user.lives, user.space⟩ quietSetting svcSyndrome traps⟩
      exact ⟨t, root'', root', third, ⟨by simp [both], by simp [parent], space''⟩,
        ⟨by simp [both], by simp [child], space'⟩⟩
    · cases forks
  · cases boots

/-- A user and its child. -/
theorem exists_users : ∃ clients s p c root root', Runs [] clients s ∧ c ≠ p ∧
    UserMode s p root ∧ UserMode s c root' := by
  have run : ((runFrom (ramPages 32) [(0, .create 512 0)]).any fun clients =>
      clients.alloc.managed = ramPages 32 ∧ .object 18446462598732966464 ∈ clients.alloc.kmemCaches ∧
      bootsUsers clients.alloc (.object 18446462598732966464) 18446462598732939328
        18446462598732939840 = true) = true := by
    decide +kernel
  obtain ⟨clients, reached, holds⟩ : ∃ clients, KmemReachable Op.Fits clients ∧ _ := by
    refine reachable_of_runFrom (by decide) (by decide) ?_ run
    intro step there
    obtain rfl := List.mem_singleton.mp there
    intro _
    decide
  obtain ⟨ram, member, boots⟩ := of_decide_eq_true holds
  have initial := bootKernel_initial reached ram (by decide) member rfl
  obtain ⟨s, root, root', runs, parent, child⟩ := runs_of_bootsUsers reached initial boots
  exact ⟨clients, s, _, _, root, root', runs, by decide, parent, child⟩

/-- Whatever the programs of the other users do, a process has its memory and its registers as it left
them. -/
theorem users_isolated (runs : Runs programs clients s) (alive : Alive s.kernel q)
    (path : Relation.ReflTransGen (fun s t => ∃ actor, actor ≠ some q ∧ Step programs actor s t) s t) :
    Alive t.kernel q ∧ Untouched q s.kernel t.kernel := by
  have kept : Runs programs clients t ∧ Alive t.kernel q ∧ Untouched q s.kernel t.kernel := by
    induction path with
    | refl => exact ⟨runs, alive, .refl q _⟩
    | tail path others ih =>
        obtain ⟨reached, still, same⟩ := ih
        obtain ⟨actor, other, step⟩ := others
        obtain ⟨live, place, sound⟩ := runs_sound reached
        obtain ⟨still', next⟩ := (step_leaves sound step).others q other still
        exact ⟨reached.next ⟨actor, step⟩, still', same.trans next⟩
  exact kept.2

/-- The child computes and stores, and the parent does not see it. -/
theorem users_isolated_parent : ∃ clients s p c root, Runs [] clients s ∧ c ≠ p ∧
    UserMode s c root ∧ ∀ frame va byte,
      let s' := s.setFrame c frame
      let t := s'.withMemory (userStore s'.kernel.vm.memory root va byte)
      Alive t.kernel p ∧ Untouched p s.kernel t.kernel := by
  obtain ⟨clients, s, p, c, root, root', runs, apart, parent, child⟩ := exists_users
  refine ⟨clients, s, p, c, root', runs, apart, child, fun frame va byte => ?_⟩
  have other : some c ≠ some p := fun same => apart (Option.some.inj same)
  have computes : Step [] (some c) s (s.setFrame c frame) := .compute child frame
  have child' : UserMode (s.setFrame c frame) c root' := ⟨child.listed, child.lives, child.space⟩
  have stores : Step [] (some c) (s.setFrame c frame) _ := .store child' va byte
  exact users_isolated runs parent.alive (.tail (.single ⟨_, other, computes⟩) ⟨_, other, stores⟩)

/-- A trap of a user ends, or it stops the kernel for one of three reasons. -/
theorem trap_ends (runs : Runs programs clients s) (user : UserMode s p root) (esr : BitVec 64) :
    (∃ t, usertrapSync programs setting p esr s = .ok ((), t)) ∨
      ∃ e, SyscallStops s p e ∧ usertrapSync programs setting p esr s = .error e := by
  obtain ⟨live, place, sound⟩ := runs_sound runs
  have outcome : YieldsOr (SyscallStops s p) (usertrapSync programs setting p esr) s fun _ t =>
      Served p _ s t := usertrap_serves sound user esr
  rcases outcome with ⟨e, allowed, fails⟩ | ⟨_, t, ends, -⟩
  · exact .inr ⟨e, allowed, fails⟩
  · exact .inl ⟨t, ends⟩

/-- A reachable state in which a user has some registers. -/
theorem exists_parent (frame : Trapframe) : ∃ clients s p root, Runs [] clients s ∧
    UserMode s p root ∧ s.frame p = frame := by
  obtain ⟨clients, s, p, c, root, root', runs, -, parent, -⟩ := exists_users
  exact ⟨clients, s.setFrame p frame, p, root, runs.next ⟨_, .compute parent frame⟩,
    ⟨parent.listed, parent.lives, parent.space⟩, Function.update_self ..⟩

theorem trap_ends_parent : ∃ clients s p root, Runs [] clients s ∧ UserMode s p root ∧
    ((∃ t, usertrapSync [] quietSetting p svcSyndrome s = .ok ((), t)) ∨
      ∃ e, SyscallStops s p e ∧ usertrapSync [] quietSetting p svcSyndrome s = .error e) := by
  obtain ⟨clients, s, p, root, runs, parent, -⟩ := exists_parent (uniform SYS_write)
  exact ⟨clients, s, p, root, runs, parent, trap_ends runs parent svcSyndrome⟩

/-- The calls that have nothing to do with the memory of the caller. -/
def Quiet (number : Nat) : Prop :=
  number ≠ SYS_wait ∧ number ≠ SYS_sbrk ∧ number ≠ SYS_exec ∧ number ≠ SYS_read

section

variable {r : Nat} (user : UserMode s p root)
include user

end

end Syscall

end Av6
