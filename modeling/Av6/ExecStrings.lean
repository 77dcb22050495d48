import Av6.UserMemory
import Av6.PackedStrings
import Av6.ExecArguments

/-!
# The arguments in the scratch page

What the loop over the arguments leaves in the scratch page: the strings of the caller, packed one
after the other.  The loop gives up where there are too many strings or too many bytes.
-/

namespace Av6

namespace Exec

open FallibleState Kmem Pmap PackedStrings

variable {s t u : VmState} {live : CacheRef → Multiset Nat} {place : Place}
  {root va p max dst uargv left i : Nat} {string : List UInt8} {args : List (List UInt8)}

/-- The strings as they are packed in the scratch page. -/
abbrev packedArgs (args : List (List UInt8)) : List UInt8 := packed 0 args

/-- All pages but one are as they were. -/
def Others (p : Nat) (s t : VmState) : Prop :=
  ∀ q off, q ≠ p → t.memory q off = s.memory q off

theorem Others.refl (p : Nat) (s : VmState) : Others p s s := fun _ _ _ => rfl

theorem Others.trans (first : Others p s t) (second : Others p t u) : Others p s u := by
  intro q off other
  rw [second q off other, first q off other]

/-- The user does not see what is written to a page. -/
def Unseen (p root : Nat) (s : VmState) : Prop :=
  ∀ t, Others p s t → ∀ va, userByte t.memory root va = userByte s.memory root va

/-- A page in a hand is not seen through a page table. -/
theorem unseen_hand (twins : Twins live place s s) (rooted : place (.table root 0 0) = some root)
    (there : place (.hand 0) = some p) : Unseen p root s := by
  intro t others va
  refine TreeSame.userByte_eq (fun slot q off of atSlot => others q off ?_) twins rooted va
  rintro rfl
  rw [twins.ok.unique atSlot there] at of
  exact of

theorem StringAt.of_holds {bytes : Nat → UInt8} {base : Nat}
    (holds : Holds bytes base (string ++ [0])) (body : 0 ∉ string) :
    StringAt bytes base string.length := by
  obtain ⟨there, ends⟩ := holds_append.mp holds
  constructor
  · intro k less zero
    rw [there k less] at zero
    exact body (zero ▸ List.getElem_mem less)
  · exact ends 0 (by simp)

theorem UserString.cons {byte : UInt8} {memory : Memory}
    (user : UserString memory root va (byte :: string)) :
    userByte memory root va = some byte ∧ byte ≠ 0 ∧ UserString memory root (va + 1) string := by
  obtain ⟨_, _, same, first, rest⟩ := userBytes_succ user.bytes
  cases same
  have body := user.body
  rw [List.mem_cons, not_or] at body
  refine ⟨first, Ne.symm body.1, rest, ?_, body.2⟩
  have stop := user.stop
  rw [List.length_cons] at stop
  rw [← stop]
  congr 1
  omega

/-- What the copy of a string leaves: all of it if it has room, with its end. -/
structure Copied (p dst max : Nat) (string : List UInt8) (r : Option Nat) (t u : VmState) : Prop where
  others : Others p t u
  before : ∀ off < dst, u.memory p off = t.memory p off
  room : string.length < max → r = some string.length ∧ Holds (u.memory p) dst (string ++ [0])
  noRoom : max ≤ string.length → r = none

theorem copyinstrBytes_copies (unseen : Unseen p root s) (others : Others p s t)
    (user : UserString s.memory root va string) :
    Yields (copyinstrBytes root p max dst va) t (fun r u => Copied p dst max string r t u) := by
  induction max generalizing t dst va string with
  | zero => exact .ret ⟨.refl p t, fun _ _ => rfl, fun less => by omega, fun _ => rfl⟩
  | succ max ih =>
      have loads : ∀ {byte}, userByte s.memory root va = some byte →
          Yields (ldtrb root va) t fun r u => r = some byte ∧ t = u := by
        intro byte first
        refine ⟨some byte, t, ?_, rfl, rfl⟩
        rw [ldtrb_eq (userByte_lt first), unseen t others, first]
      have set : ∀ byte : UInt8, setByte t.memory p dst byte p dst = byte := fun _ => if_pos ⟨rfl, rfl⟩
      have unset : ∀ (byte : UInt8) off, off < dst → setByte t.memory p dst byte p off = t.memory p off :=
        fun _ off less => if_neg fun here => by omega
      have written : ∀ byte : UInt8, Others p t { t with memory := setByte t.memory p dst byte } :=
        fun _ q off other => if_neg fun here => other here.1
      unfold copyinstrBytes
      cases string with
      | nil =>
          refine (loads user.stop).bind ?_
          rintro _ _ ⟨rfl, rfl⟩
          refine .update_bind ?_
          rw [if_pos rfl]
          refine .ret ⟨written 0, fun off less => unset 0 off less, fun _ => ⟨rfl, ?_⟩, fun le => ?_⟩
          · exact holds_cons.mpr ⟨set 0, holds_nil _ _⟩
          · simp at le
      | cons byte string =>
          obtain ⟨first, nonzero, rest⟩ := user.cons
          refine (loads first).bind ?_
          rintro _ _ ⟨rfl, rfl⟩
          refine .update_bind ?_
          rw [if_neg nonzero]
          refine (ih (others.trans (written byte)) rest).bind ?_
          rintro r u copied
          have here : u.memory p dst = byte :=
            (copied.before dst (Nat.lt_succ_self dst)).trans (set byte)
          refine .ret ⟨(written byte).trans copied.others, fun off less => ?_, fun less => ?_, fun le => ?_⟩
          · rw [copied.before off (by omega)]
            exact unset byte off less
          · rw [List.length_cons] at less
            obtain ⟨rfl, holds⟩ := copied.room (by omega)
            exact ⟨rfl, holds_cons.mpr ⟨here, holds⟩⟩
          · rw [List.length_cons] at le
            rw [copied.noRoom (by omega)]
            rfl

/-- The strings start more than a page below the end of the user addresses. -/
def LowStrings (memory : Memory) (root uargv : Nat) (args : List (List UInt8)) : Prop :=
  ∀ i < args.length, ∀ uarg, userWord memory root (uargv + i * 8) = some uarg →
    uarg + PGSIZE ≤ MAXUVA

/-- What the loop over the arguments leaves: all strings in the scratch page, if there are fewer
than `limit` and they have room. -/
structure Gathered (p limit uargv root : Nat) (args : List (List UInt8)) (s : VmState)
    (r : Option (Nat × Nat)) (t u : VmState) : Prop where
  others : Others p t u
  all : ∀ argc pos, r = some (argc, pos) → argc = args.length ∧ pos = (packedArgs args).length ∧
    Holds (u.memory p) 0 (packedArgs args) ∧ args.length < limit ∧ (packedArgs args).length ≤ PGSIZE
  gaveUp : r = none → LowStrings s.memory root uargv args →
    limit ≤ args.length ∨ PGSIZE < (packedArgs args).length

/-- `copyinstr` of an argument to the end of those before it. -/
theorem copyinstr_copies {uarg pos : Nat} (unseen : Unseen p root s) (others : Others p s t)
    (user : UserString s.memory root uarg string) (le : pos ≤ PGSIZE) :
    Yields (copyinstr root p pos uarg (PGSIZE - pos)) t fun r u => Others p t u ∧
      (∀ len, r = some len → len = string.length ∧ pos + string.length < PGSIZE ∧
        (∀ off < pos, u.memory p off = t.memory p off) ∧ Holds (u.memory p) pos (string ++ [0])) ∧
      (r = none → uarg + PGSIZE ≤ MAXUVA → PGSIZE ≤ pos + string.length) := by
  unfold copyinstr
  split
  · refine .ret ⟨.refl p t, ?_, fun _ _ => by omega⟩
    rintro _ ⟨⟩
  split
  · rename_i range
    refine .ret ⟨.refl p t, ?_, fun _ low => ?_⟩
    · rintro _ ⟨⟩
    · unfold userRangeOk at range
      have positive : 0 < PGSIZE := by decide
      omega
  refine (copyinstrBytes_copies unseen others user).mono ?_
  intro r u copied
  refine ⟨copied.others, ?_, ?_⟩
  · rintro len rfl
    have room : string.length < PGSIZE - pos := by
      by_contra full
      cases copied.noRoom (by omega)
    obtain ⟨same, holds⟩ := copied.room room
    cases same
    exact ⟨rfl, by omega, copied.before, holds⟩
  · rintro rfl -
    by_contra room
    cases (copied.room (by omega)).1

/-- The loop over the arguments, from the argument `i` on. -/
theorem argLoop_gathers (unseen : Unseen p root s) (argv : Argv s.memory root uargv args)
    (others : Others p s t) (inside : i ≤ args.length)
    (holds : Holds (t.memory p) 0 (packedArgs (args.take i))) (le : start 0 args i ≤ PGSIZE) :
    Yields (argLoop root p uargv left i (start 0 args i)) t fun r u =>
      Gathered p (i + left) uargv root args s r t u := by
  induction left generalizing t i with
  | zero =>
      refine .ret ⟨.refl p t, ?_, fun _ _ => .inl (by omega)⟩
      rintro _ _ ⟨⟩
  | succ left ih =>
      have reads : ∀ {n}, userWord s.memory root (uargv + i * 8) = some n →
          Yields (copyin root ((uargv + i * 8) % 2 ^ 64) 8) t fun r u =>
            ∃ bytes, r = some bytes ∧ ofBytes bytes = n ∧ t = u := by
        intro n found
        rw [← userWord_congr (unseen t others)] at found
        obtain ⟨bytes, runs, value⟩ := copyin_word found
        exact ⟨some bytes, t, runs, bytes, rfl, value, rfl⟩
      unfold argLoop
      by_cases last : i = args.length
      · subst last
        refine (reads argv.stop).bind ?_
        rintro _ _ ⟨bytes, rfl, zero, rfl⟩
        dsimp only
        rw [if_pos zero]
        rw [List.take_length] at holds
        rw [start_length] at le ⊢
        refine .ret ⟨.refl p t, ?_, ?_⟩
        · rintro _ _ ⟨⟩
          exact ⟨rfl, rfl, holds, by omega, le⟩
        · rintro ⟨⟩
      · have less : i < args.length := by omega
        obtain ⟨uarg, found, nonzero, user⟩ := argv.strings i less
        have next : start 0 args (i + 1) = start 0 args i + args[i].length + 1 := start_succ less
        refine (reads found).bind ?_
        rintro _ _ ⟨bytes, rfl, rfl, rfl⟩
        dsimp only
        rw [if_neg nonzero]
        refine (copyinstr_copies unseen others user le).bind ?_
        rintro (_ | slen) u ⟨others', copied, full⟩
        · refine .ret ⟨others', ?_, fun _ low => .inr ?_⟩
          · rintro _ _ ⟨⟩
          · have beyond := full rfl (low i less _ found)
            have bound : start 0 args (i + 1) ≤ (packedArgs args).length := start_le (i + 1)
            omega
        · obtain ⟨rfl, room, before, string⟩ := copied slen rfl
          dsimp only
          rw [← next]
          have holds' : Holds (u.memory p) 0 (packedArgs (args.take (i + 1))) := by
            rw [packedArgs, packed_take_succ less, holds_append, Nat.zero_add]
            refine ⟨holds.congr fun k _ high => before k ?_, string⟩
            rwa [Nat.zero_add] at high
          have le' : start 0 args (i + 1) ≤ PGSIZE := by
            rw [next]
            exact room
          refine (ih (others.trans others') less holds' le').mono ?_
          intro r v gathered
          refine ⟨others'.trans gathered.others, ?_, ?_⟩
          · rw [show i + (left + 1) = i + 1 + left by omega]
            exact gathered.all
          · rw [show i + (left + 1) = i + 1 + left by omega]
            exact gathered.gaveUp

end Exec

end Av6
