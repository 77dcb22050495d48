import Av6.ExecModel
import Av6.ElfTwins

/-!
# Copying the arguments

The argument strings go from the caller's pages through a scratch page that has not been
cleared.  What is read of the scratch page later is what was written before: the strings lie one
after the other from its start, each with its end, and two runs agree about them.
-/

namespace Av6

namespace Exec

open FallibleState Kmem Pmap Elf

variable {s s' t t' u u' : VmState} {live : CacheRef → Multiset Nat} {place : Place} {slot : Slot}
  {root va p n pos off len : Nat} {bytes bytes' : Nat → UInt8}

/-- Only the contents of one page have changed. -/
structure Rewritten (p : Nat) (s s' t t' : VmState) : Prop where
  kmem : t.kmem = s.kmem
  kmem' : t'.kmem = s'.kmem
  others : ∀ q off, q ≠ p → t.memory q off = s.memory q off ∧ t'.memory q off = s'.memory q off

theorem Rewritten.refl (p : Nat) (s s' : VmState) : Rewritten p s s' s s' :=
  ⟨rfl, rfl, fun _ _ _ => ⟨rfl, rfl⟩⟩

theorem Rewritten.trans (first : Rewritten p s s' t t') (second : Rewritten p t t' u u') :
    Rewritten p s s' u u' := by
  refine ⟨second.kmem.trans first.kmem, second.kmem'.trans first.kmem', fun q off other => ?_⟩
  obtain ⟨same, same'⟩ := first.others q off other
  obtain ⟨next, next'⟩ := second.others q off other
  exact ⟨next.trans same, next'.trans same'⟩

/-- A page that is no table may be rewritten, with the same bytes if they are known. -/
theorem Rewritten.twins (rewritten : Rewritten p s s' t t') (twins : Twins live place s s')
    (there : place slot = some p) (childless : ∀ child j, ¬ Hangs child slot j)
    (same : slot.Known → ∀ off < PGSIZE, t'.memory p off = t.memory p off) :
    Twins live place t t' := by
  obtain ⟨kmem, m⟩ := t
  obtain ⟨kmem', m'⟩ := t'
  obtain ⟨rfl, rfl, others⟩ := rewritten
  dsimp only at others
  have notWindow := (twins.ok.direct_of_place there).ne_window.symm
  refine ⟨twins.ok.setMemory m, ?_, twins.agree.kmem, ?_, ?_⟩
  · refine twins.forest.frame (fun slot' up i q hangs atUp => ?_) (fun i _ => ?_) fun _ _ => rfl
    · refine wordAt_congr fun k _ => (others q _ ?_).1
      rintro rfl
      rw [twins.ok.unique atUp there] at hangs
      exact childless slot' i hangs
    · exact wordAt_congr fun k _ => (others _ _ notWindow).1
  · intro slot' q known atSlot off less
    by_cases here : q = p
    · subst here
      rw [twins.ok.unique atSlot there] at known
      exact same known off less
    · dsimp only
      rw [(others q off here).1, (others q off here).2]
      exact twins.agree.contents slot' q known atSlot off less
  · intro off less
    dsimp only
    rw [(others _ off notWindow).1, (others _ off notWindow).2]
    exact twins.agree.window off less

theorem hand_childless (k : Nat) (child : Slot) (j : Nat) : ¬ Hangs child (.hand k) j := by
  rintro ⟨-, _, _, ⟨_, -, same, -⟩ | ⟨same, -⟩ | ⟨same, -⟩⟩ <;> cases same

/-- An unprivileged load finds the same in both runs. -/
theorem ldtrb_twin (twins : Twins live place s s') (small : va < MAXUVA)
    (rooted : place (.table root 0 0) = some root) :
    Twin (ldtrb root va) s s' fun _ t t' => s = t ∧ s' = t' := by
  rw [← pathSlot_zero small] at rooted
  unfold ldtrb
  refine (walkLoop_find twins rfl rooted).bind ?_
  rintro _ _ _ ⟨rfl, rfl, rfl⟩
  cases last : place (pathSlot root va 3) with
  | none => exact .ret ⟨rfl, rfl⟩
  | some table =>
      have entry := twins.forest.entry _ _ _ _ (hangs_leaf root va) last
      refine (readPte_twin twins (hangs_leaf root va) last).bind ?_
      rintro _ _ _ ⟨rfl, rfl, rfl⟩
      split
      · rename_i readable
        obtain ⟨q, leaf⟩ := Option.ne_none_iff_exists'.mp (entry.isValid_iff.mp readable.1)
        rw [leaf] at entry
        rw [entry.ptePage_eq (twins.ok.direct_of_place leaf)]
        have inPage : va % PGSIZE < PGSIZE := Nat.mod_lt va (by decide)
        have same := twins.agree.contents (leafSlot root va) q trivial leaf _ inPage
        refine ⟨some (s.memory q (va % PGSIZE)), s, s', rfl, ?_, rfl, rfl⟩
        show Except.ok (some (s'.memory q (va % PGSIZE)), s') = _
        rw [same]
      · exact .ret ⟨rfl, rfl⟩

theorem copyinBytes_twin (twins : Twins live place s s') (small : va + len ≤ MAXUVA)
    (rooted : place (.table root 0 0) = some root) :
    Twin (copyinBytes root len va) s s' fun _ t t' => s = t ∧ s' = t' := by
  induction len generalizing va with
  | zero => exact .ret ⟨rfl, rfl⟩
  | succ len ih =>
      unfold copyinBytes
      refine (ldtrb_twin twins (by omega) rooted).bind ?_
      rintro (_ | byte) _ _ ⟨rfl, rfl⟩
      · exact .ret ⟨rfl, rfl⟩
      · refine (ih (by omega)).bind ?_
        rintro rest _ _ ⟨rfl, rfl⟩
        exact .ret ⟨rfl, rfl⟩

theorem copyin_twin (twins : Twins live place s s')
    (rooted : place (.table root 0 0) = some root) :
    Twin (copyin root va len) s s' fun _ t t' => s = t ∧ s' = t' := by
  unfold copyin
  split
  · exact .ret ⟨rfl, rfl⟩
  · split
    · exact .ret ⟨rfl, rfl⟩
    · rename_i range
      obtain ⟨low, fits⟩ := not_not.mp range
      exact copyinBytes_twin twins (by omega) rooted

/-- A string of a length starts at an offset. -/
structure StringAt (bytes : Nat → UInt8) (off len : Nat) : Prop where
  body : ∀ k < len, bytes (off + k) ≠ 0
  stop : bytes (off + len) = 0

/-- From an offset on, there are `n` strings one after the other. -/
inductive Strings (bytes : Nat → UInt8) : Nat → Nat → Nat → Prop
  | nil (off : Nat) : Strings bytes off 0 off
  | cons {off len n pos : Nat} : StringAt bytes off len → Strings bytes (off + len + 1) n pos →
      Strings bytes off (n + 1) pos

theorem Strings.snoc (strings : Strings bytes off n pos) (last : StringAt bytes pos len) :
    Strings bytes off (n + 1) (pos + len + 1) := by
  induction strings with
  | nil off => exact .cons last (.nil _)
  | cons first _ ih => exact .cons first (ih last)

theorem Strings.le (strings : Strings bytes off n pos) : off ≤ pos := by
  induction strings with
  | nil off => exact le_refl off
  | cons _ _ ih => omega

theorem StringAt.congr (string : StringAt bytes off len)
    (same : ∀ k, off ≤ k → k < off + len + 1 → bytes' k = bytes k) : StringAt bytes' off len := by
  refine ⟨fun k less => ?_, ?_⟩
  · rw [same (off + k) (by omega) (by omega)]
    exact string.body k less
  · rw [same (off + len) (by omega) (by omega)]
    exact string.stop

theorem Strings.congr (strings : Strings bytes off n pos)
    (same : ∀ k, off ≤ k → k < pos → bytes' k = bytes k) : Strings bytes' off n pos := by
  induction strings with
  | nil off => exact .nil off
  | cons first rest ih =>
      have le := rest.le
      refine .cons (first.congr fun k low high => same k low (by omega)) ?_
      exact ih fun k low high => same k (by omega) high

/-- `strlen` finds the end of a string. -/
theorem StringAt.strlen_eq {fuel : Nat} (string : StringAt bytes off len) (enough : len < fuel) :
    strlen bytes fuel off = len := by
  induction fuel generalizing off len with
  | zero => omega
  | succ fuel ih =>
      unfold strlen
      cases len with
      | zero => exact if_pos string.stop
      | succ len =>
          have next : StringAt bytes (off + 1) len := by
            refine ⟨fun k less => ?_, ?_⟩
            · rw [Nat.add_assoc, Nat.add_comm 1]
              exact string.body (k + 1) (by omega)
            · rw [Nat.add_assoc, Nat.add_comm 1]
              exact string.stop
          have first : bytes off ≠ 0 := string.body 0 (by omega)
          rw [if_neg first, ih next (by omega)]

/-- Up to an offset, the scratch page is as it was. -/
def Before (p dst : Nat) (s s' t t' : VmState) : Prop :=
  ∀ off < dst, t.memory p off = s.memory p off ∧ t'.memory p off = s'.memory p off

theorem setByte_rewritten {dst : Nat} {byte : UInt8} :
    Rewritten p s s' { s with memory := setByte s.memory p dst byte }
      { s' with memory := setByte s'.memory p dst byte } :=
  ⟨rfl, rfl, fun _ _ other => ⟨if_neg fun here => other here.1, if_neg fun here => other here.1⟩⟩

/-- A string is copied to the scratch page: both runs have the same bytes there. -/
theorem copyinstrBytes_twin {dst max : Nat} (twins : Twins live place s s')
    (small : va + max ≤ MAXUVA) (rooted : place (.table root 0 0) = some root)
    (there : place (.hand 0) = some p) :
    Twin (copyinstrBytes root p max dst va) s s' fun r t t' =>
      Rewritten p s s' t t' ∧ Before p dst s s' t t' ∧ ∀ len, r = some len →
        len < max ∧ StringAt (t.memory p) dst len ∧
          ∀ off, dst ≤ off → off < dst + len + 1 → t'.memory p off = t.memory p off := by
  induction max generalizing s s' dst va with
  | zero => exact .ret ⟨.refl _ _ _, fun _ _ => ⟨rfl, rfl⟩, by simp⟩
  | succ max ih =>
      unfold copyinstrBytes
      refine (ldtrb_twin twins (by omega) rooted).bind ?_
      rintro (_ | byte) _ _ ⟨rfl, rfl⟩
      · exact .ret ⟨.refl _ _ _, fun _ _ => ⟨rfl, rfl⟩, by simp⟩
      have set : ∀ m : Memory, setByte m p dst byte p dst = byte := fun m => if_pos ⟨rfl, rfl⟩
      have unset : ∀ (m : Memory) off, off < dst → setByte m p dst byte p off = m p off :=
        fun m off less => if_neg fun here => by omega
      refine .update_bind ?_
      split
      · rename_i ends
        refine .ret ⟨setByte_rewritten, fun off less => ⟨unset _ off less, unset _ off less⟩, ?_⟩
        rintro _ ⟨⟩
        refine ⟨by omega, ⟨fun k less => by omega, ?_⟩, fun off low high => ?_⟩
        · exact (set _).trans ends
        · obtain rfl : off = dst := by omega
          exact (set _).trans (set _).symm
      · rename_i more
        have written : Rewritten p s s' { s with memory := setByte s.memory p dst byte }
            { s' with memory := setByte s'.memory p dst byte } := setByte_rewritten
        have twins' := written.twins twins there (hand_childless 0) False.elim
        refine (ih twins' (by omega)).bind ?_
        rintro r t t' ⟨rewritten, before, string⟩
        have first := before dst (Nat.lt_succ_self dst)
        dsimp only at first
        rw [set, set] at first
        refine .ret ⟨written.trans rewritten, fun off less => ?_, ?_⟩
        · obtain ⟨same, same'⟩ := before off (by omega)
          exact ⟨same.trans (unset _ off less), same'.trans (unset _ off less)⟩
        · rintro _ copied
          obtain ⟨len, rfl, rfl⟩ := Option.map_eq_some_iff.mp copied
          obtain ⟨less, rest, agree⟩ := string len rfl
          refine ⟨by omega, ⟨?_, ?_⟩, fun off low high => ?_⟩
          · intro k small
            cases k with
            | zero =>
                rw [Nat.add_zero, first.1]
                exact more
            | succ k =>
                rw [Nat.add_comm k, ← Nat.add_assoc]
                exact rest.body k (by omega)
          · rw [Nat.add_comm len, ← Nat.add_assoc]
            exact rest.stop
          · by_cases here : off = dst
            · rw [here, first.1, first.2]
            · exact agree off (by omega) (by omega)

/-- The scratch page holds `argc` strings in its first bytes, the same in both runs. -/
structure Packed (p argc pos : Nat) (t t' : VmState) : Prop where
  le : pos ≤ PGSIZE
  strings : Strings (t.memory p) 0 argc pos
  same : ∀ off < pos, t'.memory p off = t.memory p off

/-- The arguments are copied to the scratch page. -/
theorem argLoop_twin {uargv left argc : Nat} (twins : Twins live place s s')
    (rooted : place (.table root 0 0) = some root) (there : place (.hand 0) = some p)
    (packed : Packed p argc pos s s') :
    Twin (argLoop root p uargv left argc pos) s s' fun r t t' =>
      Rewritten p s s' t t' ∧ ∀ argc' pos', r = some (argc', pos') → Packed p argc' pos' t t' := by
  induction left generalizing s s' argc pos with
  | zero => exact .ret ⟨.refl _ _ _, by simp⟩
  | succ left ih =>
      unfold argLoop
      refine (copyin_twin twins rooted).bind ?_
      rintro (_ | bytes) _ _ ⟨rfl, rfl⟩
      · exact .ret ⟨.refl _ _ _, by simp⟩
      dsimp only
      split
      · refine .ret ⟨.refl _ _ _, ?_⟩
        rintro _ _ ⟨⟩
        exact packed
      have copies : Twin (copyinstr root p pos (ofBytes bytes) (PGSIZE - pos)) s s' fun r t t' =>
          Rewritten p s s' t t' ∧ ∀ len, r = some len → Packed p (argc + 1) (pos + len + 1) t t' := by
        unfold copyinstr
        split
        · exact .ret ⟨.refl _ _ _, by simp⟩
        split
        · exact .ret ⟨.refl _ _ _, by simp⟩
        rename_i range
        obtain ⟨low, fits⟩ := not_not.mp range
        refine (copyinstrBytes_twin twins (by omega) rooted there).mono ?_
        rintro r t t' ⟨rewritten, before, string⟩
        refine ⟨rewritten, fun len copied => ?_⟩
        obtain ⟨less, last, agree⟩ := string len copied
        refine ⟨by omega, ?_, fun off low => ?_⟩
        · refine Strings.snoc (packed.strings.congr fun k _ high => ?_) last
          exact (before k high).1
        · by_cases old : off < pos
          · rw [(before off old).1, (before off old).2]
            exact packed.same off old
          · exact agree off (by omega) low
      refine copies.bind ?_
      rintro (_ | slen) t t' ⟨rewritten, more⟩
      · exact .ret ⟨rewritten, by simp⟩
      · have twins' := rewritten.twins twins there (hand_childless 0) False.elim
        refine (ih twins' (more slen rfl)).mono ?_
        rintro r u u' ⟨rewritten', packed'⟩
        exact ⟨rewritten.trans rewritten', packed'⟩

/-- A word is written to a page of known contents. -/
theorem writeWord_twin {i word : Nat} (twins : Twins live place s s') (leaf : place slot = some p)
    (known : slot.Known) (childless : ∀ child j, ¬ Hangs child slot j) :
    Twin (writePte p i word) s s' fun _ t t' => Twins live place t t' ∧ Rewritten p s s' t t' := by
  have rewritten : Rewritten p s s' { s with memory := setWord s.memory p i word }
      { s' with memory := setWord s'.memory p i word } :=
    ⟨rfl, rfl, fun _ _ other => ⟨setWord_apply_of_ne (.inl other), setWord_apply_of_ne (.inl other)⟩⟩
  refine .update ⟨rewritten.twins twins leaf childless fun _ off less => ?_, rewritten⟩
  exact setWord_agree (twins.agree.contents slot p known leaf off less)

/-- The pointers to the arguments are written to the stack page. -/
theorem pointerLoop_twin {w strbase q i : Nat} (twins : Twins live place s s')
    (leaf : place slot = some p) (known : slot.Known) (childless : ∀ child j, ¬ Hangs child slot j)
    (apart : q ≠ p) (le : pos ≤ PGSIZE) (same : ∀ off < pos, s'.memory q off = s.memory q off)
    (strings : Strings (s.memory q) off n pos) :
    Twin (pointerLoop p w strbase q n i off) s s' fun _ t t' =>
      Twins live place t t' ∧ Rewritten p s s' t t' := by
  induction n generalizing s s' off i with
  | zero => exact .ret ⟨twins, .refl _ _ _⟩
  | succ n ih =>
      unfold pointerLoop
      refine (writeWord_twin twins leaf known childless).bind ?_
      rintro - t t' ⟨twins', rewritten⟩
      have kept := fun k => rewritten.others q k apart
      have strings' : Strings (t.memory q) off (n + 1) pos :=
        strings.congr fun k _ _ => (kept k).1
      have same' : ∀ off < pos, t'.memory q off = t.memory q off := by
        intro k less
        rw [(kept k).1, (kept k).2]
        exact same k less
      cases strings' with
      | cons first rest =>
          rename_i len
          have high := rest.le
          have found : strlen (t.memory q) PGSIZE off = len := first.strlen_eq (by omega)
          have found' : strlen (t'.memory q) PGSIZE off = len := by
            refine StringAt.strlen_eq (first.congr fun k _ less => ?_) (by omega)
            exact same' k (by omega)
          obtain ⟨a, u, u', runs, runs', twins₁, rewritten₁⟩ := ih twins' same' rest (i := i + 1)
          refine ⟨a, u, u', ?_, ?_, twins₁, rewritten.trans rewritten₁⟩
          · show pointerLoop p w strbase q n (i + 1)
              (off + strlen (t.memory q) PGSIZE off + 1) t = _
            rw [found]
            exact runs
          · show pointerLoop p w strbase q n (i + 1)
              (off + strlen (t'.memory q) PGSIZE off + 1) t' = _
            rw [found']
            exact runs'

/-- The strings are copied from the scratch page to the stack page. -/
theorem copyBytes_twin {q dst argc : Nat} (twins : Twins live place s s') (leaf : place slot = some p)
    (known : slot.Known) (childless : ∀ child j, ¬ Hangs child slot j) (packed : Packed q argc pos s s') :
    Twin (modify fun s : VmState => { s with memory := copyBytes s.memory p dst q pos } : Vm Unit) s s'
      fun _ t t' => Twins live place t t' ∧ Rewritten p s s' t t' := by
  have rewritten : Rewritten p s s' { s with memory := copyBytes s.memory p dst q pos }
      { s' with memory := copyBytes s'.memory p dst q pos } :=
    ⟨rfl, rfl, fun _ _ other => ⟨if_neg fun here => other here.1, if_neg fun here => other here.1⟩⟩
  refine .update ⟨rewritten.twins twins leaf childless fun _ off less => ?_, rewritten⟩
  dsimp only [copyBytes]
  split
  · exact packed.same _ (by omega)
  · exact twins.agree.contents slot p known leaf off less

end Exec

end Av6
