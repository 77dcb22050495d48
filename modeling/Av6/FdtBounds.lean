import Av6.FdtWalks
import Av6.FdtEncoding
import Mathlib.Data.Nat.Find
import Mathlib.Logic.Relation
import Mathlib.Data.List.Range

/-!
# What the reader reads

Any sequence of calls on nodes that earlier calls returned keeps to the two blocks exactly
when the block has whole tokens where the walk stands and the names of the properties end
inside.  The exactness needs a call for every boundary, and for an unterminated name a key that
follows it out of the block.
-/

namespace Av6

namespace DeviceTree

variable {fdt : Fdt} {memory : Memory} {purpose : Purpose} {p q s : Nat} {tag : Tag}
  {node : Node}

open Traced Relation

/-- The address lies in the structure block or in the strings block. -/
def Fdt.Contains (fdt : Fdt) (a : Nat) : Prop :=
  fdt.structStart ≤ a ∧ a < fdt.structEnd ∨ fdt.strings ≤ a ∧ a < fdt.stringsEnd

instance (fdt : Fdt) (a : Nat) : Decidable (fdt.Contains a) :=
  inferInstanceAs (Decidable (_ ∨ _))

/-- The nodes returned in any sequence of calls on nodes returned before. -/
inductive Returned (fdt : Fdt) : Node → Prop
  | firstNode {node : Node} (returns : (firstNode fdt).result = .ok (some node)) :
      Returned fdt node
  | nextNode {node next : Node} (known : Returned fdt node)
      (returns : (nextNode fdt node).result = .ok (some next)) : Returned fdt next
  | firstSubnode {parent child : Node} (known : Returned fdt parent)
      (returns : (firstSubnode fdt parent).result = .ok (some child)) : Returned fdt child
  | nextSubnode {parent child next : Node} (knownParent : Returned fdt parent)
      (known : Returned fdt child)
      (returns : (nextSubnode fdt parent child).result = .ok (some next)) : Returned fdt next
  | nodeByPhandle {phandle : Nat} {node : Node}
      (returns : (nodeByPhandle fdt phandle).result = .ok (some node)) : Returned fdt node

inductive Call where
  | firstNode
  | nextNode (node : Node)
  | firstSubnode (parent : Node)
  | nextSubnode (parent child : Node)
  | getprop (node : Node) (key : List UInt8)
  | propU32 (node : Node) (key : List UInt8)
  | nodeByPhandle (phandle : Nat)

/-- The nodes a call is made on have been returned before. -/
def Call.Legal (fdt : Fdt) : Call → Prop
  | .firstNode => True
  | .nextNode node => Returned fdt node
  | .firstSubnode parent => Returned fdt parent
  | .nextSubnode parent child => Returned fdt parent ∧ Returned fdt child
  | .getprop node _ => Returned fdt node
  | .propU32 node _ => Returned fdt node
  | .nodeByPhandle _ => True

def Call.reads (fdt : Fdt) : Call → List Read
  | .firstNode => (DeviceTree.firstNode fdt).reads
  | .nextNode node => (DeviceTree.nextNode fdt node).reads
  | .firstSubnode parent => (DeviceTree.firstSubnode fdt parent).reads
  | .nextSubnode parent child => (DeviceTree.nextSubnode fdt parent child).reads
  | .getprop node key => (DeviceTree.getprop fdt node key).reads
  | .propU32 node key => (DeviceTree.propU32 fdt node key).reads
  | .nodeByPhandle phandle => (DeviceTree.nodeByPhandle fdt phandle).reads

/-- A read for tokenising or comparing names lies in one of the blocks. -/
def KeepsInside (fdt : Fdt) (r : Read) : Prop := r.purpose ≠ .value → fdt.Contains r.addr

/-- Every call, after any calls before it, keeps to the blocks. -/
def StaysInside (fdt : Fdt) : Prop :=
  ∀ call : Call, call.Legal fdt → ∀ r ∈ call.reads fdt, KeepsInside fdt r

/-- The types of the tokens lie inside, and so do the names of the properties with their
terminators. -/
structure WellTerminated (fdt : Fdt) : Prop where
  types : ∀ p, Boundary fdt p → p < fdt.structEnd → ∀ i < 4, fdt.Contains (p + i)
  names : ∀ tag, Property fdt tag →
    ∃ stop, NameEndsAt fdt.memory tag.name stop ∧ ∀ a, tag.name ≤ a → a ≤ stop → fdt.Contains a

theorem Fdt.Bounded.contains_lt (bounded : fdt.Bounded) {a : Nat} (contains : fdt.Contains a) :
    a < 2 ^ 53 := by
  have low := bounded.struct_low
  have stringsLow := bounded.strings_low
  rcases contains with ⟨-, below⟩ | ⟨-, below⟩ <;> omega

theorem allows_true : Allows fdt (fun _ => True) :=
  ⟨fun _ _ _ _ => trivial, fun _ _ _ _ _ => trivial, fun _ _ _ _ _ => trivial⟩

theorem Returned.listed (bounded : fdt.Bounded) (known : Returned fdt node) :
    Listed fdt node := by
  induction known with
  | firstNode returns => exact ((firstNode_runs bounded allows_true).ok _ returns _ rfl).1
  | nextNode known returns ih =>
      exact ((nextNode_runs bounded allows_true ih.list.boundary).ok _ returns _ rfl).1
  | firstSubnode known returns ih =>
      exact ((nextSubnode_runs bounded allows_true ih.list.boundary).ok _ returns _ rfl).1
  | nextSubnode knownParent known returns ihParent ih =>
      exact ((nextSubnode_runs bounded allows_true ih.list.boundary).ok _ returns _ rfl).1
  | nodeByPhandle returns =>
      exact (nodeByPhandle_runs bounded allows_true _).ok _ returns _ rfl

theorem Returned.propBoundary (bounded : fdt.Bounded) (known : Returned fdt node) :
    PropBoundary fdt node.props :=
  (known.listed bounded).list

/-- Comparing stops at the terminator. -/
theorem strEq_reads_le (key : List UInt8) : ∀ str stop : Nat, NameEndsAt memory str stop →
    stop < 2 ^ 53 → ∀ r ∈ (strEq memory purpose str key).reads, str ≤ r.addr ∧ r.addr ≤ stop := by
  induction key with
  | nil =>
      intro str stop ends low r mem
      have le := ends.le
      have eq : r = ⟨purpose, str⟩ := List.mem_singleton.mp mem
      subst eq
      exact ⟨Nat.le_refl _, le⟩
  | cons k key ih =>
      intro str stop ends low r mem
      have le := ends.le
      unfold strEq at mem
      rcases mem_reads_bind.mp mem with mem | ⟨b, returns, mem⟩
      · have eq : r = ⟨purpose, str⟩ := List.mem_singleton.mp mem
        subst eq
        exact ⟨Nat.le_refl _, le⟩
      · cases returns
        split at mem
        · split at mem
          · simp at mem
          · next nonzero =>
            have notStop : str ≠ stop := by
              rintro rfl
              exact nonzero (by rw [ends.eq_zero]; rfl)
            rw [advance_eq (by omega)] at mem
            have inner := ih (str + 1) stop
              ⟨by omega, fun a above => ends.ne_zero a (by omega), ends.eq_zero⟩ low r mem
            exact ⟨by omega, inner.2⟩
        · simp at mem

theorem WellTerminated.allows (bounded : fdt.Bounded) (terminated : WellTerminated fdt) :
    Allows fdt (KeepsInside fdt) := by
  refine ⟨?_, ?_, ?_⟩
  · rintro p boundary r ⟨-, inside, above, below⟩ -
    have start := boundary.ge_start
    rcases below with below | below
    · exact .inl ⟨by omega, below⟩
    · have contained := terminated.types p boundary inside (r.addr - p) (by omega)
      rwa [Nat.add_sub_cancel' above] at contained
  · rintro tag property key r mem -
    obtain ⟨stop, ends, contained⟩ := terminated.names tag property
    have low := bounded.contains_lt (contained stop ends.le (Nat.le_refl _))
    obtain ⟨above, below⟩ := strEq_reads_le key tag.name stop ends low r mem
    exact contained _ above below
  · intro tag property long i small ne
    exact absurd rfl ne

theorem WellTerminated.staysInside (bounded : fdt.Bounded) (terminated : WellTerminated fdt) :
    StaysInside fdt := by
  have allows := terminated.allows bounded
  intro call legal
  cases call with
  | firstNode => exact (firstNode_runs bounded allows).reads
  | nextNode node =>
      exact (nextNode_runs bounded allows (legal.propBoundary bounded).boundary).reads
  | firstSubnode parent =>
      exact (nextSubnode_runs bounded allows (legal.propBoundary bounded).boundary).reads
  | nextSubnode parent child =>
      exact (nextSubnode_runs bounded allows (legal.2.propBoundary bounded).boundary).reads
  | getprop node key => exact (getprop_runs bounded allows (legal.propBoundary bounded)).reads
  | propU32 node key => exact (propU32_runs bounded allows (legal.propBoundary bounded)).reads
  | nodeByPhandle phandle => exact (nodeByPhandle_runs bounded allows phandle).reads

/-- A token that the loop of `fdt_next_node` passes over. -/
def Skips (fdt : Fdt) (p q : Nat) : Prop :=
  p < fdt.structEnd ∧ ∃ tag, Span fdt p tag q ∧ tag.type ≠ FDT_BEGIN_NODE ∧ tag.type ≠ FDT_END

/-- A token that the loop of `fdt_getprop` may pass over. -/
def ListSkips (fdt : Fdt) (p q : Nat) : Prop :=
  p < fdt.structEnd ∧ ∃ tag, Span fdt p tag q ∧ (tag.type = FDT_NOP ∨ tag.type = FDT_PROP)

theorem Skips.ge_start {q : Nat} (skips : ReflTransGen (Skips fdt) s q)
    (above : fdt.structStart ≤ s) : fdt.structStart ≤ q := by
  induction skips with
  | refl => exact above
  | tail before step ih =>
      obtain ⟨-, tag, span, -⟩ := step
      have := span.lt
      omega

/-- The loop that starts at `s` comes to every place it can pass over to. -/
theorem nextNodeLoop_of_skips (bounded : fdt.Bounded) (skips : ReflTransGen (Skips fdt) s p) :
    fdt.structStart ≤ s → ∀ (fuel : Nat) (depth : Int), fdt.structEnd - s < fuel →
    ∃ (fuel' : Nat) (depth' : Int), fdt.structEnd - p < fuel' ∧
      (nextNodeLoop fdt fuel s depth).result = (nextNodeLoop fdt fuel' p depth').result ∧
      (nextNodeLoop fdt fuel' p depth').reads ⊆ (nextNodeLoop fdt fuel s depth).reads := by
  induction skips using ReflTransGen.head_induction_on with
  | refl => exact fun _ fuel depth enough => ⟨fuel, depth, enough, rfl, List.Subset.refl _⟩
  | @head s t step rest ih =>
      intro above fuel depth enough
      obtain ⟨inside, tag, span, notBegin, notEnd⟩ := step
      have advances := span.lt
      obtain ⟨fuel, rfl⟩ : ∃ n, fuel = n + 1 := ⟨fuel - 1, by omega⟩
      have returns := nextTag_of_span bounded above inside span
      obtain ⟨depth', unfolds⟩ : ∃ depth', nextNodeLoop fdt (fuel + 1) s depth =
          nextTag fdt s >>= fun _ => nextNodeLoop fdt fuel t depth' := by
        by_cases ends : tag.type = FDT_END_NODE
        · refine ⟨depth - 1, bind_congr_of_ok returns ?_⟩
          dsimp only
          rw [if_neg notBegin, if_pos ends]
        · refine ⟨depth, bind_congr_of_ok returns ?_⟩
          dsimp only
          rw [if_neg notBegin, if_neg ends, if_neg notEnd]
      obtain ⟨fuel', depth'', enough', result, reads⟩ := ih (by omega) fuel depth' (by omega)
      refine ⟨fuel', depth'', enough', ?_, ?_⟩
      · rw [unfolds, result_bind_of_ok returns, result]
      · intro r mem
        rw [unfolds]
        exact mem_reads_bind.mpr (.inr ⟨_, returns, reads mem⟩)

/-- The reads of one call cover the type of the token at `p`. -/
theorem nextNodeLoop_reads_type {fuel : Nat} {depth : Int} (enough : fdt.structEnd - p < fuel)
    (inside : p < fdt.structEnd) {i : Nat} (small : i < 4) :
    ⟨.token, p + i⟩ ∈ (nextNodeLoop fdt fuel p depth).reads := by
  obtain ⟨fuel, rfl⟩ : ∃ n, fuel = n + 1 := ⟨fuel - 1, by omega⟩
  exact mem_reads_bind.mpr (.inl (nextTag_reads_type inside small))

/-- Where a call of `fdt_first_node` or `fdt_next_node` begins its walk. -/
inductive WalkStart (fdt : Fdt) : Nat → Prop
  | block : WalkStart fdt fdt.structStart
  | node {node : Node} (known : Returned fdt node) : WalkStart fdt node.props

theorem WalkStart.ge_start (bounded : fdt.Bounded) (start : WalkStart fdt s) :
    fdt.structStart ≤ s := by
  cases start with
  | block => exact Nat.le_refl _
  | node known => exact (known.propBoundary bounded).ge_start

theorem WalkStart.call (start : WalkStart fdt s) :
    ∃ (call : Call) (depth : Int), call.Legal fdt ∧
      call.reads fdt = (nextNodeLoop fdt (tokenBound fdt s) s depth).reads ∧
      ∀ node, (nextNodeLoop fdt (tokenBound fdt s) s depth).result = .ok (some node) →
        Returned fdt node := by
  cases start with
  | block => exact ⟨.firstNode, -1, trivial, rfl, fun node returns => .firstNode returns⟩
  | @node node known =>
      exact ⟨.nextNode node, node.depth, known, rfl, fun next returns => known.nextNode returns⟩

/-- A node that begins at a place some walk comes to is returned. -/
theorem WalkStart.returned (bounded : fdt.Bounded) (start : WalkStart fdt s)
    (skips : ReflTransGen (Skips fdt) s p) (inside : p < fdt.structEnd)
    (span : Span fdt p tag q) (begins : tag.type = FDT_BEGIN_NODE) :
    ∃ node, Returned fdt node ∧ node.props = q := by
  have above := start.ge_start bounded
  obtain ⟨call, depth, -, -, returned⟩ := start.call
  obtain ⟨fuel, depth', enough, result, -⟩ := nextNodeLoop_of_skips bounded skips above
    (tokenBound fdt s) depth (Nat.lt_succ_self _)
  obtain ⟨fuel, rfl⟩ : ∃ n, fuel = n + 1 := ⟨fuel - 1, by omega⟩
  refine ⟨⟨q, tag.name, depth' + 1⟩, returned _ ?_, rfl⟩
  have reads := nextTag_of_span bounded (Skips.ge_start skips above) inside span
  rw [result]
  show (nextTag fdt p >>= _).result = _
  rw [result_bind_of_ok reads]
  dsimp only
  rw [if_pos begins]
  rfl

theorem Boundary.walkStart (bounded : fdt.Bounded) (boundary : Boundary fdt p) :
    ∃ s, WalkStart fdt s ∧ ReflTransGen (Skips fdt) s p := by
  induction boundary with
  | start => exact ⟨_, .block, .refl⟩
  | @next p q tag before inside span notEnd ih =>
      obtain ⟨s, start, skips⟩ := ih
      by_cases begins : tag.type = FDT_BEGIN_NODE
      · obtain ⟨node, known, rfl⟩ := start.returned bounded skips inside span begins
        exact ⟨_, .node known, .refl⟩
      · exact ⟨s, start, skips.tail ⟨inside, tag, span, begins, notEnd⟩⟩

theorem StaysInside.types (bounded : fdt.Bounded) (stays : StaysInside fdt)
    (boundary : Boundary fdt p) (inside : p < fdt.structEnd) {i : Nat} (small : i < 4) :
    fdt.Contains (p + i) := by
  obtain ⟨s, start, skips⟩ := boundary.walkStart bounded
  obtain ⟨call, depth, legal, reads, -⟩ := start.call
  obtain ⟨fuel, depth', enough, -, subset⟩ := nextNodeLoop_of_skips bounded skips
    (start.ge_start bounded) (tokenBound fdt s) depth (Nat.lt_succ_self _)
  have mem := subset (nextNodeLoop_reads_type enough inside small)
  rw [← reads] at mem
  exact stays call legal _ mem (by rintro ⟨⟩)

/-- Comparing goes on while the string follows the key. -/
theorem strEq_reads_along (key : List UInt8) : ∀ (str n : Nat), n ≤ key.length →
    str + n < 2 ^ 64 → (∀ i < n, memory (str + i) ≠ 0 ∧ key[i]? = some (memory (str + i))) →
    ⟨purpose, str + n⟩ ∈ (strEq memory purpose str key).reads := by
  induction key with
  | nil =>
      intro str n le low along
      have zero : n = 0 := by simpa using le
      subst zero
      exact List.mem_singleton.mpr rfl
  | cons k key ih =>
      intro str n le low along
      cases n with
      | zero => exact mem_reads_bind.mpr (.inl (List.mem_singleton.mpr rfl))
      | succ n =>
          have head := along 0 (by omega)
          have same : (memory str).toNat = k.toNat := by
            have := head.2
            simp only [List.getElem?_cons_zero, Nat.add_zero, Option.some.injEq] at this
            rw [this]
          have nonzero : (memory str).toNat ≠ 0 := by
            intro zero
            exact head.1 (UInt8.toNat_inj.mp zero)
          refine mem_reads_bind.mpr (.inr ⟨_, rfl, ?_⟩)
          rw [if_pos same, if_neg nonzero, advance_eq (by omega)]
          have rest := ih (str + 1) n (by simpa using le) (by omega) (fun i small => by
            have := along (i + 1) (by omega)
            rwa [List.getElem?_cons_succ, ← Nat.add_assoc, Nat.add_right_comm] at this)
          rwa [Nat.add_right_comm] at rest

/-- A string that compares equal follows the whole key. -/
theorem along_of_strEq (key : List UInt8) : ∀ str : Nat, str + key.length < 2 ^ 64 →
    (∀ k ∈ key, k ≠ 0) → (strEq memory purpose str key).result = .ok true →
    ∀ i < key.length, memory (str + i) ≠ 0 ∧ key[i]? = some (memory (str + i)) := by
  induction key with
  | nil => intro str low nonzero same i small; simp at small
  | cons k key ih =>
      intro str low nonzero same i small
      have kNonzero := nonzero k (by simp)
      unfold strEq at same
      rw [result_bind_of_ok (a := (memory str).toNat) rfl] at same
      split at same
      · next eq =>
        have eq : memory str = k := UInt8.toNat_inj.mp eq
        subst eq
        have notZero : (memory str).toNat ≠ 0 := fun zero => kNonzero (UInt8.toNat_inj.mp zero)
        simp only [List.length_cons] at low small
        rw [if_neg notZero, advance_eq (by omega)] at same
        cases i with
        | zero => exact ⟨kNonzero, by simp⟩
        | succ i =>
            have rest := ih (str + 1) (by omega) (fun k mem => nonzero k (by simp [mem])) same i
              (by omega)
            rwa [List.getElem?_cons_succ, ← Nat.add_assoc, Nat.add_right_comm]
      · cases same

/-- Some read for tokenising or comparing leaves the blocks. -/
def Strays (fdt : Fdt) (reads : List Read) : Prop := ∃ r ∈ reads, ¬ KeepsInside fdt r

/-- A key longer than both blocks equals no string inside them. -/
theorem strays_of_strEq {key : List UInt8} {str : Nat}
    (long : fdt.structEnd + fdt.stringsEnd ≤ key.length) (low : str + key.length < 2 ^ 64)
    (nonzero : ∀ k ∈ key, k ≠ 0)
    (same : (strEq fdt.memory .name str key).result = .ok true) :
    Strays fdt (strEq fdt.memory .name str key).reads := by
  refine ⟨_, strEq_reads_along key str key.length (Nat.le_refl _) low
    (along_of_strEq key str low nonzero same), ?_⟩
  intro keeps
  rcases keeps (by rintro ⟨⟩) with ⟨-, below⟩ | ⟨-, below⟩ <;> simp only at below <;> omega

theorem name_lt_of_span (bounded : fdt.Bounded) (span : Span fdt p tag q)
    (type : tag.type = FDT_PROP) : tag.name < 2 ^ 53 := by
  have low := bounded.strings_low
  cases span with
  | beginNode _ _ _ => cases type
  | prop _ _ name _ => simp only; omega
  | plain eq kind => cases type; exact absurd kind (by decide)

/-- The loop of `fdt_getprop` follows the key out of the blocks, at this property or before. -/
theorem getpropLoop_strays (bounded : fdt.Bounded) {key : List UInt8}
    (long : fdt.structEnd + fdt.stringsEnd ≤ key.length) (short : key.length < 2 ^ 60)
    (nonzero : ∀ k ∈ key, k ≠ 0) (path : ReflTransGen (ListSkips fdt) s p)
    (inside : p < fdt.structEnd) (span : Span fdt p tag q) (type : tag.type = FDT_PROP)
    (strays : Strays fdt (strEq fdt.memory .name tag.name key).reads) :
    fdt.structStart ≤ s → ∀ fuel, fdt.structEnd - s < fuel →
    Strays fdt (getpropLoop fdt key fuel s).reads := by
  induction path using ReflTransGen.head_induction_on with
  | refl =>
      intro above fuel enough
      obtain ⟨fuel, rfl⟩ : ∃ n, fuel = n + 1 := ⟨fuel - 1, by omega⟩
      obtain ⟨r, mem, outside⟩ := strays
      refine ⟨r, mem_reads_bind.mpr (.inr ⟨_, nextTag_of_span bounded above inside span, ?_⟩),
        outside⟩
      dsimp only
      rw [if_neg (by rw [type]; decide), if_neg (not_not.mpr type)]
      exact mem_reads_bind.mpr (.inl mem)
  | @head s t step rest ih =>
      intro above fuel enough
      obtain ⟨insideHere, tag', span', kind⟩ := step
      have advances := span'.lt
      obtain ⟨fuel, rfl⟩ : ∃ n, fuel = n + 1 := ⟨fuel - 1, by omega⟩
      obtain ⟨r, mem, outside⟩ := ih (by omega) fuel (by omega)
      have returns := nextTag_of_span bounded above insideHere span'
      rcases kind with nop | prop
      · refine ⟨r, mem_reads_bind.mpr (.inr ⟨_, returns, ?_⟩), outside⟩
        dsimp only
        rw [if_pos nop]
        exact mem
      · have notNop : tag'.type ≠ FDT_NOP := by rw [prop]; decide
        obtain ⟨same, compared⟩ := strEq_returns fdt.memory .name key tag'.name
        cases same with
        | false =>
            refine ⟨r, mem_reads_bind.mpr (.inr ⟨_, returns, ?_⟩), outside⟩
            dsimp only
            rw [if_neg notNop, if_neg (not_not.mpr prop)]
            exact mem_reads_bind.mpr (.inr ⟨_, compared, mem⟩)
        | true =>
            have low := name_lt_of_span bounded span' prop
            obtain ⟨r, mem, outside⟩ := strays_of_strEq long (by omega) nonzero compared
            refine ⟨r, mem_reads_bind.mpr (.inr ⟨_, returns, ?_⟩), outside⟩
            dsimp only
            rw [if_neg notNop, if_neg (not_not.mpr prop)]
            exact mem_reads_bind.mpr (.inl mem)

theorem PropBoundary.returned (bounded : fdt.Bounded) (boundary : PropBoundary fdt p) :
    ∃ node, Returned fdt node ∧ ReflTransGen (ListSkips fdt) node.props p := by
  induction boundary with
  | first before inside span begins =>
      obtain ⟨s, start, skips⟩ := before.walkStart bounded
      obtain ⟨node, known, rfl⟩ := start.returned bounded skips inside span begins
      exact ⟨node, known, .refl⟩
  | next before inside span kind ih =>
      obtain ⟨node, known, path⟩ := ih
      exact ⟨node, known, path.tail ⟨inside, _, span, kind⟩⟩

/-- A key that follows an unterminated name, and then goes on for longer than the blocks. -/
def followingKey (fdt : Fdt) (name length : Nat) : List UInt8 :=
  ((List.range length).map fun i => fdt.memory (name + i)) ++
    List.replicate (fdt.structEnd + fdt.stringsEnd) 1

/-- An unterminated name runs, without a NUL, up to an address outside the blocks. -/
theorem strays_of_unterminated {name : Nat} (unterminated : ¬ ∃ stop,
    NameEndsAt fdt.memory name stop ∧ ∀ a, name ≤ a → a ≤ stop → fdt.Contains a) :
    ∃ n ≤ fdt.structEnd + fdt.stringsEnd, ¬ fdt.Contains (name + n) ∧
      ∀ i < n, fdt.memory (name + i) ≠ 0 := by
  have leaves : ∃ n, ¬ fdt.Contains (name + n) := by
    refine ⟨fdt.structEnd + fdt.stringsEnd, ?_⟩
    rintro (⟨-, below⟩ | ⟨-, below⟩) <;> omega
  have before : ∀ i < Nat.find leaves, fdt.Contains (name + i) :=
    fun i small => not_not.mp (Nat.find_min leaves small)
  refine ⟨Nat.find leaves, Nat.find_min' leaves ?_, Nat.find_spec leaves, ?_⟩
  · rintro (⟨-, below⟩ | ⟨-, below⟩) <;> omega
  · intro i small zero
    have ends : ∃ i, fdt.memory (name + i) = 0 := ⟨i, zero⟩
    have le := Nat.find_min' ends zero
    refine unterminated ⟨name + Nat.find ends, ⟨by omega, ?_, Nat.find_spec ends⟩, ?_⟩
    · intro a above below
      have nonzero := Nat.find_min ends (m := a - name) (by omega)
      rwa [Nat.add_sub_cancel' above] at nonzero
    · intro a above below
      have contained := before (a - name) (by omega)
      rwa [Nat.add_sub_cancel' above] at contained

theorem StaysInside.names (bounded : fdt.Bounded) (stays : StaysInside fdt)
    (property : Property fdt tag) :
    ∃ stop, NameEndsAt fdt.memory tag.name stop ∧
      ∀ a, tag.name ≤ a → a ≤ stop → fdt.Contains a := by
  by_contra unterminated
  obtain ⟨type, p, q, boundary, inside, span⟩ := property
  obtain ⟨node, known, path⟩ := boundary.returned bounded
  obtain ⟨n, le, outside, nonzero⟩ := strays_of_unterminated unterminated
  have low := bounded.struct_low
  have stringsLow := bounded.strings_low
  have nameLow : tag.name < 2 ^ 53 := name_lt_of_span bounded span type
  have length : (followingKey fdt tag.name n).length = n + (fdt.structEnd + fdt.stringsEnd) := by
    simp [followingKey]
  have strays : Strays fdt
      (strEq fdt.memory .name tag.name (followingKey fdt tag.name n)).reads := by
    refine ⟨_, strEq_reads_along _ tag.name n (by omega) (by omega) ?_, ?_⟩
    · intro i small
      refine ⟨nonzero i small, ?_⟩
      rw [followingKey, List.getElem?_append_left (by simpa using small)]
      simp [small]
    · exact fun keeps => outside (keeps (by rintro ⟨⟩))
  have keyNonzero : ∀ k ∈ followingKey fdt tag.name n, k ≠ 0 := by
    intro k mem
    simp only [followingKey, List.mem_append, List.mem_map, List.mem_range,
      List.mem_replicate] at mem
    rcases mem with ⟨i, small, rfl⟩ | ⟨-, rfl⟩
    · exact nonzero i small
    · decide
  obtain ⟨r, mem, strayed⟩ := getpropLoop_strays bounded (by omega) (by omega) keyNonzero path
    inside span type strays (known.propBoundary bounded).ge_start
    (tokenBound fdt node.props) (Nat.lt_succ_self _)
  exact strayed (stays (.getprop node _) known r mem)

/-- The reader keeps to the blocks on every sequence of calls, exactly when the types of the
tokens and the names of the properties end inside. -/
theorem staysInside_iff {blob : Nat} (physical : blob < 2 ^ 52)
    (opens : (fdtOpen memory blob).result = .ok fdt) :
    StaysInside fdt ↔ WellTerminated fdt := by
  have bounded := fdtOpen_bounded physical opens
  constructor
  · intro stays
    exact ⟨fun p boundary inside i small => stays.types bounded boundary inside small,
      fun tag property => stays.names bounded property⟩
  · exact WellTerminated.staysInside bounded

/-- A tree of which the reader sees the end only. -/
def emptyTree : Fdt := treeOf 0x40000000 (be32 FDT_END) []

theorem staysInside_iff_emptyTree :
    (fdtOpen emptyTree.memory 0x40000000).result = .ok emptyTree ∧
      (StaysInside emptyTree ↔ WellTerminated emptyTree) := by
  have opens : (fdtOpen emptyTree.memory 0x40000000).result = .ok emptyTree :=
    fdtOpen_treeOf (by omega) (by decide)
  exact ⟨opens, staysInside_iff (by omega) opens⟩

/-- A structure block of one byte. -/
def truncatedTree : Fdt := treeOf 0x40000000 [0] []

/-- A root node with one property, whose name is the only byte of the strings block. -/
def unterminatedTree : Fdt :=
  treeOf 0x40000000 (be32 FDT_BEGIN_NODE ++ be32 0 ++ be32 FDT_PROP ++ be32 0 ++ be32 0 ++
    be32 FDT_END_NODE ++ be32 FDT_END) [97]

/-- With one byte left in the structure block, the four bytes of a type are read; and a name
without a NUL is compared past the strings block. -/
theorem strays_of_truncated :
    ((fdtOpen truncatedTree.memory 0x40000000).result = .ok truncatedTree ∧
      ¬ StaysInside truncatedTree) ∧
    (fdtOpen unterminatedTree.memory 0x40000000).result = .ok unterminatedTree ∧
      ¬ StaysInside unterminatedTree := by
  refine ⟨⟨fdtOpen_treeOf (by omega) (by decide), fun stays => ?_⟩,
    fdtOpen_treeOf (by omega) (by decide), fun stays => ?_⟩
  · have contained := stays .firstNode trivial ⟨.token, 0x40000029⟩ (by decide) (by decide)
    exact absurd contained (by decide)
  · have root : Returned unterminatedTree ⟨0x40000030, 0x4000002C, 0⟩ := .firstNode (by decide)
    have contained := stays (.getprop _ [97, 98]) root ⟨.name, 0x40000045⟩ (by decide) (by decide)
    exact absurd contained (by decide)

end DeviceTree

end Av6
