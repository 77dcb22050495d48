import Av6.FdtModel

/-!
# Tokens of the structure block

The contract of `fdt_next_tag`: which extents of the structure block it accepts as a token,
what it reports about one, and which bytes it reads.
-/

namespace Av6

namespace DeviceTree

variable {fdt : Fdt} {memory : Memory} {purpose : Purpose} {P : Read → Prop} {E : Stop → Prop}
  {p q : Nat} {tag tag' : Tag}

open Traced

/-- The big-endian value of four bytes. -/
def cellAt (memory : Memory) (p : Nat) : Nat :=
  (memory p).toNat * 2 ^ 24 + (memory (p + 1)).toNat * 2 ^ 16 + (memory (p + 2)).toNat * 2 ^ 8
    + (memory (p + 3)).toNat

theorem cellAt_lt (memory : Memory) (p : Nat) : cellAt memory p < 2 ^ 32 := by
  have b0 := (memory p).toNat_lt
  have b1 := (memory (p + 1)).toNat_lt
  have b2 := (memory (p + 2)).toNat_lt
  have b3 := (memory (p + 3)).toNat_lt
  unfold cellAt
  omega

/-- The swap turns the little-endian value of four bytes into the big-endian one. -/
theorem fdt32_of_bytes {b0 b1 b2 b3 : Nat} (lt0 : b0 < 2 ^ 8) (lt1 : b1 < 2 ^ 8)
    (lt2 : b2 < 2 ^ 8) (lt3 : b3 < 2 ^ 8) :
    fdt32 (b0 + b1 * 2 ^ 8 + b2 * 2 ^ 16 + b3 * 2 ^ 24) =
      b0 * 2 ^ 24 + b1 * 2 ^ 16 + b2 * 2 ^ 8 + b3 := by
  unfold fdt32
  omega

@[simp]
theorem loadCell_result (memory : Memory) (purpose : Purpose) (p : Nat) :
    (loadCell memory purpose p).result = .ok (cellAt memory p) := by
  have swapped := fdt32_of_bytes (memory p).toNat_lt (memory (p + 1)).toNat_lt
    (memory (p + 2)).toNat_lt (memory (p + 3)).toNat_lt
  unfold cellAt
  rw [← swapped]
  rfl

@[simp]
theorem loadCell_reads (memory : Memory) (purpose : Purpose) (p : Nat) :
    (loadCell memory purpose p).reads =
      [⟨purpose, p⟩, ⟨purpose, p + 1⟩, ⟨purpose, p + 2⟩, ⟨purpose, p + 3⟩] :=
  rfl

theorem loadCell_runs (allowed : ∀ i < 4, P ⟨purpose, p + i⟩) :
    Runs P E (· = cellAt memory p) (loadCell memory purpose p) := by
  refine ⟨?_, by simp, by simp⟩
  simp only [loadCell_reads, List.mem_cons, List.not_mem_nil, or_false]
  rintro r (rfl | rfl | rfl | rfl)
  · exact allowed 0 (by omega)
  · exact allowed 1 (by omega)
  · exact allowed 2 (by omega)
  · exact allowed 3 (by omega)

theorem loadByte_runs (allowed : P ⟨purpose, p⟩) :
    Runs P E (· = (memory p).toNat) (loadByte memory purpose p) :=
  Runs.load allowed rfl

theorem advance_eq {p n : Nat} (low : p + n < 2 ^ 64) : advance p n = p + n :=
  Nat.mod_eq_of_lt low

theorem align4_of_le {v : Nat} (small : v ≤ 0xFFFFFFFC) : align4 v = (v + 3) / 4 * 4 := by
  unfold align4 add32
  rw [Nat.mod_eq_of_lt (by omega)]

theorem align4_lt (v : Nat) : align4 v < 2 ^ 32 := by
  unfold align4 add32
  omega

theorem align4_words (v : Nat) : align4 v / 4 * 4 = align4 v := by
  unfold align4
  omega

/-- The NUL that ends the string at `s` is the byte at `stop`. -/
structure NameEndsAt (memory : Memory) (s stop : Nat) : Prop where
  le : s ≤ stop
  ne_zero : ∀ a, s ≤ a → a < stop → memory a ≠ 0
  eq_zero : memory stop = 0

theorem NameEndsAt.unique {s stop stop' : Nat} (first : NameEndsAt memory s stop)
    (second : NameEndsAt memory s stop') : stop = stop' := by
  rcases Nat.lt_trichotomy stop stop' with less | equal | greater
  · exact absurd first.eq_zero (second.ne_zero stop first.le less)
  · exact equal
  · exact absurd second.eq_zero (first.ne_zero stop' second.le greater)

/-- `fdt_namelen` stops at the NUL or at the end of the block. -/
theorem nameEnd_runs (left : Nat) : ∀ s : Nat,
    (∀ a, s ≤ a → a < s + left → P ⟨.name, a⟩) →
    Runs P E (fun stop => NameEndsAt memory s stop ∧ stop < s + left ∨
      stop = s + left ∧ ∀ a, s ≤ a → a < s + left → memory a ≠ 0) (nameEnd memory s left) := by
  induction left with
  | zero =>
      intro s allowed
      refine Runs.ret (.inr ⟨rfl, ?_⟩)
      intro a above below
      omega
  | succ left ih =>
      intro s allowed
      refine (loadByte_runs (allowed s (Nat.le_refl s) (by omega))).bind ?_
      rintro b rfl
      by_cases zero : memory s = 0
      · rw [if_neg (by simp [zero])]
        refine Runs.ret (.inl ⟨⟨Nat.le_refl s, ?_, zero⟩, by omega⟩)
        intro a above below
        omega
      · have nonzero : (memory s).toNat ≠ 0 := by
          intro eq
          exact zero (UInt8.toNat_inj.mp eq)
        rw [if_pos nonzero]
        refine (ih (s + 1) fun a above below => allowed a (by omega) (by omega)).post ?_
        have fromHead : ∀ {a}, s ≤ a → (s + 1 ≤ a → memory a ≠ 0) → memory a ≠ 0 := by
          intro a above rest
          rcases Nat.eq_or_lt_of_le above with rfl | above
          · exact zero
          · exact rest above
        rintro stop (⟨ends, below⟩ | ⟨rfl, rest⟩)
        · have := ends.le
          exact .inl ⟨⟨by omega, fun a above below =>
            fromHead above fun above => ends.ne_zero a above below, ends.eq_zero⟩, by omega⟩
        · exact .inr ⟨by omega, fun a above below =>
            fromHead above fun above => rest a above (by omega)⟩

/-- What `fdt_open` promises about the pointers it sets. -/
structure Fdt.Bounded (fdt : Fdt) : Prop where
  start_le : fdt.structStart ≤ fdt.structEnd
  struct_size : fdt.structEnd < fdt.structStart + 2 ^ 32
  struct_low : fdt.structEnd < 2 ^ 53
  strings_le : fdt.strings ≤ fdt.stringsEnd
  strings_size : fdt.stringsEnd < fdt.strings + 2 ^ 32
  strings_low : fdt.stringsEnd < 2 ^ 53

/-- The token at `p` is well formed, described by the tag, and ends at `q`. -/
inductive Span (fdt : Fdt) (p : Nat) : Tag → Nat → Prop
  | beginNode {stop : Nat} (type : cellAt fdt.memory p = FDT_BEGIN_NODE)
      (name : NameEndsAt fdt.memory (p + 4) stop) (inside : stop < fdt.structEnd) :
      Span fdt p { type := FDT_BEGIN_NODE, name := p + 4 } (p + 4 + align4 (stop - (p + 4) + 1))
  | prop (type : cellAt fdt.memory p = FDT_PROP) (header : p + 12 ≤ fdt.structEnd)
      (name : fdt.strings + cellAt fdt.memory (p + 8) < fdt.stringsEnd)
      (value : p + 12 + align4 (cellAt fdt.memory (p + 4)) ≤ fdt.structEnd) :
      Span fdt p
        { type := FDT_PROP
          name := fdt.strings + cellAt fdt.memory (p + 8)
          value := p + 12
          len := cellAt fdt.memory (p + 4) }
        (p + 12 + align4 (cellAt fdt.memory (p + 4)))
  | plain {type : Nat} (eq : cellAt fdt.memory p = type)
      (kind : type = FDT_END_NODE ∨ type = FDT_NOP ∨ type = FDT_END) :
      Span fdt p { type } (p + 4)

theorem Span.type_eq (span : Span fdt p tag q) : tag.type = cellAt fdt.memory p := by
  cases span with
  | beginNode type _ _ => exact type.symm
  | prop type _ _ _ => exact type.symm
  | plain eq _ => exact eq.symm

theorem Span.unique {q' : Nat} (first : Span fdt p tag q) (second : Span fdt p tag' q') :
    tag = tag' ∧ q = q' := by
  have sameType : tag.type = tag'.type := first.type_eq.trans second.type_eq.symm
  cases first with
  | beginNode type name inside =>
      cases second with
      | beginNode type' name' inside' =>
          obtain rfl := name.unique name'
          exact ⟨rfl, rfl⟩
      | prop type' _ _ _ => rw [type] at type'; cases type'
      | plain eq kind => rw [← eq, type] at kind; exact absurd kind (by decide)
  | prop type _ _ _ =>
      cases second with
      | beginNode type' _ _ => rw [type] at type'; cases type'
      | prop _ _ _ _ => exact ⟨rfl, rfl⟩
      | plain eq kind => rw [← eq, type] at kind; exact absurd kind (by decide)
  | plain eq kind =>
      subst eq
      cases second with
      | beginNode type _ _ => rw [type] at kind; exact absurd kind (by decide)
      | prop type _ _ _ => rw [type] at kind; exact absurd kind (by decide)
      | plain eq _ => subst eq; exact ⟨rfl, rfl⟩

theorem Span.lt (span : Span fdt p tag q) : p + 4 ≤ q := by
  cases span with
  | beginNode _ _ _ => omega
  | prop _ _ _ _ => omega
  | plain _ _ => omega

/-- The name of a node ends inside the block. -/
theorem Span.named (span : Span fdt p tag q) (above : fdt.structStart ≤ p)
    (begins : tag.type = FDT_BEGIN_NODE) :
    ∃ stop < fdt.structEnd, NameEndsAt fdt.memory tag.name stop ∧ fdt.structStart ≤ tag.name := by
  cases span with
  | beginNode _ name inside => exact ⟨_, inside, name, by simp only; omega⟩
  | prop _ _ _ _ => cases begins
  | plain _ kind => cases begins; exact absurd kind (by decide)

/-- What `fdt_next_tag` may read at `p`: the rest of the structure block, and the four bytes
of the token's type even where the block has fewer left. -/
def Touches (fdt : Fdt) (p : Nat) (r : Read) : Prop :=
  (r.purpose = .token ∨ r.purpose = .name) ∧ p < fdt.structEnd ∧ p ≤ r.addr ∧
    (r.addr < fdt.structEnd ∨ r.addr < p + 4)

theorem touches_of_inside {a : Nat} (scans : purpose = .token ∨ purpose = .name)
    (inside : p < fdt.structEnd) (above : p ≤ a) (below : a < fdt.structEnd ∨ a < p + 4) :
    Touches fdt p ⟨purpose, a⟩ :=
  ⟨scans, inside, above, below⟩

/-- A panic, at a place where no token is well formed. -/
def Refuses (fdt : Fdt) (p : Nat) (e : Stop) : Prop :=
  (∃ why, e = .panic why) ∧ (p < fdt.structEnd → ∀ tag q, ¬ Span fdt p tag q)

theorem nextTag_begin_runs (bounded : fdt.Bounded) (above : fdt.structStart ≤ p)
    (inside : p < fdt.structEnd) (type : cellAt fdt.memory p = FDT_BEGIN_NODE) :
    Runs (Touches fdt p) (Refuses fdt p) (fun r => Span fdt p r.1 r.2) (do
      let len ← namelen fdt.memory (p + 4) fdt.structEnd
      if len = 0 then panic .unterminatedName
      else return ({ type := FDT_BEGIN_NODE, name := p + 4 },
        advance (p + 4) (align4 len / 4 * 4))) := by
  have low := bounded.struct_low
  have size := bounded.struct_size
  have touches : ∀ a, p + 4 ≤ a → a < p + 4 + (fdt.structEnd - (p + 4)) →
      Touches fdt p ⟨.name, a⟩ := by
    intro a above below
    exact touches_of_inside (by decide) inside (by omega) (by omega)
  unfold namelen
  rw [Traced.bind_assoc]
  refine (nameEnd_runs _ (p + 4) touches).bind ?_
  rintro stop (⟨ends, below⟩ | ⟨rfl, unterminated⟩)
  · have le := ends.le
    have length : add32 ((stop - (p + 4)) % 2 ^ 32) 1 = stop - (p + 4) + 1 := by
      unfold add32
      omega
    have rounded : align4 (stop - (p + 4) + 1) < 2 ^ 32 := align4_lt _
    rw [if_pos (by omega), length, Traced.pure_bind, if_neg (by omega), align4_words,
      advance_eq (by omega)]
    exact Runs.ret (.beginNode type ends (by omega))
  · rw [if_neg (by omega), Traced.pure_bind, if_pos rfl]
    refine Runs.stop ⟨⟨_, rfl⟩, ?_⟩
    intro _ tag q span
    cases span with
    | beginNode _ ends below =>
        exact unterminated _ ends.le (by have := ends.le; omega) ends.eq_zero
    | prop type' _ _ _ => rw [type] at type'; cases type'
    | plain eq kind => rw [← eq, type] at kind; exact absurd kind (by decide)

theorem nextTag_prop_runs (bounded : fdt.Bounded) (inside : p < fdt.structEnd)
    (type : cellAt fdt.memory p = FDT_PROP) :
    Runs (Touches fdt p) (Refuses fdt p) (fun r => Span fdt p r.1 r.2)
      (if advance (p + 4) 8 > fdt.structEnd then panic .truncatedProperty
      else do
        let len ← loadCell fdt.memory .token (p + 4)
        let nameoff ← loadCell fdt.memory .token (advance (p + 4) 4)
        let p := advance (p + 4) 8
        if advance fdt.strings nameoff ≥ fdt.stringsEnd then panic .nameOutside
        else if advance p (align4 len) > fdt.structEnd ∨ advance p (align4 len) < p then
          panic .valueOutside
        else
          return ({ type := FDT_PROP, name := advance fdt.strings nameoff, value := p, len },
            advance p (align4 len / 4 * 4))) := by
  have low := bounded.struct_low
  have stringsLe := bounded.strings_le
  have stringsLow := bounded.strings_low
  have refusal : ∀ why, (p + 12 ≤ fdt.structEnd →
      fdt.strings + cellAt fdt.memory (p + 8) < fdt.stringsEnd →
      ¬ p + 12 + align4 (cellAt fdt.memory (p + 4)) ≤ fdt.structEnd) →
      Refuses fdt p (.panic why) := by
    intro why outside
    refine ⟨⟨why, rfl⟩, ?_⟩
    intro _ tag q span
    cases span with
    | beginNode type' _ _ => rw [type] at type'; cases type'
    | prop _ header name value => exact outside header name value
    | plain eq kind => rw [← eq, type] at kind; exact absurd kind (by decide)
  have lenLt := cellAt_lt fdt.memory (p + 4)
  have nameLt := cellAt_lt fdt.memory (p + 8)
  have roundedLt := align4_lt (cellAt fdt.memory (p + 4))
  rw [advance_eq (p := p + 4) (by omega), advance_eq (p := p + 4) (by omega)]
  split
  · exact Runs.stop (refusal _ fun header => by omega)
  · next header =>
    have touches : ∀ i < 12, Touches fdt p ⟨.token, p + i⟩ := by
      intro i small
      exact touches_of_inside (by decide) inside (by omega) (by omega)
    refine (loadCell_runs fun i small => ?_).bind ?_
    · rw [Nat.add_assoc]
      exact touches (4 + i) (by omega)
    rintro len rfl
    refine (loadCell_runs fun i small => ?_).bind ?_
    · rw [Nat.add_assoc, Nat.add_assoc]
      exact touches (4 + (4 + i)) (by omega)
    rintro nameoff rfl
    simp only [Nat.add_assoc, Nat.reduceAdd]
    rw [advance_eq (p := fdt.strings) (by omega), align4_words, advance_eq (by omega)]
    split
    · exact Runs.stop (refusal _ fun _ name => by omega)
    · next name =>
      split
      · next outside => exact Runs.stop (refusal _ fun _ _ => by omega)
      · next value =>
        exact Runs.ret (Span.prop type (by omega) (by omega) (by omega))

/-- The contract of `fdt_next_tag`. -/
theorem nextTag_runs (bounded : fdt.Bounded) (above : fdt.structStart ≤ p) :
    Runs (Touches fdt p) (Refuses fdt p)
      (fun r => p < fdt.structEnd ∧ Span fdt p r.1 r.2) (nextTag fdt p) := by
  have low := bounded.struct_low
  unfold nextTag
  split
  · exact Runs.stop ⟨⟨_, rfl⟩, fun inside => by omega⟩
  · next inside =>
    have inside : p < fdt.structEnd := by omega
    refine Runs.post (Q := fun r => Span fdt p r.1 r.2) ?_ fun r span => ⟨inside, span⟩
    refine (loadCell_runs fun i small =>
      touches_of_inside (by decide) inside (by omega) (by omega)).bind ?_
    rintro type rfl
    rw [advance_eq (p := p) (by omega)]
    split
    · next type =>
      rw [type]
      exact nextTag_begin_runs bounded above inside type
    · next notBegin =>
      split
      · next type =>
        rw [type]
        exact nextTag_prop_runs bounded inside type
      · next notProp =>
        split
        · next kind => exact Runs.ret (.plain rfl kind)
        · next unknown =>
          refine Runs.stop ⟨⟨_, rfl⟩, ?_⟩
          intro _ tag q span
          cases span with
          | beginNode type _ _ => exact notBegin type
          | prop type _ _ _ => exact notProp type
          | plain eq kind => exact unknown (eq ▸ kind)

theorem span_of_nextTag (bounded : fdt.Bounded) (above : fdt.structStart ≤ p)
    (returns : (nextTag fdt p).result = .ok (tag, q)) :
    p < fdt.structEnd ∧ Span fdt p tag q :=
  (nextTag_runs bounded above).ok _ returns

theorem nextTag_of_span (bounded : fdt.Bounded) (above : fdt.structStart ≤ p)
    (inside : p < fdt.structEnd) (span : Span fdt p tag q) :
    (nextTag fdt p).result = .ok (tag, q) := by
  cases returned : (nextTag fdt p).result with
  | error e => exact absurd span (((nextTag_runs bounded above).error e returned).2 inside tag q)
  | ok r =>
      obtain ⟨rfl, rfl⟩ := span.unique (span_of_nextTag bounded above returned).2
      rfl

/-- The type of a token is read in full whenever any byte of the block is left. -/
theorem nextTag_reads_type (inside : p < fdt.structEnd) {i : Nat} (small : i < 4) :
    ⟨.token, p + i⟩ ∈ (nextTag fdt p).reads := by
  unfold nextTag
  rw [if_neg (by omega)]
  refine mem_reads_bind.mpr (.inl ?_)
  simp only [loadCell_reads, List.mem_cons, Read.mk.injEq, true_and, List.not_mem_nil, or_false]
  omega

/-- `fdt_open` accepts a header whose blocks lie inside the blob. -/
structure Fdt.Inside (fdt : Fdt) (memory : Memory) (blob : Nat) : Prop where
  memory_eq : fdt.memory = memory
  struct_ge : blob ≤ fdt.structStart
  start_le : fdt.structStart ≤ fdt.structEnd
  struct_le : fdt.structEnd ≤ blob + cellAt memory (blob + 4)
  strings_ge : blob ≤ fdt.strings
  strings_le : fdt.strings ≤ fdt.stringsEnd
  stringsEnd_le : fdt.stringsEnd ≤ blob + cellAt memory (blob + 4)

/-- A block whose 32-bit end neither wraps nor passes `totalsize` is where it seems to be. -/
theorem block_inside {blob off size totalsize : Nat} (physical : blob < 2 ^ 52)
    (offLt : off < 2 ^ 32) (sizeLt : size < 2 ^ 32) (noWrap : off ≤ add32 off size)
    (fits : add32 off size ≤ totalsize) :
    advance blob off = blob + off ∧ advance (advance blob off) size = blob + off + size ∧
      off + size ≤ totalsize := by
  unfold add32 at noWrap fits
  rw [advance_eq (p := blob) (by omega), advance_eq (by omega)]
  refine ⟨rfl, rfl, ?_⟩
  omega

theorem fdtOpen_inside {blob : Nat} (physical : blob < 2 ^ 52)
    (opens : (fdtOpen memory blob).result = .ok fdt) : fdt.Inside memory blob := by
  unfold fdtOpen at opens
  simp only [result_bind_eq_ok, loadCell_result, Except.ok.injEq, exists_eq_left'] at opens
  split at opens
  · cases opens
  simp only [result_bind_eq_ok, loadCell_result, Except.ok.injEq, exists_eq_left'] at opens
  split at opens
  · cases opens
  simp only [result_bind_eq_ok, loadCell_result, Except.ok.injEq, exists_eq_left'] at opens
  split at opens
  · cases opens
  next fits =>
  simp only [not_or, Nat.not_lt] at fits
  obtain ⟨structNoWrap, structFits, stringsNoWrap, stringsFits⟩ := fits
  obtain ⟨start, stop, le⟩ := block_inside physical (cellAt_lt memory (blob + 8))
    (cellAt_lt memory (blob + 36)) structNoWrap structFits
  obtain ⟨strings, stringsEnd, stringsLe⟩ := block_inside physical
    (cellAt_lt memory (blob + 12)) (cellAt_lt memory (blob + 32)) stringsNoWrap stringsFits
  rw [stop, start, stringsEnd, strings] at opens
  cases opens
  refine ⟨rfl, ?_, ?_, ?_, ?_, ?_, ?_⟩ <;> simp only <;> omega

theorem Fdt.Inside.bounded {blob : Nat} (inside : fdt.Inside memory blob)
    (physical : blob < 2 ^ 52) : fdt.Bounded := by
  have totalsizeLt := cellAt_lt memory (blob + 4)
  have structGe := inside.struct_ge
  have structLe := inside.struct_le
  have stringsGe := inside.strings_ge
  have stringsLe := inside.stringsEnd_le
  exact ⟨inside.start_le, by omega, by omega, inside.strings_le, by omega, by omega⟩

/-- `fdt_open` bounds both blocks. -/
theorem fdtOpen_bounded {blob : Nat} (physical : blob < 2 ^ 52)
    (opens : (fdtOpen memory blob).result = .ok fdt) : fdt.Bounded :=
  (fdtOpen_inside physical opens).bounded physical

/-- A header whose blocks lie inside the blob is accepted. -/
theorem fdtOpen_of_header {blob totalsize offStruct offStrings sizeStrings sizeStruct : Nat}
    (physical : blob < 2 ^ 52) (magic : cellAt memory blob = FDT_MAGIC)
    (version : FDT_FIRST_SUPPORTED_VERSION ≤ cellAt memory (blob + 20))
    (compatible : cellAt memory (blob + 24) ≤ FDT_LAST_SUPPORTED_VERSION)
    (total : cellAt memory (blob + 4) = totalsize)
    (structAt : cellAt memory (blob + 8) = offStruct)
    (stringsAt : cellAt memory (blob + 12) = offStrings)
    (stringsLength : cellAt memory (blob + 32) = sizeStrings)
    (structLength : cellAt memory (blob + 36) = sizeStruct)
    (structFits : offStruct + sizeStruct ≤ totalsize)
    (stringsFits : offStrings + sizeStrings ≤ totalsize) :
    (fdtOpen memory blob).result = .ok {
      memory
      structStart := blob + offStruct
      structEnd := blob + offStruct + sizeStruct
      strings := blob + offStrings
      stringsEnd := blob + offStrings + sizeStrings } := by
  have totalLt := cellAt_lt memory (blob + 4)
  have sumEq : ∀ {off size : Nat}, off + size ≤ totalsize → add32 off size = off + size :=
    fun fits => Nat.mod_eq_of_lt (by omega)
  have load : ∀ p, Runs (fun _ => True) (fun _ => False) (· = cellAt memory p)
      (loadCell memory .header p) := fun p => loadCell_runs fun _ _ => trivial
  refine Runs.returns (P := fun _ => True) ?_
  refine (load _).bind ?_
  rintro _ rfl
  rw [if_neg (not_not.mpr magic)]
  refine (load _).bind ?_
  rintro _ rfl
  refine (load _).bind ?_
  rintro _ rfl
  rw [if_neg (by omega)]
  refine (load _).bind ?_
  rintro _ rfl
  refine (load _).bind ?_
  rintro _ rfl
  refine (load _).bind ?_
  rintro _ rfl
  refine (load _).bind ?_
  rintro _ rfl
  refine (load _).bind ?_
  rintro _ rfl
  rw [total, structAt, stringsAt, stringsLength, structLength, sumEq structFits,
    sumEq stringsFits, if_neg (by omega), advance_eq (p := blob) (by omega),
    advance_eq (p := blob) (by omega), advance_eq (by omega), advance_eq (by omega)]
  exact Runs.ret rfl

end DeviceTree

end Av6
