import Av6.FmtClosed
import Av6.FmtNumbers

/-!
# Field widths

The loop of `decode` over the width takes the digits from one to nine, so that a numeral with a
zero is cut at it.  All other widths are honoured.
-/

namespace Av6

namespace Fmt

/-- A directive behind its percent sign. -/
def directive (flags : List Byte) (w : Nat) (long : Bool) (conv : Byte) : List Byte :=
  flags ++ (numeral 10 w ++ ((if long then [ascii 'l'] else []) ++ [conv]))

/-- The base of an integer conversion. -/
def convBase (conv : Byte) : Nat :=
  if conv = ascii 'x' then 16 else if conv = ascii 'o' then 8 else 10

/-- The argument of an integer conversion: whether it is negative, and its magnitude. -/
def convArg (conv : Byte) (long : Bool) (slot : BitVec 64) : Bool × Nat :=
  if conv = ascii 'd' then
    (decide (signedArg long slot < 0), (signedArg long slot).natAbs)
  else (false, unsignedArg long slot)

/-- A field: sign or prefix and digits, filled up on the left, with zeros behind the prefix or
with spaces in front of it. -/
def field (zero : Bool) (w : Nat) (pfx digits : List Byte) : List Byte :=
  if zero then pfx ++ List.replicate (w - (pfx ++ digits).length) (ascii '0') ++ digits
  else List.replicate (w - (pfx ++ digits).length) (ascii ' ') ++ pfx ++ digits

theorem length_field (zero : Bool) (w : Nat) (pfx digits : List Byte) :
    (field zero w pfx digits).length = max w (pfx ++ digits).length := by
  unfold field
  cases zero with
  | true =>
      simp only [if_true, List.length_append, List.length_replicate]
      omega
  | false =>
      simp only [Bool.false_eq_true, if_false, List.length_append, List.length_replicate]
      omega

section Scanner

variable {flags digits rest : List Byte} {c : Byte} {spec : FmtSpec}

theorem decodeFlags_append (known : ∀ f ∈ flags, f = ascii '#' ∨ f = ascii '0')
    (alt : c ≠ ascii '#') (zero : c ≠ ascii '0') :
    decodeFlags (flags ++ c :: rest) spec = (c :: rest,
      { spec with alt := spec.alt || decide (ascii '#' ∈ flags)
                  zero := spec.zero || decide (ascii '0' ∈ flags) }) := by
  induction flags generalizing spec with
  | nil => simp [decodeFlags, alt, zero]
  | cons f flags ih =>
      have known' : ∀ f ∈ flags, f = ascii '#' ∨ f = ascii '0' :=
        fun f' member => known f' (List.mem_cons_of_mem f member)
      rw [List.cons_append, decodeFlags]
      rcases known f List.mem_cons_self with rfl | rfl
      · rw [if_pos rfl, ih known']
        simp [show ascii '0' ≠ ascii '#' by decide]
      · rw [if_neg (by decide), if_pos rfl, ih known']
        simp [show ascii '#' ≠ ascii '0' by decide]

/-- The width that the digits add to. -/
def widthOf (width : BitVec 16) (digits : List Byte) : BitVec 16 :=
  digits.foldl (fun width c => width * 10 + BitVec.ofNat 16 (c.toNat - 48)) width

theorem decodeWidth_append (inWidth : ∀ d ∈ digits, ascii '1' ≤ d ∧ d ≤ ascii '9')
    (stops : ¬ (ascii '1' ≤ c ∧ c ≤ ascii '9')) :
    decodeWidth (digits ++ c :: rest) spec =
      (c :: rest, { spec with width := widthOf spec.width digits }) := by
  induction digits generalizing spec with
  | nil =>
      rw [List.nil_append, decodeWidth, if_neg stops]
      rfl
  | cons d digits ih =>
      rw [List.cons_append, decodeWidth, if_pos (inWidth d List.mem_cons_self),
        ih fun d' member => inWidth d' (List.mem_cons_of_mem d member)]
      rfl

/-- What `decode` makes of flags and a width in front of a character that is neither. -/
theorem decode_append (known : ∀ f ∈ flags, f = ascii '#' ∨ f = ascii '0')
    (nonempty : digits ≠ []) (inWidth : ∀ d ∈ digits, ascii '1' ≤ d ∧ d ≤ ascii '9')
    (stops : ¬ (ascii '1' ≤ c ∧ c ≤ ascii '9')) :
    decode (flags ++ (digits ++ c :: rest)) =
      if c = ascii 'l' then
        (rest, ⟨10, decide (ascii '#' ∈ flags), decide (ascii '0' ∈ flags), true,
          widthOf 0 digits⟩)
      else (c :: rest, ⟨10, decide (ascii '#' ∈ flags), decide (ascii '0' ∈ flags), false,
          widthOf 0 digits⟩) := by
  cases digits with
  | nil => exact absurd rfl nonempty
  | cons d digits =>
      have first := inWidth d List.mem_cons_self
      have alt : d ≠ ascii '#' := by
        rintro rfl
        exact absurd first (by decide)
      have zero : d ≠ ascii '0' := by
        rintro rfl
        exact absurd first (by decide)
      unfold decode
      rw [List.cons_append, decodeFlags_append known alt zero, ← List.cons_append]
      dsimp only
      rw [decodeWidth_append inWidth stops]
      dsimp only [List.head?_cons, List.tail_cons]
      simp only [Option.some.injEq, Bool.false_or]

end Scanner

section Numeral

variable {w : Nat}

theorem numeral_char {c : Byte} (member : c ∈ numeral 10 w) :
    c = ascii '0' ∨ (ascii '1' ≤ c ∧ c ≤ ascii '9') := by
  have digits : ∀ d < 10, digit d = ascii '0' ∨ (ascii '1' ≤ digit d ∧ digit d ≤ ascii '9') := by
    decide
  obtain ⟨d, inDigits, rfl⟩ := List.mem_map.mp (List.mem_reverse.mp member)
  exact digits d (Numerals.digitsOf_lt (by decide) inDigits)

theorem widthOf_reverse {ds : List Nat} (small : ∀ d ∈ ds, d < 10) :
    widthOf 0 (ds.map digit).reverse = BitVec.ofNat 16 (Nat.ofDigits 10 ds) := by
  have value : ∀ d < 10, (digit d).toNat - 48 = d := by decide
  unfold widthOf
  induction ds with
  | nil => rfl
  | cons d ds ih =>
      rw [List.map_cons, List.reverse_cons, List.foldl_append,
        ih fun d' member => small d' (List.mem_cons_of_mem d member), List.foldl_cons,
        List.foldl_nil, value d (small d List.mem_cons_self), Nat.ofDigits_cons, Nat.add_comm,
        BitVec.ofNat_add, Nat.mul_comm, BitVec.ofNat_mul]
      rfl

theorem widthOf_numeral (w : Nat) : widthOf 0 (numeral 10 w) = BitVec.ofNat 16 w := by
  unfold numeral Numerals.numeral
  rw [widthOf_reverse fun d member => Numerals.digitsOf_lt (by decide) member,
    Numerals.ofDigits_digitsOf]

theorem toInt_width (small : w ≤ 32767) : (BitVec.ofNat 16 w).toInt = w := by
  rw [BitVec.toInt_ofNat']
  simp only [Int.bmod]
  omega

/-- A numeral with a zero: what stands before the first one is not empty. -/
theorem numeral_split (positive : 0 < w) (zero : ascii '0' ∈ numeral 10 w) :
    ∃ before after, numeral 10 w = before ++ ascii '0' :: after ∧ before ≠ [] ∧
      ∀ d ∈ before, ascii '1' ≤ d ∧ d ≤ ascii '9' := by
  obtain ⟨before, after, split, first⟩ := List.eq_append_cons_of_mem zero
  refine ⟨before, after, split, ?_, ?_⟩
  · rintro rfl
    have head := Numerals.numeral_head (digitValue_digit (by decide)) (by decide : 1 < 10)
      (Nat.ne_of_gt positive)
    unfold numeral at split
    rw [split] at head
    exact head rfl
  · intro d member
    have inNumeral : d ∈ numeral 10 w := by
      rw [split]
      exact List.mem_append_left _ member
    rcases numeral_char inNumeral with rfl | inWidth
    · exact absurd member first
    · exact inWidth

end Numeral

section Rounds

variable {strings : BitVec 64 → List Byte}

theorem length_decodeFlags_le (fmt : List Byte) (spec : FmtSpec) :
    (decodeFlags fmt spec).1.length ≤ fmt.length := by
  induction fmt generalizing spec with
  | nil => exact Nat.le_refl 0
  | cons c fmt ih =>
      unfold decodeFlags
      split_ifs
      · exact (ih _).trans (Nat.le_succ _)
      · exact (ih _).trans (Nat.le_succ _)
      · exact Nat.le_refl _

theorem length_decodeWidth_le (fmt : List Byte) (spec : FmtSpec) :
    (decodeWidth fmt spec).1.length ≤ fmt.length := by
  induction fmt generalizing spec with
  | nil => exact Nat.le_refl 0
  | cons c fmt ih =>
      unfold decodeWidth
      split_ifs
      · exact (ih _).trans (Nat.le_succ _)
      · exact Nat.le_refl _

theorem length_decode_le (fmt : List Byte) : (decode fmt).1.length ≤ fmt.length := by
  have skipped := (length_decodeWidth_le _ (decodeFlags fmt ⟨10, false, false, false, 0⟩).2).trans
    (length_decodeFlags_le fmt ⟨10, false, false, false, 0⟩)
  unfold decode
  dsimp only
  split_ifs
  · rw [List.length_tail]
    omega
  · exact skipped

/-- More rounds than there are bytes change nothing. -/
theorem formatLoop_rounds {rounds rounds' : Nat} {fmt : List Byte} {slots : List (BitVec 64)}
    (enough : fmt.length ≤ rounds) (enough' : fmt.length ≤ rounds') :
    formatLoop strings rounds fmt slots = formatLoop strings rounds' fmt slots := by
  induction rounds generalizing rounds' fmt slots with
  | zero =>
      rw [List.length_eq_zero_iff.mp (Nat.le_zero.mp enough)]
      cases rounds' with
      | zero => rfl
      | succ rounds' => rfl
  | succ rounds ih =>
      cases fmt with
      | nil =>
          cases rounds' with
          | zero => rfl
          | succ rounds' => rfl
      | cons c fmt =>
          cases rounds' with
          | zero => exact absurd enough' (by simp)
          | succ rounds' =>
              have less : fmt.length ≤ rounds := Nat.le_of_succ_le_succ enough
              have less' : fmt.length ≤ rounds' := Nat.le_of_succ_le_succ enough'
              have shorter : (decode fmt).1.tail.length ≤ fmt.length := by
                have bound := length_decode_le fmt
                rw [List.length_tail]
                omega
              unfold formatLoop
              rw [ih less less']
              dsimp only
              rw [ih (shorter.trans less) (shorter.trans less')]

/-- A directive is converted, and the rest of the format is formatted with the other arguments. -/
theorem formatted_directive {fmt rest : List Byte} {conv : Byte} {spec : FmtSpec}
    {slot : BitVec 64} {slots : List (BitVec 64)} (decoded : decode fmt = (conv :: rest, spec))
    (takes : takesArg conv = true) :
    formatted (ascii '%' :: fmt) ⟨slot :: slots, strings⟩ =
      convert strings conv spec slot ++ formatted rest ⟨slots, strings⟩ := by
  have shorter := length_decode_le fmt
  rw [decoded, List.length_cons] at shorter
  unfold formatted
  rw [List.length_cons, formatLoop, if_neg (by decide), if_neg (not_not.mpr rfl), decoded]
  change convert strings conv spec slot ++
    formatLoop strings fmt.length rest (if takesArg conv then slots else slot :: slots) = _
  rw [if_pos takes, formatLoop_rounds (by omega) (Nat.le_refl rest.length)]

end Rounds

/-- What a directive is to emit for its argument. -/
def directiveField (flags : List Byte) (w : Nat) (long : Bool) (conv : Byte)
    (slot : BitVec 64) : List Byte :=
  let (neg, v) := convArg conv long slot
  field (decide (ascii '0' ∈ flags)) w
    (numPrefix neg ⟨convBase conv, decide (ascii '#' ∈ flags), false, false, 0⟩)
    (numeral (convBase conv) v)

section Emitted

variable {conv : Byte} {spec : FmtSpec} {slot : BitVec 64} {w v : Nat} {neg : Bool}

theorem convArg_lt : (convArg conv spec.long slot).2 < 2 ^ 64 := by
  unfold convArg
  split
  · unfold signedArg
    split
    · have least := BitVec.le_toInt slot
      have greatest := BitVec.toInt_lt (x := slot)
      dsimp only
      omega
    · have least := BitVec.le_toInt (slot.truncate 32)
      have greatest := BitVec.toInt_lt (x := slot.truncate 32)
      dsimp only
      omega
  · unfold unsignedArg
    split
    · exact slot.isLt
    · exact Nat.lt_of_lt_of_le (slot.truncate 32).isLt (by decide)

/-- `emit_num` emits a field of the width. -/
theorem emitNum_field (known : spec.base = 8 ∨ spec.base = 10 ∨ spec.base = 16)
    (small : v < 2 ^ 64) (width : spec.width.toInt = w) :
    emitNum v neg spec = field spec.zero w (numPrefix neg spec) (numeral spec.base v) := by
  have pad : (spec.width.toInt - (digitLoop spec.base 32 v).length -
      (numPrefix neg spec).length).toNat =
        w - (numPrefix neg spec ++ numeral spec.base v).length := by
    rw [width, List.length_append, Numerals.length_numeral, tmp_eq known small, List.length_map]
    omega
  have digits : (digitLoop spec.base 32 v).reverse = numeral spec.base v := by
    rw [tmp_eq known small]
    rfl
  unfold emitNum field
  dsimp only
  rw [pad, digits]
  cases spec.zero with
  | true => simp
  | false => simp

theorem convert_field (strings : BitVec 64 → List Byte)
    (integer : conv ∈ [ascii 'd', ascii 'u', ascii 'x', ascii 'o']) (base : spec.base = 10)
    (width : spec.width.toInt = w) :
    convert strings conv spec slot =
      field spec.zero w
        (numPrefix (convArg conv spec.long slot).1 { spec with base := convBase conv })
        (numeral (convBase conv) (convArg conv spec.long slot).2) := by
  have small := @convArg_lt conv spec slot
  obtain ⟨_, alt, zero, long, width'⟩ := spec
  subst base
  simp only [List.mem_cons, List.not_mem_nil, or_false] at integer
  rcases integer with rfl | rfl | rfl | rfl
  · exact emitNum_field (.inr (.inl rfl)) small width
  · exact emitNum_field (.inr (.inl rfl)) small width
  · exact emitNum_field (.inr (.inr rfl)) small width
  · exact emitNum_field (.inl rfl) small width

end Emitted

/-- The directive is honoured in front of `rest`: its numeral is consumed as a whole, and its
argument becomes a field of that width. -/
structure Honoured (flags : List Byte) (w : Nat) (long : Bool) (conv : Byte) (slot : BitVec 64)
    (slots : List (BitVec 64)) (strings : BitVec 64 → List Byte) (rest : List Byte) : Prop where
  consumed : (decode (directive flags w long conv ++ rest)).1 = conv :: rest
  emitted : formatted (ascii '%' :: (directive flags w long conv ++ rest))
      ⟨slot :: slots, strings⟩ =
    directiveField flags w long conv slot ++ formatted rest ⟨slots, strings⟩
  length : (directiveField flags w long conv slot).length =
    max w (directiveField flags 0 long conv slot).length

section Directive

variable {flags rest : List Byte} {w : Nat} {long : Bool} {conv : Byte}

theorem decode_directive (known : ∀ f ∈ flags, f = ascii '#' ∨ f = ascii '0')
    (noZero : ascii '0' ∉ numeral 10 w)
    (integer : conv ∈ [ascii 'd', ascii 'u', ascii 'x', ascii 'o']) :
    decode (directive flags w long conv ++ rest) =
      (conv :: rest, ⟨10, decide (ascii '#' ∈ flags), decide (ascii '0' ∈ flags), long,
        BitVec.ofNat 16 w⟩) := by
  have inWidth : ∀ d ∈ numeral 10 w, ascii '1' ≤ d ∧ d ≤ ascii '9' := by
    intro d member
    rcases numeral_char member with rfl | inWidth
    · exact absurd member noZero
    · exact inWidth
  have stops : ¬ (ascii '1' ≤ conv ∧ conv ≤ ascii '9') ∧ conv ≠ ascii 'l' := by
    simp only [List.mem_cons, List.not_mem_nil, or_false] at integer
    rcases integer with rfl | rfl | rfl | rfl
    all_goals decide
  unfold directive
  rw [← widthOf_numeral, List.append_assoc, List.append_assoc, List.append_assoc]
  cases long with
  | true =>
      rw [if_pos rfl]
      exact decode_append known numeral_ne_nil inWidth (by decide)
  | false =>
      rw [if_neg Bool.false_ne_true]
      exact (decode_append known numeral_ne_nil inWidth stops.1).trans (if_neg stops.2)

/-- A zero in the numeral is taken for the conversion. -/
theorem decode_zero (known : ∀ f ∈ flags, f = ascii '#' ∨ f = ascii '0') (positive : 0 < w)
    (zero : ascii '0' ∈ numeral 10 w) :
    (decode (directive flags w long conv ++ rest)).1.head? = some (ascii '0') := by
  obtain ⟨before, after, split, nonempty, inWidth⟩ := numeral_split positive zero
  unfold directive
  rw [split, List.append_assoc, List.append_assoc, List.append_assoc, List.cons_append,
    decode_append known nonempty inWidth (by decide), if_neg (by decide)]
  rfl

end Directive

/-- A width from 1 to 32767 is honoured, with all flags, arguments and whatever follows, exactly
if its numeral has no zero. -/
theorem width_honoured_iff {flags : List Byte} {w : Nat} {conv : Byte}
    (known : ∀ f ∈ flags, f = ascii '#' ∨ f = ascii '0') (positive : 1 ≤ w)
    (small : w ≤ 32767) (integer : conv ∈ [ascii 'd', ascii 'u', ascii 'x', ascii 'o'])
    (long : Bool) (slot : BitVec 64) (slots : List (BitVec 64))
    (strings : BitVec 64 → List Byte) (rest : List Byte) :
    Honoured flags w long conv slot slots strings rest ↔ ascii '0' ∉ numeral 10 w := by
  constructor
  · intro honoured zero
    have head := @decode_zero flags rest w long conv known positive zero
    rw [honoured.consumed, List.head?_cons, Option.some.injEq] at head
    rw [head] at integer
    exact absurd integer (by decide)
  · intro noZero
    have decoded := @decode_directive flags rest w long conv known noZero integer
    have takes : takesArg conv = true := by
      simp only [List.mem_cons, List.not_mem_nil, or_false] at integer
      rcases integer with rfl | rfl | rfl | rfl
      all_goals decide
    constructor
    · rw [decoded]
    · rw [formatted_directive decoded takes,
        convert_field strings integer rfl (toInt_width small)]
      rfl
    · unfold directiveField
      rw [length_field, length_field, Nat.zero_max]

theorem width_honoured_long_hex :
    Honoured [ascii '0', ascii '#'] 12 true (ascii 'x') 255 [] (fun _ => []) [0] ↔
      ascii '0' ∉ numeral 10 12 :=
  width_honoured_iff (by decide) (by decide) (by decide) (by decide) _ _ _ _ _

/-- In a width of ten the zero is printed as an unknown conversion. -/
theorem width_ten_not_honoured :
    ¬ ∀ (flags : List Byte) (w : Nat) (long : Bool) (conv : Byte) (slot : BitVec 64)
      (slots : List (BitVec 64)) (strings : BitVec 64 → List Byte) (rest : List Byte),
      (∀ f ∈ flags, f = ascii '#' ∨ f = ascii '0') → 1 ≤ w → w ≤ 32767 →
        conv ∈ [ascii 'd', ascii 'u', ascii 'x', ascii 'o'] →
          Honoured flags w long conv slot slots strings rest := by
  intro honoured
  have ten := honoured [] 10 false (ascii 'd') 7 [] (fun _ => []) [0] (by simp) (by decide)
    (by decide) (by decide)
  exact absurd ten.consumed (by decide)

end Fmt

end Av6
