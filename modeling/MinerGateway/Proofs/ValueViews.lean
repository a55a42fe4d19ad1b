import MinerGateway.Proofs.HexRoundTrip
import MinerGateway.Proofs.QuantityCodec

/-!
Bytes, texts and numbers of hashes and nonces.

A hash is bytes, which are ordered from the left; it has a text, which is ordered by its characters;
and it is a number, each byte weighing 256 times as much as the one behind it. The three orders are
one, because in each the first place that differs decides: for bytes and numbers this is
`BigEndian.compare_value`, for bytes and digits `Hex.compare_byteDigits`. A nonce is a number of 64
bits, and its text has a digit for every four of them, those of the quantity with zeros in front
(`Nonce.text_ofUInt64`).

What is proved (`views_agree`), with no assumption:
  1. two hashes compare as their texts and as their numbers do, and are equal if one of these is;
  2. the text of a nonce is `0x` and sixteen digits in lower case, those of the quantity of the same
     value with zeros in front, and it is read back;
  3. making a nonce of a number and taking its number invert each other.
-/

namespace MinerGateway

/-! ## Weights -/

/-- Two numbers in two places: the place that weighs more decides, and then the other. -/
theorem compare_weighted {weight v w : Nat} (hv : v < weight) (hw : w < weight) (m n : Nat) :
    compare (m * weight + v) (n * weight + w) = (compare m n).then (compare v w) := by
  rcases Nat.lt_trichotomy m n with less | same | more
  · have whole : m * weight + v < n * weight + w := by
      calc m * weight + v
          < (m + 1) * weight := by rw [Nat.succ_mul]; omega
        _ ≤ n * weight := Nat.mul_le_mul_right weight less
        _ ≤ n * weight + w := Nat.le_add_right _ _
    rw [Nat.compare_eq_lt.mpr less, Nat.compare_eq_lt.mpr whole]
    rfl
  · subst same
    rw [Nat.compare_eq_eq.mpr rfl, Ordering.then, Nat.compare_eq_ite_lt, Nat.compare_eq_ite_lt]
    simp
  · have whole : n * weight + w < m * weight + v := by
      calc n * weight + w
          < (n + 1) * weight := by rw [Nat.succ_mul]; omega
        _ ≤ m * weight := Nat.mul_le_mul_right weight more
        _ ≤ m * weight + v := Nat.le_add_right _ _
    rw [Nat.compare_eq_gt.mpr more, Nat.compare_eq_gt.mpr whole]
    rfl

theorem compare_toNat (a b : UInt8) : compare a.toNat b.toNat = compare a b := by
  simp only [compare, compareOfLessAndEq, UInt8.lt_iff_toNat_lt, ← UInt8.toNat_inj]

namespace BigEndian

theorem foldl_eq (bytes : List UInt8) (sum : Nat) :
    bytes.foldl (fun sum b => 256 * sum + b.toNat) sum
      = sum * 256 ^ bytes.length + value bytes := by
  induction bytes generalizing sum with
  | nil => simp [value]
  | cons b bytes ih =>
    rw [value, List.foldl_cons, List.foldl_cons, ih, ih (256 * 0 + b.toNat),
      List.length_cons, Nat.pow_succ]
    ring

theorem value_cons (b : UInt8) (bytes : List UInt8) :
    value (b :: bytes) = b.toNat * 256 ^ bytes.length + value bytes := by
  rw [value, List.foldl_cons, foldl_eq, Nat.mul_zero, Nat.zero_add]

theorem value_lt (bytes : List UInt8) : value bytes < 256 ^ bytes.length := by
  induction bytes with
  | nil => simp [value]
  | cons b bytes ih =>
    have small : b.toNat < 256 := b.toNat_lt
    calc value (b :: bytes)
        < (b.toNat + 1) * 256 ^ bytes.length := by rw [value_cons, Nat.succ_mul]; omega
      _ ≤ 256 * 256 ^ bytes.length := Nat.mul_le_mul_right _ small
      _ = 256 ^ (b :: bytes).length := (Nat.pow_succ').symm

/-- **Byte strings of one length are ordered as their numbers.** -/
theorem compare_value {a b : List UInt8} (same : a.length = b.length) :
    compare (value a) (value b) = compare a b := by
  induction a generalizing b with
  | nil =>
    obtain rfl : b = [] := List.eq_nil_of_length_eq_zero same.symm
    rfl
  | cons x a ih =>
    cases b with
    | nil => cases same
    | cons y b =>
      have same' : a.length = b.length := Nat.succ.inj same
      have bound := value_lt b
      rw [← same'] at bound
      rw [value_cons, value_cons, ← same', compare_weighted (value_lt a) bound,
        ih same', compare_toNat, List.compare_cons_cons]

theorem value_concat (bytes : List UInt8) (b : UInt8) :
    value (bytes ++ [b]) = 256 * value bytes + b.toNat := by
  rw [value, List.foldl_append]
  rfl

theorem value_bytes {width n : Nat} (fits : n < 256 ^ width) : value (bytes width n) = n := by
  induction width generalizing n with
  | zero =>
    obtain rfl : n = 0 := Nat.lt_one_iff.mp fits
    rfl
  | succ width ih =>
    have front : n / 256 < 256 ^ width := Nat.div_lt_of_lt_mul (by rwa [← Nat.pow_succ'])
    rw [bytes, value_concat, ih front, UInt8.toNat_ofNat']
    exact Nat.div_add_mod n 256

theorem value_injective {a b : List UInt8} (same : a.length = b.length) (h : value a = value b) :
    a = b := by
  have equal := compare_value same
  rw [h, Nat.compare_eq_eq.mpr rfl] at equal
  exact Std.LawfulEqOrd.eq_of_compare equal.symm

end BigEndian

/-! ## Texts -/

namespace Hex

theorem compare_digitChar {m n : Nat} (hm : m < 16) (hn : n < 16) :
    compare (Nat.digitChar m) (Nat.digitChar n) = compare m n := by
  have all : ∀ m < 16, ∀ n < 16, compare (Nat.digitChar m) (Nat.digitChar n)
      = compare m n := by decide
  exact all m hm n hn

/-- **Byte strings are ordered as their digits.** -/
theorem compare_byteDigits (a b : List UInt8) :
    compare (a.flatMap byteDigits) (b.flatMap byteDigits) = compare a b := by
  induction a generalizing b with
  | nil => cases b <;> rfl
  | cons x a ih =>
    cases b with
    | nil => rfl
    | cons y b =>
      have hx : x.toNat < 256 := x.toNat_lt
      have hy : y.toNat < 256 := y.toNat_lt
      have halves : (compare (x.toNat / 16) (y.toNat / 16)).then
          (compare (x.toNat % 16) (y.toNat % 16))
          = compare x y := by
        have small : x.toNat % 16 < 16 := by omega
        rw [← compare_weighted small (by omega), ← compare_toNat,
          Nat.div_add_mod', Nat.div_add_mod']
      rw [List.flatMap_cons, List.flatMap_cons, byteDigits, byteDigits]
      simp only [List.cons_append, List.nil_append, List.compare_cons_cons]
      rw [compare_digitChar (by omega) (by omega), compare_digitChar (by omega) (by omega), ih,
        ← Ordering.then_assoc, halves]

end Hex

theorem compare_chars_eq_lt_iff (a b : List Char) : compare a b = .lt ↔ a < b := by
  induction a generalizing b with
  | nil => cases b <;> simp
  | cons c a ih =>
    cases b with
    | nil => simp
    | cons d b =>
      have first : compare c d = .lt ↔ c < d := compareOfLessAndEq_eq_lt
      rw [List.compare_cons_cons, List.cons_lt_cons_iff, Ordering.then_eq_lt, ih, first,
        Std.LawfulEqOrd.compare_eq_iff_eq]

namespace FixedBytes

variable {n : Nat} {a b : FixedBytes n}

theorem compare_eq_compare_toNat (a b : FixedBytes n) : compare a b = compare a.toNat b.toNat :=
  (BigEndian.compare_value (a.length_toList.trans b.length_toList.symm)).symm

theorem compare_eq_lt_iff_text : compare a b = .lt ↔ a.text < b.text := by
  rw [String.lt_iff, text, text, Hex.encode, Hex.encode, String.toList_ofList, String.toList_ofList,
    Hex.writeBytes, Hex.writeBytes, List.cons_lt_cons_self,
    List.cons_lt_cons_self, ← compare_chars_eq_lt_iff, Hex.compare_byteDigits]
  rfl

theorem text_inj : a.text = b.text ↔ a = b := by
  constructor
  · intro same
    have back := parse_text a
    rw [same, parse_text] at back
    exact (Except.ok.inj back).symm
  · exact congrArg text

theorem toNat_inj : a.toNat = b.toNat ↔ a = b := by
  constructor
  · intro same
    exact ext (BigEndian.value_injective (a.length_toList.trans b.length_toList.symm) same)
  · exact congrArg toNat

theorem toNat_lt (a : FixedBytes n) : a.toNat < 256 ^ n := by
  have bound := BigEndian.value_lt a.toList
  rwa [a.length_toList] at bound

theorem ofNat_toNat (a : FixedBytes n) : ofNat n a.toNat = a := by
  apply toNat_inj.mp
  exact BigEndian.value_bytes a.toNat_lt

theorem toNat_ofNat {value : Nat} (fits : value < 256 ^ n) : (ofNat n value).toNat = value :=
  BigEndian.value_bytes fits

end FixedBytes

/-! ## Digits of a number -/

namespace Hex

def LowerDigits (row : List Char) : Prop := ∀ c ∈ row, '0' ≤ c ∧ c ≤ '9' ∨ 'a' ≤ c ∧ c ≤ 'f'

def lowDigits : (count : Nat) → (value : Nat) → List Char
  | 0, _ => []
  | count + 1, value => lowDigits count (value / 16) ++ [Nat.digitChar (value % 16)]

theorem lowDigits_bytes (width value : Nat) :
    (BigEndian.bytes width value).flatMap byteDigits = lowDigits (2 * width) value := by
  induction width generalizing value with
  | zero => rfl
  | succ width ih =>
    have twice : 2 * (width + 1) = 2 * width + 1 + 1 := by omega
    have last : byteDigits (UInt8.ofNat value)
        = [Nat.digitChar (value / 16 % 16), Nat.digitChar (value % 16)] := by
      rw [byteDigits, UInt8.toNat_ofNat']
      congr 2 <;> congr 1 <;> omega
    rw [BigEndian.bytes, List.flatMap_append, ih, List.flatMap_singleton,
      last, twice, lowDigits, lowDigits, Nat.div_div_eq_div_mul, List.append_assoc]
    rfl

theorem lowDigits_zero (count : Nat) : lowDigits count 0 = List.replicate count '0' := by
  induction count with
  | zero => rfl
  | succ count ih =>
    rw [lowDigits, Nat.zero_div, ih, List.replicate_succ']
    rfl

/-- The lowest digits of a number that has no more are all its digits, with zeros in front. -/
theorem lowDigits_eq {count value : Nat} (room : 0 < count) (fits : value < 16 ^ count) :
    lowDigits count value
      = List.replicate (count - (Nat.toDigits 16 value).length) '0' ++ Nat.toDigits 16 value := by
  induction count generalizing value with
  | zero => cases room
  | succ count ih =>
    rw [Nat.pow_succ] at fits
    by_cases small : value < 16
    · rw [lowDigits, Nat.div_eq_of_lt small, Nat.mod_eq_of_lt small,
        lowDigits_zero, Nat.toDigits_of_lt_base small]
      rfl
    · have room : 0 < count := by
        by_contra none
        obtain rfl : count = 0 := by omega
        omega
      rw [lowDigits, ih room (by omega), Nat.toDigits_of_base_le (by decide) (Nat.not_lt.mp small),
        List.length_append, List.length_singleton, List.append_assoc, Nat.add_sub_add_right]

theorem lowerDigits_lowDigits (count value : Nat) : LowerDigits (lowDigits count value) := by
  induction count generalizing value with
  | zero => exact fun _ none => absurd none List.not_mem_nil
  | succ count ih =>
    intro c there
    rcases List.mem_append.mp there with front | last
    · exact ih _ c front
    · have digits : ∀ d < 16, '0' ≤ Nat.digitChar d ∧ Nat.digitChar d ≤ '9' ∨
          'a' ≤ Nat.digitChar d ∧ Nat.digitChar d ≤ 'f' := by decide
      rw [List.mem_singleton.mp last]
      exact digits _ (Nat.mod_lt value (by decide))

end Hex

/-! ## Nonces -/

namespace Nonce

theorem toUInt64_ofUInt64 (value : UInt64) : (ofUInt64 value).toUInt64 = value := by
  have fits : value.toNat < 256 ^ 8 := value.toNat_lt
  rw [toUInt64, ofUInt64, FixedBytes.toNat_ofNat fits, UInt64.ofNat_toNat]

theorem ofUInt64_toUInt64 (nonce : Nonce) : ofUInt64 nonce.toUInt64 = nonce := by
  have fits : nonce.toNat < UInt64.size := nonce.toNat_lt
  rw [ofUInt64, toUInt64, UInt64.toNat_ofNat_of_lt' fits, FixedBytes.ofNat_toNat]

/-- **The text of a nonce has the digits of the quantity**, with zeros in front. -/
theorem text_ofUInt64 (value : UInt64) :
    (ofUInt64 value).text = "0x" ++ String.ofList
      (List.replicate (16 - (Nat.toDigits 16 value.toNat).length) '0'
        ++ Nat.toDigits 16 value.toNat) := by
  have fits : value.toNat < 16 ^ 16 := value.toNat_lt
  have digits : (ofUInt64 value).toList.flatMap Hex.byteDigits = Hex.lowDigits 16 value.toNat :=
    Hex.lowDigits_bytes 8 value.toNat
  apply String.toList_injective
  rw [FixedBytes.text, Hex.encode, String.toList_ofList, Hex.writeBytes,
    digits, Hex.lowDigits_eq (by decide) fits]
  simp

end Nonce

/-- **Bytes, texts and numbers of hashes and nonces agree.** Hashes are ordered as their texts and
as their numbers, and equal if one of these is. The text of a nonce is `0x` and sixteen digits in
lower case, those of the quantity of the same value with zeros in front; it is read back, and so is
the value. Every nonce is that of its value. -/
theorem views_agree :
    (∀ a b : Hash, (compare a b = .lt ↔ a.text < b.text) ∧ (compare a b = .lt ↔ a.toNat < b.toNat) ∧
      (a = b ↔ compare a b = .eq) ∧ (a = b ↔ a.text = b.text) ∧ (a = b ↔ a.toNat = b.toNat)) ∧
    (∀ value : UInt64, ∃ zeros digits, Hex.encodeQuantity value = "0x" ++ String.ofList digits ∧
      (Nonce.ofUInt64 value).text = "0x" ++ String.ofList (List.replicate zeros '0' ++ digits) ∧
      zeros + digits.length = 16 ∧ Hex.LowerDigits (List.replicate zeros '0' ++ digits) ∧
      Nonce.parse (Nonce.ofUInt64 value).text = .ok (Nonce.ofUInt64 value) ∧
      (Nonce.ofUInt64 value).toUInt64 = value) ∧
    (∀ nonce : Nonce, Nonce.ofUInt64 nonce.toUInt64 = nonce) := by
  refine ⟨?_, ?_, Nonce.ofUInt64_toUInt64⟩
  · intro a b
    have number := FixedBytes.compare_eq_compare_toNat a b
    refine ⟨FixedBytes.compare_eq_lt_iff_text, ?_, ?_,
      FixedBytes.text_inj.symm, FixedBytes.toNat_inj.symm⟩
    · rw [number, Nat.compare_eq_lt]
    · rw [number, Nat.compare_eq_eq, FixedBytes.toNat_inj]
  · intro value
    have fits : value.toNat < 16 ^ 16 := value.toNat_lt
    have short := Nat.toDigits_length 16 value.toNat 16 (by decide) fits
    have lower := Hex.lowerDigits_lowDigits 16 value.toNat
    rw [Hex.lowDigits_eq (by decide) fits] at lower
    refine ⟨16 - (Nat.toDigits 16 value.toNat).length, Nat.toDigits 16 value.toNat,
      ?_, Nonce.text_ofUInt64 value,
      Nat.sub_add_cancel short, lower, FixedBytes.parse_text _, Nonce.toUInt64_ofUInt64 value⟩
    exact String.toList_injective (by simp [Hex.encodeQuantity, Hex.writeQuantity])

example : (Nonce.ofUInt64 0x102030405060708).text = "0x0102030405060708" := by decide

end MinerGateway
