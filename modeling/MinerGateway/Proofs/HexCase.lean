import Mathlib.Data.List.Basic
import MinerGateway.Bytes.Fixed
import MinerGateway.Hex.Quantity

/-!
Texts that differ in nothing but letter case.

Hexadecimal digits and the mark in front of them may be written in either case. To write a text in
lower case (`lowered`) changes nothing that a decoder finds in it: neither the value nor, in a
malformed text, the first thing that is wrong (`decode_lowered`, `decodeQuantity_lowered`). So two
texts that are the same in lower case are read alike.

Lowering touches the digits `A` to `F` and the second character of the mark, and no other character:
a letter that is no digit is part of what is wrong with a text, and the complaint names it as it is
written.
-/

namespace MinerGateway.Hex

/-- A digit in lower case; what is no digit stays as it is. -/
def lowerDigit (c : Char) : Char := if 'A' ≤ c ∧ c ≤ 'F' then c.toLower else c

/-- The second character of a text that begins with a zero: the `x` of the mark, or what stands
there instead. -/
def lowerMark (c : Char) : Char := if c = 'X' then 'x' else lowerDigit c

/-- A text with its digits and its mark in lower case. -/
def lowerCase : List Char → List Char
  | '0' :: mark :: digits => '0' :: lowerMark mark :: digits.map lowerDigit
  | text => text.map lowerDigit

def lowered (text : String) : String := String.ofList (lowerCase text.toList)

/-- The texts differ in nothing but the case of some digits and of the `x` of the mark. -/
def SameButCase (text text' : String) : Prop := lowered text = lowered text'

instance : DecidableRel SameButCase := fun text text' =>
  inferInstanceAs (Decidable (lowered text = lowered text'))

/-! ## Digits -/

def upperDigits : List Char := ['A', 'B', 'C', 'D', 'E', 'F']

theorem mem_upperDigits {c : Char} (h : 'A' ≤ c ∧ c ≤ 'F') : c ∈ upperDigits := by
  have low : 65 ≤ c.toNat := h.1
  have high : c.toNat ≤ 70 := h.2
  have six : c.toNat = 65 ∨ c.toNat = 66 ∨ c.toNat = 67 ∨
      c.toNat = 68 ∨ c.toNat = 69 ∨ c.toNat = 70 := by
    omega
  rw [← Char.ofNat_toNat c]
  rcases six with h | h | h | h | h | h <;> rw [h] <;> decide

/-- What holds of the six digits in upper case, and of characters that are not lowered. -/
theorem lowerDigit_induction {P : Char → Char → Prop} (c : Char)
    (digits : upperDigits.Forall fun c => P c c.toLower) (others : P c c) : P c (lowerDigit c) := by
  unfold lowerDigit
  split
  · next upper => exact List.forall_iff_forall_mem.mp digits c (mem_upperDigits upper)
  · exact others

theorem digitValue?_lowerDigit (c : Char) : digitValue? (lowerDigit c) = digitValue? c := by
  apply lowerDigit_induction (P := fun c lower => digitValue? lower = digitValue? c) c
  · decide
  · rfl

theorem isDigit_lowerDigit (c : Char) : isDigit (lowerDigit c) = isDigit c := by
  rw [isDigit, digitValue?_lowerDigit, isDigit]

theorem lowerDigit_of_not_isDigit {c : Char} (h : isDigit c = false) : lowerDigit c = c := by
  revert h
  apply lowerDigit_induction (P := fun c lower => isDigit c = false → lower = c) c
  · decide
  · exact fun _ => rfl

theorem lowerDigit_eq_zero (c : Char) : lowerDigit c = '0' ↔ c = '0' := by
  apply lowerDigit_induction (P := fun c lower => lower = '0' ↔ c = '0') c
  · decide
  · rfl

theorem valueOf_map_lowerDigit (digits : List Char) :
    valueOf (digits.map lowerDigit) = valueOf digits := by
  simp only [valueOf, List.foldl_map, digitValue?_lowerDigit]

theorem find?_map_lowerDigit (digits : List Char) :
    (digits.map lowerDigit).find? (fun c => !isDigit c) = digits.find? fun c => !isDigit c := by
  have alike : (fun c => !isDigit c) ∘ lowerDigit = fun c => !isDigit c :=
    funext fun c => congrArg (! ·) (isDigit_lowerDigit c)
  rw [List.find?_map, alike]
  cases found : digits.find? fun c => !isDigit c with
  | none => rfl
  | some c =>
    have fault : isDigit c = false := by simpa using List.find?_some found
    exact congrArg some (lowerDigit_of_not_isDigit fault)

/-! ## The mark -/

theorem lowerMark_eq (c : Char) :
    (lowerMark c = 'x' ∨ lowerMark c = 'X') ↔ (c = 'x' ∨ c = 'X') := by
  unfold lowerMark
  split
  · next upper => simp [upper]
  · next other =>
    apply lowerDigit_induction (P := fun c lower => (lower = 'x' ∨ lower = 'X') ↔
      (c = 'x' ∨ c = 'X')) c
    · decide
    · rfl

theorem afterMark_zero_cons (mark : Char) (digits : List Char) :
    afterMark ('0' :: mark :: digits)
      = if mark = 'x' ∨ mark = 'X' then .ok digits else .error .missingPrefix := by
  unfold afterMark
  split <;> simp_all

theorem afterMark_of_ne_zero {c : Char} (other : c ≠ '0') (rest : List Char) :
    afterMark (c :: rest) = .error .missingPrefix := by
  unfold afterMark
  split <;> simp_all

theorem lowerCase_of_ne_zero {c : Char} (other : c ≠ '0') (rest : List Char) :
    lowerCase (c :: rest) = lowerDigit c :: rest.map lowerDigit := by
  unfold lowerCase
  split <;> simp_all

theorem afterMark_lowerCase (text : List Char) :
    afterMark (lowerCase text) = (afterMark text).map (List.map lowerDigit) := by
  cases text with
  | nil => rfl
  | cons c rest =>
    by_cases zero : c = '0'
    · subst zero
      cases rest with
      | nil => rfl
      | cons mark digits =>
        simp only [lowerCase, afterMark_zero_cons, lowerMark_eq]
        split <;> rfl
    · have zero' : lowerDigit c ≠ '0' := fun h => zero ((lowerDigit_eq_zero c).mp h)
      rw [lowerCase_of_ne_zero zero, afterMark_of_ne_zero zero', afterMark_of_ne_zero zero]
      rfl

/-! ## Byte strings -/

theorem map_nibble_utf8EncodeChar (c : Char) :
    (String.utf8EncodeChar (lowerDigit c)).map nibble = (String.utf8EncodeChar c).map nibble := by
  apply lowerDigit_induction
    (P := fun c lower => (String.utf8EncodeChar lower).map nibble
      = (String.utf8EncodeChar c).map nibble) c
  · exact ⟨rfl, rfl, rfl, rfl, rfl, rfl⟩
  · rfl

theorem map_nibble_units (digits : List Char) :
    ((digits.map lowerDigit).flatMap String.utf8EncodeChar).map nibble
      = (digits.flatMap String.utf8EncodeChar).map nibble := by
  induction digits with
  | nil => rfl
  | cons c rest ih =>
    rw [List.map_cons, List.flatMap_cons, List.map_append, ih,
      map_nibble_utf8EncodeChar, List.flatMap_cons, List.map_append]

/-- Pairs are read from the values of the digits alone. -/
theorem readPairs_congr {units units' : List UInt8} (same : units.map nibble = units'.map nibble) :
    readPairs units = readPairs units' := by
  have length : units.length = units'.length := by simpa using congrArg List.length same
  match units, units' with
  | [], [] => rfl
  | [_], [_] => rfl
  | high :: low :: rest, high' :: low' :: rest' =>
    simp only [List.map_cons, List.cons.injEq] at same
    obtain ⟨first, second, others⟩ := same
    simp only [readPairs, first, second, readPairs_congr others]

theorem readBytes_lowerCase (text : List Char) : readBytes (lowerCase text) = readBytes text := by
  unfold readBytes
  rw [afterMark_lowerCase]
  cases afterMark text with
  | error cause => rfl
  | ok digits =>
    have same := map_nibble_units digits
    have length : ((digits.map lowerDigit).flatMap String.utf8EncodeChar).length
        = (digits.flatMap String.utf8EncodeChar).length := by
      simpa only [List.length_map] using congrArg List.length same
    show (if _ then _ else _) = (if _ then _ else _)
    rw [length, readPairs_congr same]

/-- **A byte string is read alike in either case.** -/
theorem decode_lowered (text : String) : decode (lowered text) = decode text := by
  rw [decode, lowered, String.toList_ofList, readBytes_lowerCase, decode]

/-! ## Quantities -/

theorem readQuantity_eq (text : List Char) :
    readQuantity text = (afterMark text).bind fun digits =>
      if digits = [] then .error .emptyNumber
      else if digits.head? = some '0' ∧ 1 < digits.length then .error .leadingZero
      else match digits.find? (fun c => !isDigit c) with
        | some c => .error (.invalidDigit c)
        | none =>
          if 16 < digits.length then .error .overflow else .ok (UInt64.ofNat (valueOf digits)) := by
  unfold readQuantity
  cases afterMark text with
  | error cause => rfl
  | ok digits =>
    simp only [bind, Except.bind]
    split
    · rfl
    · simp
    · next nonempty single =>
      have single : ¬(digits.head? = some '0' ∧ 1 < digits.length) := by
        rintro ⟨zero, more⟩
        rcases digits with _ | ⟨c, _ | ⟨d, rest⟩⟩
        · cases zero
        · exact absurd more (Nat.lt_irrefl 1)
        · obtain rfl : c = '0' := Option.some.inj zero
          exact single d rest rfl
      have nonempty : ¬digits = [] := nonempty
      exact ((if_neg nonempty).trans (if_neg single)).symm

theorem readQuantity_lowerCase (text : List Char) :
    readQuantity (lowerCase text) = readQuantity text := by
  have head : ∀ digits : List Char, (digits.map lowerDigit).head? = some '0' ↔
      digits.head? = some '0' := by
    intro digits
    cases digits <;> simp [lowerDigit_eq_zero]
  rw [readQuantity_eq, readQuantity_eq, afterMark_lowerCase]
  cases afterMark text with
  | error cause => rfl
  | ok digits =>
    simp only [Except.map, Except.bind, List.map_eq_nil_iff,
      head, List.length_map, find?_map_lowerDigit, valueOf_map_lowerDigit]

/-- **A quantity is read alike in either case.** -/
theorem decodeQuantity_lowered (text : String) :
    decodeQuantity (lowered text) = decodeQuantity text := by
  rw [decodeQuantity, lowered, String.toList_ofList, readQuantity_lowerCase, decodeQuantity]

end MinerGateway.Hex

namespace MinerGateway

theorem FixedBytes.parse_lowered (n : Nat) (text : String) :
    FixedBytes.parse n (Hex.lowered text) = FixedBytes.parse n text := by
  rw [FixedBytes.parse, Hex.decode_lowered, FixedBytes.parse]

end MinerGateway
