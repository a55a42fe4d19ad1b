import MinerGateway.Proofs.HexCase

/-!
The grammar of hexadecimal texts.

A text of this format is a mark, `0x` or `0X`, with a row of characters behind it (`Marked`); the
row should be digits alone (`AllDigits`), and if it is not, one of its characters is the first that
does not belong there (`FirstStray`). Nothing here depends on what the digits are for: `afterMark`
finds the row of a marked text and tells apart the texts without a mark (`afterMark_of_marked`,
`afterMark_of_unmarked`), and what holds of the twenty-two digit characters holds of every digit
(`digit_induction`).
-/

namespace MinerGateway.Hex

/-- The text is a mark, `0x` or `0X`, and this row of characters behind it. -/
def Marked (text : String) (row : List Char) : Prop :=
  text = "0x" ++ String.ofList row ∨ text = "0X" ++ String.ofList row

def AllDigits (row : List Char) : Prop := ∀ c ∈ row, isDigit c = true

instance : DecidablePred AllDigits := List.decidableBAll _

/-- The character is the first of the row that is no digit. -/
def FirstStray (row : List Char) (c : Char) : Prop :=
  isDigit c = false ∧ ∃ digits rest, row = digits ++ c :: rest ∧ AllDigits digits

/-! ## The mark -/

variable {text : String} {row : List Char} {c : Char}

theorem Marked.toList (h : Marked text row) :
    text.toList = '0' :: 'x' :: row ∨ text.toList = '0' :: 'X' :: row := by
  rcases h with rfl | rfl
  · exact .inl (by simp)
  · exact .inr (by simp)

theorem marked_of_toList (h : text.toList = '0' :: 'x' :: row ∨ text.toList = '0' :: 'X' :: row) :
    Marked text row := by
  rcases h with h | h
  · exact .inl (String.toList_injective (by simp [h]))
  · exact .inr (String.toList_injective (by simp [h]))

theorem afterMark_of_marked (h : Marked text row) : afterMark text.toList = .ok row := by
  rcases h.toList with h | h <;> rw [h] <;> rfl

theorem Marked.unique {row' : List Char} (h : Marked text row) (h' : Marked text row') :
    row = row' :=
  Except.ok.inj ((afterMark_of_marked h).symm.trans (afterMark_of_marked h'))

theorem afterMark_of_unmarked (nonempty : text ≠ "") (unmarked : ∀ row, ¬Marked text row) :
    afterMark text.toList = .error .missingPrefix := by
  unfold afterMark
  split
  · next h => exact absurd (String.toList_eq_nil_iff.mp h) nonempty
  · next row h => exact absurd (marked_of_toList (.inl h)) (unmarked row)
  · next row h => exact absurd (marked_of_toList (.inr h)) (unmarked row)
  · rfl

theorem lowered_of_marked (h : Marked text row) :
    lowered text = "0x" ++ String.ofList (row.map lowerDigit) := by
  apply String.toList_injective
  rcases h.toList with h | h <;> simp [lowered, h, lowerCase, lowerMark, lowerDigit]

/-! ## Digits -/

def digitChars : List Char :=
  ['0', '1', '2', '3', '4', '5', '6', '7', '8', '9', 'a', 'b', 'c',
    'd', 'e', 'f', 'A', 'B', 'C', 'D', 'E', 'F']

theorem toNat_lt_of_isDigit (h : isDigit c = true) : c.toNat < 128 := by
  unfold isDigit digitValue? at h
  split at h
  · next range => exact Nat.lt_of_le_of_lt (show c.toNat ≤ 57 from range.2) (by decide)
  split at h
  · next range => exact Nat.lt_of_le_of_lt (show c.toNat ≤ 102 from range.2) (by decide)
  split at h
  · next range => exact Nat.lt_of_le_of_lt (show c.toNat ≤ 70 from range.2) (by decide)
  · cases h

/-- What holds of the digit characters holds of every digit. -/
theorem digit_induction {P : Char → Prop} (digits : digitChars.Forall P) (h : isDigit c = true) :
    P c := by
  have all : ∀ n < 128, isDigit (Char.ofNat n) = true → Char.ofNat n ∈ digitChars := by decide
  have member := all c.toNat (toNat_lt_of_isDigit h)
  rw [Char.ofNat_toNat] at member
  exact List.forall_iff_forall_mem.mp digits c (member h)

theorem exists_digitValue (h : isDigit c = true) :
    ∃ value < 16, digitValue? c = some value ∧ Nat.digitChar value = lowerDigit c := by
  refine digit_induction (P := fun c => ∃ value < 16, digitValue? c = some value ∧
    Nat.digitChar value = lowerDigit c) ?_ h
  decide

theorem isDigit_of_digitValue? {value : Nat} (h : digitValue? c = some value) :
    isDigit c = true := by
  rw [isDigit, h]
  rfl

/-- A value is that of a digit, and in lower case the digit is how it is written. -/
theorem digitChar_of_digitValue? {value : Nat} (h : digitValue? c = some value) :
    value < 16 ∧ Nat.digitChar value = lowerDigit c := by
  obtain ⟨value', small, same, written⟩ := exists_digitValue (isDigit_of_digitValue? h)
  obtain rfl : value = value' := Option.some.inj (h.symm.trans same)
  exact ⟨small, written⟩

/-! ## Rows -/

theorem find?_eq_none_of_allDigits (h : AllDigits row) :
    row.find? (fun c => !isDigit c) = none := by
  rw [List.find?_eq_none]
  intro c hc
  simp [h c hc]

theorem find?_eq_some_of_firstStray (h : FirstStray row c) :
    row.find? (fun c => !isDigit c) = some c := by
  obtain ⟨stray, digits, rest, rfl, all⟩ := h
  rw [List.find?_append, find?_eq_none_of_allDigits all, Option.none_or, List.find?_cons, stray]
  rfl

theorem firstStray_cons {d : Char} :
    FirstStray (d :: row) c ↔ isDigit d = false ∧ c = d ∨ isDigit d = true ∧ FirstStray row c := by
  constructor
  · rintro ⟨stray, digits, rest, same, all⟩
    cases digits with
    | nil =>
      obtain ⟨rfl, -⟩ := List.cons.inj same
      exact .inl ⟨stray, rfl⟩
    | cons digit digits =>
      obtain ⟨rfl, rfl⟩ := List.cons.inj same
      obtain ⟨digit, all⟩ := List.forall_mem_cons.mp all
      exact .inr ⟨digit, stray, digits, rest, rfl, all⟩
  · rintro (⟨stray, rfl⟩ | ⟨digit, stray, digits, rest, rfl, all⟩)
    · exact ⟨stray, [], row, rfl, by simp [AllDigits]⟩
    · exact ⟨stray, d :: digits, rest, rfl, List.forall_mem_cons.mpr ⟨digit, all⟩⟩

theorem allDigits_or_firstStray (row : List Char) : AllDigits row ∨ ∃ c, FirstStray row c := by
  induction row with
  | nil => exact .inl (by simp [AllDigits])
  | cons c rest ih =>
    cases digit : isDigit c with
    | false => exact .inr ⟨c, firstStray_cons.mpr (.inl ⟨digit, rfl⟩)⟩
    | true =>
      rcases ih with all | ⟨d, stray⟩
      · exact .inl (List.forall_mem_cons.mpr ⟨digit, all⟩)
      · exact .inr ⟨d, firstStray_cons.mpr (.inr ⟨digit, stray⟩)⟩

end MinerGateway.Hex
