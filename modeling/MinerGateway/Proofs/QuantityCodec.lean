import Mathlib.Data.Nat.Digits.Defs
import MinerGateway.Proofs.HexGrammar

/-!
What the reader of quantities accepts, and what it says of everything else.

`Amounts` says which number a row of digits denotes, `Canonical` which rows a quantity may have, and
`ReadsQuantity` what reading a text comes to; `decodeQuantity_eq_iff` says that the reader does just
that, for every text. A canonical row is how its number is written, but for the case of its digits
(`Amounts.toDigits`), so reading and writing invert each other and each number has one text up to
case. A reader of numbers that knows no such rules (`readRadix`) cannot fail on what has passed the
checks. `quantity_codec` puts this together.

What is proved (`quantity_codec`), for every text and every word of 64 bits:
  1. what reading comes to, cause by cause: empty, no mark, no digit, a leading zero, the first
     character that is no digit, more than sixteen digits;
  2. what has passed these checks is a number of 64 bits, so the last step never fails;
  3. what is written is read back, and two texts denote one number exactly if they are the same up
     to case.

What is assumed: the reader in base sixteen behind the checks takes a plus sign and zeros in front
and reports a number that does not fit, as `readRadix` does.
-/

namespace MinerGateway.Hex

/-- The number that a row of digits denotes: each digit weighs sixteen times as much as the one
behind it. -/
inductive Amounts : List Char → Nat → Prop where
  | nil : Amounts [] 0
  | cons {c : Char} {d n : Nat} {row : List Char} (first : digitValue? c = some d)
      (rest : Amounts row n) :
    Amounts (c :: row) (d * 16 ^ row.length + n)

/-- The rows of quantities: a single zero, or up to sixteen digits of which the first is not zero.
-/
inductive Canonical : List Char → Prop where
  | zero : Canonical ['0']
  | digits {c : Char} {row : List Char} (first : c ≠ '0') (all : AllDigits (c :: row))
    (short : (c :: row).length ≤ 16) : Canonical (c :: row)

/-- What reading a text as a quantity comes to. -/
inductive ReadsQuantity : String → Except HexError UInt64 → Prop where
  | empty : ReadsQuantity "" (.error .empty)
  | unmarked {text : String} (nonempty : text ≠ "") (h : ∀ row, ¬Marked text row) :
    ReadsQuantity text (.error .missingPrefix)
  | emptyNumber {text : String} (marked : Marked text []) : ReadsQuantity text (.error .emptyNumber)
  | leadingZero {text : String} {c : Char} {row : List Char}
      (marked : Marked text ('0' :: c :: row)) :
    ReadsQuantity text (.error .leadingZero)
  | stray {text : String} {row : List Char} {c : Char} (marked : Marked text row)
    (first : ∀ d rest, row ≠ '0' :: d :: rest) (h : FirstStray row c) :
    ReadsQuantity text (.error (.invalidDigit c))
  | overflow {text : String} {c : Char} {row : List Char} (marked : Marked text (c :: row))
    (first : c ≠ '0') (all : AllDigits (c :: row)) (long : 16 < (c :: row).length) :
    ReadsQuantity text (.error .overflow)
  | value {text : String} {row : List Char} {value : UInt64} (marked : Marked text row)
    (canonical : Canonical row) (amounts : Amounts row value.toNat) : ReadsQuantity text (.ok value)

/-- Reads on in base sixteen, as long as there are digits and the number fits 64 bits. -/
def accumulate (value : Nat) : List Char → Option Nat
  | [] => some value
  | c :: rest => do
    let d ← digitValue? c
    if 16 * value + d < 2 ^ 64 then accumulate (16 * value + d) rest else none

/-- A reader of 64-bit numbers in base sixteen with rules of its own: there may be a plus sign in
front and any number of zeros, but there has to be a digit. -/
def readRadix (text : List Char) : Option UInt64 :=
  let digits := if text.head? = some '+' then text.tail else text
  if digits = [] then none else (accumulate 0 digits).map UInt64.ofNat

/-! ## Rows and numbers -/

variable {text : String} {row : List Char} {n : Nat} {value : UInt64} {c : Char}

theorem Amounts.allDigits (h : Amounts row n) : AllDigits row := by
  induction h with
  | nil => simp [AllDigits]
  | cons first _ ih => exact List.forall_mem_cons.mpr ⟨isDigit_of_digitValue? first, ih⟩

theorem exists_amounts (all : AllDigits row) : ∃ n < 16 ^ row.length, Amounts row n := by
  induction row with
  | nil => exact ⟨0, Nat.one_pos, .nil⟩
  | cons c row ih =>
    obtain ⟨digit, all⟩ := List.forall_mem_cons.mp all
    obtain ⟨d, small, first, -⟩ := exists_digitValue digit
    obtain ⟨n, bound, rest⟩ := ih all
    refine ⟨d * 16 ^ row.length + n, ?_, .cons first rest⟩
    calc d * 16 ^ row.length + n
        < d * 16 ^ row.length + 16 ^ row.length := by omega
      _ = (d + 1) * 16 ^ row.length := (Nat.succ_mul d _).symm
      _ ≤ 16 * 16 ^ row.length := Nat.mul_le_mul_right _ small
      _ = 16 ^ (c :: row).length := (Nat.pow_succ').symm

theorem Amounts.foldl (h : Amounts row n) (value : Nat) :
    row.foldl (fun value c => 16 * value + (digitValue? c).getD 0) value
      = value * 16 ^ row.length + n := by
  induction h generalizing value with
  | nil => simp
  | cons first _ ih =>
    rw [List.foldl_cons, ih, first, Option.getD_some, List.length_cons, Nat.pow_succ]
    ring

theorem Amounts.valueOf (h : Amounts row n) : valueOf row = n := by
  rw [Hex.valueOf, h.foldl, Nat.zero_mul, Nat.zero_add]

theorem Amounts.concat {d : Nat} (h : Amounts row n) (last : digitValue? c = some d) :
    Amounts (row ++ [c]) (16 * n + d) := by
  induction h with
  | nil => simpa using Amounts.cons last .nil
  | @cons first e n row digit _ ih =>
    have longer := Amounts.cons digit ih
    rw [List.length_append, List.length_singleton, Nat.pow_succ] at longer
    rw [List.cons_append]
    convert longer using 1
    ring

/-! ## Writing -/

/-- The digits of a number followed by a row of digits are the digits of the number that both
denote. -/
theorem Amounts.toDigits_append (h : Amounts row n) {m : Nat} (pos : 0 < m) :
    Nat.toDigits 16 m ++ row.map lowerDigit = Nat.toDigits 16 (m * 16 ^ row.length + n) := by
  induction h generalizing m with
  | nil => simp
  | @cons c d n row first _ ih =>
    obtain ⟨small, written⟩ := digitChar_of_digitValue? first
    have digit : Nat.toDigits 16 m ++ [lowerDigit c] = Nat.toDigits 16 (16 * m + d) := by
      rw [← written, ← Nat.toDigits_of_lt_base small]
      exact Nat.toDigits_append_toDigits (by decide) pos small
    calc Nat.toDigits 16 m ++ (c :: row).map lowerDigit
        = (Nat.toDigits 16 m ++ [lowerDigit c]) ++ row.map lowerDigit := by simp
      _ = Nat.toDigits 16 ((16 * m + d) * 16 ^ row.length + n) := by rw [digit, ih (by omega)]
      _ = Nat.toDigits 16 (m * 16 ^ (c :: row).length + (d * 16 ^ row.length + n)) := by
        rw [List.length_cons, Nat.pow_succ]
        ring_nf

/-- A canonical row is how its number is written, but for the case of its digits. -/
theorem Canonical.toDigits (canonical : Canonical row) (h : Amounts row n) :
    Nat.toDigits 16 n = row.map lowerDigit := by
  cases canonical with
  | zero =>
    obtain rfl : 0 = n := h.valueOf
    rfl
  | @digits c row nonzero _ _ =>
    cases h with
    | @cons _ d n _ first rest =>
      obtain ⟨small, written⟩ := digitChar_of_digitValue? first
      have pos : 0 < d := by
        apply Nat.pos_of_ne_zero
        rintro rfl
        exact nonzero ((lowerDigit_eq_zero c).mp written.symm)
      rw [← rest.toDigits_append pos, Nat.toDigits_of_lt_base small, written]
      rfl

theorem digitValue?_digitChar {d : Nat} (small : d < 16) :
    digitValue? (Nat.digitChar d) = some d := by
  have digits : ∀ d < 16, digitValue? (Nat.digitChar d) = some d := by decide
  exact digits d small

theorem amounts_toDigits (n : Nat) : Amounts (Nat.toDigits 16 n) n := by
  induction n using Nat.strong_induction_on with
  | _ n ih =>
    rw [Nat.toDigits_eq_if (by decide)]
    split
    · next small => simpa using Amounts.cons (digitValue?_digitChar small) .nil
    · next large =>
      have whole : 16 * (n / 16) + n % 16 = n := Nat.div_add_mod n 16
      have longer := (ih (n / 16) (by omega)).concat
          (digitValue?_digitChar (Nat.mod_lt n (by decide)))
      rwa [whole] at longer

theorem head?_toDigits_ne_zero (pos : 0 < n) : (Nat.toDigits 16 n).head? ≠ some '0' := by
  induction n using Nat.strong_induction_on with
  | _ n ih =>
    rw [Nat.toDigits_eq_if (by decide)]
    split
    · next small =>
      intro zero
      have digit : Nat.digitChar n = '0' := Option.some.inj zero
      have value := digitValue?_digitChar small
      rw [digit] at value
      exact Nat.ne_of_lt pos (Option.some.inj value)
    · next large =>
      have front : 0 < n / 16 := by omega
      have nonempty : Nat.toDigits 16 (n / 16) ≠ [] := Nat.toDigits_ne_nil
      rw [List.head?_append_of_ne_nil _ nonempty]
      exact ih (n / 16) (by omega) front

theorem canonical_toDigits (value : UInt64) : Canonical (Nat.toDigits 16 value.toNat) := by
  rcases Nat.eq_zero_or_pos value.toNat with zero | pos
  · rw [zero]
    exact .zero
  have all : AllDigits (Nat.toDigits 16 value.toNat) := (amounts_toDigits value.toNat).allDigits
  have short : (Nat.toDigits 16 value.toNat).length ≤ 16 :=
    Nat.toDigits_length 16 value.toNat 16 (by decide) value.toNat_lt
  have first := head?_toDigits_ne_zero pos
  cases row : Nat.toDigits 16 value.toNat with
  | nil => exact absurd row Nat.toDigits_ne_nil
  | cons c rest =>
    rw [row] at all short first
    exact .digits (fun zero => first (by rw [zero]; rfl)) all short

/-! ## Reading -/

theorem decodeQuantity_of_marked (marked : Marked text row) :
    decodeQuantity text =
      if row = [] then .error .emptyNumber
      else if row.head? = some '0' ∧ 1 < row.length then .error .leadingZero
      else match row.find? (fun c => !isDigit c) with
        | some c => .error (.invalidDigit c)
        | none => if 16 < row.length then .error .overflow
            else .ok (UInt64.ofNat (valueOf row)) := by
  rw [decodeQuantity, readQuantity_eq, afterMark_of_marked marked]
  rfl

theorem decodeQuantity_of_canonical (marked : Marked text row) (canonical : Canonical row) :
    decodeQuantity text = .ok (UInt64.ofNat (valueOf row)) := by
  rw [decodeQuantity_of_marked marked]
  cases canonical with
  | zero => rfl
  | digits first all short =>
    rw [if_neg (by simp), if_neg (by simp [first]), find?_eq_none_of_allDigits all]
    exact if_neg (Nat.not_lt.mpr short)

theorem decodeQuantity_of_reads {result : Except HexError UInt64} (h : ReadsQuantity text result) :
    decodeQuantity text = result := by
  cases h with
  | empty => rfl
  | unmarked nonempty unmarked =>
    rw [decodeQuantity, readQuantity_eq, afterMark_of_unmarked nonempty unmarked]
    rfl
  | emptyNumber marked => exact decodeQuantity_of_marked marked
  | leadingZero marked =>
    rw [decodeQuantity_of_marked marked, if_neg (by simp), if_pos (by simp)]
  | @stray _ row c marked first stray =>
    have nonempty : row ≠ [] := by
      rintro rfl
      obtain ⟨-, digits, rest, same, -⟩ := stray
      simp at same
    have single : ¬(row.head? = some '0' ∧ 1 < row.length) := by
      rintro ⟨zero, more⟩
      cases row with
      | nil => cases zero
      | cons d rest =>
        obtain rfl : d = '0' := Option.some.inj zero
        cases rest with
        | nil => exact absurd more (Nat.lt_irrefl 1)
        | cons e rest => exact first e rest rfl
    rw [decodeQuantity_of_marked marked, if_neg nonempty, if_neg single,
      find?_eq_some_of_firstStray stray]
  | overflow marked first all long =>
    rw [decodeQuantity_of_marked marked, if_neg (by simp), if_neg (by simp [first]),
      find?_eq_none_of_allDigits all]
    exact if_pos long
  | value marked canonical amounts =>
    rw [decodeQuantity_of_canonical marked canonical, amounts.valueOf, UInt64.ofNat_toNat]

theorem Canonical.exists_amounts (canonical : Canonical row) :
    ∃ value : UInt64, Amounts row value.toNat := by
  cases canonical with
  | zero => exact ⟨0, by simpa using Amounts.cons (d := 0) rfl .nil⟩
  | @digits c row _ all short =>
    obtain ⟨n, bound, amounts⟩ := Hex.exists_amounts all
    have fits : n < 2 ^ 64 := by
      calc n < 16 ^ (c :: row).length := bound
        _ ≤ 16 ^ 16 := Nat.pow_le_pow_right (by decide) short
        _ = 2 ^ 64 := by decide
    refine ⟨UInt64.ofNat n, ?_⟩
    rwa [UInt64.toNat_ofNat_of_lt' fits]

/-- Reading comes to something in the grammar, whatever the text. -/
theorem exists_readsQuantity (text : String) : ∃ result, ReadsQuantity text result := by
  by_cases nonempty : text = ""
  · subst nonempty
    exact ⟨_, .empty⟩
  by_cases marked : ∃ row, Marked text row
  · obtain ⟨row, marked⟩ := marked
    match row with
    | [] => exact ⟨_, .emptyNumber marked⟩
    | c :: rest =>
      by_cases zero : c = '0'
      · subst zero
        match rest with
        | [] =>
          obtain ⟨value, amounts⟩ := Canonical.zero.exists_amounts
          exact ⟨_, .value marked .zero amounts⟩
        | d :: others => exact ⟨_, .leadingZero marked⟩
      have first : ∀ d others, c :: rest ≠ '0' :: d :: others :=
        fun _ _ same => zero (List.cons.inj same).1
      rcases allDigits_or_firstStray (c :: rest) with all | ⟨d, stray⟩
      · by_cases long : 16 < (c :: rest).length
        · exact ⟨_, .overflow marked zero all long⟩
        · have canonical : Canonical (c :: rest) := .digits zero all (Nat.not_lt.mp long)
          obtain ⟨value, amounts⟩ := canonical.exists_amounts
          exact ⟨_, .value marked canonical amounts⟩
      · exact ⟨_, .stray marked first stray⟩
  · exact ⟨_, .unmarked nonempty (not_exists.mp marked)⟩

/-- **The reader of quantities does what the grammar says, for every text.** -/
theorem decodeQuantity_eq_iff {result : Except HexError UInt64} :
    decodeQuantity text = result ↔ ReadsQuantity text result := by
  constructor
  · intro read
    obtain ⟨result', reads⟩ := exists_readsQuantity text
    obtain rfl : result' = result := (decodeQuantity_of_reads reads).symm.trans read
    exact reads
  · exact decodeQuantity_of_reads

theorem decodeQuantity_eq_ok_iff : decodeQuantity text = .ok value ↔
    ∃ row, Marked text row ∧ Canonical row ∧ Amounts row value.toNat := by
  rw [decodeQuantity_eq_iff]
  constructor
  · intro reads
    cases reads with
    | value marked canonical amounts => exact ⟨_, marked, canonical, amounts⟩
  · rintro ⟨row, marked, canonical, amounts⟩
    exact .value marked canonical amounts

/-! ## The reader behind the checks -/

/-- As long as the whole number fits, so does every number on the way to it. -/
theorem Amounts.accumulate (h : Amounts row n) (value : Nat)
    (fits : value * 16 ^ row.length + n < 2 ^ 64) :
    accumulate value row = some (value * 16 ^ row.length + n) := by
  induction h generalizing value with
  | nil => simp [Hex.accumulate]
  | @cons c d n row first _ ih =>
    have same : (16 * value + d) * 16 ^ row.length + n
        = value * 16 ^ (c :: row).length + (d * 16 ^ row.length + n) := by
      rw [List.length_cons, Nat.pow_succ]
      ring
    rw [← same] at fits ⊢
    have soFar : 16 * value + d < 2 ^ 64 := by
      calc 16 * value + d
          ≤ (16 * value + d) * 16 ^ row.length :=
        Nat.le_mul_of_pos_right _ (Nat.pow_pos (by decide))
        _ ≤ (16 * value + d) * 16 ^ row.length + n := Nat.le_add_right _ _
        _ < 2 ^ 64 := fits
    rw [Hex.accumulate, first, ← ih _ fits]
    exact if_pos soFar

/-- A row that has passed the checks is read without fail. -/
theorem readRadix_of_canonical (canonical : Canonical row) (amounts : Amounts row value.toNat) :
    readRadix row = some value := by
  have all : AllDigits row := amounts.allDigits
  have unsigned : row.head? ≠ some '+' := by
    intro plus
    have digit := all '+' (List.mem_of_head? plus)
    exact absurd digit (by decide)
  have nonempty : row ≠ [] := by
    rintro rfl
    cases canonical
  have whole := amounts.accumulate 0 (by simpa using value.toNat_lt)
  rw [Nat.zero_mul, Nat.zero_add] at whole
  simp only [readRadix, if_neg unsigned, if_neg nonempty,
    whole, Option.map_some, UInt64.ofNat_toNat]

/-! ## Both ways -/

theorem marked_encodeQuantity (value : UInt64) :
    Marked (encodeQuantity value) (Nat.toDigits 16 value.toNat) :=
  marked_of_toList (.inl (by rw [encodeQuantity, String.toList_ofList, writeQuantity]))

/-- **A quantity is read back from its own text.** -/
theorem decodeQuantity_encodeQuantity (value : UInt64) :
    decodeQuantity (encodeQuantity value) = .ok value :=
  decodeQuantity_eq_ok_iff.mpr ⟨_, marked_encodeQuantity value, canonical_toDigits value,
    amounts_toDigits value.toNat⟩

theorem encodeQuantity_of_decodeQuantity (marked : Marked text row)
    (read : decodeQuantity text = .ok value) :
    encodeQuantity value = "0x" ++ String.ofList (row.map lowerDigit) := by
  obtain ⟨row', marked', canonical, amounts⟩ := decodeQuantity_eq_ok_iff.mp read
  obtain rfl := marked.unique marked'
  rw [encodeQuantity, writeQuantity, canonical.toDigits amounts]
  exact String.toList_injective (by simp)

theorem encodeQuantity_eq_lowered (read : decodeQuantity text = .ok value) :
    encodeQuantity value = lowered text := by
  obtain ⟨row, marked, -, -⟩ := decodeQuantity_eq_ok_iff.mp read
  rw [encodeQuantity_of_decodeQuantity marked read, lowered_of_marked marked]

/-- **Each quantity has one text, up to case.** -/
theorem eq_iff_sameButCase {text' : String} {value' : UInt64}
    (read : decodeQuantity text = .ok value)
    (read' : decodeQuantity text' = .ok value') : value = value' ↔ SameButCase text text' := by
  constructor
  · rintro rfl
    exact (encodeQuantity_eq_lowered read).symm.trans (encodeQuantity_eq_lowered read')
  · intro same
    have written : encodeQuantity value = encodeQuantity value' := by
      rw [encodeQuantity_eq_lowered read, encodeQuantity_eq_lowered read']
      exact same
    have back := decodeQuantity_encodeQuantity value
    rw [written, decodeQuantity_encodeQuantity value'] at back
    exact (Except.ok.inj back).symm

/-- **The quantity codec accepts the canonical numbers and inverts itself.** What reading comes to
is what the grammar says, for every text, and a row that has passed the checks is read by a reader
of numbers that knows none of them, so the last step never fails. What is written is read back, and
what was read is written again in lower case. Two texts denote the same number exactly if they are
the same up to case. -/
theorem quantity_codec :
    (∀ text result, decodeQuantity text = result ↔ ReadsQuantity text result) ∧
    (∀ text row, Marked text row → Canonical row →
      ∃ value, decodeQuantity text = .ok value ∧ readRadix row = some value) ∧
    (∀ value, decodeQuantity (encodeQuantity value) = .ok value) ∧
    (∀ text row value, Marked text row → decodeQuantity text = .ok value →
      encodeQuantity value = "0x" ++ String.ofList (row.map lowerDigit)) ∧
    (∀ text text' value value', decodeQuantity text = .ok value →
      decodeQuantity text' = .ok value' →
      (value = value' ↔ SameButCase text text')) := by
  refine ⟨fun _ _ => decodeQuantity_eq_iff, ?_, decodeQuantity_encodeQuantity, ?_, ?_⟩
  · intro text row marked canonical
    obtain ⟨value, amounts⟩ := canonical.exists_amounts
    exact ⟨value, decodeQuantity_eq_ok_iff.mpr ⟨row, marked, canonical, amounts⟩,
      readRadix_of_canonical canonical amounts⟩
  · intro text row value marked read
    exact encodeQuantity_of_decodeQuantity marked read
  · intro text text' value value' read read'
    exact eq_iff_sameButCase read read'

/-- The largest number in capitals; one digit more is too long, and a sign is no digit, though a
reader without the checks would take it. -/
theorem quantity_codec_atTheLimit :
    decodeQuantity "0XFFFFFFFFFFFFFFFF" = .ok 0xffffffffffffffff ∧
      encodeQuantity 0xffffffffffffffff = "0xffffffffffffffff" ∧
      decodeQuantity "0x10000000000000000" = .error .overflow ∧
      decodeQuantity "0x+1" = .error (.invalidDigit '+') ∧ readRadix ['+', '0', '1'] = some 1 := by
  obtain ⟨reads, accepts, -, written, -⟩ := quantity_codec
  have marked : Marked "0XFFFFFFFFFFFFFFFF" (List.replicate 16 'F') := .inr rfl
  obtain ⟨value, read, radix⟩ := accepts _ _ marked (.digits (by decide) (by decide) (by decide))
  obtain rfl : value = 0xffffffffffffffff := Option.some.inj (radix.symm.trans (by decide))
  have long : Marked "0x10000000000000000" ('1' :: List.replicate 16 '0') := .inl rfl
  have signed : Marked "0x+1" ['+', '1'] := .inl rfl
  refine ⟨read, written _ _ _ marked read, ?_, ?_, by decide⟩
  · exact (reads _ _).mpr (.overflow long (by decide) (by decide) (by decide))
  · refine (reads _ _).mpr (.stray signed ?_ ?_)
    · intro d rest same
      cases same
    · exact firstStray_cons.mpr (.inl ⟨rfl, rfl⟩)

end MinerGateway.Hex
