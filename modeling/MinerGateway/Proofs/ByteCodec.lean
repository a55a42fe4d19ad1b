import Mathlib.Data.String.Basic
import MinerGateway.Proofs.HexGrammar
import MinerGateway.Proofs.HexRoundTrip

/-!
What the reader of byte strings accepts, and what it says of everything else.

`Denotes` says which bytes a row of digits denotes and `ReadsBytes` what reading a text comes to, in
terms of the grammar alone; `decode_eq_iff` says that the reader does just that, for every text. The
reader works on the UTF-8 bytes of the text, and each byte is to it the character of that number
(`asChar`). To digits this makes no difference (`readChars_of_allDigits`), but of the first
character that is no digit it sees the first byte (`lead`). `byte_codec` puts this together with
what follows for writing a byte string, and for reading hashes and nonces.

What is proved (`byte_codec`), for every text and every row of bytes:
  1. what reading comes to, cause by cause and in the order in which the causes are looked for:
     empty, no mark, an odd number of UTF-8 bytes, the first byte that is no digit;
  2. what is written is read back, and what was read is written again, but for letter case;
  3. values of a fixed length are read in the same way and refused besides for another length.

What is assumed: a reader of pairs of digits counts its bytes first and then complains about the
first one that is no digit; the model spells this out (`readPairs`).
-/

namespace MinerGateway.Hex

/-- The bytes that a row of digits denotes: two digits a byte, the high half first. -/
inductive Denotes : List Char → List UInt8 → Prop where
  | nil : Denotes [] []
  | cons {high low : Char} {h l : Nat} {row : List Char} {bytes : List UInt8}
    (first : digitValue? high = some h) (second : digitValue? low = some l)
    (rest : Denotes row bytes) :
    Denotes (high :: low :: row) (UInt8.ofNat (16 * h + l) :: bytes)

/-- A byte on its own, taken for the character of that number. -/
def asChar (b : UInt8) : Char := Char.ofNat b.toNat

/-- What the first byte of a character is on its own. -/
def lead (c : Char) : Char := asChar ((String.utf8EncodeChar c).headD 0)

/-- What reading a text as a byte string comes to. -/
inductive ReadsBytes : String → Except HexError (List UInt8) → Prop where
  | empty : ReadsBytes "" (.error .empty)
  | unmarked {text : String} (nonempty : text ≠ "") (h : ∀ row, ¬Marked text row) :
    ReadsBytes text (.error .missingPrefix)
  /-- The bytes behind the mark, not the characters, are to pair up. -/
  | odd {text : String} {row : List Char} (marked : Marked text row)
    (h : (String.ofList row).utf8ByteSize % 2 = 1) : ReadsBytes text (.error .oddLength)
  | stray {text : String} {row : List Char} {c : Char} (marked : Marked text row)
    (even : (String.ofList row).utf8ByteSize % 2 = 0) (h : FirstStray row c) :
    ReadsBytes text (.error (.invalidDigit (lead c)))
  | bytes {text : String} {row : List Char} {bytes : List UInt8} (marked : Marked text row)
    (h : Denotes row bytes) : ReadsBytes text (.ok bytes)

/-! ## Rows of digits -/

variable {text : String} {row : List Char} {bytes : List UInt8} {c : Char}

theorem Denotes.allDigits (h : Denotes row bytes) : AllDigits row := by
  induction h with
  | nil => simp [AllDigits]
  | cons first second _ ih =>
    exact List.forall_mem_cons.mpr ⟨isDigit_of_digitValue? first,
      List.forall_mem_cons.mpr ⟨isDigit_of_digitValue? second, ih⟩⟩

theorem Denotes.length_row (h : Denotes row bytes) : row.length = 2 * bytes.length := by
  induction h with
  | nil => rfl
  | cons _ _ _ ih =>
    rw [List.length_cons, List.length_cons, ih, List.length_cons]
    omega

/-- A row denotes bytes if it consists of digits in pairs. -/
theorem exists_denotes {row : List Char} (even : row.length % 2 = 0) (all : AllDigits row) :
    ∃ bytes, Denotes row bytes := by
  match row with
  | [] => exact ⟨[], .nil⟩
  | [_] => cases even
  | high :: low :: row =>
    obtain ⟨first, all⟩ := List.forall_mem_cons.mp all
    obtain ⟨second, all⟩ := List.forall_mem_cons.mp all
    obtain ⟨h, -, first, -⟩ := exists_digitValue first
    obtain ⟨l, -, second, -⟩ := exists_digitValue second
    have even : row.length % 2 = 0 := by
      rw [List.length_cons, List.length_cons] at even
      omega
    obtain ⟨bytes, rest⟩ := exists_denotes even all
    exact ⟨_, .cons first second rest⟩

theorem exists_denotes_iff : (∃ bytes, Denotes row bytes) ↔ row.length % 2 = 0 ∧ AllDigits row := by
  constructor
  · rintro ⟨bytes, h⟩
    have length := h.length_row
    exact ⟨by omega, h.allDigits⟩
  · rintro ⟨even, all⟩
    exact exists_denotes even all

theorem Denotes.byteDigits (h : Denotes row bytes) :
    bytes.flatMap byteDigits = row.map lowerDigit := by
  induction h with
  | nil => rfl
  | @cons high low h l row bytes first second _ ih =>
    obtain ⟨hsmall, high'⟩ := digitChar_of_digitValue? first
    obtain ⟨lsmall, low'⟩ := digitChar_of_digitValue? second
    have whole : (UInt8.ofNat (16 * h + l)).toNat = 16 * h + l := by
      rw [UInt8.toNat_ofNat']
      omega
    have halves : (16 * h + l) / 16 = h ∧ (16 * h + l) % 16 = l := by omega
    rw [List.flatMap_cons, ih, Hex.byteDigits, whole, halves.1, halves.2, high', low']
    rfl

/-! ## Bytes as characters -/

theorem readChar_of_isDigit (h : isDigit c = true) :
    (String.utf8EncodeChar c).map asChar = [c] := by
  refine digit_induction (P := fun c => (String.utf8EncodeChar c).map asChar = [c]) ?_ h
  decide

theorem readChars_of_allDigits (all : AllDigits row) :
    (row.flatMap String.utf8EncodeChar).map asChar = row := by
  induction row with
  | nil => rfl
  | cons c rest ih =>
    obtain ⟨digit, all⟩ := List.forall_mem_cons.mp all
    rw [List.flatMap_cons, List.map_append, readChar_of_isDigit digit, ih all]
    rfl

theorem toNat_asChar (b : UInt8) : (asChar b).toNat = b.toNat := by
  have small : b.toNat < 256 := b.toNat_lt
  have valid : b.toNat.isValidChar := .inl (by omega)
  rw [asChar, Char.ofNat, dif_pos valid]
  rfl

theorem toNat_lead (c : Char) :
    (lead c).toNat = if c.toNat ≤ 127 then c.toNat
      else if c.toNat ≤ 2047 then 192 + c.toNat / 64
      else if c.toNat ≤ 65535 then 224 + c.toNat / 4096
      else 240 + c.toNat / 262144 := by
  have bound : c.toNat < 0x110000 := by
    rcases c.valid with low | high
    · exact Nat.lt_trans low (by decide)
    · exact high.2
  rw [lead, toNat_asChar]
  unfold String.utf8EncodeChar
  simp only [Char.toNat_val]
  split
  · rw [List.headD_cons, UInt8.toNat_ofNat']
    omega
  split
  · rw [List.headD_cons, UInt8.toNat_ofNat']
    omega
  split
  · rw [List.headD_cons, UInt8.toNat_ofNat']
    omega
  · rw [List.headD_cons, UInt8.toNat_ofNat']
    omega

/-- A character is taken for itself if it is one byte, and by chance in one other case: the first
byte of U+00C3 is 0xC3. -/
theorem lead_eq_self_iff : lead c = c ↔ c.toNat < 128 ∨ c = '\u00c3' := by
  have number : lead c = c ↔ (lead c).toNat = c.toNat := Char.toNat_inj.symm
  have chance : c = '\u00c3' ↔ c.toNat = 195 := Char.toNat_inj.symm
  rw [number, chance, toNat_lead]
  split
  · omega
  split
  · omega
  split <;> omega

theorem isDigit_lead (h : isDigit c = false) : isDigit (lead c) = false := by
  by_cases ascii : c.toNat < 128
  · rw [lead_eq_self_iff.mpr (.inl ascii), h]
  · have beyond : ¬(lead c).toNat < 128 := by
      rw [toNat_lead]
      split
      · exact ascii
      split
      · omega
      split <;> omega
    rw [Bool.eq_false_iff]
    exact fun digit => beyond (toNat_lt_of_isDigit digit)

/-- What the reader sees of a row first goes wrong at the first byte of its first stray. -/
theorem firstStray_readChars (h : FirstStray row c) :
    FirstStray ((row.flatMap String.utf8EncodeChar).map asChar) (lead c) := by
  obtain ⟨stray, digits, rest, rfl, all⟩ := h
  obtain ⟨b, more, encoded⟩ : ∃ b more, String.utf8EncodeChar c = b :: more := by
    apply List.exists_cons_of_length_pos
    rw [String.length_utf8EncodeChar]
    exact c.utf8Size_pos
  have first : lead c = asChar b := by rw [lead, encoded, List.headD_cons]
  refine ⟨isDigit_lead stray, digits, (more ++ rest.flatMap String.utf8EncodeChar).map asChar,
    ?_, all⟩
  rw [List.flatMap_append, List.map_append, readChars_of_allDigits all,
    List.flatMap_cons, encoded, first]
  rfl

theorem length_units (row : List Char) :
    (row.flatMap String.utf8EncodeChar).length = (String.ofList row).utf8ByteSize := by
  rw [String.utf8ByteSize_ofList]
  induction row with
  | nil => rfl
  | cons c rest ih =>
    rw [List.flatMap_cons, List.length_append, ih, String.length_utf8EncodeChar,
      String.utf8Len_cons, Nat.add_comm]

/-! ## Reading -/

theorem nibble_of_digitValue? {b : UInt8} {value : Nat} (h : digitValue? (asChar b) = some value) :
    nibble b = .ok value := by
  have h : digitValue? (Char.ofNat b.toNat) = some value := h
  rw [nibble, h]

theorem nibble_of_stray {b : UInt8} (h : isDigit (asChar b) = false) :
    nibble b = .error (.invalidDigit (asChar b)) := by
  have none : digitValue? (Char.ofNat b.toNat) = none := by simpa [isDigit, asChar] using h
  rw [nibble, none]
  rfl

theorem readPairs_of_denotes {units bytes : List UInt8} (h : Denotes (units.map asChar) bytes) :
    readPairs units = .ok bytes := by
  match units, h with
  | [], .nil => rfl
  | high :: low :: rest, .cons first second others =>
    rw [readPairs, nibble_of_digitValue? first, nibble_of_digitValue? second,
      readPairs_of_denotes others]
    rfl

theorem readPairs_of_firstStray {units : List UInt8} {c : Char} (even : units.length % 2 = 0)
    (h : FirstStray (units.map asChar) c) : readPairs units = .error (.invalidDigit c) := by
  match units with
  | [] =>
    obtain ⟨-, digits, rest, same, -⟩ := h
    simp at same
  | [_] => cases even
  | high :: low :: rest =>
    rcases firstStray_cons.mp h with ⟨stray, rfl⟩ | ⟨first, h⟩
    · rw [readPairs, nibble_of_stray stray]
      rfl
    obtain ⟨value, -, first, -⟩ := exists_digitValue first
    rcases firstStray_cons.mp h with ⟨stray, rfl⟩ | ⟨second, h⟩
    · rw [readPairs, nibble_of_digitValue? first, nibble_of_stray stray]
      rfl
    obtain ⟨value', -, second, -⟩ := exists_digitValue second
    have even : rest.length % 2 = 0 := by
      rw [List.length_cons, List.length_cons] at even
      omega
    rw [readPairs, nibble_of_digitValue? first, nibble_of_digitValue? second,
      readPairs_of_firstStray even h]
    rfl

/-- Behind a mark, the bytes are counted first. -/
theorem decode_of_marked (marked : Marked text row) :
    decode text = if (String.ofList row).utf8ByteSize % 2 = 0
      then readPairs (row.flatMap String.utf8EncodeChar) else .error .oddLength := by
  rw [decode, readBytes, afterMark_of_marked marked, ← length_units]
  rfl

theorem utf8ByteSize_of_allDigits (all : AllDigits row) :
    (String.ofList row).utf8ByteSize = row.length := by
  rw [← length_units, ← List.length_map (f := asChar), readChars_of_allDigits all]

/-- The reader does what the grammar says. -/
theorem decode_of_reads {result : Except HexError (List UInt8)} (h : ReadsBytes text result) :
    decode text = result := by
  cases h with
  | empty => rfl
  | unmarked nonempty unmarked =>
    rw [decode, readBytes, afterMark_of_unmarked nonempty unmarked]
    rfl
  | odd marked odd =>
    rw [decode_of_marked marked, if_neg (by omega)]
  | @stray _ row _ marked even stray =>
    rw [decode_of_marked marked, if_pos even]
    rw [← length_units] at even
    exact readPairs_of_firstStray even (firstStray_readChars stray)
  | @bytes _ row _ marked denotes =>
    have even := (exists_denotes_iff.mp ⟨_, denotes⟩).1
    rw [← utf8ByteSize_of_allDigits denotes.allDigits] at even
    rw [decode_of_marked marked, if_pos even]
    apply readPairs_of_denotes
    rwa [readChars_of_allDigits denotes.allDigits]

/-- Reading comes to something in the grammar, whatever the text. -/
theorem exists_reads (text : String) : ∃ result, ReadsBytes text result := by
  by_cases nonempty : text = ""
  · subst nonempty
    exact ⟨_, .empty⟩
  by_cases marked : ∃ row, Marked text row
  · obtain ⟨row, marked⟩ := marked
    rcases Nat.mod_two_eq_zero_or_one (String.ofList row).utf8ByteSize with even | odd
    · rcases allDigits_or_firstStray row with all | ⟨c, stray⟩
      · rw [utf8ByteSize_of_allDigits all] at even
        obtain ⟨bytes, denotes⟩ := exists_denotes even all
        exact ⟨_, .bytes marked denotes⟩
      · exact ⟨_, .stray marked even stray⟩
    · exact ⟨_, .odd marked odd⟩
  · exact ⟨_, .unmarked nonempty (not_exists.mp marked)⟩

/-- **The reader of byte strings does what the grammar says, for every text.** -/
theorem decode_eq_iff {result : Except HexError (List UInt8)} :
    decode text = result ↔ ReadsBytes text result := by
  constructor
  · intro read
    obtain ⟨result', reads⟩ := exists_reads text
    obtain rfl : result' = result := (decode_of_reads reads).symm.trans read
    exact reads
  · exact decode_of_reads

theorem decode_eq_ok_iff :
    decode text = .ok bytes ↔ ∃ row, Marked text row ∧ Denotes row bytes := by
  rw [decode_eq_iff]
  constructor
  · intro reads
    cases reads with
    | bytes marked denotes => exact ⟨_, marked, denotes⟩
  · rintro ⟨row, marked, denotes⟩
    exact .bytes marked denotes

theorem encode_of_decode (marked : Marked text row) (read : decode text = .ok bytes) :
    encode bytes = "0x" ++ String.ofList (row.map lowerDigit) := by
  obtain ⟨row', marked', denotes⟩ := decode_eq_ok_iff.mp read
  obtain rfl := marked.unique marked'
  rw [encode, writeBytes, denotes.byteDigits]
  exact String.toList_injective (by simp)

/-- The reader takes byte strings of `n` bytes and no others, and what is no byte string at all it
refuses as `decode` does. -/
structure ReadsExactly (n : Nat) (parse : String → Except HexError (FixedBytes n)) : Prop where
  accepts : ∀ text bytes, (∃ length, parse text = .ok ⟨bytes, length⟩) ↔
    decode text = .ok bytes ∧ bytes.length = n
  wrongLength : ∀ text expected got, parse text = .error (.wrongLength expected got) ↔
    expected = n ∧ got ≠ n ∧ ∃ bytes, decode text = .ok bytes ∧ bytes.length = got
  refuses : ∀ text cause, decode text = .error cause → parse text = .error cause

theorem parse_of_decode_ok (n : Nat) (read : decode text = .ok bytes) :
    FixedBytes.parse n text = if length : bytes.length = n then .ok ⟨bytes, length⟩
      else .error (.wrongLength n bytes.length) := by
  rw [FixedBytes.parse, read]
  rfl

theorem parse_of_decode_error (n : Nat) {cause : HexError} (refused : decode text = .error cause) :
    FixedBytes.parse n text = .error cause := by
  rw [FixedBytes.parse, refused]
  rfl

theorem decode_ne_wrongLength (expected got : Nat) :
    decode text ≠ .error (.wrongLength expected got) := by
  intro refused
  cases decode_eq_iff.mp refused

theorem parse_eq_ok_iff {n : Nat} {fixed : FixedBytes n} :
    FixedBytes.parse n text = .ok fixed ↔ decode text = .ok fixed.toList := by
  cases read : decode text with
  | error cause => simp [parse_of_decode_error n read]
  | ok found =>
    rw [parse_of_decode_ok n read]
    constructor
    · intro same
      split at same
      · rw [← Except.ok.inj same]
      · cases same
    · intro same
      obtain rfl := Except.ok.inj same
      exact dif_pos fixed.length_toList

/-- Only a byte string is refused for its length, and only for another one. -/
theorem parse_eq_wrongLength_iff {n expected got : Nat} :
    FixedBytes.parse n text = .error (.wrongLength expected got) ↔
      expected = n ∧ got ≠ n ∧ ∃ bytes, decode text = .ok bytes ∧ bytes.length = got := by
  constructor
  · intro refused
    cases read : decode text with
    | error cause =>
      rw [parse_of_decode_error n read] at refused
      obtain rfl := Except.error.inj refused
      exact absurd read (decode_ne_wrongLength expected got)
    | ok found =>
      rw [parse_of_decode_ok n read] at refused
      split at refused
      · cases refused
      · next length =>
        obtain ⟨rfl, rfl⟩ := HexError.wrongLength.inj (Except.error.inj refused)
        exact ⟨rfl, length, found, rfl, rfl⟩
  · rintro ⟨rfl, other, bytes, read, rfl⟩
    rw [parse_of_decode_ok _ read]
    exact dif_neg other

theorem readsExactly_parse (n : Nat) : ReadsExactly n (FixedBytes.parse n) where
  accepts text bytes := by
    constructor
    · rintro ⟨length, parsed⟩
      exact ⟨parse_eq_ok_iff.mp parsed, length⟩
    · rintro ⟨read, length⟩
      exact ⟨length, parse_eq_ok_iff.mpr read⟩
  wrongLength _ _ _ := parse_eq_wrongLength_iff
  refuses _ _ := parse_of_decode_error n

/-- **The byte codec accepts its grammar and inverts itself.** What reading comes to is what the
grammar says, for every text, and a row of digits denotes bytes exactly if the digits pair up. What
is written is read back, and what was read is written again in lower case. Hashes, nonces and byte
strings of any other length are read in the same way, and refused besides if the length is another.
-/
theorem byte_codec :
    (∀ text result, decode text = result ↔ ReadsBytes text result) ∧
    (∀ row, (∃ bytes, Denotes row bytes) ↔ row.length % 2 = 0 ∧ AllDigits row) ∧
    (∀ bytes, decode (encode bytes) = .ok bytes) ∧
    (∀ text row bytes, Marked text row → decode text = .ok bytes →
      encode bytes = "0x" ++ String.ofList (row.map lowerDigit)) ∧
    (∀ n, ReadsExactly n (FixedBytes.parse n)) ∧
    ReadsExactly 32 Hash.parse ∧ ReadsExactly 8 Nonce.parse := by
  refine ⟨fun _ _ => decode_eq_iff, fun _ => exists_denotes_iff,
    decode_encode, ?_, readsExactly_parse, readsExactly_parse 32, readsExactly_parse 8⟩
  intro text row bytes marked read
  exact encode_of_decode marked read

/-- Two characters behind the mark are three bytes, which do not pair up; digits of either case are
read, written in lower case, and too few for a hash. -/
theorem byte_codec_mixedCase :
    decode "0xa\u00e9" = .error .oddLength ∧ decode "0XaB9f" = .ok [0xab, 0x9f] ∧
      encode [0xab, 0x9f] = "0xab9f" ∧ Hash.parse "0XaB9f" = .error (.wrongLength 32 2) := by
  obtain ⟨reads, -, -, written, -, hashes, -⟩ := byte_codec
  have short : Marked "0xa\u00e9" ['a', '\u00e9'] := .inl rfl
  have marked : Marked "0XaB9f" ['a', 'B', '9', 'f'] := .inr rfl
  have denotes : Denotes ['a', 'B', '9', 'f'] [0xab, 0x9f] :=
    .cons (h := 10) (l := 11) rfl rfl (.cons (h := 9) (l := 15) rfl rfl .nil)
  have read : decode "0XaB9f" = .ok [0xab, 0x9f] := (reads _ _).mpr (.bytes marked denotes)
  refine ⟨?_, read, written _ _ _ marked read, ?_⟩
  · exact (reads _ _).mpr (.odd short (by decide))
  · exact (hashes.wrongLength _ _ _).mpr ⟨rfl, by decide, _, read, rfl⟩

end MinerGateway.Hex
