import MinerGateway.Bytes.Fixed

/-!
What is written in hexadecimal is read back.

Each byte is written as two digits (`nibble_digitChar`) and read from them (`readPairs_byteDigits`),
so a byte string is read back from its own text (`decode_encode`), and so is a hash or a nonce
(`FixedBytes.parse_text`).
-/

namespace MinerGateway.Hex

theorem nibble_digitChar {value : Nat} (small : value < 16) :
    ∃ unit, String.utf8EncodeChar (Nat.digitChar value) = [unit] ∧ nibble unit = .ok value := by
  have digits : ∀ value < 16, String.utf8EncodeChar (Nat.digitChar value)
        = [UInt8.ofNat (Nat.digitChar value).toNat] ∧
      digitValue? (Char.ofNat (UInt8.ofNat (Nat.digitChar value).toNat).toNat) = some value := by
    decide
  obtain ⟨one, found⟩ := digits value small
  refine ⟨_, one, ?_⟩
  simp only [nibble, found]

theorem readPairs_byteDigits (b : UInt8) (units : List UInt8) :
    readPairs ((byteDigits b).flatMap String.utf8EncodeChar ++ units)
      = (readPairs units).map (b :: ·) := by
  have size : b.toNat < 256 := b.toNat_lt
  obtain ⟨high, one, value⟩ := nibble_digitChar (show b.toNat / 16 < 16 by omega)
  obtain ⟨low, one', value'⟩ := nibble_digitChar (show b.toNat % 16 < 16 by omega)
  have whole : UInt8.ofNat (16 * (b.toNat / 16) + b.toNat % 16) = b := by
    rw [Nat.div_add_mod]
    exact UInt8.ofNat_toNat
  have units' : (byteDigits b).flatMap String.utf8EncodeChar = [high, low] := by
    simp [byteDigits, one, one']
  rw [units']
  simp only [List.cons_append, List.nil_append, readPairs, value, value']
  cases readPairs units with
  | error cause => rfl
  | ok bytes => exact congrArg (fun b => Except.ok (b :: bytes)) whole

theorem length_byteDigits (b : UInt8) :
    ((byteDigits b).flatMap String.utf8EncodeChar).length = 2 := by
  have size : b.toNat < 256 := b.toNat_lt
  obtain ⟨high, one, -⟩ := nibble_digitChar (show b.toNat / 16 < 16 by omega)
  obtain ⟨low, one', -⟩ := nibble_digitChar (show b.toNat % 16 < 16 by omega)
  simp [byteDigits, one, one']

theorem readPairs_digits (bytes : List UInt8) :
    readPairs ((bytes.flatMap byteDigits).flatMap String.utf8EncodeChar) = .ok bytes ∧
      ((bytes.flatMap byteDigits).flatMap String.utf8EncodeChar).length = 2 * bytes.length := by
  induction bytes with
  | nil => exact ⟨rfl, rfl⟩
  | cons b rest ih =>
    obtain ⟨read, length⟩ := ih
    rw [List.flatMap_cons, List.flatMap_append]
    constructor
    · rw [readPairs_byteDigits, read]
      rfl
    · rw [List.length_append, length_byteDigits, length, List.length_cons]
      omega

/-- **A byte string is read back from its own text.** -/
theorem decode_encode (bytes : List UInt8) : decode (encode bytes) = .ok bytes := by
  obtain ⟨read, length⟩ := readPairs_digits bytes
  have even : ((bytes.flatMap byteDigits).flatMap String.utf8EncodeChar).length % 2 = 0 := by omega
  have start : afterMark (writeBytes bytes) = .ok (bytes.flatMap byteDigits) := rfl
  rw [decode, encode, String.toList_ofList, readBytes, start]
  exact (if_pos even).trans read

end MinerGateway.Hex

namespace MinerGateway

/-- **A hash or a nonce is read back from its own text.** -/
theorem FixedBytes.parse_text {n : Nat} (a : FixedBytes n) : FixedBytes.parse n a.text = .ok a := by
  rw [FixedBytes.parse, FixedBytes.text, Hex.decode_encode]
  exact dif_pos a.length_toList

end MinerGateway
