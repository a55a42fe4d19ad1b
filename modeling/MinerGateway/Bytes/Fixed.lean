import MinerGateway.Bytes.BigEndian
import MinerGateway.Hex.ByteString

/-!
Byte strings of a fixed length: hashes of 32 bytes and nonces of 8.

Both are written as `0x` and two digits a byte, and read back from the same form; a byte string of
another length is refused. Hashes are ordered byte by byte from the left. The length is part of the
type, so no hash or nonce of another length can be made. A nonce is also a number of 64 bits, the
first byte weighing most (`Nonce.ofUInt64`, `Nonce.toUInt64`).
-/

namespace MinerGateway

structure FixedBytes (n : Nat) where
  toList : List UInt8
  length_toList : toList.length = n
  deriving Repr

namespace FixedBytes

variable {n : Nat}

@[ext] theorem ext {a b : FixedBytes n} (h : a.toList = b.toList) : a = b := by
  cases a; cases b; simp_all

/-- Equality is that of the bytes. -/
instance : DecidableEq (FixedBytes n) := fun a b =>
  decidable_of_iff (a.toList == b.toList) ⟨fun h => ext (eq_of_beq h), fun h => h ▸ BEq.rfl⟩

def filled (n : Nat) (b : UInt8) : FixedBytes n := ⟨List.replicate n b, List.length_replicate⟩

/-- The big-endian bytes of a number, as many as fit. -/
def ofNat (n value : Nat) : FixedBytes n :=
  ⟨BigEndian.bytes n value, BigEndian.length_bytes n value⟩

def toNat (a : FixedBytes n) : Nat := BigEndian.value a.toList

/-- `0x` and the digits of the bytes. -/
def text (a : FixedBytes n) : String := Hex.encode a.toList

/-- Reads `n` bytes; a byte string of another length is refused after its digits were read. -/
def parse (n : Nat) (text : String) : Except HexError (FixedBytes n) := do
  let bytes ← Hex.decode text
  if h : bytes.length = n then .ok ⟨bytes, h⟩ else .error (.wrongLength n bytes.length)

def isZero (a : FixedBytes n) : Bool := a.toList.all (· == 0)

instance : Ord (FixedBytes n) := ⟨fun a b => compare a.toList b.toList⟩

instance : Inhabited (FixedBytes n) := ⟨filled n 0⟩

end FixedBytes

/-- A 32-byte value: seal hashes, mix digests, seeds and the ids of submitters. -/
abbrev Hash := FixedBytes 32

/-- The 8 bytes that a miner searches for, a big-endian number. -/
abbrev Nonce := FixedBytes 8

namespace Hash

def zero : Hash := FixedBytes.filled 32 0

def parse (text : String) : Except HexError Hash := FixedBytes.parse 32 text

end Hash

namespace Nonce

def ofUInt64 (value : UInt64) : Nonce := FixedBytes.ofNat 8 value.toNat

def toUInt64 (nonce : Nonce) : UInt64 := UInt64.ofNat nonce.toNat

def parse (text : String) : Except HexError Nonce := FixedBytes.parse 8 text

end Nonce

end MinerGateway
