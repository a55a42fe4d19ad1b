/-!
Numbers as bytes, the most significant byte first.
-/

namespace MinerGateway.BigEndian

/-- The lowest `width` bytes of `value`, the most significant first. -/
def bytes : (width : Nat) → (value : Nat) → List UInt8
  | 0, _ => []
  | width + 1, value => bytes width (value / 256) ++ [UInt8.ofNat value]

def value (bytes : List UInt8) : Nat :=
  bytes.foldl (fun sum b => 256 * sum + b.toNat) 0

@[simp] theorem length_bytes (width value : Nat) : (bytes width value).length = width := by
  induction width generalizing value with
  | zero => rfl
  | succ width ih => simp [bytes, ih]

end MinerGateway.BigEndian
