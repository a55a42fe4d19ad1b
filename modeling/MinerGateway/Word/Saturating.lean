/-!
Sums of 64-bit words that stop at the largest word instead of wrapping.
-/

namespace MinerGateway.Word

def largest : UInt64 := 0xFFFFFFFFFFFFFFFF

/-- The sum, or the largest word if the sum does not fit. -/
def addSat (a b : UInt64) : UInt64 :=
  if a.toNat + b.toNat < UInt64.size then a + b else largest

theorem toNat_addSat (a b : UInt64) :
    (addSat a b).toNat = min (UInt64.size - 1) (a.toNat + b.toNat) := by
  unfold addSat
  split
  · next fits =>
    rw [UInt64.toNat_add, Nat.mod_eq_of_lt fits]
    exact (Nat.min_eq_right (by omega)).symm
  · next large =>
    have : largest.toNat = UInt64.size - 1 := rfl
    rw [this]
    exact (Nat.min_eq_left (by omega)).symm

/-- The sum of a list from the left, stopping at the largest word. -/
def sumSat (words : List UInt64) : UInt64 := words.foldl addSat 0

theorem toNat_foldl_addSat (words : List UInt64) (start : UInt64) :
    (words.foldl addSat start).toNat
      = min (UInt64.size - 1) (start.toNat + words.foldr (fun word sum => word.toNat + sum) 0) := by
  induction words generalizing start with
  | nil =>
    have small : start.toNat < UInt64.size := start.toNat_lt
    simp only [List.foldl_nil, List.foldr_nil]
    omega
  | cons word rest ih =>
    rw [List.foldl_cons, ih, toNat_addSat, List.foldr_cons]
    omega

/-- Saturating on the way comes to the same as saturating once at the end. -/
theorem toNat_sumSat (words : List UInt64) :
    (sumSat words).toNat
      = min (UInt64.size - 1) (words.foldr (fun word sum => word.toNat + sum) 0) := by
  have zero : (0 : UInt64).toNat = 0 := rfl
  rw [sumSat, toNat_foldl_addSat, zero, Nat.zero_add]

end MinerGateway.Word
