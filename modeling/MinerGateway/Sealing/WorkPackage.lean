/-!
Work packages: what a miner is handed.

A package is eleven texts in a fixed order. The engine writes them and nothing on the way to the
miner changes them.
-/

namespace MinerGateway

/-- The eleven texts handed to a miner, in the order in which they travel. -/
structure WorkPackage where
  /-- Hash of the header without nonce and mix digest. -/
  powHash : String
  /-- Seed of the epoch that the block belongs to. -/
  seedHash : String
  /-- The boundary that a solution has to stay under. -/
  target : String
  /-- Height of the block. -/
  number : String
  parentHash : String
  gasLimit : String
  gasUsed : String
  transactionCount : String
  uncleCount : String
  /-- The encoded header. -/
  header : String
  /-- Expected profit in decimal. -/
  profit : String
  deriving DecidableEq, Repr

namespace WorkPackage

/-- How many texts a package has. -/
def fieldCount : Nat := 11

def fields (p : WorkPackage) : List String :=
  [p.powHash, p.seedHash, p.target, p.number, p.parentHash, p.gasLimit, p.gasUsed,
    p.transactionCount, p.uncleCount, p.header, p.profit]

/-- The package of eleven texts; any other number of them makes none. -/
def ofFields? : List String → Option WorkPackage
  | [powHash, seedHash, target, number, parentHash, gasLimit, gasUsed, transactionCount,
      uncleCount, header, profit] =>
    some ⟨powHash, seedHash, target, number, parentHash, gasLimit, gasUsed, transactionCount,
      uncleCount, header, profit⟩
  | _ => none

@[simp] theorem ofFields?_fields (p : WorkPackage) : ofFields? p.fields = some p := rfl

@[simp] theorem length_fields (p : WorkPackage) : p.fields.length = fieldCount := rfl

theorem eq_fields_of_ofFields? {texts : List String} {p : WorkPackage}
    (h : ofFields? texts = some p) : texts = p.fields := by
  unfold ofFields? at h
  split at h
  · simp only [Option.some.injEq] at h
    subst h
    rfl
  · simp at h

def empty : WorkPackage := ⟨"", "", "", "", "", "", "", "", "", "", ""⟩

/-- The package whose texts are the name, a hyphen and the index. -/
def labelled (name : String) : WorkPackage :=
  let text (i : Nat) := name ++ "-" ++ toString i
  ⟨text 0, text 1, text 2, text 3, text 4, text 5, text 6, text 7, text 8, text 9, text 10⟩

def isEmpty (p : WorkPackage) : Bool := p.fields.all String.isEmpty

def field? (p : WorkPackage) (index : Nat) : Option String := p.fields[index]?

instance : Inhabited WorkPackage := ⟨empty⟩

end WorkPackage

end MinerGateway
