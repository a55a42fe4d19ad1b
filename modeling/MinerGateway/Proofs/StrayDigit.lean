import MinerGateway.Proofs.ByteCodec
import MinerGateway.Proofs.QuantityCodec
import MinerGateway.Proofs.RpcMethods

/-!
Which character a refusal complains about.

A text may be refused because some character behind its mark is no digit (`StrayOf` is the first of
these). Of a quantity the refusal names that character. Of a byte string it names the first byte of
it (`NamesLead`), which is the character itself if it is ASCII; of nearly every other character it
is one that need not be in the text at all (`byteString_misnames`). `stray_digit_named` says this
for both readers, for hashes and nonces, and for the parameters of the JSON-RPC methods, whose
refusals are those of the readers (`Rpc.mem_solutionFaults`, `Rpc.mem_rateFaults`).

What is proved (`stray_digit_named`), of every refusal for a stray digit:
  1. of a quantity, the character that is named is the stray itself;
  2. of a byte string, a hash, a nonce or a digest, it stands for the first byte of the stray, and
     is the stray exactly if that is ASCII or U+00C3;
  3. a call that is refused for such a cause names a parameter, and the two cases above say what
     the character is to the text of that parameter (`Rpc.BlamesSolution`, `Rpc.BlamesReport`).
-/

namespace MinerGateway

namespace Hex

/-- The character is the first behind the mark of the text that is no digit. -/
def StrayOf (text : String) (c : Char) : Prop := ∃ row, Marked text row ∧ FirstStray row c

/-- The character stands for the first byte of the text's stray, and so it is the stray itself
exactly if that is ASCII, or U+00C3, whose first byte is its own number. -/
def NamesLead (text : String) (c : Char) : Prop :=
  ∃ stray, StrayOf text stray ∧ c = lead stray ∧
    (StrayOf text c ↔ stray.toNat < 128 ∨ stray = '\u00c3')

variable {text : String} {c d : Char}

theorem StrayOf.unique (h : StrayOf text c) (h' : StrayOf text d) : c = d := by
  obtain ⟨row, marked, stray⟩ := h
  obtain ⟨row', marked', stray'⟩ := h'
  obtain rfl := marked.unique marked'
  have found := find?_eq_some_of_firstStray stray
  rw [find?_eq_some_of_firstStray stray'] at found
  exact (Option.some.inj found).symm

theorem namesLead_lead (h : StrayOf text d) : NamesLead text (lead d) := by
  refine ⟨d, h, rfl, ?_⟩
  rw [← lead_eq_self_iff]
  constructor
  · intro named
    exact named.unique h
  · intro same
    rw [same]
    exact h

theorem strayOf_decodeQuantity (refused : decodeQuantity text = .error (.invalidDigit c)) :
    StrayOf text c := by
  cases decodeQuantity_eq_iff.mp refused with
  | stray marked _ stray => exact ⟨_, marked, stray⟩

/-- Of a byte string, the first byte of the stray is named. -/
theorem namesLead_decode (refused : decode text = .error (.invalidDigit c)) : NamesLead text c := by
  cases decode_eq_iff.mp refused with
  | stray marked _ stray => exact namesLead_lead ⟨_, marked, stray⟩

theorem namesLead_parse {n : Nat} (refused : FixedBytes.parse n text = .error (.invalidDigit c)) :
    NamesLead text c := by
  cases read : decode text with
  | error cause =>
    rw [parse_of_decode_error n read] at refused
    obtain rfl := Except.error.inj refused
    exact namesLead_decode read
  | ok bytes =>
    rw [parse_of_decode_ok n read] at refused
    split at refused <;> cases refused

end Hex

namespace Rpc

variable {nonce hash digest rate id name : String} {extraNonce : Option String} {cause : HexError}

theorem mem_faults {α : Type} {own : String} {read : Except HexError α} :
    (name, cause) ∈ faults own read ↔ name = own ∧ read = .error cause := by
  cases read <;> simp [faults, eq_comm]

theorem eq_ok_of_faults {α : Type} {own : String} {read : Except HexError α}
    (none : faults own read = []) :
    ∃ a, read = .ok a := by
  cases read with
  | ok a => exact ⟨a, rfl⟩
  | error cause => cases none

theorem mem_solutionFaults
    (refused : submitWork nonce hash digest extraNonce = .error (.invalidParam name cause)) :
    (name, cause) ∈ solutionFaults nonce hash digest := by
  cases faulty : (solutionFaults nonce hash digest).head? with
  | some fault =>
    obtain ⟨name', cause'⟩ := fault
    rw [submitWork_eq_error extraNonce faulty] at refused
    obtain ⟨rfl, rfl⟩ := Failure.invalidParam.inj (Except.error.inj refused)
    exact List.mem_of_head? faulty
  | none =>
    have sound := List.head?_eq_none_iff.mp faulty
    obtain ⟨nonces, others⟩ := List.append_eq_nil_iff.mp sound
    obtain ⟨hashes, digests⟩ := List.append_eq_nil_iff.mp others
    obtain ⟨n, hn⟩ := eq_ok_of_faults nonces
    obtain ⟨h, hh⟩ := eq_ok_of_faults hashes
    obtain ⟨d, hd⟩ := eq_ok_of_faults digests
    rw [submitWork_eq_ok extraNonce hn hh hd] at refused
    cases refused

theorem mem_rateFaults (refused : submitHashrate rate id = .error (.invalidParam name cause)) :
    (name, cause) ∈ rateFaults rate id := by
  cases faulty : (rateFaults rate id).head? with
  | some fault =>
    obtain ⟨name', cause'⟩ := fault
    rw [submitHashrate_eq_error faulty] at refused
    obtain ⟨rfl, rfl⟩ := Failure.invalidParam.inj (Except.error.inj refused)
    exact List.mem_of_head? faulty
  | none =>
    have sound := List.head?_eq_none_iff.mp faulty
    obtain ⟨rates, ids⟩ := List.append_eq_nil_iff.mp sound
    obtain ⟨r, hr⟩ := eq_ok_of_faults rates
    obtain ⟨i, hi⟩ := eq_ok_of_faults ids
    rw [submitHashrate_eq_ok hr hi] at refused
    cases refused

/-- What a refusal of a solution says about the parameter of this name. -/
def BlamesSolution (nonce hash digest name : String) (c : Char) : Prop :=
  ∃ text, (name, text) ∈ [("nonce", nonce), ("hash", hash), ("digest", digest)] ∧
    Hex.NamesLead text c

/-- What a refusal of a reported hash rate says about the parameter of this name. -/
def BlamesReport (rate id name : String) (c : Char) : Prop :=
  name = "rate" ∧ Hex.StrayOf rate c ∨ name = "id" ∧ Hex.NamesLead id c

variable {c : Char}

theorem blamesSolution
    (refused : submitWork nonce hash digest extraNonce
      = .error (.invalidParam name (.invalidDigit c))) :
    BlamesSolution nonce hash digest name c := by
  have fault := mem_solutionFaults refused
  simp only [solutionFaults, List.mem_append, mem_faults] at fault
  rcases fault with ⟨rfl, malformed⟩ | ⟨rfl, malformed⟩ | ⟨rfl, malformed⟩
  · exact ⟨nonce, by simp, Hex.namesLead_parse malformed⟩
  · exact ⟨hash, by simp, Hex.namesLead_parse malformed⟩
  · exact ⟨digest, by simp, Hex.namesLead_parse malformed⟩

theorem blamesReport
    (refused : submitHashrate rate id = .error (.invalidParam name (.invalidDigit c))) :
    BlamesReport rate id name c := by
  have fault := mem_rateFaults refused
  simp only [rateFaults, List.mem_append, mem_faults] at fault
  rcases fault with ⟨rfl, malformed⟩ | ⟨rfl, malformed⟩
  · exact .inl ⟨rfl, Hex.strayOf_decodeQuantity malformed⟩
  · exact .inr ⟨rfl, Hex.namesLead_parse malformed⟩

theorem eq_error_of_map {α β : Type} {f : α → β} {made : Except Failure α} {failure : Failure}
    (refused : made.map f = .error failure) : made = .error failure := by
  cases made with
  | ok => cases refused
  | error => exact congrArg Except.error (Except.error.inj refused)

/-- A call is refused for a malformed parameter only if it is one of the two that have any. -/
theorem Call.invocation_invalidParam {call : Call}
    (refused : call.invocation = .error (.invalidParam name cause)) :
    (∃ nonce hash digest extraNonce, submitWorkTexts? call.params
      = some (nonce, hash, digest, extraNonce) ∧
        submitWork nonce hash digest extraNonce = .error (.invalidParam name cause)) ∨
      ∃ rate id, submitHashrateTexts? call.params = some (rate, id) ∧
        submitHashrate rate id = .error (.invalidParam name cause) := by
  unfold Call.invocation at refused
  split at refused
  · cases refused
  · cases refused
  · split at refused
    · next nonce hash digest extraNonce texts =>
      exact .inl ⟨nonce, hash, digest, extraNonce, texts, eq_error_of_map refused⟩
    · cases refused
  · split at refused
    · next rate id texts =>
      exact .inr ⟨rate, id, texts, eq_error_of_map refused⟩
    · cases refused
  · cases refused

end Rpc

namespace Hex

/-- **A refusal names the first character that is no digit**, of a quantity always, and of a byte
string, so of a hash, a nonce, a digest or an id as well, if that character is ASCII: else it names
its first byte. -/
theorem stray_digit_named (text : String) (c : Char) :
    (decodeQuantity text = .error (.invalidDigit c) → StrayOf text c) ∧
    (decode text = .error (.invalidDigit c) → NamesLead text c) ∧
    (∀ n, FixedBytes.parse n text = .error (.invalidDigit c) → NamesLead text c) ∧
    ∀ (call : Rpc.Call) name, call.invocation = .error (.invalidParam name (.invalidDigit c)) →
      (∃ nonce hash digest extraNonce,
        Rpc.submitWorkTexts? call.params = some (nonce, hash, digest, extraNonce) ∧
        Rpc.BlamesSolution nonce hash digest name c) ∨
      ∃ rate id, Rpc.submitHashrateTexts? call.params = some (rate, id) ∧
      Rpc.BlamesReport rate id name c := by
  refine ⟨strayOf_decodeQuantity, namesLead_decode, fun _ => namesLead_parse, ?_⟩
  intro call name refused
  rcases Rpc.Call.invocation_invalidParam refused with
    ⟨nonce, hash, digest, extraNonce, texts, refused⟩ | ⟨rate, id, texts, refused⟩
  · exact .inl ⟨nonce, hash, digest, extraNonce, texts, Rpc.blamesSolution refused⟩
  · exact .inr ⟨rate, id, texts, Rpc.blamesReport refused⟩

/-- A rate with a letter beyond ASCII is refused for that letter. -/
def accented : Rpc.Call where
  id := .number 3
  method := "eth_submitHashrate"
  params := some (.array [.string "0x1\u00e9", .string Hash.zero.text])

theorem stray_digit_named_accented :
    accented.invocation = .error (.invalidParam "rate" (.invalidDigit '\u00e9')) ∧
      Rpc.BlamesReport "0x1\u00e9" Hash.zero.text "rate" '\u00e9' ∧
      decodeQuantity "0x1\u00e9" = .error (.invalidDigit '\u00e9') ∧ StrayOf "0x1\u00e9" '\u00e9' ∧
      decode "0x1\u00e9g" = .error (.invalidDigit '\u00c3') ∧ NamesLead "0x1\u00e9g" '\u00c3' := by
  obtain ⟨quantities, -, -, calls⟩ := stray_digit_named "0x1\u00e9" '\u00e9'
  obtain ⟨-, byteStrings, -, -⟩ := stray_digit_named "0x1\u00e9g" '\u00c3'
  have refused : accented.invocation
      = .error (.invalidParam "rate" (.invalidDigit '\u00e9')) := by rfl
  have quantity : decodeQuantity "0x1\u00e9" = .error (.invalidDigit '\u00e9') := by rfl
  have byteString : decode "0x1\u00e9g" = .error (.invalidDigit '\u00c3') := by rfl
  refine ⟨refused, ?_, quantity, quantities quantity, byteString, byteStrings byteString⟩
  rcases calls accented _ refused with ⟨_, _, _, _, texts, -⟩ | ⟨rate, id, texts, blames⟩
  · cases texts
  · obtain ⟨rfl, rfl⟩ := Prod.mk.inj (Option.some.inj texts)
    exact blames

/-- **Of a byte string, the character that is named need not be in the text.** Here a letter beyond
ASCII stands behind the mark, and the refusal names the one whose number is the first byte of that
letter. -/
theorem byteString_misnames :
    ¬∀ text c, decode text = .error (.invalidDigit c) → StrayOf text c := by
  intro named
  have refused : decode "0x\u00e9" = .error (.invalidDigit '\u00c3') := by rfl
  have stray : StrayOf "0x\u00e9" '\u00e9' :=
    ⟨['\u00e9'], .inl rfl, firstStray_cons.mpr (.inl ⟨rfl, rfl⟩)⟩
  have same : '\u00c3' = '\u00e9' := (named _ _ refused).unique stray
  exact absurd same (by decide)

end Hex

end MinerGateway
