import Mathlib.Data.List.TakeWhile
import MinerGateway.Json.Typed
import MinerGateway.Proofs.HexRoundTrip
import MinerGateway.Proofs.JsonStrings

/-!
Hashes, nonces and work packages as JSON.

`StringText` says that a text is one JSON string and what it denotes, `ArrayText` that it is an
array of strings and which; in both, blanks may stand between the tokens. The readers accept these
texts and no others: a string is read as a hash or a nonce as its content is
(`readFixedBytes_of_stringText`, `exists_stringText`), an array of eleven strings as a package
(`readPackage_eq_ok_iff`). The writers write such texts (`stringText_written`, `arrayText_written`),
so everything is read back from what it is written as: `json_round_trip` puts this together.

Correspondence (JSON ↔ definition):
  blanks between tokens                    ↔ `Blank`
  a string, an array of strings            ↔ `StringText`, `ArrayText`
  reading and writing a hash or a nonce    ↔ `readFixedBytes`, `writeFixedBytes`
  reading and writing a work package       ↔ `readPackage`, `writePackage`

What is assumed of JSON is its grammar as stated in these definitions and in `Json.Body`: escapes
may be written in any of the standard ways, and a surrogate without its partner denotes nothing.
-/

namespace MinerGateway.Json

/-- Nothing but characters that may stand between two tokens. -/
def Blank (text : List Char) : Prop := ∀ c ∈ text, isBlank c = true

/-- The text is one string, with blanks around it, and the string denotes this content. -/
inductive StringText : List Char → String → Prop where
  | mk {front body back : List Char} {content : String} (before : Blank front)
      (denotes : Body body content.toList)
    (behind : Blank back) : StringText (front ++ '"' :: (body ++ '"' :: back)) content

/-- What stands between the first string of an array and the closing bracket: a comma and a string
for each of the other contents, with blanks anywhere between. -/
inductive Following : List Char → List String → Prop where
  | none {gap : List Char} (h : Blank gap) : Following gap []
  | some {gap front body text : List Char} {content : String}
      {contents : List String} (before : Blank gap)
    (behind : Blank front) (denotes : Body body content.toList) (rest : Following text contents) :
    Following (gap ++ ',' :: (front ++ '"' :: (body ++ '"' :: text))) (content :: contents)

/-- The text is one array of strings, with blanks anywhere between the tokens, and these are their
contents. -/
inductive ArrayText : List Char → List String → Prop where
  | mk {front gap body text back : List Char} {content : String}
      {contents : List String} (before : Blank front)
    (inside : Blank gap) (denotes : Body body content.toList) (rest : Following text contents)
    (behind : Blank back) :
    ArrayText (front ++ '[' :: (gap ++ '"' :: (body ++ '"' :: (text ++ ']' :: back))))
      (content :: contents)

variable {text rest item front gap body : List Char} {content : String}
  {contents : List String} {c : Char} {n : Nat}

/-! ## Blanks -/

theorem blank_nil : Blank [] := fun _ => (List.not_mem_nil · |>.elim)

theorem Blank.append (h : Blank front) (h' : Blank gap) : Blank (front ++ gap) := by
  intro c there
  rcases List.mem_append.mp there with there | there
  · exact h c there
  · exact h' c there

theorem skipBlanks_append (h : Blank front) : skipBlanks (front ++ text) = skipBlanks text :=
  List.dropWhile_append_of_pos h

theorem skipBlanks_cons (h : isBlank c = false) : skipBlanks (c :: text) = c :: text :=
  List.dropWhile_cons_of_neg (by simp [h])

theorem isBlank_quote : isBlank '"' = false := by decide

theorem exists_blank (text : List Char) :
    ∃ front, Blank front ∧ text = front ++ skipBlanks text := by
  refine ⟨text.takeWhile isBlank, ?_, List.takeWhile_append_dropWhile.symm⟩
  exact fun _ there => List.mem_takeWhile_imp there

theorem readEnd_eq_ok_iff : readEnd text = .ok () ↔ Blank text := by
  unfold readEnd skipBlanks Blank
  rw [← List.dropWhile_eq_nil_iff]
  simp

/-! ## Reading one after another -/

section

variable {ε ε' α β : Type} {read : Except ε α} {next : α → Except ε β} {a : α} {b : β}

theorem bind_eq_ok_iff : read >>= next = .ok b ↔ ∃ a, read = .ok a ∧ next a = .ok b := by
  cases read <;> simp [bind, Except.bind]

theorem mapError_eq_ok_iff {f : ε → ε'} : read.mapError f = .ok a ↔ read = .ok a := by
  cases read <;> simp [Except.mapError]

end

/-! ## Strings -/

/-- **A string is read past the blanks in front of it, up to its closing quote.** -/
theorem readString_eq_ok_iff : readString text = .ok (content, rest) ↔
    ∃ front body, Blank front ∧ Body body content.toList ∧
    text = front ++ '"' :: (body ++ '"' :: rest) := by
  constructor
  · intro h
    obtain ⟨front, blank, same⟩ := exists_blank text
    unfold readString at h
    split at h
    · next body quote =>
      split at h
      · next read found =>
        cases h
        obtain ⟨body, denotes, rfl⟩ := readText_eq_some_iff.mp found
        rw [quote] at same
        exact ⟨front, body, blank, denotes, same⟩
      · cases h
    · cases h
  · rintro ⟨front, body, blank, denotes, rfl⟩
    rw [readString, skipBlanks_append blank, skipBlanks_cons isBlank_quote]
    simp only [readText_eq_some_iff.mpr ⟨body, denotes, rfl⟩]

theorem readString_quote (denotes : Body body content.toList) :
    readString ('"' :: (body ++ '"' :: rest)) = .ok (content, rest) :=
  readString_eq_ok_iff.mpr ⟨[], body, blank_nil, denotes, rfl⟩

theorem stringText_iff :
    StringText text content ↔ ∃ rest, readString text = .ok (content, rest) ∧ Blank rest := by
  constructor
  · rintro ⟨before, denotes, behind⟩
    exact ⟨_, readString_eq_ok_iff.mpr ⟨_, _, before, denotes, rfl⟩, behind⟩
  · rintro ⟨rest, read, behind⟩
    obtain ⟨front, body, before, denotes, rfl⟩ := readString_eq_ok_iff.mp read
    exact .mk before denotes behind

theorem StringText.unique {content' : String} (h : StringText text content)
    (h' : StringText text content') :
    content = content' := by
  obtain ⟨rest, read, -⟩ := stringText_iff.mp h
  obtain ⟨rest', read', -⟩ := stringText_iff.mp h'
  exact congrArg Prod.fst (Except.ok.inj (read.symm.trans read'))

/-- **A string is read as a hash or a nonce exactly as its content is**, and refused for the same
cause. -/
theorem readFixedBytes_of_stringText {s : String} (h : StringText s.toList content) :
    readFixedBytes n s = (FixedBytes.parse n content).mapError .notHex := by
  obtain ⟨rest, read, behind⟩ := stringText_iff.mp h
  rw [readFixedBytes, read]
  cases parsed : FixedBytes.parse n content with
  | error cause => simp [bind, Except.bind, Except.mapError, parsed]
  | ok value => simp [bind, Except.bind, Except.mapError, parsed,
      readEnd_eq_ok_iff.mpr behind, pure, Except.pure]

theorem exists_stringText {s : String} {value : FixedBytes n} (h : readFixedBytes n s = .ok value) :
    ∃ content, StringText s.toList content ∧ FixedBytes.parse n content = .ok value := by
  obtain ⟨⟨content, rest⟩, read, h⟩ := bind_eq_ok_iff.mp h
  obtain ⟨value', parsed, h⟩ := bind_eq_ok_iff.mp h
  obtain ⟨_, ended, h⟩ := bind_eq_ok_iff.mp h
  cases h
  have string := stringText_iff.mpr ⟨rest, read, readEnd_eq_ok_iff.mp ended⟩
  exact ⟨content, string, mapError_eq_ok_iff.mp parsed⟩

/-! ## Arrays -/

theorem nextItem_first (before : Blank front) :
    nextItem true (front ++ '"' :: text) = .ok (some ('"' :: text)) := by
  simp [nextItem, skipBlanks_append before, skipBlanks_cons isBlank_quote]

theorem nextItem_later (before : Blank gap) (behind : Blank front) :
    nextItem false (gap ++ ',' :: (front ++ '"' :: text)) = .ok (some ('"' :: text)) := by
  have comma : isBlank ',' = false := by decide
  simp [nextItem, skipBlanks_append, skipBlanks_cons, before, behind, comma, isBlank_quote]

theorem exists_of_nextItem_first (h : nextItem true text = .ok (some item)) :
    ∃ front, Blank front ∧ text = front ++ item := by
  obtain ⟨front, blank, same⟩ := exists_blank text
  unfold nextItem at h
  split at h
  · cases h
  · cases h
  · cases h
    exact ⟨front, blank, same⟩
  · contradiction
  · cases h

theorem exists_of_nextItem_later (h : nextItem false text = .ok (some item)) :
    ∃ gap front, Blank gap ∧ Blank front ∧ text = gap ++ ',' :: (front ++ item) := by
  obtain ⟨gap, before, same⟩ := exists_blank text
  unfold nextItem at h
  split at h
  · cases h
  · cases h
  · contradiction
  · next later _ comma =>
    obtain ⟨front, behind, same'⟩ := exists_blank later
    rw [comma] at same
    split at h
    · cases h
    · cases h
    · cases h
      exact ⟨gap, front, before, behind, by rw [same, ← same']⟩
  · cases h

/-- **The rest of an array is read as the grammar says.** -/
theorem readFields_eq_ok_iff (missing done : Nat) :
    readFields missing (done + 1) text = .ok (contents, rest) ↔
    contents.length = missing ∧ ∃ inner, Following inner contents ∧
    text = inner ++ ']' :: rest := by
  constructor
  · intro h
    induction missing generalizing done text contents with
    | zero =>
      obtain ⟨gap, blank, same⟩ := exists_blank text
      unfold readFields at h
      split at h
      · next bracket =>
        cases h
        rw [bracket] at same
        exact ⟨rfl, gap, .none blank, same⟩
      · cases h
    | succ missing ih =>
      obtain ⟨found, next, h⟩ := bind_eq_ok_iff.mp h
      cases found with
      | none => cases h
      | some item =>
        obtain ⟨⟨content, after⟩, read, h⟩ := bind_eq_ok_iff.mp h
        obtain ⟨⟨contents, rest'⟩, later, h⟩ := bind_eq_ok_iff.mp h
        cases h
        obtain ⟨length, inner, following, rfl⟩ := ih _ later
        obtain ⟨front', body, behind', denotes, rfl⟩ := readString_eq_ok_iff.mp read
        obtain ⟨gap, front, before, behind, rfl⟩ := exists_of_nextItem_later next
        refine ⟨congrArg Nat.succ length, _,
          .some before (behind.append behind') denotes following, ?_⟩
        simp
  · rintro ⟨rfl, inner, following, rfl⟩
    induction following generalizing done with
    | none blank =>
      have bracket : isBlank ']' = false := by decide
      simp [readFields, skipBlanks_append blank, skipBlanks_cons bracket]
    | @some gap front body text content contents before behind denotes _ ih =>
      rw [List.append_assoc, List.cons_append, List.append_assoc,
        List.cons_append, List.append_assoc, List.cons_append]
      refine bind_eq_ok_iff.mpr ⟨_, nextItem_later before behind, ?_⟩
      exact bind_eq_ok_iff.mpr ⟨_, readString_quote denotes,
        bind_eq_ok_iff.mpr ⟨_, ih (done + 1), rfl⟩⟩

/-- The items of an array that is not empty, from the character behind its opening bracket. -/
theorem readFields_zero_eq_ok_iff (missing : Nat) :
    readFields (missing + 1) 0 text = .ok (contents, rest) ↔
    ∃ gap content others body inner, contents = content :: others ∧
    others.length = missing ∧ Blank gap ∧
      Body body content.toList ∧ Following inner others ∧
      text = gap ++ '"' :: (body ++ '"' :: (inner ++ ']' :: rest)) := by
  constructor
  · intro h
    obtain ⟨found, next, h⟩ := bind_eq_ok_iff.mp h
    cases found with
    | none => cases h
    | some item =>
      obtain ⟨⟨content, after⟩, read, h⟩ := bind_eq_ok_iff.mp h
      obtain ⟨⟨others, rest'⟩, later, h⟩ := bind_eq_ok_iff.mp h
      cases h
      obtain ⟨length, inner, following, rfl⟩ := (readFields_eq_ok_iff _ 0).mp later
      obtain ⟨gap', body, inside', denotes, rfl⟩ := readString_eq_ok_iff.mp read
      obtain ⟨gap, inside, rfl⟩ := exists_of_nextItem_first next
      refine ⟨gap ++ gap', content, others, body, inner, rfl, length,
        inside.append inside', denotes, following, ?_⟩
      simp
  · rintro ⟨gap, content, others, body, inner, rfl, length, inside, denotes, following, rfl⟩
    have later : readFields missing (0 + 1) (inner ++ ']' :: rest) = .ok (others, rest) :=
      (readFields_eq_ok_iff missing 0).mpr ⟨length, inner, following, rfl⟩
    refine bind_eq_ok_iff.mpr ⟨_, nextItem_first inside, ?_⟩
    exact bind_eq_ok_iff.mpr ⟨_, readString_quote denotes, bind_eq_ok_iff.mpr ⟨_, later, rfl⟩⟩

/-- **An array of eleven strings, and nothing else, is read as the package of their contents.** -/
theorem readPackage_eq_ok_iff {s : String} {p : WorkPackage} :
    readPackage s = .ok p ↔ ArrayText s.toList p.fields := by
  constructor
  · intro h
    obtain ⟨front, before, same⟩ := exists_blank s.toList
    unfold readPackage at h
    split at h
    · next text bracket =>
      obtain ⟨⟨fields, back⟩, read, whole⟩ := bind_eq_ok_iff.mp h
      obtain ⟨_, ended, package⟩ := bind_eq_ok_iff.mp whole
      obtain ⟨gap, content, others, body, inner, rfl, -, inside, denotes, following, rfl⟩ :=
        (readFields_zero_eq_ok_iff _).mp read
      cases made : WorkPackage.ofFields? (content :: others) with
      | none => simp [made] at package
      | some found =>
        obtain rfl : found = p := by simpa [made] using package
        rw [← WorkPackage.eq_fields_of_ofFields? made, same, bracket]
        exact .mk before inside denotes following (readEnd_eq_ok_iff.mp ended)
    · cases h
  · intro h
    generalize same : s.toList = text at h
    generalize fields : p.fields = contents at h
    have bracket : isBlank '[' = false := by decide
    obtain @⟨front, gap, body, inner, back, content, others, before,
        inside, denotes, following, behind⟩ := h
    have length : others.length = 10 := by
      have eleven := WorkPackage.length_fields p
      rw [fields, List.length_cons] at eleven
      exact Nat.succ.inj eleven
    have read : readFields WorkPackage.fieldCount 0
        (gap ++ '"' :: (body ++ '"' :: (inner ++ ']' :: back)))
        = .ok (content :: others, back) :=
      (readFields_zero_eq_ok_iff 10).mpr
        ⟨gap, content, others, body, inner, rfl, length, inside, denotes, following, rfl⟩
    rw [readPackage, same, skipBlanks_append before, skipBlanks_cons bracket]
    refine bind_eq_ok_iff.mpr ⟨_, read, bind_eq_ok_iff.mpr ⟨_, readEnd_eq_ok_iff.mpr behind, ?_⟩⟩
    simp only [← fields, WorkPackage.ofFields?_fields]

/-! ## Writing -/

theorem joinItems_cons (items : List (List Char)) :
    joinItems (item :: items) = item ++ items.flatMap (',' :: ·) := by
  induction items generalizing item with
  | nil => simp [joinItems]
  | cons next items ih => simp [joinItems, ih]

theorem following_written (contents : List String) :
    Following ((contents.map writeString).flatMap (',' :: ·)) contents := by
  induction contents with
  | nil => exact .none blank_nil
  | cons content contents ih =>
    have text := Following.some blank_nil blank_nil (body_escaped content.toList) ih
    simpa [writeString] using text

/-- **A package is written as the array of its texts**, without blanks. -/
theorem arrayText_written (p : WorkPackage) : ArrayText (writePackage p).toList p.fields := by
  obtain ⟨content, contents, fields⟩ : ∃ content contents, p.fields = content :: contents :=
    ⟨_, _, rfl⟩
  have text := ArrayText.mk blank_nil blank_nil (body_escaped content.toList)
      (following_written contents) blank_nil
  rw [writePackage, String.toList_ofList, fields, List.map_cons, joinItems_cons]
  simpa [writeString] using text

/-- **A hash or a nonce is written as the string of its text.** -/
theorem stringText_written (value : FixedBytes n) :
    StringText (writeFixedBytes value).toList value.text := by
  have text := StringText.mk blank_nil (body_escaped value.text.toList) blank_nil
  rw [writeFixedBytes, String.toList_ofList]
  simpa [writeString] using text

theorem readPackage_writePackage (p : WorkPackage) : readPackage (writePackage p) = .ok p :=
  readPackage_eq_ok_iff.mpr (arrayText_written p)

theorem readFixedBytes_writeFixedBytes (value : FixedBytes n) :
    readFixedBytes n (writeFixedBytes value) = .ok value := by
  rw [readFixedBytes_of_stringText (stringText_written value), FixedBytes.parse_text]
  rfl

theorem writePackage_injective {p q : WorkPackage} (h : writePackage p = writePackage q) :
    p = q := by
  have back := readPackage_writePackage p
  rw [h, readPackage_writePackage] at back
  exact (Except.ok.inj back).symm

/-- **The JSON forms and the values determine each other.** A package is read back from the text
that it is written as, so two packages have two texts; and what is read as a package is exactly an
array of strings with its eleven texts as contents. A hash or a nonce is read back as well. A string
denotes one content, and is read as a hash or a nonce exactly as that content is, with the same
value or the same cause and message; nothing else is read as one. -/
theorem json_round_trip :
    (∀ p, readPackage (writePackage p) = .ok p) ∧
    (∀ p q, writePackage p = writePackage q → p = q) ∧
    (∀ text p, readPackage text = .ok p ↔ ArrayText text.toList p.fields) ∧
    (∀ n (value : FixedBytes n), readFixedBytes n (writeFixedBytes value) = .ok value) ∧
    (∀ text content content', StringText text content →
      StringText text content' → content = content') ∧
    (∀ n text content, StringText text.toList content →
      readFixedBytes n text = (FixedBytes.parse n content).mapError .notHex ∧
        (readFixedBytes n text).mapError ReadError.message
          = (FixedBytes.parse n content).mapError HexError.message) ∧
    (∀ n text (value : FixedBytes n), readFixedBytes n text = .ok value →
      ∃ content, StringText text.toList content ∧ FixedBytes.parse n content = .ok value) := by
  refine ⟨readPackage_writePackage, fun _ _ => writePackage_injective,
    fun _ _ => readPackage_eq_ok_iff,
    fun _ => readFixedBytes_writeFixedBytes, fun _ _ _ => StringText.unique,
    ?_, fun _ _ _ => exists_stringText⟩
  intro n text content string
  have read := readFixedBytes_of_stringText (n := n) string
  refine ⟨read, ?_⟩
  rw [read]
  cases FixedBytes.parse n content <;> rfl

/-- Texts that need escapes, and a string that is spelled with more of them than it needs: its
digits are read, and a pair of units that is no digit is refused with the first byte of the
character. -/
theorem json_round_trip_escaped :
    (let p : WorkPackage :=
        ⟨"\"", "\\", "\x00\n\x1f\x7f", "😀", "", "é", "/", "[,]", "\u2028", " ", "0"⟩;
      readPackage (writePackage p) = .ok p) ∧
    readFixedBytes 8 " \"\\u0030x00000000000000\\u0066F\"\n" = .ok (Nonce.ofUInt64 255) ∧
    readFixedBytes 8 "\"0x\\ud83d\\ude00\"" = .error (.notHex (.invalidDigit 'ð')) := by
  obtain ⟨back, -, -, -, -, strings, -⟩ := json_round_trip
  refine ⟨back _, ?_, ?_⟩
  · have string : StringText " \"\\u0030x00000000000000\\u0066F\"\n".toList "0x00000000000000fF" :=
      stringText_iff.mpr ⟨['\n'], by rfl, by simp [Blank, isBlank]⟩
    have parsed : FixedBytes.parse 8 "0x00000000000000fF" = .ok (Nonce.ofUInt64 255) := by decide
    rw [(strings 8 _ _ string).1, parsed, Except.mapError]
  · have string : StringText "\"0x\\ud83d\\ude00\"".toList "0x😀" :=
      stringText_iff.mpr ⟨[], by rfl, blank_nil⟩
    have parsed : FixedBytes.parse 8 "0x😀" = .error (.invalidDigit 'ð') := by decide
    rw [(strings 8 _ _ string).1, parsed, Except.mapError]

end MinerGateway.Json
