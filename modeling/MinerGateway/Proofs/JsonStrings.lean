import MinerGateway.Json.Text
import MinerGateway.Proofs.QuantityCodec

/-!
The grammar of JSON strings, and that the reader and the writer of strings keep to it.

A string stands between two quotes. Its body spells one character after another (`Body`), and a
character may be spelled in several ways (`Spelling`): as itself, by a backslash and a mark, or by
one or two UTF-16 units of four hexadecimal digits. The reader first breaks the body into characters
and units (`Breaks`) and then joins the units, which comes to the same (`body_iff_breaks`): it
accepts exactly the bodies of the grammar and finds the text that they denote
(`readText_eq_some_iff`). The writer spells every character (`body_escaped`).

Two readings meet here because a pair of units may be split by nothing else: `Body` says what a body
denotes character by character, `Breaks` what its pieces are without looking at their neighbours.
The second is all that a reader needs who skips a string, the first what one needs who wants its
text.
-/

namespace MinerGateway.Json

/-- What a backslash and a mark stand for. -/
def shortEscapes : List (Char × Char) :=
  [('"', '"'), ('\\', '\\'), ('/', '/'), ('b', '\x08'), ('f', '\x0c'),
    ('n', '\n'), ('r', '\r'), ('t', '\t')]

/-- The character may stand for itself inside a string. -/
def Plain (c : Char) : Prop := c ≠ '"' ∧ c ≠ '\\' ∧ ' ' ≤ c

/-- Four hexadecimal digits of the UTF-16 unit `n`. -/
def UnitDigits (digits : List Char) (n : Nat) : Prop := digits.length = 4 ∧ Hex.Amounts digits n

/-- How a character may be spelled inside a string. A character is no surrogate, so a single unit is
none. -/
inductive Spelling : List Char → Char → Prop where
  | plain {c : Char} (h : Plain c) : Spelling [c] c
  | short {mark c : Char} (h : (mark, c) ∈ shortEscapes) : Spelling ['\\', mark] c
  | unit {digits : List Char} {c : Char} (h : UnitDigits digits c.toNat) :
      Spelling ('\\' :: 'u' :: digits) c
  | pair {first second : List Char} {high low : Nat} {c : Char} (h : UnitDigits first high)
    (h' : UnitDigits second low) (leads : 0xD800 ≤ high ∧ high ≤ 0xDBFF)
    (trails : 0xDC00 ≤ low ∧ low ≤ 0xDFFF)
    (value : c.toNat = 0x10000 + 0x400 * (high - 0xD800) + (low - 0xDC00)) :
    Spelling ('\\' :: 'u' :: first ++ '\\' :: 'u' :: second) c

/-- The body of a string and the text that it denotes. -/
inductive Body : List Char → List Char → Prop where
  | nil : Body [] []
  | cons {spelling body text : List Char} {c : Char} (first : Spelling spelling c)
      (rest : Body body text) :
    Body (spelling ++ body) (c :: text)

/-- The pieces that a body consists of, its units not yet joined. -/
inductive Breaks : List Char → List Piece → Prop where
  | nil : Breaks [] []
  | plain {c : Char} {body : List Char} {pieces : List Piece}
      (h : Plain c) (rest : Breaks body pieces) :
    Breaks (c :: body) (.char c :: pieces)
  | short {mark c : Char} {body : List Char} {pieces : List Piece} (h : (mark, c) ∈ shortEscapes)
    (rest : Breaks body pieces) : Breaks ('\\' :: mark :: body) (.char c :: pieces)
  | unit {digits body : List Char} {n : Nat} {pieces : List Piece} (h : UnitDigits digits n)
    (rest : Breaks body pieces) : Breaks ('\\' :: 'u' :: (digits ++ body)) (.unit n :: pieces)

variable {body text rest digits : List Char} {pieces : List Piece}
  {mark c : Char} {n high low : Nat}

/-! ## Escapes -/

theorem unescape?_eq_some_iff : unescape? mark = some c ↔ (mark, c) ∈ shortEscapes := by
  constructor
  · intro h
    unfold unescape? at h
    split at h <;> cases h <;> decide
  · intro h
    have all : ∀ pair ∈ shortEscapes, unescape? pair.1 = some pair.2 := by decide
    exact all _ h

theorem UnitDigits.eq_four (h : UnitDigits digits n) : ∃ a b c d, digits = [a, b, c, d] := by
  obtain ⟨four, -⟩ := h
  match digits, four with
  | [a, b, c, d], _ => exact ⟨a, b, c, d, rfl⟩

theorem UnitDigits.lt (h : UnitDigits digits n) : n < 0x10000 := by
  obtain ⟨n', bound, amounts⟩ := Hex.exists_amounts h.2.allDigits
  obtain rfl : n' = n := amounts.valueOf.symm.trans h.2.valueOf
  rwa [h.1] at bound

theorem unitOf?_eq_some_iff {a b c d : Char} :
    unitOf? a b c d = some n ↔ UnitDigits [a, b, c, d] n := by
  unfold unitOf?
  constructor
  · intro h
    split at h
    · next all =>
      obtain ⟨n', -, amounts⟩ := Hex.exists_amounts (List.all_eq_true.mp all)
      obtain rfl : n' = n := amounts.valueOf.symm.trans (Option.some.inj h)
      exact ⟨rfl, amounts⟩
    · cases h
  · rintro ⟨-, amounts⟩
    rw [if_pos (List.all_eq_true.mpr amounts.allDigits), amounts.valueOf]

/-! ## Breaking a body into pieces -/

def Piece.before (piece : Piece) (read : List Piece × List Char) : List Piece × List Char :=
  (piece :: read.1, read.2)

theorem readPieces_plain (h : Plain c) :
    readPieces (c :: text) = (readPieces text).map (Piece.char c).before := by
  obtain ⟨quote, backslash, visible⟩ := h
  have shown : ¬(c = '\\' ∨ c < ' ') := not_or.mpr ⟨backslash, Char.not_lt.mpr visible⟩
  rw [readPieces, if_neg shown, Option.map_eq_bind]
  · rfl
  · exact quote
  · exact fun _ _ _ _ _ same => absurd same backslash
  · exact fun _ _ same => absurd same backslash

theorem readPieces_short (h : (mark, c) ∈ shortEscapes) :
    readPieces ('\\' :: mark :: text) = (readPieces text).map (Piece.char c).before := by
  have escaped := unescape?_eq_some_iff.mpr h
  have other : mark ≠ 'u' := by
    rintro rfl
    cases escaped
  rw [readPieces, escaped, Option.map_eq_bind]
  · rfl
  · exact fun _ _ _ _ _ same => absurd same other

theorem readPieces_unit (h : UnitDigits digits n) :
    readPieces ('\\' :: 'u' :: (digits ++ text)) = (readPieces text).map (Piece.unit n).before := by
  obtain ⟨a, b, c, d, rfl⟩ := h.eq_four
  have four : readPieces ('\\' :: 'u' :: ([a, b, c, d] ++ text))
      = (unitOf? a b c d).bind fun n => (readPieces text).map (Piece.unit n).before := by
    simp only [List.cons_append, List.nil_append, readPieces, Option.map_eq_bind]
    rfl
  rw [four, unitOf?_eq_some_iff.mpr h, Option.bind_some]

theorem readPieces_of_breaks (h : Breaks body pieces) (rest : List Char) :
    readPieces (body ++ '"' :: rest) = some (pieces, rest) := by
  induction h with
  | nil => exact readPieces.eq_2 rest
  | plain h _ ih => rw [List.cons_append, readPieces_plain h, ih, Option.map_some, Piece.before]
  | short h _ ih =>
    rw [List.cons_append, List.cons_append, readPieces_short h, ih, Option.map_some, Piece.before]
  | unit h _ ih =>
    rw [List.cons_append, List.cons_append, List.append_assoc,
      readPieces_unit h, ih, Option.map_some, Piece.before]

theorem breaks_of_readPieces (h : readPieces text = some (pieces, rest)) :
    ∃ body, Breaks body pieces ∧ text = body ++ '"' :: rest := by
  fun_induction readPieces text generalizing pieces with
  | case1 => cases h
  | case2 =>
    cases h
    exact ⟨[], .nil, rfl⟩
  | case3 a b c d text ih =>
    obtain ⟨n, unit, h⟩ := Option.bind_eq_some_iff.mp h
    obtain ⟨⟨later, rest'⟩, read, h⟩ := Option.bind_eq_some_iff.mp h
    cases h
    obtain ⟨body, breaks, rfl⟩ := ih read
    exact ⟨_, .unit (unitOf?_eq_some_iff.mp unit) breaks, rfl⟩
  | case4 mark text _ ih =>
    obtain ⟨c, escaped, h⟩ := Option.bind_eq_some_iff.mp h
    obtain ⟨⟨later, rest'⟩, read, h⟩ := Option.bind_eq_some_iff.mp h
    cases h
    obtain ⟨body, breaks, rfl⟩ := ih read
    exact ⟨_, .short (unescape?_eq_some_iff.mp escaped) breaks, rfl⟩
  | case5 => cases h
  | case6 c text quote _ _ shown ih =>
    obtain ⟨⟨later, rest'⟩, read, h⟩ := Option.bind_eq_some_iff.mp h
    cases h
    obtain ⟨body, breaks, rfl⟩ := ih read
    obtain ⟨backslash, visible⟩ := not_or.mp shown
    exact ⟨_, .plain ⟨quote, backslash, Char.not_lt.mp visible⟩ breaks, rfl⟩

/-! ## Joining the units -/

/-- The numbers between the two halves of the characters belong to surrogates. -/
theorem isValidChar_iff (small : n < 0x110000) :
    n.isValidChar ↔ isHighSurrogate n = false ∧ isLowSurrogate n = false := by
  have valid : n.isValidChar ↔ n < 0xD800 ∨ 0xDFFF < n ∧ n < 0x110000 := Iff.rfl
  simp only [valid, isHighSurrogate, isLowSurrogate, Bool.and_eq_false_iff, decide_eq_false_iff_not]
  omega

theorem lt_of_isValidChar (valid : n.isValidChar) : n < 0x110000 := by
  rcases valid with small | ⟨-, bound⟩
  · omega
  · exact bound

theorem toNat_ofNat (valid : n.isValidChar) : (Char.ofNat n).toNat = n := by
  rw [Char.ofNat, dif_pos valid]
  rfl

theorem joinPieces_unit (c : Char) (pieces : List Piece) :
    joinPieces (.unit c.toNat :: pieces) = (joinPieces pieces).map (c :: ·) := by
  have valid : c.toNat.isValidChar := c.valid
  obtain ⟨high, low⟩ := (isValidChar_iff (lt_of_isValidChar valid)).mp valid
  match pieces with
  | [] | .char _ :: _ | .unit _ :: _ => simp [joinPieces, high, low, Char.ofNat_toNat]

theorem joinPieces_pair (leads : 0xD800 ≤ high ∧ high ≤ 0xDBFF)
    (trails : 0xDC00 ≤ low ∧ low ≤ 0xDFFF)
    (value : c.toNat = 0x10000 + 0x400 * (high - 0xD800) + (low - 0xDC00)) (pieces : List Piece) :
    joinPieces (.unit high :: .unit low :: pieces) = (joinPieces pieces).map (c :: ·) := by
  have first : isHighSurrogate high = true := by simp [isHighSurrogate, leads]
  have second : isLowSurrogate low = true := by simp [isLowSurrogate, trails]
  rw [joinPieces, if_pos first, if_pos second, ← value, Char.ofNat_toNat]

/-- The pieces of a body denote what the body does. -/
theorem exists_breaks (h : Body body text) :
    ∃ pieces, Breaks body pieces ∧ joinPieces pieces = some text := by
  induction h with
  | nil => exact ⟨[], .nil, rfl⟩
  | cons first _ ih =>
    obtain ⟨pieces, breaks, join⟩ := ih
    cases first with
    | plain h => exact ⟨_, .plain h breaks, by rw [joinPieces, join, Option.map_some]⟩
    | short h => exact ⟨_, .short h breaks, by rw [joinPieces, join, Option.map_some]⟩
    | unit h => exact ⟨_, .unit h breaks, by rw [joinPieces_unit, join, Option.map_some]⟩
    | pair h h' leads trails value =>
      refine ⟨_, ?_, (joinPieces_pair leads trails value pieces).trans
        (by rw [join, Option.map_some])⟩
      rw [List.cons_append, List.cons_append, List.append_assoc]
      exact .unit h (.unit h' breaks)

theorem Body.unit (h : UnitDigits digits n) (first : ¬isHighSurrogate n = true)
    (second : ¬isLowSurrogate n = true)
    (rest : Body body text) : Body ('\\' :: 'u' :: (digits ++ body)) (Char.ofNat n :: text) := by
  have bound := h.lt
  have valid := (isValidChar_iff (n := n) (by omega)).mpr ⟨eq_false_of_ne_true first,
      eq_false_of_ne_true second⟩
  rw [← toNat_ofNat valid] at h
  exact .cons (.unit h) rest

/-- Pieces that denote a text are those of a body that does. -/
theorem body_of_joinPieces (breaks : Breaks body pieces) (h : joinPieces pieces = some text) :
    Body body text := by
  fun_induction joinPieces pieces generalizing body text with
  | case1 =>
    cases breaks
    cases h
    exact .nil
  | case2 c pieces ih =>
    obtain ⟨text, join, rfl⟩ := Option.map_eq_some_iff.mp h
    cases breaks with
    | plain h rest => exact .cons (.plain h) (ih rest join)
    | short h rest => exact .cons (.short h) (ih rest join)
  | case3 high low pieces first second ih =>
    obtain ⟨text, join, rfl⟩ := Option.map_eq_some_iff.mp h
    cases breaks with
    | unit h rest => cases rest with
      | unit h' rest =>
        simp only [isHighSurrogate, isLowSurrogate, Bool.and_eq_true,
          decide_eq_true_eq] at first second
        have whole := toNat_ofNat (n := 0x10000 + 0x400 * (high - 0xD800) + (low - 0xDC00))
            (.inr (by omega))
        have spelled := Body.cons (.pair h h' first second whole) (ih rest join)
        rwa [List.cons_append, List.cons_append, List.append_assoc] at spelled
  | case4 => cases h
  | case5 => cases h
  | case6 high low pieces first second ih =>
    obtain ⟨text, join, rfl⟩ := Option.map_eq_some_iff.mp h
    cases breaks with
    | unit h rest => exact Body.unit h first second (ih rest join)
  | case7 => cases h
  | case8 n pieces _ single ih =>
    obtain ⟨text, join, rfl⟩ := Option.map_eq_some_iff.mp h
    obtain ⟨first, second⟩ := not_or.mp (mt (Bool.or_eq_true ..).mpr single)
    cases breaks with
    | unit h rest => exact Body.unit h first second (ih rest join)

/-- **A body denotes what its pieces denote once the units are joined.** -/
theorem body_iff_breaks :
    Body body text ↔ ∃ pieces, Breaks body pieces ∧ joinPieces pieces = some text := by
  constructor
  · exact exists_breaks
  · rintro ⟨pieces, breaks, join⟩
    exact body_of_joinPieces breaks join

/-- **The reader accepts the bodies of the grammar and finds the text that they denote.** -/
theorem readText_eq_some_iff {content : String} :
    readText text = some (content, rest) ↔ ∃ body, Body body content.toList ∧
    text = body ++ '"' :: rest := by
  constructor
  · intro h
    obtain ⟨⟨pieces, rest'⟩, read, h⟩ := Option.bind_eq_some_iff.mp h
    obtain ⟨content', join, h⟩ := Option.bind_eq_some_iff.mp h
    cases h
    obtain ⟨text', joined, rfl⟩ := Option.map_eq_some_iff.mp join
    obtain ⟨body, breaks, rfl⟩ := breaks_of_readPieces read
    rw [String.toList_ofList]
    exact ⟨body, body_iff_breaks.mpr ⟨pieces, breaks, joined⟩, rfl⟩
  · rintro ⟨body, denotes, rfl⟩
    obtain ⟨pieces, breaks, join⟩ := body_iff_breaks.mp denotes
    simp [readText, textOf?, readPieces_of_breaks breaks, join, String.ofList_toList]

/-! ## Writing -/

theorem unitDigits_of_small (small : n < 256) :
    UnitDigits ['0', '0', Nat.digitChar (n / 16), Nat.digitChar (n % 16)] n := by
  have zero : Hex.digitValue? '0' = some 0 := by decide
  have high : Hex.digitValue? (Nat.digitChar (n / 16)) = some (n / 16) :=
    Hex.digitValue?_digitChar (by omega)
  have low : Hex.digitValue? (Nat.digitChar (n % 16)) = some (n % 16) :=
    Hex.digitValue?_digitChar (by omega)
  have amounts := Hex.Amounts.cons zero (.cons zero (.cons high (.cons low .nil)))
  refine ⟨rfl, ?_⟩
  convert amounts using 1
  simp only [List.length_cons, List.length_nil]
  omega

theorem spelling_escapeChar (c : Char) : Spelling (escapeChar c) c := by
  unfold escapeChar
  -- First the seven characters with a mark, then the other controls.
  iterate 7
    split
    · next same => exact .short (by simp [same, shortEscapes])
  split
  · next control =>
    have small : c.toNat < 32 := control
    exact .unit (unitDigits_of_small (by omega))
  · next quote backslash _ _ _ _ _ control =>
      exact .plain ⟨quote, backslash, Char.not_lt.mp control⟩

/-- **What is written between the quotes spells the text.** -/
theorem body_escaped (text : List Char) : Body (text.flatMap escapeChar) text := by
  induction text with
  | nil => exact .nil
  | cons c text ih => exact .cons (spelling_escapeChar c) ih

end MinerGateway.Json
