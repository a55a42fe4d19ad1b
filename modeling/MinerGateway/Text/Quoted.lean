import MinerGateway.Text.CharClass

/-!
Characters and texts in quotes, as error messages show them.

Inside quotes the characters NUL, tab, carriage return and line feed, the backslash and the quote
in use are written with a backslash. A character that attaches to its neighbour or leaves no mark is
written as its code point in hexadecimal between braces. Everything else stands for itself, so a
message never holds a character that a reader cannot see.
-/

namespace MinerGateway.Text

/-- The code point of `c` in hexadecimal: `\u`, then the digits between braces. -/
def codePointEscape (c : Char) : List Char :=
  ['\\', 'u', '\x7b'] ++ Nat.toDigits 16 c.toNat ++ ['\x7d']

/-- How `c` is written between two marks `quote`. -/
def escapeChar (quote c : Char) : List Char :=
  if c = '\x00' then ['\\', '0']
  else if c = '\t' then ['\\', 't']
  else if c = '\r' then ['\\', 'r']
  else if c = '\n' then ['\\', 'n']
  else if c = quote ∨ c = '\\' then ['\\', c]
  else if isCombining c || isUnprintable c then codePointEscape c
  else [c]

def quoteChar (c : Char) : String :=
  String.ofList ('\'' :: escapeChar '\'' c ++ ['\''])

def quoteText (text : String) : String :=
  String.ofList ('"' :: text.toList.flatMap (escapeChar '"') ++ ['"'])

end MinerGateway.Text
