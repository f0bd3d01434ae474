import AlbumIndex.Text.CharClass

/-!
# Quoted texts

The form in which a message shows a path: between double quotes, with a backslash before a double
quote and before a backslash, with short names for the usual controls, and with the code point of
every other character that cannot stand by itself.  A single quote needs no backslash there.

## Main definitions

* `quotedChar` — how one character is written.
* `quoted` — a whole text between double quotes.
-/

namespace AlbumIndex
namespace Text

/-- The code point of a character in braces. -/
def codePointEscape (c : Char) : List Char :=
  ['\\', 'u', '\x7b'] ++ Nat.toDigits 16 c.toNat ++ ['\x7d']

/-- How one character is written inside quotes. -/
def quotedChar (c : Char) : List Char :=
  if c = '\x00' then ['\\', '0']
  else if c = '\t' then ['\\', 't']
  else if c = '\n' then ['\\', 'n']
  else if c = '\r' then ['\\', 'r']
  else if c = '"' || c = '\\' then ['\\', c]
  else if isUnprintable c then codePointEscape c
  else [c]

/-- The text between double quotes. -/
def quoted (text : String) : String :=
  String.ofList (['"'] ++ text.toList.flatMap quotedChar ++ ['"'])

end Text
end AlbumIndex
