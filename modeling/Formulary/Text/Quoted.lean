import Formulary.Text.Printable

/-!
# Quoted text

Text between quotes, on one line and in printable characters. The quote is `'`, or `"` if the text
has a `'` and no `"`. The quote, the backslash, line ends and tabs are escaped with a backslash;
any other character that is not printable is written as its code point in two, four or eight
hexadecimal digits.
-/

namespace Formulary.Text

/-- Lower-case hexadecimal digits, padded with zeros to a width. -/
def hexDigits (width n : Nat) : List Char :=
  let digits := Nat.toDigits 16 n
  List.replicate (width - digits.length) '0' ++ digits

/-- The quote character that a text is put in. -/
def quoteFor (text : List Char) : Char :=
  if '\'' ∈ text ∧ '"' ∉ text then '"' else '\''

/-- One character inside the given quotes. -/
def escape (quote c : Char) : List Char :=
  if c = quote ∨ c = '\\' then ['\\', c]
  else if c = '\n' then ['\\', 'n']
  else if c = '\r' then ['\\', 'r']
  else if c = '\t' then ['\\', 't']
  else if isPrintable c then [c]
  else if c.toNat < 0x100 then '\\' :: 'x' :: hexDigits 2 c.toNat
  else if c.toNat < 0x10000 then '\\' :: 'u' :: hexDigits 4 c.toNat
  else '\\' :: 'U' :: hexDigits 8 c.toNat

/-- A text in quotes. -/
def quoted (text : String) : String :=
  let chars := text.toList
  let quote := quoteFor chars
  String.ofList (quote :: (chars.flatMap (escape quote) ++ [quote]))

/-- A text of plain printable characters is only put between single quotes. -/
theorem escape_of_isPrintable {c : Char} (h : isPrintable c = true) (h1 : c ≠ '\'') (h2 : c ≠ '\\')
    (hn : c ≠ '\n') (hr : c ≠ '\r') (ht : c ≠ '\t') : escape '\'' c = [c] := by
  simp [escape, h, h1, h2, hn, hr, ht]

end Formulary.Text
