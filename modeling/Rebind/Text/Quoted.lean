import Rebind.Text.Basic
import Rebind.Text.Printable

/-!
# Quoted text

How a text is shown inside quotes: single quotes, unless it holds a single and no double quote; the
quote in use and the backslash are escaped, so are newline, carriage return and tab, and what does
not print is shown by its code in the shortest of the forms `\xNN`, `\uNNNN`, `\UNNNNNNNN`.
-/

namespace Rebind

def hexText (width n : Nat) : Text :=
  let digits := Nat.toDigits 16 n
  List.replicate (width - digits.length) '0' ++ digits

def quotedChar (q c : Char) : Text :=
  if c = q ∨ c = '\\' then ['\\', c]
  else if c = '\n' then ['\\', 'n']
  else if c = '\r' then ['\\', 'r']
  else if c = '\t' then ['\\', 't']
  else if isPrintable c then [c]
  else if c.toNat < 0x100 then '\\' :: 'x' :: hexText 2 c.toNat
  else if c.toNat < 0x10000 then '\\' :: 'u' :: hexText 4 c.toNat
  else '\\' :: 'U' :: hexText 8 c.toNat

def quoted (t : Text) : Text :=
  let q := if t.contains '\'' && !t.contains '"' then '"' else '\''
  q :: t.flatMap (quotedChar q) ++ [q]

end Rebind
