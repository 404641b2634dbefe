/-!
# Blank characters

The white space of source text: the ASCII controls from tab to carriage return, the four information
separators, the plain space, the next-line and no-break characters and the Unicode spaces and
separators.  Trimming, blank lines and every pattern that speaks of white space use this one class.
-/

namespace Rebind

def isBlank (c : Char) : Bool :=
  let n := c.toNat
  if n < 128 then n == 32 || (9 ≤ n && n ≤ 13) || (28 ≤ n && n ≤ 31)
  else n == 0x85 || n == 0xA0 || n == 0x1680 || (0x2000 ≤ n && n ≤ 0x200A)
    || n == 0x2028 || n == 0x2029 || n == 0x202F || n == 0x205F || n == 0x3000

theorem isBlank_space : isBlank ' ' = true := by decide

theorem isBlank_newline : isBlank '\n' = true := by decide

end Rebind
