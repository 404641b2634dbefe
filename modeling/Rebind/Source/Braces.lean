import Rebind.Text.Basic

/-!
# Braces

`closingBrace d t` is the offset of the first closing brace of `t` at which the count of opening
less closing braces, started at `d`, is zero.  With `d = 1` it closes a block whose opening brace
stands just before `t`; with `d = 0` it closes the first block that `t` opens, if no brace closes
more than was opened before.

Scanners that respect literals and comments look at a masked text instead: `maskQuotes` and
`maskInert` replace what stands inside by blanks and keep every offset.
-/

namespace Rebind

/-- the work of `closingBrace`, `i` characters on -/
def closingBraceFrom (i : Nat) (d : Int) : Text → Option Nat
  | [] => none
  | c :: t =>
    if c = '\x7b' then closingBraceFrom (i + 1) (d + 1) t
    else if c = '\x7d' then
      if d - 1 = 0 then some i else closingBraceFrom (i + 1) (d - 1) t
    else closingBraceFrom (i + 1) d t

def closingBrace (d : Int) (t : Text) : Option Nat := closingBraceFrom 0 d t

/-- the work of `blockEnd`, `i` characters on -/
def blockEndFrom (i : Nat) (d : Int) : Text → Option Nat
  | [] => none
  | c :: t =>
    if c = '\x7b' then blockEndFrom (i + 1) (d + 1) t
    else if c = '\x7d' then
      if d - 1 = 0 then some (i + 1)
      else if d - 1 < 0 then some i
      else blockEndFrom (i + 1) (d - 1) t
    else blockEndFrom (i + 1) d t

/-- the offset just past the brace that closes the first block of `t`, or of a closing brace that
comes before any opening one -/
def blockEnd (t : Text) : Option Nat := blockEndFrom 0 0 t

def braceBalance (t : Text) : Int := countOf '\x7b' t - countOf '\x7d' t

/-! ## masks -/

/-- where a scanner stands: in plain code, in a comment, or inside quotes -/
inductive Zone where
  | code
  | lineComment
  | blockComment
  | quotes (q : Char)
  deriving DecidableEq

def isQuote (c : Char) : Bool := c == '"' || c == '\''

def Zone.afterQuotes : Zone → Char → Zone
  | .quotes q, c => if c = q then .code else .quotes q
  | _, c => if isQuote c then .quotes c else .code

def Zone.liveQuotes : Zone → Char → Bool
  | .quotes _, _ => false
  | _, c => !isQuote c

/-- the zone after `c` with `next` behind it; the star that ends a block comment ends it at once, so
the slash after it is read as code -/
def Zone.after : Zone → Char → Option Char → Zone
  | .code, c, next =>
    if c = '/' ∧ next = some '/' then .lineComment
    else if c = '/' ∧ next = some '*' then .blockComment
    else if isQuote c then .quotes c
    else .code
  | .lineComment, c, _ => if c = '\n' then .code else .lineComment
  | .blockComment, c, next => if c = '*' ∧ next = some '/' then .code else .blockComment
  | .quotes q, c, _ => if c = q then .code else .quotes q

def Zone.live (z : Zone) (c : Char) (next : Option Char) : Bool :=
  z = .code && z.after c next = .code

def maskQuotesFrom (done : Text) (z : Zone) : Text → Text
  | [] => done.reverse
  | c :: t => maskQuotesFrom ((if z.liveQuotes c then c else ' ') :: done) (z.afterQuotes c) t

def maskQuotes (t : Text) : Text := maskQuotesFrom [] .code t

/-- the work of `maskInert`, the result so far in reverse -/
def maskInertFrom (done : Text) (z : Zone) : Text → Text
  | [] => done.reverse
  | c :: t =>
    maskInertFrom ((if z.live c t.head? then c else ' ') :: done) (z.after c t.head?) t

def maskInert (t : Text) : Text := maskInertFrom [] .code t

end Rebind
