import Rebind.Text.Basic

/-!
# Patterns

A `Pattern` describes a shape of source text with an order of preference among its matches.  The
forms:

* `empty`, `one ok`, `text t`: nothing, one character of a class, a fixed text;
* `lineStart`, `lineEnd`: the empty text right after, right before a newline or an end;
* `andThen p q`, `orElse p q`: one after the other; the first if it leads to a match, else the
  second;
* `maybe p`: `p` if that leads to a match, else nothing;
* `run ok`, `few ok`: characters of a class, as many as possible first, as few as possible first;
* `many p`: repetitions of `p`, as many as possible first;
* `group n p`: `p`, remembering what it matched under the number `n`.

`Pattern.tryAt p c k` hands the end of each match of `p` at the cursor `c` to `k`, in order of
preference, and stops at the first that `k` accepts.  Recursion is on the pattern; a repetition must
advance, so the length of the text that is left bounds it.
-/

namespace Rebind

/-- a place in a text: the offset, the character before it, the text after it, and what the groups
passed on the way have matched, latest first -/
structure Cursor where
  pos : Nat
  prev : Option Char
  rest : Text
  groups : List (Nat × Text)

def Cursor.ofText (t : Text) : Cursor := ⟨0, none, t, []⟩

def Cursor.past (c : Cursor) (ch : Char) (rest : Text) : Cursor :=
  { c with pos := c.pos + 1, prev := some ch, rest := rest }

def Cursor.upTo (c d : Cursor) : Text := c.rest.take (d.pos - c.pos)

inductive Pattern where
  | empty
  | one (ok : Char → Bool)
  | text (t : Text)
  | lineStart
  | lineEnd
  | andThen (p q : Pattern)
  | orElse (p q : Pattern)
  | maybe (p : Pattern)
  | run (ok : Char → Bool)
  | few (ok : Char → Bool)
  | many (p : Pattern)
  | group (n : Nat) (p : Pattern)

/-- the cursor past the fixed text `t`, if `t` comes next -/
def Cursor.pastText : Text → Cursor → Option Cursor
  | [], c => some c
  | a :: t, c =>
    match c.rest with
    | [] => none
    | b :: rest => if a = b then Cursor.pastText t (c.past b rest) else none

/-- the cursors reached by passing characters of a class, the farthest first; `near` holds the ones
already reached -/
def Cursor.reach (ok : Char → Bool) : Text → Cursor → List Cursor → List Cursor
  | [], c, near => c :: near
  | ch :: rest, c, near =>
    if ok ch then Cursor.reach ok rest (c.past ch rest) (c :: near) else c :: near

/-- the first answer of `k` at `c` or after passing characters of a class, the nearest first -/
def Cursor.firstNear {β : Type} (ok : Char → Bool) (k : Cursor → Option β) :
    Text → Cursor → Option β
  | [], c => k c
  | ch :: rest, c =>
    match k c with
    | some b => some b
    | none => if ok ch then Cursor.firstNear ok k rest (c.past ch rest) else none

/-- repetitions of `step`, as many as possible first, at most `fuel`; each has to advance -/
def repeatFrom {β : Type} (step : Cursor → (Cursor → Option β) → Option β) (k : Cursor → Option β) :
    Nat → Cursor → Option β
  | 0, c => k c
  | fuel + 1, c =>
    match step c (fun d => if c.pos < d.pos then repeatFrom step k fuel d else none) with
    | some b => some b
    | none => k c

/-- the first answer of `k` to the end of a match of the pattern at the cursor -/
def Pattern.tryAt {β : Type} : Pattern → Cursor → (Cursor → Option β) → Option β
  | .empty, c, k => k c
  | .one ok, c, k =>
    match c.rest with
    | [] => none
    | ch :: rest => if ok ch then k (c.past ch rest) else none
  | .text t, c, k => (c.pastText t).bind k
  | .lineStart, c, k => if c.prev = none ∨ c.prev = some '\n' then k c else none
  | .lineEnd, c, k => if c.rest = [] ∨ c.rest.head? = some '\n' then k c else none
  | .andThen p q, c, k => p.tryAt c (fun d => q.tryAt d k)
  | .orElse p q, c, k =>
    match p.tryAt c k with
    | some b => some b
    | none => q.tryAt c k
  | .maybe p, c, k =>
    match p.tryAt c k with
    | some b => some b
    | none => k c
  | .run ok, c, k => (Cursor.reach ok c.rest c []).findSome? k
  | .few ok, c, k => Cursor.firstNear ok k c.rest c
  | .many p, c, k => repeatFrom (fun d k' => p.tryAt d k') k (c.rest.length + 1) c
  | .group n p, c, k => p.tryAt c (fun d => k { d with groups := (n, c.upTo d) :: d.groups })

namespace Pattern

/-! ## the vocabulary of source patterns -/

/-- one after the other -/
def seq : List Pattern → Pattern
  | [] => .empty
  | [p] => p
  | p :: ps => .andThen p (seq ps)

/-- the first that leads to a match -/
def oneOf : List Pattern → Pattern
  | [] => .one (fun _ => false)
  | [p] => p
  | p :: ps => .orElse p (oneOf ps)

def run1 (ok : Char → Bool) : Pattern := .andThen (.one ok) (.run ok)

def blanks : Pattern := .run isBlank

def blanks1 : Pattern := run1 isBlank

def word : Pattern := run1 isWord

def restOfLine : Pattern := .run (· != '\n')

def lit (s : String) : Pattern := .text s

def butNot (c : Char) : Pattern := .run (· != c)

def butNot1 (c : Char) : Pattern := run1 (· != c)

def keyword (s : String) : Pattern := .andThen (lit s) blanks1

def parameters : Pattern := seq [lit "(", butNot ')', lit ")"]

end Pattern

end Rebind
