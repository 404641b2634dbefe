import Rebind.Pattern.Basic

/-!
# Searching with patterns

`Pattern.matchAt` is the preferred match at a cursor, `Pattern.search` the first place from the left
that has one, `Pattern.findAll` all matches from the left without overlap, and `Pattern.replace`
puts a text in the place of each of them.
-/

namespace Rebind

/-- a match: where it starts and stops, what it covers and what its groups matched -/
structure Match where
  start : Nat
  stop : Nat
  text : Text
  groups : List (Nat × Text)

def Match.group? (m : Match) (n : Nat) : Option Text :=
  (m.groups.find? (·.1 == n)).map (·.2)

def Match.group (m : Match) (n : Nat) : Text := (m.group? n).getD []

def Pattern.matchAt (p : Pattern) (c : Cursor) : Option Match :=
  p.tryAt c (fun d => some ⟨c.pos, d.pos, c.upTo d, d.groups⟩)

def Pattern.matchStart (p : Pattern) (t : Text) : Option Match := p.matchAt (.ofText t)

/-- the first match at or after the offset `pos`, with `prev` before it -/
def Pattern.searchFrom (p : Pattern) (pos : Nat) (prev : Option Char) : Text → Option Match
  | [] => p.matchAt ⟨pos, prev, [], []⟩
  | ch :: rest =>
    match p.matchAt ⟨pos, prev, ch :: rest, []⟩ with
    | some m => some m
    | none => p.searchFrom (pos + 1) (some ch) rest

def Pattern.search (p : Pattern) (t : Text) : Option Match := p.searchFrom 0 none t

def Pattern.found (p : Pattern) (t : Text) : Bool := (p.search t).isSome

def Pattern.searchBetween (p : Pattern) (t : Text) (start stop : Nat) : Option Match :=
  p.searchFrom start none ((t.drop start).take (stop - start))

/-- the work of `findAll`: the matches so far in reverse, and how many characters of the last one
are left to pass.  After an empty match the search goes on one character further. -/
def Pattern.findFrom (p : Pattern) (pos : Nat) (prev : Option Char) (found : List Match) :
    Nat → Text → List Match
  | 0, [] =>
    match p.matchAt ⟨pos, prev, [], []⟩ with
    | some m => (m :: found).reverse
    | none => found.reverse
  | _ + 1, [] => found.reverse
  | n + 1, ch :: rest => p.findFrom (pos + 1) (some ch) found n rest
  | 0, ch :: rest =>
    match p.matchAt ⟨pos, prev, ch :: rest, []⟩ with
    | some m => p.findFrom (pos + 1) (some ch) (m :: found) (m.stop - pos - 1) rest
    | none => p.findFrom (pos + 1) (some ch) found 0 rest

def Pattern.findAll (p : Pattern) (t : Text) : List Match := p.findFrom 0 none [] 0 t

/-- puts `new m` in the place of each match `m`; `pos` is the offset of `rest` in the whole text,
and `done` holds the pieces of the result so far, latest first -/
def replaceMatches (new : Match → Text) (done : List Text) (pos : Nat) (rest : Text) :
    List Match → Text
  | [] => (rest :: done).reverse.flatten
  | m :: ms =>
    replaceMatches new (new m :: rest.take (m.start - pos) :: done) m.stop
      (rest.drop (m.stop - pos)) ms

def Pattern.replace (p : Pattern) (new : Match → Text) (t : Text) : Text :=
  replaceMatches new [] 0 t (p.findAll t)

def Pattern.erase (p : Pattern) (t : Text) : Text := p.replace (fun _ => []) t

end Rebind
