import Rebind.Text.Basic

/-!
# Paths

A path is written as names between slashes.  `Path` is its normal form: `.` and empty names are left
out, `..` is kept, and the root mark is nothing, one slash or exactly two.  `Path.join` continues a
path, where an absolute continuation stands alone.

Some paths are kept as they were written; `joinPath`, `directoryPart` and `fileName` work on those.
-/

namespace Rebind

structure Path where
  root : Text
  names : List Text
  deriving DecidableEq

namespace Path

/-- the slashes in front: two are kept, more count as one -/
def rootOf (t : Text) : Text :=
  match (t.takeWhile (· == '/')).length with
  | 0 => []
  | 2 => ['/', '/']
  | _ => ['/']

def isProper (name : Text) : Bool := !name.isEmpty && name != ['.']

def ofText (t : Text) : Path := ⟨rootOf t, (splitAll '/' t).filter isProper⟩

def text (p : Path) : Text :=
  if p.root.isEmpty && p.names.isEmpty then ['.'] else p.root ++ List.intercalate ['/'] p.names

def append (p q : Path) : Path := if q.root.isEmpty then ⟨p.root, p.names ++ q.names⟩ else q

def join (p : Path) (t : Text) : Path := p.append (ofText t)

def name (p : Path) : Text := p.names.getLast?.getD []

def parent (p : Path) : Path := ⟨p.root, p.names.dropLast⟩

def relativeTo? (p base : Path) : Option Path :=
  if p.root = base.root ∧ base.names.isPrefixOf p.names then
    some ⟨[], p.names.drop base.names.length⟩
  else none

theorem relativeTo?_append (p q : Path) (h : q.root = []) :
    (p.append q).relativeTo? p = some q := by
  cases q
  simp_all [append, relativeTo?]

end Path

/-- two written paths with a slash between them unless there is one; an absolute second one stands
alone -/
def joinPath (a b : Text) : Text :=
  if b.head? = some '/' then b
  else if a.isEmpty || a.getLast? = some '/' then a ++ b
  else a ++ '/' :: b

def fileName (t : Text) : Text := afterLast '/' t

def directoryPart (t : Text) : Text :=
  let head := t.take (t.length - (fileName t).length)
  if head.all (· == '/') then head else (head.reverse.dropWhile (· == '/')).reverse

end Rebind
