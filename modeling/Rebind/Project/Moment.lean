import Rebind.Text.Basic

/-!
# Moments

A moment of the calendar, and the two ways it is written: `Moment.stamp` in front of log lines,
`Moment.iso` in reports.
-/

namespace Rebind

structure Moment where
  year : Nat
  month : Nat
  day : Nat
  hour : Nat
  minute : Nat
  second : Nat
  microsecond : Nat

namespace Moment

def padded (width n : Nat) : Text :=
  let digits := natText n
  List.replicate (width - digits.length) '0' ++ digits

def date (m : Moment) : Text :=
  padded 4 m.year ++ '-' :: padded 2 m.month ++ '-' :: padded 2 m.day

def time (m : Moment) : Text :=
  padded 2 m.hour ++ ':' :: padded 2 m.minute ++ ':' :: padded 2 m.second

def stamp (m : Moment) : Text := m.date ++ ' ' :: m.time

def iso (m : Moment) : Text :=
  m.date ++ 'T' :: m.time ++ if m.microsecond = 0 then [] else '.' :: padded 6 m.microsecond

end Moment

end Rebind
