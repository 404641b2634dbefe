import Mathlib
import Rebind.Proofs.Injection.Resources
import Rebind.Proofs.Source.LineSpans

/-!
# The listeners that injected code registers

`registrations kind t` reads a text line by line for statements that set a listener of a kind: the
view and the listener of each, in order.  The listeners of a block are written by four functions,
which differ in the view, in the call and in the blank lines between the statements.  Each of the
four is `Style.rows` of a style of its own, and what is read from these rows is one registration for
each resource of each listener (`Style.registrations_rows`).

* `registrations_unlines`: a text is read row by row;
* `pairings`: the listeners with each of their resources, in order;
* `clicks_registered_alike`: three of the blocks register the same clicks, and no others.

A resource of a long-click annotation may be any text without a closing parenthesis, also one over
several lines.  A statement is then read from the last line of its view on (`shownView`).
-/

namespace Rebind

open List Pattern

/-! ## reading statements -/

/-- a statement that sets a listener: the view that it is set on, and the listener -/
structure Registration where
  view : Text
  listener : Text
  deriving DecidableEq

/-- the statement on a line: the view stands before the last dot, and behind it the setter with the
listener in parentheses -/
def registration? (kind : ClickKind) (line : Text) : Option Registration :=
  let call := afterLast '.' line
  if call.length < line.length then
    ((call.dropPrefix? (kind.setter ++ ['('])).bind (·.dropSuffix? ");")).map
      (⟨trim (line.take (line.length - call.length - 1)), ·⟩)
  else none

def registrations (kind : ClickKind) (t : Text) : List Registration :=
  (lines t).filterMap (registration? kind)

section
variable {kind : ClickKind} {a b t : Text} {x : Char}

theorem afterLast_of_not_mem (h : x ∉ t) : afterLast x t = t := by
  have hall : ∀ c ∈ t.reverse, (c != x) = true := by
    intro c hc
    rw [bne_iff_ne]
    rintro rfl
    exact h (mem_reverse.mp hc)
  rw [afterLast, takeWhile_eq_self_iff.mpr hall, reverse_reverse]

theorem afterLast_append (h : x ∉ b) : afterLast x (a ++ x :: b) = b := by
  have hall : ∀ c ∈ b.reverse, (c != x) = true := by
    intro c hc
    rw [bne_iff_ne]
    rintro rfl
    exact h (mem_reverse.mp hc)
  rw [afterLast, reverse_append, reverse_cons, append_assoc, takeWhile_append_of_pos hall]
  simp

theorem registration?_of_no_dot (h : '.' ∉ t) : registration? kind t = none := by
  rw [registration?, afterLast_of_not_mem h, if_neg (Nat.lt_irrefl _)]

theorem registration?_append (h : '.' ∉ b) : registration? kind (a ++ '.' :: b)
    = ((b.dropPrefix? (kind.setter ++ ['('])).bind (·.dropSuffix? ");")).map (⟨trim a, ·⟩) := by
  have hlen : (a ++ '.' :: b).length - b.length - 1 = a.length := by
    rw [length_append, length_cons]
    omega
  rw [registration?, afterLast_append h, if_pos (by simp; omega), hlen, take_left]

theorem registration?_of_not_prefix (hb : '.' ∉ b) (h : ¬ kind.setter ++ ['('] <+: b) :
    registration? kind (a ++ '.' :: b) = none := by
  have hnone : b.dropPrefix? (kind.setter ++ ['(']) = none := by
    rw [Option.eq_none_iff_forall_ne_some]
    intro s hs
    obtain ⟨p, rfl, hp⟩ := dropPrefix?_eq_some_iff.mp hs
    rw [beq_iff_eq.mp hp] at h
    exact h (prefix_append _ s)
  rw [registration?_append hb, hnone]
  rfl

theorem registration?_of_open (h : ')' ∉ t) : registration? kind t = none := by
  rw [registration?]
  split
  · rw [Option.map_eq_none_iff, Option.eq_none_iff_forall_ne_some]
    intro s hs
    obtain ⟨call, hcall, hend⟩ := Option.bind_eq_some_iff.mp hs
    obtain ⟨p, hp, -⟩ := dropPrefix?_eq_some_iff.mp hcall
    obtain ⟨e, rfl, he⟩ := dropSuffix?_eq_some_iff.mp hend
    have hclose : ')' ∈ afterLast '.' t := by
      rw [hp, beq_iff_eq.mp he]
      simp
    exact h (mem_of_mem_afterLast hclose)
  · rfl

/-! ## texts row by row -/

theorem registrations_nil (kind : ClickKind) : registrations kind [] = [] := rfl

theorem registrations_of_no_dot (h : '.' ∉ t) : registrations kind t = [] := by
  rw [registrations, filterMap_eq_nil_iff]
  intro l hl
  exact registration?_of_no_dot (fun hm => h ((infix_of_mem_lines hl).mem hm))

theorem registrations_break : registrations kind (a ++ '\n' :: b) = registrations kind a
    ++ registrations kind b := by
  rw [registrations, lines_eq_splitAll, splitAll_append, filterMap_append]
  rfl

theorem registrations_unlines (kind : ClickKind) (rows : List Text) :
    registrations kind (unlines rows) = rows.flatMap (registrations kind) := by
  induction rows with
  | nil => rfl
  | cons row rows ih =>
    cases rows with
    | nil => simp [unlines]
    | cons row' rows =>
      rw [unlines_cons (by simp), registrations_break, ih]
      rfl

end

/-! ## the statements of a listener -/

def shownView (view : Text) : Text := trim (afterLast '\n' (indented view))

def ClosedLast (view : Text) : Prop := ∃ x y, view = x ++ y ∧ ')' ∉ x ∧ '\n' ∉ y

section
variable {kind : ClickKind} {view call : Text}

def setting (kind : ClickKind) (call : Text) : Text := kind.setter ++ "(v -> " ++ call ++ ");"

theorem listenerLine_eq (kind : ClickKind) (view call : Text) :
    listenerLine kind view call = indented view ++ '.' :: setting kind call := by
  unfold listenerLine indented setting
  generalize "        " = room, "(v -> " = opening, ");" = closing
  simp

theorem not_mem_setting {x : Char} (hset : x ∉ kind.setter) (hopen : x ∉ "(v -> ".toList)
    (hclose : x ∉ ");".toList) (hcall : x ∉ call) : x ∉ setting kind call :=
  not_mem_append (not_mem_append (not_mem_append hset hopen) hcall) hclose

theorem dot_not_mem_setting (kind : ClickKind) (hcall : '.' ∉ call) : '.' ∉ setting kind call :=
  not_mem_setting (by cases kind <;> decide) (by decide) (by decide) hcall

theorem newline_not_mem_setting (kind : ClickKind) (hcall : '\n' ∉ call) :
    '\n' ∉ setting kind call :=
  not_mem_setting (by cases kind <;> decide) (by decide) (by decide) hcall

theorem registration?_setting (hcall : '.' ∉ call) (a : Text) :
    registration? kind (a ++ '.' :: setting kind call) = some ⟨trim a, "v -> ".toList ++ call⟩ := by
  have hopen : "(v -> ".toList = ['('] ++ "v -> ".toList := by decide
  have hsplit : setting kind call = (kind.setter ++ ['('])
      ++ (("v -> ".toList ++ call) ++ ");".toList) := by
    rw [setting, hopen]
    simp only [append_assoc]
  have hback : List.dropSuffix? (("v -> ".toList ++ call) ++ ");".toList) ");".toList
      = some ("v -> ".toList ++ call) := dropSuffix?_eq_some_iff.mpr ⟨_, rfl, beq_self_eq_true _⟩
  rw [registration?_append (dot_not_mem_setting kind hcall), hsplit,
    dropPrefix?_append_of_beq _ (beq_self_eq_true _), Option.bind_some, hback]
  rfl

theorem registration?_setting_other {other : ClickKind} (hkind : other ≠ kind) (hcall : '.' ∉ call)
    (a : Text) :
    registration? other (a ++ '.' :: setting kind call) = none := by
  apply registration?_of_not_prefix (dot_not_mem_setting kind hcall)
  intro hprefix
  -- the two setters differ in their sixth letter
  have hsix : (other.setter ++ ['(']).take 6 = (setting kind call).take 6 := by
    obtain ⟨r, hr⟩ := hprefix
    have hlong : 6 ≤ (other.setter ++ ['(']).length := by cases other <;> decide
    rw [← hr]
    exact (take_append_of_le_length hlong).symm
  cases kind <;> cases other
  · exact hkind rfl
  · exact absurd hsix (by show ¬ "setOnL".toList = "setOnC".toList; decide)
  · exact absurd hsix (by show ¬ "setOnC".toList = "setOnL".toList; decide)
  · exact hkind rfl

theorem filterMap_listenerLine (read : Text → Option Registration) (hopen : ∀ l, ')' ∉ l
    → read l = none) (hview : ClosedLast view) (hcall : '\n' ∉ call) :
    (lines (listenerLine kind view call)).filterMap read
      = (read (afterLast '\n' (indented view) ++ '.' :: setting kind call)).toList := by
  obtain ⟨x, y, rfl, hx, hy⟩ := hview
  have hfirst := (dropLast_append_getLast (lines_ne_nil (indented x))).symm
  have hrest : '\n' ∉ '.' :: setting kind call := by
    rw [mem_cons, not_or]
    exact ⟨by decide, newline_not_mem_setting kind hcall⟩
  have hall : '\n' ∉ y ++ '.' :: setting kind call := not_mem_append hy hrest
  have hlines := lines_append hfirst (lines_eq_splitAll _ ▸ splitAll_of_not_mem hall)
  have hlast := eq_afterLast_of_lines
    (lines_append hfirst (lines_eq_splitAll _ ▸ splitAll_of_not_mem hy))
  -- no parenthesis is closed on the lines before the last one of the view, so nothing is read from
  -- these
  have hbefore : (lines (indented x)).dropLast.filterMap read = [] := by
    rw [filterMap_eq_nil_iff]
    intro l hl
    have hin : l <:+: indented x := infix_of_mem_lines (dropLast_subset _ hl)
    refine hopen l (fun hm => ?_)
    exact not_mem_append (by decide) hx (hin.mem hm)
  have hview : indented (x ++ y) = indented x ++ y := (append_assoc _ x y).symm
  rw [listenerLine_eq, hview, append_assoc, hlines, filterMap_append, hbefore, ← hlast,
    nil_append, append_assoc]
  cases h : read ((lines (indented x)).getLast (lines_ne_nil _) ++ (y ++ '.' :: setting kind call))
    <;> simp [h]

theorem registrations_listenerLine (hview : ClosedLast view) (hdot : '.' ∉ call)
    (hcall : '\n' ∉ call) :
    registrations kind (listenerLine kind view call) = [⟨shownView view, "v -> " ++ call⟩] := by
  rw [registrations, filterMap_listenerLine _ (fun _ => registration?_of_open) hview hcall,
    registration?_setting hdot]
  rfl

theorem registrations_listenerLine_other {other : ClickKind} (hkind : other ≠ kind)
    (hview : ClosedLast view)
    (hdot : '.' ∉ call) (hcall : '\n' ∉ call) : registrations other (listenerLine kind view call)
      = [] := by
  rw [registrations, filterMap_listenerLine _ (fun _ => registration?_of_open) hview hcall,
    registration?_setting_other hkind hdot]
  rfl

end

/-! ## the styles of listeners -/

def pairings (ls : List Listener) : List (Listener × Text) :=
  ls.flatMap (fun L => L.ids.map (fun id => (L, id)))

def Listener.callWith (L : Listener) (argument : Text) :
    Text := L.method ++ '(' :: argument ++ [')']

/-- no resource of the listeners closes a parenthesis -/
def Closed (ls : List Listener) : Prop := ∀ L ∈ ls, ∀ id ∈ L.ids, ')' ∉ id

/-- how the statements of listeners are written: the view of a resource, the argument of a
listener's call, and the blank lines behind each statement and behind the statements of a
listener -/
structure Style where
  view : Text → Text
  argument : Listener → Text
  behind : Nat
  after : Nat
  view_closed : ∀ id, ')' ∉ id → ClosedLast (view id)
  dot : ∀ L, '.' ∉ argument L
  newline : ∀ L, '\n' ∉ argument L

namespace Style

variable (S : Style)

def rows (kind : ClickKind) (ls : List Listener) : List Text :=
  ls.flatMap (fun L => L.ids.flatMap (fun id =>
    listenerLine kind (S.view id) (L.callWith (S.argument L)) :: replicate S.behind [])
      ++ replicate S.after [])

def registers (p : Listener × Text) : Registration :=
  ⟨shownView (S.view p.2), "v -> " ++ p.1.callWith (S.argument p.1)⟩

theorem not_mem_callWith {x : Char} {arg : Text} (hword : isWord x = false) (hopen : x ≠ '(')
    (hclose : x ≠ ')') (harg : x ∉ arg) (L : Listener) : x ∉ L.callWith arg := by
  have hmethod : x ∉ L.method := avoids_run1 hword _ L.method_covers
  simp [Listener.callWith, hmethod, hopen, hclose, harg]

theorem dot_not_mem (L : Listener) : '.' ∉ L.callWith (S.argument L) :=
  not_mem_callWith (by decide) (by decide) (by decide) (S.dot L) L

theorem newline_not_mem (L : Listener) : '\n' ∉ L.callWith (S.argument L) :=
  not_mem_callWith (by decide) (by decide) (by decide) (S.newline L) L

theorem flatMap_rows (read : Text → List Registration) (hblank : read [] = []) (kind : ClickKind)
    (ls : List Listener) : (S.rows kind ls).flatMap read
      = (pairings ls).flatMap (fun p => read
        (listenerLine kind (S.view p.2) (p.1.callWith (S.argument p.1)))) := by
  have hgap : ∀ n : Nat, (replicate n ([] : Text)).flatMap read = [] := by
    intro n
    rw [flatMap_eq_nil_iff]
    intro l hl
    rw [eq_of_mem_replicate hl, hblank]
  have hids : ∀ (L : Listener) (ids : List Text), (ids.flatMap (fun id =>
      listenerLine kind (S.view id) (L.callWith (S.argument L)) :: replicate S.behind [])).flatMap
        read
      = ids.flatMap (fun id => read
        (listenerLine kind (S.view id) (L.callWith (S.argument L)))) := by
    intro L ids
    induction ids with
    | nil => rfl
    | cons id ids ih =>
      rw [flatMap_cons, flatMap_append, flatMap_cons, hgap, append_nil, ih, flatMap_cons]
  induction ls with
  | nil => rfl
  | cons L ls ih =>
    rw [rows, flatMap_cons, flatMap_append, flatMap_append, hids, hgap, append_nil, pairings,
      flatMap_cons, flatMap_append, flatMap_map]
    exact congrArg (_ ++ ·) ih

section
variable {ls : List Listener} (hls : Closed ls)
include hls

theorem closed_of_mem {p : Listener × Text} (hp : p ∈ pairings ls) : ClosedLast (S.view p.2) := by
  obtain ⟨L, hL, hmem⟩ := mem_flatMap.mp hp
  obtain ⟨id, hid, rfl⟩ := mem_map.mp hmem
  exact S.view_closed id (hls L hL id hid)

theorem registrations_rows (kind : ClickKind) :
    (S.rows kind ls).flatMap (registrations kind) = (pairings ls).map S.registers := by
  rw [S.flatMap_rows _ (registrations_nil kind), map_eq_flatMap]
  apply flatMap_congr
  intro p hp
  exact registrations_listenerLine (S.closed_of_mem hls hp) (S.dot_not_mem p.1)
    (S.newline_not_mem p.1)

theorem registrations_rows_other {kind other : ClickKind} (hkind : other ≠ kind) :
    (S.rows kind ls).flatMap (registrations other) = [] := by
  rw [S.flatMap_rows _ (registrations_nil other), flatMap_eq_nil_iff]
  intro p hp
  exact registrations_listenerLine_other hkind (S.closed_of_mem hls hp) (S.dot_not_mem p.1)
    (S.newline_not_mem p.1)

end

end Style

/-! ## the four styles -/

namespace Listener

variable (L : Listener)

def plainArgument : Text := if L.view.isSome then ['v'] else []

/-- the view as the class that the method takes -/
def castArgument : Text :=
  match L.view with
  | none => []
  | some type => if type = "View" then ['v'] else '(' :: type ++ ") v"

theorem call_eq : L.call = L.callWith L.plainArgument := by
  have hview : "(v)" = '(' :: ['v'] ++ [')'] := by decide
  have hnone : "()" = '(' :: [] ++ [')'] := by decide
  rw [call, plainCall, hview, hnone, callWith, plainArgument, append_assoc]
  split <;> rfl

theorem castCall_eq : L.castCall = L.callWith L.castArgument := by
  have hopen : "((" = '(' :: ['('] := by decide
  have hclose : ") v)" = ") v" ++ [')'] := by decide
  rw [castCall, typedCall, castArgument]
  cases hview : L.view with
  | none =>
    have hcall := L.call_eq
    rw [call, plainArgument, hview] at hcall
    exact hcall
  | some type =>
    by_cases htype : type = "View"
    · have hcall := L.call_eq
      rw [call, plainArgument, hview] at hcall
      simp only [htype]
      exact hcall
    · rw [if_pos (by simpa using htype), Option.getD_some, hopen, hclose, callWith]
      simp only [htype, if_false]
      simp

theorem argument_cases {x : Char} (hv : x ≠ 'v') (hopen : x ≠ '(') (hclose : x ∉ ") v".toList)
    (hword : isWord x = false) : x ∉ L.plainArgument ∧ x ∉ L.castArgument := by
  constructor
  · unfold plainArgument
    split <;> simp [hv]
  · unfold castArgument
    split
    · simp
    · next type hview =>
      have htype : x ∉ type := avoids_run1 hword _ (L.view_covers type hview)
      split
      · simp [hv]
      · exact not_mem_append (by simp [hopen, htype]) hclose

theorem dot_not_mem_argument : '.' ∉ L.plainArgument ∧ '.' ∉ L.castArgument :=
  L.argument_cases (by decide) (by decide) (by decide) (by decide)

theorem newline_not_mem_argument : '\n' ∉ L.plainArgument ∧ '\n' ∉ L.castArgument :=
  L.argument_cases (by decide) (by decide) (by decide) (by decide)

theorem plainArgument_ne_nil_iff : L.plainArgument ≠ [] ↔ L.view.isSome := by
  unfold plainArgument
  split <;> simp_all

theorem castArgument_ne_nil_iff : L.castArgument ≠ [] ↔ L.view.isSome := by
  unfold castArgument
  split
  · next hview => simp [hview]
  · next hview => split <;> simp [hview]

end Listener

theorem closedLast_viewOf {id : Text} (h : ')' ∉ id) : ClosedLast (viewOf id) := by
  refine ⟨"findViewById(".toList ++ applicationId id, ")".toList, rfl, not_mem_append
    (by decide) ?_, by decide⟩
  unfold applicationId
  split
  · intro hm
    have hold : "R2.id.".toList ≠ [] := by decide
    have hempty : ¬ (Pattern.text "R2.id.".toList).Covers [] := fun hc => hold hc.symm
    rw [replaceAll_eq_replace hold] at hm
    rcases (replaced_replace rfl hempty "R.id.".toList id).mem hm with hm | hm
    · exact h hm
    · exact absurd hm (by decide)
  · exact h

theorem not_mem_viewNameIn {x : Char} {id : Text} (hid : x ∉ id) (hword : isWord x = false)
    (fs : List Field) :
    x ∉ viewNameIn id fs := by
  have hview : x ∉ "view_".toList := fun hm => by
    have hall : "view_".toList.all isWord := by decide
    rw [all_eq_true.mp hall x hm] at hword
    cases hword
  unfold viewNameIn
  split
  · next F _ => exact avoids_run1 hword _ F.name_covers
  · unfold viewNameOfId
    split
    · exact not_mem_append hview (fun hm => hid (mem_of_mem_afterLast hm))
    · have hempty : ¬ (Pattern.text "R_id_".toList).Covers [] := fun h => by cases h
      refine not_mem_append hview (fun hm => ?_)
      rw [replaceAll_eq_erase] at hm
      exact hid (((replaced_replace rfl hempty [] id).mem hm).resolve_right (by simp))

theorem closedLast_viewNameIn (fs : List Field) {id : Text} (h : ')' ∉ id) :
    ClosedLast (viewNameIn id fs) :=
  ⟨viewNameIn id fs, [], (append_nil _).symm, not_mem_viewNameIn h (by decide) fs, by simp⟩

namespace Style

/-- on looked-up views, without casts -/
def plain : Style where
  view := viewOf
  argument := Listener.plainArgument
  behind := 0
  after := 0
  view_closed _ := closedLast_viewOf
  dot L := L.dot_not_mem_argument.1
  newline L := L.newline_not_mem_argument.1

/-- on looked-up views, with casts -/
def typed : Style where
  view := viewOf
  argument := Listener.castArgument
  behind := 1
  after := 0
  view_closed _ := closedLast_viewOf
  dot L := L.dot_not_mem_argument.2
  newline L := L.newline_not_mem_argument.2

/-- on fields, with casts -/
def onFields (fs : List Field) (behind after : Nat) : Style where
  view id := viewNameIn id fs
  argument := Listener.castArgument
  behind := behind
  after := after
  view_closed _ := closedLast_viewNameIn fs
  dot L := L.dot_not_mem_argument.2
  newline L := L.newline_not_mem_argument.2

/-- the clicks on looked-up views without casts, and the long clicks on fields -/
def together (fs : List Field) : ClickKind → Style
  | .click => plain
  | .longClick => onFields fs 1 0

section
variable (kind : ClickKind) (fs : List Field) (ls : List Listener)

theorem plainRows_eq : plainRows kind ls = plain.rows kind ls := by
  simp only [plainRows, rows, plain, Listener.call_eq, replicate_zero, append_nil, map_eq_flatMap]

theorem typedRows_eq : typedRows kind fs ls = typed.rows kind ls := by
  simp only [typedRows, rows, typed, Listener.castCall_eq, viewNameIn_ne_nil,
    Bool.false_eq_true, if_false, replicate_zero, replicate_one, append_nil]

theorem fieldRows_eq : fieldRows fs ls = (onFields fs 1 0).rows .longClick ls := by
  simp only [fieldRows, rows, onFields, Listener.castCall_eq, viewNameIn_ne_nil,
    Bool.false_eq_true, if_false, replicate_zero, replicate_one, append_nil]

theorem itemRows_eq : itemRows kind fs ls = (onFields fs 0 1).rows kind ls := by
  simp only [itemRows, rows, onFields, Listener.castCall_eq, itemViewIn_eq, replicate_zero,
    replicate_one, map_eq_flatMap]

end

end Style

/-! ## whole blocks -/

section
variable {kind : ClickKind} {fs : List Field} {cs ls : List Listener}

theorem registrations_lookup {a id : Text} (ha : '\n' ∉ a) (hid : resourceId.Covers id) :
    registrations kind (a ++ applicationId id ++ ");") = [] := by
  obtain ⟨w, hw, happ⟩ := applicationId_eq hid
  have hword : ∀ x, isWord x = false → x ∉ w := fun x hx => avoids_run1 hx w hw
  have hline : a ++ applicationId id ++ ");" = (a ++ "R.id") ++ '.' :: (w ++ ");") := by
    rw [happ, show "R.id." = "R.id" ++ ['.'] by decide]
    generalize "R.id" = front, ");" = back
    simp
  have hflat : '\n' ∉ (a ++ "R.id") ++ '.' :: (w ++ ");") := by
    refine not_mem_append (not_mem_append ha (by decide)) ?_
    rw [mem_cons, not_or]
    exact ⟨by decide, not_mem_append (hword _ (by decide)) (by decide)⟩
  have hopen : '(' ∉ w ++ ");" := not_mem_append (hword _ (by decide)) (by decide)
  rw [hline, registrations, lines_eq_splitAll, splitAll_of_not_mem hflat, filterMap_cons,
    registration?_of_not_prefix (not_mem_append (hword _ (by decide)) (by decide))]
  · rfl
  · exact fun hp => hopen (hp.mem (by simp))

theorem registrations_assigned {call : Text} (hcall : '\n' ∉ call) (kind : ClickKind)
    (fs : List Field) :
    (fs.map (fun F : Field => indented (F.name ++ call ++ applicationId F.id ++ ");"))
      ++ [[]]).flatMap (registrations kind) = [] := by
  rw [flatMap_append, append_eq_nil_iff]
  refine ⟨?_, rfl⟩
  rw [flatMap_eq_nil_iff]
  intro l hl
  obtain ⟨F, -, rfl⟩ := mem_map.mp hl
  have hname : '\n' ∉ F.name := avoids_run1 (by decide) _ F.name_covers
  have hline : indented (F.name ++ call ++ applicationId F.id ++ ");")
      = indented (F.name ++ call) ++ applicationId F.id ++ ");" := by
    unfold indented
    generalize "        " = room, ");" = closing
    simp only [append_assoc]
  rw [hline]
  exact registrations_lookup (not_mem_append (by decide) (not_mem_append hname hcall)) F.id_covers

theorem registrations_headed {α : Type} {comment : Text} {entries : List α} {rows : List Text}
    (hcomment : '.' ∉ comment) (hempty : entries = [] → rows.flatMap (registrations kind) = []) :
    (headed comment entries rows).flatMap (registrations kind)
      = rows.flatMap (registrations kind) := by
  unfold headed
  split
  · next h => exact (hempty (isEmpty_iff.mp h)).symm
  · have hdot : '.' ∉ indented comment := not_mem_append (by decide) hcomment
    rw [flatMap_cons, registrations_of_no_dot hdot, nil_append]

def ClickKind.among (cs ls : List Listener) : ClickKind → List Listener
  | .click => cs
  | .longClick => ls

theorem registrations_block (style : ClickKind → Style) (front : List Text)
    (hfront : ∀ kind, front.flatMap (registrations kind) = []) (hcs : Closed cs) (hls : Closed ls)
    (kind : ClickKind) :
    registrations kind (unlines (front ++ headed clickComment cs ((style .click).rows .click cs)
        ++ headed longClickComment ls ((style .longClick).rows .longClick ls)))
      = (pairings (kind.among cs ls)).map (style kind).registers := by
  have hclick : '.' ∉ clickComment := by decide
  have hlong : '.' ∉ longClickComment := by decide
  rw [registrations_unlines, flatMap_append, flatMap_append, hfront, nil_append,
    registrations_headed hclick (by rintro rfl; rfl), registrations_headed hlong
      (by rintro rfl; rfl)]
  cases kind with
  | click =>
    rw [(style .click).registrations_rows hcs, (style .longClick).registrations_rows_other hls
      (by simp)]
    exact append_nil _
  | longClick =>
    rw [(style .longClick).registrations_rows hls, (style .click).registrations_rows_other hcs
      (by simp)]
    rfl

variable (hcs : Closed cs) (hls : Closed ls)
include hcs hls

theorem registrations_initialisationBlock (fs : List Field) (kind : ClickKind) :
    registrations kind (initialisationBlock fs cs ls)
      = (pairings (kind.among cs ls)).map (Style.together fs kind).registers := by
  rw [initialisationBlock, Style.plainRows_eq, Style.fieldRows_eq]
  refine registrations_block (Style.together fs) _ (fun kind => ?_) hcs hls kind
  rw [registrations_headed (by decide) (by rintro rfl; rfl)]
  exact registrations_assigned (by decide) kind fs

theorem registrations_mainListenerBlock (fs : List Field) (kind : ClickKind) :
    registrations kind (mainListenerBlock fs cs ls)
      = (pairings (kind.among cs ls)).map Style.typed.registers := by
  rw [mainListenerBlock, Style.typedRows_eq, Style.typedRows_eq]
  exact registrations_block (fun _ => .typed) [] (fun _ => rfl) hcs hls kind

theorem registrations_itemBlock (fs : List Field) (kind : ClickKind) :
    registrations kind (itemBlock fs cs ls)
      = (pairings (kind.among cs ls)).map (Style.onFields fs 0 1).registers := by
  rw [itemBlock, Style.itemRows_eq, Style.itemRows_eq]
  refine registrations_block (fun _ => .onFields fs 0 1) _ (fun kind => ?_) hcs hls kind
  rw [registrations_headed (by decide) (by rintro rfl; rfl)]
  exact registrations_assigned (by decide) kind fs

theorem registrations_listenerBlock (kind : ClickKind) :
    registrations kind (listenerBlock cs ls)
      = (pairings (kind.among cs ls)).map Style.plain.registers := by
  rw [listenerBlock, Style.plainRows_eq, Style.plainRows_eq]
  exact registrations_block (fun _ => .plain) [] (fun _ => rfl) hcs hls kind

end

/-! ## the clicks of a source -/

theorem shownView_of_solid {view : Text} (hne : view ≠ []) (h : ∀ c ∈ view, isBlank c = false) :
    shownView view = view := by
  have hline : '\n' ∉ indented view := not_mem_append (by decide) (newline_not_mem_of_nonblank h)
  have hroom : "        ".toList.all isBlank = true := by decide
  have htrim := trim_around (v := []) (all_eq_true.mp hroom) (by simp) hne h
  rw [append_nil] at htrim
  rw [shownView, afterLast_of_not_mem hline]
  exact htrim

theorem viewOf_resource {id : Text} (hid : resourceId.Covers id) :
    viewOf id = "findViewById(R.id.".toList ++ afterLast '.' id ++ ")".toList := by
  obtain ⟨two, w, rfl, htwo, hw⟩ := covers_resourceId.mp hid
  have hdot : ".id.".toList = ".id".toList ++ ['.'] := by decide
  have hcall : "findViewById(R.id.".toList = "findViewById(".toList ++ "R.id.".toList := by decide
  have hname : afterLast '.' ('R' :: two ++ ".id.".toList ++ w) = w := by
    rw [hdot, ← append_assoc, append_assoc]
    exact afterLast_append (dot_not_mem_word hw)
  have happ := applicationId_of_name htwo hw
  unfold viewOf
  rw [happ, hname, hcall]
  generalize "findViewById(".toList = call, "R.id.".toList = front, ")".toList = closing
  simp only [append_assoc]

theorem shownView_viewOf {id : Text} (hid : resourceId.Covers id) :
    shownView (viewOf id) = "findViewById(R.id." ++ afterLast '.' id ++ ")" := by
  have hfront : "findViewById(R.id.".toList.all (fun c => !isBlank c) = true := by decide
  rw [viewOf_resource hid]
  refine shownView_of_solid (by simp) (fun c hc => ?_)
  rcases mem_append.mp hc with hc | hc
  · rcases mem_append.mp hc with hc | hc
    · simpa using all_eq_true.mp hfront c hc
    · exact isBlank_of_mem_resourceId hid c (mem_of_mem_afterLast hc)
  · rw [mem_singleton.mp hc]
    decide

theorem ResourcesOnly.closed {cs : List Listener} (h : ResourcesOnly cs) :
    Closed cs := fun L hL id hid =>
  not_mem_resource (h L hL id hid) (by decide) (by decide)

/-- the code for a class without a content view, the code for the initialisers of a base class and
the code of an activity that calls its initialisers register the same clicks: each resource of each
handler in turn, on the view that is looked up by its name in the application.  The method is called
with an argument iff it takes a view -/
theorem clicks_registered_alike (code : Text) : ∃ fs cs ls, (Findings.detect code).Lists fs cs ls
    ∧ (∀ p ∈ pairings cs, IsResource p.2)
    ∧ ∃ all lookups apart general, initialisation (.detect code) = .ok all
      ∧ newBaseBlocks (.detect code) = .ok (lookups, apart) ∧ generalListeners (.detect code)
        = .ok general
      ∧ ∀ block ∈ [all, apart, general], ∃ argument : Listener → Text,
        (∀ L, argument L ≠ [] ↔ L.view.isSome = true)
        ∧ registrations .click block = (pairings cs).map (fun p =>
            ⟨"findViewById(R.id.".toList ++ afterLast '.' p.2 ++ ")".toList,
              "v -> ".toList ++ p.1.callWith (argument p.1)⟩) := by
  obtain ⟨fs, cs, ls, hlists, hresources⟩ := detect_lists code
  have hcs : Closed cs := hresources.closed
  have hls : Closed ls := longClick_closed hlists.longClicks
  have hpairs : ∀ p ∈ pairings cs, resourceId.Covers p.2 := by
    intro p hp
    obtain ⟨L, hL, hmem⟩ := mem_flatMap.mp hp
    obtain ⟨id, hid, rfl⟩ := mem_map.mp hmem
    exact hresources L hL id hid
  -- in both styles the statements are those of looked-up views
  have hstyle : ∀ S : Style, S.view = viewOf → (pairings cs).map S.registers
    = (pairings cs).map (fun p =>
      ⟨"findViewById(R.id." ++ afterLast '.' p.2 ++ ")",
        "v -> " ++ p.1.callWith (S.argument p.1)⟩) := by
    intro S hview
    apply map_congr_left
    intro p hp
    rw [Style.registers, hview, shownView_viewOf (hpairs p hp)]
  refine ⟨fs, cs, ls, hlists, fun p hp => covers_resourceId_iff.mp (hpairs p hp), _, _, _, _,
    initialisation_eq hlists,
    newBaseBlocks_eq hlists, generalListeners_eq hlists, fun block hblock => ?_⟩
  simp only [mem_cons, not_mem_nil, or_false] at hblock
  rcases hblock with rfl | rfl | rfl
  · refine ⟨Listener.plainArgument, Listener.plainArgument_ne_nil_iff, ?_⟩
    rw [registrations_initialisationBlock hcs hls]
    exact hstyle .plain rfl
  · refine ⟨Listener.castArgument, Listener.castArgument_ne_nil_iff, ?_⟩
    rw [registrations_mainListenerBlock hcs hls]
    exact hstyle .typed rfl
  · refine ⟨Listener.plainArgument, Listener.plainArgument_ne_nil_iff, ?_⟩
    rw [registrations_listenerBlock hcs hls]
    exact hstyle .plain rfl

end Rebind
