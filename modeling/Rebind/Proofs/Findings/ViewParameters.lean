import Mathlib
import Rebind.Proofs.Findings.Declarations
import Rebind.Proofs.Findings.LongClicks
import Rebind.Proofs.Pattern.Preference
import Rebind.Proofs.Source.Extents
import Rebind.Proofs.Source.Pairing

/-!
# The view that a handler takes

Whether a click handler takes the view, and of which class, is not read off the annotation: the
method is looked up again by its name, on the first line that opens with it, and the class by the
names that occur among its parameters. A `ClickMethod` has the parts of an annotation and of the
header behind it, wherever they are broken into lines.

* `ClickMethod.exists_match`: the handler is found, under the name of its method;
* `ClickMethod.isLeast_opens`: its line opens with the name, if the header is `OnOwnLine`;
* `ClickMethod.onOwnLine_of_opens`: and no line does otherwise;
* `viewClassOf_eq_iff`: which class is taken for the type.

What is noted is right exactly for a header on its own line with a `Plain` parameter
(`click_view_noted_iff`), and wrong for others (`headers_misread`).
-/

namespace Rebind

open List Pattern

variable {x : Char} {a back front name s t type : Text}

/-! ## bodies that are closed -/

theorem one_le_of_closingBrace_none {d : Int} (hd : 1 ≤ d) (h : closingBrace d t = none) :
    1 ≤ d + braceBalance t := by
  induction t generalizing d with
  | nil =>
    have hzero : braceBalance [] = 0 := rfl
    omega
  | cons c t ih =>
    rw [closingBrace_cons] at h
    split at h
    · cases h
    · next hlast =>
      have hstep : 1 ≤ d + braceStep c := by
        unfold braceStep
        split_ifs with hopen hclose
        · omega
        · have : d ≠ 1 := fun hone => hlast ⟨hclose, hone⟩
          omega
        · omega
      have := ih hstep (Option.map_eq_none_iff.mp h)
      rw [braceBalance_cons]
      omega

theorem exists_closing {w r : Text} (h : Paired (a ++ (w ++ '\x7b' :: r))) (hopen : '\x7b' ∉ w)
    (hclose : '\x7d' ∉ w) : ∃ n, closingBrace 0 (w ++ '\x7b' :: r) = some (w.length + (1 + n)) := by
  have hstep : braceStep '\x7b' = 1 := by decide
  have hbrace : closingBrace 0 ('\x7b' :: r) = (closingBrace 1 r).map (1 + ·) := by
    rw [closingBrace_cons, if_neg (by decide), hstep, zero_add]
  rw [closingBrace_append_right (closingBrace_none_of_flat hopen hclose),
    braceBalance_of_flat hopen hclose, add_zero, hbrace]
  cases hr : closingBrace 1 r with
  | some n => exact ⟨n, rfl⟩
  | none =>
    have hleft := one_le_of_closingBrace_none le_rfl hr
    have hfront : 0 ≤ braceBalance a := by
      have := h.enough a.length
      rwa [take_left, zero_add] at this
    have htotal := h.balance
    rw [braceBalance_append, braceBalance_append, braceBalance_of_flat hopen hclose,
      braceBalance_cons, hstep] at htotal
    omega

/-! ## the parameters of a signature -/

theorem covers_butNot_iff : (butNot x).Covers t ↔ x ∉ t := by
  refine ⟨avoids_run (by simp) t, fun h c hc => ?_⟩
  rw [bne_iff_ne]
  rintro rfl
  exact h hc

theorem parameterList_search {x inner y : Text} (hx : '(' ∉ x) (hinner : ')' ∉ inner) :
    ∃ m, parameterList.search (x ++ '(' :: (inner ++ ')' :: y)) = some m ∧ m.group 1 = inner := by
  have hcovers : parameterList.Covers ('(' :: (inner ++ [')'])) :=
    ⟨['('], inner ++ [')'], rfl, rfl, inner, [')'], rfl, covers_butNot_iff.mpr hinner, rfl⟩
  have hstarts : Starts parameterList ('(' :: (inner ++ ')' :: y)) := ⟨_, y, by simp, hcovers⟩
  have hfound : parameterList.found (x ++ '(' :: (inner ++ ')' :: y)) :=
    found_of_infix rfl hcovers ⟨x, y, by simp⟩
  obtain ⟨m, hm⟩ := Option.isSome_iff_exists.mp hfound
  refine ⟨m, hm, ?_⟩
  obtain ⟨a, b, prev, ht, hat, hfirst⟩ := search_first rfl hm
  obtain ⟨-, -, -, r, rfl⟩ := matchAt_front hat
  obtain ⟨_, _, _, _, htext, hgroups, ⟨rfl, rfl⟩, inner', _, _, _, rfl, rfl, ⟨_, rfl, hin, rfl⟩,
    rfl, rfl⟩ :=
    (matchAt_some hat).reads
  have hopen : "(" = ['('] := rfl
  have hclose : ")" = [')'] := rfl
  rw [htext, hopen, hclose, append_assoc, append_assoc, singleton_append, singleton_append] at ht
  -- the search stops at the first parenthesis
  obtain ⟨a', rfl, ha'⟩ := append_eq_of_not_mem hx ht
  have hnil : a' = [] := by
    by_contra hne
    refine hfirst x a' rfl hne ?_
    rw [htext, hopen, hclose, append_assoc, append_assoc, singleton_append, singleton_append, ← ha']
    exact hstarts
  rw [hnil, nil_append] at ha'
  obtain ⟨rfl, -⟩ := append_first_inj hinner (covers_butNot_iff.mp hin) (List.cons.inj ha').2
  simp [Match.group, Match.group?, hgroups]

/-! ## lines that open with a method -/

def headStart : Pattern :=
  seq [blanks, .maybe accessModifier, .maybe (keyword "static"),
    .maybe (oneOf [keyword "void", keyword "boolean"])]

theorem methodLine_covers_iff : (methodLine name).Covers s ↔ ∃ lead space inner b,
    s = lead ++ (name ++ (space ++ '(' :: (inner ++ ')' :: (b ++ ['\x7b']))))
      ∧ headStart.Covers lead ∧ blanks.Covers space ∧ ')' ∉ inner ∧ blanks.Covers b := by
  constructor
  · rintro ⟨b₀, _, rfl, hb₀, access, _, rfl, haccess, static, _, rfl, hstatic, result, _, rfl,
      hresult, _, _, rfl, rfl,
      space, _, rfl, hspace, _, _, rfl, ⟨_, _, rfl, rfl, inner, _, rfl, hinner, rfl⟩, b, _,
      rfl, hb, rfl⟩
    exact ⟨b₀ ++ (access ++ (static ++ result)), space, inner, b, by simp,
      ⟨b₀, _, rfl, hb₀, access, _, rfl, haccess,
      static, _, rfl, hstatic, hresult⟩, hspace, covers_butNot_iff.mp hinner, hb⟩
  · rintro ⟨_, space, inner, b, rfl, ⟨b₀, _, rfl, hb₀, access, _, rfl, haccess, static, result, rfl,
      hstatic, hresult⟩, hspace, hinner, hb⟩
    refine ⟨b₀, _, ?_, hb₀, access, _, rfl, haccess, static, _, rfl, hstatic, result, _,
      rfl, hresult, name, _, rfl, rfl, space, _, rfl, hspace, '(' :: (inner ++ [')']), b
        ++ ['\x7b'], rfl,
      ⟨['('], _, rfl, rfl, inner, [')'], rfl, covers_butNot_iff.mpr hinner, rfl⟩, b, ['\x7b'],
      rfl, hb, rfl⟩
    simp

theorem viewClass_covers (h : type ∈ "View".toList :: viewClasses) : word.Covers type := by
  have hall : ("View".toList :: viewClasses).all (fun c => !c.isEmpty && c.all isWord) = true := by
    decide +kernel
  simpa [covers_word] using all_eq_true.mp hall type h

theorem namesView {params : Text} (h : type ∈ "View".toList :: viewClasses)
    (hin : type <:+: params) :
    (viewClassOf params != "View".toList || occursIn "View".toList params) := by
  have hother : "View".toList ∉ viewClasses := by decide +kernel
  rw [Bool.or_eq_true]
  rcases mem_cons.mp h with rfl | hclass
  · exact .inr ((occursIn_iff _ _).mpr hin)
  · left
    have hfound : (viewClasses.find? (occursIn · params)).isSome = true :=
      find?_isSome.mpr ⟨type, hclass, (occursIn_iff _ _).mpr hin⟩
    obtain ⟨c, hc⟩ := Option.isSome_iff_exists.mp hfound
    rw [viewClassOf, hc, Option.getD_some, bne_iff_ne]
    rintro rfl
    exact hother (mem_of_find?_eq_some hc)

theorem find?_getD_eq_iff {l : List Text} {p : Text → Bool} {d x : Text} (hx : x ∈ l → p x)
    (hd : x ∉ l → x = d) : (l.find? p).getD d = x ↔ ∀ c ∈ l.takeWhile (· != x), p c = false := by
  induction l with
  | nil => simp [hd not_mem_nil]
  | cons a l ih =>
    by_cases ha : a = x
    · subst ha
      simp [hx mem_cons_self]
    · rw [takeWhile_cons_of_pos (by simpa using ha), forall_mem_cons]
      cases hp : p a with
      | true => simp [hp, ha]
      | false =>
        rw [find?_cons_of_neg (by simp [hp]), ih (fun h => hx (mem_cons_of_mem _ h))
          (fun h => hd ?_)]
        · simp
        · simp [h, Ne.symm ha]

/-- the view that is named is the one that is taken, unless one of higher rank is found there too -/
theorem viewClassOf_eq_iff {params : Text} (h : type ∈ "View".toList :: viewClasses)
    (hin : type <:+: params) :
    viewClassOf params = type ↔ ∀ c ∈ viewClasses.takeWhile (· != type), ¬ c <:+: params := by
  simp only [← occursIn_eq_false_iff]
  refine find?_getD_eq_iff (fun _ => (occursIn_iff _ _).mpr hin) fun hother => ?_
  exact (mem_cons.mp h).resolve_right hother

def maskedClasses : List Text :=
  ["RadioButton", "NestedScrollView", "BottomNavigationView", "FloatingActionButton"]

theorem not_masked_iff (h : type ∈ "View".toList :: viewClasses) :
    (∀ c ∈ viewClasses.takeWhile (· != type), ¬ c <:+: type) ↔ type ∉ maskedClasses := by
  have htable : ("View".toList :: viewClasses).all (fun t =>
      (viewClasses.takeWhile (· != t)).all (fun c => !occursIn c t)
        == !maskedClasses.contains t) = true := by
    decide +kernel
  have hrow := all_eq_true.mp htable type h
  simp only [← occursIn_eq_false_iff]
  rw [beq_iff_eq, Bool.eq_iff_iff, all_eq_true] at hrow
  simpa using hrow

theorem viewParameter_eq_none {code : Text} (h : ∀ i, ¬ LineOpens (methodLine name) code i) :
    viewParameter code name = none := by
  rw [viewParameter, methodExtent_eq_none_iff.mpr h]

/-- the view that some parameters name, if they name one -/
def viewIn (params : Text) : Option Text :=
  if params.isEmpty then none
  else if viewClassOf params != "View"
    || occursIn "View" params then some (viewClassOf params) else none

section
variable {name a x inner b r : Text}
  (hfirst : IsLeast {i | LineOpens (methodLine name)
    (a ++ (x ++ '(' :: (inner ++ ')' :: b) ++ '\x7b' :: r)) i} a.length)
  (hpaired : Paired (a ++ (x ++ '(' :: (inner ++ ')' :: b) ++ '\x7b' :: r)))
  (hopen : '\x7b' ∉ x ++ '(' :: (inner ++ ')' :: b))
    (hclose : '\x7d' ∉ x ++ '(' :: (inner ++ ')' :: b))
  (hx : '(' ∉ x) (hinner : ')' ∉ inner)
include hfirst hpaired hopen hclose hx hinner

theorem viewParameter_first :
    viewParameter (a ++ (x ++ '(' :: (inner ++ ')' :: b) ++ '\x7b' :: r)) name
      = viewIn (trim inner) := by
  obtain ⟨m, hm, hgroup⟩ := parameterList_search (y := b) hx hinner
  obtain ⟨n, hn⟩ := exists_closing hpaired hopen hclose
  set w := x ++ '(' :: (inner ++ ')' :: b)
  have hextent : methodExtent (a ++ (w ++ '\x7b' :: r)) name
      = some (a.length, some (a.length + (w.length + (1 + n)) + 1)) := by
    rw [methodExtent, (firstLineOffset_eq_some_iff (methodLine_free name)).mpr hfirst,
      Option.map_some, drop_left, hn]
    rfl
  have hsignature : ((w ++ '\x7b' :: r).take (a.length + (w.length + (1 + n)) + 1
    - a.length)).takeWhile (· != '\x7b')
      = w := by
    rw [show a.length + (w.length + (1 + n)) + 1 - a.length = w.length + (n + 1 + 1) by omega,
      take_length_add_append, take_succ_cons, takeWhile_of_not_mem hopen]
  simp only [viewParameter, hextent, drop_left, hsignature, hm, hgroup, viewIn]

theorem viewParameter_eq (htype : type ∈ "View".toList :: viewClasses)
    (hin : type <:+: trim inner) :
    viewParameter (a ++ (x ++ '(' :: (inner ++ ')' :: b) ++ '\x7b' :: r)) name
      = some (viewClassOf (trim inner)) := by
  have hsome : (trim inner).isEmpty = false := by
    rw [← Bool.not_eq_true, List.isEmpty_iff]
    intro hnil
    rw [hnil] at hin
    exact (covers_word.mp (viewClass_covers htype)).1 (infix_nil.mp hin)
  rw [viewParameter_first hfirst hpaired hopen hclose hx hinner, viewIn, hsome, namesView htype hin]
  rfl

end

theorem avoids_headStart (hx : IsMark x) : headStart.Avoids x := by
  have hresult : (oneOf [keyword "void", keyword "boolean"]).Avoids x :=
    avoids_orElse (hx.avoids_keyword (by decide +kernel)) (hx.avoids_keyword (by decide +kernel))
  exact avoids_andThen hx.avoids_blanks (avoids_andThen (avoids_maybe hx.avoids_accessModifier)
    (avoids_andThen (avoids_maybe (hx.avoids_keyword (by decide +kernel))) (avoids_maybe hresult)))

theorem getLast?_oneOf {k k' : String}
    (h : (Pattern.maybe (oneOf [keyword k, keyword k'])).Covers t) :
    ∀ c, t.getLast? = some c → isBlank c := by
  rcases h with rfl | h | h
  · exact getLast?_keyword (k := k) (.inl rfl)
  · exact getLast?_keyword (.inr h)
  · exact getLast?_keyword (.inr h)

theorem headStart_last {lead : Text} (h : headStart.Covers lead) : ∀ c, lead.getLast? = some c
    → isBlank c := by
  obtain ⟨b, _, rfl, hb, access, _, rfl, haccess, static, result, rfl, hstatic, hresult⟩ := h
  have hlast : ∀ c, access.getLast? = some c → isBlank c := by
    rcases haccess with rfl | h | h | h
    · exact getLast?_keyword (k := "public") (.inl rfl)
    · exact getLast?_keyword (.inr h)
    · exact getLast?_keyword (.inr h)
    · exact getLast?_keyword (.inr h)
  exact getLast?_append_blank (fun c hc => hb c (mem_of_getLast? hc)) (getLast?_append_blank hlast
    (getLast?_append_blank (getLast?_keyword hstatic) (getLast?_oneOf hresult)))

/-! ## annotated methods that take a view -/

def voidWord : Text := "void".toList

def clickArgument : Pattern :=
  seq [blanks, .maybe (seq [lit "\x7b", blanks]), .maybe resourceIds,
    .maybe (seq [blanks, lit "\x7d"]), blanks]

theorem avoids_clickArgument (hx : IsMark x) (hsigns : x ∉ ['\x7b', '\x7d', ',']) :
    clickArgument.Avoids x := by
  obtain ⟨hopen, hclose, hcomma⟩ : x ≠ '\x7b' ∧ x ≠ '\x7d' ∧ x ≠ ',' := by simpa using hsigns
  have hids : resourceIds.Avoids x := avoids_andThen hx.avoids_resourceId (avoids_many
    (avoids_andThen hx.avoids_blanks (avoids_andThen (avoids_text (by simpa using hcomma))
      (avoids_andThen hx.avoids_blanks hx.avoids_resourceId))))
  have hbrace : (Pattern.maybe (seq [lit "\x7b", blanks])).Avoids x :=
    avoids_maybe (avoids_andThen (avoids_text (by simpa using hopen)) hx.avoids_blanks)
  have hbrace' : (Pattern.maybe (seq [blanks, lit "\x7d"])).Avoids x :=
    avoids_maybe (avoids_andThen hx.avoids_blanks (avoids_text (by simpa using hclose)))
  exact avoids_andThen hx.avoids_blanks (avoids_andThen hbrace (avoids_andThen (avoids_maybe hids)
    (avoids_andThen hbrace' hx.avoids_blanks)))

/-- a click annotation and the header of its method, which takes one view -/
structure ClickMethod where
  space : Text
  argument : Text
  gap : Text
  access : Text
  stretch : Text
  name : Text
  room : Text
  pad : Text
  type : Text
  sep : Text
  param : Text
  tail : Text
  space_blank : blanks.Covers space
  argument_ids : clickArgument.Covers argument
  gap_blank : blanks.Covers gap
  access_public : (Pattern.maybe (keyword "public")).Covers access
  stretch_blank : blanks1.Covers stretch
  name_word : word.Covers name
  room_blank : blanks.Covers room
  pad_blank : blanks.Covers pad
  type_view : type ∈ "View".toList :: viewClasses
  sep_blank : blanks1.Covers sep
  param_word : word.Covers param
  tail_blank : blanks.Covers tail

namespace ClickMethod

variable (D : ClickMethod)

def annotated : Text := handlerMark ++ D.space ++ '(' :: (D.argument ++ [')'])

def head : Text := D.gap ++ D.access ++ voidWord ++ D.stretch

def inner : Text := D.pad ++ D.type ++ D.sep ++ D.param ++ D.tail

def text : Text := D.annotated ++ D.head ++ (D.name ++ (D.room ++ '(' :: (D.inner ++ [')'])))

section
variable {x : Char} (hx : IsMark x)
include hx

theorem not_mem_head : x ∉ D.head := by
  have hvoid : x ∉ voidWord := hx.avoids_lit (s := "void") (by decide +kernel) _ rfl
  simp only [head, mem_append, not_or]
  exact ⟨⟨⟨hx.avoids_blanks _ D.gap_blank,
    avoids_maybe (hx.avoids_keyword (by decide +kernel)) _ D.access_public⟩, hvoid⟩,
    hx.avoids_blanks1 _ D.stretch_blank⟩

theorem not_mem_inner : x ∉ D.inner := by
  simp only [inner, mem_append, not_or]
  exact ⟨⟨⟨⟨hx.avoids_blanks _ D.pad_blank, hx.avoids_word _ (viewClass_covers D.type_view)⟩,
    hx.avoids_blanks1 _ D.sep_blank⟩, hx.avoids_word _ D.param_word⟩,
      hx.avoids_blanks _ D.tail_blank⟩

end

theorem covers : annotatedClick.Covers D.text := by
  obtain ⟨b₁, _, hargument, hb₁, brace, _, rfl, hbrace, ids, _, rfl, hids, brace', b₂, rfl,
    hbrace', hb₂⟩ :=
    D.argument_ids
  refine ⟨handlerMark, _, ?_, rfl, D.space, _, rfl, D.space_blank, ['('], _, rfl, rfl, b₁, _, rfl,
    hb₁, brace, _, rfl,
    hbrace, ids, _, rfl, hids, brace', _, rfl, hbrace', b₂, _, rfl, hb₂, [')'], _, rfl, rfl,
    D.gap, _, rfl, D.gap_blank, D.access, _, rfl, D.access_public, voidWord ++ D.stretch, _, rfl,
    .inr ⟨voidWord, D.stretch, rfl, rfl, D.stretch_blank⟩, D.name, _, rfl, D.name_word, D.room, _,
    rfl, D.room_blank,
    ['('], D.inner ++ [')'], rfl, rfl, D.inner, [')'], rfl, covers_butNot_iff.mpr ?_, rfl⟩
  · simp [text, annotated, head, hargument]
  · exact D.not_mem_inner (by decide +kernel)

theorem head_last : ∀ c, D.head.getLast? = some c → isBlank c := by
  intro c hc
  obtain ⟨hne, hblank⟩ := covers_run1.mp D.stretch_blank
  rw [head, getLast?_append_of_ne_nil _ hne] at hc
  exact hblank c (mem_of_getLast? hc)

end ClickMethod

/-! ## the handler is found -/

theorem nameOf_eq {x u space y : Text} (hx : ')' ∉ x) (hopen : '(' ∉ u)
    (hu : ∀ c, u.getLast? = some c → isBlank c = true) (hname : word.Covers name)
    (hspace : blanks.Covers space) :
    nameOf (x ++ ')' :: (u ++ (name ++ (space ++ '(' :: y)))) = name := by
  have hmiddle : '(' ∉ u ++ name ++ space := by
    simp only [mem_append, not_or]
    exact ⟨⟨hopen, avoids_run1 (by decide) _ hname⟩, avoids_run (by decide) _ hspace⟩
  have hassoc : u ++ (name ++ (space ++ '(' :: y)) = u ++ name ++ space ++ '(' :: y := by simp
  rw [nameOf, dropWhile_of_not_mem hx, tail_cons, hassoc, takeWhile_of_not_mem hmiddle]
  exact lastWord_append (fun c hc => isWord_of_isBlank (hu c hc)) hname hspace

/-- the name that is read is the last word in front of the parameters -/
theorem reads_annotatedClick {gs : List (Nat × Text)} (h : annotatedClick.Reads s gs) :
    ∃ ids, ∀ r, gs = [(2, nameOf (s ++ r)), (1, ids)] := by
  change (Pattern.andThen (.text handlerMark) _).Reads s gs at h
  obtain ⟨_, r₁, _, _, rfl, rfl, ⟨rfl, rfl⟩, h⟩ := h
  obtain ⟨space, r₂, _, _, rfl, rfl, ⟨hspace, rfl⟩, h⟩ := h
  obtain ⟨_, r₃, _, _, rfl, rfl, ⟨rfl, rfl⟩, h⟩ := h
  obtain ⟨b₁, r₄, _, _, rfl, rfl, ⟨hb₁, rfl⟩, h⟩ := h
  obtain ⟨brace, r₅, _, _, rfl, rfl, hbrace, h⟩ := h
  obtain ⟨ids, r₆, _, _, rfl, rfl, ⟨_, rfl, hids⟩, h⟩ := h
  obtain ⟨brace', r₇, _, _, rfl, rfl, hbrace', h⟩ := h
  obtain ⟨b₂, r₈, _, _, rfl, rfl, ⟨hb₂, rfl⟩, h⟩ := h
  obtain ⟨head, name, room, inner, rfl, hhead, hlast, hname, hroom, -, rfl⟩ := reads_handlerTail h
  obtain rfl := hbrace.groups_eq_nil rfl
  obtain rfl := hids.groups_eq_nil rfl
  obtain rfl := hbrace'.groups_eq_nil rfl
  -- only the annotation and the parameters have parentheses, so the name stands between the two
  have hargument : ')' ∉ b₁ ++ (brace ++ (ids ++ (brace' ++ b₂))) :=
    avoids_clickArgument (by decide +kernel) (by decide) _
      ⟨b₁, _, rfl, hb₁, brace, _, rfl, hbrace.covers, ids, _, rfl,
      hids.covers, brace', b₂, rfl, hbrace'.covers, hb₂⟩
  have hclosed : ')' ∉ handlerMark
      ++ (space ++ '(' :: (b₁ ++ (brace ++ (ids ++ (brace' ++ b₂))))) := by
    rw [mem_append, mem_append, mem_cons, not_or, not_or, not_or]
    exact ⟨by decide, avoids_run (by decide) _ hspace, by decide, hargument⟩
  refine ⟨ids, fun r => ?_⟩
  have hread := nameOf_eq (y := inner ++ ')' :: r) hclosed
    (hhead (by decide) (by decide) (by decide)) hlast hname hroom
  have hopen : "(" = ['('] := rfl
  simp only [append_assoc, cons_append] at hread
  simp only [hopen, append_assoc, cons_append, nil_append, hread]

namespace ClickMethod

variable (D : ClickMethod)

/-- no handler begins in front and ends inside or behind -/
def Apart (front back : Text) : Prop :=
  ∀ s w, s ≠ [] → w ≠ [] → s <:+ front → w <+: D.text ++ back → ¬ annotatedClick.Covers (s ++ w)

theorem nameOf_text (back : Text) : nameOf (D.text ++ back) = D.name := by
  have hclosed : ')' ∉ handlerMark ++ D.space ++ '(' :: D.argument := by
    simp only [mem_append, mem_cons, not_or]
    exact ⟨⟨by decide, avoids_run (by decide) _ D.space_blank⟩, by decide,
      avoids_clickArgument (by decide +kernel) (by decide) _ D.argument_ids⟩
  have hread := nameOf_eq (y := D.inner ++ ')' :: back) hclosed (D.not_mem_head (by decide +kernel))
    D.head_last D.name_word D.room_blank
  simp only [text, annotated, append_assoc, cons_append, nil_append] at hread ⊢
  exact hread

theorem exists_match (h : D.Apart front back) :
    ∃ m ∈ annotatedClick.findAll (front ++ D.text ++ back), m.group 2 = D.name := by
  have hempty : ¬ annotatedClick.Covers [] := by
    rintro ⟨_, _, he, rfl, -⟩
    cases he
  obtain ⟨m, hm, hstart, hstop⟩ := exists_match_over (by decide) hempty D.covers front back
  have hof := of_mem_findAll hm
  obtain ⟨u, v, ht, hu⟩ := hof.place
  rw [append_assoc, append_assoc u] at ht
  obtain ⟨x, rfl⟩ := prefix_of_prefix_length_le ⟨_, ht.symm⟩ ⟨_, rfl⟩
    (show u.length ≤ front.length by omega)
  rw [append_assoc] at ht
  have hplace := append_cancel_left ht
  -- the match does not begin before the annotation
  have hx : x = [] := by
    by_contra hne
    have hlt : x.length < m.text.length := by
      rw [hof.stop, hu, length_append] at hstop
      omega
    obtain ⟨w, hw⟩ : x <+: m.text := prefix_of_prefix_length_le ⟨_, hplace⟩ ⟨v, rfl⟩ hlt.le
    have hrest : D.text ++ back = w ++ v := by
      rw [← hw, append_assoc] at hplace
      exact append_cancel_left hplace
    have hover : w ≠ [] := by
      rintro rfl
      rw [← hw, append_nil] at hlt
      exact lt_irrefl _ hlt
    exact h x w hne hover ⟨u, rfl⟩ ⟨v, hrest.symm⟩ (hw ▸ hof.covers)
  rw [hx, nil_append] at hplace
  obtain ⟨ids, hgroups⟩ := reads_annotatedClick hof.reads
  refine ⟨m, hm, ?_⟩
  rw [Match.group, Match.group?, hgroups v, ← hplace, D.nameOf_text]
  rfl

end ClickMethod

/-! ## the handler on its line -/

theorem exists_last (h : x ∈ t) : ∃ a b, t = a ++ x :: b ∧ x ∉ b := by
  obtain ⟨b, a, he, hb⟩ := eq_append_cons_of_mem (mem_reverse.mpr h)
  refine ⟨a.reverse, b.reverse, ?_, by simpa using hb⟩
  rw [← reverse_reverse t, he]
  simp

theorem append_last_inj {b r : Text} (hr : x ∉ r) (hs : x ∉ s) (h : a ++ x :: r = b ++ x :: s) :
    a = b ∧ r = s := by
  have hrev : r.reverse ++ x :: a.reverse = s.reverse ++ x :: b.reverse := by
    simpa using congrArg reverse h
  obtain ⟨hback, hfront⟩ := append_first_inj (by simpa using hr) (by simpa using hs) hrev
  exact ⟨reverse_injective hfront, reverse_injective hback⟩

def bodyOpening : Pattern := seq [blanks, parameters, blanks, lit "\x7b"]

namespace ClickMethod

variable (D : ClickMethod)

/-- nowhere else does the name stand on its own with parameters and an opening brace behind it -/
def Sole (front back : Text) : Prop := ∀ a b, front ++ D.text ++ back = a ++ (D.name ++ b) →
  (∀ c, a.getLast? = some c → isWord c = false) → Starts bodyOpening b
    → a = front ++ (D.annotated ++ D.head)

/-- the header starts on a line below the annotation, and goes on to the brace on that line -/
def OnOwnLine (back : Text) : Prop :=
  '\n' ∈ D.head ∧ '\n' ∉ D.room ++ D.inner ∧ ∃ b r, back = b ++ '\x7b' :: r ∧ ∀ c ∈ b, isSpace c

theorem headStart_void {b access : Text} (hb : blanks.Covers b)
    (haccess : (Pattern.maybe (keyword "public")).Covers access) :
    headStart.Covers (b ++ (access ++ (voidWord ++ D.stretch))) := by
  have haccess' : (Pattern.maybe accessModifier).Covers access := haccess.imp_right .inl
  exact ⟨b, _, rfl, hb, access, _, rfl, haccess', [], _, rfl, .inl rfl,
    .inr (.inl ⟨voidWord, D.stretch, rfl, rfl, D.stretch_blank⟩)⟩

/-- what stands behind the last newline may stand in front of a name -/
theorem exists_headStart (h : '\n' ∈ D.head) :
    ∃ x lead, D.head = x ++ '\n' :: lead ∧ '\n' ∉ lead ∧ headStart.Covers lead := by
  have hvoid : '\n' ∉ voidWord := by decide
  have hblank : ∀ {a b t : Text}, blanks.Covers t → t = a ++ '\n' :: b → blanks.Covers b := by
    rintro a b _ ht rfl c hc
    exact ht c (by simp [hc])
  -- the last newline is behind `void`, else behind `public`, else in front of both
  by_cases hstretch : '\n' ∈ D.stretch
  · obtain ⟨a, b, he, hb⟩ := exists_last hstretch
    have hlead := hblank (covers_run1.mp D.stretch_blank).2 he
    exact ⟨D.gap ++ D.access ++ voidWord ++ a, b, by simp [head, he], hb, b, [], by simp, hlead, [],
      [], rfl, .inl rfl, [], [], rfl, .inl rfl, .inl rfl⟩
  · by_cases haccess : '\n' ∈ D.access
    · have hpublic : '\n' ∉ "public".toList := by decide
      rcases D.access_public with hnone | ⟨_, gap, he, rfl, hgap⟩
      · rw [hnone] at haccess
        cases haccess
      · rw [he, mem_append, or_iff_right hpublic] at haccess
        obtain ⟨a, b, rfl, hb⟩ := exists_last haccess
        have hlead := hblank (covers_run1.mp hgap).2 rfl
        refine ⟨D.gap ++ ("public".toList ++ a), b
          ++ ([] ++ (voidWord ++ D.stretch)), by simp [head, he], ?_,
          D.headStart_void hlead (.inl rfl)⟩
        simp [hb, hvoid, hstretch]
    · have hgap : '\n' ∈ D.gap := by simpa [head, hstretch, haccess, hvoid] using h
      obtain ⟨a, b, he, hb⟩ := exists_last hgap
      refine ⟨a, b ++ (D.access ++ (voidWord ++ D.stretch)), by simp [head, he], ?_,
        D.headStart_void (hblank D.gap_blank he) D.access_public⟩
      simp [hb, haccess, hvoid, hstretch]

theorem text_append (front back : Text) : front ++ D.text ++ back
    = front ++ (D.annotated ++ D.head)
      ++ (D.name ++ (D.room ++ '(' :: (D.inner ++ ')' :: back))) := by
  simp [text]

theorem exists_newline {lead : Text} (ha : a = [] ∨ ∃ t, a = t ++ ['\n'])
    (hlead : headStart.Covers lead) (h : a ++ lead = front ++ (D.annotated ++ D.head)) :
    ∃ x, a = front ++ (D.annotated ++ (x ++ ['\n'])) ∧ D.head = x ++ '\n' :: lead := by
  have hclosed : ')' ∉ lead := avoids_headStart (by decide +kernel) _ hlead
  have hparen : a ++ lead = front ++ (handlerMark ++ D.space ++ '(' :: D.argument) ++ ')'
      :: D.head := by
    rw [h, annotated]
    simp
  -- the annotation ends with a parenthesis, which `lead` does not hold, so the line starts behind
  -- it
  rcases append_eq_append_iff.mp hparen with ⟨v, -, rfl⟩ | ⟨v, rfl, hv⟩
  · simp at hclosed
  · cases v with
    | nil => simp [← show ')' :: D.head = lead from hv] at hclosed
    | cons c v =>
      obtain ⟨rfl, hhead⟩ := List.cons.inj hv
      rcases ha with ha | ⟨t, ha⟩
      · simp at ha
      · rcases eq_nil_or_concat v with rfl | ⟨x, c, rfl⟩
        · exact absurd (append_inj' ha rfl).2 (by decide)
        · have ha' : (front ++ (handlerMark ++ D.space ++ '(' :: D.argument) ++ ')' :: x) ++ [c] = t
              ++ ['\n'] := by
            simpa using ha
          obtain rfl := singleton_inj.mp (append_inj' ha' rfl).2
          exact ⟨x, by simp [annotated], by rw [hhead]; simp⟩

/-- a line that opens with the name of the method is the line of its header -/
theorem onOwnLine_of_opens {i : Nat} (hsole : D.Sole front back)
    (h : LineOpens (methodLine D.name) (front ++ D.text ++ back) i) : D.OnOwnLine back
      ∧ ∃ x lead, D.head = x ++ '\n' :: lead ∧ '\n' ∉ lead
        ∧ i = (front ++ (D.annotated ++ (x ++ ['\n']))).length := by
  obtain ⟨a, s, r, hcode, rfl, ha, hflat, hs⟩ := lineOpens_iff.mp h
  obtain ⟨lead, space, inner, b, rfl, hlead, hspace, hinner, hb⟩ := methodLine_covers_iff.mp hs
  have hcode' : front ++ D.text ++ back
      = a ++ lead ++ (D.name ++ (space ++ '(' :: (inner ++ ')' :: (b ++ '\x7b' :: r)))) := by
    rw [hcode]
    simp
  have hlast : ∀ c, (a ++ lead).getLast? = some c → isWord c = false := by
    intro c hc
    refine isWord_of_isBlank (getLast?_append_blank (fun c hc => ?_) (headStart_last hlead) c hc)
    rcases ha with rfl | ⟨front, rfl⟩
    · cases hc
    · rw [getLast?_concat] at hc
      rw [← Option.some.inj hc]
      decide
  have hstarts : Starts bodyOpening (space ++ '(' :: (inner ++ ')' :: (b ++ '\x7b' :: r))) :=
    ⟨space ++ ('(' :: (inner ++ [')']) ++ (b ++ ['\x7b'])), r, by simp, space, _, rfl, hspace,
      _, _, rfl,
      ⟨['('], _, rfl, rfl, inner, [')'], rfl, covers_butNot_iff.mpr hinner, rfl⟩, b, ['\x7b'],
      rfl, hb, rfl⟩
  have hplace := hsole _ _ hcode' hlast hstarts
  rw [D.text_append, ← hplace] at hcode'
  -- behind the name the line is the header
  have hbehind := append_cancel_left (append_cancel_left hcode')
  obtain ⟨hroom, hbehind⟩ :=
    append_first_inj (avoids_run (by decide) _ D.room_blank)
      (avoids_run (by decide) _ hspace) hbehind
  obtain ⟨hparams, hback⟩ := append_first_inj (D.not_mem_inner (by decide +kernel)) hinner hbehind
  simp only [mem_append, mem_cons, not_or] at hflat
  obtain ⟨hflatLead, -, hflatRoom, -, hflatInner, -, hflatBack, -⟩ := hflat
  obtain ⟨x, rfl, hhead⟩ := D.exists_newline ha hlead hplace
  refine ⟨⟨by simp [hhead], by simp [hroom, hparams, hflatRoom, hflatInner], b, r,
    hback, fun c hc => ?_⟩, x, lead, hhead, hflatLead, rfl⟩
  rw [isSpace, hb c hc, Bool.true_and, bne_iff_ne]
  rintro rfl
  exact hflatBack hc

theorem isLeast_opens (hsole : D.Sole front back) (h : D.OnOwnLine back) :
    ∃ x lead, D.head = x ++ '\n' :: lead
      ∧ IsLeast {i | LineOpens (methodLine D.name) (front ++ D.text ++ back) i}
      (front ++ (D.annotated ++ (x ++ ['\n']))).length := by
  obtain ⟨hnewline, hflat, b, r, rfl, hb⟩ := h
  obtain ⟨x, lead, hhead, hlead, hcovers⟩ := D.exists_headStart hnewline
  refine ⟨x, lead, hhead, ?_, fun j hj => ?_⟩
  · refine lineOpens_iff.mpr ⟨front ++ (D.annotated ++ (x ++ ['\n'])),
      lead ++ (D.name ++ (D.room ++ '(' :: (D.inner ++ ')' :: (b ++ ['\x7b'])))), r, ?_, rfl,
      .inr ⟨front ++ (D.annotated ++ x), by simp⟩, ?_, methodLine_covers_iff.mpr
        ⟨lead, D.room, D.inner, b, rfl,
        hcovers, D.room_blank, D.not_mem_inner (by decide +kernel), fun c hc =>
          isBlank_of_isSpace (hb c hc)⟩⟩
    · rw [D.text_append, hhead]
      simp
    · have hname : '\n' ∉ D.name := avoids_run1 (by decide) _ D.name_word
      have hback : '\n' ∉ b := fun hm => absurd (hb _ hm) (by decide)
      simp only [mem_append, not_or] at hflat
      simp [hlead, hname, hback, hflat.1, hflat.2]
  · obtain ⟨-, x', lead', hhead', hlead', rfl⟩ := D.onOwnLine_of_opens hsole hj
    obtain ⟨rfl, -⟩ := append_last_inj hlead hlead' (hhead.symm.trans hhead')
    exact le_rfl

theorem infix_inner_iff {c : Text} (hc : ∀ x ∈ c, isBlank x = false) :
    c <:+: trim D.inner ↔ c <:+: D.type ∨ c <:+: D.param := by
  obtain ⟨hne, hsep⟩ := covers_run1.mp D.sep_blank
  have hinner : D.inner = D.pad ++ (D.type ++ D.sep ++ D.param ++ D.tail) := by simp [inner]
  rw [hinner, trim_blanks_append D.pad_blank, trim_append_blanks D.tail_blank, infix_trim_iff hc,
    infix_around_blanks_iff hc hne hsep]

theorem type_in_inner : D.type <:+: trim D.inner :=
  (D.infix_inner_iff (isBlank_of_mem_word (viewClass_covers D.type_view))).mpr (.inl infix_rfl)

theorem viewParameter_text (hpaired : Paired (front ++ D.text ++ back)) (hsole : D.Sole front back)
    (h : D.OnOwnLine back) : viewParameter (front ++ D.text ++ back) D.name
      = some (viewClassOf (trim D.inner)) := by
  obtain ⟨x, lead, hhead, hleast⟩ := D.isLeast_opens hsole h
  obtain ⟨-, -, b, r, rfl, hb⟩ := h
  have hcode : front ++ D.text ++ (b ++ '\x7b' :: r) = front ++ (D.annotated ++ (x ++ ['\n']))
      ++ (lead ++ (D.name ++ D.room) ++ '(' :: (D.inner ++ ')' :: b) ++ '\x7b' :: r) := by
    rw [D.text_append, hhead]
    simp
  have hfront : ∀ {c : Char}, IsMark c → c ∉ lead ++ (D.name ++ D.room) := by
    intro c hc
    have hlead := D.not_mem_head hc
    rw [hhead, mem_append, mem_cons, not_or, not_or] at hlead
    simp only [mem_append, not_or]
    exact ⟨hlead.2.2, hc.avoids_word _ D.name_word, hc.avoids_blanks _ D.room_blank⟩
  have hsignature : ∀ {c : Char}, IsMark c → c ≠ '(' → c ≠ ')' →
      c ∉ lead ++ (D.name ++ D.room) ++ '(' :: (D.inner ++ ')' :: b) := by
    intro c hc hopen hclose hm
    have hback : c ∉ b := hc.avoids_blanks b fun x hx => isBlank_of_isSpace (hb x hx)
    rcases mem_append.mp hm with hm | hm
    · exact hfront hc hm
    · simp [D.not_mem_inner hc, hopen, hclose, hback] at hm
  rw [hcode] at hpaired hleast ⊢
  exact viewParameter_eq hleast hpaired (hsignature (by decide +kernel) (by decide) (by decide))
    (hsignature (by decide +kernel) (by decide) (by decide)) (hfront (by decide +kernel))
    (D.not_mem_inner (by decide +kernel)) D.type_view D.type_in_inner

theorem text_eq_mark_append : ∃ t, D.text = handlerMark ++ t :=
  ⟨D.space ++ '(' :: (D.argument ++ [')']) ++ D.head
    ++ (D.name ++ (D.room ++ '(' :: (D.inner ++ [')']))), by simp [text, annotated]⟩

theorem mentions (front back : Text) : mentionsButterKnife (front ++ D.text ++ back) := by
  have hmark : occursIn "@OnClick" (front ++ D.text ++ back) := by
    obtain ⟨t, ht⟩ := D.text_eq_mark_append
    have hin : handlerMark <:+: front ++ D.text ++ back := ⟨front, t ++ back, by simp [ht]⟩
    exact (occursIn_iff _ _).mpr hin
  unfold mentionsButterKnife
  rw [hmark, Bool.or_true, Bool.true_or, Bool.true_or]

theorem apart_of_first (h : ¬ handlerMark <:+: front) (back : Text) : D.Apart front back := by
  rintro s w hs hw hfront hback ⟨_, t, he, rfl, -⟩
  have hmark : handlerMark = '@' :: "OnClick".toList := by decide
  have hwhole : ¬ handlerMark <+: s := fun hp => h (hp.isInfix.trans hfront.isInfix)
  rcases append_eq_append_iff.mp he with ⟨v, hv, rfl⟩ | ⟨v, rfl, -⟩
  · -- the mark would go on with another one
    cases v with
    | nil => exact hwhole (by rw [append_nil] at hv; exact ⟨[], by rw [append_nil]; exact hv⟩)
    | cons c v =>
      obtain ⟨r, hr⟩ := D.text_eq_mark_append
      rw [hr, hmark, cons_append, cons_append, cons_append, cons_prefix_cons] at hback
      obtain ⟨x, s, rfl⟩ := exists_cons_of_ne_nil hs
      have htail : "OnClick".toList = s ++ c :: v := (List.cons.inj (hmark.symm.trans hv)).2
      have hmem : '@' ∈ "OnClick".toList := by
        rw [htail, hback.1]
        simp
      exact absurd hmem (by decide)
  · exact hwhole ⟨v, rfl⟩

theorem sole_of_check (h : ∀ n ∈ range ((front ++ D.text ++ back).length + 1),
    D.name.isPrefixOf ((front ++ D.text ++ back).drop n) →
    (bodyOpening.matchStart (((front ++ D.text ++ back).drop n).drop D.name.length)).isSome →
    n = (front ++ (D.annotated ++ D.head)).length) : D.Sole front back := by
  intro a b hcode _ hstarts
  have hdrop : (front ++ D.text ++ back).drop a.length = D.name ++ b := by rw [hcode, drop_left]
  have hlen := h a.length (by rw [mem_range, hcode]; simp)
    (by rw [hdrop, isPrefixOf_iff_prefix]; exact ⟨b, rfl⟩)
    (by rw [hdrop, drop_left]; exact (matchStart_isSome_iff rfl).mpr hstarts)
  rw [D.text_append] at hcode
  exact (append_inj hcode hlen.symm).1.symm

/-! ## what is found -/

/-- the name of the parameter holds no class that would be taken for its type, and its type is no
masked one -/
def Plain : Prop := D.type ∉ maskedClasses ∧ ∀ c ∈ viewClasses.takeWhile (· != D.type), ¬ c
    <:+: D.param

theorem viewClassOf_inner_iff : viewClassOf (trim D.inner) = D.type ↔ D.Plain := by
  rw [viewClassOf_eq_iff D.type_view D.type_in_inner, Plain, ← not_masked_iff D.type_view,
    ← forall₂_and]
  refine forall₂_congr fun c hc => ?_
  have hword := viewClass_covers (mem_cons_of_mem _ ((takeWhile_subset _) hc))
  rw [D.infix_inner_iff (isBlank_of_mem_word hword), not_or]

end ClickMethod

/-- nothing is taken for a comment: there is no mark of one, and no line starts with a star -/
structure Uncommented (t : Text) : Prop where
  unmarked : ∀ mark ∈ ["//".toList, "/*".toList, "*/".toList], ¬ mark <:+: t
  unstarred : ∀ l ∈ lines t, ¬ "*".toList <+: trim l

theorem withoutComments_eq_self (h : Uncommented t) : withoutComments t = t := by
  have hstep : ∀ l ∈ lines t, commentStep false l = ([l], false) := by
    intro l hl
    have hline : ∀ mark ∈ ["//".toList, "/*".toList, "*/".toList], occursIn mark l = false :=
      fun mark hm =>
      (occursIn_eq_false_iff mark l).mpr fun hin =>
        h.unmarked mark hm (hin.trans (infix_of_mem_lines hl))
    have hslash := hline "//".toList (by simp)
    have hopen := hline "/*".toList (by simp)
    have hclose := hline "*/".toList (by simp)
    have hstar : "*".toList.isPrefixOf (trim l) = false := by
      rw [← Bool.not_eq_true, List.isPrefixOf_iff_prefix]
      exact h.unstarred l hl
    unfold commentStep
    rw [hopen, hclose, hslash, hstar]
    rfl
  have hkept : ∀ ls : List Text, (∀ l ∈ ls, commentStep false l = ([l], false))
      → keptLines false ls = ls := by
    intro ls
    induction ls with
    | nil => exact fun _ => rfl
    | cons l ls ih =>
      intro hls
      obtain ⟨hl, hls⟩ := forall_mem_cons.mp hls
      rw [keptLines_cons, hl, ih hls]
      rfl
  rw [withoutComments, hkept _ hstep, unlines_lines]

theorem ofMatch_view {code : Text} {m : Match} (h : (Handler.ofMatch code m).method = .given name) :
    (Handler.ofMatch code m).takesView = .given (viewParameter code name).isSome
      ∧ (Handler.ofMatch code m).viewType = .given ((viewParameter code name).getD []) := by
  obtain rfl : trim (m.group 2) = name := Slot.given.inj h
  exact ⟨rfl, rfl⟩

/-- **what is noted of the view that a click handler takes is right exactly if its header stands on
a line of its own, up to the brace, and neither its type nor its parameter hides the name of another
view** -/
theorem click_view_noted_iff (D : ClickMethod) {front back : Text}
    (hcomments : Uncommented (front ++ D.text ++ back))
    (hpaired : Paired (front ++ D.text ++ back)) (hsole : D.Sole front back)
    (hapart : D.Apart front back) :
    ∃ hs, (Findings.detect (front ++ D.text ++ back)).clicks = .given hs
      ∧ (∃ h ∈ hs, h.method = .given D.name)
      ∧ ∀ h ∈ hs, h.method = .given D.name → (h.takesView = .given true ↔ D.OnOwnLine back)
        ∧ (h.takesView = .given true ∧ h.viewType = .given D.type ↔ D.OnOwnLine back
          ∧ D.Plain) := by
  refine ⟨detectClicks (front ++ D.text ++ back), ?_, ?_, ?_⟩
  · rw [Findings.detect, if_pos (D.mentions front back)]
  · obtain ⟨m, hm, hname⟩ := D.exists_match hapart
    rw [detectClicks, withoutComments_eq_self hcomments]
    refine ⟨_, mem_map_of_mem hm, ?_⟩
    show Slot.given (trim (m.group 2)) = _
    rw [hname, trim_eq_self (isBlank_of_mem_word D.name_word)]
  · intro h hh hname
    obtain ⟨m, -, rfl⟩ := mem_map.mp hh
    obtain ⟨htakes, htype⟩ := ofMatch_view hname
    rw [htakes, htype, ← D.viewClassOf_inner_iff]
    by_cases hline : D.OnOwnLine back
    · rw [D.viewParameter_text hpaired hsole hline]
      simp [hline]
    · rw [viewParameter_eq_none fun i hi => hline (D.onOwnLine_of_opens hsole hi).1]
      simp [hline]

theorem covers_of_check {p : Pattern} (h : (p.matchStart s).map Match.text = some s) :
    p.Covers s := by
  obtain ⟨m, hm, hs⟩ := Option.map_eq_some_iff.mp h
  exact hs ▸ (matchAt_front hm).1

theorem covers_no_blanks : blanks.Covers [] := fun _ hc => absurd hc not_mem_nil

theorem detailClick_parts :
    (clickArgument.matchStart "\x7bR.id.a, R.id.b\x7d".toList).map Match.text
      = some "\x7bR.id.a, R.id.b\x7d".toList
    ∧ (blanks.matchStart "\n".toList).map Match.text = some "\n".toList
    ∧ ((Pattern.maybe (keyword "public")).matchStart "public ".toList).map Match.text
      = some "public ".toList
    ∧ (blanks1.matchStart " ".toList).map Match.text = some " ".toList
    ∧ (word.matchStart "openDetail".toList).map Match.text = some "openDetail".toList
    ∧ "TextView".toList ∈ "View".toList :: viewClasses
    ∧ (word.matchStart "view".toList).map Match.text = some "view".toList := by decide +kernel

/-- a handler of two views, with its annotation on a line above -/
def detailClick : ClickMethod where
  space := []
  argument := "\x7bR.id.a, R.id.b\x7d"
  gap := "\n"
  access := "public "
  stretch := " "
  name := "openDetail"
  room := []
  pad := []
  type := "TextView"
  sep := " "
  param := "view"
  tail := []
  space_blank := covers_no_blanks
  argument_ids := covers_of_check detailClick_parts.1
  gap_blank := covers_of_check detailClick_parts.2.1
  access_public := covers_of_check detailClick_parts.2.2.1
  stretch_blank := covers_of_check detailClick_parts.2.2.2.1
  name_word := covers_of_check detailClick_parts.2.2.2.2.1
  room_blank := covers_no_blanks
  pad_blank := covers_no_blanks
  type_view := detailClick_parts.2.2.2.2.2.1
  sep_blank := covers_of_check detailClick_parts.2.2.2.1
  param_word := covers_of_check detailClick_parts.2.2.2.2.2.2
  tail_blank := covers_no_blanks

def detailFront : Text :=
  "class A \x7b\n@BindView(R.id.t) TextView t;\nvoid f() \x7b\nopenDetail(t);\n\x7d\n"

def detailBack : Text := " \x7b\nif (view == t) \x7b\nreturn;\n\x7d\n\x7d\n\x7d\n"

theorem detail_view_noted : Uncommented (detailFront ++ detailClick.text ++ detailBack)
    ∧ Paired (detailFront ++ detailClick.text ++ detailBack)
    ∧ detailClick.Sole detailFront detailBack ∧ detailClick.Apart detailFront detailBack
    ∧ ∃ hs, (Findings.detect (detailFront ++ detailClick.text ++ detailBack)).clicks = .given hs
      ∧ ∃ h ∈ hs, h.method = .given "openDetail".toList ∧ h.takesView = .given true
        ∧ h.viewType = .given "TextView".toList := by
  have hcheck : ["//".toList, "/*".toList, "*/".toList].all
        (fun mark => !occursIn mark (detailFront ++ detailClick.text ++ detailBack)) = true
      ∧ (∀ l ∈ lines (detailFront ++ detailClick.text ++ detailBack), ¬ "*".toList <+: trim l)
      ∧ Enough 0 (detailFront ++ detailClick.text ++ detailBack)
      ∧ braceBalance (detailFront ++ detailClick.text ++ detailBack) = 0
      ∧ occursIn handlerMark detailFront = false := by decide +kernel
  obtain ⟨hmarks, hstars, henough, hbalance, hfirst⟩ := hcheck
  have hcomments : Uncommented (detailFront ++ detailClick.text ++ detailBack) :=
    ⟨fun mark hm => (occursIn_eq_false_iff _ _).mp
      (by simpa using List.all_eq_true.mp hmarks mark hm), hstars⟩
  have hsole : detailClick.Sole detailFront detailBack :=
    detailClick.sole_of_check (by decide +kernel)
  have hapart := detailClick.apart_of_first ((occursIn_eq_false_iff _ _).mp hfirst) detailBack
  have hline : detailClick.OnOwnLine detailBack := by
    refine ⟨by decide +kernel, by decide +kernel, [' '], _, rfl, ?_⟩
    intro c hc
    rw [List.mem_singleton.mp hc]
    decide
  have hplain : detailClick.Plain := by
    have hparam : (viewClasses.takeWhile (· != detailClick.type)).all
        (fun c => !occursIn c detailClick.param) = true := by decide +kernel
    refine ⟨by decide +kernel, fun c hc => (occursIn_eq_false_iff _ _).mp ?_⟩
    simpa using List.all_eq_true.mp hparam c hc
  obtain ⟨hs, hclicks, ⟨h, hmem, hname⟩, hnoted⟩ :=
    click_view_noted_iff detailClick hcomments ⟨henough, hbalance⟩ hsole hapart
  obtain ⟨htakes, htype⟩ := (hnoted h hmem hname).2.mpr ⟨hline, hplain⟩
  exact ⟨hcomments, ⟨henough, hbalance⟩, hsole, hapart, hs, hclicks, h, hmem, hname, htakes, htype⟩

def Findings.clickViews (f : Findings) : List (Slot Text × Slot Bool × Slot Text) :=
  f.clicks.items.map (fun h => (h.method, h.takesView, h.viewType))

/-- a header behind its annotation or with its brace below is not found; the name of another view is
taken for the type if it stands in the type or in the name of the parameter; a call that is passed a
block is taken for the method -/
theorem headers_misread :
    ["class A \x7b\n@OnClick(R.id.a) void m(View v) \x7b\n\x7d\n\x7d\n".toList,
      "class A \x7b\n@OnClick(R.id.a)\nvoid m(View v)\n\x7b\n\x7d\n\x7d\n".toList,
      "class A \x7b\n@OnClick(R.id.a)\nvoid m(RadioButton v) \x7b\n\x7d\n\x7d\n".toList,
      "class A \x7b\n@OnClick(R.id.a)\nvoid m(View okButton) \x7b\n\x7d\n\x7d\n".toList,
      "class A \x7b\nvoid f() \x7b\nm(new F() \x7b\n\x7d);\n\x7d\n".toList
        ++ "@OnClick(R.id.a)\nvoid m(View v) \x7b\n\x7d\n\x7d\n".toList].map
        (fun code => (Findings.detect code).clickViews)
      = [[(.given "m".toList, .given false, .given [])],
        [(.given "m".toList, .given false, .given [])],
        [(.given "m".toList, .given true, .given "Button".toList)],
        [(.given "m".toList, .given true, .given "Button".toList)],
        [(.given "m".toList, .given false, .given [])]] := by
  decide +kernel

end Rebind
