import Mathlib
import Rebind.Proofs.Findings.Commented
import Rebind.Proofs.Findings.WellFormed
import Rebind.Proofs.Layout.WhiteSpace
import Rebind.Proofs.Pattern.Pieces
import Rebind.Proofs.Source.Headers

/-!
# How long-click handlers are read

Long-click handlers are looked for in the whole text, comments and all, and whatever stands between
the parentheses of an annotation is taken for its resources.  A `LongClick` has the parts of such a
handler, from the annotation to the end of the parameters; its second closing parenthesis ends it
(`LongClick.text_inj`), and what it listens to and its name can be read off its text (`argumentOf`,
`nameOf`).

* `longHandled_detect`: the long-click handlers of a source, by the texts that are found in it;
* `splitIds_covers_iff`: what stands between the parentheses are resources only;
* `longClickTexts_insertLine`: a line between two handlers adds what is found in that line.

Click handlers are read off the text without its comments and name resources only.  For long clicks
both are so under a condition on the source (`longClicks_like_clicks_iff`), and neither is so for
every source (`braces_and_comments_read`).
-/

namespace Rebind

open List Pattern

/-! ## the parts of a handler -/

def argumentOf (s : Text) : Text := ((s.takeWhile (· != ')')).dropWhile (· != '(')).tail

def nameOf (s : Text) : Text := lastWord ((s.dropWhile (· != ')')).tail.takeWhile (· != '('))

def longClickMark : Text := "@OnLongClick"

/-- a long-click handler: white space, what stands between the parentheses of the annotation, what
stands in front of the name, the name, white space, and the parameters -/
structure LongClick where
  gap : Text
  argument : Text
  head : Text
  name : Text
  room : Text
  inner : Text
  gap_blank : blanks.Covers gap
  argument_closed : ')' ∉ argument
  head_opens : '(' ∉ head
  head_closed : ')' ∉ head
  head_last : ∀ c, head.getLast? = some c → isBlank c
  name_word : word.Covers name
  room_blank : blanks.Covers room
  inner_closed : ')' ∉ inner

namespace LongClick

variable (H : LongClick)

def opening : Text := longClickMark ++ H.gap

def annotated : Text := H.opening ++ '(' :: H.argument

def middle : Text := H.head ++ H.name ++ H.room

def text : Text := H.annotated ++ ')' :: (H.middle ++ '(' :: (H.inner ++ [')']))

theorem not_mem_opening {c : Char} (hc : isBlank c = false) (hmark : c ∉ longClickMark) :
    c ∉ H.opening := by
  rw [opening, mem_append, not_or]
  exact ⟨hmark, avoids_run hc _ H.gap_blank⟩

theorem not_mem_middle {c : Char} (hc : isBlank c = false) (hw : isWord c = false)
    (hhead : c ∉ H.head) :
    c ∉ H.middle := by
  simp only [middle, mem_append, not_or]
  exact ⟨⟨hhead, avoids_run1 hw _ H.name_word⟩, avoids_run hc _ H.room_blank⟩

theorem opening_opens : '(' ∉ H.opening := H.not_mem_opening (by decide) (by decide)

theorem annotated_closed : ')' ∉ H.annotated := by
  simp only [annotated, mem_append, mem_cons, not_or]
  exact ⟨H.not_mem_opening (by decide) (by decide), by decide, H.argument_closed⟩

theorem middle_opens : '(' ∉ H.middle := H.not_mem_middle (by decide) (by decide) H.head_opens

theorem middle_closed : ')' ∉ H.middle := H.not_mem_middle (by decide) (by decide) H.head_closed

theorem argumentOf_text : argumentOf H.text = H.argument := by
  rw [argumentOf, text, takeWhile_of_not_mem H.annotated_closed, annotated,
    dropWhile_of_not_mem H.opening_opens, tail_cons]

theorem nameOf_text : nameOf H.text = H.name := by
  rw [nameOf, text, dropWhile_of_not_mem H.annotated_closed, tail_cons,
    takeWhile_of_not_mem H.middle_opens, middle]
  exact lastWord_append (fun c hc => isWord_of_isBlank (H.head_last c hc)) H.name_word H.room_blank

theorem text_ends : ∃ t, H.text = t ++ [')'] :=
  ⟨H.annotated ++ ')' :: (H.middle ++ '(' :: H.inner), by simp [text]⟩

theorem head?_text : H.text.head? = some '@' := by
  have hmark : longClickMark.head? = some '@' := by decide
  rw [text, annotated, opening, head?_append, head?_append, head?_append, hmark]
  rfl

theorem count_text : H.text.count ')' = 2 := by
  simp [text, count_append, count_eq_zero_of_not_mem H.annotated_closed,
    count_eq_zero_of_not_mem H.middle_closed, count_eq_zero_of_not_mem H.inner_closed]

theorem text_inj {H K : LongClick} {r r' : Text} (h : H.text ++ r = K.text ++ r') :
    H.text = K.text := by
  simp only [text, append_assoc, cons_append, nil_append] at h
  -- each part ends where a parenthesis first stands
  obtain ⟨hannotated, hrest⟩ := append_first_inj H.annotated_closed K.annotated_closed h
  obtain ⟨hmiddle, hrest⟩ := append_first_inj H.middle_opens K.middle_opens hrest
  obtain ⟨hinner, -⟩ := append_first_inj H.inner_closed K.inner_closed hrest
  rw [text, text, hannotated, hmiddle, hinner]

end LongClick

/-! ## what the pattern reads -/

theorem getLast?_keyword {k : String} {t : Text} (h : (Pattern.maybe (keyword k)).Covers t) :
    ∀ c, t.getLast? = some c → isBlank c = true := by
  intro c hc
  rcases h with rfl | ⟨a, b, rfl, -, hb⟩
  · cases hc
  · obtain ⟨hne, hblank⟩ := covers_run1.mp hb
    rw [getLast?_append_of_ne_nil _ hne] at hc
    exact hblank c (mem_of_getLast? hc)

theorem getLast?_append_blank {a b : Text} (ha : ∀ c, a.getLast? = some c → isBlank c)
    (hb : ∀ c, b.getLast? = some c → isBlank c) : ∀ c, (a ++ b).getLast? = some c → isBlank c := by
  intro c hc
  rw [getLast?_append, Option.or_eq_some_iff] at hc
  rcases hc with hc | ⟨-, hc⟩
  · exact hb c hc
  · exact ha c hc

/-- behind the annotation of a handler stand words that end with white space, the name and the
parameters -/
theorem reads_handlerTail {result : String} {s : Text} {gs : List (Nat × Text)}
    (h : (seq [lit ")", blanks, .maybe (keyword "public"), .maybe (keyword result),
      .group 2 word, blanks, parameters]).Reads s gs) :
    ∃ head name room inner, s = ')' :: (head ++ name ++ room ++ '(' :: (inner ++ [')']))
      ∧ (∀ {c : Char}, isBlank c = false → c ∉ "public".toList → c ∉ result.toList → c ∉ head)
      ∧ (∀ c, head.getLast? = some c → isBlank c)
      ∧ word.Covers name ∧ blanks.Covers room ∧ ')' ∉ inner ∧ gs = [(2, name)] := by
  obtain ⟨_, r₁, _, _, rfl, rfl, ⟨rfl, rfl⟩, h⟩ := h
  obtain ⟨b, r₂, _, _, rfl, rfl, ⟨hb, rfl⟩, h⟩ := h
  obtain ⟨access, r₃, _, _, rfl, rfl, haccess, h⟩ := h
  obtain ⟨result, r₄, _, _, rfl, rfl, hresult, h⟩ := h
  obtain ⟨name, r₅, _, _, rfl, rfl, ⟨_, rfl, hname⟩, h⟩ := h
  obtain ⟨room, params, _, _, rfl, rfl, ⟨hroom, rfl⟩, hparams⟩ := h
  obtain rfl := haccess.groups_eq_nil rfl
  obtain rfl := hresult.groups_eq_nil rfl
  obtain rfl := hname.groups_eq_nil rfl
  obtain rfl := hparams.groups_eq_nil rfl
  obtain ⟨_, _, rfl, rfl, inner, _, rfl, hinner, rfl⟩ := hparams.covers
  refine ⟨b ++ access ++ result, name, room, inner, ?_, ?_, ?_, hname.covers, hroom,
    avoids_run (by decide) _ hinner, rfl⟩
  · have hopen : "(".toList = ['('] := rfl
    have hclose : ")".toList = [')'] := rfl
    simp only [hopen, hclose, append_assoc, cons_append, nil_append]
  · intro c hc hpublic hresult'
    simp only [mem_append, not_or]
    exact ⟨⟨avoids_run hc _ hb, avoids_maybe (avoids_keyword hpublic hc) _ haccess.covers⟩,
      avoids_maybe (avoids_keyword hresult' hc) _ hresult.covers⟩
  · exact getLast?_append_blank (getLast?_append_blank (fun c hc => hb c (mem_of_getLast? hc))
      (getLast?_keyword haccess.covers)) (getLast?_keyword hresult.covers)

/-- the groups are the name and the argument, without the white space around the latter that is
passed over -/
theorem reads_annotatedLongClick {s : Text} {gs : List (Nat × Text)}
    (h : annotatedLongClick.Reads s gs) :
    ∃ (H : LongClick) (u ids v : Text), s = H.text ∧ H.argument = u ++ ids ++ v
      ∧ blanks.Covers u ∧ blanks.Covers v ∧ gs = [(2, H.name), (1, ids)] := by
  -- one step for each part of the pattern; only the argument and the name are noted
  change (Pattern.andThen (.text longClickMark) _).Reads s gs at h
  obtain ⟨_, r₁, _, _, rfl, rfl, ⟨rfl, rfl⟩, h⟩ := h
  obtain ⟨gap, r₂, _, _, rfl, rfl, ⟨hgap, rfl⟩, h⟩ := h
  obtain ⟨_, r₃, _, _, rfl, rfl, ⟨rfl, rfl⟩, h⟩ := h
  obtain ⟨u, r₄, _, _, rfl, rfl, ⟨hu, rfl⟩, h⟩ := h
  obtain ⟨ids, r₅, _, _, rfl, rfl, ⟨_, rfl, hids⟩, h⟩ := h
  obtain ⟨v, r₆, _, _, rfl, rfl, ⟨hv, rfl⟩, h⟩ := h
  obtain ⟨head, name, room, inner, rfl, hhead, hlast, hname, hroom, hinner, rfl⟩ :=
    reads_handlerTail h
  obtain rfl := hids.groups_eq_nil rfl
  have hclosed : ')' ∉ u ++ ids ++ v := by
    simp only [mem_append, not_or]
    exact ⟨⟨avoids_run (by decide) _ hu, avoids_run1 (by decide) _ hids.covers⟩,
      avoids_run (by decide) _ hv⟩
  refine ⟨⟨gap, u ++ ids ++ v, head, name, room, inner, hgap, hclosed, hhead (by decide) (by decide)
    (by decide),
    hhead (by decide) (by decide) (by decide), hlast, hname, hroom, hinner⟩, u, ids, v, ?_, rfl,
      hu, hv, rfl⟩
  have hopen : "(" = ['('] := rfl
  simp only [LongClick.text, LongClick.annotated, LongClick.opening, LongClick.middle, hopen,
    append_assoc, cons_append, nil_append]

theorem exists_longClick {s : Text} (h : annotatedLongClick.Covers s) :
    ∃ H : LongClick, s = H.text := by
  obtain ⟨gs, hreads⟩ := h.exists_reads
  obtain ⟨H, _, _, _, hs, -⟩ := reads_annotatedLongClick hreads
  exact ⟨H, hs⟩

theorem annotatedLongClick_definite : annotatedLongClick.Definite where
  free := by decide
  not_nil h := by
    obtain ⟨H, hs⟩ := exists_longClick h
    have hhead := H.head?_text
    rw [← hs] at hhead
    cases hhead
  unique hs hs' h := by
    obtain ⟨H, rfl⟩ := exists_longClick hs
    obtain ⟨K, rfl⟩ := exists_longClick hs'
    exact LongClick.text_inj h

theorem annotatedLongClick_last (s : Text) : ¬ annotatedLongClick.Covers (s ++ ['\n']) := by
  intro h
  obtain ⟨H, hs⟩ := exists_longClick h
  obtain ⟨t, ht⟩ := H.text_ends
  rw [ht] at hs
  exact absurd (append_inj' hs rfl).2 (by decide)

theorem not_leavesOpen_of_closed {t : Text} (h : ∀ s ∈ t.tails, s.head? = some '@'
    → 2 ≤ s.count ')') :
    ¬ LeavesOpen annotatedLongClick t := by
  rintro ⟨s, w, hs, hw, hsuffix, hcov⟩
  obtain ⟨H, hH⟩ := exists_longClick hcov
  obtain ⟨c, s', rfl⟩ := exists_cons_of_ne_nil hs
  have hhead : (c :: s').head? = some '@' := by
    rw [← H.head?_text, ← hH]
    rfl
  have hcount := h _ ((mem_tails _ _).mpr hsuffix) hhead
  -- the rest ends with a closing parenthesis of its own
  obtain ⟨t', ht⟩ := H.text_ends
  have hmem : ')' ∈ w := by
    have hlast : (c :: s' ++ w).getLast? = some ')' := by rw [hH, ht, getLast?_concat]
    rw [getLast?_append_of_ne_nil _ hw] at hlast
    exact mem_of_getLast? hlast
  have htotal := H.count_text
  rw [← hH, count_append] at htotal
  have := count_pos_iff.mpr hmem
  omega

/-! ## resources between the parentheses -/

def resourceList : Pattern := seq [blanks, .maybe resourceIds, blanks]

theorem splitIds_around {u v t : Text} (hu : blanks.Covers u) (hv : blanks.Covers v) :
    splitIds (u ++ t ++ v) = splitIds t := by
  have hblank : isBlankText (u ++ t ++ v) = isBlankText t := by
    have hu' : u.all isBlank := all_eq_true.mpr hu
    have hv' : v.all isBlank := all_eq_true.mpr hv
    rw [isBlankText, isBlankText, all_append, all_append, hu', hv', Bool.true_and, Bool.and_true]
  have hright : (splitAll ',' (t ++ v)).map trim = (splitAll ',' t).map trim := by
    obtain ⟨ps, p, ht, htv⟩ := splitAll_append_right (comma_not_mem_blanks hv) t
    rw [ht, htv, map_append, map_append, map_singleton, map_singleton,
      trim_append_blanks hv]
  have hleft : (splitAll ',' (u ++ (t ++ v))).map trim = (splitAll ',' (t ++ v)).map trim := by
    obtain ⟨p, ps, h⟩ := exists_cons_of_ne_nil (splitAll_ne_nil ',' (t ++ v))
    rw [splitAll_append_left (comma_not_mem_blanks hu) h, h, map_cons, map_cons,
      trim_blanks_append hu]
  rw [splitIds, splitIds, hblank, append_assoc, hleft, hright]

theorem covers_intercalate {ps : List Text} (hne : ps ≠ [])
    (h : ∀ p ∈ ps, resourceId.Covers (trim p)) :
    (seq [blanks, resourceIds, blanks]).Covers (intercalate [','] ps) := by
  induction ps with
  | nil => exact absurd rfl hne
  | cons p ps ih =>
    obtain ⟨u, v, hp, hu, hv⟩ := exists_trim p
    have hid := h p mem_cons_self
    cases ps with
    | nil =>
      rw [intercalate_singleton]
      exact ⟨u, trim p ++ v, by rw [← append_assoc, ← hp], hu, trim p, v, rfl,
        ⟨trim p, [], (append_nil _).symm, hid, [], rfl, by simp⟩, hv⟩
    | cons q qs =>
      obtain ⟨u', _, hrest, hu', _, v', rfl, ⟨id, _, rfl, hid', parts, rfl, hparts⟩, hv'⟩ :=
        ih (by simp) (fun r hr => h r (mem_cons_of_mem _ hr))
      -- the white space on both sides of the comma goes to the comma
      refine ⟨u, _, ?_, hu, trim p ++ ((v ++ ("," ++ (u' ++ id))) :: parts).flatten, v', rfl,
        ⟨trim p, _, rfl, hid, _, rfl, forall_mem_cons.mpr
          ⟨⟨v, _, rfl, hv, _, _, rfl, rfl, u', id, rfl, hu', hid'⟩, hparts⟩⟩, hv'⟩
      rw [intercalate_cons_cons, hrest]
      conv_lhs => rw [hp]
      simp

theorem splitIds_covers_iff {t : Text} : (∀ id ∈ splitIds t, resourceId.Covers id)
    ↔ resourceList.Covers t := by
  constructor
  · intro h
    unfold splitIds at h
    split at h
    · next hblank =>
      exact ⟨t, [], (append_nil t).symm, all_eq_true.mp hblank, [], [], rfl, .inl rfl,
        fun _ hc => absurd hc not_mem_nil⟩
    · have hpieces : ∀ p ∈ splitAll ',' t, resourceId.Covers (trim p) := fun p hp =>
        h (trim p) (mem_map_of_mem hp)
      have hcov := covers_intercalate (splitAll_ne_nil ',' t) hpieces
      rw [intercalate_splitAll] at hcov
      obtain ⟨u, _, rfl, hu, body, v, rfl, hbody, hv⟩ := hcov
      exact ⟨u, _, rfl, hu, body, v, rfl, .inr hbody, hv⟩
  · rintro ⟨u, _, rfl, hu, body, v, rfl, hbody, hv⟩
    rw [← append_assoc, splitIds_around hu hv]
    exact splitIds_covers hbody

/-! ## the handlers of a source -/

def Findings.longHandled (f : Findings) : List (Slot (List Text) × Slot Text) :=
  f.longClicks.items.map Handler.binding

def bindingOf (s : Text) : Slot (List Text) × Slot Text :=
  (.given (splitIds (argumentOf s)), .given (nameOf s))

def longClickTexts (code : Text) : List Text := (annotatedLongClick.findAll code).map Match.text

theorem binding_ofMatch {code : Text} {m : Match} (hm : m ∈ annotatedLongClick.findAll code) :
    (Handler.ofMatch code m).binding = bindingOf m.text := by
  obtain ⟨H, u, ids, v, htext, hargument, hu, hv, hgroups⟩ :=
    reads_annotatedLongClick (of_mem_findAll hm).reads
  have h₁ : m.group 1 = ids := by simp [Match.group, Match.group?, hgroups]
  have h₂ : m.group 2 = H.name := by simp [Match.group, Match.group?, hgroups]
  show (Slot.given (splitIds (m.group 1)), Slot.given (trim (m.group 2))) = bindingOf m.text
  rw [bindingOf, htext, H.argumentOf_text, H.nameOf_text, hargument, splitIds_around hu hv, h₁, h₂,
    trim_eq_self (isBlank_of_mem_word H.name_word)]

theorem longHandled_detect (code : Text) :
    (Findings.detect code).longHandled = (longClickTexts code).map bindingOf := by
  rw [longClickTexts, map_map]
  cases h : mentionsButterKnife code with
  | true =>
    simp only [Findings.longHandled, Findings.detect, h, if_true, Slot.items,
      detectLongClicks, map_map]
    exact map_congr_left (fun m hm => binding_ofMatch hm)
  | false =>
    have hnone : annotatedLongClick.findAll code = [] := by
      rw [eq_nil_iff_forall_not_mem]
      intro m hm
      exact (quiet_of_not_mentions h _ (by decide)).not_covers (of_mem_findAll hm)
    rw [hnone, Findings.detect, h]
    rfl

theorem ids_longClicks {code : Text} {ls : List Listener}
    (h : (Findings.detect code).longClicks = .given (ls.map Listener.handler)) :
    ls.map Listener.ids = (longClickTexts code).map (fun s => splitIds (argumentOf s)) := by
  have hhandled := longHandled_detect code
  rw [Findings.longHandled, h] at hhandled
  have hids := congrArg (map Prod.fst) hhandled
  simp only [Slot.items, map_map] at hids
  have hinj : Function.Injective (Slot.given : List Text → Slot (List Text)) := fun _ _ =>
    Slot.given.inj
  -- the resources of a handler are always given, so the lists in the slots are equal too
  apply hinj.list_map
  rw [map_map, map_map]
  exact hids

/-! ## one more line -/

def insertLine (t : Text) (i : Nat) (l : Text) :
    Text := unlines ((lines t).take i ++ l :: (lines t).drop i)

def upToLine (t : Text) (i : Nat) : Text := ((lines t).take i).flatMap (· ++ ['\n'])

theorem longClickTexts_newline (t : Text) : longClickTexts (t ++ ['\n']) = longClickTexts t :=
  found_snoc annotatedLongClick_definite annotatedLongClick_last

theorem longClickTexts_append {a b : Text} (h : ¬ LeavesOpen annotatedLongClick a) :
    longClickTexts (a ++ b) = longClickTexts a ++ longClickTexts b :=
      found_append annotatedLongClick_definite h

section
variable {t : Text} {i : Nat} (h : ¬ LeavesOpen annotatedLongClick (upToLine t i))
include h

theorem longClickTexts_cut : longClickTexts t
    = longClickTexts (upToLine t i) ++ longClickTexts (unlines ((lines t).drop i)) := by
  by_cases hdrop : (lines t).drop i = []
  · -- all lines come before, and the last newline is none of the text
    have hall : (lines t).take i = lines t := by
      conv_rhs => rw [← take_append_drop i (lines t), hdrop, append_nil]
    have hfront : upToLine t i = t ++ ['\n'] := by
      have hlast : unlines (lines t ++ [[]]) = _ := unlines_behind (lines t) (by simp)
      rw [unlines_append (lines_ne_nil t) (by simp), unlines_lines] at hlast
      rw [upToLine, hall]
      simpa [unlines] using hlast.symm
    rw [hfront, hdrop, longClickTexts_newline]
    exact (append_nil _).symm
  · conv_lhs => rw [← unlines_lines t, ← take_append_drop i (lines t), unlines_behind _ hdrop]
    exact longClickTexts_append h

theorem longClickTexts_insertLine {l : Text} (hl : ¬ LeavesOpen annotatedLongClick (l ++ ['\n'])) :
    longClickTexts (insertLine t i l)
      = longClickTexts (upToLine t i)
        ++ (longClickTexts l ++ longClickTexts (unlines ((lines t).drop i))) := by
  have hback : longClickTexts (unlines (l :: (lines t).drop i))
      = longClickTexts l ++ longClickTexts (unlines ((lines t).drop i)) := by
    by_cases hdrop : (lines t).drop i = []
    · have hone : unlines [l] = l := intercalate_singleton
      rw [hdrop, hone]
      exact (append_nil _).symm
    · have hsplit : unlines (l :: (lines t).drop i) = (l ++ ['\n'])
          ++ unlines ((lines t).drop i) := by
        rw [unlines_cons hdrop, append_assoc, singleton_append]
      rw [hsplit, longClickTexts_append hl, longClickTexts_newline]
  rw [insertLine, unlines_behind _ (by simp), ← hback]
  exact longClickTexts_append h

end

/-- long clicks are read as clicks are under two conditions, and each is needed.  What they listen
to are resources exactly when nothing else stands between the parentheses of an annotation, no
braces either.  A comment line that is put between two handlers makes no difference exactly when
nothing in the comment looks like a handler. -/
theorem longClicks_like_clicks_iff (code : Text) :
    (∃ ls : List Listener, (Findings.detect code).longClicks = .given (ls.map Listener.handler)
      ∧ ((∀ L ∈ ls, ∀ id ∈ L.ids, IsResource id)
        ↔ ∀ s ∈ longClickTexts code, resourceList.Covers (argumentOf s)))
    ∧ ∀ (i : Nat) (line : CommentLine), ¬ LeavesOpen annotatedLongClick (upToLine code i) →
      ¬ LeavesOpen annotatedLongClick (line.text ++ ['\n']) →
      ((Findings.detect (insertLine code i line.text)).longHandled
        = (Findings.detect code).longHandled ↔ (Findings.detect line.text).longHandled = []) := by
  constructor
  · obtain ⟨fs, cs, ls, hlists, -⟩ := detect_lists code
    refine ⟨ls, hlists.longClicks, ?_⟩
    have hids := ids_longClicks hlists.longClicks
    calc (∀ L ∈ ls, ∀ id ∈ L.ids, IsResource id)
        ↔ ∀ ids ∈ ls.map Listener.ids, ∀ id ∈ ids, resourceId.Covers id := by
          simp only [forall_mem_map, covers_resourceId_iff]
      _ ↔ ∀ s ∈ longClickTexts code, resourceList.Covers (argumentOf s) := by
          rw [hids]
          simp only [forall_mem_map, splitIds_covers_iff]
  · intro i line hcode hline
    rw [longHandled_detect, longHandled_detect, longHandled_detect, longClickTexts_cut hcode,
      longClickTexts_insertLine hcode hline]
    simp only [map_append, append_cancel_left_eq, append_left_eq_self]

def pairPressed : Text :=
  "class A \x7b\n@OnLongClick(\x7bR.id.a, R.id.b\x7d)\nboolean m() \x7b\n\x7d\n\x7d\n"

/-- a remark inside the method says nothing of long clicks -/
theorem remark_keeps_longClicks : ∃ line : CommentLine, line.text = "// pressed".toList
    ∧ ¬ LeavesOpen annotatedLongClick (upToLine pairPressed 3)
    ∧ ¬ LeavesOpen annotatedLongClick (line.text ++ ['\n'])
    ∧ (Findings.detect (insertLine pairPressed 3 line.text)).longHandled
      = (Findings.detect pairPressed).longHandled
    ∧ (Findings.detect pairPressed).longHandled ≠ [] := by
  obtain ⟨line, htext⟩ : ∃ line : CommentLine, line.text = "// pressed" :=
    ⟨⟨[], " pressed", by simp, by decide, by decide, by decide⟩, rfl⟩
  have hcode : ¬ LeavesOpen annotatedLongClick (upToLine pairPressed 3) :=
    not_leavesOpen_of_closed (by decide +kernel)
  have hline : ¬ LeavesOpen annotatedLongClick (line.text ++ ['\n']) := by
    rw [htext]
    exact not_leavesOpen_of_closed (by decide +kernel)
  have hnone : (Findings.detect line.text).longHandled = [] := by
    rw [htext]
    decide +kernel
  exact ⟨line, htext, hcode, hline,
    ((longClicks_like_clicks_iff pairPressed).2 3 line hcode hline).mpr hnone, by decide +kernel⟩

/-- braces are taken for a part of the resources; a comment line that looks like a handler is read,
and one between an annotation and its method parts them -/
theorem braces_and_comments_read :
    (Findings.detect pairPressed).longHandled
      = [(.given ["\x7bR.id.a".toList, "R.id.b\x7d".toList], .given "m".toList)]
    ∧ ¬ IsResource "\x7bR.id.a".toList
    ∧ (∃ line : CommentLine, line.text = "// @OnLongClick(R.id.c) boolean n() \x7b".toList
      ∧ (Findings.detect (insertLine pairPressed 1 line.text)).longHandled
        ≠ (Findings.detect pairPressed).longHandled)
    ∧ ∃ line : CommentLine, line.text = "// both".toList
      ∧ (Findings.detect (insertLine pairPressed 2 line.text)).longHandled = [] := by
  refine ⟨by decide +kernel, ?_, ⟨⟨[], " @OnLongClick(R.id.c) boolean n() \x7b", by simp, by decide,
    by decide, by decide⟩, rfl, by decide +kernel⟩,
    ⟨[], " both", by simp, by decide, by decide, by decide⟩, rfl, by decide +kernel⟩
  intro h
  obtain ⟨two, w, he, -⟩ := covers_resourceId.mp (covers_resourceId_iff.mpr h)
  exact absurd (congrArg head? he) (by simp)

end Rebind
