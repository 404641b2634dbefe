import Mathlib
import Rebind.Proofs.Specimen.Members

/-!
# Numbered handlers are read back

Each method of `clicks` has two lines of its own, with its annotation (`markLine`) and its header
(`headLine`), and a body that is closed.  Whether it takes a view is looked up by its name: a line
opens only with the method whose name stands in front of its first parenthesis
(`headWord_of_starts`), so the first line that opens with a name is the header that was annotated
(`viewParameter_clicks`).  The methods are read back as `handler` lists them (`detect_handlers`),
and with the fields of `bindViews` this is what a parser makes of specimens of any size
(`ofSource_members`).
-/

namespace Rebind

open List

namespace Specimen

open Pattern

variable {r2 : Bool} {x : Char} {i : Nat} {l : Text}

/-! ## annotated methods -/

def idsText (r2 : Bool) (i : Nat) :
    Text := resource r2 "view" i ++ (", ".toList ++ resource r2 "extra" i)

def clickName (i : Nat) : Text := "onClick" ++ natText i

def clickInner (withView : Bool) : Text := (if withView then "View v" else "").toList

/-- an annotated method from its annotation to its parameters -/
def clickText (withView r2 : Bool) (i : Nat) : Text :=
  "@OnClick" ++ (['('] ++ (['\x7b'] ++ (idsText r2 i ++ (['\x7d'] ++ ([')']
    ++ ('\n' :: "    " ++ ("public" ++ " " ++ ("void" ++ " " ++ (clickName i
    ++ (['('] ++ (clickInner withView ++ [')'])))))))))))

theorem clickName_word (i : Nat) : word.Covers (clickName i) := word_natText (by decide) i

theorem prefers_keyword (k : String) {r : Text} (hr : StopsRun isBlank r) :
    (keyword k).Prefers (k.toList ++ " ") [] r :=
  (prefers_text _ _).andThen (prefers_run1 (covers_all (by decide) (by decide)) hr)

theorem not_starts_separated {c : Char} (hc : isBlank c = false) (hsep : c ≠ ',') (q : Pattern)
    (t : Text) :
    ¬ Starts (.andThen blanks (.andThen (lit ",") q)) (c :: t) := by
  rintro ⟨_, r, h, b, _, rfl, hb, _, _, rfl, rfl, -⟩
  cases b with
  | nil => exact hsep (List.cons.inj h).1
  | cons d b =>
    have hd := hb d mem_cons_self
    rw [← (List.cons.inj h).1, hc] at hd
    cases hd

theorem prefers_ids (r2 : Bool) (i : Nat) {r : Text} (hr : r.head? = some '\x7d') :
    resourceIds.Prefers (idsText r2 i) [] r := by
  obtain ⟨t, rfl⟩ := head?_eq_some_iff.mp hr
  obtain ⟨s, hextra⟩ := resource_eq_cons r2 "extra" i
  have hclose : StopsRun isWord ('\x7d' :: t) := StopsRun.cons (by decide) t
  have hagain : (seq [blanks, lit ",", blanks, resourceId]).Prefers
      ([] ++ (",".toList ++ (" ".toList ++ resource r2 "extra" i))) [] ('\x7d' :: t) := by
    refine (prefers_nil ?_).andThen ((prefers_text _ _).andThen ((prefers_run ?_ ?_).andThen
      (prefers_resource r2 (by decide) i hclose)))
    · exact StopsRun.cons (x := ',') (by decide) _
    · exact all_eq_true.mp (by decide)
    · rw [hextra]
      exact StopsRun.cons (x := 'R') (by decide) _
  exact (prefers_resource r2 (by decide) i (StopsRun.cons (x := ',') (by decide) _)).andThen
    (hagain.once (by simp) (not_starts_separated (by decide) (by decide) _ t))

theorem prefers_click (withView r2 : Bool) (i : Nat) (r : Text) :
    annotatedClick.Prefers (clickText withView r2 i) [(2, clickName i), (1, idsText r2 i)] r := by
  obtain ⟨s, hid⟩ := resource_eq_cons r2 "view" i
  have hall : annotatedClick.Prefers ("@OnClick".toList ++ ([] ++ (['('] ++ ([] ++ ((['\x7b'] ++ [])
      ++ (idsText r2 i ++ (([] ++ ['\x7d']) ++ ([] ++ ([')'] ++ ('\n' :: "    ".toList
      ++ ("public".toList ++ " ".toList ++ ("void".toList ++ " ".toList ++ (clickName i ++ ([]
      ++ (['('] ++ (clickInner withView ++ [')']))))))))))))))))
        [(2, clickName i), (1, idsText r2 i)] r := by
    refine (prefers_text _ _).andThen
      ((prefers_nil ?_).andThen ((prefers_text _ _).andThen ((prefers_nil ?_).andThen
      (((prefers_text _ _).andThen (prefers_nil ?_)).maybe.andThen
        (((prefers_ids r2 i ?_).maybe.group 1).andThen
      (((prefers_nil ?_).andThen (prefers_text _ _)).maybe.andThen
        ((prefers_nil ?_).andThen ((prefers_text _ _).andThen
      ((prefers_run ?_ ?_).andThen ((prefers_keyword "public" ?_).maybe.andThen
      ((prefers_keyword "void" ?_).maybe.andThen
        (((prefers_run1 (clickName_word i) ?_).group 2).andThen
      ((prefers_nil ?_).andThen ((prefers_text _ _).andThen ((prefers_run ?_ ?_).andThen
      (prefers_text _ _))))))))))))))))
    · exact StopsRun.cons (x := '(') (by decide) _
    · exact StopsRun.cons (x := '\x7b') (by decide) _
    · rw [idsText, hid]
      exact StopsRun.cons (x := 'R') (by decide) _
    · rfl
    · exact StopsRun.cons (x := '\x7d') (by decide) _
    · exact StopsRun.cons (x := ')') (by decide) _
    · exact all_eq_true.mp (by decide)
    · exact StopsRun.cons (x := 'p') (by decide) _
    · exact StopsRun.cons (x := 'v') (by decide) _
    · exact StopsRun.cons (x := 'o') (by decide) _
    · exact StopsRun.cons (x := '(') (by decide) _
    · exact StopsRun.cons (x := '(') (by decide) _
    · cases withView <;> exact all_eq_true.mp (by decide)
    · exact StopsRun.cons (x := ')') (by decide) _
  simp only [nil_append, append_nil] at hall
  exact hall

/-! ## the lines of a method -/

def markLine (r2 : Bool) (i : Nat) : Text :=
  "    @OnClick".toList ++ '(' :: '\x7b' :: (idsText r2 i ++ ['\x7d', ')'])

def headFront (withView : Bool) (i : Nat) : Text :=
  "    public void " ++ (clickName i ++ '(' :: (clickInner withView ++ [')', ' ']))

def headLine (withView : Bool) (i : Nat) : Text := headFront withView i ++ ['\x7b']

theorem click_eq (withView r2 : Bool) (size i : Nat) : click withView r2 size i
    = unlines [markLine r2 i, headLine withView i, filler size, "    \x7d".toList] := by
  have hmark : "    @OnClick(\x7b".toList = "    @OnClick".toList ++ ['(', '\x7b'] := by decide
  have hclose : "\x7d)".toList = ['\x7d', ')'] := by decide
  have hname : "    public void onClick".toList = "    public void ".toList
      ++ "onClick".toList := by decide
  have hview : (if withView then "(View v)" else "()").toList = '('
      :: (clickInner withView ++ [')']) := by
    cases withView <;> decide
  have hopen : " \x7b".toList = [' ', '\x7b'] := by decide
  unfold click markLine headLine headFront idsText clickName
  rw [hmark, hclose, hname, hview, hopen]
  simp only [append_assoc, cons_append, nil_append]

theorem click_eq_text (withView r2 : Bool) (size i : Nat) : click withView r2 size i = "    ".toList
    ++ (clickText withView r2 i
      ++ (' ' :: '\x7b' :: '\n' :: unlines [filler size, "    \x7d".toList])) := by
  have hmark : "    @OnClick".toList = "    ".toList ++ "@OnClick".toList := by decide
  have hhead : "    public void ".toList
      = "    ".toList ++ ("public".toList ++ (" ".toList ++ ("void".toList ++ " ".toList))) := by
        decide
  rw [click_eq, unlines_cons (by simp), unlines_cons (by simp)]
  unfold markLine headLine headFront clickText
  rw [hmark, hhead]
  simp only [append_assoc, cons_append, nil_append]

theorem unlines_eq_append (l : Text) (ls : List Text) : ∃ r, unlines (l :: ls) = l ++ r := by
  by_cases hls : ls = []
  · exact ⟨[], by simp [hls, unlines]⟩
  · exact ⟨_, unlines_cons hls⟩

theorem firstLineOffset_behind {p : Pattern} (hfree : p.isFree) {before : List Text}
    (hbefore : ∀ l ∈ before, ¬ Starts p l) (hl : Starts p l) (after : List Text) (offset : Nat) :
    firstLineOffset p offset (before ++ l :: after)
      = some (offset + (before.flatMap (· ++ ['\n'])).length) := by
  induction before generalizing offset with
  | nil =>
    rw [nil_append, firstLineOffset, if_pos ((matchStart_isSome_iff hfree).mpr hl)]
    rfl
  | cons l' before ih =>
    have hnot := mt (matchStart_isSome_iff hfree).mp (hbefore l' mem_cons_self)
    rw [cons_append, firstLineOffset, if_neg hnot, ih fun l hl => hbefore l (mem_cons_of_mem _ hl),
      flatMap_cons, length_append, length_append, length_singleton, Nat.add_assoc, Nat.add_assoc,
      Nat.add_assoc]

def headWord (l : Text) : Text := lastWord (l.takeWhile (· != '('))

theorem headWord_eq {u name space : Text} (hu : ∀ c, u.getLast? = some c → isBlank c)
    (hopen : '(' ∉ u) (hname : word.Covers name) (hspace : blanks.Covers space) (r : Text) :
    headWord (u ++ (name ++ (space ++ '(' :: r))) = name := by
  have hmark : IsMark '(' := by decide
  have hfront : '(' ∉ u ++ name ++ space :=
    not_mem_append (not_mem_append hopen (hmark.avoids_word _ hname)) (hmark.avoids_blanks _ hspace)
  rw [headWord, ← append_assoc, ← append_assoc, takeWhile_of_not_mem hfront,
    lastWord_append (fun c hc => isWord_of_isBlank (hu c hc)) hname hspace]

/-- a line opens only with the method whose name stands in front of its first parenthesis -/
theorem headWord_of_starts {name : Text} (hname : word.Covers name)
    (h : Starts (methodLine name) l) :
    headWord l = name := by
  obtain ⟨_, r, rfl, hcovers⟩ := h
  obtain ⟨lead, space, inner, b, rfl, hlead, hspace, -, -⟩ := methodLine_covers_iff.mp hcovers
  have hword := headWord_eq (headStart_last hlead) (avoids_headStart (by decide) _ hlead)
    hname hspace (inner ++ ')' :: (b ++ ['\x7b']) ++ r)
  simpa only [append_assoc, cons_append] using hword

theorem forall_lines_filler (ok : Text → Bool) (hnil : ok [])
    (h : (range 4).all (fun k => ok ("        " ++ statement k))) (size : Nat) :
    ∀ l ∈ lines (filler size), ok l := by
  intro l hl
  cases size with
  | zero =>
    rw [mem_singleton.mp hl]
    exact hnil
  | succ size =>
    rw [filler, body, lines_unlines (by simp)] at hl
    · obtain ⟨k, -, rfl⟩ := mem_map.mp hl
      exact all_eq_true.mp h (k % 4) (mem_range.mpr (Nat.mod_lt k (by decide)))
    · refine forall_mem_map.mpr fun k _ => ?_
      have hall : (range 4).all (fun k => !("        " ++ statement k).contains '\n') := by
        decide
      simpa using all_eq_true.mp hall (k % 4) (mem_range.mpr (Nat.mod_lt k (by decide)))

theorem not_mem_filler (hx : x ≠ '\n')
    (h : (range 4).all (fun k => !("        " ++ statement k).contains x)) (size : Nat) :
    x ∉ filler size := by
  rw [← unlines_lines (filler size)]
  refine not_mem_unlines hx fun l hl => ?_
  simpa using forall_lines_filler (fun l => !l.contains x) (by simp) h size l hl

theorem paired_filler (size : Nat) : Paired (filler size) := by
  refine paired_unlines (forall_mem_map.mpr fun k _ => ?_)
  have hcall : Paired ("        if (flag) " ++ '\x7b' :: (" helper(1); " ++ ['\x7d'])) :=
    (paired_of_flat (by decide) (by decide)).append
      (Paired.braced (paired_of_flat (by decide) (by decide)))
  match k % 4 with
  | 0 => exact hcall
  | 1 => exact paired_of_flat (by decide) (by decide)
  | 2 => exact paired_of_flat (by decide) (by decide)
  | _ + 3 =>
    show Paired ("        " ++ "result = compute(a, b);")
    exact paired_of_flat (by decide) (by decide)

theorem not_mem_idsText (hx : isWord x = false) (hsigns : x ∉ ['.', ',', ' ']) (r2 : Bool)
    (i : Nat) :
    x ∉ idsText r2 i := by
  obtain ⟨hdot, hsep⟩ : x ≠ '.' ∧ x ∉ [',', ' '] := by simpa using hsigns
  have hid : ∀ {w : Text}, w.all isWord → x ∉ resource r2 w i := fun hw =>
    not_mem_resource hx hdot r2 hw i
  exact not_mem_append (hid (by decide)) (not_mem_append hsep (hid (by decide)))

theorem not_mem_markLine (hids : x ∉ idsText r2 i) (hmark : x ∉ "    @OnClick".toList)
    (hsigns : x ∉ ['(', '\x7b', '\x7d', ')']) : x ∉ markLine r2 i := by
  refine not_mem_append hmark ?_
  simp only [mem_cons, mem_append, not_or] at hsigns ⊢
  exact ⟨hsigns.1, hsigns.2.1, hids, hsigns.2.2⟩

theorem not_mem_headFront {withView : Bool} (hnum : x ∉ natText i)
    (hlead : x ∉ "    public void ".toList) (hname : x ∉ "onClick".toList)
    (hparams : x ∉ '(' :: (clickInner withView ++ [')', ' '])) : x ∉ headFront withView i :=
  not_mem_append hlead (not_mem_append (not_mem_append hname hnum) hparams)

theorem brace_not_mem_headFront (hx : x ∈ ['\x7b', '\x7d']) (withView : Bool) (i : Nat) :
    x ∉ headFront withView i := by
  rcases mem_pair.mp hx with rfl | rfl <;> cases withView <;>
    exact not_mem_headFront (not_mem_natText (by decide) i) (by decide) (by decide) (by decide)

theorem paired_markLine (r2 : Bool) (i : Nat) : Paired (markLine r2 i) := by
  have hids : Paired (idsText r2 i) :=
    paired_of_flat (not_mem_idsText (by decide) (by decide) r2 i)
      (not_mem_idsText (by decide) (by decide) r2 i)
  have hopen : Paired ("    @OnClick" ++ ['(']) := paired_of_flat (by decide) (by decide)
  have hall := hopen.append (hids.braced.append
      (paired_of_flat (w := [')']) (by decide) (by decide)))
  unfold markLine
  simpa only [append_assoc, cons_append, nil_append] using hall

theorem paired_click (withView r2 : Bool) (size i : Nat) : Paired (click withView r2 size i) := by
  have hfront : Paired (headFront withView i) :=
    paired_of_flat (brace_not_mem_headFront (by decide) withView i)
      (brace_not_mem_headFront (by decide) withView i)
  have hspace : Paired ('\n' :: "    ") := paired_of_flat (by decide) (by decide)
  have hbody := paired_newline.append ((paired_filler size).append hspace)
  have hall := (paired_markLine r2 i).append (paired_newline.append (hfront.append hbody.braced))
  have hclose : unlines ["    \x7d"] = "    " ++ ['\x7d'] := by decide
  rw [click_eq, unlines_cons (by simp), unlines_cons (by simp), unlines_cons (by simp),
    hclose, headLine]
  simpa only [append_assoc, cons_append, nil_append] using hall

theorem newline_not_mem_markLine (r2 : Bool) (i : Nat) : '\n' ∉ markLine r2 i :=
  not_mem_markLine (not_mem_idsText (by decide) (by decide) r2 i) (by decide) (by decide)

theorem newline_not_mem_headLine (withView : Bool) (i : Nat) : '\n' ∉ headLine withView i := by
  refine not_mem_append ?_ (by decide)
  cases withView <;> exact not_mem_headFront (not_mem_natText (by decide) i) (by decide) (by decide)
    (by decide)

theorem lines_click (withView r2 : Bool) (size i : Nat) : lines (click withView r2 size i)
    = markLine r2 i :: headLine withView i :: (lines (filler size) ++ ["    \x7d".toList]) := by
  have hone : ∀ {t : Text}, '\n' ∉ t → lines t = [t] := fun h => splitAll_of_not_mem h
  have hclose : lines "    \x7d".toList = ["    \x7d".toList] := hone (by decide)
  rw [click_eq, lines_unlines_flatMap (by simp)]
  simp only [flatMap_cons, flatMap_nil, hone (newline_not_mem_markLine r2 i),
    hone (newline_not_mem_headLine withView i), hclose, cons_append, nil_append, append_nil]

theorem headWord_headLine (withView : Bool) (i : Nat) :
    headWord (headLine withView i) = clickName i := by
  have hlast : "    public void ".toList.getLast? = some ' ' := by decide
  have hspace : blanks.Covers [] := fun _ hc => absurd hc not_mem_nil
  have hword := headWord_eq (u := "    public void ") (fun c hc => ?_) (by decide)
    (clickName_word i) hspace (clickInner withView ++ [')', ' ', '\x7b'])
  · unfold headLine headFront
    simpa only [append_assoc, cons_append, nil_append] using hword
  · rw [hlast] at hc
    rw [← Option.some.inj hc]
    decide

theorem head_of_starts (h : Starts (methodLine (clickName i)) l) :
    (headWord l).head? = some 'o' := by
  rw [headWord_of_starts (clickName_word i) h]
  rfl

theorem not_starts_markLine (r2 : Bool) (i j : Nat) :
    ¬ Starts (methodLine (clickName i)) (markLine r2 j) := by
  intro h
  have hopen : '(' ∉ "    @OnClick".toList := by decide
  have hword : (lastWord "    @OnClick".toList).head? = some 'O' := by decide
  have hhead := head_of_starts h
  unfold headWord markLine at hhead
  rw [takeWhile_of_not_mem hopen, hword] at hhead
  cases hhead

theorem not_starts_line {withView : Bool} {size j : Nat} (hij : j ≠ i)
    (hl : l ∈ lines (click withView r2 size j)) : ¬ Starts (methodLine (clickName i)) l := by
  intro h
  have hhead := head_of_starts h
  rw [lines_click, mem_cons, mem_cons, mem_append, mem_singleton] at hl
  rcases hl with rfl | rfl | hl | rfl
  · exact not_starts_markLine r2 i j h
  · have hname := headWord_of_starts (clickName_word i) h
    rw [headWord_headLine] at hname
    exact hij (natText_inj (append_cancel_left hname))
  · have hfiller := forall_lines_filler (fun l => (headWord l).head? != some 'o') (by decide)
      (by decide) size l hl
    simp [hhead] at hfiller
  · revert hhead
    decide

theorem starts_headLine (withView : Bool) (i : Nat) :
    Starts (methodLine (clickName i)) (headLine withView i) := by
  have hblank : blanks1.Covers " " := covers_all (by decide) (by decide)
  have hlead : headStart.Covers "    public void " :=
    ⟨"    ", "public void ", by decide, all_eq_true.mp (by decide), "public ",
      "void ", by decide, .inr (.inl ⟨"public", " ", by decide, rfl, hblank⟩), [],
      "void ", rfl, .inl rfl, .inr (.inl ⟨"void", " ", by decide, rfl, hblank⟩)⟩
  refine ⟨_, [], (append_nil _).symm, methodLine_covers_iff.mpr
    ⟨"    public void ", [], clickInner withView, [' '], ?_, hlead, ?_, ?_, ?_⟩⟩
  · unfold headLine headFront
    simp only [append_assoc, cons_append, nil_append]
  · exact fun _ hc => absurd hc not_mem_nil
  · cases withView <;> decide
  · exact all_eq_true.mp (by decide)

theorem viewParameter_clicks (withView r2 : Bool) (size : Nat) {n : Nat} (hi : i < n) :
    viewParameter (clicks n withView r2 size) (clickName i)
      = viewIn (trim (clickInner withView)) := by
  obtain ⟨after, hlines⟩ := lines_numbered (click withView r2 size) hi
  set before := (List.range i).flatMap (fun j => lines (click withView r2 size j))
    ++ [markLine r2 i]
  have hbefore : ∀ l ∈ before, ¬ Starts (methodLine (clickName i)) l := by
    intro l hl
    rcases mem_append.mp hl with hl | hl
    · obtain ⟨j, hj, hl⟩ := mem_flatMap.mp hl
      exact not_starts_line (mem_range.mp hj).ne hl
    · rw [mem_singleton.mp hl]
      exact not_starts_markLine r2 i i
  obtain ⟨back, hback⟩ : ∃ back, lines (clicks n withView r2 size) = before ++ headLine withView i
    :: back := by
    rw [lines_click] at hlines
    refine ⟨lines (filler size) ++ ["    \x7d".toList] ++ after, hlines.trans ?_⟩
    simp only [before, append_assoc, cons_append, nil_append]
  obtain ⟨tail, htail⟩ := unlines_eq_append (headLine withView i) back
  have hcode : clicks n withView r2 size = before.flatMap (· ++ ['\n'])
    ++ ("    public void ".toList ++ clickName i
      ++ '(' :: (clickInner withView ++ ')' :: [' ']) ++ '\x7b' :: tail) := by
    rw [← unlines_lines (clicks n withView r2 size), hback, unlines_behind before (by simp), htail]
    unfold headLine headFront
    simp only [append_assoc, cons_append, nil_append]
  have hfirst := firstLineOffset_behind (methodLine_free _) hbefore
    (starts_headLine withView i) back 0
  rw [← hback, firstLineOffset_eq_some_iff (methodLine_free _), Nat.zero_add] at hfirst
  have hpaired : Paired (clicks n withView r2 size) :=
    paired_unlines (forall_mem_map.mpr fun j _ => paired_click withView r2 size j)
  have hfront : ∀ {x : Char}, x ∈ ['\x7b', '\x7d'] →
      x ∉ "    public void ".toList ++ clickName i ++ '('
        :: (clickInner withView ++ ')' :: [' ']) := fun hx => by
    have := brace_not_mem_headFront hx withView i
    unfold headFront at this
    simpa only [append_assoc] using this
  rw [hcode] at hfirst hpaired ⊢
  refine viewParameter_first hfirst hpaired (hfront (by decide)) (hfront (by decide)) ?_ ?_
  · exact not_mem_append (by decide) (not_mem_append (by decide) (not_mem_natText (by decide) i))
  · cases withView <;> decide

theorem viewIn_clickInner (withView : Bool) :
    viewIn (trim (clickInner withView)) = if withView then some "View".toList else none := by
  cases withView with
  | false => rfl
  | true =>
    have htrim : trim (clickInner true) = "View v".toList := by decide
    have hclass : viewClassOf "View v".toList = "View".toList := by decide
    have hview : occursIn "View".toList "View v".toList := by decide
    rw [htrim, viewIn, hclass, hview, Bool.or_true]
    rfl

/-! ## the methods that are found -/

theorem annotatedClick_opens : annotatedClick.OpensWith '@' := by
  rintro _ ⟨_, _, rfl, rfl, -⟩
  rfl

theorem holdsOne_click (withView r2 : Bool) (size i : Nat) :
    annotatedClick.HoldsOne '@' [(2, clickName i), (1, idsText r2 i)]
      (click withView r2 size i) := by
  refine ⟨"    ", clickText withView r2 i, _, click_eq_text withView r2 size i, by decide, ?_, ?_,
    prefers_click withView r2 i⟩
  · exact append_ne_nil_of_left_ne_nil (by decide) _
  · have hbody : '@' ∉ unlines [filler size, "    \x7d"] := by
      refine not_mem_unlines (by decide)
        (forall_mem_cons.mpr ⟨?_, forall_mem_singleton.mpr (by decide)⟩)
      exact not_mem_filler (by decide) (by decide) size
    simpa using hbody

theorem not_mem_click (hx : x ∈ ['/', '*']) (withView r2 : Bool) (size i : Nat) :
    x ∉ click withView r2 size i := by
  have hword := (isMark_of_mem hx).1
  rw [click_eq]
  refine not_mem_unlines (by rintro rfl; revert hx; decide) ?_
  simp only [forall_mem_cons, not_mem_nil, false_imp_iff, implies_true, and_true]
  refine ⟨not_mem_markLine (not_mem_idsText hword ?_ r2 i) ?_ ?_, not_mem_append (not_mem_headFront
    (not_mem_natText hword i) ?_ ?_ ?_) ?_, not_mem_filler ?_ ?_ size, ?_⟩
  all_goals rcases mem_pair.mp hx with rfl | rfl <;> cases withView <;> decide

theorem splitIds_idsText (r2 : Bool) (i : Nat) :
    splitIds (idsText r2 i) = [resource r2 "view" i, resource r2 "extra" i] := by
  have hsome : isBlankText (idsText r2 i) = false := by
    obtain ⟨t, ht⟩ := resource_eq_cons r2 "view" i
    rw [idsText, ht]
    rfl
  have hsep : idsText r2 i = resource r2 "view" i ++ ',' :: (' ' :: resource r2 "extra" i) := rfl
  have hview := not_mem_resource (x := ',') (by decide) (by decide) r2 (w := "view") (by decide) i
  have hextra := not_mem_resource (x := ',') (by decide) (by decide) r2 (w := "extra") (by decide) i
  have hid : ∀ {w : Text}, w.all isWord → trim (resource r2 w i) = resource r2 w i := fun hw =>
    trim_eq_self (isBlank_of_mem_resourceId (resource_covers r2 hw i))
  have hspace : trim (' ' :: resource r2 "extra" i) = trim (resource r2 "extra" i) :=
    trim_blanks_append one_space_blank.2 _
  rw [splitIds, hsome, hsep, splitAll_append, splitAll_of_not_mem hview, splitAll_of_not_mem
    (by simpa using hextra)]
  show [trim (resource r2 "view" i), trim (' ' :: resource r2 "extra" i)] = _
  rw [hspace, hid (by decide), hid (by decide)]

theorem underscore_mem_idsText (r2 : Bool) (i : Nat) : '_' ∈ idsText r2 i := by
  simp [idsText, resource]

theorem lineFrom_click (withView r2 : Bool) (size i : Nat) :
    lineFrom (click withView r2 size i) 0 = markLine r2 i := by
  rw [click_eq, unlines_cons (by simp), lineFrom, drop_zero, takeWhile_of_not_mem
    (newline_not_mem_markLine r2 i)]

theorem eq_of_infix_markLine {j : Nat} (h : idsText r2 i <:+: markLine r2 j) : i = j := by
  obtain ⟨u, v, huv⟩ := h
  have hcomma : ∀ {w : Text} (k : Nat), w.all isWord → ',' ∉ resource r2 w k := fun k hw =>
    not_mem_resource (by decide) (by decide) r2 hw k
  have hfront : ',' ∉ "    @OnClick" ++ '(' :: '\x7b' :: resource r2 "view" j :=
    not_mem_append (by decide) (by simpa using hcomma j (by decide))
  have hback : ',' ∉ ' ' :: (resource r2 "extra" j ++ ['\x7d', ')']) := by
    simpa using hcomma j (by decide)
  -- the comma of the line is that between the resources
  have hsplit := split_once (u := u ++ resource r2 "view" i)
      (v := ' ' :: (resource r2 "extra" i ++ v)) hfront hback (by
    have hsep : ", " = [',', ' '] := by decide
    unfold markLine idsText at huv
    rw [hsep] at huv
    simpa only [append_assoc, cons_append, nil_append] using huv)
  have hview := hsplit.1
  unfold resource at hview
  have hnumbers := append_last_inj (a := u ++ (idClass r2 ++ ".id." ++ "view"))
    (b := "    @OnClick" ++ '(' :: '\x7b' :: (idClass r2 ++ ".id." ++ "view"))
    (underscore_not_mem_natText i) (underscore_not_mem_natText j) (by
      simpa only [append_assoc, cons_append, nil_append] using hview)
  exact natText_inj hnumbers.2

theorem lineWith_click (withView r2 : Bool) (size : Nat) {n : Nat} (hi : i < n) :
    lineWith (clicks n withView r2 size) (idsText r2 i)
      = .given (trim (lineFrom (click withView r2 size i) 0)) := by
  refine lineWith_numbered hi ?_ fun j hj l hl hin => ?_
  · rw [lineFrom_click]
    refine ⟨"    @OnClick" ++ ['(', '\x7b'], ['\x7d', ')'], ?_⟩
    unfold markLine
    simp only [append_assoc, cons_append, nil_append]
  · have hmem := hin.mem (underscore_mem_idsText r2 i)
    rw [lines_click, mem_cons, mem_cons, mem_append, mem_singleton] at hl
    rcases hl with rfl | rfl | hl | rfl
    · exact hj.ne' (eq_of_infix_markLine hin)
    · refine absurd hmem (not_mem_append ?_ (by decide))
      cases withView <;> exact not_mem_headFront (underscore_not_mem_natText j) (by decide)
        (by decide) (by decide)
    · have hfiller := forall_lines_filler (fun l => !l.contains '_') (by decide)
        (by decide) size l hl
      simp [hmem] at hfiller
    · revert hmem
      decide

/-- the findings on a numbered method, with the line of its own annotation -/
def handler (withView r2 : Bool) (size i : Nat) : Handler where
  ids := .given [resource r2 "view" i, resource r2 "extra" i]
  method := .given ("onClick" ++ natText i)
  takesView := .given withView
  viewType := .given (if withView then "View" else "").toList
  line := .given (trim (lineFrom (click withView r2 size i) 0))

theorem detect_handlers (n : Nat) (withView r2 : Bool) (size : Nat) :
    (Findings.detect (clicks n withView r2 size)).clicks
      = .given ((range n).map (handler withView r2 size)) := by
  have hmap := map_findAll_unlines annotatedClick_opens (holdsOne_click withView r2 size)
    (fun _ hx => not_mem_click hx withView r2 size)
    (f := Handler.ofMatch (clicks n withView r2 size)) (fun _ => rfl) (range n)
  rw [detect_clicks]
  refine congrArg Slot.given (hmap.trans (map_congr_left fun i hi => ?_))
  have hread : Handler.ofMatch (clicks n withView r2 size)
    ⟨0, 0, [], [(2, clickName i), (1, idsText r2 i)]⟩
      = { ids := .given (splitIds (idsText r2 i))
          method := .given (trim (clickName i))
          takesView := .given (viewParameter (clicks n withView r2 size)
            (trim (clickName i))).isSome
          viewType := .given ((viewParameter (clicks n withView r2 size) (trim (clickName i))).getD
            [])
          line := lineWith (clicks n withView r2 size) (idsText r2 i) } := rfl
  have hi := mem_range.mp hi
  rw [hread, splitIds_idsText, trim_word (clickName_word i), viewParameter_clicks withView r2 size
    hi, viewIn_clickInner, lineWith_click withView r2 size hi, handler]
  cases withView <;> rfl

/-- specimens of any size are read back member by member, with the lines of their own annotations -/
theorem ofSource_members (n : Nat) (r2 : Bool) :
    (∀ multiline, (Findings.ofSource (.text (bindViews n r2 multiline))).bindViews
      = .given ((List.range n).map (field r2 multiline)))
    ∧ ∀ withView size, (Findings.ofSource (.text (clicks n withView r2 size))).clicks
      = .given ((List.range n).map (handler withView r2 size)) :=
  ⟨detect_fields n r2, fun withView size => detect_handlers n withView r2 size⟩

end Specimen

end Rebind
