import Mathlib
import Rebind.Proofs.Injection.Standing
import Rebind.Proofs.Source.LineSpans

/-!
# Overriding initialisers that are extended

The overriding `initViews` and `initListener` are extended line by line: the method starts on the
first line with its header, and it ends on the first line below at which the braces of all lines
from the first one on are balanced (`BalancedEnd`).  The lines between are replaced, by a call of
the base and the content in `initViews`, by themselves and the content in `initListener`.

That line need not be the one of the brace that matches: what else stands on the lines of the two
braces is counted too, and a method on one line has its end further below.

* `overrideSpan_eq_some_iff` the lines of the method, from the line of its header;
* `SwapsLines.placed_iff`: the content is put between the two braces iff the lines end in time;
* `keepsLines_swap`: all lines are kept iff those between come again in what replaces them;
* `overrides_extended_iff`: both for the two methods, and when the lines end with the brace that
  matches.
-/

namespace Rebind

open List

/-! ## the lines of a method -/

/-- a header ends with the character at `a`, and none before it -/
def HeaderAt (headers : List Text) (code : Text) (a : Nat) : Prop :=
  (∃ h ∈ headers, h <:+ code.take (a + 1)) ∧ ∀ h ∈ headers, ¬ h <:+: code.take a

instance (headers : List Text) (code : Text) (a : Nat) : Decidable (HeaderAt headers code a) :=
  inferInstanceAs (Decidable (_ ∧ _))

section
variable {headers ls : List Text} {code : Text} {a s t : Nat}

/-- the count of a scan that has come to line `i` is that of the lines before -/
theorem balancedLine_eq_some_iff {rest : List Text} {i : Nat} {count : Int}
    (hrest : rest = ls.drop i) (hi : s ≤ i) (hcount : count = linesBalance ((ls.take i).drop s))
    (hpast : ∀ j < i, s < j → netBraces ls s j ≠ 0) :
    balancedLine s i count rest = some t ↔ BalancedEnd ls s t ∧ i ≤ t := by
  induction rest generalizing i count with
  | nil =>
    have hlen : ls.length ≤ i := drop_eq_nil_iff.mp hrest.symm
    refine iff_of_false (by simp [balancedLine]) ?_
    rintro ⟨⟨-, hlt, -⟩, hle⟩
    omega
  | cons l rest ih =>
    have hlt : i < ls.length := by
      by_contra hge
      rw [drop_eq_nil_of_le (by omega)] at hrest
      cases hrest
    obtain ⟨rfl, hnext⟩ : l = lineAt ls i ∧ rest = ls.drop (i + 1) := by
      rw [drop_eq_lineAt_cons hlt] at hrest
      exact List.cons.inj hrest
    have hstep : count + braceBalance (lineAt ls i) = netBraces ls s i := by
      rw [netBraces, take_add_one, getElem?_lineAt hlt,
        drop_append_of_le_length (by rw [length_take]; omega), linesBalance_append, ← hcount]
      simp [linesBalance]
    rw [balancedLine]
    simp only [hstep]
    split
    · next hzero =>
      have hend : BalancedEnd ls s i := ⟨hzero.2, hlt, hzero.1, hpast⟩
      constructor
      · intro h
        rw [← Option.some.inj h]
        exact ⟨hend, le_rfl⟩
      · rintro ⟨h, -⟩
        rw [hend.unique h]
    · next hgo =>
      have hlater : ∀ j < i + 1, s < j → netBraces ls s j ≠ 0 := by
        intro j hj hs
        rcases Nat.lt_succ_iff_lt_or_eq.mp hj with hj | rfl
        · exact hpast j hj hs
        · exact fun hz => hgo ⟨hz, hs⟩
      rw [netBraces, ih hnext (by omega) rfl hlater]
      refine and_congr_right fun hend => ⟨fun h => by omega, fun h => ?_⟩
      have hne : t ≠ i := by
        rintro rfl
        exact hgo ⟨hend.2.2.1, hend.1⟩
      omega

/-- the lines of the method, for the line on which its header stands -/
theorem overrideSpan_eq_some_iff (h : ls.findIdx? (anyOccursIn headers) = some s) :
    overrideSpan headers ls = some (s, t) ↔ BalancedEnd ls s t := by
  have hcount : (0 : Int) = linesBalance ((ls.take s).drop s) := by
    rw [drop_eq_nil_of_le (by rw [length_take]; omega)]
    rfl
  have hscan := balancedLine_eq_some_iff (t := t) rfl le_rfl hcount fun j hj hs => by omega
  rw [overrideSpan, h, Option.bind_some, Option.map_eq_some_iff]
  constructor
  · rintro ⟨t', ht, he⟩
    obtain rfl := (Prod.mk.inj he).2
    exact (hscan.mp ht).1
  · intro hend
    exact ⟨t, hscan.mpr ⟨hend, hend.1.le⟩, rfl⟩

end

section
variable {headers : List Text} {code : Text} {a : Nat}

/-- the line of the first header is the first line with a header -/
theorem HeaderAt.findIdx (h : HeaderAt headers code a) (hbrace : code[a]? = some '\x7b')
    (hheaders : ∀ h ∈ headers, '\n' ∉ h ∧ h ≠ []) :
    (lines code).findIdx? (anyOccursIn headers) = some (lineOf code a) := by
  obtain ⟨⟨g, hg, w, hw⟩, hfirst⟩ := h
  obtain ⟨hflat, hne⟩ := hheaders g hg
  obtain ⟨front, last, back, hfront, hall, hlen⟩ := lines_cut code (a + 1)
  -- the header is the end of what stands before `a + 1` on its line
  obtain ⟨before, x, hbefore⟩ : ∃ before x, lines w = before ++ [x] :=
    ⟨_, _, (dropLast_append_getLast (lines_ne_nil w)).symm⟩
  have hcut := lines_append hbefore (splitAll_of_not_mem hflat)
  rw [hw, hfront] at hcut
  obtain ⟨rfl, hlast⟩ := append_inj' hcut rfl
  obtain rfl : last = x ++ g := (List.cons.inj hlast).1
  have hwtake : w <+: code.take a := by
    have hwlen : w.length + g.length = (code.take (a + 1)).length := by rw [← hw, length_append]
    have hgpos := length_pos_iff.mpr hne
    rw [length_take] at hwlen
    refine prefix_of_prefix_length_le ⟨g, hw⟩ (take_prefix_take_left (by omega)) ?_
    rw [length_take]
    omega
  rw [lineOf_succ hbrace (by decide)] at hlen
  rw [← hlen, hall, findIdx?_append]
  have hnone : front.findIdx? (anyOccursIn headers) = none := by
    rw [findIdx?_eq_none_iff]
    intro l hl
    rw [anyOccursIn, any_eq_false]
    intro g' hg' hocc
    have hmem : l ∈ lines w := by
      rw [hbefore]
      exact mem_append_left _ hl
    exact hfirst g' hg' ((((occursIn_iff g' l).mp hocc).trans (infix_of_mem_lines hmem)).trans
      hwtake.isInfix)
  have hsome : anyOccursIn headers (x ++ g ++ (code.drop (a + 1)).takeWhile (· != '\n')) := by
    rw [anyOccursIn, any_eq_true]
    exact ⟨g, hg, (occursIn_iff _ _).mpr ⟨x, _, rfl⟩⟩
  rw [hnone, findIdx?_cons, if_pos hsome]
  simp

end

/-! ## what is put in, and where -/

/-- the content is put between `a` and `e`, in the place of something there or of nothing -/
def PlacedWithin (code : Text) (a e : Nat) (content out : Text) : Prop :=
  ∃ p q added, a < p ∧ p ≤ q ∧ q ≤ e ∧ content <:+: added ∧ out = code.take p ++ added
    ++ code.drop q

/-- the lines of the code that are not blank come again, in their order -/
def KeepsLines (code out : Text) : Prop :=
  ((lines code).filter (fun l => !isBlankText l)).Sublist (lines out)

instance (code out : Text) : Decidable (KeepsLines code out) :=
  inferInstanceAs (Decidable (List.Sublist _ _))

def innerLines (ls : List Text) (s t : Nat) : List Text := (ls.take t).drop (s + 1)

def swapLines (code : Text) (s t : Nat) (x : Text) : Text :=
  unlines ((lines code).take (s + 1) ++ [x] ++ (lines code).drop t)

section
variable {code content out : Text} {a e p q s t : Nat}

theorem PlacedWithin.suffix (h : PlacedWithin code a e content out) : code.drop e <:+ out := by
  obtain ⟨p, q, added, -, -, hqe, -, rfl⟩ := h
  have hdrop : code.drop e <:+ code.drop q := by
    rw [show e = q + (e - q) by omega, ← drop_drop]
    exact drop_suffix _ _
  exact hdrop.trans (suffix_append _ _)

theorem not_placedWithin_self (he : e < code.length) (hlong : code.length < content.length) :
    ¬ PlacedWithin code a e content code := by
  rintro ⟨p, q, added, -, hpq, hqe, hin, hsame⟩
  have hlen := congrArg length hsame
  have hle := hin.length_le
  rw [length_append, length_append, length_take, length_drop] at hlen
  omega

theorem placedWithin_iff {update : Text → Text} {front : Text} (hap : a < p) (hpq : p ≤ q)
    (hq : q < code.length)
    (hupdate : ∀ content, update content = code.take p ++ (front ++ content) ++ code.drop q) :
    (∀ content, PlacedWithin code a e content (update content)) ↔ q ≤ e := by
  constructor
  · intro h
    by_contra hlate
    -- a character other than the one before `q`
    obtain ⟨c, hc⟩ : ∃ c, code[q - 1]? = some c := ⟨_, getElem?_eq_getElem (by omega)⟩
    obtain ⟨x, hx⟩ : ∃ x, x ≠ c :=
      (em (c = 'x')).elim (fun h => ⟨'y', by simp [h]⟩) (fun h => ⟨'x', Ne.symm h⟩)
    have hnew : x :: code.drop q <:+ update [x] := ⟨code.take p ++ front, by rw [hupdate]; simp⟩
    have hold : c :: code.drop q <:+ update [x] := by
      have hcons : c :: code.drop q = code.drop (q - 1) := by
        obtain ⟨hlt, hget⟩ := List.getElem?_eq_some_iff.mp hc
        rw [drop_eq_getElem_cons hlt, hget, show q - 1 + 1 = q by omega]
      rw [hcons, show q - 1 = e + (q - 1 - e) by omega, ← drop_drop]
      exact (drop_suffix _ _).trans (h [x]).suffix
    have hsame := (suffix_of_suffix_length_le hnew hold (by simp)).eq_of_length (by simp)
    exact hx (List.cons.inj hsame).1
  · intro h content
    exact ⟨p, q, front ++ content, hap, hpq, h, (suffix_append _ _).isInfix, hupdate content⟩

theorem swapLines_eq (hs : s < t) (ht : t < (lines code).length) (x : Text) :
    swapLines code s t x
      = code.take (lineEnd code s) ++ '\n' :: x ++ code.drop (lineEnd code (t - 1)) := by
  have hfront : (lines code).take (s + 1) ≠ [] := by
    rw [← length_pos_iff, length_take]
    omega
  have hback : (lines code).drop t ≠ [] := by
    rw [← length_pos_iff, length_drop]
    omega
  rw [swapLines, unlines_append (by simp) hback, unlines_append hfront (by simp),
    take_lineEnd (by omega), drop_lineEnd (by omega), show t - 1 + 1 = t by omega]
  simp [unlines]

theorem lines_swapLines (hs : s < t) (ht : t < (lines code).length) (x : Text) :
    lines (swapLines code s t x) = (lines code).take (s + 1) ++ lines x ++ (lines code).drop t := by
  have hfront : lines (unlines ((lines code).take (s + 1))) = (lines code).take (s + 1) := by
    refine lines_unlines ?_ fun l hl => not_mem_of_mem_lines (mem_of_mem_take hl)
    rw [← length_pos_iff, length_take]
    omega
  have hback : lines (unlines ((lines code).drop t)) = (lines code).drop t := by
    refine lines_unlines ?_ fun l hl => not_mem_of_mem_lines (mem_of_mem_drop hl)
    rw [← length_pos_iff, length_drop]
    omega
  rw [swapLines_eq hs ht, take_lineEnd (by omega), drop_lineEnd (by omega), show t - 1 + 1
    = t by omega,
    lines_eq_splitAll, append_assoc, cons_append, splitAll_append, splitAll_append, append_assoc,
    ← lines_eq_splitAll, ← lines_eq_splitAll, ← lines_eq_splitAll, hfront, hback]

/-- the lines are kept iff those between come again in what replaces them -/
theorem keepsLines_swap (hs : s < t) (ht : t < (lines code).length) (x : Text) :
    KeepsLines code (swapLines code s t x)
      ↔ ((innerLines (lines code) s t).filter (fun l => !isBlankText l)).Sublist
        ((lines x).filter (fun l => !isBlankText l)) := by
  rw [KeepsLines, lines_swapLines hs ht]
  have hsplit : (lines code).filter (fun l => !isBlankText l)
      = ((lines code).take (s + 1)).filter (fun l => !isBlankText l)
        ++ (innerLines (lines code) s t).filter (fun l => !isBlankText l)
        ++ ((lines code).drop t).filter (fun l => !isBlankText l) := by
    conv_lhs => rw [lines_split (lines code) hs]
    rw [filter_append, filter_append, innerLines]
  constructor
  · intro h
    have hvisible := h.filter (fun l => !isBlankText l)
    rw [filter_filter, filter_append, filter_append] at hvisible
    simp only [Bool.and_self] at hvisible
    rw [hsplit] at hvisible
    exact (append_sublist_append_left _).mp ((append_sublist_append_right _).mp hvisible)
  · intro h
    rw [hsplit]
    exact (filter_sublist.append (h.trans filter_sublist)).append filter_sublist

end

/-! ## the two methods -/

def viewsOpenings : List Text :=
  ["protected void initViews() \x7b".toList, "public void initViews() \x7b".toList]

def listenerOpenings : List Text :=
  ["public void initListener() \x7b", "protected void initListener() \x7b"]

def listenerFront (body : Text) : Text :=
  if isBlankText body then ['\n'] else body ++ "\n        \n        // 新增的点击事件监听器\n"

theorem listenerFront_append (body content : Text) : listenerFront body ++ content
    = if isBlankText body then '\n' :: content
      else body ++ "\n        \n        // 新增的点击事件监听器\n" ++ content := by
  unfold listenerFront
  split <;> rfl

def baseCall : Text := "        super.initViews();"

/-- the content is put behind the text `front t` in the place of the lines between `s` and the
balanced end `t` -/
structure SwapsLines (code : Text) (s : Nat) (front : Nat → Text) (update : Text → Text) :
    Prop where
  unended : (∀ t, ¬ BalancedEnd (lines code) s t) → ∀ content, update content = code
  ended : ∀ t, BalancedEnd (lines code) s t → ∀ content, update content
    = swapLines code s t (front t ++ content)

section
variable {code : Text} {a e s : Nat} {front : Nat → Text} {update : Text → Text}

theorem overrideSpan_none {headers : List Text}
    (hs : (lines code).findIdx? (anyOccursIn headers) = some s)
    (h : ∀ t, ¬ BalancedEnd (lines code) s t) : overrideSpan headers (lines code) = none := by
  cases hspan : overrideSpan headers (lines code) with
  | none => rfl
  | some span =>
    obtain ⟨i, hi, hmap⟩ := Option.bind_eq_some_iff.mp hspan
    obtain ⟨t, -, rfl⟩ := Option.map_eq_some_iff.mp hmap
    obtain rfl := Option.some.inj (hs.symm.trans hi)
    exact absurd ((overrideSpan_eq_some_iff hs).mp hspan) (h t)

theorem updateInitViews_swaps (hs : (lines code).findIdx? (anyOccursIn viewsOpenings) = some s) :
    SwapsLines code s (fun _ => baseCall ++ ['\n']) (updateInitViews code) where
  unended h content := by
    have hspan := overrideSpan_none hs h
    rw [viewsOpenings] at hspan
    simp only [updateInitViews, hspan]
  ended t h content := by
    have hspan := (overrideSpan_eq_some_iff hs).mpr h
    rw [viewsOpenings] at hspan
    simp only [updateInitViews, hspan]
    rfl

theorem updateInitListener_swaps (hs : (lines code).findIdx? (anyOccursIn listenerOpenings)
    = some s) :
    SwapsLines code s (fun t => listenerFront (unlines (innerLines (lines code) s t)))
      (updateInitListener code) where
  unended h content := by
    have hspan := overrideSpan_none hs h
    rw [listenerOpenings] at hspan
    simp only [updateInitListener, hspan]
  ended t h content := by
    have hspan := (overrideSpan_eq_some_iff hs).mpr h
    rw [listenerOpenings] at hspan
    simp only [updateInitListener, hspan, swapLines, listenerFront_append]
    rfl

/-- the content is put between the braces, whatever it is, iff the lines end with the brace that
matches or above -/
theorem SwapsLines.placed_iff (h : SwapsLines code (lineOf code a) front update)
    (hm : Matched code a e) :
    (∀ content, PlacedWithin code a e content (update content))
      ↔ ∃ t, BalancedEnd (lines code) (lineOf code a) t ∧ t ≤ lineOf code e := by
  have he : e < code.length := (List.getElem?_eq_some_iff.mp hm.2.2.1).1
  by_cases hend : ∃ t, BalancedEnd (lines code) (lineOf code a) t
  · obtain ⟨t, ht⟩ := hend
    have hstart : lineOf code a + 1 < (lines code).length := Nat.lt_of_le_of_lt ht.1 ht.2.1
    have hstop : t - 1 + 1 < (lines code).length := by
      have := ht.2.1
      omega
    have hbefore : a < lineEnd code (lineOf code a) :=
      (lt_lineEnd_iff hm.1 (by decide) hstart).mpr le_rfl
    have horder : lineEnd code (lineOf code a) ≤ lineEnd code (t - 1) :=
      (lineOf_le_iff hstop).mp
        (((lineOf_le_iff hstart).mpr le_rfl).trans (Nat.le_sub_one_of_lt ht.1))
    have hupdate : ∀ content, update content = code.take (lineEnd code (lineOf code a))
        ++ ('\n' :: front t ++ content) ++ code.drop (lineEnd code (t - 1)) := by
      intro content
      rw [h.ended t ht, swapLines_eq ht.1 ht.2.1]
      rfl
    have hinside : lineEnd code (t - 1) < code.length :=
      (List.getElem?_eq_some_iff.mp (getElem?_lineEnd hstop)).1
    have hline := lt_lineEnd_iff hm.2.2.1 (by decide) hstop
    have hlt := ht.1
    rw [placedWithin_iff hbefore horder hinside hupdate, ← not_lt, hline]
    constructor
    · intro hle
      exact ⟨t, ht, by omega⟩
    · rintro ⟨t', ht', hle⟩
      obtain rfl := ht.unique ht'
      omega
  · refine iff_of_false (fun hall => ?_) fun ⟨t, ht, _⟩ => hend ⟨t, ht⟩
    have hsame := h.unended (fun t ht => hend ⟨t, ht⟩) (List.replicate (code.length + 1) 'x')
    have hplaced := hall (List.replicate (code.length + 1) 'x')
    rw [hsame] at hplaced
    exact not_placedWithin_self he (by rw [length_replicate]; omega) hplaced

theorem SwapsLines.keeps (h : SwapsLines code s front update) (content : Text)
    (hfront : ∀ t, BalancedEnd (lines code) s t →
      ((innerLines (lines code) s t).filter (fun l => !isBlankText l)).Sublist
        ((lines (front t ++ content)).filter (fun l => !isBlankText l))) :
    KeepsLines code (update content) := by
  by_cases hend : ∃ t, BalancedEnd (lines code) s t
  · obtain ⟨t, ht⟩ := hend
    rw [h.ended t ht]
    exact (keepsLines_swap ht.1 ht.2.1 _).mpr (hfront t ht)
  · rw [h.unended fun t ht => hend ⟨t, ht⟩]
    exact filter_sublist

theorem blank_of_mem_unlines {ls : List Text} {l : Text} (h : isBlankText (unlines ls))
    (hl : l ∈ ls) :
    isBlankText l = true := by
  have hin := infix_unlines_of_mem hl
  rw [isBlankText, all_eq_true] at h ⊢
  exact fun c hc => h c (hin.subset hc)

theorem listenerFront_keeps (s t : Nat) (content : Text) :
    ((innerLines (lines code) s t).filter (fun l => !isBlankText l)).Sublist
      ((lines (listenerFront (unlines (innerLines (lines code) s t)) ++ content)).filter
        (fun l => !isBlankText l)) := by
  rw [listenerFront_append]
  split
  · next hblank =>
    rw [filter_eq_nil_iff.mpr fun l hl => by simp [blank_of_mem_unlines hblank hl]]
    exact nil_sublist _
  · next hvisible =>
    have hne : innerLines (lines code) s t ≠ [] := by
      intro hnil
      rw [hnil] at hvisible
      exact hvisible rfl
    have hlines : lines (unlines (innerLines (lines code) s t)) = innerLines (lines code) s t :=
      lines_unlines hne fun l hl => not_mem_of_mem_lines (mem_of_mem_take (mem_of_mem_drop hl))
    have hbreak : "\n        \n        // 新增的点击事件监听器\n"
        = '\n' :: "        \n        // 新增的点击事件监听器\n" := by decide
    refine List.Sublist.filter _ ?_
    rw [lines_append_break hbreak, hlines]
    exact sublist_append_left _ _

theorem lines_baseCall (content : Text) : lines (baseCall ++ ['\n'] ++ content) = baseCall
    :: lines content := by
  have hcall : lines baseCall = [baseCall] := by decide
  rw [lines_append_break rfl, hcall]
  rfl

theorem keepsLines_baseCall (h : SwapsLines code s (fun _ => baseCall ++ ['\n']) update) :
    (∀ content, KeepsLines code (update content)) ↔ ∀ t, BalancedEnd (lines code) s t →
      ((innerLines (lines code) s t).filter (fun l => !isBlankText l)).Sublist [baseCall] := by
  have hvisible : isBlankText baseCall = false := by decide
  constructor
  · intro hkeeps t ht
    have hnone := hkeeps []
    rw [h.ended t ht, keepsLines_swap ht.1 ht.2.1, lines_baseCall, filter_cons, hvisible] at hnone
    exact hnone
  · intro hlines content
    refine h.keeps content fun t ht => ?_
    rw [lines_baseCall, filter_cons, hvisible]
    exact (hlines t ht).trans ((nil_sublist _).cons_cons baseCall)

end

/-- When an initialiser that is extended keeps its lines, whatever the content, and gets the content
between its braces.  For the second the count over whole lines has to end on the line of the
matching brace or above, which it does where both braces have lines of their own. -/
theorem overrides_extended_iff {code : Text} {a e : Nat} (hm : Matched code a e) :
    (HeaderAt listenerOpenings code a →
      (∀ content, KeepsLines code (updateInitListener code content))
      ∧ ((∀ content, PlacedWithin code a e content (updateInitListener code content))
        ↔ ∃ t, BalancedEnd (lines code) (lineOf code a) t ∧ t ≤ lineOf code e))
    ∧ (HeaderAt viewsOpenings code a →
      ((∀ content, KeepsLines code (updateInitViews code content))
        ↔ ∀ t, BalancedEnd (lines code) (lineOf code a) t →
          ((innerLines (lines code) (lineOf code a) t).filter (fun l => !isBlankText l)).Sublist
            [baseCall])
      ∧ ((∀ content, PlacedWithin code a e content (updateInitViews code content))
        ↔ ∃ t, BalancedEnd (lines code) (lineOf code a) t ∧ t ≤ lineOf code e))
    ∧ (OwnLines code a e → BalancedEnd (lines code) (lineOf code a) (lineOf code e)) := by
  refine ⟨fun hheader => ?_, fun hheader => ?_, fun hown => hown.balancedEnd hm⟩
  · have hswaps := updateInitListener_swaps (hheader.findIdx hm.1 (by decide))
    exact ⟨fun content => hswaps.keeps content fun t _ => listenerFront_keeps _ t content,
      hswaps.placed_iff hm⟩
  · have hswaps := updateInitViews_swaps (hheader.findIdx hm.1 (by decide))
    exact ⟨keepsLines_baseCall hswaps, hswaps.placed_iff hm⟩

def blockListener : Text :=
  "class A \x7b\npublic void initListener() \x7b\nif (x) \x7b\ny();\n\x7d\n\x7d\n\x7d\n"

def bareViews : Text :=
  "class A \x7b\nprotected void initViews() \x7b\n        super.initViews();\n\x7d\n\x7d\n"

theorem overrides_extended_iff_blockListener :
    (Matched blockListener 37 55 ∧ HeaderAt listenerOpenings blockListener 37
      ∧ OwnLines blockListener 37 55
      ∧ ∀ content, KeepsLines blockListener (updateInitListener blockListener content)
        ∧ PlacedWithin blockListener 37 55 content (updateInitListener blockListener content))
    ∧ Matched bareViews 37 66 ∧ HeaderAt viewsOpenings bareViews 37 ∧ OwnLines bareViews 37 66
      ∧ ∀ content, KeepsLines bareViews (updateInitViews bareViews content)
        ∧ PlacedWithin bareViews 37 66 content (updateInitViews bareViews content) := by
  have hlistener : Matched blockListener 37 55 ∧ HeaderAt listenerOpenings blockListener 37
      ∧ OwnLines blockListener 37 55 := by decide +kernel
  have hviews : Matched bareViews 37 66 ∧ HeaderAt viewsOpenings bareViews 37
    ∧ OwnLines bareViews 37 66
      ∧ ((innerLines (lines bareViews) (lineOf bareViews 37) (lineOf bareViews 66)).filter
        (fun l => !isBlankText l)).Sublist [baseCall] := by decide +kernel
  obtain ⟨hm, hheader, hown⟩ := hlistener
  obtain ⟨hm', hheader', hown', hbody⟩ := hviews
  obtain ⟨hextended, -, hends⟩ := overrides_extended_iff hm
  obtain ⟨-, hextended', hends'⟩ := overrides_extended_iff hm'
  refine ⟨⟨hm, hheader, hown, fun content => ⟨(hextended hheader).1 content, ?_⟩⟩,
    hm', hheader', hown', fun content => ⟨?_, ?_⟩⟩
  · exact (hextended hheader).2.mpr ⟨_, hends hown, le_rfl⟩ content
  · refine (hextended' hheader').1.mpr (fun t ht => ?_) content
    rw [← (hends' hown').unique ht]
    exact hbody
  · exact (hextended' hheader').2.mpr ⟨_, hends' hown', le_rfl⟩ content

def fullViews : Text := "class A \x7b\nprotected void initViews() \x7b\ny();\n\x7d\n\x7d\n"

def joinedListener : Text :=
  "class A \x7b\npublic void initListener() \x7b\n\x7d void n() \x7b\n\x7d\n\x7d\n"

/-- the body of `initViews` is lost, with its braces on lines of their own; and what is meant for
`initListener` is put into the next method, if that starts on the line of the closing brace -/
theorem overrides_body_lost :
    (Matched fullViews 37 44 ∧ HeaderAt viewsOpenings fullViews 37 ∧ OwnLines fullViews 37 44
      ∧ updateInitViews fullViews "x" =
        "class A \x7b\nprotected void initViews() \x7b\n        super.initViews();\nx\n\x7d\n\x7d\n"
      ∧ ¬ KeepsLines fullViews (updateInitViews fullViews "x"))
    ∧ Matched joinedListener 37 39 ∧ HeaderAt listenerOpenings joinedListener 37
      ∧ ¬ PlacedWithin joinedListener 37 39 "x" (updateInitListener joinedListener "x") := by
  have hbehind : ¬ joinedListener.drop 39 <:+ updateInitListener joinedListener "x" := by
    decide +kernel
  exact ⟨by decide +kernel, by decide +kernel, by decide +kernel, fun h => hbehind h.suffix⟩

end Rebind
