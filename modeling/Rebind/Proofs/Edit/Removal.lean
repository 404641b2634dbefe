import Mathlib
import Rebind.Proofs.Edit.Sparing
import Rebind.Proofs.Layout.WhiteSpace

/-!
# What is removed with the bind calls

The editor of bind calls works in two steps.  First it drops whole lines: those that mention a call
and those that hold nothing but white space or an empty statement.  From what is left it erases the
imports of three classes of the library, one class after the other, and squeezes blank lines.

* `Shed P t t'`: `t'` is `t` without some texts that satisfy `P` and without some white space, taken
  out one at a time;
* `BindStatement`: a call that binds or unbinds, with the assignment it is part of;
* `IsCallLine`: nothing but such statements and white space;
* `edit_removes`: the two steps, for all findings that the editor applies to.
-/

namespace Rebind

open List Pattern

/-! ## texts taken out one at a time -/

/-- the second text is the first without some texts that satisfy `P`, and without some white
space -/
inductive Shed (P : Text → Prop) : Text → Text → Prop
  | done (t : Text) : Shed P t t
  | take {a s b t' : Text} (hs : P s ∨ visible s = []) (h : Shed P (a ++ b) t') :
    Shed P (a ++ (s ++ b)) t'

namespace Shed

variable {P : Text → Prop} {s t t' t'' : Text}

theorem trans (h : Shed P t t') (h' : Shed P t' t'') : Shed P t t'' := by
  induction h with
  | done t => exact h'
  | take hs _ ih => exact .take hs (ih h')

theorem behind (a : Text) (h : Shed P t t') : Shed P (a ++ t) (a ++ t') := by
  induction h with
  | done t => exact .done _
  | take hs _ ih =>
    rw [← append_assoc]
    refine .take hs ?_
    rwa [append_assoc]

theorem front (hs : P s ∨ visible s = []) (h : Shed P t t') : Shed P (s ++ t) t' :=
  .take (a := []) hs h

end Shed

theorem Replaced.shed {p : Pattern} {P : Text → Prop} {t t' : Text} (h : Replaced p [] t t')
    (hp : ∀ s, p.Covers s → ∃ x y, s = x ++ y ∧ P x ∧ visible y = []) : Shed P t t' := by
  induction h with
  | nil => exact .done []
  | @keep c t t' _ _ ih => exact ih.behind [c]
  | swap hs _ ih =>
    obtain ⟨x, y, rfl, hx, hy⟩ := hp _ hs
    rw [append_assoc]
    exact .front (.inl hx) (.front (.inr hy) ih)

theorem Dropped.shed {P : Text → Prop} {ls ls' : List Text}
    (h : Dropped (fun l => visible l = []) ls ls') :
    Shed P (unlines ls) (unlines ls') := by
  have hnewline : visible ['\n'] = [] := by decide
  have hlast : ∀ l : Text, unlines [l] = l ++ unlines [] := fun l => by simp [unlines]
  induction h with
  | nil => exact .done _
  | @keep l ls ls' hd ih =>
    rcases eq_or_ne ls [] with rfl | hne
    · cases hd
      exact .done _
    · rw [unlines_cons hne]
      rcases eq_or_ne ls' [] with rfl | hne'
      · rw [hlast]
        exact Shed.behind l (.front (s := ['\n']) (.inr hnewline) ih)
      · rw [unlines_cons hne']
        exact Shed.behind l (ih.behind ['\n'])
  | @drop l ls ls' hl hd ih =>
    rcases eq_or_ne ls [] with rfl | hne
    · cases hd
      rw [hlast]
      exact .front (.inr hl) (.done _)
    · rw [unlines_cons hne]
      exact .front (.inr hl) (.front (s := ['\n']) (.inr hnewline) ih)

/-! ## lines of statements that bind -/

namespace BindCall

/-- what the result of a call is assigned to -/
def assignment : Pattern :=
  seq [.maybe (keyword "final"), .maybe (keyword "Unbinder"),
    run1 (fun c => isWord c || c == '.'), blanks, lit "=", blanks]

/-- a statement that binds or unbinds the views of a class -/
structure BindStatement where
  /-- the assignment of the result, if there is one -/
  target : Text
  verb : Text
  gap : Text
  args : Text
  room : Text
  target_covers : target = [] ∨ assignment.Covers target
  verb_known : verb = "bind" ∨ verb = "unbind"
  gap_blank : visible gap = []
  args_balanced : Balanced args
  args_plain : ';' ∉ args
  room_blank : visible room = []

def BindStatement.text (B : BindStatement) : Text :=
  B.target ++ ("ButterKnife." ++ B.verb ++ B.gap ++ '(' :: B.args ++ ')' :: B.room ++ [';'])

/-- nothing but statements that bind or unbind, and white space -/
inductive IsCallLine : Text → Prop
  | nil : IsCallLine []
  | blank {c : Char} {t : Text} (hc : isBlank c) (h : IsCallLine t) : IsCallLine (c :: t)
  | statement (B : BindStatement) {t : Text} (h : IsCallLine t) : IsCallLine (B.text ++ t)

theorem isCallLine_of_blank {l : Text} (h : visible l = []) : IsCallLine l := by
  induction l with
  | nil => exact .nil
  | cons c l ih =>
    cases hc : isBlank c with
    | true => exact .blank hc (ih (by simpa [visible, hc] using h))
    | false => rw [visible_cons hc] at h; cases h

/-- an import from the package of the library -/
def packageImport : Pattern :=
  seq [keyword "import", .maybe (keyword "static"), lit "butterknife.",
    run1 (fun c => isWord c || c == '.' || c == '*'), blanks, lit ";"]

/-! ## the two steps -/

def linesLeft (code : Text) : List Text :=
  (lines code).filter (fun l => !(bindsLine l || isEmptyLine l))

theorem visible_of_isEmptyLine {l : Text} (h : isEmptyLine l) :
    visible l = [] ∨ visible l = [';'] := by
  simp only [isEmptyLine, Bool.or_eq_true, List.isEmpty_iff, beq_iff_eq] at h
  rw [← visible_trim]
  rcases h with h | h
  · exact .inl (by rw [h]; rfl)
  · exact .inr (by rw [h]; decide)

theorem dropLines_unlines {ls : List Text} (hls : ∀ l ∈ ls, '\n' ∉ l) (call : Text) :
    dropLines call (unlines ls)
      = unlines (ls.filter (fun l => !occursIn call l && !isEmptyLine l)) := by
  rcases eq_or_ne ls [] with rfl | hne
  · -- the text of no lines has one line, and that is empty
    have hempty : isEmptyLine [] := rfl
    rw [dropLines, show lines (unlines []) = [[]] from rfl, filter_singleton, hempty]
    simp
  · rw [dropLines, lines_unlines hne hls]

theorem dropUnbind_dropBind (code : Text) :
    dropUnbind (dropBind code) = unlines (linesLeft code) := by
  rw [dropBind, dropLines, dropUnbind,
    dropLines_unlines (fun l hl => not_mem_of_mem_lines (mem_of_mem_filter hl)), filter_filter]
  refine congrArg unlines (filter_congr (fun l _ => ?_))
  rw [bindsLine]
  cases occursIn "ButterKnife.bind" l <;> cases occursIn "ButterKnife.unbind" l
    <;> cases isEmptyLine l <;> rfl

theorem importLine_shown {cls : String} (hcls : word.Covers cls.toList) {s : Text}
    (h : (importLine cls).Covers s) :
    ∃ x y, s = x ++ y ∧ packageImport.Covers x ∧ visible y = [] := by
  obtain ⟨w, _, rfl, hw, _, _, rfl, rfl, _, _, rfl, rfl, b, _, rfl, hb, _, _, rfl, rfl, b', n, rfl,
    hb', hn⟩ := h
  refine ⟨w ++ ("butterknife." ++ (cls.toList ++ (b ++ ";"))), b' ++ n, by simp,
    ⟨w, _, rfl, hw, [], _, rfl, .inl rfl, _, _, rfl, rfl, _, _, rfl, ?_, b, _, rfl, hb, rfl⟩, ?_⟩
  · have hword := covers_run1.mp hcls
    exact covers_run1.mpr ⟨hword.1, fun c hc => by rw [hword.2 c hc]; rfl⟩
  rw [visible_append, visible_blanks hb']
  rcases hn with rfl | rfl
  · rfl
  · decide

theorem shed_erase {cls : String} (hcls : word.Covers cls.toList) (code : Text) :
    Shed packageImport.Covers code ((importLine cls).erase code) := by
  have hempty : ¬ (importLine cls).Covers [] := fun h => by
    obtain ⟨r, hr⟩ := importLine_covers h
    simp [importWord] at hr
  exact (replaced_replace rfl hempty [] code).shed (fun _ => importLine_shown hcls)

theorem shed_dropImports (code : Text) : Shed packageImport.Covers code (dropImports code) := by
  have hword : ∀ cls : String, cls.toList ≠ [] ∧ cls.toList.all isWord → word.Covers cls.toList :=
    fun cls h => covers_run1.mpr ⟨h.1, all_eq_true.mp h.2⟩
  exact ((shed_erase (hword "ButterKnife" (by decide)) code).trans
    (shed_erase (hword "BindView" (by decide)) _)).trans
      (shed_erase (hword "OnClick" (by decide)) _)

theorem shed_squeezeBlankLines {P : Text → Prop} (code : Text) :
    Shed P code (squeezeBlankLines code) := by
  have h := ((dropped_squeezeLines (lines code)).imp (fun l hl =>
    visible_blanks (all_eq_true.mp hl))).shed (P := P)
  rwa [unlines_lines] at h

theorem dropped_linesLeft {code : Text} {P : Text → Prop}
    (hP : ∀ l ∈ lines code, bindsLine l → P l) :
    Dropped (fun l => P l ∨ visible l = [] ∨ visible l = [';']) (lines code) (linesLeft code) := by
  refine Dropped.filter (fun l hl hgone => ?_)
  rw [Bool.not_eq_false', Bool.or_eq_true] at hgone
  rcases hgone with hbinds | hempty
  · exact .inl (hP l hl hbinds)
  · exact .inr (visible_of_isEmptyLine hempty)

/-- What the editor removes, whatever the code and the findings it applies to.  Whole lines go
first: each binds or unbinds, is blank or holds nothing but an empty statement.  Where every line
that mentions a call holds nothing but such statements, the lines that go are made of them.  From
the lines that are left only imports of the library and white space are taken out, and all the rest
remains in its order. -/
theorem edit_removes {f : Findings} {v : Value} (hv : applies f = .ok v)
    (happlies : v.truthy = true) (code : Text) :
    ∃ out, edit f code = .ok out
      ∧ Dropped (fun l => bindsLine l = true ∨ visible l = [] ∨ visible l = [';']) (lines code)
        (linesLeft code)
      ∧ ((∀ l ∈ lines code, bindsLine l = true → IsCallLine l) →
        Dropped (fun l => IsCallLine l ∨ visible l = [';']) (lines code) (linesLeft code))
      ∧ Shed packageImport.Covers (unlines (linesLeft code)) out := by
  refine ⟨squeezeBlankLines (dropImports (unlines (linesLeft code))), ?_, dropped_linesLeft
    (fun _ _ h => h), ?_, (shed_dropImports _).trans (shed_squeezeBlankLines _)⟩
  · rw [edit, hv, ok_bind, happlies, dropUnbind_dropBind]
    rfl
  · intro hcalls
    refine (dropped_linesLeft hcalls).imp (fun l hl => ?_)
    rcases hl with hl | hl | hl
    · exact .inl hl
    · exact .inl (isCallLine_of_blank hl)
    · exact .inr hl

def bindingScreen : Text :=
  "import butterknife.BindView;\nvoid m() \x7b\nu = ButterKnife.bind(this);\n;\n\x7d"

/-- the call of `bindingScreen` -/
def screenCall : BindStatement where
  target := ['u', ' ', '=', ' ']
  verb := "bind"
  gap := []
  args := "this"
  room := []
  target_covers := .inr ⟨[], _, rfl, .inl rfl, [], _, rfl, .inl rfl, ['u'], _, rfl,
    covers_run1.mpr ⟨by simp, fun _ h => mem_singleton.mp h ▸ rfl⟩, [' '], _, rfl,
    fun _ h => mem_singleton.mp h ▸ rfl, ['='], [' '], rfl, rfl, fun _ h =>
      mem_singleton.mp h ▸ rfl⟩
  verb_known := .inl rfl
  gap_blank := rfl
  args_balanced := by decide
  args_plain := by decide
  room_blank := rfl

theorem edit_removes_bindingScreen :
    (∀ l ∈ lines bindingScreen, bindsLine l = true → IsCallLine l)
      ∧ ∃ out, edit (.detect bindingScreen) bindingScreen = .ok out
        ∧ Dropped (fun l => IsCallLine l ∨ visible l = [';']) (lines bindingScreen)
          (linesLeft bindingScreen)
        ∧ Shed packageImport.Covers (unlines (linesLeft bindingScreen)) out := by
  have hcalls : ∀ l ∈ lines bindingScreen, bindsLine l → IsCallLine l := by
    have hbinds : ∀ l ∈ lines bindingScreen, bindsLine l → l = screenCall.text := by decide +kernel
    intro l hl hb
    rw [hbinds l hl hb, ← append_nil screenCall.text]
    exact .statement screenCall .nil
  obtain ⟨v, hv, happlies⟩ : ∃ v, applies (.detect bindingScreen) = .ok v ∧ v.truthy :=
    exists_ok_of_check (by decide +kernel)
  obtain ⟨out, hout, -, hlines, hshed⟩ := edit_removes hv happlies bindingScreen
  exact ⟨hcalls, out, hout, hlines hcalls, hshed⟩

/-! ## an empty statement -/

theorem assignment_avoids : assignment.Avoids ';' :=
  avoids_andThen (avoids_maybe (avoids_keyword (by decide) (by decide))) <|
    avoids_andThen (avoids_maybe (avoids_keyword (by decide) (by decide))) <|
    avoids_andThen (avoids_run1 (by decide)) <| avoids_andThen (avoids_run (by decide)) <|
    avoids_andThen (avoids_text (by decide)) (avoids_run (by decide))

theorem BindStatement.count_text (B : BindStatement) : B.text.count ';' ≤ B.text.count 'K' := by
  have htarget : ';' ∉ B.target := by
    rcases B.target_covers with h | h
    · rw [h]
      exact not_mem_nil
    · exact assignment_avoids _ h
  have hverb : ';' ∉ B.verb := by rcases B.verb_known with h | h <;> rw [h] <;> decide
  have hgap : ';' ∉ B.gap := not_mem_of_visible_nil (by decide) B.gap_blank
  have hroom : ';' ∉ B.room := not_mem_of_visible_nil (by decide) B.room_blank
  have hname : 1 ≤ ("ButterKnife.".toList).count 'K' ∧ ("ButterKnife.".toList).count ';'
      = 0 := by decide
  simp only [BindStatement.text, count_append, count_cons, count_eq_zero_of_not_mem htarget,
    count_eq_zero_of_not_mem hverb, count_eq_zero_of_not_mem hgap,
    count_eq_zero_of_not_mem B.args_plain, count_eq_zero_of_not_mem hroom, hname.2]
  simp
  omega

theorem count_packageImport {s : Text} (h : packageImport.Covers s) :
    s.count ';' ≤ s.count 'p' := by
  obtain ⟨_, _, rfl, ⟨_, b, rfl, rfl, hb⟩, f, _, rfl, hf, _, _, rfl, rfl, w, _, rfl, hw, b',
    _, rfl, hb', rfl⟩ := h
  have hblank : ';' ∉ b := avoids_run1 (by decide) b hb
  have hstatic : ';' ∉ f := avoids_maybe (avoids_keyword (by decide) (by decide)) f hf
  have hpath : ';' ∉ w := avoids_run1 (by decide) w hw
  have hroom : ';' ∉ b' := avoids_run (by decide) b' hb'
  have himport : ("import".toList).count 'p' = 1 ∧ ("import".toList).count ';' = 0 := by decide
  have hlibrary : ("butterknife.".toList).count ';' = 0 ∧ (";".toList).count ';' = 1 := by decide
  simp only [count_append, count_eq_zero_of_not_mem hblank, count_eq_zero_of_not_mem hstatic,
    count_eq_zero_of_not_mem hpath, count_eq_zero_of_not_mem hroom, himport, hlibrary]
  omega

theorem shed_count {P : Text → Prop} {t t' : Text} (h : Shed P t t')
    (hP : ∀ s, P s → s.count ';' ≤ s.count 'K' + s.count 'p') :
    t.count ';' + (t'.count 'K' + t'.count 'p') ≤ t'.count ';' + (t.count 'K' + t.count 'p') := by
  induction h with
  | done t => exact le_rfl
  | @take a s b t' hs _ ih =>
    have hone : s.count ';' ≤ s.count 'K' + s.count 'p' := by
      rcases hs with hs | hs
      · exact hP s hs
      · rw [count_eq_zero_of_not_mem (not_mem_of_visible_nil (by decide) hs)]
        exact Nat.zero_le _
    simp only [count_append] at ih ⊢
    omega

def emptyLoop : Text :=
  "class A \x7b\nvoid m() \x7b\nButterKnife.bind(this);\nwhile (x())\n;\n\x7d\n\x7d\n"

/-- the empty statement goes, so the loop takes what comes next for its body -/
theorem empty_statement_lost :
    ∃ out, edit (.detect emptyLoop) emptyLoop = .ok out
      ∧ ¬ Shed (fun s => (∃ B : BindStatement, s = B.text) ∨ packageImport.Covers s)
        emptyLoop out := by
  refine ⟨"class A \x7b\nvoid m() \x7b\nwhile (x())\n\x7d\n\x7d", by decide +kernel, fun h => ?_⟩
  have hcount := shed_count h (fun s hs => ?_)
  · revert hcount
    decide +kernel
  · rcases hs with ⟨B, rfl⟩ | hs
    · exact B.count_text.trans (Nat.le_add_right _ _)
    · exact (count_packageImport hs).trans (Nat.le_add_left _ _)

end BindCall

end Rebind
