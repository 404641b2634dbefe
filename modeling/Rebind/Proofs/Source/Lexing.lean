import Mathlib
import Rebind.Proofs.Source.Comments

/-!
# Comments and literals as the language reads them

`LexState` is where a character of a source text stands: in code, in a comment or in a literal.  The
state is carried from character to character (`LexState.step`), while `commentStep` carries a single
flag from line to line and asks whether the marks `/*` and `*/` stand anywhere in the line.  The two
agree after a line that has no `/*`, and after a line that has one they agree iff the line is
`Candid`: `/*` alone leaves a block comment open, and both marks together leave things as they were
(`commentStep_snd_eq_iff`).  So they agree after candid lines (`blockAfter_eq`), and since a line
with one of the marks sets the flag whatever it was, it is enough that the lines are candid from
there on (`blockAfter_eq_of_inStep`).

Escapes of Unicode characters are taken as translated already.
-/

namespace Rebind

variable {c : Char} {s : LexState} {line : Text}

/-- where a character stands: in code, in code after one `/`, in a comment up to the end of the
line, in a block comment, there after one `*`, after a `"` or two that may open a text block, in a
string, in a character, in a text block, there after one or two `"`, or after a backslash in one of
these -/
inductive LexState where
  | code
  | slash
  | lineComment
  | block
  | star
  | quote
  | quotes
  | string
  | stringEscape
  | character
  | characterEscape
  | textBlock
  | textQuote
  | textQuotes
  | textEscape
  deriving DecidableEq

namespace LexState

def endsLine (c : Char) : Bool := c == '\n' || c == '\r'

def inCode (c : Char) : LexState :=
  if c = '/' then .slash else if c = '"' then .quote else if c = '\'' then .character else .code

def inString (c : Char) : LexState :=
  if c = '"' then .code else if c = '\\' then .stringEscape else if endsLine c then .code
    else .string

def inCharacter (c : Char) : LexState :=
  if c = '\'' then .code else if c = '\\' then .characterEscape else if endsLine c then .code
  else .character

def inTextBlock (next : LexState) (c : Char) : LexState :=
  if c = '"' then next else if c = '\\' then .textEscape else .textBlock

/-- the state after one more character -/
def step : LexState → Char → LexState
  | .code, c => inCode c
  | .slash, c => if c = '/' then .lineComment else if c = '*' then .block else inCode c
  | .lineComment, c => if endsLine c then .code else .lineComment
  | .block, c => if c = '*' then .star else .block
  | .star, c => if c = '/' then .code else if c = '*' then .star else .block
  | .quote, c => if c = '"' then .quotes else inString c
  | .quotes, c => if c = '"' then .textBlock else inCode c
  | .string, c => inString c
  | .stringEscape, c => if endsLine c then .code else .string
  | .character, c => inCharacter c
  | .characterEscape, c => if endsLine c then .code else .character
  | .textBlock, c => inTextBlock .textQuote c
  | .textQuote, c => inTextBlock .textQuotes c
  | .textQuotes, c => inTextBlock .code c
  | .textEscape, _ => .textBlock

def after (s : LexState) (t : Text) : LexState := t.foldl step s

def nextLine (s : LexState) (line : Text) : LexState := (s.after line).step '\n'

/-- outside of comments and literals -/
def isLive : LexState → Bool
  | .code | .slash | .quotes => true
  | _ => false

/-- in a block comment -/
def inBlock : LexState → Bool
  | .block | .star => true
  | _ => false

/-- the states in which a line can start -/
def startsLine : LexState → Bool
  | .code | .block | .textBlock => true
  | _ => false

theorem after_append (s : LexState) (a b : Text) : s.after (a ++ b) = (s.after a).after b :=
  List.foldl_append

theorem after_snoc (s : LexState) (t : Text) (c : Char) :
    s.after (t ++ [c]) = (s.after t).step c := by
  rw [after_append]
  rfl

theorem startsLine_nextLine (s : LexState) (line : Text) : (s.nextLine line).startsLine := by
  unfold nextLine
  cases s.after line <;> rfl

theorem inBlock_nextLine (s : LexState) (line : Text) :
    (s.nextLine line).inBlock = (s.after line).inBlock := by
  unfold nextLine
  cases s.after line <;> rfl

/-! ## what a step can do -/

theorem step_eq_slash (h : s.step c = .slash) : c = '/' := by
  cases s <;> grind [step, inCode, inString, inCharacter, inTextBlock]

theorem step_eq_star (h : s.step c = .star) : c = '*' := by
  cases s <;> grind [step, inCode, inString, inCharacter, inTextBlock]

theorem inBlock_step (h : (s.step c).inBlock) : s.inBlock = true ∨ (s = .slash ∧ c = '*') := by
  cases s <;> grind [step, inCode, inString, inCharacter, inTextBlock, inBlock]

theorem eq_star_of_leaves (hs : s.inBlock) (h : (s.step c).inBlock = false) :
    s = .star ∧ c = '/' := by
  cases s <;> grind [step, inBlock]

/-! ## the marks of block comments within a line -/

theorem infix_snoc (u : Text) (c d : Char) : [c, d] <:+: u ++ [c] ++ [d] := by
  exact ⟨u, [], by simp⟩

theorem not_infix_of_snoc {mark t : Text} (h : ¬ mark <:+: t ++ [c]) : ¬ mark <:+: t := by
  intro ht
  exact h (List.infix_append_of_infix_left ht)

section
variable {s : LexState} {t : Text}

theorem exists_snoc_of_after {q : LexState} (hs : s.startsLine) (hq : q.startsLine = false)
    (h : s.after t = q) : ∃ u c, t = u ++ [c] ∧ (s.after u).step c = q := by
  cases t using List.reverseRecOn with
  | nil =>
    rw [← h, show s.after [] = s from rfl, hs] at hq
    cases hq
  | append_singleton u c => exact ⟨u, c, rfl, by rwa [after_snoc] at h⟩

theorem inBlock_after_snoc (hs : s.startsLine) (hopen : ¬ "/*" <:+: t ++ [c])
    (h : (s.after (t ++ [c])).inBlock) : (s.after t).inBlock = true := by
  rw [after_snoc] at h
  rcases inBlock_step h with hin | ⟨hslash, rfl⟩
  · exact hin
  · obtain ⟨u, c, rfl, hstep⟩ := exists_snoc_of_after hs rfl hslash
    obtain rfl := step_eq_slash hstep
    exact absurd (infix_snoc u '/' '*') hopen

theorem inBlock_of_after (hs : s.startsLine) (hopen : ¬ "/*" <:+: t)
    (h : (s.after t).inBlock) : s.inBlock = true := by
  induction t using List.reverseRecOn with
  | nil => exact h
  | append_singleton t c ih => exact ih (not_infix_of_snoc hopen) (inBlock_after_snoc hs hopen h)

theorem inBlock_after_of_not_closed (hs : s.startsLine) (hin : s.inBlock)
    (hclose : ¬ "*/" <:+: t) : (s.after t).inBlock := by
  induction t using List.reverseRecOn with
  | nil => exact hin
  | append_singleton t c ih =>
    have hbefore := ih (not_infix_of_snoc hclose)
    by_contra hout
    rw [after_snoc, Bool.not_eq_true] at hout
    obtain ⟨hstar, rfl⟩ := eq_star_of_leaves hbefore hout
    obtain ⟨u, c, rfl, hstep⟩ := exists_snoc_of_after hs rfl hstar
    obtain rfl := step_eq_star hstep
    exact hclose (infix_snoc u '*' '/')

theorem after_snoc_star (h : (s.after t).inBlock) : s.after (t ++ ['*']) = .star := by
  rw [after_snoc]
  revert h
  cases s.after t <;> simp [inBlock, step]

theorem not_closed_of_inBlock_after (hs : s.startsLine) (hopen : ¬ "/*" <:+: t)
    (h : (s.after t).inBlock) : ¬ "*/" <:+: t := by
  induction t using List.reverseRecOn with
  | nil => simp
  | append_singleton t c ih =>
    have hbefore := inBlock_after_snoc hs hopen h
    intro hclose
    -- the mark is the end of the text, so the state before its second half waits for it
    rcases List.infix_concat_iff.mp hclose with hend | hclosed
    · obtain ⟨u, hu⟩ := hend
      have hsplit : (u ++ ['*']) ++ ['/'] = t ++ [c] := by rw [← hu]; simp
      obtain ⟨rfl, hc⟩ := List.append_inj' hsplit rfl
      obtain rfl : '/' = c := (List.cons.inj hc).1
      have hstar := after_snoc_star (inBlock_after_snoc hs (not_infix_of_snoc hopen) hbefore)
      rw [after_snoc, hstar] at h
      cases h
    · exact ih (not_infix_of_snoc hopen) hbefore hclosed

theorem inBlock_after_iff (hs : s.startsLine) (hopen : ¬ "/*" <:+: t) :
    (s.after t).inBlock ↔ s.inBlock ∧ ¬ "*/" <:+: t := by
  constructor
  · intro h
    exact ⟨inBlock_of_after hs hopen h, not_closed_of_inBlock_after hs hopen h⟩
  · intro h
    exact inBlock_after_of_not_closed hs h.1 h.2

end

/-! ## candid lines -/

/-- the line holds no `/*`, or the `/*` says what it seems to: alone it leaves a block comment open,
and together with `*/` it leaves things as they were -/
def Candid (s : LexState) (line : Text) : Prop :=
  "/*".toList <:+: line → ((s.after line).inBlock = true ↔ (¬ "*/".toList <:+: line)
    ∨ s.inBlock = true)

instance (s : LexState) (line : Text) : Decidable (s.Candid line) :=
  inferInstanceAs (Decidable ("/*".toList <:+: line → _))

/-- the lines are candid, one after the other -/
def CandidLines : LexState → List Text → Prop
  | _, [] => True
  | s, l :: ls => s.Candid l ∧ (s.nextLine l).CandidLines ls

instance decidableCandidLines : (s : LexState) → (ls : List Text) → Decidable (s.CandidLines ls)
  | _, [] => isTrue trivial
  | s, l :: ls =>
    have := decidableCandidLines (s.nextLine l) ls
    inferInstanceAs (Decidable (s.Candid l ∧ (s.nextLine l).CandidLines ls))

def afterLines (s : LexState) (ls : List Text) : LexState := ls.foldl nextLine s

theorem afterLines_append (s : LexState) (ls ms : List Text) :
    s.afterLines (ls ++ ms) = (s.afterLines ls).afterLines ms := List.foldl_append

def HasOneMark (line : Text) : Prop := "/*" <:+: line ↔ ¬ "*/" <:+: line

instance (line : Text) : Decidable (HasOneMark line) :=
  inferInstanceAs (Decidable ("/*" <:+: line ↔ ¬ "*/" <:+: line))

/-- the lines are candid from the first on, or from some line on that has one mark -/
def InStep (s : LexState) (ls : List Text) : Prop :=
  s.CandidLines ls ∨ ∃ earlier l later, ls = earlier ++ l :: later ∧ HasOneMark l
    ∧ (s.afterLines earlier).CandidLines (l :: later)

theorem startsLine_afterLines (hs : s.startsLine) (ls : List Text) :
    (s.afterLines ls).startsLine = true := by
  induction ls generalizing s with
  | nil => exact hs
  | cons l ls ih => exact ih (startsLine_nextLine s l)

theorem after_unlines (s : LexState) (ls : List Text) (l : Text) :
    s.after (unlines (ls ++ [l])) = (s.afterLines ls).after l := by
  induction ls generalizing s with
  | nil => simp [unlines, afterLines]
  | cons l' ls ih =>
    have hline : s.after (l' ++ '\n' :: unlines (ls ++ [l]))
        = (s.nextLine l').after (unlines (ls ++ [l])) := after_append s l' _
    rw [List.cons_append, unlines_cons (by simp), hline, ih]
    rfl

end LexState

open LexState

theorem commentStep_snd_of_open (h : "/*" <:+: line) (b : Bool) :
    (commentStep b line).2 ↔ (¬ "*/" <:+: line) ∨ b := by
  unfold commentStep
  rw [(occursIn_iff _ _).mpr h]
  by_cases hclose : "*/" <:+: line
  · rw [(occursIn_iff _ _).mpr hclose]
    show b = true ↔ _
    exact ⟨.inr, fun hb => hb.resolve_left (not_not_intro hclose)⟩
  · rw [(occursIn_eq_false_iff _ _).mpr hclose]
    exact iff_of_true rfl (.inl hclose)

theorem commentStep_snd_of_not_open (h : ¬ "/*" <:+: line) (b : Bool) :
    (commentStep b line).2 ↔ b ∧ ¬ "*/" <:+: line := by
  unfold commentStep
  rw [(occursIn_eq_false_iff _ _).mpr h]
  by_cases hclose : "*/" <:+: line
  · rw [(occursIn_iff _ _).mpr hclose]
    exact iff_of_false (fun hfalse => nomatch hfalse) (fun hb => hb.2 hclose)
  · rw [(occursIn_eq_false_iff _ _).mpr hclose]
    cases b with
    | true => exact iff_of_true rfl ⟨rfl, hclose⟩
    | false =>
      refine iff_of_false ?_ (fun hb => nomatch hb.1)
      simp only [Bool.and_false, Bool.false_eq_true, if_false]
      split_ifs <;> simp

/-- the flag of the filter after a line is right iff the line is candid -/
theorem commentStep_snd_eq_iff (hs : s.startsLine) (line : Text) :
    (commentStep s.inBlock line).2 = (s.after line).inBlock ↔ s.Candid line := by
  rw [Bool.eq_iff_iff, Candid]
  by_cases hopen : "/*" <:+: line
  · rw [commentStep_snd_of_open hopen]
    constructor
    · intro h _
      exact h.symm
    · intro h
      exact (h hopen).symm
  · rw [commentStep_snd_of_not_open hopen, inBlock_after_iff hs hopen]
    exact iff_of_true Iff.rfl (fun h => absurd h hopen)

/-- after candid lines the filter knows whether a block comment is open -/
theorem blockAfter_eq (hs : s.startsLine) {ls : List Text} (h : s.CandidLines ls) :
    blockAfter s.inBlock ls = (s.afterLines ls).inBlock := by
  induction ls generalizing s with
  | nil => rfl
  | cons l ls ih =>
    have hline : (commentStep s.inBlock l).2 = (s.nextLine l).inBlock := by
      rw [inBlock_nextLine]
      exact (commentStep_snd_eq_iff hs l).mpr h.1
    rw [blockAfter_cons, hline]
    exact ih (startsLine_nextLine s l) h.2

theorem commentStep_snd_of_one (h : HasOneMark line) (b b' : Bool) :
    (commentStep b line).2 = (commentStep b' line).2 := by
  rw [Bool.eq_iff_iff]
  by_cases hopen : "/*" <:+: line
  · rw [commentStep_snd_of_open hopen, commentStep_snd_of_open hopen]
    exact iff_of_true (.inl (h.mp hopen)) (.inl (h.mp hopen))
  · rw [commentStep_snd_of_not_open hopen, commentStep_snd_of_not_open hopen]
    have hclose : ¬ ¬ "*/" <:+: line := fun hn => hopen (h.mpr hn)
    exact iff_of_false (fun hb => hclose hb.2) (fun hb => hclose hb.2)

/-- after lines that are in step the filter knows whether a block comment is open -/
theorem blockAfter_eq_of_inStep {ls : List Text} (h : LexState.code.InStep ls) :
    blockAfter false ls = (LexState.code.afterLines ls).inBlock := by
  rcases h with h | ⟨earlier, l, later, rfl, hone, hcandid⟩
  · exact blockAfter_eq rfl h
  · have hright := blockAfter_eq (startsLine_afterLines rfl earlier) hcandid
    rw [afterLines_append, ← hright, blockAfter_append, blockAfter_cons, blockAfter_cons,
      commentStep_snd_of_one hone]

end Rebind
