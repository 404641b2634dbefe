import Mathlib
import Rebind.Proofs.Text.Lines

/-!
# Comments, line by line

`withoutComments` goes over the lines of a text and carries along whether a block comment is open.
`blockAfter` is what it carries, so the kept lines of a text are those of its parts
(`keptLines_append`).

* `upTo_append`, `cut_append`: what stands before a mark that cannot start in front of it;
* `CommentLine`: a line of white space, `//` and a comment, without the marks of a block;
* `withoutComments_insert`: such a line leaves nothing, and all other lines as they are.
-/

namespace Rebind

open List

/-! ## what stands before a mark -/

section
variable {needle a r : Text}

theorem cutFrom_append (h : ∀ u v, a = u ++ v → v ≠ [] → ¬ needle <+: v ++ r) (seen : Text) :
    cutFrom needle seen (a ++ r) = cutFrom needle (a.reverse ++ seen) r := by
  induction a generalizing seen with
  | nil => rfl
  | cons c a ih =>
    have hfirst : ¬ needle.isPrefixOf (c :: (a ++ r)) = true := by
      rw [List.isPrefixOf_iff_prefix]
      exact h [] (c :: a) rfl (by simp)
    rw [cons_append, cutFrom, if_neg hfirst, ih]
    · rw [reverse_cons, append_assoc]
      rfl
    · intro u v ha
      exact h (c :: u) v (by rw [ha]; rfl)

theorem cutFrom_seen (seen t : Text) :
    cutFrom needle seen t = (cut needle t).map (fun p => (seen.reverse ++ p.1, p.2)) := by
  have hall : ∀ (t x y : Text), cutFrom needle (x ++ y) t
      = (cutFrom needle x t).map (fun p => (y.reverse ++ p.1, p.2)) := by
    intro t
    induction t with
    | nil =>
      intro x y
      unfold cutFrom
      split <;> simp
    | cons c t ih =>
      intro x y
      unfold cutFrom
      split
      · simp
      · exact ih (c :: x) y
  exact hall t [] seen

/-- what is before a mark that does not start in `a` goes on with `a` -/
theorem cut_append (h : ∀ u v, a = u ++ v → v ≠ [] → ¬ needle <+: v ++ r) :
    cut needle (a ++ r) = (cut needle r).map (fun p => (a ++ p.1, p.2)) := by
  rw [cut, cutFrom_append h, cutFrom_seen, append_nil, reverse_reverse]

theorem upTo_append (h : ∀ u v, a = u ++ v → v ≠ [] → ¬ needle <+: v ++ r) :
    upTo needle (a ++ r) = a ++ upTo needle r := by
  rw [upTo, upTo, cut_append h]
  cases cut needle r <;> rfl

theorem cut_self (hne : needle ≠ []) (r : Text) : cut needle (needle ++ r) = some ([], r) := by
  obtain ⟨c, n, rfl⟩ := exists_cons_of_ne_nil hne
  have hp : (c :: n).isPrefixOf (c :: (n ++ r)) := by
    rw [List.isPrefixOf_iff_prefix]
    exact prefix_append (c :: n) r
  rw [cut, cons_append, cutFrom, if_pos hp, ← cons_append, drop_left]
  rfl

theorem upTo_self (hne : needle ≠ []) (r : Text) : upTo needle (needle ++ r) = [] := by
  rw [upTo, cut_self hne]

theorem not_prefix_within {c : Char} (ha : ¬ needle <:+: a) (hc : c ∉ needle) :
    ∀ u v, a = u ++ v → v ≠ [] → ¬ needle <+: v ++ c :: r := by
  intro u v hv _ hp
  obtain ⟨y, hy⟩ := hp
  rcases append_eq_append_iff.mp hy with ⟨z, hz, -⟩ | ⟨z, hz, hy'⟩
  · apply ha
    exact ⟨u, z, by rw [hv, hz, append_assoc]⟩
  · cases z with
    | nil =>
      apply ha
      exact ⟨u, [], by rw [hv, hz]; simp⟩
    | cons d z =>
      have hd : c = d := (List.cons.inj hy').1
      exact hc (by rw [hz, hd]; simp)

theorem not_prefix_past {m : Text} (hne : needle ≠ []) (ha : ¬ needle <:+: a)
    (hm : ∀ c ∈ needle, c ∉ m)
    (hmid : m ≠ []) : ∀ u v, a ++ m = u ++ v → v ≠ [] → ¬ needle <+: v ++ r := by
  intro u v huv hv hp
  rcases append_eq_append_iff.mp huv with ⟨x, -, hx⟩ | ⟨x, hx, rfl⟩
  · obtain ⟨c, v, rfl⟩ := exists_cons_of_ne_nil hv
    obtain ⟨d, n, rfl⟩ := exists_cons_of_ne_nil hne
    have hd : d = c := (cons_prefix_cons.mp hp).1
    exact hm d mem_cons_self (by rw [hx, hd]; simp)
  · obtain ⟨c, m, rfl⟩ := exists_cons_of_ne_nil hmid
    have hc : c ∉ needle := fun hmem => hm c hmem mem_cons_self
    rw [append_assoc] at hp
    cases x with
    | nil =>
      obtain ⟨d, n, rfl⟩ := exists_cons_of_ne_nil hne
      exact hc (by rw [(cons_prefix_cons.mp hp).1]; simp)
    | cons e x => exact not_prefix_within ha hc u (e :: x) hx (by simp) hp

theorem not_prefix_before {x y : Char} (hmark : needle = [x, y]) (hxy : x ≠ y)
    (ha : ¬ needle <:+: a) :
    ∀ u v, a = u ++ v → v ≠ [] → ¬ needle <+: v ++ (needle ++ r) := by
  subst hmark
  intro u v huv hv hp
  obtain ⟨c, v, rfl⟩ := exists_cons_of_ne_nil hv
  obtain ⟨hc, hp⟩ := cons_prefix_cons.mp hp
  cases v with
  | nil => exact hxy (cons_prefix_cons.mp hp).1.symm
  | cons d v =>
    apply ha
    rw [huv, hc, (cons_prefix_cons.mp hp).1]
    exact ⟨u, v, by simp⟩

end

/-! ## the kept lines of a text -/

theorem keptPart_eq {t : Text} {c : Char} (hc : c ∈ t) (hb : isBlank c = false) :
    keptPart t = [t] := by
  unfold keptPart
  rw [if_neg]
  intro h
  rw [all_eq_true.mp h c hc] at hb
  cases hb

def blockAfter (inBlock : Bool) (ls : List Text) :
    Bool := ls.foldl (fun b l => (commentStep b l).2) inBlock

theorem blockAfter_cons (b : Bool) (l : Text) (ls : List Text) :
    blockAfter b (l :: ls) = blockAfter (commentStep b l).2 ls := rfl

theorem blockAfter_append (b : Bool) (ls ms : List Text) :
    blockAfter b (ls ++ ms) = blockAfter (blockAfter b ls) ms := foldl_append

theorem keptPart_reverse (t : Text) : (keptPart t).reverse = keptPart t := by
  unfold keptPart
  split <;> rfl

theorem commentStep_reverse (b : Bool) (l : Text) :
    (commentStep b l).1.reverse = (commentStep b l).1 := by
  unfold commentStep
  dsimp only
  split_ifs <;> first | rfl | exact keptPart_reverse _

theorem keptLines_cons (b : Bool) (l : Text) (ls : List Text) :
    keptLines b (l :: ls) = (commentStep b l).1 ++ keptLines (commentStep b l).2 ls := by
  -- the fold puts what it keeps in front of what it has
  have hfold : ∀ (ls acc : List Text) (b : Bool),
      (ls.foldl (fun (s : List Text × Bool) line =>
        ((commentStep s.2 line).1 ++ s.1, (commentStep s.2 line).2)) (acc, b)).1.reverse
      = acc.reverse ++ keptLines b ls := by
    intro ls
    induction ls with
    | nil =>
      intro acc b
      exact (append_nil _).symm
    | cons l ls ih =>
      intro acc b
      have hfirst : keptLines b (l :: ls) = ((commentStep b l).1 ++ []).reverse
          ++ keptLines (commentStep b l).2 ls := ih _ _
      rw [foldl_cons, ih, hfirst]
      simp
  have hfirst : keptLines b (l :: ls) = ((commentStep b l).1 ++ []).reverse
      ++ keptLines (commentStep b l).2 ls := hfold ls _ _
  rwa [append_nil, commentStep_reverse] at hfirst

theorem keptLines_append (b : Bool) (ls ms : List Text) :
    keptLines b (ls ++ ms) = keptLines b ls ++ keptLines (blockAfter b ls) ms := by
  induction ls generalizing b with
  | nil => rfl
  | cons l ls ih =>
    rw [cons_append, keptLines_cons, keptLines_cons, ih, append_assoc, blockAfter_cons]

theorem infix_withoutComments {code k s : Text} {before after : List Text} {line : Text}
    (hlines : lines code = before ++ line :: after)
    (hk : k ∈ (commentStep (blockAfter false before) line).1)
    (hs : s <:+: k) : s <:+: withoutComments code := by
  apply hs.trans
  apply infix_unlines_of_mem
  rw [hlines, keptLines_append, keptLines_cons]
  exact mem_append_right _ (mem_append_left _ hk)

/-! ## lines that are a comment -/

/-- a line of white space and a comment, without the marks of a block comment -/
structure CommentLine where
  indent : Text
  comment : Text
  indent_blank : ∀ c ∈ indent, isBlank c = true
  one_line : '\n' ∉ indent ++ ("//".toList ++ comment)
  opens_none : ¬ "/*".toList <:+: indent ++ ("//".toList ++ comment)
  closes_none : ¬ "*/".toList <:+: indent ++ ("//".toList ++ comment)

namespace CommentLine

variable (L : CommentLine)

def text : Text := L.indent ++ ("//" ++ L.comment)

theorem upTo_text : upTo "//".toList L.text = L.indent := by
  have hno : ∀ u v, L.indent = u ++ v → v ≠ []
      → ¬ "//".toList <+: v ++ ("//".toList ++ L.comment) := by
    intro u v hv hne hp
    obtain ⟨c, v, rfl⟩ := exists_cons_of_ne_nil hne
    have hc : isBlank c := L.indent_blank c (by rw [hv]; simp)
    have hslash : '/' = c := (cons_prefix_cons.mp hp).1
    rw [← hslash] at hc
    exact absurd hc (by decide)
  rw [text, upTo_append hno, upTo_self (by decide), append_nil]

theorem step (b : Bool) : commentStep b L.text = ([], b) := by
  have hopen : occursIn "/*" L.text = false := (occursIn_eq_false_iff _ _).mpr L.opens_none
  have hclose : occursIn "*/" L.text = false := (occursIn_eq_false_iff _ _).mpr L.closes_none
  have hslash : occursIn "//" L.text := by
    rw [occursIn_iff]
    exact ⟨L.indent, L.comment, by rw [text, append_assoc]⟩
  have hblank : keptPart L.indent = [] := by
    rw [keptPart, if_pos]
    exact all_eq_true.mpr L.indent_blank
  unfold commentStep
  rw [hopen, hclose]
  cases b with
  | true => rfl
  | false =>
    rw [hslash, L.upTo_text, hblank]
    rfl

end CommentLine

/-- a comment line can be put between any two lines: nothing else is kept or dropped for it -/
theorem withoutComments_insert (L : CommentLine) (t : Text) (i : Nat) :
    withoutComments (unlines ((lines t).take i ++ L.text :: (lines t).drop i))
      = withoutComments t := by
  have hlines : lines (unlines ((lines t).take i ++ L.text :: (lines t).drop i))
      = (lines t).take i ++ L.text :: (lines t).drop i := by
    apply lines_unlines
    · simp
    · intro l hl
      rcases mem_append.mp hl with hl | hl
      · exact not_mem_of_mem_lines (mem_of_mem_take hl)
      · rcases mem_cons.mp hl with rfl | hl
        · exact L.one_line
        · exact not_mem_of_mem_lines (mem_of_mem_drop hl)
  rw [withoutComments, withoutComments, hlines, keptLines_append, keptLines_cons, L.step,
    nil_append, ← keptLines_append, take_append_drop]

end Rebind
