import Mathlib
import Rebind.Proofs.Findings.Commented
import Rebind.Proofs.Findings.WellFormed
import Rebind.Proofs.Source.Headers
import Rebind.Proofs.Source.Lexing

/-!
# Declarations that are found

A `Declaration` is a bound field on one line.  If it is left in the text without comments, it is
found with its resource, its type and its name (`Declaration.mem_bound_of_infix`): a match that lies
over its `@` starts there, and what is read from there on is determined by the parentheses and the
semicolon.

A declaration that is live, in the sense of `LexState`, is left if the lines before it are candid
and it is `Shown` on its own line (`live_declaration_bound`).  Neither goes without saying: the
filter takes `/*` in a comment or in a string for the start of a block, and then drops what is live
(`live_declaration_lost`).
-/

namespace Rebind

open List Pattern

variable {x : Char} {mark : Text}

/-! ## how a field is read -/

def IsMark (x : Char) : Prop := isWord x = false ∧ isBlank x = false ∧ x ≠ '.'

instance (x : Char) : Decidable (IsMark x) :=
  inferInstanceAs (Decidable (isWord x = false ∧ isBlank x = false ∧ x ≠ '.'))

theorem IsMark.not_mem_of_all (hx : IsMark x) {t : Text} (h : ∀ c ∈ t, isWord c ∨ c = '.') :
    x ∉ t := by
  intro hm
  rcases h x hm with hw | hd
  · rw [hx.1] at hw
    cases hw
  · exact hx.2.2 hd

theorem IsMark.avoids_blanks (hx : IsMark x) : blanks.Avoids x := avoids_run hx.2.1

theorem IsMark.avoids_blanks1 (hx : IsMark x) : blanks1.Avoids x := avoids_run1 hx.2.1

theorem IsMark.avoids_word (hx : IsMark x) : word.Avoids x := avoids_run1 hx.1

theorem IsMark.avoids_lit (hx : IsMark x) {s : String}
    (hs : s.toList.all (fun c => isWord c || c == '.')) : (lit s).Avoids x := by
  apply avoids_text
  apply hx.not_mem_of_all
  intro c hc
  simpa using all_eq_true.mp hs c hc

theorem IsMark.avoids_resourceId (hx : IsMark x) : resourceId.Avoids x := by
  apply avoids_andThen (hx.avoids_lit (by decide +kernel))
  apply avoids_andThen (avoids_maybe (hx.avoids_lit (by decide +kernel)))
  exact avoids_andThen (hx.avoids_lit (by decide +kernel)) hx.avoids_word

theorem IsMark.avoids_keyword (hx : IsMark x) {s : String}
    (hs : s.toList.all (fun c => isWord c || c == '.')) : (keyword s).Avoids x :=
  avoids_andThen (hx.avoids_lit hs) hx.avoids_blanks1

theorem IsMark.avoids_accessModifier (hx : IsMark x) : accessModifier.Avoids x := by
  intro s hs
  rcases hs with hs | hs | hs
  · exact hx.avoids_keyword (by decide +kernel) s hs
  · exact hx.avoids_keyword (by decide +kernel) s hs
  · exact hx.avoids_keyword (by decide +kernel) s hs

def beforeLastWord (t : Text) : Text := ((t.reverse.dropWhile isBlank).dropWhile isWord).reverse

theorem beforeLastWord_eq {u gap name space : Text} (hgap : blanks1.Covers gap)
    (hname : word.Covers name)
    (hspace : blanks.Covers space) : beforeLastWord (u ++ gap ++ name ++ space) = u ++ gap := by
  obtain ⟨hne, hword⟩ := covers_word.mp hname
  obtain ⟨hgne, hblank⟩ := covers_run1.mp hgap
  obtain ⟨c, n, hn⟩ := exists_cons_of_ne_nil (reverse_ne_nil_iff.mpr hne)
  obtain ⟨d, g, hg⟩ := exists_cons_of_ne_nil (reverse_ne_nil_iff.mpr hgne)
  have hc : isBlank c = false := isBlank_of_isWord (hword c (mem_reverse.mp (by simp [hn])))
  have hd : ¬ isWord d := by
    intro hw
    have hb : isBlank d := hblank d (mem_reverse.mp (by simp [hg]))
    rw [isBlank_of_isWord hw] at hb
    cases hb
  have hskip : (name.reverse ++ (gap.reverse ++ u.reverse)).dropWhile isBlank
      = name.reverse ++ (gap.reverse ++ u.reverse) := by
    rw [hn, cons_append, dropWhile_cons_of_neg (by simp [hc])]
  have hstop : (gap.reverse ++ u.reverse).dropWhile isWord = gap.reverse ++ u.reverse := by
    rw [hg, cons_append, dropWhile_cons_of_neg hd]
  rw [beforeLastWord, reverse_append, reverse_append, reverse_append,
    dropWhile_append_of_pos (fun c hc => hspace c (mem_reverse.mp hc)), hskip,
    dropWhile_append_of_pos (fun c hc => hword c (mem_reverse.mp hc)), hstop,
    reverse_append, reverse_reverse, reverse_reverse]

/-! ## declarations -/

/-- nothing, or an access modifier with white space behind it -/
def IsAccess (t : Text) : Prop :=
  t = [] ∨ ∃ modifier ∈ ["public".toList, "private".toList, "protected".toList],
    ∃ gap, t = modifier ++ gap ∧ gap ≠ [] ∧ ∀ c ∈ gap, isBlank c = true

/-- a bound field, part by part: the annotation with its resource, and the field with its type and
name -/
structure Declaration where
  space : Text
  pad : Text
  id : Text
  room : Text
  gap : Text
  access : Text
  type : Text
  stretch : Text
  name : Text
  tail : Text
  space_blank : ∀ c ∈ space, isBlank c
  pad_blank : ∀ c ∈ pad, isBlank c
  id_resource : IsResource id
  room_blank : ∀ c ∈ room, isBlank c
  gap_blank : gap ≠ [] ∧ ∀ c ∈ gap, isBlank c
  access_modifier : IsAccess access
  type_name : IsName type
  stretch_blank : stretch ≠ [] ∧ ∀ c ∈ stretch, isBlank c
  name_name : IsName name
  tail_blank : ∀ c ∈ tail, isBlank c

theorem covers_access_iff {t : Text} : (Pattern.maybe accessModifier).Covers t ↔ IsAccess t := by
  constructor
  · intro h
    rcases h with rfl | h
    · exact .inl rfl
    · right
      rcases h with ⟨_, gap, rfl, rfl, hgap⟩ | ⟨_, gap, rfl, rfl, hgap⟩ | ⟨_, gap, rfl, rfl, hgap⟩
      · exact ⟨"public", by simp, gap, rfl, covers_run1.mp hgap⟩
      · exact ⟨"private", by simp, gap, rfl, covers_run1.mp hgap⟩
      · exact ⟨"protected", by simp, gap, rfl, covers_run1.mp hgap⟩
  · intro h
    rcases h with rfl | ⟨modifier, hmem, gap, rfl, hgap⟩
    · exact .inl rfl
    · right
      simp only [mem_cons, not_mem_nil, or_false] at hmem
      rcases hmem with rfl | rfl | rfl
      · exact .inl ⟨_, gap, rfl, rfl, covers_run1.mpr hgap⟩
      · exact .inr (.inl ⟨_, gap, rfl, rfl, covers_run1.mpr hgap⟩)
      · exact .inr (.inr ⟨_, gap, rfl, rfl, covers_run1.mpr hgap⟩)

namespace Declaration

variable (d : Declaration)

def inner : Text := d.pad ++ d.id ++ d.room

def body : Text := d.gap ++ d.access ++ d.type ++ d.stretch ++ d.name ++ d.tail

def rest : Text := d.space ++ '(' :: (d.inner ++ ')' :: (d.body ++ [';']))

def text : Text := "@BindView" ++ d.rest

theorem covers : annotatedField.Covers d.text := by
  refine ⟨_, d.rest, rfl, rfl, d.space, _, rfl, d.space_blank, ['('], _, rfl, rfl, d.pad, _, ?_,
    d.pad_blank,
    d.id, _, rfl, covers_resourceId_iff.mpr d.id_resource, d.room, _, rfl, d.room_blank, [')'],
    _, rfl, rfl,
    d.gap, _, rfl, covers_run1.mpr d.gap_blank, d.access, _, rfl,
    covers_access_iff.mpr d.access_modifier,
    d.type, _, rfl, covers_word_iff.mpr d.type_name, d.stretch, _, rfl,
    covers_run1.mpr d.stretch_blank,
    d.name, _, rfl, covers_word_iff.mpr d.name_name, d.tail, [';'], rfl, d.tail_blank, rfl⟩
  simp [inner, body]

/-- the groups of a match are the parts of a declaration -/
theorem exists_of_reads {s : Text} {gs : List (Nat × Text)} (h : annotatedField.Reads s gs) :
    ∃ d : Declaration, s = d.text ∧ gs = [(3, d.name), (2, d.type), (1, d.id)] := by
  obtain ⟨_, s₁, _, g₁, rfl, rfl, ⟨rfl, rfl⟩, h⟩ := h
  obtain ⟨space, s₂, _, g₂, rfl, rfl, ⟨hspace, rfl⟩, h⟩ := h
  obtain ⟨_, s₃, _, g₃, rfl, rfl, ⟨rfl, rfl⟩, h⟩ := h
  obtain ⟨pad, s₄, _, g₄, rfl, rfl, ⟨hpad, rfl⟩, h⟩ := h
  obtain ⟨id, s₅, _, g₅, rfl, rfl, ⟨_, rfl, hid⟩, h⟩ := h
  obtain ⟨room, s₆, _, g₆, rfl, rfl, ⟨hroom, rfl⟩, h⟩ := h
  obtain ⟨_, s₇, _, g₇, rfl, rfl, ⟨rfl, rfl⟩, h⟩ := h
  obtain ⟨gap, s₈, _, g₈, rfl, rfl, hgap, h⟩ := h
  obtain ⟨access, s₉, _, g₉, rfl, rfl, haccess, h⟩ := h
  obtain ⟨type, s₁₀, _, g₁₀, rfl, rfl, ⟨_, rfl, htype⟩, h⟩ := h
  obtain ⟨stretch, s₁₁, _, g₁₁, rfl, rfl, hstretch, h⟩ := h
  obtain ⟨name, s₁₂, _, g₁₂, rfl, rfl, ⟨_, rfl, hname⟩, h⟩ := h
  obtain ⟨tail, _, _, _, rfl, rfl, ⟨htail, rfl⟩, rfl, rfl⟩ := h
  obtain rfl := hid.groups_eq_nil rfl
  obtain rfl := hgap.groups_eq_nil rfl
  obtain rfl := haccess.groups_eq_nil rfl
  obtain rfl := htype.groups_eq_nil rfl
  obtain rfl := hstretch.groups_eq_nil rfl
  obtain rfl := hname.groups_eq_nil rfl
  refine ⟨⟨space, pad, id, room, gap, access, type, stretch, name, tail, hspace, hpad,
    covers_resourceId_iff.mp hid.covers, hroom, covers_run1.mp hgap.covers,
    covers_access_iff.mp haccess.covers, covers_word_iff.mp htype.covers,
    covers_run1.mp hstretch.covers, covers_word_iff.mp hname.covers, htail⟩, ?_, ?_⟩
  · show "@BindView".toList ++ _ = "@BindView".toList ++ _
    congr 1
    simp [rest, inner, body]
  · simp

/-! ## what follows from the text -/

theorem not_mem_parts (hx : IsMark x) : x ∉ d.space ∧ x ∉ d.inner ∧ x ∉ d.body := by
  have hid := hx.avoids_resourceId d.id (covers_resourceId_iff.mpr d.id_resource)
  have haccess := avoids_maybe hx.avoids_accessModifier d.access
    (covers_access_iff.mpr d.access_modifier)
  have htype := hx.avoids_word d.type (covers_word_iff.mpr d.type_name)
  have hname := hx.avoids_word d.name (covers_word_iff.mpr d.name_name)
  have hblank : ∀ t : Text, (∀ c ∈ t, isBlank c = true) → x ∉ t := fun t ht => hx.avoids_blanks t ht
  simp only [inner, body, mem_append, not_or]
  exact ⟨hblank _ d.space_blank, ⟨⟨hblank _ d.pad_blank, hid⟩, hblank _ d.room_blank⟩,
    ⟨⟨⟨⟨⟨hblank _ d.gap_blank.2, haccess⟩, htype⟩, hblank _ d.stretch_blank.2⟩, hname⟩,
      hblank _ d.tail_blank⟩⟩

theorem trim_inner : trim d.inner = d.id := by
  have hid := covers_resourceId_iff.mpr d.id_resource
  apply trim_around d.pad_blank d.room_blank _ (isBlank_of_mem_resourceId hid)
  obtain ⟨w, -, h | h⟩ := d.id_resource <;> simp [h]

theorem exists_blank_before_type : ∃ u g, d.gap ++ d.access = u ++ g ∧ blanks1.Covers g := by
  rcases d.access_modifier with h | ⟨modifier, -, gap, h, hgap⟩
  · exact ⟨[], d.gap, by rw [h]; simp, covers_run1.mpr d.gap_blank⟩
  · exact ⟨d.gap ++ modifier, gap, by rw [h]; simp, covers_run1.mpr hgap⟩

theorem lastWord_body : lastWord d.body = d.name :=
  lastWord_eq (covers_run1.mpr d.stretch_blank) (covers_word_iff.mpr d.name_name) d.tail_blank

theorem lastWord_beforeLastWord_body : lastWord (beforeLastWord d.body) = d.type := by
  obtain ⟨u, g, hfront, hg⟩ := d.exists_blank_before_type
  rw [body, beforeLastWord_eq (covers_run1.mpr d.stretch_blank) (covers_word_iff.mpr d.name_name)
    d.tail_blank, hfront]
  exact lastWord_eq hg (covers_word_iff.mpr d.type_name) d.stretch_blank.2

theorem unique {d e : Declaration} {r r' : Text} (h : d.text ++ r = e.text ++ r') :
    d.id = e.id ∧ d.type = e.type ∧ d.name = e.name := by
  have hopen : IsMark '(' := by decide +kernel
  have hclose : IsMark ')' := by decide +kernel
  have hend : IsMark ';' := by decide +kernel
  have hrest : d.rest ++ r = e.rest ++ r' := by
    apply append_cancel_left
    rw [← append_assoc, ← append_assoc]
    exact h
  simp only [rest, append_assoc, cons_append, nil_append] at hrest
  obtain ⟨-, h⟩ := append_first_inj (d.not_mem_parts hopen).1 (e.not_mem_parts hopen).1 hrest
  obtain ⟨hinner, h⟩ := append_first_inj (d.not_mem_parts hclose).2.1 (e.not_mem_parts hclose).2.1 h
  obtain ⟨hbody, -⟩ := append_first_inj (d.not_mem_parts hend).2.2 (e.not_mem_parts hend).2.2 h
  refine ⟨?_, ?_, ?_⟩
  · rw [← d.trim_inner, ← e.trim_inner, hinner]
  · rw [← d.lastWord_beforeLastWord_body, ← e.lastWord_beforeLastWord_body, hbody]
  · rw [← d.lastWord_body, ← e.lastWord_body, hbody]

theorem text_eq_at_cons : ∃ t, d.text = '@' :: t ∧ '@' ∉ t := by
  have hat : IsMark '@' := by decide +kernel
  obtain ⟨hspace, hinner, hbody⟩ := d.not_mem_parts hat
  have hmark : "@BindView" = '@' :: "BindView" := by decide
  refine ⟨"BindView" ++ d.rest, congrArg (· ++ d.rest) hmark, ?_⟩
  rw [mem_append, not_or]
  exact ⟨by decide, by simp [rest, hspace, hinner, hbody]⟩

/-- the declaration is found where it stands, since no match reaches over an `@` -/
theorem exists_match (a b : Text) : ∃ m ∈ annotatedField.findAll (a ++ d.text ++ b),
    m.groups = [(3, d.name), (2, d.type), (1, d.id)] := by
  have hempty : ¬ annotatedField.Covers [] := by
    intro h
    obtain ⟨_, _, he, rfl, -⟩ := h
    cases he
  obtain ⟨m, hm, hstart, hstop⟩ := exists_match_over rfl hempty d.covers a b
  have hof := of_mem_findAll hm
  obtain ⟨e, htext, hgroups⟩ := exists_of_reads hof.reads
  obtain ⟨u, v, ht, hu⟩ := hof.place
  -- the match starts `x` before the declaration
  have hle : u.length ≤ a.length := by omega
  rw [append_assoc, append_assoc u] at ht
  obtain ⟨x, rfl⟩ := prefix_of_prefix_length_le ⟨_, ht.symm⟩ ⟨_, rfl⟩ hle
  rw [append_assoc] at ht
  have he : x ++ (d.text ++ b) = e.text ++ v := by rw [append_cancel_left ht, htext]
  obtain ⟨r, hd, -⟩ := d.text_eq_at_cons
  obtain ⟨r', he', hat⟩ := e.text_eq_at_cons
  have hx : x = [] := by
    cases x with
    | nil => rfl
    | cons c x =>
      have htail : x ++ '@' :: (r ++ b) = r' ++ v := by
        rw [hd, he'] at he
        exact (List.cons.inj he).2
      have hlen : x.length < r'.length := by
        have := hof.stop
        simp only [htext, he', length_append, length_cons] at this hstop hu
        omega
      have hget : (r' ++ v)[x.length]? = some '@' := by rw [← htail]; simp
      rw [getElem?_append_left hlen] at hget
      exact absurd (mem_of_getElem? hget) hat
  subst hx
  obtain ⟨hid, htype, hname⟩ := unique he
  exact ⟨m, hm, by rw [hgroups, hid, htype, hname]⟩

theorem mem_bound_of_infix {code : Text} (h : d.text <:+: withoutComments code) :
    (.given d.id, .given d.type, .given d.name) ∈ (Findings.detect code).bound := by
  obtain ⟨a, b, hab⟩ := h
  obtain ⟨m, hm, hgroups⟩ := d.exists_match a b
  have hid : ∀ c ∈ d.id, isBlank c = false :=
    isBlank_of_mem_resourceId (covers_resourceId_iff.mpr d.id_resource)
  have htype : ∀ c ∈ d.type, isBlank c = false :=
    isBlank_of_mem_word (covers_word_iff.mpr d.type_name)
  have hname : ∀ c ∈ d.name, isBlank c = false :=
    isBlank_of_mem_word (covers_word_iff.mpr d.name_name)
  rw [bound_detect, mem_map]
  refine ⟨m, hab ▸ hm, ?_⟩
  simp [BindView.binding, BindView.ofMatch, Match.group, Match.group?, hgroups, trim_eq_self hid,
    trim_eq_self htype, trim_eq_self hname]

/-! ## on its line -/

theorem not_mem_text (hx : IsMark x) (hmark : x ∉ "@BindView".toList)
    (hsign : x ∉ ['(', ')', ';']) : x ∉ d.text := by
  obtain ⟨hspace, hinner, hbody⟩ := d.not_mem_parts hx
  intro hm
  rcases mem_append.mp hm with hm | hm
  · exact hmark hm
  · simp only [rest, mem_append, mem_cons, not_mem_nil, or_false, hspace, hinner, hbody,
      false_or] at hm
    simp [hm] at hsign

def IsCommentMark (mark : Text) : Prop := mark ≠ [] ∧ ∀ c ∈ mark, c = '/' ∨ c = '*'

theorem not_mem_of_isCommentMark (h : IsCommentMark mark) : ∀ c ∈ mark, c ∉ d.text := by
  intro c hc
  rcases h.2 c hc with rfl | rfl
  · exact d.not_mem_text (by decide +kernel) (by decide) (by decide)
  · exact d.not_mem_text (by decide +kernel) (by decide) (by decide)

theorem text_ne_nil : d.text ≠ [] := by
  obtain ⟨t, ht, -⟩ := d.text_eq_at_cons
  rw [ht]
  simp

theorem infix_line_iff {pre post : Text} (h : IsCommentMark mark) :
    mark <:+: pre ++ d.text ++ post ↔ mark <:+: pre ∨ mark <:+: post := by
  have hchars := d.not_mem_of_isCommentMark h
  obtain ⟨t, ht, -⟩ := d.text_eq_at_cons
  have hat : '@' ∉ mark := fun hm => hchars '@' hm (by rw [ht]; simp)
  obtain ⟨x, s, rfl⟩ := exists_cons_of_ne_nil h.1
  have hx : x ∉ t := by
    intro hm
    apply hchars x mem_cons_self
    rw [ht]
    exact mem_cons_of_mem _ hm
  rw [ht, append_assoc, cons_append, infix_around_iff hat, infix_skip hx]

end Declaration

/-- what stands on one line with a declaration and leaves it in sight.  A line without marks of a
block comment has no `//` before the declaration, and does not start with `*` unless a `//` comes
behind.  A line with `/*` has it behind the declaration and has no `*/`.  A line with `*/` has it
before the declaration, there only once, and has no `/*`. -/
inductive Shown (pre post : Text) : Prop where
  | plain (opens : ¬ "/*" <:+: pre ∧ ¬ "/*" <:+: post)
      (closes : ¬ "*/" <:+: pre ∧ ¬ "*/" <:+: post) (slashes : ¬ "//" <:+: pre)
      (starred : "//" <:+: post ∨ (trimLeft pre).head? ≠ some '*')
  | opening (opens : ¬ "/*" <:+: pre ∧ "/*" <:+: post)
      (closes : ¬ "*/" <:+: pre ∧ ¬ "*/" <:+: post)
  | closing (u v : Text) (split : pre = u ++ ("*/" ++ v)) (closes : ¬ "*/" <:+: u ∧ ¬ "*/" <:+: v)
      (opens : ¬ "/*" <:+: pre ∧ ¬ "/*" <:+: post)

namespace Declaration

variable (d : Declaration) {pre post : Text}

theorem keptPart_over (x y : Text) : keptPart (x ++ d.text ++ y) = [x ++ d.text ++ y] := by
  obtain ⟨t, ht, -⟩ := d.text_eq_at_cons
  apply keptPart_eq (c := '@')
  · rw [ht]
    simp
  · decide

theorem occursIn_line (h : IsCommentMark mark) (hmark : mark <:+: pre ∨ mark <:+: post) :
    occursIn mark (pre ++ d.text ++ post) := by
  rw [occursIn_iff, d.infix_line_iff h]
  exact hmark

theorem not_occursIn_line (h : IsCommentMark mark) (hmark : ¬ mark <:+: pre ∧ ¬ mark <:+: post) :
    occursIn mark (pre ++ d.text ++ post) = false := by
  rw [occursIn_eq_false_iff, d.infix_line_iff h, not_or]
  exact hmark

theorem upTo_line (h : IsCommentMark mark) (hpre : ¬ mark <:+: pre) :
    upTo mark (pre ++ d.text ++ post) = pre ++ d.text ++ upTo mark post :=
  upTo_append (not_prefix_past h.1 hpre (d.not_mem_of_isCommentMark h) d.text_ne_nil)

theorem open_isCommentMark : IsCommentMark "/*" := ⟨by decide, by simp⟩

theorem close_isCommentMark : IsCommentMark "*/" := ⟨by decide, by simp⟩

theorem slashes_isCommentMark : IsCommentMark "//" := ⟨by decide, by simp⟩

theorem star_of_trim_line (h : "*".toList.isPrefixOf (trim (pre ++ d.text ++ post))) :
    (trimLeft pre).head? = some '*' := by
  rw [List.isPrefixOf_iff_prefix] at h
  have hleft : ['*'] <+: trimLeft (pre ++ d.text ++ post) := h.trans (trimRight_isPrefix _)
  obtain ⟨t, ht, -⟩ := d.text_eq_at_cons
  rw [ht, trimLeft, append_assoc, dropWhile_append] at hleft
  rw [trimLeft]
  cases hpre : pre.dropWhile isBlank with
  | nil =>
    rw [hpre] at hleft
    exact absurd (cons_prefix_cons.mp hleft).1 (by decide)
  | cons c p =>
    rw [hpre] at hleft
    rw [(cons_prefix_cons.mp hleft).1]
    rfl

/-- a declaration in sight is kept, where no block comment is open or the line has a mark of one -/
theorem kept_of_shown (h : Shown pre post) {b : Bool} (hb : ¬ "*/" <:+: pre → b = false) :
    ∃ k ∈ (commentStep b (pre ++ d.text ++ post)).1, d.text <:+: k := by
  have hinfix : ∀ x y, d.text <:+: x ++ d.text ++ y := fun x y => ⟨x, y, rfl⟩
  unfold commentStep
  cases h with
  | plain opens closes slashes starred =>
    rw [hb closes.1, d.not_occursIn_line open_isCommentMark opens,
      d.not_occursIn_line close_isCommentMark closes]
    simp only [Bool.and_self, Bool.false_eq_true, if_false]
    split_ifs with hslash hstar
    · rw [d.upTo_line slashes_isCommentMark slashes, d.keptPart_over]
      exact ⟨_, mem_singleton_self _, hinfix _ _⟩
    · rcases starred with hpost | hstart
      · exact absurd (d.occursIn_line slashes_isCommentMark (.inr hpost)) hslash
      · exact absurd (d.star_of_trim_line hstar) hstart
    · exact ⟨_, mem_singleton_self _, hinfix _ _⟩
  | opening opens closes =>
    rw [d.occursIn_line open_isCommentMark (.inr opens.2),
      d.not_occursIn_line close_isCommentMark closes, d.upTo_line open_isCommentMark opens.1]
    refine ⟨pre ++ d.text ++ upTo "/*" post, ?_, hinfix _ _⟩
    show _ ∈ keptPart _
    rw [d.keptPart_over]
    exact mem_singleton_self _
  | closing u v split closes opens =>
    have hmark : "*/" <:+: pre := ⟨u, v, by rw [split, append_assoc]⟩
    have hcut : cut "*/" (pre ++ d.text ++ post) = some (u, v ++ d.text ++ post) := by
      have hline : pre ++ d.text ++ post = u ++ ("*/" ++ (v ++ d.text ++ post)) := by
        rw [split]
        simp only [append_assoc]
      rw [hline, cut_append (not_prefix_before (x := '*') (y := '/') (by decide)
        (by decide) closes.1), cut_self (by decide)]
      simp
    rw [d.not_occursIn_line open_isCommentMark opens, d.occursIn_line close_isCommentMark
      (.inl hmark), betweenMarks, hcut]
    refine ⟨v ++ d.text ++ upTo "*/" post, ?_, hinfix _ _⟩
    show _ ∈ keptPart (upTo _ _)
    rw [d.upTo_line close_isCommentMark closes.2, d.keptPart_over]
    exact mem_singleton_self _

end Declaration

/-- a declaration is found that is outside of comments and literals, behind lines that are in step,
and in sight on its own line -/
theorem live_declaration_bound (d : Declaration) (code : Text) (before after : List Text)
    (pre post : Text) (hlines : lines code = before ++ (pre ++ d.text ++ post) :: after)
    (hlive : (LexState.code.after (unlines (before ++ [pre]))).isLive = true)
    (hstep : LexState.code.InStep before) (hshown : Shown pre post) :
    (.given d.id, .given d.type, .given d.name) ∈ (Findings.detect code).bound := by
  have hstart : (LexState.code.afterLines before).startsLine :=
    LexState.startsLine_afterLines rfl before
  have hflag : blockAfter false before = (LexState.code.afterLines before).inBlock :=
    blockAfter_eq_of_inStep hstep
  -- a block comment that is open at the start of the line would be open at the declaration too
  have hopen : ¬ "*/" <:+: pre → blockAfter false before = false := by
    intro hclose
    rw [hflag, ← Bool.not_eq_true]
    intro hblock
    have hin := LexState.inBlock_after_of_not_closed hstart hblock hclose
    rw [← LexState.after_unlines] at hin
    revert hin hlive
    cases LexState.code.after (unlines (before ++ [pre])) <;> decide
  obtain ⟨k, hk, hinfix⟩ := d.kept_of_shown hshown hopen
  exact d.mem_bound_of_infix (infix_withoutComments hlines hk hinfix)

/-- a declaration with single spaces between its parts -/
def Declaration.simple (id type name : Text) (hid : IsResource id) (htype : IsName type)
    (hname : IsName name) :
    Declaration where
  space := []
  pad := []
  id := id
  room := []
  gap := [' ']
  access := []
  type := type
  stretch := [' ']
  name := name
  tail := []
  space_blank := by simp
  pad_blank := by simp
  id_resource := hid
  room_blank := by simp
  gap_blank := ⟨by simp, by simp [isBlank_space]⟩
  access_modifier := .inl rfl
  type_name := htype
  stretch_blank := ⟨by simp, by simp [isBlank_space]⟩
  name_name := hname
  tail_blank := by simp

def titleField : Declaration :=
  .simple "R.id.title" "TextView" "title"
    ⟨"title", by decide +kernel, .inl (by decide)⟩ (by decide +kernel) (by decide +kernel)

/-- the first of these lines is not candid, the third one opens a block comment -/
def linesBeforeTitle : List Text :=
  ["class A \x7b // drawn from res/*.png", "  String s = \"// \" + '\"';", "  /** shown",
   "   * on \"top */"]

theorem live_declaration_bound_title :
    (.given "R.id.title".toList, .given "TextView".toList, .given "title".toList)
      ∈ (Findings.detect (unlines (linesBeforeTitle
        ++ ["  @BindView(R.id.title) TextView title; // the title".toList,
          "\x7d".toList]))).bound :=
  live_declaration_bound titleField _ linesBeforeTitle ["\x7d"] "  " " // the title"
    (by decide +kernel) (by decide +kernel)
    (.inr ⟨linesBeforeTitle.take 2, "  /** shown", ["   * on \"top */"], by decide +kernel,
      by decide +kernel, by decide +kernel⟩)
    (.plain (by decide +kernel) (by decide +kernel) (by decide +kernel) (.inl (by decide +kernel)))

def iconField : Declaration :=
  .simple "R.id.a" "A" "a" ⟨"a", by decide +kernel, .inl (by decide)⟩
    (by decide +kernel) (by decide +kernel)

def linesBeforeIcon : List Text := ["class A \x7b", "// icons in res/*.png"]

/-- a live declaration is not found behind a comment that mentions `/*` -/
theorem live_declaration_lost :
    lines (unlines (linesBeforeIcon ++ [iconField.text, "\x7d".toList, []]))
      = linesBeforeIcon ++ ([] ++ iconField.text ++ []) :: ["\x7d".toList, []]
    ∧ (LexState.code.after (unlines (linesBeforeIcon ++ [[]]))).isLive = true
    ∧ (Findings.detect (unlines (linesBeforeIcon ++ [iconField.text, "\x7d".toList, []]))).bound
      = [] := by
  decide +kernel

end Rebind
