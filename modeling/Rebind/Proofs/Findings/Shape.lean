import Mathlib
import Rebind.Findings.Detect
import Rebind.Proofs.Pattern.Reading
import Rebind.Proofs.Text.Lines

/-!
# What findings of a source look like

Nothing is left out of what is read off a source text: its bound fields are `Field`s and its
handlers `Listener`s, records without empty slots that carry the shape of their names.

* `exists_fields`, `exists_clicks`, `exists_longClicks`: the findings of a text as such records;
* `Findings.Lists`, `detect_lists`: all of them together;
* `lineWith_eq_null_iff`: the line of a finding is unknown iff no line holds what was looked for.

The resources of a click handler are resource names; those of a long-click handler may be any text
that stands between the parentheses.
-/

namespace Rebind

open List Pattern

variable {m : Match} {code s : Text}

/-! ## words and resource names -/

theorem covers_word : word.Covers s ↔ s ≠ [] ∧ ∀ c ∈ s, isWord c = true := covers_run1

theorem at_not_mem_word {w : Text} (h : word.Covers w) : '@' ∉ w :=
  fun hm => absurd ((covers_word.mp h).2 '@' hm) (by decide)

theorem at_not_mem_blanks {b : Text} (h : ∀ c ∈ b, isBlank c) : '@' ∉ b :=
  fun hm => absurd (h '@' hm) (by decide)

theorem covers_resourceId : resourceId.Covers s ↔
    ∃ two w, s = 'R' :: two ++ ".id." ++ w ∧ (two = [] ∨ two = ['2']) ∧ word.Covers w := by
  constructor
  · rintro ⟨_, _, rfl, rfl, two, _, rfl, h2, _, w, rfl, rfl, hw⟩
    exact ⟨two, w, by simp, h2, hw⟩
  · rintro ⟨two, w, rfl, h2, hw⟩
    exact ⟨_, _, by simp, rfl, two, _, rfl, h2, _, w, rfl, rfl, hw⟩

theorem isBlank_of_mem_resourceId (h : resourceId.Covers s) : ∀ c ∈ s, isBlank c = false := by
  obtain ⟨two, w, rfl, h2, hw⟩ := covers_resourceId.mp h
  intro c hc
  simp only [cons_append, mem_cons, mem_append] at hc
  rcases hc with rfl | (hc | hc) | hc
  · decide
  · rcases h2 with rfl | rfl
    · simp at hc
    · rw [mem_singleton.mp hc]
      decide
  · have hid : ".id.".toList.all (fun c => !isBlank c) = true := by decide
    simpa using all_eq_true.mp hid c hc
  · exact isBlank_of_isWord ((covers_word.mp hw).2 c hc)

theorem isBlank_of_mem_word (h : word.Covers s) : ∀ c ∈ s, isBlank c = false :=
  fun c hc => isBlank_of_isWord ((covers_word.mp h).2 c hc)

theorem trim_eq_self (h : ∀ c ∈ s, isBlank c = false) : trim s = s := by
  have drop : ∀ t : Text, (∀ c ∈ t, isBlank c = false) → t.dropWhile isBlank = t := by
    intro t ht
    cases t with
    | nil => rfl
    | cons c t => simp [ht c mem_cons_self]
  rw [trim, trimLeft, drop s h, trimRight, drop _ (by simpa using h), reverse_reverse]

/-! ## fields and listeners -/

/-- a bound field -/
structure Field where
  id : Text
  type : Text
  name : Text
  line : Text
  id_covers : resourceId.Covers id
  type_covers : word.Covers type
  name_covers : word.Covers name

/-- a field as a finding -/
def Field.view (F : Field) : BindView where
  id := .given F.id
  type := .given F.type
  name := .given F.name
  line := .given F.line

/-- a bound method: the views it listens to, its name and the class of the view it takes, if any -/
structure Listener where
  ids : List Text
  method : Text
  view : Option Text
  line : Slot Text
  method_covers : word.Covers method
  view_covers : ∀ v, view = some v → word.Covers v

/-- everything that the listeners listen to is a resource -/
def ResourcesOnly (ls : List Listener) : Prop := ∀ L ∈ ls, ∀ id ∈ L.ids, resourceId.Covers id

/-- a listener as a finding -/
def Listener.handler (L : Listener) : Handler where
  ids := .given L.ids
  method := .given L.method
  takesView := .given L.view.isSome
  viewType := .given (L.view.getD [])
  line := L.line

/-- the line of a part is unknown iff no line holds the part -/
theorem lineWith_eq_null_iff (code part : Text) :
    lineWith code part = .null ↔ ∀ l ∈ lines code, ¬ part <:+: l := by
  unfold lineWith
  split
  · next l hl =>
    have hp := (occursIn_iff part l).mp (find?_some hl)
    simp only [reduceCtorEq, false_iff, not_forall]
    exact ⟨l, mem_of_find?_eq_some hl, not_not.mpr hp⟩
  · next hn =>
    simp only [true_iff]
    intro l hl hp
    exact find?_eq_none.mp hn l hl ((occursIn_iff part l).mpr hp)

theorem lineWith_eq_null_iff_mem {part : Text} (h : '\n' ∉ part → ∃ l ∈ lines code, part <:+: l) :
    lineWith code part = .null ↔ '\n' ∈ part := by
  rw [lineWith_eq_null_iff]
  constructor
  · intro hnone
    by_contra hmem
    obtain ⟨l, hl, hp⟩ := h hmem
    exact hnone l hl hp
  · intro hmem l hl hp
    exact not_mem_of_mem_lines hl (hp.mem hmem)

theorem lineWith_of_exists {part : Text} (h : ∃ l ∈ lines code, part <:+: l) :
    ∃ l, lineWith code part = .given l := by
  unfold lineWith
  split
  · exact ⟨_, rfl⟩
  · next hn =>
    obtain ⟨l, hl, hp⟩ := h
    exact absurd ((occursIn_iff part l).mpr hp) (find?_eq_none.mp hn l hl)

/-! ## the fields of a source -/

theorem newline_not_mem_of_nonblank (h : ∀ c ∈ s, isBlank c = false) : '\n' ∉ s :=
  fun hm => by simpa [isBlank_newline] using h '\n' hm

theorem annotatedField_group (hm : m ∈ annotatedField.findAll code) :
    resourceId.Covers (m.group 1) ∧ word.Covers (m.group 2) ∧ word.Covers (m.group 3)
      ∧ m.group 1 <:+: code := by
  have hof := of_mem_findAll hm
  obtain ⟨q1, hq1, hc1, hi1⟩ := hof.group (n := 1) (by decide)
  obtain ⟨q2, hq2, hc2, -⟩ := hof.group (n := 2) (by decide)
  obtain ⟨q3, hq3, hc3, -⟩ := hof.group (n := 3) (by decide)
  simp [annotatedField, resourceId, accessModifier, seq, oneOf, lit, keyword, word, run1, blanks,
    blanks1, HasGroup] at hq1 hq2 hq3
  subst hq1 hq2 hq3
  exact ⟨hc1, hc2, hc3, hi1.trans hof.isInfix⟩

theorem exists_view (hm : m ∈ annotatedField.findAll (withoutComments code)) :
    ∃ F : Field, F.view = BindView.ofMatch code m := by
  obtain ⟨hid, htype, hname, hin⟩ := annotatedField_group hm
  have hnl := newline_not_mem_of_nonblank (isBlank_of_mem_resourceId hid)
  obtain ⟨l, hl⟩ := lineWith_of_exists (line_withoutComments hnl hin)
  refine ⟨⟨m.group 1, m.group 2, m.group 3, l, hid, htype, hname⟩, ?_⟩
  simp [Field.view, BindView.ofMatch, hl, trim_eq_self (isBlank_of_mem_resourceId hid),
    trim_eq_self (isBlank_of_mem_word htype), trim_eq_self (isBlank_of_mem_word hname)]

/-- the bound fields of a source have a resource, a type, a name and a line -/
theorem exists_fields (code : Text) :
    ∃ fs : List Field, detectBindViews code = fs.map Field.view := by
  have h : detectBindViews code ∈ Set.range (map Field.view) := by
    rw [Set.range_list_map]
    intro b hb
    obtain ⟨m, hm, rfl⟩ := mem_map.mp hb
    exact exists_view hm
  obtain ⟨fs, hfs⟩ := h
  exact ⟨fs, hfs.symm⟩

/-! ## the handlers of a source -/

theorem annotatedClick_group (hm : m ∈ annotatedClick.findAll code) :
    (Pattern.maybe resourceIds).Covers (m.group 1) ∧ word.Covers (m.group 2)
      ∧ m.group 1 <:+: code := by
  have hof := of_mem_findAll hm
  obtain ⟨q1, hq1, hc1, hi1⟩ := hof.group (n := 1) (by decide)
  obtain ⟨q2, hq2, hc2, -⟩ := hof.group (n := 2) (by decide)
  simp [annotatedClick, resourceIds, resourceId, parameters, seq, lit, keyword, word, run1, blanks,
    blanks1, butNot, HasGroup] at hq1 hq2
  subst hq1 hq2
  exact ⟨hc1, hc2, hi1.trans hof.isInfix⟩

theorem annotatedLongClick_group (hm : m ∈ annotatedLongClick.findAll code) :
    word.Covers (m.group 2) ∧ m.group 1 <:+: code := by
  have hof := of_mem_findAll hm
  obtain ⟨q1, -, -, hi1⟩ := hof.group (n := 1) (by decide)
  obtain ⟨q2, hq2, hc2, -⟩ := hof.group (n := 2) (by decide)
  simp [annotatedLongClick, parameters, seq, lit, keyword, word, run1, blanks, blanks1, butNot,
    butNot1, HasGroup] at hq2
  subst hq2
  exact ⟨hc2, hi1.trans hof.isInfix⟩

theorem trim_around {u v : Text} (hu : ∀ c ∈ u, isBlank c) (hv : ∀ c ∈ v, isBlank c)
    (hne : s ≠ []) (hs : ∀ c ∈ s, isBlank c = false) : trim (u ++ s ++ v) = s := by
  -- one side: blanks in front of something that is not blank
  have front : ∀ (u s v : Text), (∀ c ∈ u, isBlank c) → s ≠ [] →
      (∀ c ∈ s, isBlank c = false) → (u ++ (s ++ v)).dropWhile isBlank = s ++ v := by
    intro u s v hu hne hs
    rw [dropWhile_append_of_pos hu]
    cases s with
    | nil => exact absurd rfl hne
    | cons c s => simp [hs c mem_cons_self]
  rw [trim, trimLeft, append_assoc, front u s v hu hne hs, trimRight]
  have hback := front v.reverse s.reverse [] (by simpa using hv) (by simpa using hne)
    (by simpa using hs)
  rw [append_nil] at hback
  rw [reverse_append, hback, reverse_reverse]

theorem comma_not_mem_blanks {b : Text} (h : ∀ c ∈ b, isBlank c) : ',' ∉ b :=
  fun hm => absurd (h ',' hm) (by decide)

theorem comma_not_mem_resourceId (h : resourceId.Covers s) : ',' ∉ s := by
  obtain ⟨two, w, rfl, h2, hw⟩ := covers_resourceId.mp h
  have hw' : ',' ∉ w := fun hm => absurd ((covers_word.mp hw).2 ',' hm) (by decide)
  rcases h2 with rfl | rfl <;> simp [hw']

/-- the pieces between the commas of a list of resources, trimmed, are resources -/
theorem trim_piece_covers {parts : List Text}
    (hparts : ∀ t ∈ parts, (seq [blanks, lit ",", blanks, resourceId]).Covers t) {u id : Text}
    (hu : ∀ c ∈ u, isBlank c) (hid : resourceId.Covers id) :
    ∀ piece ∈ splitAll ',' (u ++ id ++ parts.flatten), resourceId.Covers (trim piece) := by
  have hne : ∀ {id : Text}, resourceId.Covers id → id ≠ [] := by
    intro id h
    obtain ⟨two, w, rfl, -⟩ := covers_resourceId.mp h
    simp
  have hcomma : ',' ∉ u ++ id := by
    simp [comma_not_mem_blanks hu, comma_not_mem_resourceId hid]
  induction parts generalizing u id with
  | nil =>
    intro piece hp
    rw [flatten_nil, append_nil, splitAll_of_not_mem hcomma, mem_singleton] at hp
    have ht := trim_around (v := []) hu (by simp) (hne hid) (isBlank_of_mem_resourceId hid)
    rw [append_nil] at ht
    rw [hp, ht]
    exact hid
  | cons t parts ih =>
    obtain ⟨b, _, rfl, hb, _, _, rfl, rfl, u', id', rfl, hu', hid'⟩ := hparts t mem_cons_self
    have hsplit : u ++ id ++ (List.flatten ((b ++ (",".toList ++ (u' ++ id'))) :: parts))
        = (u ++ id ++ b) ++ ',' :: (u' ++ id' ++ parts.flatten) := by simp
    have hcomma' : ',' ∉ u' ++ id' := by
      simp [comma_not_mem_blanks hu', comma_not_mem_resourceId hid']
    intro piece hp
    have hfront : ',' ∉ u ++ id ++ b := by
      rw [mem_append, not_or]
      exact ⟨hcomma, comma_not_mem_blanks hb⟩
    rw [hsplit, splitAll_append, splitAll_of_not_mem hfront, singleton_append,
      mem_cons] at hp
    rcases hp with rfl | hp
    · rw [trim_around hu hb (hne hid) (isBlank_of_mem_resourceId hid)]
      exact hid
    · exact ih (fun x hx => hparts x (mem_cons_of_mem _ hx)) hu' hid' hcomma' piece hp

theorem splitIds_covers (h : (Pattern.maybe resourceIds).Covers s) :
    ∀ id ∈ splitIds s, resourceId.Covers id := by
  intro id hid
  unfold splitIds at hid
  split at hid
  · simp at hid
  · next hb =>
    rcases h with rfl | ⟨a, _, rfl, ha, parts, rfl, hparts⟩
    · simp [isBlankText] at hb
    · obtain ⟨piece, hp, rfl⟩ := mem_map.mp hid
      exact trim_piece_covers hparts (u := []) (by simp) ha piece hp

theorem viewClassOf_covers (params : Text) : word.Covers (viewClassOf params) := by
  have hall : viewClasses.all (fun c => !c.isEmpty && c.all isWord) = true := by decide +kernel
  have hword : "View".toList.all isWord := by decide +kernel
  have hview : word.Covers "View" := covers_word.mpr ⟨by simp, all_eq_true.mp hword⟩
  unfold viewClassOf
  cases hf : viewClasses.find? (occursIn · params) with
  | none => exact hview
  | some c =>
    have hc := all_eq_true.mp hall c (mem_of_find?_eq_some hf)
    simpa [covers_word] using hc

theorem viewParameter_covers {name v : Text} (h : viewParameter code name = some v) :
    word.Covers v := by
  unfold viewParameter at h
  split at h
  · simp only at h
    split at h
    · split_ifs at h
      rw [← Option.some.inj h]
      exact viewClassOf_covers _
    · cases h
  · cases h

theorem exists_handler (h : word.Covers (m.group 2)) :
    ∃ L : Listener, L.handler = Handler.ofMatch code m := by
  refine ⟨⟨splitIds (m.group 1), m.group 2, viewParameter code (m.group 2),
    lineWith code (m.group 1), h, fun _ => viewParameter_covers⟩, ?_⟩
  simp [Listener.handler, Handler.ofMatch, trim_eq_self (isBlank_of_mem_word h)]

theorem exists_listeners {p : Pattern} {t : Text} (h : ∀ m ∈ p.findAll t, word.Covers (m.group 2)) :
    ∃ ls : List Listener, (p.findAll t).map (Handler.ofMatch code) = ls.map Listener.handler := by
  have hrange : (p.findAll t).map (Handler.ofMatch code) ∈ Set.range (map Listener.handler) := by
    rw [Set.range_list_map]
    intro b hb
    obtain ⟨m, hm, rfl⟩ := mem_map.mp hb
    exact exists_handler (h m hm)
  obtain ⟨ls, hls⟩ := hrange
  exact ⟨ls, hls.symm⟩

/-- the click handlers of a source are listeners, and what they listen to are resources -/
theorem exists_clicks (code : Text) :
    ∃ ls : List Listener, detectClicks code = ls.map Listener.handler ∧ ResourcesOnly ls := by
  obtain ⟨ls, hls⟩ : ∃ ls : List Listener, detectClicks code = ls.map Listener.handler :=
    exists_listeners fun _ hm => (annotatedClick_group hm).2.1
  refine ⟨ls, hls, fun L hL id hid => ?_⟩
  obtain ⟨m, hm, he⟩ := mem_map.mp (hls ▸ mem_map_of_mem hL)
  have hids : splitIds (m.group 1) = L.ids := Slot.given.inj (congrArg Handler.ids he)
  exact splitIds_covers (annotatedClick_group hm).1 id (hids ▸ hid)

/-- the long-click handlers of a source are listeners -/
theorem exists_longClicks (code : Text) :
    ∃ ls : List Listener, detectLongClicks code = ls.map Listener.handler :=
  exists_listeners fun _ hm => (annotatedLongClick_group hm).1

/-! ## the findings of a source -/

/-- the findings hold these fields, click listeners and long-click listeners -/
structure Findings.Lists (f : Findings) (fs : List Field) (cs ls : List Listener) : Prop where
  views : f.bindViews = .given (fs.map Field.view)
  clicks : f.clicks = .given (cs.map Listener.handler)
  longClicks : f.longClicks = .given (ls.map Listener.handler)

theorem detect_applies (code : Text) :
    (Findings.detect code).applies = mentionsButterKnife code := by
  cases h : mentionsButterKnife code <;>
    simp [Findings.detect, Findings.none, h, Findings.applies, Slot.flag, Value.truthy]

theorem detect_lists (code : Text) : ∃ fs cs ls, (Findings.detect code).Lists fs cs ls
    ∧ ResourcesOnly cs := by
  by_cases h : mentionsButterKnife code
  · obtain ⟨fs, hfs⟩ := exists_fields code
    obtain ⟨cs, hcs, hids⟩ := exists_clicks code
    obtain ⟨ls, hls⟩ := exists_longClicks code
    refine ⟨fs, cs, ls, ⟨?_, ?_, ?_⟩, hids⟩
    · simp [Findings.detect, h, hfs]
    · simp [Findings.detect, h, hcs]
    · simp [Findings.detect, h, hls]
  · refine ⟨[], [], [], ⟨?_, ?_, ?_⟩, by simp [ResourcesOnly]⟩ <;>
      simp [Findings.detect, h, Findings.none]

end Rebind
