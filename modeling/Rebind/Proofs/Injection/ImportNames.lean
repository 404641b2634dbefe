import Mathlib
import Rebind.Injection.Imports
import Rebind.Proofs.Source.Standing

/-!
# Which imports are dropped

A line goes if it starts with `import` and mentions the library or one of its annotations: the name
of the library in any case, or that of an annotation, is part of the line (`Related`).  None of
these names has a character in it that separates the names of an import (`Separates`), so that in
`D : ImportDecl` they stand in one of the names of `D.path` or behind its semicolon
(`ImportDecl.related_text`).

* `Related`, `related_around`: mentions, on either side of a separator;
* `ImportDecl`: a line that starts with an import;
* `droppedImport?_isSome_iff`: which lines go;
* `library_imports_dropped_iff`: all imports of the library go, and nothing else goes iff no other
  line that starts with `import` mentions one of the names.
-/

namespace Rebind

open List Pattern

/-! ## mentions of the library -/

/-- the library in any case, or one of its annotations, is part of the text -/
def Related (t : Text) : Prop :=
  "butterknife".toList <:+: t.map lowerAscii ∨ ∃ n ∈ annotationNames, n <:+: t

instance (t : Text) : Decidable (Related t) :=
  inferInstanceAs (Decidable (_ ∨ ∃ n ∈ annotationNames, n <:+: t))

def Separates (x : Char) : Prop :=
  lowerAscii x ∉ "butterknife".toList ∧ ∀ n ∈ annotationNames, x ∉ n

instance (x : Char) : Decidable (Separates x) :=
  inferInstanceAs (Decidable (_ ∧ ∀ n ∈ annotationNames, x ∉ n))

theorem Related.mono {t t' : Text} (h : Related t) (ht : t <:+: t') : Related t' :=
  h.imp (fun hlib => hlib.trans (ht.map lowerAscii)) (fun ⟨n, hn, hin⟩ => ⟨n, hn, hin.trans ht⟩)

theorem not_related_nil : ¬ Related [] := by decide

theorem related_around {x : Char} (hx : Separates x) (a b : Text) :
    Related (a ++ x :: b) ↔ Related a ∨ Related b := by
  constructor
  · rintro (h | ⟨n, hn, h⟩)
    · rw [map_append, map_cons, infix_around_iff hx.1] at h
      exact h.imp .inl .inl
    · rw [infix_around_iff (hx.2 n hn)] at h
      exact h.imp (fun h => .inr ⟨n, hn, h⟩) (fun h => .inr ⟨n, hn, h⟩)
  · rintro (h | h)
    · exact h.mono (prefix_append a _).isInfix
    · exact h.mono ⟨a ++ [x], [], by simp⟩

theorem lowerAscii_of_isBlank {c : Char} (h : isBlank c) : lowerAscii c = c := by
  have hlow : c.toNat ≠ 0x212A ∧ ¬ (65 ≤ c.toNat ∧ c.toNat ≤ 90) := by
    simp only [isBlank] at h
    split at h <;> simp at h <;> omega
  have hupper : ¬ (c.val ≥ 'A'.val ∧ c.val ≤ 'Z'.val) := hlow.2
  rw [lowerAscii, if_neg hlow.1, Char.toLower, dif_neg hupper]

theorem separates_of_isBlank {c : Char} (h : isBlank c) : Separates c := by
  have hplain : ("butterknife".toList :: annotationNames).all (·.all (!isBlank ·)) = true := by
    decide +kernel
  have hnot : ∀ n ∈ "butterknife".toList :: annotationNames, c ∉ n := fun n hn hc => by
    have hc' := all_eq_true.mp (all_eq_true.mp hplain n hn) c hc
    rw [h] at hc'
    cases hc'
  rw [Separates, lowerAscii_of_isBlank h]
  exact ⟨hnot _ mem_cons_self, fun n hn => hnot n (mem_cons_of_mem _ hn)⟩

theorem related_blanks {g : Text} (hg : ∀ c ∈ g, isBlank c) (t : Text) :
    Related (g ++ t) ↔ Related t := by
  induction g with
  | nil => rfl
  | cons c g ih =>
    have h := related_around (separates_of_isBlank (hg c mem_cons_self)) [] (g ++ t)
    rw [nil_append] at h
    rw [cons_append, h, ih (fun x hx => hg x (mem_cons_of_mem _ hx)), or_iff_right not_related_nil]

theorem related_gap {g : Text} (hne : g ≠ []) (hg : ∀ c ∈ g, isBlank c) (a b : Text) :
    Related (a ++ (g ++ b)) ↔ Related a ∨ Related b := by
  obtain ⟨c, g, rfl⟩ := exists_cons_of_ne_nil hne
  rw [cons_append, related_around (separates_of_isBlank (hg c mem_cons_self)),
    related_blanks (fun x hx => hg x (mem_cons_of_mem _ hx))]

theorem related_path (path : List Text) : Related (List.intercalate ['.'] path)
    ↔ ∃ c ∈ path, Related c := by
  induction path with
  | nil => simp [not_related_nil]
  | cons c path ih =>
    rcases eq_or_ne path [] with rfl | hne
    · simp
    · rw [intercalate_cons_of_ne_nil hne, append_assoc, singleton_append,
        related_around (by decide), ih]
      simp

/-! ## imports -/

def isSeparator (c : Char) : Bool := isBlank c || c == '.' || c == ';'

/-- a line that starts with an import, white space around it aside -/
structure ImportDecl where
  gap : Text
  /-- the word `static` with the white space behind it, if it is there -/
  static : Text
  /-- the names between the dots -/
  path : List Text
  room : Text
  /-- what stands behind the semicolon -/
  rest : Text
  gap_blank : gap ≠ [] ∧ ∀ c ∈ gap, isBlank c
  static_covers : static = [] ∨ (keyword "static").Covers static
  path_ne : path ≠ []
  path_plain : ∀ c ∈ path, c ≠ [] ∧ c.all (!isSeparator ·) = true
  room_blank : ∀ c ∈ room, isBlank c

namespace ImportDecl

def text (D : ImportDecl) : Text :=
  "import" ++ (D.gap ++ (D.static ++ (intercalate ['.'] D.path ++ D.room ++ ';' :: D.rest)))

/-- it imports from the package of the library -/
def OfLibrary (D : ImportDecl) : Prop := D.path.head? = some "butterknife".toList

theorem related_text (D : ImportDecl) : Related D.text ↔ (∃ c ∈ D.path, Related c)
    ∨ Related D.rest := by
  -- the two words in front of the path mention nothing
  have hword : ∀ {w g : Text}, ¬ Related w → g ≠ [] → (∀ c ∈ g, isBlank c) →
      ∀ t, Related (w ++ (g ++ t)) ↔ Related t := fun hw hne hg t =>
    (related_gap hne hg _ t).trans (or_iff_right hw)
  have hstatic : ∀ t : Text, Related (D.static ++ t) ↔ Related t := fun t => by
    rcases D.static_covers with h | ⟨_, g, h, rfl, hg⟩
    · rw [h, nil_append]
    · rw [h, append_assoc]
      exact hword (by decide) (covers_run1.mp hg).1 (covers_run1.mp hg).2 t
  have hroom : Related (List.intercalate ['.'] D.path ++ D.room) ↔ ∃ c ∈ D.path, Related c := by
    rcases eq_or_ne D.room [] with h | h
    · rw [h, append_nil, related_path]
    · rw [← append_nil D.room, related_gap h D.room_blank, or_iff_left not_related_nil,
        related_path]
  calc Related D.text
      ↔ Related (D.static ++ (List.intercalate ['.'] D.path ++ D.room ++ ';' :: D.rest)) :=
        hword (by decide) D.gap_blank.1 D.gap_blank.2 _
    _ ↔ Related (List.intercalate ['.'] D.path ++ D.room) ∨ Related D.rest :=
        (hstatic _).trans (related_around (by decide) _ _)
    _ ↔ (∃ c ∈ D.path, Related c) ∨ Related D.rest := or_congr_left hroom

end ImportDecl

/-- the line imports from the package of the library -/
def ImportsLibrary (l : Text) : Prop := ∃ D : ImportDecl, trim l = D.text ∧ D.OfLibrary

/-! ## the lines that go -/

theorem isSome_first_or_second {p q r : Prop} [Decidable p] [Decidable q] [Decidable r]
    (note note' : Note) (h : q → r) :
    (if p then if q then some note else if r then some note' else none else none).isSome = true
      ↔ p ∧ r := by
  by_cases hp : p
  · by_cases hq : q
    · simp [hp, hq, h hq]
    · by_cases hr : r <;> simp [hp, hq, hr]
  · simp [hp]

theorem related_iff (t : Text) :
    (occursIn "butterknife" (t.map lowerAscii) || anyOccursIn annotationNames t) = true
      ↔ Related t := by
  rw [Related, Bool.or_eq_true, occursIn_iff, anyOccursIn, any_eq_true]
  simp only [occursIn_iff]

theorem droppedImport?_isSome_iff (l : Text) :
    (droppedImport? l).isSome ↔ "import" <+: trim l ∧ Related (trim l) := by
  have hlibrary : "import butterknife" <+: trim l → Related (trim l) := fun h =>
    Related.mono (t := "import butterknife") (by decide) h.isInfix
  refine (isSome_first_or_second _ _ fun h => ?_).trans
    (and_congr isPrefixOf_iff_prefix (related_iff (trim l)))
  exact (related_iff (trim l)).mpr (hlibrary (List.isPrefixOf_iff_prefix.mp h))

def linesWithoutImports (code : Text) : List Text :=
  (lines code).filter (fun l => (droppedImport? l).isNone)

theorem mem_linesWithoutImports {code l : Text} (hl : l ∈ lines code) :
    l ∈ linesWithoutImports code ↔ ¬ ("import" <+: trim l ∧ Related (trim l)) := by
  rw [← droppedImport?_isSome_iff, linesWithoutImports, mem_filter, and_iff_right hl,
    ← Option.not_isSome, Bool.not_eq_true, Bool.not_eq_true']

theorem dropped_linesWithoutImports {code : Text} {P : Text → Prop}
    (hP : ∀ l ∈ lines code, "import" <+: trim l → Related (trim l) → P l) :
    Dropped P (lines code) (linesWithoutImports code) := by
  refine Dropped.filter (fun l hl hgone => ?_)
  have hsome := (droppedImport?_isSome_iff l).mp (by simpa [Option.isSome_iff_ne_none] using hgone)
  exact hP l hl hsome.1 hsome.2

theorem ImportDecl.mem_linesWithoutImports (D : ImportDecl) {code l : Text} (hl : l ∈ lines code)
    (hD : trim l = D.text) :
    l ∈ linesWithoutImports code ↔ (∀ c ∈ D.path, ¬ Related c) ∧ ¬ Related D.rest := by
  have himport : "import" <+: D.text := prefix_append _ _
  rw [Rebind.mem_linesWithoutImports hl, hD, and_iff_right himport, D.related_text, not_or]
  simp only [not_exists, not_and]

/-- The lines that are left are those of the code in their order without some that start with
`import`.  None of them imports from the library, and any other import stays iff none of its names
and nothing behind its semicolon mentions the library or one of its annotations.  So only imports of
the library are dropped iff every line that starts with `import` and mentions one of those names is
such an import. -/
theorem library_imports_dropped_iff (code : Text) :
    ∃ left, (dropLibraryImports code).value = unlines left
      ∧ Dropped (fun l => "import".toList <+: trim l) (lines code) left
      ∧ (∀ l ∈ lines code, ImportsLibrary l → l ∉ left)
      ∧ (∀ D : ImportDecl, ∀ l ∈ lines code, trim l = D.text →
        (l ∈ left ↔ (∀ c ∈ D.path, ¬ Related c) ∧ ¬ Related D.rest))
      ∧ (Dropped ImportsLibrary (lines code) left ↔
        ∀ l ∈ lines code, "import".toList <+: trim l → Related (trim l) → ImportsLibrary l) := by
  refine ⟨linesWithoutImports code, rfl, dropped_linesWithoutImports
    (fun _ _ himport _ => himport), ?_,
    fun D _ hl hD => D.mem_linesWithoutImports hl hD, fun h l hl himport hrel =>
      ?_, dropped_linesWithoutImports⟩
  · rintro l hl ⟨D, hD, hlibrary⟩ hleft
    exact ((D.mem_linesWithoutImports hl hD).mp hleft).1 _ (mem_of_mem_head? hlibrary) (by decide)
  · exact h.of_not_mem hl (fun hleft => (mem_linesWithoutImports hl).mp hleft ⟨himport, hrel⟩)

/-- the import of a listener of the platform -/
def listenerImport : ImportDecl where
  gap := [' ']
  static := []
  path := ["android", "view", "View", "OnClickListener"]
  room := []
  rest := []
  gap_blank := one_space_blank
  static_covers := .inl rfl
  path_ne := cons_ne_nil _ _
  path_plain := by decide +kernel
  room_blank := no_room_blank

/-- it is dropped, for its last name has that of an annotation in it -/
theorem listener_import_dropped :
    ¬ listenerImport.OfLibrary
      ∧ (dropLibraryImports (listenerImport.text ++ "\nclass A \x7b\n\x7d\n".toList)).value
        = "class A \x7b\n\x7d\n".toList := by
  refine ⟨?_, by decide +kernel⟩
  rw [ImportDecl.OfLibrary]
  decide

end Rebind
