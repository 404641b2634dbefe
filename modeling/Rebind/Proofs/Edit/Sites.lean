import Mathlib
import Rebind.Proofs.Edit.Dropping
import Rebind.Proofs.Injection.Placements
import Rebind.Proofs.Injection.Repetition

/-!
# One site for a block

Initialisation code is offered to three sites one after the other: `onCreate`, `onViewCreated` and a
site to fall back on.  After each of them the code is searched for the block, and the next site is
passed over if the block is recognised (`inTurn`).  The search looks at the text alone, so that it
has to recognise what the sites put in, however they wrap it up and whatever the names in it are:

* `Settles`: a site leaves the code as it is, or makes the block recognised;
* `inTurn_eq`: then the first site that changes the code is the only one that does;
* `assigns_of_block`: the assignments of fields are recognised by the names of any field in them;
* `isInjected_of_infix`: a block is recognised by its statements, whichever it is.
-/

namespace Rebind

open List Pattern

variable {fs : List Field} {code : Text} {site : Text → Text}

/-! ## sites in turn -/

/-- the sites tried one after the other, each unless the block is recognised by then -/
def inTurn (recognised : Text → Bool) : List (Text → Text) → Text → Text
  | [], code => code
  | site :: sites, code => inTurn recognised sites (if recognised code then code else site code)

def Settles (recognised : Text → Bool) (site : Text → Text) : Prop :=
  ∀ code, site code = code ∨ recognised (site code)

section
variable {recognised : Text → Bool} {first : Text → Text} {sites : List (Text → Text)} {code : Text}

theorem inTurn_of_recognised (h : recognised code) : inTurn recognised sites code = code := by
  induction sites with
  | nil => rfl
  | cons site sites ih => rw [inTurn, if_pos h, ih]

/-- the first site that takes the block is the only one to get it -/
theorem inTurn_eq (hsites : ∀ site ∈ sites, Settles recognised site) (h : recognised code = false) :
    inTurn recognised sites code = ((sites.map (· code)).find? (· ≠ code)).getD code := by
  induction sites with
  | nil => rfl
  | cons site sites ih =>
    rw [inTurn, h, if_neg (by simp), map_cons, find?_cons]
    by_cases hsame : site code = code
    · rw [hsame, ih fun s hs => hsites s (mem_cons_of_mem _ hs)]
      simp
    · have hknown := (hsites site mem_cons_self code).resolve_left hsame
      rw [inTurn_of_recognised hknown]
      simp [hsame]

theorem inTurn_cases (hsites : ∀ site ∈ sites, Settles recognised site) (code : Text) :
    inTurn recognised sites code ∈ code :: sites.map (· code) := by
  cases h : recognised code with
  | true =>
    rw [inTurn_of_recognised h]
    exact mem_cons_self
  | false =>
    rw [inTurn_eq hsites h]
    cases hfind : (sites.map (· code)).find? (· ≠ code) with
    | none => exact mem_cons_self
    | some out => exact mem_cons_of_mem _ (mem_of_find?_eq_some hfind)

theorem inTurn_first_cases (hfirst : Settles recognised first)
    (hsites : ∀ site ∈ sites, Settles recognised site) (code : Text) :
    inTurn recognised sites (first code) ∈ code :: first code :: sites.map (· code) := by
  by_cases h : first code = code
  · rw [h]
    rcases mem_cons.mp (inTurn_cases hsites code) with he | hm
    · rw [he]
      exact mem_cons_self
    · exact mem_cons_of_mem _ (mem_cons_of_mem _ hm)
  · rw [inTurn_of_recognised ((hfirst code).resolve_left h)]
    exact mem_cons_of_mem _ mem_cons_self

theorem inTurn_first_unchanged (hfirst : Settles recognised first)
    (hsites : ∀ site ∈ sites, Settles recognised site)
    (h : inTurn recognised sites (first code) = code) :
    recognised code = true ∨ ∀ out ∈ first code :: sites.map (· code), out = code := by
  have hsame : first code = code := by
    by_contra hne
    rw [inTurn_of_recognised ((hfirst code).resolve_left hne)] at h
    exact hne h
  cases hknown : recognised code with
  | true => exact .inl rfl
  | false =>
    rw [hsame, inTurn_eq hsites hknown] at h
    refine .inr fun out hout => ?_
    rcases mem_cons.mp hout with rfl | hout
    · exact hsame
    · cases hfind : (sites.map (· code)).find? (· ≠ code) with
      | none => simpa using find?_eq_none.mp hfind out hout
      | some taken =>
        rw [hfind, Option.getD_some] at h
        exact absurd h (by simpa using find?_some hfind)

end

/-- the code, or the code with one of the texts put in at one place -/
def PutOnce (texts : List Text) (code out : Text) : Prop :=
  out = code ∨ ∃ s ∈ texts, ∃ k ≤ code.length, out = insertAt k s code

theorem putOnce_insertAt {texts : List Text} {s : Text} (hs : s ∈ texts) (k : Nat) (code : Text) :
    PutOnce texts code (insertAt k s code) :=
  .inr ⟨s, hs, min k code.length, Nat.min_le_right _ _, (insertAt_min k s code).symm⟩

theorem settles_of_putOnce {recognised : Text → Bool} {texts : List Text}
    (hknown : ∀ s ∈ texts, ∀ t, s <:+: t → recognised t)
    (h : ∀ code, PutOnce texts code (site code)) :
    Settles recognised site := by
  intro code
  rcases h code with he | ⟨s, hs, k, -, he⟩
  · exact .inl he
  · rw [he]
    exact .inr (hknown s hs _ ⟨_, _, rfl⟩)

/-! ## the assignments of fields -/

namespace FieldLookup

/-- the assignments as the three sites wrap them up -/
def wrappings (block : Text) : List Text :=
  ["\n        " ++ block ++ "\n    ", "\n" ++ block ++ "\n    ",
    "\n    private void " ++ "initViews" ++ "() \x7b\n" ++ block ++ "\n    \x7d\n"]

theorem infix_of_mem_wrappings {block s : Text} (h : s ∈ wrappings block) : block <:+: s := by
  simp only [wrappings, mem_cons, not_mem_nil, or_false] at h
  rcases h with rfl | rfl | rfl
  · exact ⟨_, _, rfl⟩
  · exact ⟨_, _, rfl⟩
  · exact ⟨_, _, rfl⟩

section
variable (code block : Text)

theorem insertInOnCreate_once : PutOnce (wrappings block) code (insertInOnCreate code block) := by
  unfold insertInOnCreate
  split
  · exact putOnce_insertAt (by simp [wrappings]) _ code
  · exact .inl rfl

theorem insertInOnViewCreated_once :
    PutOnce (wrappings block) code (insertInOnViewCreated code block) := by
  unfold insertInOnViewCreated
  split
  · exact putOnce_insertAt (by simp [wrappings]) _ code
  · exact .inl rfl

theorem addMethodAfterClass_once :
    PutOnce (wrappings block) code (addMethodAfterClass "initViews" code block) := by
  unfold addMethodAfterClass
  split
  · exact putOnce_insertAt (by simp [wrappings]) _ code
  · exact .inl rfl

end

def assigns (fs : List Field) (code : Text) :
    Bool := fs.any (fun F => (assigned F.name F.id).found code)

theorem isAssigned_fields (code : Text) (fs : List Field) :
    isAssigned code (fs.map Field.view) = .ok (assigns fs code) := by
  induction fs with
  | nil => rfl
  | cons F fs ih =>
    show (if (assigned F.name F.id).found code then .ok true else isAssigned code
      (fs.map Field.view)) = _
    rw [ih]
    simp only [assigns, any_cons]
    cases (assigned F.name F.id).found code <;> rfl

theorem assigned_covers (F : Field) : (assigned F.name F.id).Covers
    (F.name ++ " = (".toList ++ F.type ++ ") findViewById(".toList ++ F.id ++ ")".toList) := by
  have hline : ∀ c ∈ '(' :: (F.type ++ ") ".toList), (c != '\n') := by
    intro c hc
    rcases mem_cons.mp hc with rfl | hc
    · decide
    · rcases mem_append.mp hc with hc | hc
      · -- the type is a word, so that it stands on the line
        rw [bne_iff_ne]
        rintro rfl
        exact absurd ((covers_word.mp F.type_covers).2 _ hc) (by decide)
      · exact all_eq_true.mp (by decide : ") ".toList.all (· != '\n')) c hc
  have hspace : blanks.Covers " ".toList := fun c hc =>
    all_eq_true.mp (by decide : " ".toList.all isBlank) c hc
  have hnone : blanks.Covers [] := fun c hc => by cases hc
  have hparts : F.name ++ " = (".toList ++ F.type ++ ") findViewById(".toList ++ F.id ++ ")".toList
      = F.name ++ (" ".toList ++ ("=".toList ++ (" ".toList ++ ('(' :: (F.type ++ ") ".toList)
        ++ ("findViewById".toList
          ++ ([] ++ ("(".toList ++ ([] ++ (F.id ++ ([] ++ ")".toList)))))))))) := by
    have hopen : " = (".toList = " ".toList ++ "=".toList ++ " ".toList ++ ['('] := by decide
    have hcall : ") findViewById(".toList = ") ".toList ++ "findViewById".toList
        ++ "(".toList := by decide
    simp only [hopen, hcall, append_assoc, cons_append, nil_append]
  rw [hparts]
  exact ⟨_, _, rfl, rfl, _, _, rfl, hspace, _, _, rfl, rfl, _, _, rfl, hspace, _, _, rfl, hline, _,
    _, rfl, rfl,
    _, _, rfl, hnone, _, _, rfl, rfl, _, _, rfl, hnone, _, _, rfl, rfl, _, _, rfl, hnone, rfl⟩

theorem found_of_assignmentRow {F : Field} (h : assignmentRow F <:+: code) :
    (assigned F.name F.id).found code := by
  have hsplit : ∀ a b c d e f x y z : Text, z = x ++ y →
      a ++ (b ++ c ++ d ++ e ++ f ++ x) ++ y = a ++ b ++ c ++ d ++ e ++ f ++ z := by
    rintro a b c d e f x y _ rfl
    simp only [append_assoc]
  have hend : ");".toList = ")".toList ++ ";".toList := by decide
  have hrow : "        ".toList
    ++ (F.name ++ " = (".toList ++ F.type ++ ") findViewById(".toList ++ F.id
      ++ ")".toList) ++ ";".toList = assignmentRow F := hsplit _ F.name _ F.type _ F.id _ _ _ hend
  exact found_of_infix rfl (assigned_covers F) (List.IsInfix.trans ⟨_, _, hrow⟩ h)

/-- where the assignments stand they are recognised -/
theorem assigns_of_block (hne : fs ≠ []) (h : unlines (fs.map assignmentRow) <:+: code) :
    assigns fs code := by
  obtain ⟨F, hF⟩ := exists_mem_of_ne_nil fs hne
  rw [assigns, any_eq_true]
  exact ⟨F, hF, found_of_assignmentRow ((infix_unlines_of_mem (mem_map_of_mem hF)).trans h)⟩

theorem settles_of_once (hne : fs ≠ [])
    (h : ∀ code, PutOnce (wrappings (unlines (fs.map assignmentRow))) code (site code)) :
    Settles (assigns fs) site :=
  settles_of_putOnce (fun _ hs _ hin => assigns_of_block hne
    ((infix_of_mem_wrappings hs).trans hin)) h

def laterSites (block : Text) : List (Text → Text) :=
  [(insertInOnViewCreated · block), (addMethodAfterClass "initViews" · block)]

theorem addAssignments_eq (hne : fs ≠ []) (code : Text) : addAssignments code (fs.map Field.view)
      = .ok (inTurn (assigns fs) (laterSites (unlines (fs.map assignmentRow)))
          (insertInOnCreate code (unlines (fs.map assignmentRow)))) := by
  unfold addAssignments
  rw [if_neg (by simpa using hne), assignments_fields, ok_bind]
  simp only [isAssigned_fields, ok_bind, laterSites, inTurn, pure_eq_ok]
  exact (apply_ite Except.ok _ _ _).symm

theorem settles_laterSites (hne : fs ≠ []) :
    ∀ site ∈ laterSites (unlines (fs.map assignmentRow)), Settles (assigns fs) site := by
  intro site hsite
  simp only [laterSites, mem_cons, not_mem_nil, or_false] at hsite
  rcases hsite with rfl | rfl
  · exact settles_of_once hne fun code => insertInOnViewCreated_once code _
  · exact settles_of_once hne fun code => addMethodAfterClass_once code _

end FieldLookup

/-! ## any block -/

section
variable {code block out : Text}

theorem injectAt?_once {start : Nat} (h : injectAt? code block start = some out) :
    PutOnce [wrapped block] code out := by
  unfold injectAt? at h
  simp only at h
  split at h
  · rw [← Option.some.inj h]
    exact putOnce_insertAt (mem_singleton_self _) _ code
  · cases h

theorem injectInMethod_once (p : Pattern) (code block : Text) :
    PutOnce [wrapped block] code (injectInMethod p code block) := by
  unfold injectInMethod
  cases h : (p.search code).bind (fun m => injectAt? code block m.stop) with
  | none => exact .inl rfl
  | some out =>
    obtain ⟨m, -, hm⟩ := Option.bind_eq_some_iff.mp h
    exact injectAt?_once hm

theorem injectInAnyMethod_once (code block : Text) :
    PutOnce [wrapped block] code (injectInAnyMethod code block) := by
  unfold injectInAnyMethod
  generalize hfirst : findSome? _ (anyMethod.findAll code) = first
  cases first with
  | none => exact .inl rfl
  | some out =>
    obtain ⟨m, -, hm⟩ := exists_of_findSome?_eq_some hfirst
    simp only at hm
    split at hm
    · exact injectAt?_once hm
    · cases hm

theorem settles_injected (h : ∀ code, PutOnce [wrapped block] code (site code)) :
    Settles (isInjected · block) site := by
  refine settles_of_putOnce (fun s hs t hin => ?_) h
  obtain rfl := mem_singleton.mp hs
  have hblock : block <:+: wrapped block := ⟨['\n'], "\n    ", rfl⟩
  exact isInjected_of_infix (hblock.trans hin)

def fallbackSites (block : Text) : List (Text → Text) :=
  [(injectInMethod onViewCreatedMethod · block), (injectInAnyMethod · block)]

theorem injectInMethods_eq (code block : Text) :
    injectInMethods code block
      = inTurn (isInjected · block) (fallbackSites block)
        (injectInMethod onCreateMethod code block) := rfl

theorem settles_fallbackSites (block : Text) :
    ∀ site ∈ fallbackSites block, Settles (isInjected · block) site := by
  intro site hsite
  simp only [fallbackSites, mem_cons, not_mem_nil, or_false] at hsite
  rcases hsite with rfl | rfl
  · exact settles_injected fun code => injectInMethod_once _ code block
  · exact settles_injected fun code => injectInAnyMethod_once code block

end

/-! ## both ways -/

theorem FieldLookup.addAssignments_once (code : Text) (hne : fs ≠ []) {block : Text}
    (hblock : block = unlines (fs.map assignmentRow)) :
    ∃ out, addAssignments code (fs.map Field.view) = .ok out
      ∧ PutOnce (wrappings block) code out
      ∧ out ∈ [code, insertInOnCreate code block, insertInOnViewCreated code block,
        addMethodAfterClass "initViews" code block]
      ∧ (insertInOnCreate code block ≠ code → out = insertInOnCreate code block)
      ∧ (out = code → assigns fs code = true ∨ ∀ taken ∈ [insertInOnCreate code block,
        insertInOnViewCreated code block, addMethodAfterClass "initViews" code block], taken
          = code) := by
  subst hblock
  have hfirst : Settles (assigns fs) (insertInOnCreate · (unlines (fs.map assignmentRow))) :=
    settles_of_once hne fun code => insertInOnCreate_once code _
  have hsites := inTurn_first_cases hfirst (settles_laterSites hne) code
  refine ⟨_, addAssignments_eq hne code, ?_, hsites, fun h => inTurn_of_recognised
    ((hfirst code).resolve_left h), inTurn_first_unchanged hfirst (settles_laterSites hne)⟩
  generalize inTurn (assigns fs) _ _ = out at hsites ⊢
  simp only [laterSites, map_cons, map_nil, mem_cons, not_mem_nil, or_false] at hsites
  rcases hsites with rfl | rfl | rfl | rfl
  · exact .inl rfl
  · exact insertInOnCreate_once code _
  · exact insertInOnViewCreated_once code _
  · exact addMethodAfterClass_once code _

theorem injectInMethods_once (code block : Text) :
    PutOnce [wrapped block] code (injectInMethods code block)
      ∧ injectInMethods code block ∈ [code, injectInMethod onCreateMethod code block,
        injectInMethod onViewCreatedMethod code block, injectInAnyMethod code block]
      ∧ (injectInMethod onCreateMethod code block ≠ code →
        injectInMethods code block = injectInMethod onCreateMethod code block)
      ∧ (injectInMethods code block = code →
        isInjected code block ∨ ∀ taken ∈ [injectInMethod onCreateMethod code block,
          injectInMethod onViewCreatedMethod code block, injectInAnyMethod code block], taken
            = code) := by
  have hfirst : Settles (isInjected · block) (injectInMethod onCreateMethod · block) :=
    settles_injected fun code => injectInMethod_once onCreateMethod code block
  have hsites := inTurn_first_cases hfirst (settles_fallbackSites block) code
  rw [injectInMethods_eq]
  refine ⟨?_, hsites, fun h => inTurn_of_recognised ((hfirst code).resolve_left h),
    inTurn_first_unchanged hfirst (settles_fallbackSites block)⟩
  generalize inTurn (isInjected · block) _ _ = out at hsites ⊢
  simp only [fallbackSites, map_cons, map_nil, mem_cons, not_mem_nil, or_false] at hsites
  rcases hsites with rfl | rfl | rfl | rfl
  · exact .inl rfl
  · exact injectInMethod_once _ code block
  · exact injectInMethod_once _ code block
  · exact injectInAnyMethod_once code block

/-- The assignments of fields that were found, and any block of code at all, are put into the code
at one of three sites, the first if it takes them.  They are left out only if they are recognised in
the code or no site takes them. -/
theorem initialisation_placed_once (code : Text) :
    (∀ source views, (Findings.detect source).bindViews = .given views → views ≠ [] → ∃ block out,
      FieldLookup.assignments views = .ok block ∧ FieldLookup.addAssignments code views = .ok out
      ∧ PutOnce (FieldLookup.wrappings block) code out
      ∧ out ∈ [code, insertInOnCreate code block, insertInOnViewCreated code block,
        addMethodAfterClass "initViews" code block]
      ∧ (insertInOnCreate code block ≠ code → out = insertInOnCreate code block)
      ∧ (out = code → FieldLookup.isAssigned code views = .ok true
        ∨ ∀ taken ∈ [insertInOnCreate code block, insertInOnViewCreated code block,
          addMethodAfterClass "initViews" code block], taken = code))
    ∧ ∀ block, PutOnce [wrapped block] code (injectInMethods code block)
      ∧ injectInMethods code block ∈ [code, injectInMethod onCreateMethod code block,
          injectInMethod onViewCreatedMethod code block, injectInAnyMethod code block]
      ∧ (injectInMethod onCreateMethod code block ≠ code →
        injectInMethods code block = injectInMethod onCreateMethod code block)
      ∧ (injectInMethods code block = code →
        isInjected code block = true ∨ ∀ taken ∈ [injectInMethod onCreateMethod code block,
          injectInMethod onViewCreatedMethod code block, injectInAnyMethod code block], taken
            = code) := by
  refine ⟨fun source views hviews hne => ?_, injectInMethods_once code⟩
  obtain ⟨fs, cs, ls, hl, -⟩ := detect_lists source
  obtain rfl : views = fs.map Field.view := Slot.given.inj (hviews.symm.trans hl.views)
  have hfields : fs ≠ [] := fun h => hne (by rw [h, map_nil])
  obtain ⟨out, hout, honce, hsite, hfirst, hsame⟩ :=
    FieldLookup.addAssignments_once code hfields rfl
  refine ⟨_, out, FieldLookup.assignments_fields fs, hout, honce, hsite, hfirst, fun h => ?_⟩
  rw [FieldLookup.isAssigned_fields]
  exact (hsame h).imp_left fun hknown => by rw [hknown]

/-- a class with two sites, each with a block inside -/
def twoSites : Text :=
  "class A \x7b\n@Override\nprotected void onCreate(B b) \x7b\n\x7b\n\x7d\n\x7d\n"
    ++ "@Override\npublic void onViewCreated(V v) \x7b\n\x7b\n\x7d\n\x7d\n\x7d\n"

theorem insertInOnCreate_ne {k : Nat} (h : insertionPoint onCreateOverride code = some k)
    (block : Text) : insertInOnCreate code block ≠ code := by
  intro hsame
  have hlen := congrArg length hsame
  simp only [insertInOnCreate, h, insertAt, length_append, length_take, length_drop] at hlen
  have hpos : 0 < "\n        ".toList.length := by decide
  omega

def oneField : Text := "@BindView(R.id.a) A a;"

/-- both sites would take the assignment and the statement; the first one does -/
theorem initialisation_placed_once_twoSites :
    (∃ views block out, (Findings.detect oneField).bindViews = .given views ∧ views ≠ []
      ∧ FieldLookup.assignments views = .ok block
      ∧ FieldLookup.addAssignments twoSites views = .ok out
      ∧ (insertionPoint onViewCreatedOverride twoSites).isSome
      ∧ insertInOnCreate twoSites block ≠ twoSites ∧ out = insertInOnCreate twoSites block)
    ∧ injectInMethod onCreateMethod twoSites "x();" ≠ twoSites
    ∧ injectInMethod onViewCreatedMethod twoSites "x();" ≠ twoSites
    ∧ injectInMethods twoSites "x();" = injectInMethod onCreateMethod twoSites "x();" := by
  have hcount : (Findings.detect oneField).bindViews.items.length = 1 := by decide +kernel
  obtain ⟨fs, cs, ls, hl, -⟩ := detect_lists oneField
  have hne : fs.map Field.view ≠ [] := by
    intro h
    rw [hl.views, h] at hcount
    cases hcount
  obtain ⟨k, hk⟩ := Option.isSome_iff_exists.mp
    (by decide +kernel : (insertionPoint onCreateOverride twoSites).isSome)
  obtain ⟨hfields, hblocks⟩ := initialisation_placed_once twoSites
  obtain ⟨block, out, hblock, hout, -, -, hfirst, -⟩ := hfields oneField _ hl.views hne
  have htaken : injectInMethod onCreateMethod twoSites "x();" ≠ twoSites := by decide +kernel
  have hlater : injectInMethod onViewCreatedMethod twoSites "x();" ≠ twoSites := by decide +kernel
  exact ⟨⟨_, block, out, hl.views, hne, hblock, hout, by decide +kernel,
    insertInOnCreate_ne hk block,
    hfirst (insertInOnCreate_ne hk block)⟩, htaken, hlater, (hblocks _).2.2.1 htaken⟩

end Rebind
