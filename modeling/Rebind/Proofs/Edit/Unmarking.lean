import Mathlib
import Rebind.Proofs.Edit.Sparing
import Rebind.Proofs.Layout.WhiteSpace

/-!
# What goes with the annotation of a field

`dropMark` writes each annotated declaration of a field anew, from the type and the name that were
found. `unmarked F code` is the code with nothing but the annotations taken out of these
declarations; the two are compared by what they show, white space aside.

* `signature_annotated`: behind its annotation a match shows an access modifier, if there is one,
  and the declaration as it is written anew;
* `annotation_removed_iff`: nothing but the annotations goes iff no declaration has an access
  modifier.
-/

namespace Rebind.FieldLookup

open List Pattern

def markOf (F : Field) : Text := "@BindView" ++ ("(" ++ (F.id ++ ")"))

def unmarked (F : Field) (code : Text) : Text := (annotated F).replace signature code

def modified (F : Field) : Pattern :=
  seq [blanks1, accessModifier, .text F.type, blanks1, .text F.name, blanks, lit ";"]

/-! ## declarations as they are shown -/

theorem visible_accessModifier {s : Text} (h : accessModifier.Covers s) : visible s ≠ [] := by
  rcases h with ⟨_, b, rfl, rfl, -⟩ | ⟨_, b, rfl, rfl, -⟩ | ⟨_, b, rfl, rfl, -⟩
  all_goals
    rw [visible_append]
    exact List.append_ne_nil_of_left_ne_nil (by decide) _

theorem visible_declaration (F : Field) (access : Text) {gap between behind : Text}
    (hgap : blanks1.Covers gap)
    (hbetween : blanks1.Covers between) (hbehind : blanks.Covers behind) :
    visible (gap ++ (access ++ (F.type ++ (between ++ (F.name ++ (behind ++ ";"))))))
      = visible access ++ visible (plainDeclaration F) := by
  have hspace : visible (' ' :: F.name) = visible F.name := rfl
  simp only [plainDeclaration, visible_append, visible_blanks (covers_run1.mp hgap).2,
    visible_blanks (covers_run1.mp hbetween).2, visible_blanks hbehind, hspace, nil_append,
    append_assoc]
  rfl

theorem visible_modified {F : Field} {s : Text} (h : (modified F).Covers s) :
    ∃ access, accessModifier.Covers access ∧ visible s = visible access
      ++ visible (plainDeclaration F) := by
  obtain ⟨gap, _, rfl, hgap, access, _, rfl, haccess, _, _, rfl, rfl, between, _, rfl, hbetween,
    _, _, rfl, rfl, behind, _, rfl, hbehind, rfl⟩ := h
  exact ⟨access, haccess, visible_declaration F access hgap hbetween hbehind⟩

theorem visible_spaced (mark opening id closing rest : Text) {b1 b2 b3 : Text}
    (hb1 : blanks.Covers b1) (hb2 : blanks.Covers b2) (hb3 : blanks.Covers b3) :
    visible (mark ++ (b1 ++ (opening ++ (b2 ++ (id ++ (b3 ++ (closing ++ rest)))))))
      = visible (mark ++ (opening ++ (id ++ closing))) ++ visible rest := by
  simp only [visible_append, visible_blanks hb1, visible_blanks hb2, visible_blanks hb3, nil_append,
    append_assoc]

/-- a match shows its annotation, and behind it a modifier, if there is one, and the declaration -/
theorem signature_annotated {F : Field} {code : Text} {m : Match}
    (hm : m ∈ (annotated F).findAll code) :
    ∃ access, (access = [] ∨ accessModifier.Covers access)
      ∧ visible m.text = visible (markOf F) ++ visible (signature m)
      ∧ visible (signature m) = visible access ++ visible (plainDeclaration F)
      ∧ ((modified F).Covers (signature m) ↔ access ≠ []) := by
  obtain ⟨_, _, htext, rfl, b1, _, rfl, hb1, _, _, rfl, rfl, b2, _, rfl, hb2, _, _, rfl, rfl,
    b3, _, rfl,
    hb3, _, _, rfl, rfl, gap, _, rfl, hgap, access, _, rfl, haccess, _, _, rfl, rfl,
    between, _, rfl,
    hbetween, _, _, rfl, rfl, behind, _, rfl, hbehind, rfl⟩ := (of_mem_findAll hm).covers
  have hsig : signature m
      = gap ++ (access ++ (F.type ++ (between ++ (F.name ++ (behind ++ ";"))))) := by
    have hfront : ')' ∉ "@BindView" ++ (b1 ++ ("(" ++ (b2 ++ (F.id ++ b3)))) := by
      simp only [mem_append, not_or]
      exact ⟨by decide, avoids_run (by decide) _ hb1, by decide, avoids_run (by decide) _ hb2,
        not_mem_resource F.id_covers (by decide) (by decide), avoids_run (by decide) _ hb3⟩
    have hcut := dropWhile_of_not_mem
        (b := gap ++ (access ++ (F.type ++ (between ++ (F.name ++ (behind
      ++ ";")))))) hfront
    rw [signature, htext]
    simp only [append_assoc] at hcut ⊢
    exact congrArg tail hcut
  have hshown := visible_declaration F access hgap hbetween hbehind
  refine ⟨access, haccess, ?_, by rw [hsig, hshown], fun hmod => ?_, fun hne => ?_⟩
  · rw [htext, hsig]
    exact visible_spaced _ _ _ _ _ hb1 hb2 hb3
  · -- a modifier shows something, so without one the declaration would show less
    rintro rfl
    obtain ⟨access', haccess', hvisible⟩ := visible_modified hmod
    rw [hsig, hshown] at hvisible
    have hnil : visible access' = [] := (append_left_eq_self.mp hvisible.symm)
    exact visible_accessModifier haccess' hnil
  · rw [hsig]
    exact ⟨gap, _, rfl, hgap, access, _, rfl, haccess.resolve_left hne, _, _, rfl, rfl,
      between, _, rfl, hbetween, _, _, rfl, rfl, behind, _, rfl, hbehind, rfl⟩

/-! ## the annotations of a field -/

/-- the annotations of a bound field are taken out of a text by writing its annotated declarations
anew. Each of them shows the annotation, an access modifier if there is one, and the new
declaration; so nothing but the annotations goes iff no declaration has a modifier -/
theorem annotation_removed_iff {source : Text} {b : BindView} (hb : b ∈ detectBindViews source)
    (code : Text) : ∃ F : Field, F.view = b ∧ ∃ out, dropMark code b = .ok out
      ∧ out = (annotated F).replace (fun _ => plainDeclaration F) code
      ∧ (∀ m ∈ (annotated F).findAll code, ∃ access, (access = [] ∨ accessModifier.Covers access)
        ∧ visible m.text = visible (markOf F) ++ visible access ++ visible (plainDeclaration F))
      ∧ (visible out = visible (unmarked F code)
        ↔ ∀ m ∈ (annotated F).findAll code, ¬ (modified F).Covers (signature m)) := by
  obtain ⟨fs, hfs⟩ := exists_fields source
  rw [hfs] at hb
  obtain ⟨F, -, rfl⟩ := List.mem_map.mp hb
  refine ⟨F, rfl, _, dropMark_eq F code, rfl, fun m hm => ?_, ?_⟩
  · obtain ⟨access, haccess, htext, hsig, -⟩ := signature_annotated hm
    exact ⟨access, haccess, by rw [htext, hsig, List.append_assoc]⟩
  · have hle : ∀ m ∈ (annotated F).findAll code,
        (visible (plainDeclaration F)).length ≤ (visible (signature m)).length := fun m hm => by
      obtain ⟨access, -, -, hsig, -⟩ := signature_annotated hm
      rw [hsig, List.length_append]
      omega
    refine (filter_replace_pair_iff hle).trans (forall₂_congr (fun m hm => ?_))
    obtain ⟨access, haccess, -, hsig, hmod⟩ := signature_annotated hm
    show visible (plainDeclaration F) = visible (signature m) ↔ _
    rw [hmod, not_not, hsig, eq_comm, List.append_left_eq_self]
    refine ⟨fun hnil => ?_, fun hnil => by rw [hnil]; rfl⟩
    exact haccess.resolve_right (fun hcov => visible_accessModifier hcov hnil)

def plainFields :
    Text := "class A \x7b\n@BindView(R.id.a) A a;\n@BindView ( R.id.a )\n  A  a ;\n\x7d\n"

theorem annotation_removed_plainFields :
    ∃ b ∈ detectBindViews plainFields, ∃ F : Field, F.view = b
      ∧ dropMark plainFields b = .ok "class A \x7b\nA a;\nA a;\n\x7d\n".toList
      ∧ visible "class A \x7b\nA a;\nA a;\n\x7d\n".toList = visible (unmarked F plainFields) := by
  have hmap : (detectBindViews plainFields).map (dropMark plainFields)
      = [.ok "class A \x7b\nA a;\nA a;\n\x7d\n", .ok "class A \x7b\nA a;\nA a;\n\x7d\n"] := by
    decide +kernel
  have hp : plainFields.contains 'p' = false := by decide +kernel
  obtain ⟨b, hb⟩ : ∃ b, b ∈ detectBindViews plainFields := by
    cases h : detectBindViews plainFields with
    | nil =>
      rw [h] at hmap
      cases hmap
    | cons b bs => exact ⟨b, mem_cons_self⟩
  have hdrop := mem_map_of_mem (f := dropMark plainFields) hb
  rw [hmap, mem_pair, or_self] at hdrop
  obtain ⟨F, hF, out, hout, -, -, hiff⟩ := annotation_removed_iff hb plainFields
  obtain rfl := Except.ok.inj (hdrop.symm.trans hout)
  refine ⟨b, hb, F, hF, hdrop, hiff.mpr (fun m hm hmod => ?_)⟩
  -- each modifier has a letter that the text lacks
  have hmem : 'p' ∈ signature m := by
    obtain ⟨gap, _, he, -, access, _, rfl, haccess, -⟩ := hmod
    rw [he]
    rcases haccess with ⟨_, _, rfl, rfl, -⟩ | ⟨_, _, rfl, rfl, -⟩ | ⟨_, _, rfl, rfl, -⟩ <;> simp
  have htext : 'p' ∈ m.text := (dropWhile_subset _) (mem_of_mem_tail hmem)
  have hcode : 'p' ∈ plainFields := (of_mem_findAll hm).isInfix.mem htext
  rw [← contains_iff_mem, hp] at hcode
  cases hcode

def publicField : Text := "class A \x7b\n@BindView(R.id.a) public A a;\n\x7d\n"

/-- with the annotation the modifier goes -/
theorem modifier_lost :
    (detectBindViews publicField).map (dropMark publicField)
      = [.ok "class A \x7b\nA a;\n\x7d\n".toList]
    ∧ visible "class A \x7b\nA a;\n\x7d\n".toList
      ≠ visible "class A \x7b\npublic A a;\n\x7d\n".toList := by
  decide +kernel

end Rebind.FieldLookup
