import Mathlib
import Rebind.Proofs.Injection.Calls
import Rebind.Proofs.Injection.Repetition
import Rebind.Proofs.Injection.Replacing
import Rebind.Proofs.Migration.Completeness

/-!
# The targets of the calls

In an activity that sets its content view `initViews` is created if there are fields to look up,
`initListener` if there are listeners to set, and both are called from `onCreate` if there is
either.  `Declared name t` says that `t` declares a method on one line, before any brace or
semicolon:

* `declared_of_inserted`, `declared_of_provided`, …: no stage adds a declaration but that of the
  initialiser it creates: the rows it puts in declare nothing (`Guarded`);
* `declared_created`, `withInitViews_keeps`, …: that one is added, and a declaration stays that is
  not in a body which is replaced or cleaned (`Undisturbed`);
* `call_targets_declared`: so a call has a target iff there is something for the method to hold, or
  the method was there before.
-/

namespace Rebind

open List Pattern

variable {comment name s t visibility : Text}

/-! ## declarations -/

/-- the text declares the method on one line -/
def Declared (name t : Text) : Prop := ∃ s, (methodDeclaration name).Covers s ∧ Compact s ∧ s <:+: t

theorem Declared.hasMethod (h : Declared name t) : hasMethod t name := by
  obtain ⟨s, hs, -, hi⟩ := h
  exact found_of_infix rfl hs hi

theorem Declared.mono {t' : Text} (h : Declared name t) (ht : t <:+: t') : Declared name t' := by
  obtain ⟨s, hs, hc, hi⟩ := h
  exact ⟨s, hs, hc, hi.trans ht⟩

theorem Compact.ne_nil (h : Compact s) : s ≠ [] := by
  rintro rfl
  obtain ⟨c, hc, -⟩ := h.visible
  cases hc

theorem declared_unlines_iff {ls : List Text} : Declared name (unlines ls)
    ↔ ∃ l ∈ ls, Declared name l := by
  constructor
  · rintro ⟨s, hs, hc, hi⟩
    obtain ⟨l, hl, hsl⟩ := (infix_unlines_iff hc.newline hc.ne_nil).mp hi
    exact ⟨l, hl, s, hs, hc, hsl⟩
  · rintro ⟨l, hl, h⟩
    exact h.mono (infix_unlines_of_mem hl)

/-! ## rows that declare nothing -/

def Guarded (p q : Char → Bool) (t : Text) : Prop := t.IsChain (fun x c => p c = true → q x = true)

instance (p q : Char → Bool) (t : Text) : Decidable (Guarded p q t) :=
  inferInstanceAs (Decidable (List.IsChain _ _))

def notModifying (c : Char) : Bool := !"cde".toList.contains c

def notCalling (name : Text) (c : Char) : Bool := !isBlank c && name.getLast? != some c

section
variable {p q : Char → Bool} {a b t : Text}

theorem guarded_of_free (h : t.any p = false) : Guarded p q t := by
  induction t with
  | nil => exact isChain_nil
  | cons x t ih =>
    rw [any_cons, Bool.or_eq_false_iff] at h
    refine isChain_cons.mpr ⟨fun c hc hp => ?_, ih h.2⟩
    exact absurd hp (any_eq_false.mp h.2 c (mem_of_mem_head? hc))

theorem head_free (h : t.any p = false) : t.head?.any p = false := by
  cases t with
  | nil => rfl
  | cons x t => exact (Bool.or_eq_false_iff.mp h).1

theorem free_append (ha : a.any p = false) (hb : b.any p = false) : (a ++ b).any p = false := by
  rw [any_append, ha, hb]
  rfl

theorem Guarded.append (ha : Guarded p q a) (hb : Guarded p q b) (hhead : b.head?.any p = false) :
    Guarded p q (a ++ b) := by
  refine isChain_append.mpr ⟨ha, hb, fun x _ c hc hp => ?_⟩
  rw [Option.mem_def.mp hc, Option.any_some, hp] at hhead
  cases hhead

theorem guarded_around {call d e : Text} (ha : Guarded p q a) (hb : b.any p = false)
    (hcall : Guarded p q call)
    (hhead : call.head?.any p = false) (hd : d.any p = false) (he : e.any p = false) :
    Guarded p q (a ++ (b ++ call ++ d ++ e)) := by
  have hassoc : a ++ (b ++ call ++ d ++ e) = a ++ b ++ call ++ d ++ e := by simp
  rw [hassoc]
  have hfront : Guarded p q (a ++ b ++ call) :=
    (ha.append (guarded_of_free hb) (head_free hb)).append hcall hhead
  exact (hfront.append (guarded_of_free hd) (head_free hd)).append (guarded_of_free he)
    (head_free he)

end

theorem methodDeclaration_covers (h : (methodDeclaration name).Covers s) :
    ∃ m b mid u, s = m ++ (b ++ (mid ++ (name ++ (u ++ "(".toList))))
      ∧ m ∈ ["public".toList, "protected".toList, "private".toList] ∧ b ≠ [] ∧ (∀ c ∈ b, isBlank c)
      ∧ ∀ c ∈ u, isBlank c := by
  obtain ⟨m, _, rfl, hm, b, _, rfl, hb, mid, _, rfl, -, b', _, rfl, -, _, _, rfl, rfl, u, _, rfl,
    hu, rfl⟩ := h
  obtain ⟨hne, hblank⟩ := covers_run1.mp hb
  refine ⟨m, b, mid ++ b', u, by simp, ?_, hne, hblank, hu⟩
  rcases hm with rfl | rfl | rfl
  · exact mem_cons_self
  · exact mem_cons_of_mem _ mem_cons_self
  · exact mem_cons_of_mem _ (mem_cons_of_mem _ mem_cons_self)

theorem not_declared_of_unmodified (h : Guarded isBlank notModifying t) : ¬ Declared name t := by
  rintro ⟨s, hs, -, hi⟩
  obtain ⟨m, b, mid, u, rfl, hm, hne, hblank, -⟩ := methodDeclaration_covers hs
  obtain ⟨c, b, rfl⟩ := exists_cons_of_ne_nil hne
  have hin := List.IsChain.infix h hi
  have hchain := (isChain_append.mp hin).2.2
  have hc := hblank c mem_cons_self
  simp only [mem_cons, not_mem_nil, or_false] at hm
  rcases hm with rfl | rfl | rfl
  · exact absurd (hchain 'c' rfl c rfl hc) (by decide)
  · exact absurd (hchain 'd' rfl c rfl hc) (by decide)
  · exact absurd (hchain 'e' rfl c rfl hc) (by decide)

theorem not_declared_of_uncalled {name t : Text} (hname : name ≠ [])
    (h : Guarded (· == '(') (notCalling name) t) : ¬ Declared name t := by
  rintro ⟨s, hs, -, hi⟩
  obtain ⟨m, b, mid, u, rfl, -, -, -, hu⟩ := methodDeclaration_covers hs
  have hin := List.IsChain.infix h hi
  have hchain : Guarded (· == '(') (notCalling name) (name ++ u ++ "(") := by
    rw [append_assoc]
    exact hin.right_of_append.right_of_append.right_of_append
  obtain ⟨front, x, hx⟩ := (eq_nil_or_concat (name ++ u)).resolve_left (by simp [hname])
  have hlast : (name ++ u).getLast? = some x := by rw [hx]; simp
  have hq : notCalling name x := (isChain_append.mp hchain).2.2 x hlast '(' rfl rfl
  rw [notCalling, Bool.and_eq_true, Bool.not_eq_true', bne_iff_ne] at hq
  rcases eq_nil_or_concat u with rfl | ⟨u', y, rfl⟩
  · rw [append_nil] at hlast
    exact hq.2 hlast
  · obtain rfl : y = x := by simpa [← append_assoc] using hlast
    rw [hu y (by simp)] at hq
    cases hq.1

def initialisers : List Text := ["initViews", "initListener"]

section
variable {name : Text} {fs : List Field} {cs ls : List Listener}

theorem initialiser_ne_nil (h : name ∈ initialisers) : name ≠ [] := by
  rintro rfl
  exact absurd h (by decide)

theorem word_free {w : Text} (h : word.Covers w) {p : Char → Bool} (hword : ∀ c, isWord c
    → p c = false) :
    w.any p = false := by
  rw [any_eq_false]
  intro c hc
  rw [hword c ((covers_word.mp h).2 c hc)]
  decide

theorem applicationId_free {id : Text} (h : resourceId.Covers id) {p : Char → Bool}
    (hword : ∀ c, isWord c → p c = false) (hclass : "R.id.".toList.any p = false) :
    (applicationId id).any p = false := by
  obtain ⟨w, hw, he⟩ := applicationId_eq h
  rw [he]
  exact free_append hclass (word_free hw hword)

theorem ne_paren_of_isWord (c : Char) (h : isWord c) : (c == '(') = false := by
  refine beq_false_of_ne ?_
  rintro rfl
  exact absurd h (by decide)

theorem not_declared_lookup (hname : name ∈ initialisers) {call : Text}
    (hcall : call ∈ [" = findViewById(".toList, " = itemView.findViewById(".toList]) (F : Field) :
    ¬ Declared name (indented (F.name ++ call ++ applicationId F.id ++ ");".toList)) := by
  have hlook : ∀ name ∈ initialisers,
    ∀ call ∈ [" = findViewById(".toList, " = itemView.findViewById(".toList],
      Guarded (· == '(') (notCalling name) call ∧ call.head?.any (· == '(') = false := by
        decide +kernel
  obtain ⟨hguard, hhead⟩ := hlook name hname call hcall
  exact not_declared_of_uncalled (initialiser_ne_nil hname)
    (guarded_around (guarded_of_free (by decide))
    (word_free F.name_covers ne_paren_of_isWord) hguard hhead
    (applicationId_free F.id_covers ne_paren_of_isWord (by decide)) (by decide))

theorem not_declared_listener (kind : ClickKind) {id : Text} (hid : resourceId.Covers id)
    (L : Listener) :
    ¬ Declared name (listenerLine kind (viewOf id) L.call) := by
  have hword : ∀ c, isWord c → isBlank c = false := fun c => isBlank_of_isWord
  have hview : (viewOf id ++ '.' :: kind.setter).any isBlank = false := by
    have hlook : "findViewById(".toList.any isBlank = false := by decide
    have hclose : ")".toList.any isBlank = false := by decide
    have hsetter : ('.' :: kind.setter).any isBlank = false := by cases kind <;> decide
    exact free_append (free_append (free_append hlook (applicationId_free hid hword (by decide)))
      hclose) hsetter
  have hcall : L.call.any isBlank = false := by
    have hargs : (if L.view.isSome then "(v)".toList else "()".toList).any isBlank = false := by
      cases L.view.isSome <;> decide
    exact free_append (word_free L.method_covers hword) hargs
  have hindent : Guarded isBlank notModifying "        ".toList := by decide
  have harrow : Guarded isBlank notModifying "(v -> ".toList := by decide
  have hend : ");".toList.any isBlank = false := by decide
  exact not_declared_of_unmodified (guarded_around hindent hview harrow rfl hcall hend)

theorem not_declared_comment (name : Text)
    (h : comment ∈ [lookupComment, clickComment, longClickComment]) :
    ¬ Declared name (indented comment) := by
  have hcomments : ∀ comment ∈ [lookupComment, clickComment, longClickComment],
      Guarded isBlank notModifying (indented comment) := by decide +kernel
  exact not_declared_of_unmodified (hcomments comment h)

theorem not_declared_nil (name : Text) : ¬ Declared name [] :=
  not_declared_of_unmodified isChain_nil

theorem not_declared_headed {α : Type} {entries : List α} {rows : List Text}
    (hcomment : comment ∈ [lookupComment, clickComment, longClickComment])
    (hrows : ∀ l ∈ rows, ¬ Declared name l) :
    ∀ l ∈ headed comment entries rows, ¬ Declared name l := by
  intro l hl
  rcases mem_headed hl with rfl | hl
  · exact not_declared_comment name hcomment
  · exact hrows l hl

theorem not_declared_lookupBlock (hname : name ∈ initialisers) (fs : List Field) :
    ¬ Declared name (lookupBlock fs) := by
  rw [lookupBlock, declared_unlines_iff]
  rintro ⟨l, hl, hd⟩
  refine not_declared_headed (by simp) (fun l hl => ?_) l hl hd
  obtain ⟨F, -, rfl⟩ := mem_map.mp hl
  exact not_declared_lookup hname (by simp) F

theorem not_declared_plainRows (kind : ClickKind) (hls : ResourcesOnly ls) :
    ∀ l ∈ plainRows kind ls, ¬ Declared name l := by
  intro l hl
  obtain ⟨L, hL, hl⟩ := mem_flatMap.mp hl
  obtain ⟨id, hid, rfl⟩ := mem_map.mp hl
  exact not_declared_listener kind (hls L hL id hid) L

theorem not_declared_listenerBlock (name : Text) (hcs : ResourcesOnly cs) (hls : ResourcesOnly ls) :
    ¬ Declared name (listenerBlock cs ls) := by
  rw [listenerBlock, declared_unlines_iff]
  rintro ⟨l, hl, hd⟩
  rcases mem_append.mp hl with hl | hl
  · exact not_declared_headed (by simp) (not_declared_plainRows .click hcs) l hl hd
  · exact not_declared_headed (by simp) (not_declared_plainRows .longClick hls) l hl hd

theorem not_declared_itemBlock (hname : name ∈ initialisers) (fs : List Field) :
    ¬ Declared name (itemBlock fs [] []) := by
  rw [itemBlock, declared_unlines_iff]
  rintro ⟨l, hl, hd⟩
  simp only [headed, isEmpty_nil, if_true, append_nil] at hl
  refine not_declared_headed (by simp) (fun l hl => ?_) l hl hd
  rcases mem_append.mp hl with hl | hl
  · obtain ⟨F, -, rfl⟩ := mem_map.mp hl
    exact not_declared_lookup hname (by simp) F
  · rw [mem_singleton.mp hl]
    exact not_declared_nil name

end

/-! ## what the stages put in -/

section
variable {name code block content t t' : Text}

/-- a block on lines of its own adds what is declared in it -/
theorem declared_of_inserted (h : Inserted block t t') (hfirst : block.head? = some '\n')
    (hlast : block.getLast? = some '\n' ∨ block.getLast? = some ';') (hd : Declared name t') :
    Declared name t ∨ Declared name block := by
  obtain ⟨pre, post, rfl, rfl, -⟩ := h
  obtain ⟨s, hs, hc, hi⟩ := hd
  obtain ⟨front, c, rfl, hcs⟩ : ∃ front c, block = front ++ [c] ∧ c ∉ s := by
    rcases hlast with hlast | hlast
    · exact ⟨_, _, (dropLast_append_getLast? _ hlast).symm, hc.newline⟩
    · exact ⟨_, _, (dropLast_append_getLast? _ hlast).symm, hc.semicolon⟩
  have hsplit : pre ++ (front ++ [c]) ++ post = pre ++ front ++ c :: post := by simp
  rw [hsplit, infix_around_iff hcs] at hi
  rcases hi with hi | hi
  · rcases front with _ | ⟨x, front⟩
    · rw [append_nil] at hi
      exact .inl ⟨s, hs, hc, infix_append_of_infix_left hi⟩
    · obtain rfl : x = '\n' := Option.some.inj hfirst
      rcases (infix_around_iff hc.newline).mp hi with hi | hi
      · exact .inl ⟨s, hs, hc, infix_append_of_infix_left hi⟩
      · exact .inr ⟨s, hs, hc, hi.trans ⟨['\n'], [c], by simp⟩⟩
  · exact .inl ⟨s, hs, hc, infix_append_of_infix_right hi⟩

theorem getLast?_itemBlock (fs : List Field) :
    ('\n' :: itemBlock fs [] []).getLast? = some '\n' := by
  cases fs with
  | nil => rfl
  | cons F fs =>
    have hrows : itemBlock (F :: fs) [] []
        = unlines (indented lookupComment :: itemLookupRows (F :: fs)) ++ ['\n'] := by
      rw [itemBlock, ← append_nil ['\n']]
      simp only [headed, isEmpty_nil, isEmpty_cons, if_true, append_nil,
        Bool.false_eq_true, if_false]
      rw [← cons_append, unlines_append (by simp) (by simp)]
      simp [unlines]
    rw [hrows, ← cons_append, getLast?_append]
    rfl

theorem declared_of_innerHolders (hname : name ∈ initialisers) (fs : List Field)
    (cls : List InnerClass)
    (h : Declared name (cls.foldl (innerPlaced fs) code)) : Declared name code := by
  induction cls generalizing code with
  | nil => exact h
  | cons c cls ih =>
    have hstep := ih h
    rcases innerPlaced_cases fs code c with he | ⟨own, -, hins⟩
    · rwa [he] at hstep
    · refine (declared_of_inserted hins rfl (.inl (getLast?_itemBlock own)) hstep).resolve_right
        fun hblock => ?_
      have hlines : '\n' :: itemBlock own [] [] = unlines [[], itemBlock own [] []] := by
        simp [unlines]
      rw [hlines, declared_unlines_iff] at hblock
      obtain ⟨l, hl, hd⟩ := hblock
      rcases mem_pair.mp hl with rfl | rfl
      · exact not_declared_nil name hd
      · exact not_declared_itemBlock hname own hd

theorem declared_of_cleaned (h : Declared name (cleanOnCreate code).value) :
    Declared name code := by
  cases hm : onCreateHeader.search code with
  | none => rwa [cleanOnCreate_of_no_header hm] at h
  | some m =>
    obtain ⟨a, ha, -⟩ := onCreateHeader_stop hm
    have hends : HeaderEnds onCreateHeader code a := by rw [HeaderEnds, hm, Option.map_some, ha]
    by_cases hclosed : ∃ e, Matched code a e
    · obtain ⟨e, he⟩ := hclosed
      obtain ⟨s, hs, hc, hi⟩ := h
      rw [cleanOnCreate_of_matched hends he, append_assoc, ← ha] at hi
      obtain ⟨hlt, hbrace⟩ := List.getElem?_eq_some_iff.mp he.2.2.1
      have hback : code.drop e = '\x7d' :: code.drop (e + 1) := by
        rw [drop_eq_getElem_cons hlt, hbrace]
      rcases (cut_onCreateHeader hm _).infix_cases hc.toWhole hi with hi | hi
      · exact ⟨s, hs, hc, hi.trans (List.take_prefix _ _).isInfix⟩
      · rcases Cut.infix_cases (.inr (.inl ⟨_, hback⟩)) hc.toWhole hi with hi | hi
        · obtain ⟨l, hl, hsl⟩ := (infix_unlines_iff hc.newline hc.ne_nil).mp hi
          have hbody := infix_of_mem_lines (mem_of_mem_unmarkedLines hl)
          exact ⟨s, hs, hc, hsl.trans (hbody.trans
            ((drop_suffix _ _).isInfix.trans (List.take_prefix _ _).isInfix))⟩
        · exact ⟨s, hs, hc, hi.trans (drop_suffix _ _).isInfix⟩
    · rwa [cleanOnCreate_of_unmatched hends hclosed] at h

theorem declared_of_called (h : Declared name (addInitialiserCalls code).value) :
    Declared name code := by
  rcases addInitialiserCalls_cases code with he | ⟨v, l, hins⟩
  · rwa [he] at h
  · have hcalls : ∀ v l, Guarded isBlank notModifying (missingCalls v l)
        ∧ ((v && l) = true ∨ (missingCalls v l).head? = some '\n' ∧ (missingCalls v l).getLast?
          = some ';') := by decide
    obtain ⟨hguard, hboth | ⟨hfirst, hlast⟩⟩ := hcalls v l
    · obtain ⟨rfl, rfl⟩ := Bool.and_eq_true_iff.mp hboth
      obtain ⟨pre, post, rfl, he, -⟩ := hins
      rw [he] at h
      simpa [missingCalls] using h
    · exact (declared_of_inserted hins hfirst (.inr hlast) h).resolve_right
        (not_declared_of_unmodified hguard)

theorem declared_of_updateMethod {name' : Text}
    (h : Declared name (updateMethod code name' content).value) :
    Declared name code ∨ Declared name content := by
  have hlines : ∀ {new : List Text} {i j : Nat}, (∀ l ∈ new, l <:+: content) →
      Declared name (unlines ((lines code).take i ++ new ++ (lines code).drop j)) →
      Declared name code ∨ Declared name content := by
    intro new i j hnew hd
    obtain ⟨l, hl, hd⟩ := declared_unlines_iff.mp hd
    rcases mem_append.mp hl with hl | hl
    · rcases mem_append.mp hl with hl | hl
      · exact .inl (hd.mono (infix_of_mem_lines (mem_of_mem_take hl)))
      · exact .inr (hd.mono (hnew l hl))
    · exact .inl (hd.mono (infix_of_mem_lines (mem_of_mem_drop hl)))
  unfold updateMethod at h
  simp only at h
  split at h
  · exact .inl h
  · split at h
    · exact hlines (fun l hl => infix_of_mem_lines hl) h
    · split at h
      · exact .inl h
      · split at h
        · exact .inl h
        · exact hlines (fun l hl => by rw [mem_singleton.mp hl]) h

def initialiserHeader (name visibility : Text) : Text :=
  "    " ++ visibility ++ " void " ++ name ++ "() \x7b"

theorem methodText_lines (name' content visibility : Text) :
    methodText name' content visibility ++ ['\n']
      = unlines [[], initialiserHeader name' visibility, content, "    \x7d", []] := by
  have hjoin : ∀ a b c d e f g x y z : Text, x = ['\n'] ++ a → y = e ++ ['\n'] → z = ['\n'] ++ g →
      x ++ b ++ c ++ d ++ y ++ f ++ z ++ ['\n']
        = unlines [[], a ++ b ++ c ++ d ++ e, f, g, []] := by
    rintro a b c d e f g _ _ _ rfl rfl rfl
    simp [unlines]
  exact hjoin _ _ _ _ _ _ _ _ _ _ (by decide) (by decide) (by decide)

theorem provideMethod_nil (present : Bool) (name visibility code : Text) :
    (provideMethod present name [] visibility code).value = code := rfl

theorem provideMethod_absent (hne : content ≠ []) (name visibility code : Text) :
    (provideMethod false name content visibility code).value
      = (createMethod code name content visibility).value := by
  unfold provideMethod
  rw [if_neg (by simpa using hne), if_neg (by decide), Traced.value_note_bind]

/-- an initialiser that is provided adds what is declared in its header and in what it holds -/
theorem declared_of_provided {name' : Text} {present : Bool}
    (hheader : ¬ Declared name (initialiserHeader name' visibility))
    (h : Declared name (provideMethod present name' content visibility code).value) :
    Declared name code ∨ Declared name content := by
  unfold provideMethod at h
  split at h
  · exact .inl h
  · split at h
    · exact declared_of_updateMethod h
    · rw [Traced.value_note_bind] at h
      rcases createMethod_cases code name' content visibility with ⟨he, -⟩ | hins
      · rw [he] at h
        exact .inl h
      · rcases declared_of_inserted hins rfl (.inl (by simp)) h with hd | hd
        · exact .inl hd
        · rw [methodText_lines, declared_unlines_iff] at hd
          obtain ⟨l, hl, hd⟩ := hd
          simp only [mem_cons, not_mem_nil, or_false] at hl
          rcases hl with rfl | rfl | rfl | rfl | rfl
          · exact absurd hd (not_declared_nil name)
          · exact absurd hd hheader
          · exact .inr hd
          · exact absurd hd (not_declared_of_unmodified (by decide))
          · exact absurd hd (not_declared_nil name)

end

/-! ## what the stages keep -/

section
variable {name code content lookups listeners w : Text}

theorem declared_initialiserHeader
    (hv : visibility ∈ ["public".toList, "protected".toList]) (hname : name ∈ initialisers) :
    Declared name (initialiserHeader name visibility) := by
  have hmodifier : (oneOf [lit "public", lit "protected", lit "private"]).Covers visibility := by
    rcases mem_pair.mp hv with rfl | rfl
    · exact .inl rfl
    · exact .inr (.inl rfl)
  have hspace : blanks1.Covers [' '] := covers_run1.mpr ⟨by simp, by simp [isBlank]⟩
  have hvoid : restOfLine.Covers "void".toList :=
    all_eq_true.mp (by decide : "void".toList.all (· != '\n'))
  have hnone : blanks.Covers [] := fun c hc => by cases hc
  have hcovers : (methodDeclaration name).Covers
      (visibility ++ ([' '] ++ ("void".toList ++ ([' '] ++ (name ++ ([] ++ "(".toList)))))) :=
    ⟨_, _, rfl, hmodifier, _, _, rfl, hspace, _, _, rfl, hvoid, _, _, rfl, hspace, _, _, rfl, rfl,
      _, _, rfl, hnone, rfl⟩
  have hall : ∀ v ∈ ["public".toList, "protected".toList], ∀ name ∈ initialisers,
      (v ++ ([' '] ++ ("void".toList ++ ([' '] ++ (name ++ ([] ++ "(".toList)))))).all
        isCompactChar := by
    decide
  have hcompact := compact_of_all ⟨'(', by simp, by decide⟩ (all_eq_true.mp (hall _ hv _ hname))
  have hsplit : ∀ a b c d e x y : Text, x = [' '] ++ c ++ [' '] → y = e ++ d →
      b ++ ([' '] ++ (c ++ ([' '] ++ (name ++ ([] ++ e))))) <:+: a ++ b ++ x ++ name ++ y := by
    rintro a b c d e _ _ rfl rfl
    exact ⟨a, d, by simp⟩
  exact ⟨_, hcovers, hcompact, hsplit _ _ _ ") \x7b".toList _ _ _ (by decide) (by decide)⟩

/-- a new initialiser is declared, if there is a brace to put it before -/
theorem declared_created (hv : visibility ∈ ["public".toList, "protected".toList])
    (hname : name ∈ initialisers) (hbrace : '\x7d' ∈ code) :
    Declared name (createMethod code name content visibility).value := by
  rcases createMethod_cases code name content visibility with ⟨-, hno⟩ | hins
  · exact absurd hbrace hno
  · refine Declared.mono ?_ hins.contains_block
    rw [methodText_lines, declared_unlines_iff]
    exact ⟨_, by simp, declared_initialiserHeader hv hname⟩

theorem updateInitialViews_keeps {l : Text} (hl : l ∈ lines code) :
    l <:+: (updateMethod code "initViews" content).value := by
  unfold updateMethod
  simp only
  split
  · exact infix_of_mem_lines hl
  · rw [if_neg (by decide)]
    split
    · exact infix_of_mem_lines hl
    · split
      · exact infix_of_mem_lines hl
      · next stop _ _ _ =>
        rw [← take_append_drop stop (lines code)] at hl
        refine infix_unlines_of_mem ?_
        simp only [mem_append] at hl ⊢
        exact hl.elim (fun h => .inl (.inl h)) .inr

theorem withInitViews_keeps (hs : Compact s) (hi : s <:+: w) : s <:+: withInitViews lookups w := by
  unfold withInitViews provideMethod
  split
  · exact hi
  · split
    · obtain ⟨l, hl, hsl⟩ := exists_line hs.newline hi
      exact hsl.trans (updateInitialViews_keeps hl)
    · rw [Traced.value_note_bind]
      rcases createMethod_cases w "initViews" lookups "protected" with ⟨he, -⟩ | hins
      · rwa [he]
      · exact hins.keeps hs.toWhole hi

theorem brace_withInitViews (h : '\x7d' ∈ w) : '\x7d' ∈ withInitViews lookups w := by
  unfold withInitViews provideMethod
  split
  · exact h
  · split
    · obtain ⟨l, hl, hsl⟩ := exists_line (s := ['\x7d']) (by decide)
        (singleton_infix_iff _ _ |>.mpr h)
      exact (hsl.trans (updateInitialViews_keeps hl)).subset (mem_singleton_self _)
    · rw [Traced.value_note_bind]
      rcases createMethod_cases w "initViews" lookups "protected" with ⟨he, -⟩ | hins
      · rwa [he]
      · exact hins.sublist.subset h

end

/-! ## the targets -/

/-- the method is declared on one line if it is found at all, there is a brace to put a new one
before, and no declaration stands in the body of `initListener` that is replaced, or in the body of
`onCreate` that is cleaned -/
structure Undisturbed (name lookups listeners w : Text) : Prop where
  plain : hasMethod w name = true → Declared name w
  closed : '\x7d' ∈ w
  listener : ¬ Declared name (methodBody "initListener" (withInitViews lookups w))
  create : ¬ Declared name (onCreateBody (withCalls lookups listeners w))

section
variable {name lookups listeners w : Text} {fs : List Field}

theorem undisturbed_of_unfound (hplain : hasMethod w name → Declared name w) (hclosed : '\x7d' ∈ w)
    (h : hasMethod (methodBody "initListener" (withInitViews lookups w)) name = false
      ∧ hasMethod (onCreateBody (withCalls lookups listeners w)) name = false) :
    Undisturbed name lookups listeners w :=
  ⟨hplain, hclosed, fun hd => Bool.false_ne_true (h.1.symm.trans hd.hasMethod),
    fun hd => Bool.false_ne_true (h.2.symm.trans hd.hasMethod)⟩

theorem declared_of_placed (hname : name ∈ initialisers) (cls : List InnerClass)
    (h : Declared name (cls.foldl (innerPlaced fs) (generalPlaced lookups listeners w))) :
    Declared name (withInitialisers lookups listeners w) := by
  have hcalls := declared_of_cleaned (declared_of_innerHolders hname fs cls h)
  unfold withCalls at hcalls
  split at hcalls
  · exact hcalls
  · exact declared_of_called hcalls

theorem Undisturbed.placed (h : Undisturbed name lookups listeners w) (cls : List InnerClass)
    (hd : Declared name (withInitialisers lookups listeners w)) :
    Declared name (cls.foldl (innerPlaced fs) (generalPlaced lookups listeners w)) := by
  obtain ⟨s, hs, hc, hi⟩ := hd
  have hclean : s <:+: generalPlaced lookups listeners w :=
    cleanOnCreate_keeps hc (withCalls_keeps hc hi) fun hbody => h.create ⟨s, hs, hc, hbody⟩
  exact ⟨s, hs, hc, innerHolders_keeps fs cls hc.toWhole hclean⟩

theorem Undisturbed.kept (h : Undisturbed name lookups listeners w)
    (hd : Declared name (withInitViews lookups w)) :
    Declared name (withInitialisers lookups listeners w) := by
  obtain ⟨s, hs, hc, hi⟩ := hd
  exact ⟨s, hs, hc, withInitialisers_keeps hc hi fun hbody => h.listener ⟨s, hs, hc, hbody⟩⟩

theorem Undisturbed.missing (h : Undisturbed name lookups listeners w) (hw : ¬ Declared name w) :
    hasMethod w name = false := by
  by_contra hfound
  exact hw (h.plain (by simpa using hfound))

theorem declared_of_initViews (hlisteners : ¬ Declared "initViews" listeners)
    (h : Declared "initViews" (withInitialisers lookups listeners w)) :
    lookups ≠ [] ∨ Declared "initViews" w := by
  by_cases hnil : lookups = []
  · have hheader : ¬ Declared "initViews" (initialiserHeader "initListener" "public") :=
      not_declared_of_uncalled (by decide) (by decide)
    rw [withInitialisers, hnil, withInitViews, provideMethod_nil] at h
    exact .inr ((declared_of_provided hheader h).resolve_right hlisteners)
  · exact .inl hnil

theorem declared_of_initListener (hlookups : ¬ Declared "initListener" lookups)
    (h : Declared "initListener" (withInitialisers lookups listeners w)) :
    listeners ≠ [] ∨ Declared "initListener" w := by
  by_cases hnil : listeners = []
  · have hheader : ¬ Declared "initListener" (initialiserHeader "initViews" "protected") :=
      not_declared_of_uncalled (by decide) (by decide)
    rw [withInitialisers, hnil, provideMethod_nil, withInitViews] at h
    exact .inr ((declared_of_provided hheader h).resolve_right hlookups)
  · exact .inl hnil

theorem Undisturbed.declared_initViews (h : Undisturbed "initViews" lookups listeners w)
    (hany : lookups ≠ [] ∨ Declared "initViews" w) :
    Declared "initViews" (withInitialisers lookups listeners w) := by
  refine h.kept ?_
  by_cases hw : Declared "initViews" w
  · obtain ⟨s, hs, hc, hi⟩ := hw
    exact ⟨s, hs, hc, withInitViews_keeps hc hi⟩
  · rw [withInitViews, h.missing hw, provideMethod_absent (hany.resolve_right hw)]
    exact declared_created (by simp) (by simp [initialisers]) h.closed

theorem Undisturbed.declared_initListener (h : Undisturbed "initListener" lookups listeners w)
    (hany : listeners ≠ [] ∨ Declared "initListener" w) :
    Declared "initListener" (withInitialisers lookups listeners w) := by
  by_cases hw : Declared "initListener" w
  · obtain ⟨s, hs, hc, hi⟩ := hw
    exact h.kept ⟨s, hs, hc, withInitViews_keeps hc hi⟩
  · rw [withInitialisers, h.missing hw, provideMethod_absent (hany.resolve_right hw)]
    exact declared_created (by simp) (by simp [initialisers]) (brace_withInitViews h.closed)

end

/-! ## whole injections -/

section
variable {source out w : Text} {fs : List Field} {cs ls : List Listener}

theorem comment_mem_headed {α : Type} {entries : List α} (h : entries ≠ []) (comment : Text)
    (rows : List Text) :
    indented comment ∈ headed comment entries rows := by
  rw [headed, if_neg (by simpa using h)]
  exact mem_cons_self

theorem unlines_ne_nil_of_mem {rows : List Text} (h : indented comment ∈ rows) :
    unlines rows ≠ [] :=
  ne_nil_of_contains (append_ne_nil_of_left_ne_nil (by decide) _) (infix_unlines_of_mem h)

theorem lookupBlock_ne_nil_iff : lookupBlock fs ≠ [] ↔ fs ≠ [] := by
  constructor
  · rintro h rfl
    exact h rfl
  · intro h
    exact unlines_ne_nil_of_mem (comment_mem_headed h _ _)

theorem listenerBlock_ne_nil_iff : listenerBlock cs ls ≠ [] ↔ cs ≠ [] ∨ ls ≠ [] := by
  constructor
  · intro h
    by_contra hnone
    obtain ⟨rfl, rfl⟩ : cs = [] ∧ ls = [] := by simpa using hnone
    exact h rfl
  · rintro (h | h)
    · exact unlines_ne_nil_of_mem (mem_append_left _ (comment_mem_headed h _ _))
    · exact unlines_ne_nil_of_mem (mem_append_right _ (comment_mem_headed h _ _))

theorem mentionsButterKnife_of_any (hl : (Findings.detect source).Lists fs cs ls)
    (hany : fs ≠ [] ∨ cs ≠ [] ∨ ls ≠ []) : mentionsButterKnife source := by
  by_contra h
  obtain ⟨hviews, hclicks, hlong⟩ := hl
  simp only [Findings.detect, h, Findings.none, if_false, Slot.given.injEq] at hviews hclicks hlong
  rcases hany with hne | hne | hne
  · exact hne (map_eq_nil_iff.mp hviews.symm)
  · exact hne (map_eq_nil_iff.mp hclicks.symm)
  · exact hne (map_eq_nil_iff.mp hlong.symm)

theorem injected_contentView (hl : (Findings.detect source).Lists fs cs ls) (hany : fs ≠ []
    ∨ cs ≠ [] ∨ ls ≠ [])
    (hroute : Route.of (imported source) = .ok .contentView) :
    injected (.detect source) source = (do
      let w ← dropAnnotations (.detect source) (imported source)
      let placed := generalPlaced (lookupBlock fs) (listenerBlock cs ls) w
      return (innerClasses placed).foldl (innerPlaced fs) placed) := by
  rw [injected_eq ((detect_applies source).trans (mentionsButterKnife_of_any hl hany)),
    hroute, ok_bind, Route.place_contentView hl]
  cases dropAnnotations (.detect source) (imported source) with
  | error e => rfl
  | ok w => exact injectInnerHolders_eq hl _

theorem withCalls_calls {lookups listeners : Text} (hne : lookups ≠ [] ∨ listeners ≠ []) {a e : Nat}
    (ha : HeaderEnds onCreateHeader (withInitialisers lookups listeners w) a)
    (hm : Matched (withInitialisers lookups listeners w) a e) :
    ∃ e', Matched (withCalls lookups listeners w) a e'
      ∧ "initViews();".toList <:+: textBetween (withCalls lookups listeners w) a e'
      ∧ "initListener();".toList <:+: textBetween (withCalls lookups listeners w) a e' := by
  have hsome : ¬ (lookups.isEmpty && listeners.isEmpty) = true := by
    rw [Bool.and_eq_true_iff, List.isEmpty_iff, List.isEmpty_iff]
    exact fun h => hne.elim (fun hl => hl h.1) (fun hl => hl h.2)
  rw [withCalls, if_neg hsome, addInitialiserCalls_of_matched ha hm]
  obtain ⟨hk, hke, hplace⟩ := callSite_place hm
  have hflat := missingCalls_flat
    (occursIn "initViews();" (textBetween (withInitialisers lookups listeners w) a e))
    (occursIn "initListener();" (textBetween (withInitialisers lookups listeners w) a e))
  exact ⟨_, hm.insertAt hk hke hflat.1 hflat.2, calls_after hm hk hke hplace⟩

end

/-- On this route the body of `onCreate` gets the calls of both initialisers once there is anything
to initialise, before it is cleaned and the inner holders are filled.  But `initViews` is declared
in the end only if there are fields or it was declared before, and `initListener` only if there are
listeners or it was declared before; and then they are, unless their declaration is disturbed.  What
is declared is found. -/
theorem call_targets_declared {source out : Text} {fs : List Field} {cs ls : List Listener}
    (hl : (Findings.detect source).Lists fs cs ls) (hany : fs ≠ [] ∨ cs ≠ [] ∨ ls ≠ [])
    (hroute : Route.of (imported source) = .ok .contentView)
    (hout : injected (.detect source) source = .ok out) :
    ∃ w, dropAnnotations (.detect source) (imported source) = .ok w
      ∧ (∃ cleaned, (cleanOnCreate (withCalls (lookupBlock fs) (listenerBlock cs ls) w)).value
        = cleaned ∧ out = (innerClasses cleaned).foldl (innerPlaced fs) cleaned)
      ∧ (∀ a e, HeaderEnds onCreateHeader
        (withInitialisers (lookupBlock fs) (listenerBlock cs ls) w) a →
        Matched (withInitialisers (lookupBlock fs) (listenerBlock cs ls) w) a e →
        ∃ e', Matched (withCalls (lookupBlock fs) (listenerBlock cs ls) w) a e'
          ∧ "initViews();".toList
            <:+: textBetween (withCalls (lookupBlock fs) (listenerBlock cs ls) w) a e'
          ∧ "initListener();".toList
            <:+: textBetween (withCalls (lookupBlock fs) (listenerBlock cs ls) w) a e')
      ∧ (ResourcesOnly ls → Declared "initViews" out → fs ≠ [] ∨ Declared "initViews" w)
      ∧ (Declared "initListener" out → (cs ≠ [] ∨ ls ≠ []) ∨ Declared "initListener" w)
      ∧ (Undisturbed "initViews" (lookupBlock fs) (listenerBlock cs ls) w →
        fs ≠ [] ∨ Declared "initViews" w → Declared "initViews" out)
      ∧ (Undisturbed "initListener" (lookupBlock fs) (listenerBlock cs ls) w →
        (cs ≠ [] ∨ ls ≠ []) ∨ Declared "initListener" w → Declared "initListener" out)
      ∧ ∀ name, Declared name out → hasMethod out name = true := by
  rw [injected_contentView hl hany hroute] at hout
  obtain ⟨w, hw, hplaced⟩ := bind_eq_ok.mp hout
  obtain rfl := Except.ok.inj hplaced
  have hviews : "initViews".toList ∈ initialisers := by simp [initialisers]
  have hlistener : "initListener".toList ∈ initialisers := by simp [initialisers]
  refine ⟨w, hw, ⟨_, rfl, rfl⟩, fun a e ha hm => withCalls_calls ?_ ha hm, fun hls hd => ?_,
    fun hd => ?_, fun h hsome => ?_, fun h hsome => ?_, fun name hd => hd.hasMethod⟩
  · rwa [lookupBlock_ne_nil_iff, listenerBlock_ne_nil_iff]
  · have hnone := not_declared_listenerBlock "initViews" (resourcesOnly_of_lists hl) hls
    rw [← lookupBlock_ne_nil_iff]
    exact declared_of_initViews hnone (declared_of_placed hviews _ hd)
  · have hnone := not_declared_lookupBlock hlistener fs
    rw [← listenerBlock_ne_nil_iff]
    exact declared_of_initListener hnone (declared_of_placed hlistener _ hd)
  · rw [← lookupBlock_ne_nil_iff] at hsome
    exact h.placed _ (h.declared_initViews hsome)
  · rw [← listenerBlock_ne_nil_iff] at hsome
    exact h.placed _ (h.declared_initListener hsome)

/-- an activity with a bound field and an `initListener`, but no listeners -/
def halfDeclared : Text :=
  "class A \x7b\n@BindView(R.id.a) A a;\n"
    ++ "protected void onCreate(B b) \x7b\nsetContentView(x);\n\x7d\n"
    ++ "    public void initListener() \x7b\n    \x7d\n\x7d\n"

/-- the code without the annotation of its field -/
def halfDeclaredBare : Text :=
  "class A \x7b\n\nprotected void onCreate(B b) \x7b\nsetContentView(x);\n\x7d\n"
    ++ "    public void initListener() \x7b\n    \x7d\n\x7d\n"

def halfDeclaredLookup : Text := indented lookupComment ++ "\n        a = findViewById(R.id.a);"

/-- both calls are put in; one target is created, and the other one was there -/
theorem call_targets_declared_halfDeclared :
    ∃ fs out e, (Findings.detect halfDeclared).Lists fs [] [] ∧ fs ≠ []
      ∧ lookupBlock fs = halfDeclaredLookup ∧ Route.of (imported halfDeclared) = .ok .contentView
      ∧ injected (.detect halfDeclared) halfDeclared = .ok out
      ∧ Matched (withCalls halfDeclaredLookup [] halfDeclaredBare) 40 e
      ∧ "initListener();".toList
        <:+: textBetween (withCalls halfDeclaredLookup [] halfDeclaredBare) 40 e
      ∧ Declared "initViews" out ∧ Declared "initListener" out
      ∧ hasMethod out "initViews" = true ∧ hasMethod out "initListener" = true := by
  obtain ⟨fs, cs, ls, hl, -⟩ := detect_lists halfDeclared
  have hfacts : Route.of (imported halfDeclared) = .ok .contentView
      ∧ (generalLookups (.detect halfDeclared)).toOption = some halfDeclaredLookup
      ∧ (generalListeners (.detect halfDeclared)).toOption = some []
      ∧ (dropAnnotations (.detect halfDeclared) (imported halfDeclared)).toOption
        = some halfDeclaredBare := by
    decide +kernel
  obtain ⟨hroute, hlookup, hlistener, hbare⟩ := hfacts
  replace hlookup := Except.ok.inj ((generalLookups_eq hl).symm.trans (eq_ok_of_toOption hlookup))
  replace hlistener := Except.ok.inj
    ((generalListeners_eq hl).symm.trans (eq_ok_of_toOption hlistener))
  replace hbare := eq_ok_of_toOption hbare
  obtain ⟨rfl, rfl⟩ : cs = [] ∧ ls = [] := by
    by_contra hsome
    exact listenerBlock_ne_nil_iff.mpr (not_and_or.mp hsome) hlistener
  have hne : fs ≠ [] := lookupBlock_ne_nil_iff.mp (by rw [hlookup]; decide)
  have hbefore : Declared "initListener" halfDeclaredBare :=
    (declared_initialiserHeader (by simp) (by simp [initialisers])).mono
      (by decide +kernel : initialiserHeader "initListener" "public" <:+: halfDeclaredBare)
  have hplaced : hasMethod halfDeclaredBare "initViews" = false
      ∧ HeaderEnds onCreateHeader (withInitialisers halfDeclaredLookup [] halfDeclaredBare) 40
      ∧ Matched (withInitialisers halfDeclaredLookup [] halfDeclaredBare) 40 61
      ∧ ∀ name ∈ initialisers,
        hasMethod (methodBody "initListener" (withInitViews halfDeclaredLookup halfDeclaredBare))
          name = false
        ∧ hasMethod (onCreateBody (withCalls halfDeclaredLookup [] halfDeclaredBare))
          name = false := by decide +kernel
  obtain ⟨hmissing, hheader, hmatched, hbodies⟩ := hplaced
  have hclosing : '\x7d' ∈ halfDeclaredBare := by decide
  obtain ⟨out, hout⟩ : ∃ out, injected (.detect halfDeclared) halfDeclared = .ok out := by
    rw [injected_contentView hl (.inl hne) hroute, hbare]
    exact ⟨_, rfl⟩
  obtain ⟨w, hw, -, hcalls, -, -, hviews, hlisteners, hfound⟩ :=
    call_targets_declared hl (.inl hne) hroute hout
  obtain rfl : w = halfDeclaredBare := Except.ok.inj (hw.symm.trans hbare)
  rw [hlookup, hlistener] at hcalls hviews hlisteners
  obtain ⟨e, hclosed, -, hcall⟩ := hcalls 40 61 hheader hmatched
  have hone := hviews (undisturbed_of_unfound
    (fun h => absurd (hmissing.symm.trans h) Bool.false_ne_true) hclosing
    (hbodies _ (by simp [initialisers]))) (.inl hne)
  have htwo := hlisteners (undisturbed_of_unfound (fun _ => hbefore) hclosing
    (hbodies _ (by simp [initialisers]))) (.inr hbefore)
  exact ⟨fs, out, e, hl, hne, hlookup, hroute, hout, hclosed, hcall, hone, htwo, hfound _ hone,
    hfound _ htwo⟩

def undeclared : Text :=
  "class A \x7b\n@BindView(R.id.a) A a;\n"
    ++ "protected void onCreate(B b) \x7b\nsetContentView(x);\n\x7d\n\x7d\n"

/-- the call of `initListener` is put in, and nothing declares the method -/
theorem undeclared_initListener_called :
    Route.of (imported undeclared) = .ok .contentView
      ∧ ∃ out, injected (.detect undeclared) undeclared = .ok out
      ∧ ¬ "initListener();".toList <:+: undeclared ∧ "initListener();".toList <:+: onCreateBody out
      ∧ hasMethod out "initListener" = false := by
  have hfacts : Route.of (imported undeclared) = .ok .contentView
      ∧ (injected (.detect undeclared) undeclared).toOption.map (fun out =>
        occursIn "initListener();" (onCreateBody out) && !hasMethod out "initListener")
          = some true := by
    decide +kernel
  obtain ⟨hroute, hcalled⟩ := hfacts
  refine ⟨hroute, ?_⟩
  cases hout : injected (.detect undeclared) undeclared with
  | error e =>
    rw [hout] at hcalled
    cases hcalled
  | ok out =>
    rw [hout] at hcalled
    obtain ⟨hcall, hmissing⟩ := Bool.and_eq_true_iff.mp (Option.some.inj hcalled)
    exact ⟨out, rfl, by decide +kernel, (occursIn_iff _ _).mp hcall, by simpa using hmissing⟩

end Rebind
