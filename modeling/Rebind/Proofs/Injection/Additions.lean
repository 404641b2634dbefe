import Mathlib
import Rebind.Proofs.Findings.Quiet
import Rebind.Proofs.Injection.Insertions

/-!
# What an injection adds is quiet

An injection brings no annotation and no bind call into a quiet text, whichever route it takes.

* `Tame`: a text without the first character of an annotation and without the middle of a
  bind call; every row of a block is tame or a comment, hence quiet;
* `quiet_place`: the blocks of a route, each settled and on lines of its own;
* `quiet_innerHolders`: the blocks of inner holders.
-/

namespace Rebind

open List Pattern

variable {kind : ClickKind} {rows : List Text} {content id listeners lookups name : Text}

/-! ## rows -/

def bindJoint : Text := ['e', '.', 'b']

/-- no annotation and no bind call can be in the text -/
structure Tame (t : Text) : Prop where
  at_sign : '@' ∉ t
  joint : ¬ bindJoint <:+: t

section
variable {x : Char} {a b t w : Text}

theorem Tame.quiet (h : Tame t) : Quiet t := by
  intro mark hm
  refine quietFor_of_absent (fun hi => ?_)
  simp only [annotationMarks, mem_cons, not_mem_nil, or_false] at hm
  rcases hm with rfl | rfl | rfl | rfl
  · exact h.at_sign (hi.mem (by decide))
  · exact h.at_sign (hi.mem (by decide))
  · exact h.at_sign (hi.mem (by decide))
  · have hjoint : bindJoint <:+: "ButterKnife.bind" := by decide
    exact h.joint (hjoint.trans hi)

theorem tame_of_not_mem (hat : '@' ∉ t) (hdot : '.' ∉ t) : Tame t :=
  ⟨hat, fun hi => hdot (hi.mem (by decide))⟩

theorem tame_word (h : word.Covers w) : Tame w :=
  tame_of_not_mem (at_not_mem_word h) (fun hm => absurd ((covers_word.mp h).2 '.' hm) (by decide))

theorem Tame.around (hx : x ∉ bindJoint) (hat : x ≠ '@') (ha : Tame a) (hb : Tame b) :
    Tame (a ++ x :: b) where
  at_sign hm := by
    rcases mem_append.mp hm with hm | hm
    · exact ha.at_sign hm
    · rcases mem_cons.mp hm with hm | hm
      · exact hat hm.symm
      · exact hb.at_sign hm
  joint hi := by
    rcases (infix_around_iff hx).mp hi with hi | hi
    · exact ha.joint hi
    · exact hb.joint hi

theorem Tame.skip (hat : '@' ∉ a) (he : 'e' ∉ a) (hb : Tame b) : Tame (a ++ b) where
  at_sign hm := (mem_append.mp hm).elim hat hb.at_sign
  joint hi := hb.joint ((infix_skip he).mp hi)

/-- a dot that is not followed by the name of the call -/
theorem Tame.dot (hx : x ≠ 'b') (ha : Tame a) (hb : Tame (x :: b)) : Tame (a ++ '.' :: x :: b) where
  at_sign hm := by
    rcases mem_append.mp hm with hm | hm
    · exact ha.at_sign hm
    · rcases mem_cons.mp hm with hm | hm
      · exact absurd hm (by decide)
      · exact hb.at_sign hm
  joint hi := by
    rcases infix_append_iff.mp hi with hi | hi | ⟨l, r, hs, hl, hr⟩
    · exact ha.joint hi
    · exact hb.joint ((infix_skip (a := ['.']) (by decide)).mp hi)
    · -- the part behind `a` starts with the dot, and the call's name would follow it
      match r, hr with
      | [], _ =>
        rw [append_nil] at hs
        exact ha.joint (hs ▸ hl.isInfix)
      | [c], hr =>
        have hc : c = '.' := (cons_prefix_cons.mp hr).1
        have := congrArg getLast? hs
        simp [bindJoint, hc] at this
      | c :: d :: r, hr =>
        obtain ⟨hc, hr⟩ := cons_prefix_cons.mp hr
        obtain ⟨hd, -⟩ := cons_prefix_cons.mp hr
        match l, hs with
        | [], hs => simp [bindJoint, hc] at hs
        | [e], hs =>
          simp only [bindJoint, cons_append, nil_append, List.cons.injEq] at hs
          exact hx (hd.symm.trans hs.2.2.1.symm)
        | e :: e' :: l, hs =>
          have := congrArg length hs
          simp [bindJoint] at this
          omega

/-! ## look-ups and listeners -/

theorem tame_applicationId (h : resourceId.Covers id) : Tame (applicationId id) := by
  obtain ⟨w, hw, he⟩ := applicationId_eq h
  rw [he]
  exact (tame_word hw).skip (by decide) (by decide)

theorem Tame.parens {c : Text} (ha : Tame a) (hb : Tame b) (hc : Tame c) :
    Tame (a ++ '(' :: (b ++ ')' :: c)) :=
  ha.around (by decide) (by decide) (hb.around (by decide) (by decide) hc)

theorem tame_indented (h : Tame t) : Tame (indented t) := h.skip (by decide) (by decide)

theorem tame_semicolon : Tame [';'] := tame_of_not_mem (by decide) (by decide)

theorem tame_assigned {call : Text} (hcall : Tame call) (hname : word.Covers name)
    (hid : resourceId.Covers id) :
    Tame (indented (name ++ (' ' :: (call ++ ['('])) ++ applicationId id ++ ");")) := by
  have hclose : ");" = ')' :: [';'] := by decide
  have := tame_indented ((tame_word hname).around (by decide) (by decide)
    (hcall.parens (tame_applicationId hid) tame_semicolon) (x := ' '))
  simpa only [hclose, append_assoc, cons_append, nil_append] using this

theorem tame_lookupLine (hname : word.Covers name) (hid : resourceId.Covers id) :
    Tame (lookupLine name id) := by
  have hopen : " = findViewById(" = ' ' :: ("= findViewById" ++ ['(']) := by decide
  rw [lookupLine, hopen]
  exact tame_assigned (tame_of_not_mem (by decide) (by decide)) hname hid

theorem tame_itemLookupLine (hname : word.Covers name) (hid : resourceId.Covers id) :
    Tame (itemLookupLine name id) := by
  have hopen : " = itemView.findViewById(" = ' ' :: ("= itemView.findViewById" ++ ['(']) := by
    decide
  rw [itemLookupLine, hopen]
  exact tame_assigned ⟨by decide, by decide⟩ hname hid

theorem tame_nil : Tame [] := tame_of_not_mem (by simp) (by simp)

theorem tame_viewOf (h : resourceId.Covers id) : Tame (viewOf id) := by
  have hcall : Tame "findViewById" := tame_of_not_mem (by decide) (by decide)
  have hopen : "findViewById(" = "findViewById" ++ ['('] := by decide
  have hclose : ")" = ')' :: [] := by decide
  have := hcall.parens (tame_applicationId h) tame_nil
  unfold viewOf
  simpa only [hopen, hclose, append_assoc, cons_append, nil_append] using this

theorem tame_itemViewOf (h : resourceId.Covers id) : Tame (itemViewOf id) := by
  have hcall : Tame "itemView.findViewById" := ⟨by decide, by decide⟩
  have hopen : "itemView.findViewById(" = "itemView.findViewById" ++ ['('] := by decide
  have hclose : ")" = ')' :: [] := by decide
  have := hcall.parens (tame_applicationId h) tame_nil
  unfold itemViewOf
  simpa only [hopen, hclose, append_assoc, cons_append, nil_append] using this

theorem tame_viewNameOfId (h : resourceId.Covers id) : Tame (viewNameOfId id) := by
  have hdot : id.contains '.' := by
    obtain ⟨two, w, rfl, -, -⟩ := covers_resourceId.mp h
    simp
  unfold viewNameOfId
  rw [if_pos hdot]
  refine tame_of_not_mem (fun hm => ?_) (fun hm => ?_)
  · rcases mem_append.mp hm with hm | hm
    · exact absurd hm (by decide)
    · exact at_not_mem_resource h (mem_of_mem_afterLast hm)
  · rcases mem_append.mp hm with hm | hm
    · exact absurd hm (by decide)
    · exact not_mem_afterLast _ _ hm

theorem tame_viewNameIn (h : resourceId.Covers id) (fs : List Field) : Tame (viewNameIn id fs) := by
  unfold viewNameIn
  split
  · next F _ => exact tame_word F.name_covers
  · exact tame_viewNameOfId h

theorem tame_itemViewIn (h : resourceId.Covers id) (fs : List Field) : Tame (itemViewIn id fs) := by
  unfold itemViewIn
  split
  · exact tame_itemViewOf h
  · exact tame_viewNameIn h fs

theorem tame_call (L : Listener) : Tame L.call := by
  have hmethod := tame_word L.method_covers
  have hv : Tame "v" := tame_of_not_mem (by decide) (by decide)
  have hwith : "(v)" = '(' :: ("v" ++ ')' :: []) := by decide
  have hwithout : "()" = '(' :: ([] ++ ')' :: []) := by decide
  unfold Listener.call plainCall
  split
  · rw [hwith]
    exact hmethod.parens hv tame_nil
  · rw [hwithout]
    exact hmethod.parens tame_nil tame_nil

theorem tame_castCall (L : Listener) : Tame L.castCall := by
  unfold Listener.castCall typedCall
  split
  · next hcast =>
    cases hview : L.view with
    | none =>
      rw [hview] at hcast
      cases hcast
    | some v =>
      have htype := tame_word (L.view_covers v hview)
      have hv : Tame " v)" := tame_of_not_mem (by decide) (by decide)
      have hopen : "((" = '(' :: ([] ++ ['(']) := by decide
      have hclose : ") v)" = ')' :: " v)" := by decide
      have := (tame_word L.method_covers).around (by decide) (by decide) (tame_nil.parens htype hv)
        (x := '(')
      simpa only [hopen, hclose, Option.getD_some, append_assoc, cons_append,
        nil_append] using this
  · exact tame_call L

theorem tame_listenerLine (kind : ClickKind) {view call : Text} (hview : Tame view)
    (hcall : Tame call) :
    Tame (listenerLine kind view call) := by
  obtain ⟨setter, hset, htame⟩ : ∃ r, kind.setter = 's' :: r ∧ Tame ('s' :: r) := by
    cases kind with
    | click => exact ⟨"etOnClickListener", by decide, tame_of_not_mem (by decide) (by decide)⟩
    | longClick =>
      exact ⟨"etOnLongClickListener", by decide, tame_of_not_mem (by decide) (by decide)⟩
  have harrow : Tame ("v -> " ++ (call ++ ')' :: [';'])) :=
    (hcall.around (by decide) (by decide) tame_semicolon).skip (by decide) (by decide)
  have hopen : "(v -> " = '(' :: "v -> " := by decide
  have hclose : ");" = ')' :: [';'] := by decide
  have hrest : Tame ('s' :: (setter ++ '(' :: ("v -> " ++ (call ++ ')' :: [';'])))) :=
    htame.around (by decide) (by decide) harrow
  have := tame_indented (hview.dot (by decide) hrest)
  unfold listenerLine
  simpa only [hset, hopen, hclose, append_assoc, cons_append, nil_append] using this

end

/-! ## blocks -/

section
variable {fs : List Field} {cs ls : List Listener} {l : Text}

theorem BlockLine.quiet (h : BlockLine fs resourceId.Covers resourceId.Covers l) : Quiet l := by
  have hcomments : ∀ c ∈ [lookupComment, clickComment, longClickComment], Quiet (indented c) := by
    decide +kernel
  cases h with
  | blank => exact tame_nil.quiet
  | comment hc => exact hcomments _ hc
  | lookup F => exact (tame_lookupLine F.name_covers F.id_covers).quiet
  | itemLookup F => exact (tame_itemLookupLine F.name_covers F.id_covers).quiet
  | plain kind L hid => exact (tame_listenerLine kind (tame_viewOf hid) (tame_call L)).quiet
  | typed kind L hid => exact (tame_listenerLine kind (tame_viewOf hid) (tame_castCall L)).quiet
  | field L hid => exact (tame_listenerLine _ (tame_viewNameIn hid fs) (tame_castCall L)).quiet
  | item kind L hid =>
    exact (tame_listenerLine kind (tame_itemViewIn hid fs) (tame_castCall L)).quiet

theorem IsBlock.quiet {t : Text} (h : IsBlock fs resourceId.Covers resourceId.Covers t) :
    Quiet t := by
  obtain ⟨rows, rfl, hrows⟩ := h
  exact quiet_unlines_iff.mpr fun l hl => (hrows l hl).quiet

def EndsBlank (rows : List Text) : Prop := rows = [] ∨ ∃ r, r ≠ [] ∧ rows = r ++ [[]]

theorem EndsBlank.append {a b : List Text} (ha : EndsBlank a) (hb : EndsBlank b) :
    EndsBlank (a ++ b) := by
  rcases hb with rfl | ⟨r, hr, rfl⟩
  · rwa [append_nil]
  · exact .inr ⟨a ++ r, by simp [hr], by rw [append_assoc]⟩

theorem endsBlank_headed {α : Type} {comment : Text} {entries : List α}
    (h : entries ≠ [] → ∃ r, rows = r ++ [[]]) : EndsBlank (headed comment entries rows) := by
  unfold headed
  split
  · exact .inl rfl
  · next hne =>
    obtain ⟨r, rfl⟩ := h (by simpa using hne)
    exact .inr ⟨indented comment :: r, by simp, rfl⟩

theorem itemRows_blank (hls : ls ≠ []) : ∃ r, itemRows kind fs ls = r ++ [[]] := by
  obtain ⟨front, L, rfl⟩ := eq_nil_or_concat ls |>.resolve_left hls
  refine ⟨itemRows kind fs front
    ++ L.ids.map (fun id => listenerLine kind (itemViewIn id fs) L.castCall), ?_⟩
  simp [itemRows]

theorem settled_itemBlock (hcs : ResourcesOnly cs) (hls : ResourcesOnly ls) :
    Settled (itemBlock fs cs ls) := by
  unfold itemBlock
  generalize hrows : headed lookupComment fs (itemLookupRows fs ++ [[]])
    ++ headed clickComment cs (itemRows .click fs cs)
    ++ headed longClickComment ls (itemRows .longClick fs ls) = rows
  have hlines : BlockRows fs resourceId.Covers resourceId.Covers rows := by
    rw [← hrows]
    exact .append (.append (.headed (by simp) fs (.blank_behind (.itemLookupRows fs)))
      (.headed (by simp) cs (.itemRows .click hcs)))
        (.headed (by simp) ls (.itemRows .longClick hls))
  have hblank : EndsBlank rows := by
    rw [← hrows]
    exact ((endsBlank_headed (fun _ => ⟨_, rfl⟩)).append (endsBlank_headed itemRows_blank)).append
      (endsBlank_headed itemRows_blank)
  rcases hblank with rfl | ⟨r, hr, rfl⟩
  · exact settled_of_not_mem (by decide) (by decide)
  · rw [unlines_append hr (by simp)]
    exact settled_of_quiet (quiet_unlines_iff.mpr
      (fun l hl => (hlines l (mem_append_left _ hl)).quiet)) (by simp [unlines]) (by simp [unlines])

end

/-! ## holders and other classes -/

section
variable {code block : Text}

theorem quiet_injectInHolder (hblock : Settled block) (h : Quiet code) :
    Quiet (injectInHolder block code) := by
  rcases injectInHolder_cases block code with ⟨he, -⟩ | ⟨-, hins⟩
  · rwa [he]
  · exact hins.quiet hblock h

theorem quiet_otherPlaced (hblock : Quiet block) (h : Quiet code) :
    Quiet (otherPlaced block code) := by
  have hbreak : "\n    " = '\n' :: "    " := by decide
  unfold otherPlaced
  split
  · exact h
  · rcases injectInOnCreate_cases code block with he | hins | hins
    · rwa [he]
    · exact hins.quiet (settled_of_quiet hblock (by simp) (by simp)) h
    · rw [hbreak] at hins
      exact hins.quiet (settled_of_quiet hblock (by decide) (by decide)) h

theorem quiet_innerHolders (fs : List Field) (cls : List InnerClass) (h : Quiet code) :
    Quiet (cls.foldl (innerPlaced fs) code) := by
  induction cls generalizing code with
  | nil => exact h
  | cons c cls ih =>
    apply ih
    rcases innerPlaced_cases fs code c with he | ⟨own, -, hins⟩
    · rwa [he]
    · exact hins.quiet (settled_itemBlock (by simp [ResourcesOnly]) (by simp [ResourcesOnly])) h

/-! ## initialisers -/

theorem quiet_lines_between {new : List Text} {i j : Nat} (h : Quiet code)
    (hnew : ∀ l ∈ new, Quiet l) :
    Quiet (unlines ((lines code).take i ++ new ++ (lines code).drop j)) := by
  have hlines := quiet_iff_lines.mp h
  refine quiet_unlines_iff.mpr (forall_mem_append.mpr ⟨forall_mem_append.mpr ⟨fun l hl => ?_, hnew⟩,
    fun l hl => ?_⟩)
  · exact hlines l (mem_of_mem_take hl)
  · exact hlines l (mem_of_mem_drop hl)

theorem quiet_newMethod {header t' : Text} (hheader : Quiet header) (hcontent : Quiet content)
    (hins : Inserted ('\n' :: (header ++ '\n' :: content) ++ "\n    \x7d\n") code t')
    (h : Quiet code) : Quiet t' := by
  have hend : "\n    \x7d\n" = '\n' :: "    \x7d\n" := by decide
  rw [hend] at hins
  refine hins.quiet (settled_of_quiet ?_ (by decide) (by decide)) h
  exact (quiet_around (by decide)).mpr ⟨hheader, hcontent⟩

theorem quiet_createOverride {header : Text} (hheader : Quiet header) (hcontent : Quiet content)
    (h : Quiet code) :
    Quiet (createOverride ('\n' :: (header ++ '\n' :: content) ++ "\n    \x7d") code).value := by
  have hend : "\n    \x7d\n" = "\n    \x7d" ++ ['\n'] := by decide
  rcases createOverride_cases ('\n' :: (header ++ '\n' :: content) ++ "\n    \x7d")
    code with he | hins
  · rwa [he]
  · refine quiet_newMethod hheader hcontent ?_ h
    rw [hend, ← append_assoc]
    exact hins

theorem quiet_createInitViews (hcontent : Quiet content) (h : Quiet code) :
    Quiet (createInitViews code content).value := by
  have hheader : Quiet ("    @Override\n    protected void initViews() \x7b\n"
      ++ "        super.initViews();") := by decide +kernel
  have htext : "\n    @Override\n    protected void initViews() \x7b\n        super.initViews();\n"
      = '\n' :: ("    @Override\n    protected void initViews() \x7b\n"
        ++ "        super.initViews();" ++ ['\n']) := by decide
  have := quiet_createOverride hheader hcontent h
  unfold createInitViews
  simpa only [htext, append_assoc, cons_append, nil_append] using this

theorem quiet_createInitListener (hcontent : Quiet content) (h : Quiet code) :
    Quiet (createInitListener code content).value := by
  have hheader : Quiet "    @Override\n    public void initListener() \x7b" := by decide +kernel
  have htext : "\n    @Override\n    public void initListener() \x7b\n"
      = '\n' :: ("    @Override\n    public void initListener() \x7b" ++ ['\n']) := by decide
  have := quiet_createOverride hheader hcontent h
  unfold createInitListener
  simpa only [htext, append_assoc, cons_append, nil_append] using this

theorem quiet_updateInitViews (hcontent : Quiet content) (h : Quiet code) :
    Quiet (updateInitViews code content) := by
  have hcall : Quiet "        super.initViews();" := by decide +kernel
  have htext : "        super.initViews();\n"
      = "        super.initViews();" ++ ['\n'] := by decide
  unfold updateInitViews
  simp only
  split
  · exact h
  · refine quiet_lines_between h (fun l hl => ?_)
    rw [mem_singleton.mp hl, htext, append_assoc, singleton_append,
      quiet_around (by decide)]
    exact ⟨hcall, hcontent⟩

theorem quiet_updateInitListener (hcontent : Quiet content) (h : Quiet code) :
    Quiet (updateInitListener code content) := by
  have hcomment : Quiet "        \n        // 新增的点击事件监听器" := by decide +kernel
  have htext : "\n        \n        // 新增的点击事件监听器\n"
      = '\n' :: ("        \n        // 新增的点击事件监听器" ++ ['\n']) := by decide
  have hbreak : Quiet ('\n' :: content) := by
    have : Quiet ([] ++ '\n' :: content) := (quiet_around (by decide)).mpr ⟨quiet_nil, hcontent⟩
    simpa using this
  unfold updateInitListener
  simp only
  split
  · exact h
  · next start stop _ =>
    refine quiet_lines_between h (fun l hl => ?_)
    rw [mem_singleton.mp hl]
    split
    · exact hbreak
    · -- the body that is there, and the new listeners under a comment
      have hbody : Quiet (unlines (((lines code).take stop).drop (start + 1))) :=
        quiet_unlines_iff.mpr (fun l hl =>
          quiet_iff_lines.mp h l (mem_of_mem_take (mem_of_mem_drop hl)))
      rw [htext, append_assoc, cons_append, quiet_around (by decide), append_assoc,
        singleton_append, quiet_around (by decide)]
      exact ⟨hbody, hcomment, hcontent⟩

theorem quiet_viewsPlaced (hlookups : Quiet lookups) (h : Quiet code) :
    Quiet (viewsPlaced lookups code) := by
  unfold viewsPlaced
  split_ifs
  · exact h
  · exact quiet_updateInitViews hlookups h
  · exact quiet_createInitViews hlookups h

theorem quiet_listenersPlaced (hlisteners : Quiet listeners) (h : Quiet code) :
    Quiet (listenersPlaced listeners code) := by
  unfold listenersPlaced
  split_ifs
  · exact h
  · exact quiet_updateInitListener hlisteners h
  · exact quiet_createInitListener hlisteners h

/-! ## classes with a content view -/

theorem quiet_updateMethod (name : Text) (hcontent : Quiet content) (h : Quiet code) :
    Quiet (updateMethod code name content).value := by
  unfold updateMethod
  simp only
  split
  · exact h
  · split_ifs
    · exact quiet_lines_between h (quiet_iff_lines.mp hcontent)
    · exact h
    · exact h
    · exact quiet_lines_between h (fun l hl => by rwa [mem_singleton.mp hl])

theorem quiet_createMethod {visibility : Text}
    (hheader : Quiet ("    " ++ visibility ++ " void " ++ name ++ "() \x7b"))
    (hcontent : Quiet content) (h : Quiet code) :
    Quiet (createMethod code name content visibility).value := by
  have hstart : "\n    " = '\n' :: "    " := by decide
  have hopen : "() \x7b\n" = "() \x7b" ++ ['\n'] := by decide
  have hend : "\n    \x7d\n" = "\n    \x7d" ++ ['\n'] := by decide
  rcases createMethod_cases code name content visibility with ⟨he, -⟩ | hins
  · rwa [he]
  · refine quiet_newMethod hheader hcontent ?_ h
    unfold methodText at hins
    rw [hend]
    simpa only [hstart, hopen, append_assoc, cons_append, nil_append] using hins

theorem quiet_provideMethod {present : Bool} {visibility : Text}
    (hheader : Quiet ("    " ++ visibility ++ " void " ++ name ++ "() \x7b"))
    (hcontent : Quiet content) (h : Quiet code) :
    Quiet (provideMethod present name content visibility code).value := by
  unfold provideMethod
  split_ifs
  · exact h
  · rw [Traced.value_note_bind]
    exact quiet_updateMethod name hcontent h
  · rw [Traced.value_note_bind]
    exact quiet_createMethod hheader hcontent h

theorem quiet_withInitialisers (hlookups : Quiet lookups)
    (hlisteners : Quiet listeners) (h : Quiet code) :
    Quiet (withInitialisers lookups listeners code) :=
  quiet_provideMethod (by decide +kernel) hlisteners
    (quiet_provideMethod (by decide +kernel) hlookups h)

theorem missingCalls_cases (hasViews hasListener : Bool) : missingCalls hasViews hasListener = []
    ∨ ∃ s, missingCalls hasViews hasListener = '\n' :: s ∧ Settled s := by
  have hviews : "\n        initViews();" = '\n' :: "        initViews();" := by decide
  have hlistener : "\n        initListener();" = '\n' :: "        initListener();" := by
    decide
  unfold missingCalls
  cases hasViews <;> cases hasListener
  · refine .inr ⟨"        initViews();" ++ "\n        initListener();", ?_,
      settled_of_not_mem (by decide) (by decide)⟩
    rw [if_neg (by simp), if_neg (by simp), hviews, cons_append]
  · refine .inr ⟨"        initViews();", ?_, settled_of_not_mem (by decide) (by decide)⟩
    rw [if_neg (by simp), if_pos rfl, hviews, append_nil]
  · refine .inr ⟨"        initListener();", ?_, settled_of_not_mem (by decide) (by decide)⟩
    rw [if_pos rfl, if_neg (by simp), hlistener, nil_append]
  · exact .inl rfl

theorem quiet_withCalls (hlookups : Quiet lookups)
    (hlisteners : Quiet listeners) (h : Quiet code) : Quiet (withCalls lookups listeners code) := by
  have hboth := quiet_withInitialisers hlookups hlisteners h
  unfold withCalls
  split
  · exact hboth
  · rcases addInitialiserCalls_cases (withInitialisers lookups listeners code) with he
      | ⟨v, l, hins⟩
    · rwa [he]
    · rcases missingCalls_cases v l with hnone | ⟨s, hs, hsettled⟩
      · obtain ⟨pre, post, ht, ht', -⟩ := hins
        rwa [ht', hnone, append_nil, ← ht]
      · rw [hs] at hins
        exact hins.quiet hsettled hboth

theorem quiet_unmarkedLines {marked : List Nat} {ls : List Text} (h : ∀ l ∈ ls, Quiet l) :
    ∀ l ∈ unmarkedLines marked ls, Quiet l := by
  intro l hl
  obtain ⟨e, he, rfl⟩ := mem_map.mp hl
  exact h _ (fst_mem_of_mem_zipIdx (mem_of_mem_filter he))

theorem unlines_unmarkedLines_nil (marked : List Nat) :
    unlines (unmarkedLines marked [[]]) = [] := by
  by_cases h : 0 ∈ marked <;> simp [unmarkedLines, unlines, h]

theorem quiet_cleanOnCreate (h : Quiet code) : Quiet (cleanOnCreate code).value := by
  unfold cleanOnCreate
  rw [Traced.value_note_bind]
  cases hm : onCreateHeader.search code with
  | none => exact h
  | some m =>
    simp only [Traced.value_bind]
    split
    · rwa [Traced.value_note_bind]
    rw [Traced.value_note_bind, Traced.value_pure]
    generalize (markLines _).lines = marked
    rw [← take_append_drop m.stop code, (cut_onCreateHeader hm _).quiet_iff] at h
    rw [append_assoc, (cut_onCreateHeader hm _).quiet_iff]
    refine ⟨h.1, ?_⟩
    have hrest := h.2
    rw [drop_eq_body] at hrest
    rcases body_closed code m.stop with hnil | hclosed
    · rw [hnil, nil_append] at hrest
      rw [hnil, lines_nil, unlines_unmarkedLines_nil, nil_append]
      exact hrest
    · rw [Cut.quiet_iff (.inr (.inl hclosed))] at hrest ⊢
      exact ⟨quiet_unlines_iff.mpr (quiet_unmarkedLines (quiet_iff_lines.mp hrest.1)), hrest.2⟩

end

/-! ## whole routes -/

/-- the code is quiet by the time the blocks of the route are placed -/
def Bare (f : Findings) (code : Text) : Route → Prop
  | .holder => ∀ w, dropAnnotations f code = .ok w → Quiet w
  | .contentView => ∀ w, dropAnnotations f code = .ok w → Quiet w
  | .newBase => Quiet code
  | .other => Quiet code

/-- the blocks of a route keep the code quiet -/
theorem quiet_place {f : Findings} {fs : List Field} {cs ls : List Listener} {code placed : Text}
    {route : Route} (hl : f.Lists fs cs ls) (hcs : ResourcesOnly cs) (hls : ResourcesOnly ls)
    (hbare : Bare f code route) (h : route.place f code = .ok placed) : Quiet placed := by
  cases route with
  | holder =>
    rw [Route.place_holder hl] at h
    obtain ⟨w, hw, he⟩ := bind_eq_ok.mp h
    rw [← Except.ok.inj he]
    exact quiet_injectInHolder (settled_itemBlock hcs hls) (hbare w hw)
  | contentView =>
    rw [Route.place_contentView hl] at h
    obtain ⟨w, hw, he⟩ := bind_eq_ok.mp h
    rw [← Except.ok.inj he]
    exact quiet_cleanOnCreate (quiet_withCalls (IsBlock.lookupBlock fs).quiet
      (IsBlock.listenerBlock fs hcs hls).quiet (hbare w hw))
  | newBase =>
    rw [Route.place_newBase hl] at h
    rw [← Except.ok.inj h]
    exact quiet_listenersPlaced (IsBlock.mainListenerBlock hcs hls).quiet
      (quiet_viewsPlaced (IsBlock.mainLookupBlock fs).quiet hbare)
  | other =>
    rw [Route.place_other hl] at h
    rw [← Except.ok.inj h]
    exact quiet_otherPlaced (IsBlock.initialisationBlock hcs hls).quiet hbare

end Rebind
