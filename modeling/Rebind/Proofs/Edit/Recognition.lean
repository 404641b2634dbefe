import Mathlib
import Rebind.Proofs.Edit.Places
import Rebind.Proofs.Edit.Sites

/-!
# Listeners and how they are recognised

Click listeners are offered to three sites, and each site is passed over once a listener is
recognised in the code. What is looked for is the setter of a listener with the name of the method
behind it on the same line.  The block that is put in spreads a listener over several lines, with
the setter on the first and the method on the fourth, so that it is not recognised, and the sites
that have a place for it all take it:

* `recognises_iff`: a listener is recognised by what stands on one line;
* `recognises_block_iff`: the block by names that stand in the text of the setter itself;
* `putAll_once_iff`: a text that several places take is not put in once;
* `listeners_placed_once_iff` when one copy of the block is put in at most, and what comes out
  otherwise.
-/

namespace Rebind

open List Pattern

/-! ## several places -/

/-- the texts put in one after the other, each at its place if it has one -/
def putAll : List (Option Nat × Text) → Text → Text
  | [], code => code
  | (place, s) :: xs, code => putAll xs (putAt place s code)

section
variable {texts : List Text} {xs : List (Option Nat × Text)} {s code out : Text} {low : Nat}

theorem putOnce_putAt (hs : s ∈ texts) (place : Option Nat) (code : Text) :
    PutOnce texts code (putAt place s code) := by
  cases place with
  | none => exact .inl rfl
  | some k => exact putOnce_insertAt hs k code

theorem PutOnce.length_le {n : Nat} (h : PutOnce texts code out) (hn : ∀ s ∈ texts, s.length ≤ n) :
    out.length ≤ code.length + n := by
  rcases h with rfl | ⟨s, hs, k, -, rfl⟩
  · omega
  · have := hn s hs
    rw [length_insertAt]
    omega

theorem putAll_of_no_place (h : xs.countP (·.1.isSome) = 0) : putAll xs code = code := by
  induction xs with
  | nil => rfl
  | cons x xs ih =>
    obtain ⟨place, s⟩ := x
    rw [countP_cons] at h
    cases place with
    | none => exact ih (by omega)
    | some k => simp at h

theorem putOnce_putAll (hxs : ∀ x ∈ xs, x.2 ∈ texts) (h : xs.countP (·.1.isSome) ≤ 1) :
    PutOnce texts code (putAll xs code) := by
  induction xs with
  | nil => exact .inl rfl
  | cons x xs ih =>
    obtain ⟨place, s⟩ := x
    rw [countP_cons] at h
    cases place with
    | none => exact ih (fun x hx => hxs x (mem_cons_of_mem _ hx)) (by omega)
    | some k =>
      -- the place is the only one, so that nothing is put in behind it
      have hrest : xs.countP (·.1.isSome) = 0 := by simpa using h
      rw [putAll, putAll_of_no_place hrest]
      exact putOnce_putAt (hxs _ mem_cons_self) _ code

theorem le_length_putAll (hlow : ∀ x ∈ xs, low ≤ x.2.length) (code : Text) :
    code.length + xs.countP (·.1.isSome) * low ≤ (putAll xs code).length := by
  induction xs generalizing code with
  | nil => simp [putAll]
  | cons x xs ih =>
    obtain ⟨place, s⟩ := x
    have hs := hlow _ mem_cons_self
    have hrest := ih (fun x hx => hlow x (mem_cons_of_mem _ hx)) (putAt place s code)
    rw [countP_cons, putAll]
    cases place with
    | none =>
      have hsame : putAt none s code = code := rfl
      rw [hsame] at hrest ⊢
      simpa using hrest
    | some k =>
      have hlen : (putAt (some k) s code).length = code.length + s.length :=
        length_insertAt k s code
      rw [hlen] at hrest
      simp only [Option.isSome_some, if_true, Nat.add_mul, Nat.one_mul]
      simp only at hs
      omega

/-- texts of much the same length that two places take are not put in once -/
theorem putAll_once_iff (hlow : ∀ x ∈ xs, low ≤ x.2.length) (hhigh : ∀ x ∈ xs, x.2.length < 2 * low)
    (code : Text) : PutOnce (xs.map (·.2)) code (putAll xs code) ↔ xs.countP (·.1.isSome) ≤ 1 := by
  refine ⟨fun h => ?_, putOnce_putAll fun x hx => mem_map_of_mem hx⟩
  by_contra htwo
  have hlong := le_length_putAll hlow code
  have hshort := h.length_le (n := 2 * low - 1) (by
    intro s hs
    obtain ⟨x, hx, rfl⟩ := mem_map.mp hs
    have := hhigh x hx
    omega)
  have hpos : 0 < low := by
    by_contra hzero
    have hnone : xs = [] := eq_nil_iff_forall_not_mem.mpr fun x hx => by
      have := hhigh x hx
      omega
    exact htwo (by simp [hnone])
  have htwice : 2 * low ≤ xs.countP (·.1.isSome) * low := Nat.mul_le_mul_right low (by omega)
  omega

end

theorem infix_behind {x : Char} {key rest a b : Text} (hx : x ∉ key) (ha : ¬ key <:+: a) :
    key ++ rest <:+: a ++ x :: b ↔ key ++ rest <:+: b := by
  have hne : key ≠ [] := fun h => ha (h ▸ nil_infix)
  obtain ⟨c, key, rfl⟩ := exists_cons_of_ne_nil hne
  have hc : c ≠ x := fun h => hx (h ▸ mem_cons_self)
  constructor
  · intro h
    rcases infix_append_iff.mp h with hin | hin | ⟨l, r, hlr, hl, hr⟩
    · exact absurd ((prefix_append _ rest).isInfix.trans hin) ha
    · rcases infix_cons_iff.mp hin with hp | hin
      · exact absurd (cons_prefix_cons.mp hp).1 hc
      · exact hin
    · -- the text would reach over `x`
      rcases append_eq_append_iff.mp hlr with ⟨d, rfl, -⟩ | ⟨d, hd, rfl⟩
      · exact absurd ((prefix_append _ d).isInfix.trans hl.isInfix) ha
      · cases d with
        | nil => exact absurd (by rw [hd, append_nil]; exact hl.isInfix) ha
        | cons y d =>
          have hy : y = x := (cons_prefix_cons.mp hr).1
          exact absurd (by rw [hd, hy]; simp) hx
  · exact fun h => infix_append_of_infix_right (infix_cons h)

/-- the text is a name that the handler was found with: its method or a resource -/
def Handler.Names (h : Handler) (t : Text) : Prop := h.method = .given t
    ∨ ∃ ids, h.ids = .given ids ∧ t ∈ ids

namespace ClickListener

/-! ## what is looked for -/

def setter : Text := "setOnClickListener".toList

def setterEnd : Text := "(new View.OnClickListener() \x7b"

def recognises (cs : List Listener) (t : Text) :
    Bool := cs.any (fun L => (registered L.method).found t)

theorem isRegistered_listeners (code : Text) (cs : List Listener) :
    isRegistered code (cs.map Listener.handler) = .ok (recognises cs code) := by
  induction cs with
  | nil => rfl
  | cons L cs ih =>
    show (if (registered L.method).found code then .ok true else isRegistered code
      (cs.map Listener.handler)) = _
    rw [ih]
    simp only [recognises, any_cons]
    cases (registered L.method).found code <;> rfl

theorem found_registered_iff {method t : Text} :
    (registered method).found t ↔ ∃ u, '\n' ∉ u ∧ setter ++ (u ++ method) <:+: t := by
  constructor
  · intro h
    obtain ⟨m, hm⟩ := Option.isSome_iff_exists.mp h
    have hof := search_some hm
    obtain ⟨_, _, htext, rfl, u, _, rfl, hu, rfl⟩ := hof.covers
    refine ⟨u, fun hmem => ?_, ?_⟩
    · simpa using hu _ hmem
    · have hin := hof.isInfix
      rwa [htext] at hin
  · rintro ⟨u, hu, hin⟩
    refine found_of_infix rfl ?_ hin
    refine ⟨_, _, rfl, rfl, u, method, rfl, fun c hc => ?_, rfl⟩
    rw [bne_iff_ne]
    rintro rfl
    exact hu hc

section
variable {cs : List Listener} {code block s t : Text}

/-- a listener is recognised by its setter and its method on one line -/
theorem recognises_iff :
    recognises cs t ↔ ∃ L ∈ cs, ∃ u, '\n' ∉ u ∧ setter ++ (u ++ L.method) <:+: t := by
  simp only [recognises, any_eq_true, found_registered_iff]

theorem recognises_insertAt {k : Nat}
    (h : recognises cs (insertAt k (onViewCreatedSite.wrap block) code)) :
    recognises cs code = true ∨ recognises cs block := by
  obtain ⟨L, hL, u, hu, hin⟩ := recognises_iff.mp h
  have hline : '\n' ∉ setter ++ (u ++ L.method) :=
    not_mem_append (by decide) (not_mem_append hu (avoids_run1 (by decide) _ L.method_covers))
  have hrows : insertAt k (onViewCreatedSite.wrap block) code
      = code.take k ++ '\n' :: (block ++ '\n' :: ("    " ++ code.drop k)) := by
    have hwrap : onViewCreatedSite.wrap block = '\n' :: (block ++ '\n' :: "    ") := rfl
    rw [insertAt, hwrap]
    simp only [append_assoc, cons_append]
  rw [hrows, infix_around_iff hline, infix_around_iff hline] at hin
  rcases hin with hin | hin | hin
  · exact .inl (recognises_iff.mpr ⟨L, hL, u, hu, hin.trans (List.take_prefix k code).isInfix⟩)
  · exact .inr (recognises_iff.mpr ⟨L, hL, u, hu, hin⟩)
  · have hhead : setter = 's' :: "etOnClickListener" := by decide
    have hdrop : setter ++ (u ++ L.method) <:+: code.drop k := by
      rw [hhead, cons_append] at hin ⊢
      exact (infix_skip (by decide)).mp hin
    exact .inl (recognises_iff.mpr ⟨L, hL, u, hu, hdrop.trans (drop_suffix k code).isInfix⟩)

theorem recognises_insertInOnViewCreated (hcode : recognises cs code = false)
    (hblock : recognises cs block = false) :
    recognises cs (insertInOnViewCreated code block) = false := by
  rw [show insertInOnViewCreated code block = putAt (insertionPoint onViewCreatedOverride code)
    (onViewCreatedSite.wrap block) code from insertInOnViewCreated_eq code block]
  cases insertionPoint onViewCreatedOverride code with
  | none => exact hcode
  | some k =>
    by_contra h
    rcases recognises_insertAt (Bool.eq_true_of_not_eq_false h) with h | h
    · rw [hcode] at h
      cases h
    · rw [hblock] at h
      cases h

end

/-! ## the block -/

def blockOf (cs : List Listener) :
    Text := unlines (cs.flatMap fun L => L.ids.flatMap (listener L.method))

theorem row_mem_block {cs : List Listener} {L : Listener} {id row : Text} (hL : L ∈ cs)
    (hid : id ∈ L.ids) (hrow : row ∈ listener L.method id) : row <:+: blockOf cs :=
  infix_unlines_of_mem (mem_flatMap.mpr ⟨L, hL, mem_flatMap.mpr ⟨id, hid, hrow⟩⟩)

theorem setter_call : ".setOnClickListener(new View.OnClickListener() \x7b" = '.'
    :: (setter ++ setterEnd) := by
  decide

theorem setter_row (method id : Text) :
    "        " ++ viewName id ++ '.' :: (setter ++ setterEnd) ∈ listener method id := by
  rw [← setter_call]
  exact mem_cons_self

/-- in the rows of a listener the setter is where it is written, if the names do not hold it -/
theorem infix_listener_iff {method id rest : Text} (hmethod : ¬ setter <:+: method)
    (hid : ¬ setter <:+: id) :
    (∃ row ∈ listener method id, setter ++ rest <:+: row) ↔ rest <+: setterEnd := by
  have hhead : setter = 's' :: "etOnClickListener" := by decide
  have hskip : ∀ {a b : Text}, 's' ∉ a → setter <:+: a ++ b → setter <:+: b := by
    intro a b ha h
    rw [hhead] at h ⊢
    exact (infix_skip ha).mp h
  constructor
  · rintro ⟨row, hmem, hin⟩
    have hkey : setter <:+: row := (prefix_append _ rest).isInfix.trans hin
    have hlit : ∀ w : String, occursIn setter w.toList = false → ¬ setter <:+: w.toList :=
      fun w hw => (occursIn_eq_false_iff _ _).mp hw
    simp only [listener, mem_cons, not_mem_nil, or_false] at hmem
    rcases hmem with rfl | rfl | rfl | rfl | rfl | rfl | rfl
    · have hbefore : ¬ setter <:+: "        " ++ viewName id := by
        intro h
        have hlast : afterLast '.' id <:+: id := by
          rw [afterLast, ← reverse_infix, reverse_reverse]
          exact (List.takeWhile_prefix _).isInfix
        exact hid ((hskip (by decide) (hskip (by decide) h)).trans hlast)
      rw [setter_call, infix_behind (by decide) hbefore, hhead, cons_append, cons_append,
        infix_cons_iff] at hin
      rcases hin with hp | hin
      · exact (prefix_append_right_inj _).mp (cons_prefix_cons.mp hp).2
      · have hnone : occursIn setter ("etOnClickListener" ++ setterEnd) = false := by decide +kernel
        rw [← cons_append, ← hhead] at hin
        exact absurd ((prefix_append _ rest).isInfix.trans hin)
          ((occursIn_eq_false_iff _ _).mp hnone)
    · exact absurd hkey (hlit _ (by decide +kernel))
    · exact absurd hkey (hlit _ (by decide +kernel))
    · have hcall : "(v);" = '(' :: "v);" := by decide
      rw [append_assoc] at hkey
      have hskipped := hskip (by decide) hkey
      rw [hcall, infix_around_iff (by decide)] at hskipped
      exact absurd hskipped (not_or.mpr ⟨hmethod, hlit _ (by decide +kernel)⟩)
    · exact absurd hkey (hlit _ (by decide +kernel))
    · exact absurd hkey (hlit _ (by decide +kernel))
    · exact absurd hkey (by decide)
  · rintro ⟨back, hback⟩
    refine ⟨_, setter_row method id, "        " ++ viewName id ++ ['.'], back, ?_⟩
    rw [← hback]
    simp only [append_assoc, cons_append, nil_append]

section
variable {cs : List Listener}

/-- the block is recognised by methods that are named like a part of the line with the setter, and
by no others -/
theorem recognises_block_iff (hplain : ∀ L ∈ cs, ¬ setter <:+: L.method
    ∧ ∀ id ∈ L.ids, ¬ setter <:+: id)
    (hids : ∃ L ∈ cs, L.ids ≠ []) : recognises cs (blockOf cs)
      ↔ ∃ L ∈ cs, L.method <:+: setterEnd := by
  rw [recognises_iff]
  constructor
  · rintro ⟨L, hL, u, hu, hin⟩
    have hline : '\n' ∉ setter ++ (u ++ L.method) :=
      not_mem_append (by decide) (not_mem_append hu (avoids_run1 (by decide) _ L.method_covers))
    obtain ⟨row, hrow, hin⟩ :=
      (infix_unlines_iff hline (append_ne_nil_of_left_ne_nil (by decide) _)).mp hin
    obtain ⟨L', hL', hrow⟩ := mem_flatMap.mp hrow
    obtain ⟨id, hid, hrow⟩ := mem_flatMap.mp hrow
    obtain ⟨hmethod, hres⟩ := hplain L' hL'
    obtain ⟨back, hback⟩ := (infix_listener_iff hmethod (hres id hid)).mp ⟨row, hrow, hin⟩
    exact ⟨L, hL, u, back, hback⟩
  · rintro ⟨L, hL, u, back, hback⟩
    obtain ⟨L', hL', hne⟩ := hids
    obtain ⟨id, hid⟩ := exists_mem_of_ne_nil _ hne
    obtain ⟨hmethod, hres⟩ := hplain L' hL'
    have hu : '\n' ∉ u := by
      intro hmem
      have hend : '\n' ∉ setterEnd := by decide
      rw [← hback] at hend
      exact hend (mem_append_left _ (mem_append_left _ hmem))
    have hprefix : u ++ L.method <+: setterEnd := ⟨back, hback⟩
    obtain ⟨row, hrow, hin⟩ := (infix_listener_iff hmethod (hres id hid)).mpr hprefix
    exact ⟨L, hL, u, hu, hin.trans (row_mem_block hL' hid hrow)⟩

end

/-! ## the sites -/

def wrappings (block : Text) : List Text :=
  [onCreateSite.wrap block, onViewCreatedSite.wrap block, privateMethod "initListener" block]

/-- the places for the block, each in the code that the sites before it leave -/
def places (block code : Text) : List (Option Nat) :=
  [insertionPoint onCreateOverride code,
    insertionPoint onViewCreatedOverride (insertInOnCreate code block),
    publicClassEnd (insertInOnViewCreated (insertInOnCreate code block) block)]

def everywhere (block code : Text) : Text :=
  addMethodAfterClass "initListener"
    (insertInOnViewCreated (insertInOnCreate code block) block) block

def laterSites (block : Text) : List (Text → Text) :=
  [(insertInOnViewCreated · block), (addMethodAfterClass "initListener" · block)]

def sites (block : Text) : List (Text → Text) := (insertInOnCreate · block) :: laterSites block

section
variable {block code : Text}

theorem everywhere_eq (block code : Text) :
    everywhere block code = putAll ((places block code).zip (wrappings block)) code := by
  have hcreate := insertInOnCreate_eq code block
  have hview := insertInOnViewCreated_eq (insertInOnCreate code block) block
  rw [everywhere, addMethodAfterClass_eq]
  simp only [places, wrappings, zip_cons_cons, zip_nil_left, putAll]
  rw [show putAt (insertionPoint onCreateOverride code) (onCreateSite.wrap block) code
    = insertInOnCreate code block from hcreate.symm]
  rw [show putAt (insertionPoint onViewCreatedOverride (insertInOnCreate code block))
    (onViewCreatedSite.wrap block)
    (insertInOnCreate code block) = insertInOnViewCreated (insertInOnCreate code block)
      block from hview.symm]

theorem everywhere_once_iff (hlong : 30 < block.length) :
    PutOnce (wrappings block) code (everywhere block code)
      ↔ (places block code).countP Option.isSome ≤ 1 := by
  have hcreate : (onCreateSite.wrap block).length = block.length + 14 := by
    simp [BodySite.wrap, onCreateSite]
  have hview : (onViewCreatedSite.wrap block).length = block.length + 6 := by
    simp [BodySite.wrap, onViewCreatedSite]
  have hmethod : (privateMethod "initListener" block).length = block.length + 42 := by
    have hparts : ∀ x y z back : Text, (x ++ y ++ z ++ block ++ back).length
        = block.length + (x.length + y.length + z.length + back.length) := by
      intro x y z back
      simp only [length_append]
      omega
    exact hparts "\n    private void " "initListener" "() \x7b\n" "\n    \x7d\n"
  have hlengths : ∀ x ∈ (places block code).zip (wrappings block),
      block.length + 6 ≤ x.2.length ∧ x.2.length < 2 * (block.length + 6) := by
    intro x hx
    have hmem : x.2 ∈ wrappings block := (of_mem_zip hx).2
    simp only [wrappings, mem_cons, not_mem_nil, or_false] at hmem
    rcases hmem with h | h | h
    · rw [h, hcreate]
      omega
    · rw [h, hview]
      omega
    · rw [h, hmethod]
      omega
  have honce := putAll_once_iff (fun x hx => (hlengths x hx).1) (fun x hx => (hlengths x hx).2) code
  rw [← everywhere_eq] at honce
  exact honce

theorem putOnce_site {site : Text → Text} (h : site ∈ sites block) (code : Text) :
    PutOnce (wrappings block) code (site code) := by
  simp only [sites, laterSites, mem_cons, not_mem_nil, or_false] at h
  rcases h with rfl | rfl | rfl
  · show PutOnce _ code (insertInOnCreate code block)
    rw [insertInOnCreate_eq]
    exact putOnce_putAt mem_cons_self _ code
  · show PutOnce _ code (insertInOnViewCreated code block)
    rw [insertInOnViewCreated_eq]
    exact putOnce_putAt (mem_cons_of_mem _ mem_cons_self) _ code
  · show PutOnce _ code (addMethodAfterClass "initListener" code block)
    rw [addMethodAfterClass_eq]
    exact putOnce_putAt (mem_cons_of_mem _ (mem_cons_of_mem _ mem_cons_self)) _ code

theorem infix_of_mem_wrappings {s : Text} (h : s ∈ wrappings block) : block <:+: s := by
  simp only [wrappings, mem_cons, not_mem_nil, or_false] at h
  rcases h with rfl | rfl | rfl
  · exact ⟨_, _, rfl⟩
  · exact ⟨_, _, rfl⟩
  · exact ⟨_, _, rfl⟩

variable {cs : List Listener}

theorem addListeners_eq (hne : cs ≠ []) (code : Text) :
    addListeners code (cs.map Listener.handler)
      = .ok (inTurn (recognises cs) (laterSites (blockOf cs))
        (insertInOnCreate code (blockOf cs))) := by
  unfold addListeners
  rw [if_neg (by simpa using hne), listenerBlock_listeners, ok_bind]
  simp only [isRegistered_listeners, ok_bind, laterSites, inTurn, pure_eq_ok]
  exact (apply_ite Except.ok _ _ _).symm

theorem settles_site (hblock : recognises cs block) {site : Text → Text} (h : site ∈ sites block) :
    Settles (recognises cs) site := by
  obtain ⟨L, hL, u, hu, hinner⟩ := recognises_iff.mp hblock
  refine settles_of_putOnce (fun _ hs _ hin => recognises_iff.mpr ⟨L, hL, u, hu, ?_⟩)
    (putOnce_site h)
  exact hinner.trans ((infix_of_mem_wrappings hs).trans hin)

theorem inTurn_once (hblock : recognises cs block) (code : Text) :
    PutOnce (wrappings block) code
      (inTurn (recognises cs) (laterSites block) (insertInOnCreate code block)) := by
  have hfirst : Settles (recognises cs) (insertInOnCreate · block) :=
    settles_site hblock mem_cons_self
  have hsites := inTurn_first_cases hfirst
    (fun site hsite => settles_site hblock (mem_cons_of_mem _ hsite)) code
  rcases mem_cons.mp hsites with he | hmem
  · exact .inl he
  · obtain ⟨site, hsite, he⟩ := mem_map.mp (show _ ∈ (sites block).map (· code) from hmem)
    rw [← he]
    exact putOnce_site hsite code

theorem inTurn_everywhere (hblock : recognises cs block = false)
    (hcode : recognises cs (insertInOnCreate code block) = false) :
    inTurn (recognises cs) (laterSites block) (insertInOnCreate code block)
      = everywhere block code := by
  have hview := recognises_insertInOnViewCreated hcode hblock
  simp only [laterSites, inTurn, hcode, hview, Bool.false_eq_true, if_false, everywhere]

theorem inTurn_once_iff (hlong : 30 < block.length) :
    PutOnce (wrappings block) code
      (inTurn (recognises cs) (laterSites block) (insertInOnCreate code block))
      ↔ recognises cs block ∨ recognises cs (insertInOnCreate code block)
        ∨ (places block code).countP Option.isSome ≤ 1 := by
  cases hblock : recognises cs block with
  | true => simp [inTurn_once hblock]
  | false =>
    cases hcode : recognises cs (insertInOnCreate code block) with
    | true =>
      have hfirst : (insertInOnCreate · block) ∈ sites block := mem_cons_self
      simp [inTurn_of_recognised hcode, putOnce_site hfirst code]
    | false => simp [inTurn_everywhere hblock hcode, everywhere_once_iff hlong]

theorem lt_length_blockOf (hids : ∃ L ∈ cs, L.ids ≠ []) : 30 < (blockOf cs).length := by
  obtain ⟨L, hL, hne⟩ := hids
  obtain ⟨id, hid⟩ := exists_mem_of_ne_nil _ hne
  have hrow := (row_mem_block hL hid (setter_row L.method id)).length_le
  have hcall : ('.' :: (setter ++ setterEnd)).length = 48 := by decide
  rw [length_append, hcall] at hrow
  omega

end

/-- When the listeners of handlers that were found are put into the code once or not at all: the
block is recognised, by itself or at the first site, or no two sites have a place for it.  Otherwise
every site with a place takes it. -/
theorem listeners_placed_once_iff (source code : Text) {hs : List Handler}
    (hclicks : (Findings.detect source).clicks = .given hs)
    (hids : ∃ h ∈ hs, ∃ id ids, h.ids = .given (id :: ids)) : ∃ block out,
    listenerBlock hs = .ok block ∧ addListeners code hs = .ok out
      ∧ (PutOnce (wrappings block) code out ↔ isRegistered block hs = .ok true
        ∨ isRegistered (insertInOnCreate code block) hs = .ok true
        ∨ (places block code).countP Option.isSome ≤ 1)
      ∧ (isRegistered block hs = .ok false → isRegistered (insertInOnCreate code block) hs
        = .ok false → out = everywhere block code)
      ∧ ((∀ h ∈ hs, ∀ t, h.Names t → ¬ setter <:+: t) →
        (isRegistered block hs = .ok true ↔ ∃ h ∈ hs, ∃ t, h.method = .given t
          ∧ t <:+: setterEnd)) := by
  obtain ⟨fs, cs, ls, hl, -⟩ := detect_lists source
  obtain rfl : hs = cs.map Listener.handler := Slot.given.inj (hclicks.symm.trans hl.clicks)
  have hsome : ∃ L ∈ cs, L.ids ≠ [] := by
    obtain ⟨_, hmem, id, ids, h⟩ := hids
    obtain ⟨L, hL, rfl⟩ := mem_map.mp hmem
    exact ⟨L, hL, by rw [Slot.given.inj h]; simp⟩
  have hne : cs ≠ [] := fun h => by simp [h] at hsome
  refine ⟨blockOf cs, _, listenerBlock_listeners cs, addListeners_eq hne code, ?_, ?_, ?_⟩
  · simp only [isRegistered_listeners, Except.ok.injEq]
    exact inTurn_once_iff (lt_length_blockOf hsome)
  · simp only [isRegistered_listeners, Except.ok.injEq]
    exact inTurn_everywhere
  · intro hplain
    have hnames : ∀ L ∈ cs, ¬ setter <:+: L.method ∧ ∀ id ∈ L.ids, ¬ setter <:+: id := fun L hL =>
      ⟨hplain _ (mem_map_of_mem hL) _ (.inl rfl),
        fun id hid => hplain _ (mem_map_of_mem hL) _ (.inr ⟨_, rfl, hid⟩)⟩
    rw [isRegistered_listeners, Except.ok.injEq, recognises_block_iff hnames hsome]
    constructor
    · rintro ⟨L, hL, hin⟩
      exact ⟨_, mem_map_of_mem hL, _, rfl, hin⟩
    · rintro ⟨_, hmem, t, ht, hin⟩
      obtain ⟨L, hL, rfl⟩ := mem_map.mp hmem
      exact ⟨L, hL, by rwa [Slot.given.inj ht]⟩

def threeSites : Text := "public " ++ twoSites

def oneClick (method : Text) : Text := "@OnClick(R.id.a)\nvoid " ++ method ++ "(View v) \x7b\x7d"

theorem detect_clicks_given (source : Text) :
    (Findings.detect source).clicks = .given (Findings.detect source).clicks.items := by
  obtain ⟨fs, cs, ls, hl, -⟩ := detect_lists source
  rw [hl.clicks]
  rfl

/-- a method that is named like a part of the line with the setter is recognised, and its listener
put in once -/
theorem listeners_placed_once_of_click : ∃ hs block out, (Findings.detect (oneClick "Click")).clicks
    = .given hs
    ∧ (∃ h ∈ hs, ∃ id ids, h.ids = .given (id :: ids))
      ∧ (∀ h ∈ hs, ∀ t, h.Names t → ¬ setter <:+: t)
    ∧ listenerBlock hs = .ok block ∧ addListeners threeSites hs = .ok out
    ∧ isRegistered block hs = .ok true ∧ PutOnce (wrappings block) threeSites out := by
  have hfound : (Findings.detect (oneClick "Click")).clicks.items.map (fun h => (h.ids, h.method))
      = [(.given ["R.id.a"], .given "Click")] := by decide +kernel
  have hclicks := detect_clicks_given (oneClick "Click")
  generalize (Findings.detect (oneClick "Click")).clicks.items = hs at hfound hclicks
  obtain ⟨h, rfl, hh⟩ := map_eq_singleton_iff.mp hfound
  obtain ⟨hresources, hmethod⟩ := Prod.mk.inj hh
  have hids : ∃ h' ∈ [h], ∃ id ids, h'.ids = .given (id :: ids) :=
    ⟨h, mem_cons_self, _, _, hresources⟩
  have hplain : ∀ h' ∈ [h], ∀ t, h'.Names t → ¬ setter <:+: t := by
    intro h' hmem t ht
    obtain rfl := mem_singleton.mp hmem
    rw [← occursIn_eq_false_iff]
    rcases ht with ht | ⟨ids, hgiven, ht⟩
    · obtain rfl := Slot.given.inj (hmethod.symm.trans ht)
      decide +kernel
    · obtain rfl := Slot.given.inj (hresources.symm.trans hgiven)
      obtain rfl := mem_singleton.mp ht
      decide +kernel
  obtain ⟨block, out, hblock, hout, honce, -, hknown⟩ :=
    listeners_placed_once_iff (oneClick "Click") threeSites hclicks hids
  have hpart : "Click" <:+: setterEnd := (occursIn_iff _ _).mp (by decide +kernel)
  have hrecognised := (hknown hplain).mpr ⟨h, mem_cons_self, _, hmethod, hpart⟩
  exact ⟨[h], block, out, hclicks, hids, hplain, hblock, hout, hrecognised,
    honce.mpr (.inl hrecognised)⟩

/-- the listener of another method is put in at all three sites -/
theorem listener_placed_thrice : ∃ hs block out, (Findings.detect (oneClick "m")).clicks = .given hs
    ∧ (∃ h ∈ hs, ∃ id ids, h.ids = .given (id :: ids))
    ∧ listenerBlock hs = .ok block ∧ addListeners threeSites hs = .ok out
    ∧ ¬ block <:+: threeSites ∧ ¬ PutOnce (wrappings block) threeSites out
    ∧ out
      = "public class A \x7b\n@Override\nprotected void onCreate(B b) \x7b\n\x7b\n\n        ".toList
        ++ block
      ++ "\n    \x7d\n\x7d\n@Override\npublic void onViewCreated(V v) \x7b\n\x7b\n\n".toList
        ++ block
      ++ "\n    \x7d\n\x7d\n\x7d\n\n    private void initListener() \x7b\n".toList ++ block
        ++ "\n    \x7d\n".toList := by
  have hfound : (Findings.detect (oneClick "m")).clicks.items.map Handler.ids
      = [.given ["R.id.a"]] := by
    decide +kernel
  have hplaced : listenerBlock (Findings.detect (oneClick "m")).clicks.items
    = .ok (unlines (listener "m" "R.id.a"))
      ∧ addListeners threeSites (Findings.detect (oneClick "m")).clicks.items
        = .ok ("public class A \x7b\n@Override\nprotected void onCreate(B b) \x7b\n\x7b\n\n        "
          ++ unlines (listener "m" "R.id.a")
          ++ "\n    \x7d\n\x7d\n@Override\npublic void onViewCreated(V v) \x7b\n\x7b\n\n"
          ++ unlines (listener "m" "R.id.a")
          ++ "\n    \x7d\n\x7d\n\x7d\n\n    private void initListener() \x7b\n"
          ++ unlines (listener "m" "R.id.a") ++ "\n    \x7d\n") := by
    decide +kernel
  have hsmall : ∀ s ∈ wrappings (unlines (listener "m" "R.id.a")), s.length ≤ 260 := by
    decide +kernel
  have hnew : occursIn (unlines (listener "m" "R.id.a")) threeSites = false := by decide +kernel
  obtain ⟨h, hmem, hids⟩ := mem_map.mp (hfound ▸ mem_cons_self)
  refine ⟨_, _, _, detect_clicks_given _, ⟨h, hmem, _, _, hids⟩, hplaced.1, hplaced.2,
    (occursIn_eq_false_iff _ _).mp hnew, fun honce => ?_, rfl⟩
  have hlen := honce.length_le hsmall
  revert hlen
  decide +kernel

end ClickListener

end Rebind
