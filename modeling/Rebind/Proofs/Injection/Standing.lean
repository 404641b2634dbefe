import Mathlib
import Rebind.Proofs.Edit.Sparing
import Rebind.Proofs.Injection.Additions

/-!
# What an injection does to headers

The blocks that are injected are balanced, so that putting them in leaves every header standing.  A
header can only be lost to what a route takes out:

* `Route.drops`: the annotations that are dropped by their lines;
* `Route.swaps`: the stretches that become other ones: the body of `initListener` or of an
  overridden `initViews`, and the body of `onCreate` where it is cleaned.

A route leaves a header standing that is apart from all of these (`Route.place_stands`).
-/

namespace Rebind

open List Pattern

variable {kind : ClickKind} {ls : List Text} {code listeners lookups w : Text}

/-! ## balanced blocks -/

theorem balanced_enclosed {l y r : Text} (n : Nat) (hl : parens l = (0, n)) (hy : Balanced y)
    (hr : parens r = (n, 0)) : Balanced (l ++ y ++ r) := by
  rw [Balanced, parens, parensFrom_append, parensFrom_append, ← parens, hl, hy.parensFrom,
    parensFrom_eq, hr]
  simp

theorem parens_behind {x l : Text} {p : Nat × Nat} (hx : Balanced x) (hl : parens l = p) :
    parens (x ++ l) = p := by
  rw [parens, parensFrom_append, hx.parensFrom]
  exact hl

section
variable {name id view call : Text}

theorem balanced_applicationId (h : resourceId.Covers id) : Balanced (applicationId id) := by
  obtain ⟨w, hw, he⟩ := applicationId_eq h
  rw [he]
  exact balanced_append (by decide) (balanced_word hw)

theorem balanced_indented {t : Text} (h : Balanced t) : Balanced (indented t) :=
  balanced_append (by decide) h

theorem balanced_viewOf (h : resourceId.Covers id) : Balanced (viewOf id) :=
  balanced_enclosed 1 (by decide) (balanced_applicationId h) (by decide)

theorem balanced_itemViewOf (h : resourceId.Covers id) : Balanced (itemViewOf id) :=
  balanced_enclosed 1 (by decide) (balanced_applicationId h) (by decide)

theorem balanced_afterLast (h : resourceId.Covers id) : Balanced (afterLast '.' id) :=
  balanced_of_not_mem
    (fun hm => not_mem_resource h (by decide) (by decide) (mem_of_mem_afterLast hm))
    (fun hm => not_mem_resource h (by decide) (by decide) (mem_of_mem_afterLast hm))

theorem balanced_viewNameIn (h : resourceId.Covers id) (fs : List Field) :
    Balanced (viewNameIn id fs) := by
  have hdot : id.contains '.' := by
    obtain ⟨two, w, rfl, -, -⟩ := covers_resourceId.mp h
    simp
  unfold viewNameIn
  split
  · next F _ => exact balanced_word F.name_covers
  · rw [viewNameOfId, if_pos hdot]
    exact balanced_append (by decide) (balanced_afterLast h)

theorem balanced_itemViewIn (h : resourceId.Covers id) (fs : List Field) :
    Balanced (itemViewIn id fs) := by
  unfold itemViewIn
  split
  · exact balanced_itemViewOf h
  · exact balanced_viewNameIn h fs

theorem balanced_call (L : Listener) : Balanced L.call := by
  unfold Listener.call plainCall
  refine balanced_append (balanced_word L.method_covers) ?_
  split <;> decide

theorem balanced_castCall (L : Listener) : Balanced L.castCall := by
  unfold Listener.castCall typedCall
  split
  · next hcast =>
    cases hview : L.view with
    | none =>
      rw [hview] at hcast
      cases hcast
    | some v =>
      exact balanced_enclosed 2 (parens_behind (balanced_word L.method_covers) (by decide))
        (balanced_word (L.view_covers v hview)) (by decide)
  · exact balanced_call L

theorem balanced_listenerLine (kind : ClickKind) (hview : Balanced view) (hcall : Balanced call) :
    Balanced (listenerLine kind view call) := by
  have hsetter : Balanced ('.' :: kind.setter) := by cases kind <;> decide
  exact balanced_indented (balanced_enclosed 1
    (parens_behind (balanced_append hview hsetter) (by decide)) hcall (by decide))

end

section
variable {fs : List Field} {cs ls : List Listener} {l : Text}

theorem BlockLine.balanced (h : BlockLine fs resourceId.Covers resourceId.Covers l) :
    Balanced l := by
  have hcomments : ∀ c ∈ [lookupComment, clickComment, longClickComment],
      Balanced (indented c) := by decide +kernel
  cases h with
  | blank => decide
  | comment hc => exact hcomments _ hc
  | lookup F | itemLookup F =>
    refine balanced_indented (balanced_enclosed 1 ?_ (balanced_applicationId F.id_covers) ?_)
    · exact parens_behind (balanced_word F.name_covers) (by decide)
    · decide
  | plain kind L hid => exact balanced_listenerLine kind (balanced_viewOf hid) (balanced_call L)
  | typed kind L hid => exact balanced_listenerLine kind (balanced_viewOf hid) (balanced_castCall L)
  | field L hid => exact balanced_listenerLine _ (balanced_viewNameIn hid fs) (balanced_castCall L)
  | item kind L hid =>
    exact balanced_listenerLine kind (balanced_itemViewIn hid fs) (balanced_castCall L)

theorem IsBlock.balanced {t : Text} (h : IsBlock fs resourceId.Covers resourceId.Covers t) :
    Balanced t := by
  obtain ⟨rows, rfl, hrows⟩ := h
  exact balanced_unlines fun l hl => (hrows l hl).balanced

end

/-! ## bodies of methods -/

/-- one stretch can become the other without a loss of the header -/
def Header.Spares (H : Header) (old new : Text) : Prop := ¬ H.text <:+: old
    ∧ parens old = parens new

instance (H : Header) (old new : Text) : Decidable (H.Spares old new) :=
  inferInstanceAs (Decidable (¬ H.text <:+: old ∧ parens old = parens new))

def bodyBetween (ls : List Text) (start stop : Nat) :
    Text := unlines ((ls.take stop).drop (start + 1))

theorem methodSpanFrom_some {p : Pattern} {i s e : Nat} {start : Option Nat} {count : Int}
    (h : methodSpanFrom p i start count ls = some (s, e))
    (hstart : ∀ k, start = some k → k < i) : s < e ∧ e < i + ls.length := by
  induction ls generalizing i start count with
  | nil => cases h
  | cons l ls ih =>
    have hlater : ∀ start' count', methodSpanFrom p (i + 1) start' count' ls = some (s, e) →
        (∀ k, start' = some k → k < i + 1) → s < e ∧ e < i + (l :: ls).length := by
      intro start' count' h' hstart'
      obtain ⟨hlt, hle⟩ := ih h' hstart'
      rw [length_cons]
      exact ⟨hlt, by omega⟩
    unfold methodSpanFrom at h
    split at h
    · exact hlater _ _ h (fun k hk => by rw [← Option.some.inj hk]; exact Nat.lt_succ_self i)
    · cases start with
      | none => exact hlater _ _ h (fun k hk => by cases hk)
      | some k =>
        simp only at h
        split at h
        · obtain ⟨rfl, rfl⟩ := Prod.mk.inj (Option.some.inj h)
          exact ⟨hstart k rfl, by simp⟩
        · exact hlater _ _ h (fun j hj => (hstart j hj).trans (Nat.lt_succ_self i))

theorem balancedLine_some {start i k : Nat} {count : Int}
    (h : balancedLine start i count ls = some k) : start < k ∧ k < i + ls.length := by
  induction ls generalizing i count with
  | nil => cases h
  | cons l ls ih =>
    rw [balancedLine] at h
    split at h
    · next hc =>
      obtain rfl := Option.some.inj h
      exact ⟨hc.2, by simp⟩
    · obtain ⟨hlt, hle⟩ := ih h
      rw [length_cons]
      exact ⟨hlt, by omega⟩

theorem overrideSpan_some {headers : List Text} {start stop : Nat}
    (h : overrideSpan headers ls = some (start, stop)) : start < stop ∧ stop < ls.length := by
  obtain ⟨i, hi, h⟩ := Option.bind_eq_some_iff.mp h
  obtain ⟨k, hk, he⟩ := Option.map_eq_some_iff.mp h
  obtain ⟨rfl, rfl⟩ := Prod.mk.inj he
  obtain ⟨hlt, hle⟩ := balancedLine_some hk
  obtain ⟨hidx, -⟩ := findIdx?_eq_some_iff_getElem.mp hi
  rw [length_drop] at hle
  exact ⟨hlt, by omega⟩

section
variable {H : Header} {code content : Text} {start stop : Nat}

theorem lines_split (ls : List Text) (hlt : start < stop) :
    ls = ls.take (start + 1) ++ (ls.take stop).drop (start + 1) ++ ls.drop stop := by
  have htake : ls.take (start + 1) = (ls.take stop).take (start + 1) := by
    rw [take_take, Nat.min_eq_left (by omega)]
  rw [htake, take_append_drop, take_append_drop]

theorem Header.Stands.swapBody {new : List Text} (h : H.Stands code) (hlt : start < stop)
    (hle : stop < (lines code).length) (hnew : new ≠ [])
    (hspares : H.Spares (bodyBetween (lines code) start stop) (unlines new)) :
    H.Stands (unlines ((lines code).take (start + 1) ++ new ++ (lines code).drop stop)) := by
  rw [← unlines_lines code, lines_split (lines code) hlt] at h
  refine h.swapLines ?_ ?_ hnew hspares.1 hspares.2
  · rw [← length_pos_iff, length_take]
    omega
  · rw [← length_pos_iff, length_drop]
    omega

theorem Header.Stands.insertLine (h : H.Stands code) (hpos : 0 < stop)
    (hle : stop < (lines code).length) (hcontent : Balanced content) :
    H.Stands (unlines ((lines code).take stop ++ [content] ++ (lines code).drop stop)) := by
  have hsplit : lines code = (lines code).take stop ++ [] ++ (lines code).drop stop := by
    rw [append_nil, take_append_drop]
  rw [← unlines_lines code, hsplit] at h
  refine h.swapLines ?_ ?_ (by simp) (not_infix_nil H) ?_
  · rw [← length_pos_iff, length_take]
    omega
  · rw [← length_pos_iff, length_drop]
    omega
  · rw [show unlines [content] = content by simp [unlines]]
    exact hcontent.symm

theorem Header.Stands.extendBody (h : H.Stands code) (hlt : start < stop)
    (hle : stop < (lines code).length)
    (hbody : ((lines code).take stop).drop (start + 1) ≠ []) (hcontent : Balanced content) :
    H.Stands (unlines ((lines code).take (start + 1)
      ++ [bodyBetween (lines code) start stop ++ content] ++ (lines code).drop stop)) := by
  have hfront : (lines code).take (start + 1) ≠ [] := by
    rw [← length_pos_iff, length_take]
    omega
  have hback : (lines code).drop stop ≠ [] := by
    rw [← length_pos_iff, length_drop]
    omega
  have hcode : code = (unlines ((lines code).take (start + 1)) ++ '\n'
    :: bodyBetween (lines code) start stop)
      ++ '\n' :: unlines ((lines code).drop stop) := by
    conv_lhs => rw [← unlines_lines code, lines_split (lines code) hlt]
    rw [unlines_append (by simp [hfront]) hback, unlines_append hfront hbody]
    rfl
  have hresult : unlines ((lines code).take (start + 1)
      ++ [bodyBetween (lines code) start stop ++ content] ++ (lines code).drop stop)
      = (unlines ((lines code).take (start + 1)) ++ '\n' :: bodyBetween (lines code) start stop)
        ++ content ++ '\n' :: unlines ((lines code).drop stop) := by
    rw [unlines_append (by simp) hback, unlines_append hfront (by simp)]
    simp [unlines]
  rw [hresult]
  rw [hcode] at h
  exact h.insert (.inr (.inr (.inr ⟨'\n', _, rfl, by decide⟩))) hcontent

end

/-! ## what a route takes out -/

/-- the text of a line, nothing if it is unknown -/
def lineText : Slot Text → Text
  | .given l => l
  | _ => []

/-- the patterns of the annotations that are dropped by their lines -/
def annotationLines (f : Findings) : List Pattern :=
  f.bindViews.items.map (fun b => .text (lineText b.line))
    ++ f.clicks.items.map (fun h => .text (lineText h.line))
    ++ f.longClicks.items.map (fun h => lineStartingWith (trim (lineText h.line)))

def eraseAll (ps : List Pattern) (code : Text) : Text := ps.foldl (fun code p => p.erase code) code

/-- what the patterns match in their turn is balanced and apart from the header -/
def Header.SparedByAll (H : Header) : List Pattern → Text → Prop
  | [], _ => True
  | p :: ps, code => (∀ m ∈ p.findAll code, Apart H.text m.text ∧ Balanced m.text)
      ∧ H.SparedByAll ps (p.erase code)

theorem Header.Stands.eraseAll {H : Header} {ps : List Pattern} (h : H.Stands code)
    (hspared : H.SparedByAll ps code) : H.Stands (eraseAll ps code) := by
  induction ps generalizing code with
  | nil => exact h
  | cons p ps ih => exact ih (h.replace hspared.1) hspared.2

theorem replaceFrom_skip (old new done : Text) (n : Nat) (t : Text) :
    replaceFrom old new done n t = replaceFrom old new done 0 (t.drop n) := by
  induction n generalizing t with
  | zero => rfl
  | succ n ih =>
    cases t with
    | nil => rfl
    | cons c t => exact ih t

/-- replacing all occurrences of a text is replacing what its pattern matches -/
theorem replaceAll_eq_replace {old : Text} (hold : old ≠ []) (new t : Text) :
    replaceAll old new t = (Pattern.text old).replace (fun _ => new) t := by
  have hempty : ¬ (Pattern.text old).Covers [] := fun h => hold (show [] = old from h).symm
  have hrep := replaced_replace (p := .text old) rfl hempty new t
  have hfrom : ∀ {t t' : Text}, Replaced (.text old) new t t' →
      ∀ done, replaceFrom old new done 0 t = done.reverse ++ t' := by
    intro t t' h
    induction h with
    | nil => simp [replaceFrom]
    | @keep c t t' hnot _ ih =>
      intro done
      have hprefix : old.isPrefixOf (c :: t) = false := by
        rw [Bool.eq_false_iff, Ne, isPrefixOf_iff_prefix]
        rintro ⟨r, hr⟩
        exact hnot ⟨old, r, hr.symm, rfl⟩
      rw [replaceFrom, hprefix, if_neg (by simp), ih]
      simp
    | @swap s t t' hs _ ih =>
      intro done
      obtain rfl : s = old := hs
      obtain ⟨c, u, rfl⟩ := exists_cons_of_ne_nil hold
      have hprefix : (c :: u).isPrefixOf (c :: (u ++ t)) :=
        isPrefixOf_iff_prefix.mpr ⟨t, rfl⟩
      rw [cons_append, replaceFrom, hprefix, if_pos rfl, replaceFrom_skip, length_cons,
        Nat.add_sub_cancel, drop_left, ih]
      simp
  rw [replaceAll, if_neg (by simpa using hold), hfrom hrep]
  rfl

theorem replaceAll_eq_erase (old t : Text) : replaceAll old [] t = (Pattern.text old).erase t := by
  by_cases hold : old = []
  · -- an empty text is replaced by itself
    have hsame : ((Pattern.text old).replace (fun _ => []) t).filter (fun _ => true)
        = t.filter (fun _ => true) := filter_replace (fun m hm => by
      rw [show m.text = old from (of_mem_findAll hm).covers, hold])
    rw [filter_true, filter_true] at hsame
    rw [replaceAll, if_pos (by simp [hold])]
    exact hsame.symm
  · exact replaceAll_eq_replace hold [] t

theorem foldlM_eq_foldl {α β ε : Type} {f : β → α → Except ε β} {g : β → α → β} {xs : List α}
    (h : ∀ x ∈ xs, ∀ b b', f b x = .ok b' → b' = g b x) {b b' : β} (hf : xs.foldlM f b = .ok b') :
    b' = xs.foldl g b := by
  induction xs generalizing b with
  | nil => exact (Except.ok.inj hf).symm
  | cons x xs ih =>
    obtain ⟨c, hc, hrest⟩ := bind_eq_ok.mp hf
    rw [foldl_cons, ← h x mem_cons_self b c hc]
    exact ih (fun y hy => h y (mem_cons_of_mem _ hy)) hrest

theorem dropLine_eq {line : Slot Text} (h : dropLine line code = .ok w) :
    w = (Pattern.text (lineText line)).erase code := by
  rw [← replaceAll_eq_erase]
  cases line with
  | absent => exact (Except.ok.inj h).symm
  | null => cases h
  | given l => exact (Except.ok.inj h).symm

theorem dropWholeLine_eq {line : Slot Text} (h : dropWholeLine line code = .ok w) :
    w = (lineStartingWith (trim (lineText line))).erase code := by
  cases line with
  | absent => exact (Except.ok.inj h).symm
  | null => cases h
  | given l => exact (Except.ok.inj h).symm

theorem walked_eq_ok {α : Type} {s : Slot (List α)} {xs : List α} (h : s.walked = .ok xs) :
    xs = s.items := by
  cases s with
  | absent => exact (Except.ok.inj h).symm
  | null => cases h
  | given ys => exact (Except.ok.inj h).symm

theorem dropAnnotations_eq {f : Findings} (h : dropAnnotations f code = .ok w) :
    w = eraseAll (annotationLines f) code := by
  obtain ⟨views, hviews, h⟩ := bind_eq_ok.mp h
  obtain ⟨code₁, hcode₁, h⟩ := bind_eq_ok.mp h
  obtain ⟨clicks, hclicks, h⟩ := bind_eq_ok.mp h
  obtain ⟨code₂, hcode₂, h⟩ := bind_eq_ok.mp h
  obtain ⟨longClicks, hlong, hcode₃⟩ := bind_eq_ok.mp h
  have h₁ := foldlM_eq_foldl (fun b _ t t' => dropLine_eq) hcode₁
  have h₂ := foldlM_eq_foldl (fun h _ t t' => dropLine_eq) hcode₂
  have h₃ := foldlM_eq_foldl (fun h _ t t' => dropWholeLine_eq) hcode₃
  rw [h₃, h₂, h₁, walked_eq_ok hviews, walked_eq_ok hclicks, walked_eq_ok hlong, eraseAll,
    annotationLines, foldl_append, foldl_append, foldl_map, foldl_map, foldl_map]

/-- the body of `initListener` that becomes another one -/
def listenerSwap (present : Bool) (listeners code : Text) : List (Text × Text) :=
  if listeners.isEmpty || !present then []
  else
    match methodSpan "initListener" (lines code) with
    | some (start, stop) => [(bodyBetween (lines code) start stop, listeners)]
    | none => []

/-- the body of the overridden `initViews` that becomes another one -/
def viewsSwap (lookups code : Text) : List (Text × Text) :=
  if lookups.isEmpty || !hasInitViews code then []
  else
    match overrideSpan ["protected void initViews() \x7b",
        "public void initViews() \x7b"] (lines code) with
    | some (start, stop) =>
      [(bodyBetween (lines code) start stop, "        super.initViews();\n" ++ lookups)]
    | none => []

/-- the body of `onCreate` that is cleaned -/
def cleanSwap (code : Text) : List (Text × Text) :=
  match onCreateHeader.search code with
  | none => []
  | some m =>
    let body := (code.drop m.stop).take (bodyEnd code m.stop - m.stop)
    let marked := (markLines (lines body)).lines
    if marked.isEmpty then [] else [(body, unlines (unmarkedLines marked (lines body)))]

namespace Route

/-- the patterns of what a route drops -/
def drops (f : Findings) : Route → List Pattern
  | .holder | .contentView => annotationLines f
  | .newBase | .other => []

/-- the stretches that become other ones on a route, once its annotations have been dropped -/
def swaps (f : Findings) : Route → Text → List (Text × Text)
  | .contentView, code =>
    let lookups := (generalLookups f).toOption.getD []
    let listeners := (generalListeners f).toOption.getD []
    listenerSwap (hasMethod code "initListener") listeners (withInitViews lookups code)
      ++ cleanSwap (withCalls lookups listeners code)
  | .newBase, code => viewsSwap (((newBaseBlocks f).toOption.map (·.1)).getD []) code
  | .holder, _ | .other, _ => []

end Route

section
variable {H : Header} {code content : Text}

theorem stands_createOverride {method : Text} (hmethod : Balanced method) (hs : H.Stands code) :
    H.Stands (createOverride method code).value := by
  rcases createOverride_cases method code with he | hins
  · rwa [he]
  · exact hs.inserted hins (balanced_append hmethod (by decide))

theorem stands_createMethod {name visibility : Text} (hname : word.Covers name)
    (hvisibility : word.Covers visibility) (hcontent : Balanced content) (hs : H.Stands code) :
    H.Stands (createMethod code name content visibility).value := by
  rcases createMethod_cases code name content visibility with ⟨he, -⟩ | hins
  · rwa [he]
  · have hheader : Balanced ("\n    " ++ visibility ++ " void " ++ name ++ "() \x7b\n") :=
      balanced_append (balanced_append (balanced_append (balanced_append (by decide)
        (balanced_word hvisibility)) (by decide)) (balanced_word hname)) (by decide)
    refine hs.inserted hins (balanced_append ?_ (by decide))
    exact balanced_append (balanced_append hheader hcontent) (by decide)

theorem stands_withInitViews (hlookups : Balanced lookups) (hs : H.Stands code) :
    H.Stands (withInitViews lookups code) := by
  unfold withInitViews provideMethod
  split
  · exact hs
  · split
    · rw [Traced.value_note_bind]
      unfold updateMethod
      simp only
      split
      · exact hs
      · next start stop hspan =>
        obtain ⟨hlt, hle⟩ := methodSpanFrom_some hspan (fun k hk => by cases hk)
        rw [if_neg (by decide)]
        split
        · exact hs
        · split
          · exact hs
          · exact hs.insertLine (by omega) (by omega) hlookups
    · rw [Traced.value_note_bind]
      exact stands_createMethod (covers_word.mpr ⟨by simp, all_eq_true.mp (by decide)⟩)
        (covers_word.mpr ⟨by simp, all_eq_true.mp (by decide)⟩) hlookups hs

theorem stands_initListener {present : Bool} (hlisteners : Balanced listeners)
    (hspares : ∀ s ∈ listenerSwap present listeners code, H.Spares s.1 s.2) (hs : H.Stands code) :
    H.Stands (provideMethod present "initListener" listeners "public" code).value := by
  unfold provideMethod
  unfold listenerSwap at hspares
  split
  · exact hs
  · next hne =>
    split
    · next hpresent =>
      rw [Traced.value_note_bind]
      unfold updateMethod
      simp only
      rw [if_neg (by simp [hne, hpresent])] at hspares
      split
      · exact hs
      · next start stop hspan =>
        rw [hspan] at hspares
        obtain ⟨hlt, hle⟩ := methodSpanFrom_some hspan (fun k hk => by cases hk)
        rw [if_pos trivial, Traced.value_note_bind, Traced.value_pure]
        refine hs.swapBody hlt (by omega) (lines_ne_nil _) ?_
        rw [unlines_lines]
        exact hspares _ mem_cons_self
    · rw [Traced.value_note_bind]
      exact stands_createMethod (covers_word.mpr ⟨by simp, all_eq_true.mp (by decide)⟩)
        (covers_word.mpr ⟨by simp, all_eq_true.mp (by decide)⟩) hlisteners hs

theorem stands_cleanOnCreate (hspares : ∀ s ∈ cleanSwap code, H.Spares s.1 s.2)
    (hs : H.Stands code) :
    H.Stands (cleanOnCreate code).value := by
  unfold cleanOnCreate
  unfold cleanSwap at hspares
  rw [Traced.value_note_bind]
  cases hm : onCreateHeader.search code with
  | none => exact hs
  | some m =>
    simp only [Traced.value_bind]
    simp only [hm] at hspares
    split
    · rwa [Traced.value_note_bind]
    · next hmarked =>
      rw [if_neg hmarked] at hspares
      obtain ⟨hnot, hparens⟩ := hspares _ mem_cons_self
      rw [Traced.value_note_bind, Traced.value_pure]
      have hcode : code = code.take m.stop ++ (code.drop m.stop).take (bodyEnd code m.stop - m.stop)
          ++ code.drop (bodyEnd code m.stop) := by
        rw [append_assoc, ← drop_eq_body, take_append_drop]
      rw [hcode] at hs
      refine hs.swap (cut_onCreateHeader hm _).edge ?_ hnot hparens
      rcases body_closed code m.stop with hnil | hclosed
      · rw [hnil, append_nil]
        exact (cut_onCreateHeader hm _).edge
      · exact Cut.edge (.inr (.inl hclosed))

theorem stands_withCalls (hs : H.Stands (withInitialisers lookups listeners code)) :
    H.Stands (withCalls lookups listeners code) := by
  unfold withCalls
  split
  · exact hs
  · rcases addInitialiserCalls_cases (withInitialisers lookups listeners code) with he
      | ⟨v, l, hins⟩
    · rwa [he]
    · refine hs.inserted hins ?_
      cases v <;> cases l <;> decide

theorem stands_viewsPlaced (hlookups : Balanced lookups)
    (hspares : ∀ s ∈ viewsSwap lookups code, H.Spares s.1 s.2) (hs : H.Stands code) :
    H.Stands (viewsPlaced lookups code) := by
  unfold viewsPlaced
  unfold viewsSwap at hspares
  split
  · exact hs
  · next hne =>
    split
    · next hpresent =>
      rw [if_neg (by simp [hne, hpresent])] at hspares
      unfold updateInitViews
      simp only
      split
      · exact hs
      · next start stop hspan =>
        rw [hspan] at hspares
        obtain ⟨hlt, hle⟩ := overrideSpan_some hspan
        refine hs.swapBody hlt hle (by simp) ?_
        rw [show ∀ t : Text, unlines [t] = t from fun t => by simp [unlines]]
        exact hspares _ mem_cons_self
    · refine stands_createOverride ?_ hs
      exact balanced_append (balanced_append (by decide) hlookups) (by decide)

theorem stands_listenersPlaced (hlisteners : Balanced listeners) (hs : H.Stands code) :
    H.Stands (listenersPlaced listeners code) := by
  have hcomment : Balanced "\n        \n        // 新增的点击事件监听器\n" := by decide +kernel
  unfold listenersPlaced
  split
  · exact hs
  · split
    · unfold updateInitListener
      simp only
      split
      · exact hs
      · next start stop hspan =>
        obtain ⟨hlt, hle⟩ := overrideSpan_some hspan
        split
        · next hblank =>
          -- a blank body holds no header
          refine hs.swapBody hlt hle (by simp) ?_
          rw [show ∀ t : Text, unlines [t] = t from fun t => by simp [unlines]]
          obtain ⟨hbalanced, hnot⟩ := BindCall.spared_of_blank (H := H)
            (fun c hc => .inl (all_eq_true.mp hblank c hc))
          refine ⟨hnot, hbalanced.trans ?_⟩
          exact (balanced_append (s := ['\n']) (by decide) hlisteners).symm
        · next hblank =>
          have hextended := hs.extendBody hlt hle (fun hnil => hblank (by rw [hnil]; rfl))
            (balanced_append hcomment hlisteners)
          rwa [← append_assoc (bodyBetween (lines code) start stop)] at hextended
    · refine stands_createOverride ?_ hs
      exact balanced_append (balanced_append (by decide) hlisteners) (by decide)

theorem stands_innerHolders (fs : List Field) (cls : List InnerClass) (hs : H.Stands code) :
    H.Stands (cls.foldl (innerPlaced fs) code) := by
  induction cls generalizing code with
  | nil => exact hs
  | cons c cls ih =>
    apply ih
    rcases innerPlaced_cases fs code c with he | ⟨own, -, hins⟩
    · rwa [he]
    · have hblock : Balanced (itemBlock own [] []) :=
        (IsBlock.itemBlock (by simp [ListenTo]) (by simp [ListenTo])).balanced
      exact hs.inserted hins (balanced_append (s := ['\n']) (by decide) hblock)

end

/-- a route leaves a header standing that is apart from all that it takes out -/
theorem Route.place_stands {H : Header} {f : Findings} {fs : List Field} {cs ls : List Listener}
    {placed : Text} {route : Route} (hl : f.Lists fs cs ls) (hcs : ResourcesOnly cs)
    (hls : ResourcesOnly ls) (hdrops : H.SparedByAll (route.drops f) code)
    (hswaps : ∀ s ∈ route.swaps f (eraseAll (route.drops f) code), H.Spares s.1 s.2)
    (h : route.place f code = .ok placed) (hs : H.Stands code) : H.Stands placed := by
  have hcleared := hs.eraseAll hdrops
  cases route with
  | holder =>
    rw [Route.place_holder hl] at h
    obtain ⟨w, hw, he⟩ := bind_eq_ok.mp h
    obtain rfl := dropAnnotations_eq hw
    rw [← Except.ok.inj he]
    rcases injectInHolder_cases (itemBlock fs cs ls) (eraseAll (annotationLines f) code)
      with ⟨he', -⟩ | ⟨-, hins⟩
    · rwa [he']
    · exact hcleared.inserted hins
        (balanced_append (s := ['\n']) (by decide) (IsBlock.itemBlock hcs hls).balanced)
  | contentView =>
    rw [Route.place_contentView hl] at h
    obtain ⟨w, hw, he⟩ := bind_eq_ok.mp h
    obtain rfl := dropAnnotations_eq hw
    rw [← Except.ok.inj he]
    simp only [Route.swaps, generalLookups_eq hl, generalListeners_eq hl, Except.toOption,
      Option.getD_some] at hswaps
    refine stands_cleanOnCreate (fun s hm => hswaps s (mem_append_right _ hm)) (stands_withCalls ?_)
    exact stands_initListener (IsBlock.listenerBlock fs hcs hls).balanced
      (fun s hm => hswaps s (mem_append_left _ hm))
      (stands_withInitViews (IsBlock.lookupBlock fs).balanced hcleared)
  | newBase =>
    rw [Route.place_newBase hl] at h
    rw [← Except.ok.inj h]
    simp only [Route.swaps, newBaseBlocks_eq hl, Except.toOption, Option.map_some,
      Option.getD_some] at hswaps
    exact stands_listenersPlaced (IsBlock.mainListenerBlock hcs hls).balanced
      (stands_viewsPlaced (IsBlock.mainLookupBlock fs).balanced hswaps hs)
  | other =>
    rw [Route.place_other hl] at h
    rw [← Except.ok.inj h]
    have hblock : Balanced (initialisationBlock fs cs ls) :=
      (IsBlock.initialisationBlock hcs hls).balanced
    unfold otherPlaced
    split
    · exact hs
    · rcases injectInOnCreate_cases code (initialisationBlock fs cs ls) with he | hins | hins
      · rwa [he]
      · exact hs.inserted hins
          (balanced_append (balanced_append (s := ['\n']) (by decide) hblock) (by decide))
      · exact hs.inserted hins
          (balanced_append (balanced_append (s := ['\n']) (by decide) hblock) (by decide))

end Rebind
