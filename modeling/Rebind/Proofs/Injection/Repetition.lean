import Mathlib
import Rebind.Proofs.Injection.Additions
import Rebind.Proofs.Injection.Bindings
import Rebind.Proofs.Injection.Extension
import Rebind.Proofs.Pattern.Locality
import Rebind.Proofs.Source.Counting
import Rebind.Proofs.Source.Scanning

/-!
# Injecting twice

A block that goes into `onCreate` is not put there again if its statements stand before the place
where it would go.  Whether they do after a first injection depends on that place (`site`): the
scanner takes the first block that ends behind the header for the whole body, so with a block inside
the body the new statements stand behind the place, and they come once more.

* `nestsBlock`: a block is opened before the end that is found for `onCreate`;
* `otherPlaced_again_iff`: the second time nothing happens iff no block is nested, or nothing
  happened the first time either;
* `HoldersBehind`: the inner holders stand behind the end of `onCreate`, so that their look-ups
  leave it alone (`otherPlaced_holders_iff`).
-/

namespace Rebind

open List Pattern

variable {fs : List Field} {cls : List InnerClass} {k : Nat} {code : Text}

/-! ## where the block goes -/

theorem heading_onCreateMethod : onCreateMethod.Heading := by
  refine heading_seq [blanks, lit "@Override", blanks, .maybe (lit "\n"), blanks,
    keyword "protected", keyword "void", lit "onCreate", blanks] (fun p hp => ?_)
  have hblanks : blanks.Avoids ')' := avoids_run (by decide)
  simp only [mem_cons, not_mem_nil, or_false] at hp
  rcases hp with rfl | rfl | rfl | rfl | rfl | rfl | rfl | rfl | rfl
  · exact ⟨rfl, hblanks⟩
  · exact ⟨rfl, avoids_text (by decide)⟩
  · exact ⟨rfl, hblanks⟩
  · exact ⟨rfl, avoids_maybe (avoids_text (by decide))⟩
  · exact ⟨rfl, hblanks⟩
  · exact ⟨rfl, avoids_keyword (by decide) (by decide)⟩
  · exact ⟨rfl, avoids_keyword (by decide) (by decide)⟩
  · exact ⟨rfl, avoids_text (by decide)⟩
  · exact ⟨rfl, hblanks⟩

def bodyFrom (code : Text) (start : Nat) : Text := maskQuotes (code.drop start)

theorem onCreateEnd_eq {start : Nat} (hs : start ≤ code.length) :
    (onCreateEnd code start).toNat = match blockEnd (bodyFrom code start) with
      | some i => start + i
      | none => code.length := by
  have hclamp : clampIndex code.length start = start := by
    rw [clampIndex, if_neg (by omega)]
    omega
  rw [onCreateEnd, sliceFrom, hclamp, bodyFrom]
  cases blockEnd (maskQuotes (code.drop start)) with
  | none => simp
  | some i =>
    show ((start : Int) + (i : Int)).toNat = start + i
    omega

/-- the offset at which a block goes into `onCreate`, if there is one behind the header -/
def site (code : Text) : Option Nat :=
  (onCreateMethod.search code).bind (fun m =>
    if m.stop < (onCreateEnd code m.stop).toNat then some (onCreateEnd code m.stop).toNat else none)

def wrapped (block : Text) : Text := '\n' :: block ++ "\n    "

def contentViewCall : Pattern := seq [lit "setContentView", blanks, lit "("]

theorem contentViewStatement_absent (h : contentViewCall.found code = false) (k : Nat) :
    contentViewStatement.searchFrom k none (code.drop k) = none := by
  cases hs : contentViewStatement.searchFrom k none (code.drop k) with
  | none => rfl
  | some m =>
    exfalso
    have hof := searchFrom_some hs
    obtain ⟨_, _, hm, rfl, b, _, rfl, hb, _, r, rfl, ⟨_, q, rfl, rfl, -⟩, -⟩ := hof.covers
    have htext : "setContentView".toList ++ (b ++ "(".toList) <:+: m.text :=
      ⟨[], q ++ r, by rw [hm]; simp⟩
    have hfound : contentViewCall.found code :=
      found_of_infix rfl ⟨_, _, rfl, rfl, b, _, rfl, hb, rfl⟩
        ((htext.trans hof.isInfix).trans (drop_suffix k code).isInfix)
    rw [hfound] at h
    cases h

theorem contentViewCall_of_route (h : Route.of code = .ok .other) :
    contentViewCall.found code = false := by
  unfold Route.of at h
  split at h
  · cases h
  · split at h
    · cases h
    · next hc =>
      simp only [setsContentView, Bool.or_eq_true, not_or, Bool.not_eq_true] at hc
      exact hc.1.1

theorem otherPlaced_eq (h : contentViewCall.found code = false) (block : Text) :
    otherPlaced block code = match site code with
      | some e => if isInjected (code.take e) block then code else insertAt e (wrapped block) code
      | none => code := by
  unfold otherPlaced site
  by_cases hblock : block.isEmpty
  · have hin : ∀ t, isInjected t block := fun t => by rw [isInjected, hblock, Bool.true_or]
    rw [if_pos hblock]
    split
    · rw [if_pos (hin _)]
    · rfl
  · rw [if_neg hblock, injectInOnCreate]
    simp only [Traced.value_note_bind]
    cases onCreateMethod.search code with
    | none => rfl
    | some m =>
      simp only [Traced.value_note_bind, contentViewStatement_absent h, Option.bind_some]
      by_cases hlt : m.stop < (onCreateEnd code m.stop).toNat
      · simp only [if_pos hlt]
        by_cases hin : isInjected (code.take (onCreateEnd code m.stop).toNat) block = true
        · simp only [if_pos hin, Traced.value_note_bind, Traced.value_pure]
        · simp only [if_neg hin, Traced.value_note_bind, Traced.value_pure]
          rfl
      · simp only [if_neg hlt, Traced.value_pure]

theorem insertAt_wrapped_ne (e : Nat) (block code : Text) :
    insertAt e (wrapped block) code ≠ code := by
  intro he
  have hlen := congrArg length he
  rw [insertAt, length_append, length_append, wrapped, length_append, length_cons]
    at hlen
  have hsplit : (code.take e).length + (code.drop e).length = code.length := by
    rw [← length_append, take_append_drop]
  omega

theorem otherPlaced_eq_self_iff (h : contentViewCall.found code = false) (block : Text) :
    otherPlaced block code = code ↔ ∀ e ∈ site code, isInjected (code.take e) block := by
  rw [otherPlaced_eq h]
  cases site code with
  | none => simp
  | some e =>
    by_cases hin : isInjected (code.take e) block = true
    · simp [hin]
    · simp [hin, insertAt_wrapped_ne]

theorem isInjected_of_infix {block : Text} (h : block <:+: code) : isInjected code block := by
  rw [isInjected, Bool.or_eq_true]
  right
  rw [all_eq_true]
  intro l hl
  obtain ⟨hmem, -⟩ := mem_filter.mp hl
  obtain ⟨l', hl', rfl⟩ := mem_map.mp hmem
  rw [occursIn_iff]
  exact ((trim_isInfix l').trans (infix_of_mem_lines hl')).trans h

/-! ## the site after an injection -/

/-- a block is opened between the header of `onCreate` and the end that is found for it -/
def nestsBlock (code : Text) : Bool :=
  match onCreateMethod.search code with
  | none => false
  | some m =>
    match blockEnd (bodyFrom code m.stop) with
    | none => false
    | some i => ((bodyFrom code m.stop).take i).contains '\x7b'

section
variable {code block : Text} {m : Match}

theorem search_stop_le (hm : onCreateMethod.search code = some m) : m.stop ≤ code.length :=
  (search_some hm).stop_le

theorem bodyFrom_append {x y : Text} {start : Nat} (h : start ≤ x.length) :
    bodyFrom (x ++ y) start
      = maskQuotes (x.drop start) ++ maskQuotesFrom [] (Zone.over .code (x.drop start)) y := by
  rw [bodyFrom, drop_append_of_le_length h]
  exact maskQuotesFrom_append .code _ _

theorem length_bodyFrom (code : Text) (start : Nat) :
    (bodyFrom code start).length = code.length - start := by
  rw [bodyFrom, maskQuotes, length_maskQuotesFrom, length_drop]

theorem site_of_some (hm : onCreateMethod.search code = some m) {i : Nat}
    (hi : blockEnd (bodyFrom code m.stop) = some i) :
    site code = if 0 < i then some (m.stop + i) else none := by
  rw [site, hm, Option.bind_some, onCreateEnd_eq (search_stop_le hm), hi]
  simp

theorem site_of_none (hm : onCreateMethod.search code = some m)
    (hi : blockEnd (bodyFrom code m.stop) = none) :
    site code = if m.stop < code.length then some code.length else none := by
  rw [site, hm, Option.bind_some, onCreateEnd_eq (search_stop_le hm), hi]

theorem bodyFrom_take {e : Nat} (hs : m.stop ≤ e) (he : e ≤ code.length) (y : Text) :
    bodyFrom (code.take e ++ y) m.stop = (bodyFrom code m.stop).take (e - m.stop)
      ++ maskQuotesFrom [] (Zone.over .code ((code.take e).drop m.stop)) y := by
  have hx : m.stop ≤ (code.take e).length := by rw [length_take]; omega
  have hsplit : bodyFrom code m.stop = maskQuotes ((code.take e).drop m.stop)
      ++ maskQuotesFrom [] (Zone.over .code ((code.take e).drop m.stop)) (code.drop e) := by
    rw [← bodyFrom_append hx, take_append_drop]
  have hlen : (maskQuotes ((code.take e).drop m.stop)).length = e - m.stop := by
    rw [maskQuotes, length_maskQuotesFrom, length_drop, length_take]
    omega
  rw [bodyFrom_append hx, hsplit, ← hlen, take_left]

/-- with nothing nested, the end moves behind a plain text that is put in before it -/
theorem blockEnd_insert_flat {i : Nat} (hopen : '\x7b' ∉ (bodyFrom code m.stop).take i)
    (hclose : '\x7d' ∉ (bodyFrom code m.stop).take i)
    (hx : (bodyFrom code m.stop)[i]? = some '\x7d')
    {w : Text} (hw : Plain w) (hle : m.stop + i ≤ code.length) :
    blockEnd (bodyFrom (code.take (m.stop + i) ++ (w ++ code.drop (m.stop + i))) m.stop)
      = some (i + w.length) := by
  have hbody := fun y => bodyFrom_take (m := m) (Nat.le_add_right m.stop i) hle y
  simp only [Nat.add_sub_cancel_left] at hbody
  generalize Zone.over .code ((code.take (m.stop + i)).drop m.stop) = z at hbody
  have hlen : ((bodyFrom code m.stop).take i).length = i := by
    rw [length_take, length_bodyFrom]
    omega
  -- the brace at the end is one of the code, and it counts
  have htail : (maskQuotesFrom [] z (code.drop (m.stop + i))).head? = some '\x7d' := by
    have hcode := hbody (code.drop (m.stop + i))
    rw [take_append_drop] at hcode
    rw [hcode, getElem?_append_right (by rw [hlen]), hlen, Nat.sub_self] at hx
    rwa [← head?_eq_getElem?] at hx
  obtain ⟨y, hy, hlive⟩ : ∃ y, code.drop (m.stop + i) = '\x7d' :: y ∧ z.liveQuotes '\x7d' := by
    cases hd : code.drop (m.stop + i) with
    | nil =>
      rw [hd] at htail
      cases htail
    | cons c y =>
      rw [hd, maskQuotesFrom_cons, head?_cons, Option.some.injEq] at htail
      split at htail
      · next hl => exact ⟨y, by rw [htail], htail ▸ hl⟩
      · exact absurd htail (by decide)
  have hmasked : ∀ c, c ∈ maskQuotesFrom [] z w → isPlainChar c := fun c hc => by
    rcases mem_maskQuotesFrom hc with rfl | hc
    · decide
    · exact hw c hc
  have hplain : Plain (maskQuotesFrom [] z w) := hmasked
  rw [hbody, hy, maskQuotesFrom_append, maskQuotesFrom_cons, if_pos (hw.live_over hlive),
    ← append_assoc, blockEnd_flat, length_append, hlen, length_maskQuotesFrom]
  · rw [mem_append, not_or]
    exact ⟨hopen, hplain.open_not_mem⟩
  · rw [mem_append, not_or]
    exact ⟨hclose, hplain.close_not_mem⟩

theorem plain_wrapped (h : Plain block) : Plain (wrapped block) := by
  have hstart : Plain ['\n'] := by simp [Plain, isPlainChar, isQuote]
  have hend : Plain "\n    " := by simp [Plain, isPlainChar, isQuote]
  exact plain_append.mpr ⟨plain_append.mpr ⟨hstart, h⟩, hend⟩

/-- after a block has been put in, its statements stand before the site iff no block is nested -/
theorem isInjected_insertAt_iff (hplain : Plain block) {e : Nat} (he : site code = some e)
    (hnot : isInjected (code.take e) block = false) :
    (∀ e' ∈ site (insertAt e (wrapped block) code),
      isInjected ((insertAt e (wrapped block) code).take e') block) ↔ nestsBlock code = false := by
  obtain ⟨m, hm, hsite⟩ := Option.bind_eq_some_iff.mp he
  have hstop := search_stop_le hm
  -- the header is found where it was
  have hheader : m.stop ≤ (code.take e).length → ∃ m', onCreateMethod.search
      (insertAt e (wrapped block) code) = some m' ∧ m'.stop = m.stop := fun hle => by
    rw [insertAt, append_assoc]
    refine heading_onCreateMethod.search_local (y := code.drop e) ?_ hle
    rw [take_append_drop, hm]
  have hblock : ∀ y, block <:+: code.take e ++ wrapped block ++ y := fun y =>
    ⟨code.take e ++ ['\n'], "\n    " ++ y, by simp [wrapped]⟩
  unfold nestsBlock
  rw [hm]
  simp only
  cases hi : blockEnd (bodyFrom code m.stop) with
  | none =>
    rw [site_of_none hm hi] at he
    obtain ⟨hlt, rfl⟩ : m.stop < code.length ∧ code.length = e := by
      split at he
      · next hlt => exact ⟨hlt, Option.some.inj he⟩
      · cases he
    obtain ⟨m', hm', hstop'⟩ := hheader (by rw [take_length]; exact hstop)
    have hwhole : insertAt code.length (wrapped block) code = code ++ wrapped block := by
      rw [insertAt, take_length, drop_length, append_nil]
    have hnone : blockEnd (bodyFrom (code ++ wrapped block) m'.stop) = none := by
      have hplain' : Plain (maskQuotesFrom [] (Zone.over .code (code.drop m'.stop))
          (wrapped block)) := by
        intro c hc
        rcases mem_maskQuotesFrom hc with rfl | hc
        · decide
        · exact plain_wrapped hplain c hc
      rw [bodyFrom_append (by omega)]
      refine blockEndFrom_none hplain'.open_not_mem hplain'.close_not_mem ?_
      rw [hstop']
      exact hi
    rw [hwhole] at hm' ⊢
    refine iff_of_true (fun e' he' => ?_) rfl
    rw [Option.mem_def, site_of_none hm' hnone] at he'
    split at he'
    · rw [← Option.some.inj he', take_length]
      have := hblock []
      rw [take_length, append_nil] at this
      exact isInjected_of_infix this
    · cases he'
  | some i =>
    obtain ⟨hile, hcases⟩ := blockEnd_cases hi
    rw [length_bodyFrom] at hile
    rw [site_of_some hm hi] at he
    obtain ⟨hpos, rfl⟩ : 0 < i ∧ m.stop + i = e := by
      split at he
      · next hpos => exact ⟨hpos, Option.some.inj he⟩
      · cases he
    have hlen : (code.take (m.stop + i)).length = m.stop + i := by rw [length_take]; omega
    obtain ⟨m', hm', hstop'⟩ := hheader (by omega)
    simp only [contains_eq_mem, decide_eq_false_iff_not]
    rcases hcases with ⟨hopen, hclose, hx⟩ | ⟨hopen, hlocal⟩
    · -- flat: the end has moved behind the block
      refine iff_of_true (fun e' he' => ?_) hopen
      have hend := blockEnd_insert_flat hopen hclose hx (plain_wrapped hplain) (by omega)
      rw [← append_assoc, ← hstop'] at hend
      rw [Option.mem_def, site_of_some hm' (i := i + (wrapped block).length)
        (by rw [insertAt, ← hend, hstop']), if_pos (by omega)] at he'
      have htake : (insertAt (m.stop + i) (wrapped block) code).take e'
          = code.take (m.stop + i) ++ wrapped block := by
        rw [← Option.some.inj he', hstop', insertAt,
          show m.stop + (i + (wrapped block).length)
            = (code.take (m.stop + i) ++ wrapped block).length by
              rw [length_append, hlen]; omega,
          take_left]
      rw [htake]
      have := hblock []
      rw [append_nil] at this
      exact isInjected_of_infix this
    · -- nested: the scanner stops where it did
      refine iff_of_false (fun hall => ?_) (fun hno => hno hopen)
      have hend : blockEnd (bodyFrom (insertAt (m.stop + i) (wrapped block) code) m'.stop)
          = some i := by
        rw [hstop', insertAt, append_assoc, bodyFrom_take (Nat.le_add_right _ _) (by omega),
          Nat.add_sub_cancel_left]
        exact hlocal _
      have hagain := hall (m'.stop + i) (by rw [Option.mem_def, site_of_some hm' hend, if_pos hpos])
      have htake : (insertAt (m.stop + i) (wrapped block) code).take (m'.stop + i)
          = code.take (m.stop + i) := by
        rw [hstop', insertAt, append_assoc, take_append_of_le_length (by omega), take_take,
          Nat.min_self]
      rw [htake, hnot] at hagain
      cases hagain

/-- an injection into `onCreate` that is repeated changes nothing iff no block is nested, or there
was nothing to inject -/
theorem otherPlaced_again_iff (hplain : Plain block) (hbefore : contentViewCall.found code = false)
    (hafter : contentViewCall.found (otherPlaced block code) = false) :
    otherPlaced block (otherPlaced block code) = otherPlaced block code
      ↔ nestsBlock code = false ∨ otherPlaced block code = code := by
  by_cases hsame : otherPlaced block code = code
  · rw [hsame]
    simp [hsame]
  · have hplace := otherPlaced_eq hbefore block
    cases hs : site code with
    | none =>
      rw [hs] at hplace
      exact absurd hplace hsame
    | some e =>
      rw [hs] at hplace
      by_cases hin : isInjected (code.take e) block = true
      · simp only [hin, if_true] at hplace
        exact absurd hplace hsame
      · simp only [hin, Bool.false_eq_true, if_false] at hplace
        rw [otherPlaced_eq_self_iff hafter, hplace,
          isInjected_insertAt_iff hplain hs (Bool.eq_false_iff.mpr hin)]
        simp [insertAt_wrapped_ne]

end

/-! ## inner holders behind `onCreate` -/

/-- the inner holders stand behind the end of `onCreate` -/
def HoldersBehind (code : Text) : Prop :=
  ∀ m ∈ onCreateMethod.search code, ∀ c ∈ innerClasses code, c.isHolder = true →
    (onCreateEnd code m.stop).toNat < c.start

instance (code : Text) : Decidable (HoldersBehind code) :=
  inferInstanceAs (Decidable (∀ m ∈ onCreateMethod.search code, ∀ c ∈ innerClasses code,
    c.isHolder → (onCreateEnd code m.stop).toNat < c.start))

section
variable {fs : List Field} {code : Text}

theorem take_insertAt {q : Nat} (hk : k ≤ code.length) (hq : k ≤ q) (w : Text) :
    (insertAt q w code).take k = code.take k := by
  have hlen : k ≤ (code.take q).length := by rw [length_take]; omega
  rw [insertAt, append_assoc, take_append_of_le_length hlen, take_take,
    Nat.min_eq_left hq]

theorem take_innerPlaced (hk : k ≤ code.length) {c : InnerClass}
    (hc : c.isHolder → k ≤ c.start) : (innerPlaced fs code c).take k = code.take k := by
  unfold innerPlaced
  split
  · rfl
  · next hcond =>
    have hholder : c.isHolder = true := by
      cases h : c.isHolder with
      | true => rfl
      | false => simp [h] at hcond
    have hstart := hc hholder
    unfold injectInConstructor
    simp only
    split
    · rfl
    · split
      · next m _ =>
        refine take_insertAt hk ?_ _
        rcases constructorPoint_cases code (c.start + m.stop) with hp | ⟨_, s, -, hp⟩ <;>
          rw [hp] <;> omega
      · rfl

theorem innerPlaced_sublist (fs : List Field) (code : Text) (c : InnerClass) :
    code.Sublist (innerPlaced fs code c) := innerHolders_sublist fs [c] code

theorem take_innerHolders (hk : k ≤ code.length) (hcls : ∀ c ∈ cls, c.isHolder → k ≤ c.start) :
    (cls.foldl (innerPlaced fs) code).take k = code.take k := by
  induction cls generalizing code with
  | nil => rfl
  | cons c cls ih =>
    have hle := (innerPlaced_sublist fs code c).length_le
    rw [foldl_cons, ih (by omega) (fun d hd => hcls d (mem_cons_of_mem _ hd)),
      take_innerPlaced hk (hcls c mem_cons_self)]

theorem innerHolders_eq_self_iff :
    cls.foldl (innerPlaced fs) code = code ↔ ∀ c ∈ cls, innerPlaced fs code c = code := by
  induction cls with
  | nil => simp
  | cons c cls ih =>
    rw [foldl_cons, forall_mem_cons]
    constructor
    · intro h
      -- each step only adds, so the first one added nothing
      have hback := innerHolders_sublist fs cls (innerPlaced fs code c)
      rw [h] at hback
      have hsame := hback.antisymm (innerPlaced_sublist fs code c)
      rw [hsame] at h
      exact ⟨hsame, ih.mp h⟩
    · rintro ⟨hsame, hrest⟩
      rw [hsame]
      exact ih.mpr hrest

/-- a text that starts like another one, up to the end of `onCreate` in that, has the same site -/
theorem site_of_take {out : Text} {m : Match} (hm : onCreateMethod.search code = some m)
    (hlt : (onCreateEnd code m.stop).toNat < code.length)
    (htake : out.take ((onCreateEnd code m.stop).toNat + 1)
      = code.take ((onCreateEnd code m.stop).toNat + 1)) :
    site out = site code ∧ ∀ e ∈ site code, out.take e = code.take e := by
  have hstop := search_stop_le hm
  rw [onCreateEnd_eq hstop] at hlt htake
  cases hi : blockEnd (bodyFrom code m.stop) with
  | none =>
    rw [hi] at hlt
    exact absurd hlt (lt_irrefl _)
  | some i =>
    rw [hi] at hlt htake
    simp only at hlt htake
    have hlen : (code.take (m.stop + i + 1)).length = m.stop + i + 1 := by rw [length_take]; omega
    have hsplit : out = code.take (m.stop + i + 1) ++ out.drop (m.stop + i + 1) := by
      rw [← htake, take_append_drop]
    obtain ⟨m', hm', hstop'⟩ : ∃ m', onCreateMethod.search out = some m' ∧ m'.stop = m.stop := by
      rw [hsplit]
      refine heading_onCreateMethod.search_local (y := code.drop (m.stop + i + 1)) ?_ (by omega)
      rw [take_append_drop, hm]
    have hend : blockEnd (bodyFrom out m'.stop) = some i := by
      rw [hstop', hsplit, bodyFrom_take (by omega) (by omega),
        show m.stop + i + 1 - m.stop = i + 1 by omega]
      obtain ⟨hile, ⟨hopen, hclose, hx⟩ | ⟨-, hlocal⟩⟩ := blockEnd_cases hi
      · have hbody : (bodyFrom code m.stop).take (i + 1)
            = (bodyFrom code m.stop).take i ++ ['\x7d'] := by
          rw [take_add_one, hx]
          rfl
        rw [hbody, append_assoc, singleton_append, blockEnd_flat hopen hclose,
          length_take, Nat.min_eq_left hile]
      · rw [take_add_one, append_assoc]
        exact hlocal _
    rw [site_of_some hm hi, site_of_some hm' hend, hstop']
    refine ⟨rfl, fun e he => ?_⟩
    rw [Option.mem_def] at he
    split at he
    · rw [← Option.some.inj he]
      have := congrArg (take (m.stop + i)) htake
      rwa [take_take, take_take, Nat.min_eq_left (by omega)] at this
    · cases he

end

/-! ## no new `onCreate` -/

theorem onCreateMethod_covers {s : Text} (h : onCreateMethod.Covers s) :
    ∃ b r, s = b ++ '@' :: 'O' :: r ∧ (∀ c ∈ b, isBlank c = true)
      ∧ ∀ b', (∀ c ∈ b', isBlank c = true) → onCreateMethod.Covers (b' ++ '@' :: 'O' :: r) := by
  obtain ⟨b, _, rfl, hb, _, r, rfl, rfl, hr⟩ := h
  exact ⟨b, "verride".toList ++ r, rfl, hb, fun b' hb' => ⟨b', _, rfl, hb', _, r, rfl, rfl, hr⟩⟩

def itemBlockFront : Text := "\n        // 初始化View绑定 - 替换"

def itemBlockMiddle : Text := "indView注解\n        "

theorem unlines_itemLookupRows (F : Field) (own : List Field) :
    unlines (itemLookupRows (F :: own) ++ [[]])
      = itemLookupLine F.name F.id ++ '\n' :: unlines (itemLookupRows own ++ [[]]) := by
  rw [itemLookupRows, map_cons, cons_append, unlines_cons (by simp)]
  rfl

theorem itemLookupLine_eq (name id : Text) : itemLookupLine name id
    = "        " ++ (name ++ " = itemView.findViewById(" ++ applicationId id ++ ");") :=
  rfl

/-- the look-ups of a holder: a comment that names the annotation, and calls that end a statement -/
theorem itemBlock_shape (F : Field) (own : List Field) :
    ∃ args rest, '\n' :: itemBlock (F :: own) [] []
        = itemBlockFront ++ '@' :: 'B' :: (itemBlockMiddle ++ (args ++ ')' :: ';' :: rest))
      ∧ ')' ∉ args ∧ '@' ∉ args ++ ')' :: ';' :: rest := by
  have hrows : '@' ∉ unlines (itemLookupRows (F :: own) ++ [[]]) := by
    refine not_mem_unlines (by decide) fun l hl => ?_
    rcases mem_append.mp hl with hl | hl
    · obtain ⟨F', -, rfl⟩ := mem_map.mp hl
      exact (tame_itemLookupLine F'.name_covers F'.id_covers).at_sign
    · rw [mem_singleton.mp hl]
      exact not_mem_nil
  obtain ⟨w, hw, hid⟩ := applicationId_eq F.id_covers
  have hline : unlines (itemLookupRows (F :: own) ++ [[]]) = "        "
      ++ (F.name ++ " = itemView.findViewById(" ++ applicationId F.id
        ++ (");" ++ '\n' :: unlines (itemLookupRows own ++ [[]]))) := by
    rw [unlines_itemLookupRows, itemLookupLine_eq]
    simp only [append_assoc]
  have hcomment : '\n' :: itemBlock (F :: own) [] [] = ('\n' :: (indented lookupComment ++ ['\n']))
      ++ unlines (itemLookupRows (F :: own) ++ [[]]) := by
    have hblock : itemBlock (F :: own) [] [] = unlines (indented lookupComment
        :: (itemLookupRows (F :: own) ++ [[]])) := by simp [itemBlock, headed]
    rw [hblock, unlines_cons (by simp)]
    simp only [append_assoc, cons_append, nil_append]
  have hfront : '\n' :: (indented lookupComment ++ ['\n']) ++ "        "
      = itemBlockFront ++ '@' :: 'B' :: itemBlockMiddle := by decide
  have hcall : ");" = [')', ';'] := rfl
  refine ⟨F.name ++ " = itemView.findViewById(" ++ applicationId F.id,
    '\n' :: unlines (itemLookupRows own ++ [[]]), ?_, ?_, ?_⟩
  · rw [hcomment, hline, ← append_assoc, hfront, hcall]
    simp only [append_assoc, cons_append, nil_append]
  · have hname : ')' ∉ F.name := avoids_run1 (by decide) _ F.name_covers
    have hword : ')' ∉ w := avoids_run1 (by decide) _ hw
    rw [hid]
    simp [hname, hword]
  · intro hm
    rw [hline, hcall] at hrows
    exact hrows (mem_append_right _ hm)

/-- no header of `onCreate` starts in front of the look-ups of a holder and goes on in them -/
theorem onCreateMethod_not_into {F : Field} {own : List Field} {v w b post : Text} (hw : w ≠ [])
    (hs : onCreateMethod.Covers (v ++ w))
    (he : ('\n' :: itemBlock (F :: own) [] []) ++ post = w ++ b) : False := by
  obtain ⟨args, rest, hblock, hargs, -⟩ := itemBlock_shape F own
  obtain ⟨x, y, hxy, hx, hy⟩ := heading_onCreateMethod.shape _ hs
  rw [hblock] at he
  -- if its parenthesis stands in the block, a semicolon follows
  have hinside : ∀ x', ')' ∉ x' → w ≠ x' ++ ')' :: (y ++ ['\x7b']) := by
    intro x' hx' hweq
    have hfront : ')' ∉ itemBlockFront ++ '@' :: 'B' :: (itemBlockMiddle ++ args) := by
      simp only [mem_append, mem_cons, not_or]
      exact ⟨by decide, by decide, by decide, by decide, hargs⟩
    have hboth : x' ++ ')' :: (y ++ '\x7b' :: b)
        = (itemBlockFront ++ '@' :: 'B' :: (itemBlockMiddle ++ args)) ++ ')' :: ';'
          :: (rest ++ post) := by
      rw [hweq] at he
      simp only [append_assoc, cons_append, nil_append] at he ⊢
      exact he.symm
    obtain ⟨u, hu, htail⟩ := append_eq_of_not_mem hx' hboth
    cases u with
    | nil =>
      have hnext : y ++ '\x7b' :: b = ';' :: (rest ++ post) := (List.cons.inj htail).2
      cases y with
      | nil => exact absurd (List.cons.inj hnext).1 (by decide)
      | cons c y =>
        have hc := hy c mem_cons_self
        rw [(List.cons.inj hnext).1] at hc
        exact absurd hc (by decide)
    | cons c u =>
      rw [(List.cons.inj htail).1] at hfront
      exact hfront (by rw [hu]; simp)
  rcases append_eq_append_iff.mp hxy with ⟨x', rfl, hweq⟩ | ⟨v', rfl, hrest⟩
  · exact hinside x' (fun hm => hx (mem_append_right _ hm)) hweq
  · cases v' with
    | nil => exact hinside [] (by simp) hrest.symm
    | cons c v' =>
      -- else the block would have to start with white space and a brace
      have hspace : y ++ ['\x7b'] = v' ++ w := (List.cons.inj hrest).2
      have hchars : ∀ c ∈ w, isBlank c ∨ c = '\x7b' := fun c hc => by
        have : c ∈ y ++ ['\x7b'] := by rw [hspace]; exact mem_append_right _ hc
        exact (mem_append.mp this).imp (hy c) mem_singleton.mp
      have hbrace : '\x7b' ∈ w := by
        have hlast := congrArg List.getLast? hspace
        rw [getLast?_append_of_ne_nil _ (by simp), getLast?_append_of_ne_nil _ hw] at hlast
        exact mem_of_getLast? hlast.symm
      have hfront : itemBlockFront = "\n        /".toList ++ "/ 初始化View绑定 - 替换".toList := by decide
      rw [hfront, append_assoc, append_assoc] at he
      rcases append_eq_append_iff.mp he with ⟨_, hw', -⟩ | ⟨_, hw', -⟩
      · have hslash : '/' ∈ w := by rw [hw']; simp
        exact (hchars '/' hslash).elim (fun h => absurd h (by decide))
          (fun h => absurd h (by decide))
      · have : '\x7b' ∈ "\n        /".toList := by rw [hw']; exact mem_append_left _ hbrace
        exact absurd this (by decide)

/-- the look-ups of a holder bring no header of `onCreate` with them -/
theorem onCreateMethod_absent {F : Field} {own : List Field} {pre post : Text}
    (h : onCreateMethod.search (pre ++ post) = none) :
    onCreateMethod.search (pre ++ ('\n' :: itemBlock (F :: own) [] []) ++ post) = none := by
  have hfree := heading_onCreateMethod.free
  rw [search_eq_none_iff hfree] at h ⊢
  have hpre : ∀ s, onCreateMethod.Covers s → ¬ s <:+: pre := fun s hs hi =>
    h s hs (infix_append_of_infix_left hi)
  have hpost : ∀ s, onCreateMethod.Covers s → ¬ s <:+: post := fun s hs hi =>
    h s hs (infix_append_of_infix_right hi)
  rintro s hs ⟨a, b, he⟩
  rw [append_assoc, append_assoc] at he
  rcases append_eq_append_iff.mp he with ⟨v, rfl, hv⟩ | ⟨v, rfl, hv⟩
  · -- it starts in front of the block
    rcases append_eq_append_iff.mp hv with ⟨w, rfl, -⟩ | ⟨w, rfl, hw⟩
    · exact hpre s hs ⟨a, w, by simp⟩
    · by_cases hnil : w = []
      · subst hnil
        exact hpre _ hs ⟨a, [], by simp⟩
      · exact onCreateMethod_not_into hnil hs hw
  · -- it starts in the block or behind it
    rcases append_eq_append_iff.mp hv with ⟨w, -, hw⟩ | ⟨w, hblock, hw⟩
    · exact hpost s hs ⟨w, b, by rw [hw]; simp⟩
    · obtain ⟨sp, r, rfl, hsp, hagain⟩ := onCreateMethod_covers hs
      rw [append_assoc] at hw
      rcases append_eq_append_iff.mp hw with ⟨u, rfl, hu⟩ | ⟨u, rfl, hu⟩
      · cases u with
        | nil =>
          exact hpost _ (hagain [] (by simp)) ⟨[], b, by rw [nil_append] at hu; rw [← hu]; simp⟩
        | cons c u =>
          -- the only annotation of the block is another one
          obtain ⟨hc, hu⟩ := List.cons.inj hu
          obtain ⟨args, rest, hshape, -, hat⟩ := itemBlock_shape F own
          have hfront : '@' ∉ itemBlockFront := by decide
          have hmiddle : '@' ∉ 'B' :: (itemBlockMiddle ++ (args ++ ')' :: ';' :: rest)) := by
            rw [mem_cons, mem_append, not_or, not_or]
            exact ⟨by decide, by decide, hat⟩
          rw [hshape, ← hc, ← append_assoc v] at hblock
          obtain ⟨x, -, hx⟩ := append_eq_of_not_mem hfront hblock
          cases x with
          | nil =>
            rw [← (List.cons.inj hx).2] at hu
            exact absurd (List.cons.inj hu).1 (by decide)
          | cons z x =>
            rw [(List.cons.inj hx).2] at hmiddle
            exact hmiddle (by simp)
      · refine hpost _ (hagain u (fun c hc => hsp c (mem_append_right _ hc))) ⟨[], b, ?_⟩
        rw [hu]
        simp

theorem onCreateMethod_absent_innerHolders (h : onCreateMethod.search code = none) :
    onCreateMethod.search (cls.foldl (innerPlaced fs) code) = none := by
  induction cls generalizing code with
  | nil => exact h
  | cons c cls ih =>
    refine ih ?_
    unfold innerPlaced
    split
    · exact h
    · next hcond =>
      simp only [Bool.or_eq_true, not_or] at hcond
      cases hown : ownFields code c.start c.stop fs with
      | nil => simp [hown] at hcond
      | cons F own =>
        rcases injectInConstructor_cases code c.start c.stop
          (itemBlock (F :: own) [] []) with hsame | hins
        · rw [hsame]
          exact h
        · obtain ⟨pre, post, rfl, hres, -⟩ := hins
          rw [hres]
          exact onCreateMethod_absent h

theorem innerHolders_keeps (fs : List Field) (cls : List InnerClass) {s : Text} (hs : Whole s)
    (h : s <:+: code) : s <:+: cls.foldl (innerPlaced fs) code := by
  induction cls generalizing code with
  | nil => exact h
  | cons c cls ih =>
    apply ih
    rcases innerPlaced_cases fs code c with hc | ⟨own, -, hc⟩
    · rwa [hc]
    · exact hc.keeps hs h

theorem contentViewCall_innerHolders
    (h : contentViewCall.found (cls.foldl (innerPlaced fs) code) = false) :
    contentViewCall.found code = false := by
  cases hf : contentViewCall.found code with
  | false => rfl
  | true =>
    obtain ⟨m, hm⟩ := Option.isSome_iff_exists.mp hf
    have hof := search_some hm
    have hwhole : Whole m.text := by
      obtain ⟨_, _, he, rfl, b, _, rfl, hb, rfl⟩ := hof.covers
      have havoid : ∀ c, isBlank c = false → c ∉ "setContentView".toList → c ∉ "(".toList
          → c ∉ m.text :=
        fun c hc h₁ h₂ hmem => by
          rw [he, mem_append, mem_append] at hmem
          rcases hmem with hmem | hmem | hmem
          · exact h₁ hmem
          · exact avoids_run hc b hb hmem
          · exact h₂ hmem
      exact ⟨havoid _ (by decide) (by decide) (by decide), havoid _ (by decide) (by decide)
        (by decide), havoid _ (by decide) (by decide) (by decide)⟩
    have hkept := found_of_infix (p := contentViewCall) rfl hof.covers
      (innerHolders_keeps fs cls hwhole hof.isInfix)
    rw [h] at hkept
    cases hkept

/-- inner holders behind `onCreate` do not change what an injection into it does -/
theorem otherPlaced_holders_iff {out block : Text}
    (hout : out = (innerClasses code).foldl (innerPlaced fs) code)
    (hbehind : out = code ∨ HoldersBehind code) (hbefore : contentViewCall.found code = false)
    (hafter : contentViewCall.found out = false) : otherPlaced block out = out
      ↔ otherPlaced block code = code := by
  rcases hbehind with hsame | hbehind
  · rw [hsame]
  · rw [otherPlaced_eq_self_iff hafter, otherPlaced_eq_self_iff hbefore]
    cases hm : onCreateMethod.search code with
    | none =>
      have hnone : onCreateMethod.search out = none := hout ▸ onCreateMethod_absent_innerHolders hm
      simp [site, hm, hnone]
    | some m =>
      have hstart := hbehind m hm
      by_cases hlt : (onCreateEnd code m.stop).toNat < code.length
      · have htake : out.take ((onCreateEnd code m.stop).toNat + 1)
            = code.take ((onCreateEnd code m.stop).toNat + 1) := by
          rw [hout]
          exact take_innerHolders hlt (fun c hc hholder => hstart c hc hholder)
        obtain ⟨hsite, htakes⟩ := site_of_take hm hlt htake
        rw [hsite]
        exact forall₂_congr (fun e he => by rw [htakes e he])
      · -- nothing stands behind the end of the text
        have hsame : out = code := by
          rw [hout, innerHolders_eq_self_iff]
          intro c hc
          have hnot : c.isHolder = false := by
            cases hh : c.isHolder with
            | false => rfl
            | true =>
              have := hstart c hc hh
              have := span_of_mem_innerClasses hc
              omega
          simp [innerPlaced, hnot]
        rw [hsame]

/-! ## whole injections -/

/-- an injection into a class of no special kind, done twice: the second time nothing changes
exactly when no block is nested in `onCreate`, or nothing was put there, and no inner holder is left
without its look-ups.  `himports` excludes a line that is an import of the library once a block cuts
it, `hplain` the braces and quotes that a long click may have around its resources -/
theorem injected_again_iff {code out placed : Text} (happlies : mentionsButterKnife code = true)
    (hfirst : Route.of (imported code) = .ok .other)
    (hout : injected (Findings.detect code) code = .ok out)
    (himports : imported out = out) (hagain : Route.of out = .ok .other)
    (hplain : ∀ block, initialisation (Findings.detect code) = .ok block → Plain block)
    (hplaced : Route.other.place (Findings.detect code) (imported code) = .ok placed)
    (hbehind : out = placed ∨ HoldersBehind placed) :
    injected (Findings.detect code) out = .ok out
      ↔ (nestsBlock (imported code) = false ∨ placed = imported code)
        ∧ injectInnerHolders (Findings.detect code) out = .ok out := by
  obtain ⟨fs, cs, ls, hl, -⟩ := detect_lists code
  have happlies' := (detect_applies code).trans happlies
  have hblock := hplain _ (initialisation_eq hl)
  rw [Route.place_other hl] at hplaced
  have hplaced := Except.ok.inj hplaced
  have hholders : out = (innerClasses placed).foldl (innerPlaced fs) placed := by
    rw [injected_eq happlies', hfirst, ok_bind, Route.place_other hl, ok_bind,
      injectInnerHolders_eq hl] at hout
    rw [← Except.ok.inj hout, hplaced]
  -- there is no content view, neither before nor after nor in between
  have hbefore := contentViewCall_of_route hfirst
  have hafter := contentViewCall_of_route hagain
  have hbetween : contentViewCall.found placed = false :=
    contentViewCall_innerHolders (hholders ▸ hafter)
  have hmain : otherPlaced (initialisationBlock fs cs ls) out = out
      ↔ nestsBlock (imported code) = false ∨ placed = imported code := by
    rw [otherPlaced_holders_iff hholders hbehind hbetween hafter, ← hplaced]
    exact otherPlaced_again_iff hblock hbefore (hplaced ▸ hbetween)
  rw [injected_eq happlies', himports, hagain, ok_bind, Route.place_other hl, ok_bind,
    injectInnerHolders_eq hl, injectInnerHolders_eq hl, ← hmain]
  simp only [Except.ok.injEq]
  constructor
  · intro h
    -- both steps only add, so neither adds anything
    have hback := innerHolders_sublist fs
      (innerClasses (otherPlaced (initialisationBlock fs cs ls) out))
      (otherPlaced (initialisationBlock fs cs ls) out)
    rw [h] at hback
    have hsame := hback.antisymm (otherPlaced_sublist _ out)
    rw [hsame] at h
    exact ⟨hsame, h⟩
  · rintro ⟨hsame, h⟩
    rw [hsame]
    exact h

theorem eq_ok_of_toOption {x : Except Fault Text} {t : Text} (h : x.toOption = some t) :
    x = .ok t := by
  cases x with
  | ok s => rw [Option.some.inj h]
  | error e => cases h

def outerClassFront : Text := unlines
    ["class A \x7b", "@Override protected void", "onCreate()\x7b", []]

def outerClassHolder : Text :=
  unlines ["\x7d", "class Holder extends", "BaseHolder\x7b", "@BindView(R.id.b) V b;",
    "public H(View v)\x7b"]

def outerClassBlock : Text :=
  wrapped (unlines [indented lookupComment, indented "b = findViewById(R.id.b);", []])

def outerClassItem : Text :=
  '\n' :: unlines [indented lookupComment, indented "b = itemView.findViewById(R.id.b);", []]

def outerClass : Text := outerClassFront ++ (outerClassHolder ++ "\x7d\x7d\x7d")

def outerClassInjected : Text :=
  outerClassFront ++ (outerClassBlock ++ (outerClassHolder ++ (outerClassItem ++ "\x7d\x7d\x7d")))

theorem injected_again_outerClass :
    injected (.detect outerClass) outerClass = .ok outerClassInjected
      ∧ injected (.detect outerClass) outerClassInjected = .ok outerClassInjected := by
  have hout : injected (.detect outerClass) outerClass = .ok outerClassInjected :=
    eq_ok_of_toOption (by decide +kernel)
  have hplaced : Route.other.place (.detect outerClass) (imported outerClass)
      = .ok (outerClassFront ++ (outerClassBlock ++ (outerClassHolder ++ "\x7d\x7d\x7d"))) :=
    eq_ok_of_toOption (by decide +kernel)
  have hplain : (initialisation (.detect outerClass)).toOption.all (·.all isPlainChar) = true := by
    decide +kernel
  have hblock : ∀ block, initialisation (.detect outerClass) = .ok block → Plain block := by
    intro block hb
    rw [hb] at hplain
    exact all_eq_true.mp hplain
  have happlies : mentionsButterKnife outerClass := by decide +kernel
  have hfirst : Route.of (imported outerClass) = .ok .other := by decide +kernel
  have himports : imported outerClassInjected = outerClassInjected := by decide +kernel
  have hagain : Route.of outerClassInjected = .ok .other := by decide +kernel
  have hbehind : HoldersBehind
      (outerClassFront ++ (outerClassBlock ++ (outerClassHolder ++ "\x7d\x7d\x7d"))) := by
    decide +kernel
  have hflat : nestsBlock (imported outerClass) = false := by decide +kernel
  have hinner : injectInnerHolders (.detect outerClass) outerClassInjected
      = .ok outerClassInjected :=
    eq_ok_of_toOption (by decide +kernel)
  have hiff := injected_again_iff happlies hfirst hout himports hagain hblock hplaced (.inr hbehind)
  exact ⟨hout, hiff.mpr ⟨.inl hflat, hinner⟩⟩

/-- a class with a block in its `onCreate` -/
def nestedBlock : Text :=
  unlines ["class A \x7b", "@BindView(R.id.a) A a;", "@Override protected void onCreate() \x7b",
    "if (x) \x7b", "\x7d", "\x7d", "\x7d", []]

/-- the look-up of the field behind the block -/
def nestedBlockInjected : Text :=
  unlines ["class A \x7b", "@BindView(R.id.a) A a;", "@Override protected void onCreate() \x7b",
    "if (x) \x7b",
    "\x7d", indented lookupComment, indented "a = findViewById(R.id.a);", [], "    ", "\x7d",
    "\x7d", []]

/-- the look-up comes a second time -/
theorem injected_again_nestedBlock : Route.of (imported nestedBlock) = .ok .other
    ∧ injected (.detect nestedBlock) nestedBlock = .ok nestedBlockInjected
    ∧ Route.of (imported nestedBlockInjected) = .ok .other
    ∧ injected (.detect nestedBlock) nestedBlockInjected ≠ .ok nestedBlockInjected := by
  refine ⟨by decide +kernel, eq_ok_of_toOption (by decide +kernel), by decide +kernel, fun h => ?_⟩
  have hmore : ((injected (.detect nestedBlock) nestedBlockInjected).toOption.map length)
      ≠ some nestedBlockInjected.length := by decide +kernel
  rw [h] at hmore
  exact hmore rfl

end Rebind
