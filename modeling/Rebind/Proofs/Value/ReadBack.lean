import Mathlib
import Rebind.Proofs.Text.Lines
import Rebind.Value.Json

/-!
# Reading back what was written

A regular value of a file is read back from its indented text form, and where a text in it cannot be
written, what stands in front of that text is refused (`Value.ofJson?_jsonText`).

* `Regular v`: no dictionary in `v` has a key twice, and each fraction is read back from its digits;
* `Whole v`: no text in `v`, keys included, has half of a surrogate pair in it;
* `Ended rest`: what may follow a value inside another one;
* `Regular.readOff`: a whole value is read off the front of a text, with more fuel than it has
  characters;
* `carriage_not_mem_jsonText`: no carriage return is written.
-/

namespace Rebind

open List

theorem whole?_eq_some {t : List CodePoint} {s : Text} : whole? t = some s ↔ t = s.map .char := by
  induction t generalizing s with
  | nil => cases s <;> simp [whole?]
  | cons c t ih =>
    rw [whole?] at ih
    cases c with
    | half n => cases s <;> simp [whole?, CodePoint.char?]
    | char c => cases s <;> simp [whole?, CodePoint.char?, ih, Option.bind_eq_some_iff, and_comm]

namespace Value

open JsonStyle

variable {c : Char} {kvs : List (List CodePoint × Json)} {vs : List Json} {fuel n : Nat}
  {rest : Text} {v : Json}

/-! ## strings -/

theorem readChars_hex {a b d : Char} (h : hexCode? a b c d = some n) (hn : n < 32)
    (done : List CodePoint) (tail : Text) : readChars done ('\\' :: 'u' :: a :: b :: c :: d :: tail)
      = readChars (.char (Char.ofNat n) :: done) tail := by
  have hpoint : CodePoint.ofNat n = .char (Char.ofNat n) := dif_neg (by omega)
  rw [← hpoint]
  by_cases hpair : ∃ a' b' c' d' rest, tail = '\\' :: 'u' :: a' :: b' :: c' :: d' :: rest
  · -- the code of a control character is no half of a pair
    obtain ⟨a', b', c', d', rest, rfl⟩ := hpair
    rw [readChars, h]
    cases hexCode? a' b' c' d' with
    | none => rfl
    | some m => exact if_neg (fun hm => by omega)
  · rw [readChars, h]
    intro a' b' c' d' rest he
    exact hpair ⟨a', b', c', d', rest, he⟩

theorem hexCode?_hexText : ∀ n < 32,
    (match hexText 4 n with | [a, b, c, d] => hexCode? a b c d | _ => none) = some n
      ∧ '\r' ∉ hexText 4 n := by
  decide +kernel

/-- how a character is written: by the sign of its escape, by its code, or as it is -/
theorem jsonChar_cases (c : Char) : (∃ e, jsonChar c = ['\\', e] ∧ escapedChar? e = some c)
    ∨ c.toNat < 32 ∧ jsonChar c = '\\' :: 'u' :: hexText 4 c.toNat
    ∨ ¬ c.toNat < 32 ∧ c ∉ ['"', '\\'] ∧ jsonChar c = [c] := by
  by_cases hc : c ∈ ['"', '\\', '\n', '\r', '\t', '\x08', '\x0c']
  · simp only [mem_cons, not_mem_nil, or_false] at hc
    rcases hc with rfl | rfl | rfl | rfl | rfl | rfl | rfl <;> exact .inl ⟨_, rfl, rfl⟩
  · simp only [mem_cons, not_mem_nil, or_false, not_or] at hc
    by_cases hlow : c.toNat < 32
    · exact .inr (.inl ⟨hlow, by simp [jsonChar, hc, hlow]⟩)
    · exact .inr (.inr ⟨hlow, by simp [hc], by simp [jsonChar, hc, hlow]⟩)

theorem readChars_jsonChar (c : Char) (done : List CodePoint) (tail : Text) :
    readChars done (jsonChar c ++ tail) = readChars (.char c :: done) tail := by
  rcases jsonChar_cases c with ⟨e, hw, he⟩ | ⟨hlow, hw⟩ | ⟨hlow, hplain, hw⟩
  · have hu : e ≠ 'u' := by
      rintro rfl
      cases he
    simp [hw, readChars, hu, he]
  · have hhex := (hexCode?_hexText c.toNat hlow).1
    split at hhex
    · next a b c' d he =>
      rw [hw, he]
      show readChars done ('\\' :: 'u' :: a :: b :: c' :: d :: tail) = _
      rw [readChars_hex hhex hlow, Char.ofNat_toNat]
    · cases hhex
  · simp_all [readChars]

theorem readChars_flatMap (t : Text) (done : List CodePoint) (rest : Text) :
    readChars done (t.flatMap jsonChar ++ '"' :: rest)
      = some (done.reverse ++ t.map .char, rest) := by
  induction t generalizing done with
  | nil => simp [readChars]
  | cons c t ih => rw [flatMap_cons, append_assoc, readChars_jsonChar, ih]; simp

theorem carriage_not_mem_jsonString (t : Text) : '\r' ∉ jsonString t := by
  have hchar : ∀ c, '\r' ∉ jsonChar c := by
    intro c hc
    rcases jsonChar_cases c with ⟨e, hw, he⟩ | ⟨hlow, hw⟩ | ⟨hlow, -, hw⟩
    · obtain rfl : '\r' = e := by simpa [hw] using hc
      cases he
    · exact (hexCode?_hexText c.toNat hlow).2 (by simpa [hw] using hc)
    · obtain rfl : '\r' = c := by simpa [hw] using hc
      exact hlow (by decide)
  simp [jsonString, hchar]

/-! ## numbers -/

def Ended (rest : Text) : Prop := rest = [] ∨ ∃ c r, rest = c :: r ∧ (c = ',' ∨ c = '\n')

theorem eq_zero_of_natText {ds : Text} (h : natText n = '0' :: ds) : n = 0 := by
  induction n using Nat.strong_induction_on generalizing ds with
  | _ n ih =>
    unfold natText at h
    rw [Nat.toDigits_eq_if (by decide)] at h
    split at h
    · exact Nat.digitChar_eq_zero.mp (List.cons.inj h).1
    · obtain ⟨d, ds', hd⟩ := exists_cons_of_ne_nil (Nat.toDigits_ne_nil (n := n / 10) (b := 10))
      rw [hd] at h
      obtain rfl := (List.cons.inj h).1
      have := ih (n / 10) (by omega) hd
      omega

theorem digitsValue_natText (n : Nat) : digitsValue (natText n) = n := by
  have hfold : digitsValue (natText n) = Nat.ofDigitChars 10 (natText n) 0 := by
    rw [Nat.ofDigitChars_eq_foldl]
    unfold digitsValue
    congr
    funext m c
    rw [Nat.mul_comm]
  rw [hfold, ofDigitChars_natText]

theorem takeWhile_natText (n : Nat) (h : Ended rest) :
    (natText n ++ rest).takeWhile Char.isDigit = natText n := by
  rw [takeWhile_append_of_pos fun c hc => digit_of_mem_natText hc]
  obtain rfl | ⟨c, r, rfl, rfl | rfl⟩ := h <;> simp

/-- digits without places and exponent are a whole number -/
theorem readNumber_natText (neg : Bool) (n : Nat) (h : Ended rest) :
    readNumber ((if neg then ['-'] else []) ++ (natText n ++ rest))
      = some (.int (if neg then -n else n), rest) := by
  obtain ⟨d, ds, hd⟩ := exists_cons_of_ne_nil (show natText n ≠ [] from Nat.toDigits_ne_nil)
  have hminus : d ≠ '-' := by
    rintro rfl
    exact absurd (digit_of_mem_natText (n := n) (hd ▸ mem_cons_self)) (by decide)
  unfold readNumber
  split
  next sign t hsign =>
  obtain ⟨rfl, rfl⟩ : neg = sign ∧ natText n ++ rest = t := by
    cases neg with
    | true => exact Prod.mk.inj hsign
    | false =>
      split at hsign
      · next he =>
        rw [if_neg Bool.false_ne_true, hd] at he
        exact absurd (List.cons.inj he).1 hminus
      · exact Prod.mk.inj hsign
  dsimp only
  split
  · next he =>
    -- only zero starts with a zero
    rw [hd] at he
    obtain rfl := (List.cons.inj he).1
    obtain rfl := eq_zero_of_natText hd
    obtain rfl | ⟨c, r, rfl, rfl | rfl⟩ := h <;> rfl
  · rw [takeWhile_natText n h, drop_left, digitsValue_natText, hd]
    obtain rfl | ⟨c, r, rfl, rfl | rfl⟩ := h <;> simp

theorem readValue_other {c : Char} (hc : c ∉ ['"', '[', '\x7b']) (fuel : Nat) (t : Text) :
    readValue (fuel + 1) (c :: t) = (readName (c :: t)).orElse (fun _ => readNumber (c :: t)) := by
  rw [readValue.eq_def]
  split <;> simp_all

theorem readValue_natText (neg : Bool) (n fuel : Nat) (h : Ended rest) :
    readValue (fuel + 1) ((if neg then ['-'] else []) ++ (natText n ++ rest))
      = some (.int (if neg then -n else n), rest) := by
  have hnumber := readNumber_natText neg n h
  obtain ⟨d, ds, hd⟩ := exists_cons_of_ne_nil (show natText n ≠ [] from Nat.toDigits_ne_nil)
  have hne : ∀ c : Char, c.isDigit = false → c ≠ d := by
    rintro c hc rfl
    rw [digit_of_mem_natText (n := n) (hd ▸ mem_cons_self)] at hc
    cases hc
  have hother : d ∉ ['"', '[', '\x7b'] := by simp [Ne.symm (hne _ _)]
  have hname : readName ((if neg then ['-'] else []) ++ (natText n ++ rest)) = none := by
    rw [hd]
    cases neg <;> simp [readName, hne]
  rw [hd] at hname hnumber ⊢
  cases neg with
  | true =>
    refine (readValue_other (by decide) fuel _).trans ?_
    exact (congrArg (Option.orElse · _) hname).trans hnumber
  | false =>
    refine (readValue_other hother fuel _).trans ?_
    exact (congrArg (Option.orElse · _) hname).trans hnumber

theorem readValue_intText (i : Int) (fuel : Nat) (h : Ended rest) :
    readValue (fuel + 1) (intText i ++ rest) = some (.int i, rest) := by
  cases i with
  | ofNat n => exact readValue_natText false n fuel h
  | negSucc n => exact readValue_natText true (n + 1) fuel h

/-! ## what is written -/

/-- the pieces of a value at nesting depth `n` -/
abbrev parts (n : Nat) (v : Json) : List (Option Text) := v.pieces jsonQuote perLine n

/-- the pieces of an entry of a dictionary -/
def entryParts (n : Nat) (e : List CodePoint × Json) : List (Option Text) :=
  jsonQuote e.1 :: some ": " :: parts n e.2

/-- what is written of rows behind `lead` -/
def rows (n : Nat) (lead : Text) (rs : List (List (Option Text))) : Text × Bool :=
  written (rowPieces perLine n lead rs)

theorem written_append (ps qs : List (Option Text)) : written (ps ++ qs)
    = (if (written ps).2 then (written ps).1 ++ (written qs).1 else (written ps).1,
      (written ps).2 && (written qs).2) := by
  induction ps with
  | nil => rfl
  | cons p ps ih =>
    cases p with
    | none => rfl
    | some t =>
      rw [cons_append, written, written, ih]
      cases h : (written ps).2 <;> simp

theorem rows_cons (n : Nat) (r : List (Option Text)) (rs : List (List (Option Text))) :
    ((written r).2 = false → rows n [] (r :: rs) = ((written r).1, false))
      ∧ ((written r).2 → rows n [] (r :: rs)
        = ((written r).1 ++ (rows n (perLine.between n) rs).1,
          (rows n (perLine.between n) rs).2)) := by
  have hled : ∀ qs, written (led [] r ++ qs) = written (r ++ qs) := by
    intro qs
    rcases r with _ | ⟨_ | t, _ | ⟨q, ps⟩⟩ <;> rfl
  constructor <;> intro hb
  all_goals
    rw [rows, rowPieces, hled, written_append, hb]
    rfl

/-- what is in front of rows is written with them, unless the first is a text that cannot be -/
theorem rows_lead (n : Nat) (lead : Text) (r : List (Option Text))
    (rs : List (List (Option Text))) :
    rows n lead (r :: rs) = (lead ++ (rows n [] (r :: rs)).1, (rows n [] (r :: rs)).2)
      ∨ rows n lead (r :: rs) = ([], false) ∧ rows n [] (r :: rs) = ([], false) := by
  rw [rows, rows, rowPieces, rowPieces]
  rcases r with _ | ⟨_ | t, _ | ⟨q, ps⟩⟩
  · exact .inl rfl
  · exact .inr ⟨rfl, rfl⟩
  · exact .inl rfl
  · exact .inl (by simp [led, written])
  · exact .inl rfl

theorem rows_snd (n : Nat) (lead : Text) (rs : List (List (Option Text))) :
    (rows n lead rs).2 ↔ ∀ r ∈ rs, (written r).2 := by
  induction rs generalizing lead with
  | nil => simp [rows, rowPieces, written]
  | cons r rs ih =>
    have hlead : (rows n lead (r :: rs)).2 = (rows n [] (r :: rs)).2 := by
      rcases rows_lead n lead r rs with hl | ⟨hl, hn⟩
      · rw [hl]
      · rw [hl, hn]
    rw [hlead, forall_mem_cons, ← ih (perLine.between n)]
    cases hb : (written r).2 with
    | false => simp [(rows_cons n r rs).1 hb]
    | true => simp [(rows_cons n r rs).2 hb]

/-! ## rows -/

/-- a row with less than `b` characters is read off the front of a text by `row`; if not all of it
could be written, what was written is refused -/
structure RowOff {α : Type} (row : Text → Option (α × Text)) (close : Char) (b : Nat)
    (r : List (Option Text)) (a : α) : Prop where
  head : ∀ c ∈ (written r).1.head?, isJsonBlank c = false ∧ c ≠ close
  nonempty : (written r).2 = true → (written r).1 ≠ []
  reads : (written r).2 = true → (written r).1.length < b → ∀ rest, Ended rest →
    row ((written r).1 ++ rest) = some (a, rest)
  stops : (written r).2 = false → (written r).1.length < b → row (written r).1 = none

section
variable {α : Type} {row : Text → Option (α × Text)} {close : Char} {b : Nat} {a : α}
  {r : List (Option Text)} {rs : List (List (Option Text))}

theorem skipJsonBlanks_append {b t : Text} (hb : b.all isJsonBlank)
    (ht : ∀ c ∈ t.head?, isJsonBlank c = false) : skipJsonBlanks (b ++ t) = t := by
  unfold skipJsonBlanks
  rw [dropWhile_append_of_pos (all_eq_true.mp hb)]
  cases t with
  | nil => rfl
  | cons c t => exact dropWhile_cons_of_neg (by simp [ht c rfl])

theorem blank_opened (n : Nat) : (perLine.opened n).all isJsonBlank := by
  simp [perLine, isJsonBlank]

theorem readRows_of_none {t : Text} (h : row t = none) (fuel : Nat) (done : List α) :
    readRows row close fuel done t = none := by
  cases fuel with
  | zero => rfl
  | succ fuel => rw [readRows, h]

theorem RowOff.head_append (h : RowOff row close b r a) {t : Text} (ht : (written r).2 ∨ t = []) :
    ∀ c ∈ ((written r).1 ++ t).head?, isJsonBlank c = false ∧ c ≠ close := by
  rcases ht with hr | rfl
  · rw [head?_append_of_ne_nil _ (h.nonempty hr)]
    exact h.head
  · rw [append_nil]
    exact h.head

theorem rows_head (h : RowOff row close b r a) (n : Nat) (rs : List (List (Option Text))) {t : Text}
    (ht : (rows n [] (r :: rs)).2 ∨ t = []) :
    ∀ c ∈ ((rows n [] (r :: rs)).1 ++ t).head?, isJsonBlank c = false ∧ c ≠ close := by
  cases hb : (written r).2 with
  | false =>
    rw [(rows_cons n r rs).1 hb] at ht ⊢
    exact h.head_append (.inr (ht.resolve_left Bool.false_ne_true))
  | true =>
    rw [(rows_cons n r rs).2 hb, append_assoc]
    exact h.head_append (.inl hb)

/-- rows are read up to the sign that closes them, or refused where the writing stopped -/
theorem readRows_rows (n : Nat) {as : List α} (h : Forall₂ (RowOff row close b) (r :: rs) (a :: as))
    (hclose : isJsonBlank close = false ∧ close ≠ ',') (hb : (rows n [] (r :: rs)).1.length < b)
    (hfuel : (rows n [] (r :: rs)).1.length ≤ fuel) (done : List α) :
    ((rows n [] (r :: rs)).2 → ∀ rest, readRows row close fuel done
        ((rows n [] (r :: rs)).1 ++ (perLine.closing n ++ close :: rest))
          = some (done.reverse ++ a :: as, rest))
      ∧ ((rows n [] (r :: rs)).2 = false → readRows row close fuel done (rows n [] (r :: rs)).1
        = none) := by
  induction rs generalizing r a as done fuel with
  | nil =>
    obtain ⟨hr, hnil⟩ := forall₂_cons.mp h
    obtain rfl := forall₂_nil_left_iff.mp hnil
    cases hw : (written r).2 with
    | false =>
      rw [(rows_cons n r []).1 hw] at hb ⊢
      exact ⟨fun hf => (by cases hf), fun _ => readRows_of_none (hr.stops hw hb) fuel done⟩
    | true =>
      have hrows : rows n [] [r] = ((written r).1, true) := by
        rw [(rows_cons n r []).2 hw, show rows n _ [] = ([], true) from rfl, append_nil]
      rw [hrows] at hb hfuel ⊢
      refine ⟨fun _ rest => ?_, fun hf => by cases hf⟩
      obtain ⟨fuel, rfl⟩ := Nat.exists_eq_add_one_of_ne_zero
        (Nat.ne_zero_of_lt (Nat.lt_of_lt_of_le (length_pos_iff.mpr (hr.nonempty hw)) hfuel))
      have hskip : skipJsonBlanks (perLine.closing n ++ close :: rest) = close :: rest :=
        skipJsonBlanks_append (by simp [perLine, isJsonBlank]) (by simpa using hclose.1)
      have hended : Ended (perLine.closing n ++ close :: rest) := .inr ⟨'\n', _, rfl, .inr rfl⟩
      rw [readRows, hr.reads hw hb _ hended]
      dsimp only
      rw [hskip]
      dsimp only
      rw [if_pos rfl, reverse_cons]
  | cons r' rs ih =>
    obtain ⟨hr, hrs⟩ := forall₂_cons.mp h
    obtain ⟨a', as, hr', -, rfl⟩ := forall₂_cons_left_iff.mp hrs
    cases hw : (written r).2 with
    | false =>
      rw [(rows_cons n r _).1 hw] at hb ⊢
      exact ⟨fun hf => (by cases hf), fun _ => readRows_of_none (hr.stops hw hb) fuel done⟩
    | true =>
      rw [(rows_cons n r _).2 hw] at hb hfuel ⊢
      have hpos := length_pos_iff.mpr (hr.nonempty hw)
      rw [length_append] at hb hfuel
      obtain ⟨fuel, rfl⟩ := Nat.exists_eq_add_one_of_ne_zero (n := fuel) (by omega)
      rcases rows_lead n (perLine.between n) r' rs with hl | ⟨hl, -⟩
      · have hbetween : perLine.between n = ',' :: perLine.opened n := rfl
        rw [hl, hbetween] at hb hfuel ⊢
        rw [cons_append, length_cons, length_append] at hb hfuel
        have hstep : ∀ t, ((rows n [] (r' :: rs)).2 ∨ t = []) → readRows row close (fuel + 1) done
            ((written r).1 ++ (',' :: perLine.opened n ++ (rows n [] (r' :: rs)).1) ++ t)
              = readRows row close fuel (a :: done) ((rows n [] (r' :: rs)).1 ++ t) := by
          intro t ht
          rw [append_assoc, append_assoc, cons_append, readRows,
            hr.reads hw (by omega) _ (.inr ⟨',', _, rfl, .inl rfl⟩)]
          show (if ',' = close then _ else readRows row close fuel (a :: done) (skipJsonBlanks _))
            = _
          rw [if_neg hclose.2.symm,
            skipJsonBlanks_append (blank_opened n) fun c hc => (rows_head hr' n rs ht c hc).1]
        obtain ⟨hwhole, htorn⟩ := ih hrs (by omega) (show _ ≤ fuel by omega) (a :: done)
        refine ⟨fun ht rest => ?_, fun ht => ?_⟩
        · rw [hstep _ (.inl ht), hwhole ht]
          simp
        · have hnone := hstep [] (.inr rfl)
          rw [append_nil, append_nil] at hnone
          rw [hnone, htorn ht]
      · -- the comma in front of a text that cannot be written is not written either
        rw [hl, append_nil]
        have hread := hr.reads hw (by omega) [] (.inl rfl)
        rw [append_nil] at hread
        refine ⟨fun hf => (by cases hf), fun _ => ?_⟩
        rw [readRows, hread]
        rfl

end

/-! ## characters of a text form -/

theorem digit_of_mem_leading {x : Binary} (h : c ∈ x.leading.1) : c.isDigit = true := by
  unfold Binary.leading at h
  dsimp only at h
  split at h
  · obtain rfl := mem_singleton.mp h
    rfl
  · have hmem := (dropWhile_sublist _).mem (mem_reverse.mp h)
    exact digit_of_mem_natText (mem_reverse.mp hmem)

def isNumeral (c : Char) : Bool := c.isAlphanum || c == '.' || c == '+' || c == '-'

theorem isNumeral_of_isDigit (h : c.isDigit) : isNumeral c = true := by
  simp [isNumeral, Char.isAlphanum, h]

theorem isNumeral_text (x : Binary) : x.text.all isNumeral := by
  have hpart : ∀ t : Text, t.Sublist x.leading.1 → t.all isNumeral := fun t h =>
    all_eq_true.mpr fun c hc => isNumeral_of_isDigit (digit_of_mem_leading (h.mem hc))
  have hzeros : ∀ n, (replicate n '0').all isNumeral := fun n =>
    all_eq_true.mpr fun c hc => by rw [eq_of_mem_replicate hc]; rfl
  have hpower : (natText x.leading.2.natAbs).all isNumeral = true :=
    all_eq_true.mpr fun c hc => isNumeral_of_isDigit (digit_of_mem_natText hc)
  unfold Binary.text
  dsimp only
  repeat' split
  all_goals
    simp only [all_append, all_cons, hzeros, hpart _ (take_sublist _ _), hpart _ (drop_sublist _ _),
      hpart _ (List.Sublist.refl _), hpower]
    rfl

theorem isNumeral_jsonReal (x : Floating) : (jsonReal x).all isNumeral := by
  cases x with
  | finite neg x =>
    show ((if neg then ['-'] else []) ++ x.text).all isNumeral
    rw [all_append, isNumeral_text]
    cases neg <;> rfl
  | infinite neg => cases neg <;> decide
  | undefined => decide

theorem isNumeral_intText (i : Int) : (intText i).all isNumeral := by
  have hdigits : ∀ n, (natText n).all isNumeral := fun n =>
    all_eq_true.mpr fun c hc => isNumeral_of_isDigit (digit_of_mem_natText hc)
  cases i with
  | ofNat n => exact hdigits n
  | negSucc n => rw [intText, all_cons, hdigits]; rfl

theorem ne_of_isNumeral {d : Char} (hc : isNumeral c) (hd : isNumeral d = false) : c ≠ d := by
  rintro rfl
  rw [hc] at hd
  cases hd

theorem carriage_not_mem_of_numerals {t : Text} (h : t.all isNumeral) : '\r' ∉ t := fun hr =>
  ne_of_isNumeral (all_eq_true.mp h _ hr) rfl rfl

theorem head_of_numerals {t : Text} (h : t.all isNumeral) :
    ∀ c ∈ t.head?, isJsonBlank c = false ∧ c ≠ ']' := by
  intro c hc
  have hne := fun d => ne_of_isNumeral (d := d) (all_eq_true.mp h c (mem_of_mem_head? hc))
  refine ⟨?_, hne _ rfl⟩
  simp [isJsonBlank, hne ' ' rfl, hne '\t' rfl, hne '\n' rfl, hne '\r' rfl]

/-! ## reading a value off a text -/

/-- no dictionary has a key twice, and fractions are read back from their digits -/
inductive Regular : Json → Prop
  | null : Regular .null
  | bool (b : Bool) : Regular (.bool b)
  | int (i : Int) : Regular (.int i)
  | text (t : List CodePoint) : Regular (.text t)
  | real (x : Floating) (reads : ∀ fuel rest, Ended rest →
      readValue (fuel + 1) (jsonReal x ++ rest) = some (.real x, rest)) : Regular (.real x)
  | list (vs : List Json) (items : ∀ v ∈ vs, Regular v) : Regular (.list vs)
  | dict (kvs : List (List CodePoint × Json)) (distinct : (kvs.map Prod.fst).Nodup)
      (entries : ∀ e ∈ kvs, Regular e.2) : Regular (.dict kvs)

/-- no text, keys included, has half of a surrogate pair in it -/
inductive Whole : Json → Prop
  | null : Whole .null
  | bool (b : Bool) : Whole (.bool b)
  | int (i : Int) : Whole (.int i)
  | real (x : Floating) : Whole (.real x)
  | text (t : List CodePoint) (plain : (whole? t).isSome) : Whole (.text t)
  | list (vs : List Json) (items : ∀ v ∈ vs, Whole v) : Whole (.list vs)
  | dict (kvs : List (List CodePoint × Json)) (keys : ∀ e ∈ kvs, (whole? e.1).isSome)
      (entries : ∀ e ∈ kvs, Whole e.2) : Whole (.dict kvs)

/-- the value is written in full iff it is whole, and is a row by itself -/
structure ReadOff (v : Json) : Prop where
  whole : ∀ n, (written (v.parts n)).2 ↔ v.Whole
  row : ∀ n fuel, RowOff (readValue fuel) ']' fuel (v.parts n) v

/-- a value that is written in one piece -/
theorem ReadOff.of_piece {t : Text} (hwhole : v.Whole) (hpieces : ∀ n, v.parts n = [some t])
    (head : ∀ c ∈ t.head?, isJsonBlank c = false ∧ c ≠ ']')
    (reads : ∀ fuel rest, Ended rest → readValue (fuel + 1) (t ++ rest) = some (v, rest)) :
    ReadOff v := by
  have hwritten : ∀ n, written (v.parts n) = (t, true) := fun n => by
    rw [hpieces, written, written, append_nil]
  refine ⟨fun n => by simp [hwritten, hwhole], fun n fuel => ⟨?_, ?_, ?_, ?_⟩⟩
  all_goals rw [hwritten]
  · exact head
  · rintro - rfl
    cases reads 0 [] (.inl rfl)
  · intro _ hfuel rest hrest
    obtain ⟨fuel, rfl⟩ := Nat.exists_eq_add_one_of_ne_zero (Nat.ne_zero_of_lt hfuel)
    exact reads fuel rest hrest
  · intro hf
    cases hf

theorem readValue_nil (fuel : Nat) : readValue fuel [] = none := by
  cases fuel <;> rfl

theorem readOff_text (t : List CodePoint) : ReadOff (.text t) := by
  cases ht : whole? t with
  | none =>
    have hwritten : ∀ n, written (parts n (.text t)) = ([], false) := fun n => by
      simp [pieces, jsonQuote, ht, written]
    refine ⟨fun n => ?_, fun n fuel => ⟨?_, ?_, ?_, ?_⟩⟩
    · rw [hwritten]
      exact ⟨fun hf => (by cases hf), fun hw => by cases hw; simp_all⟩
    all_goals simp [hwritten, readValue_nil]
  | some s =>
    refine .of_piece (t := jsonString s) (.text t (by simp [ht]))
      (fun n => ?_) ?_ fun fuel rest _ => ?_
    · simp [pieces, jsonQuote, ht]
    · simp [jsonString, isJsonBlank]
    · obtain rfl := whole?_eq_some.mp ht
      show (readChars [] (s.flatMap jsonChar ++ ['"'] ++ rest)).map _ = _
      rw [append_assoc, singleton_append, readChars_flatMap]
      rfl

/-- a list or a dictionary, from its rows -/
theorem ReadOff.of_rows {α : Type} {f : Nat → Text → Option (α × Text)} {o close : Char}
    {r : Nat → List (Option Text)} {rs : Nat → List (List (Option Text))} {a : α} {as : List α}
    {g : List α → Json} (hpieces : ∀ n, v.parts n
      = rowPieces perLine n (o :: perLine.opened n) (r n :: rs n)
        ++ [some (perLine.closing n ++ [close])])
    (hrows : ∀ n fuel, Forall₂ (RowOff (f fuel) close fuel) (r n :: rs n) (a :: as))
    (hread : ∀ n fuel t, (∀ c ∈ t.head?, isJsonBlank c = false ∧ c ≠ close) →
      readValue (fuel + 1) (o :: perLine.opened n ++ t)
        = (readRows (f fuel) close t.length [] t).map (fun x => (g x.1, x.2)))
    (hbuilt : g (a :: as) = v) (hopen : isJsonBlank o = false ∧ o ≠ ']')
    (hclose : isJsonBlank close = false ∧ close ≠ ',')
    (hwhole : ∀ n, (∀ x ∈ r n :: rs n, (written x).2) ↔ v.Whole) : ReadOff v := by
  have hcases : ∀ n, (rows n [] (r n :: rs n)).2
        ∧ written (v.parts n) = (o :: perLine.opened n
          ++ ((rows n [] (r n :: rs n)).1 ++ (perLine.closing n ++ [close])), true)
      ∨ (rows n [] (r n :: rs n)).2 = false ∧ (written (v.parts n) = ([], false)
        ∨ written (v.parts n)
          = (o :: perLine.opened n ++ (rows n [] (r n :: rs n)).1, false)) := by
    intro n
    rw [hpieces, written_append, ← rows]
    rcases rows_lead n (o :: perLine.opened n) (r n) (rs n) with hl | ⟨hl, hn⟩
    · rw [hl]
      cases (rows n [] (r n :: rs n)).2 <;> simp [written]
    · rw [hl, hn]
      simp
  have hhead := fun n fuel t => rows_head (forall₂_cons.mp (hrows n fuel)).1 n (rs n) (t := t)
  refine ⟨fun n => ?_, fun n fuel => ?_⟩
  · rw [← hwhole n, ← rows_snd n []]
    rcases hcases n with ⟨hr, hw⟩ | ⟨hr, hw | hw⟩ <;> rw [hw, hr]
  · rcases hcases n with ⟨hr, hw⟩ | ⟨hr, hw | hw⟩
    all_goals refine ⟨?_, ?_, ?_, ?_⟩ <;> rw [hw]
    · simpa using hopen
    · simp
    · intro _ hfuel rest _
      simp only [length_append, length_cons] at hfuel
      obtain ⟨fuel, rfl⟩ := Nat.exists_eq_add_one_of_ne_zero (Nat.ne_zero_of_lt hfuel)
      rw [append_assoc, append_assoc, append_assoc, singleton_append,
        hread n fuel _ (hhead n fuel _ (.inl hr)),
        (readRows_rows n (hrows n fuel) hclose (by omega)
          (length_append ▸ Nat.le_add_right _ _) []).1 hr]
      simp [hbuilt]
    · simp
    · simp
    · simp
    · simp
    · simp [readValue_nil]
    · simpa using hopen
    · simp
    · simp
    · intro _ hfuel
      simp only [length_append, length_cons] at hfuel
      obtain ⟨fuel, rfl⟩ := Nat.exists_eq_add_one_of_ne_zero (Nat.ne_zero_of_lt hfuel)
      have hstart := hhead n fuel [] (.inr rfl)
      rw [append_nil] at hstart
      have hopened : 0 < (perLine.opened n).length := Nat.succ_pos _
      rw [hread n fuel _ hstart, (readRows_rows n (hrows n fuel) hclose (by omega) le_rfl []).2 hr]
      rfl

theorem itemRows_eq (n : Nat) (vs : List Json) :
    itemRows jsonQuote perLine n vs = vs.map (parts (n + 1)) := by
  induction vs with
  | nil => rfl
  | cons v vs ih => rw [itemRows, ih, map_cons]

theorem readOff_list (h : ∀ v ∈ vs, ReadOff v) : ReadOff (.list vs) := by
  cases vs with
  | nil =>
    exact .of_piece (t := ['[', ']']) (.list [] (by simp)) (fun _ => rfl) (by simp [isJsonBlank])
      fun _ _ _ => rfl
  | cons v vs =>
    refine .of_rows (f := readValue) (o := '[') (g := .list) (fun _ => rfl)
      (fun n fuel => ?_) (fun n fuel t ht => ?_) rfl (by decide) (by decide) fun n => ?_
    · show Forall₂ _ (itemRows jsonQuote perLine n (v :: vs)) _
      rw [itemRows_eq, forall₂_map_left_iff]
      exact forall₂_same.mpr fun w hw => (h w hw).row (n + 1) fuel
    · rw [cons_append, readValue, skipJsonBlanks_append (blank_opened n) fun c hc => (ht c hc).1]
      split
      · exact absurd rfl (ht ']' rfl).2
      · rfl
    · show (∀ r ∈ itemRows jsonQuote perLine n (v :: vs), _) ↔ _
      rw [itemRows_eq, forall_mem_map]
      refine ⟨fun hw => .list _ fun w hmem => ((h w hmem).whole (n + 1)).mp (hw w hmem),
        fun hw => ?_⟩
      cases hw with
      | list _ hitems => exact fun w hmem => ((h w hmem).whole (n + 1)).mpr (hitems w hmem)

theorem entryRows_eq (n : Nat) (kvs : List (List CodePoint × Json)) :
    entryRows jsonQuote perLine n kvs = kvs.map (entryParts (n + 1)) := by
  induction kvs with
  | nil => rfl
  | cons e kvs ih =>
    rw [entryRows, ih, map_cons]
    rfl

/-- the key and the colon are read off, and the value decides -/
theorem rowOff_entry (k : List CodePoint) (h : ReadOff v) (n fuel : Nat) :
    RowOff (readEntry (readValue fuel)) '\x7d' fuel (entryParts n (k, v)) (k, v) := by
  have hrow := h.row n fuel
  cases hk : whole? k with
  | none =>
    have hwritten : written (entryParts n (k, v)) = ([], false) := by
      rw [entryParts, jsonQuote, hk]
      rfl
    refine ⟨?_, ?_, ?_, ?_⟩ <;> rw [hwritten]
    all_goals simp [readEntry]
  | some s =>
    obtain rfl := whole?_eq_some.mp hk
    have hwritten : written (entryParts n (s.map .char, v))
        = ('"' :: (s.flatMap jsonChar ++ '"' :: ':' :: ' ' :: (written (v.parts n)).1),
          (written (v.parts n)).2) := by
      simp [entryParts, jsonQuote, hk, written, jsonString]
    have hentry : ∀ t : Text, (∀ c ∈ t.head?, isJsonBlank c = false) → readEntry (readValue fuel)
        ('"' :: (s.flatMap jsonChar ++ '"' :: ':' :: ' ' :: t))
          = (readValue fuel t).map (fun x => ((s.map .char, x.1), x.2)) := by
      intro t ht
      have hcolon : skipJsonBlanks (':' :: ' ' :: t) = ':' :: ' ' :: t := rfl
      have hblank : skipJsonBlanks (' ' :: t) = t :=
        skipJsonBlanks_append (b := [' ']) (by decide) ht
      rw [readEntry, readChars_flatMap]
      simp only [Option.bind_eq_bind, Option.bind_some, hcolon, hblank]
      cases readValue fuel t <;> rfl
    refine ⟨?_, ?_, ?_, ?_⟩ <;> rw [hwritten]
    · simp [isJsonBlank]
    · simp
    · intro hw hfuel rest hrest
      simp only [length_cons, length_append] at hfuel
      have hstart := fun c hc => (hrow.head_append (t := rest) (.inl hw) c hc).1
      rw [cons_append, append_assoc, cons_append, cons_append, cons_append, hentry _ hstart,
        hrow.reads hw (by omega) rest hrest]
      rfl
    · intro hw hfuel
      simp only [length_cons, length_append] at hfuel
      rw [hentry _ fun c hc => (hrow.head c hc).1, hrow.stops hw (by omega)]
      rfl

theorem foldl_put (done : List (List CodePoint × Json)) (h : ((done ++ kvs).map Prod.fst).Nodup) :
    kvs.foldl (fun done e => put e.1 e.2 done) done = done ++ kvs := by
  induction kvs generalizing done with
  | nil => simp
  | cons e kvs ih =>
    have hput : put e.1 e.2 done = done ++ [e] := by
      clear ih
      induction done with
      | nil => rfl
      | cons d done ih =>
        rw [cons_append, map_cons, nodup_cons] at h
        rw [put, if_neg fun hd => h.1 (by simp [hd]), ih h.2]
        rfl
    rw [foldl_cons, hput, ih _ (by simpa using h), append_assoc, singleton_append]

theorem readOff_dict (hdistinct : (kvs.map Prod.fst).Nodup) (h : ∀ e ∈ kvs, ReadOff e.2) :
    ReadOff (.dict kvs) := by
  cases kvs with
  | nil =>
    exact .of_piece (t := ['\x7b', '\x7d']) (.dict [] (by simp) (by simp)) (fun _ => rfl)
      (by simp [isJsonBlank]) fun _ _ _ => rfl
  | cons e kvs =>
    refine .of_rows (f := fun fuel => readEntry (readValue fuel)) (o := '\x7b')
      (g := fun kvs => .dict (kvs.foldl (fun done e => put e.1 e.2 done) []))
      (fun _ => rfl) (fun n fuel => ?_) (fun n fuel t ht => ?_)
      (congrArg _ (foldl_put [] hdistinct)) (by decide) (by decide) fun n => ?_
    · show Forall₂ _ (entryRows jsonQuote perLine n (e :: kvs)) _
      rw [entryRows_eq, forall₂_map_left_iff]
      exact forall₂_same.mpr fun e he => rowOff_entry e.1 (h e he) (n + 1) fuel
    · rw [cons_append, readValue, skipJsonBlanks_append (blank_opened n) fun c hc => (ht c hc).1]
      split
      · exact absurd rfl (ht '\x7d' rfl).2
      · rfl
    · have hwritten : ∀ e : List CodePoint × Json, ReadOff e.2 →
          ((written (entryParts (n + 1) e)).2 ↔ (whole? e.1).isSome ∧ e.2.Whole) := by
        intro e he
        rw [← he.whole (n + 1), entryParts, jsonQuote]
        cases whole? e.1 <;> simp [written]
      show (∀ r ∈ entryRows jsonQuote perLine n (e :: kvs), _) ↔ _
      rw [entryRows_eq, forall_mem_map]
      refine ⟨fun hw => ?_, fun hw => ?_⟩
      · have hall := fun e he => (hwritten e (h e he)).mp (hw e he)
        exact .dict _ (fun e he => (hall e he).1) fun e he => (hall e he).2
      · cases hw with
        | dict _ hkeys hvalues =>
          exact fun e he => (hwritten e (h e he)).mpr ⟨hkeys e he, hvalues e he⟩

theorem Regular.readOff (h : Regular v) : ReadOff v := by
  induction h with
  | null => exact .of_piece .null (fun _ => rfl) (head_of_numerals (by decide)) fun _ _ _ => rfl
  | bool b =>
    cases b <;>
      exact .of_piece (.bool _) (fun _ => rfl) (head_of_numerals (by decide)) fun _ _ _ => rfl
  | int i =>
    exact .of_piece (.int i) (fun _ => rfl) (head_of_numerals (isNumeral_intText i))
      fun fuel _ => readValue_intText i fuel
  | text t => exact readOff_text t
  | real x reads =>
    exact .of_piece (.real x) (fun _ => rfl) (head_of_numerals (isNumeral_jsonReal x)) reads
  | list vs _ ih => exact readOff_list ih
  | dict kvs distinct _ ih => exact readOff_dict distinct ih

/-- a value is read back from what is written of it if that is all of it, and refused otherwise -/
theorem ofJson?_jsonText (h : Regular v) :
    (v.jsonText.2 ↔ v.Whole) ∧ (v.jsonText.2 → ofJson? v.jsonText.1 = some v)
      ∧ (v.jsonText.2 = false → ofJson? v.jsonText.1 = none) := by
  have hrow := h.readOff.row 0 (v.jsonText.1.length + 1)
  have hskip : skipJsonBlanks v.jsonText.1 = v.jsonText.1 :=
    skipJsonBlanks_append (b := []) rfl fun c hc => (hrow.head c hc).1
  refine ⟨h.readOff.whole 0, fun hv => ?_, fun hv => ?_⟩
  · have hvalue : readValue _ v.jsonText.1 = _ :=
      append_nil v.jsonText.1 ▸ hrow.reads hv (Nat.lt_succ_self _) [] (.inl rfl)
    rw [ofJson?, hskip, hvalue]
    rfl
  · have hvalue : readValue _ v.jsonText.1 = _ := hrow.stops hv (Nat.lt_succ_self _)
    rw [ofJson?, hskip, hvalue]

/-! ## ends of lines -/

/-- no piece holds an end of line that reading a file would change -/
def LineSafe (ps : List (Option Text)) : Prop := ∀ t, some t ∈ ps → '\r' ∉ t

theorem lineSafe_append {ps qs : List (Option Text)} (hp : LineSafe ps) (hq : LineSafe qs) :
    LineSafe (ps ++ qs) := fun t ht => (mem_append.mp ht).elim (hp t) (hq t)

theorem lineSafe_cons {p : Option Text} {ps : List (Option Text)} (hp : ∀ t ∈ p, '\r' ∉ t)
    (hps : LineSafe ps) : LineSafe (p :: ps) := fun t ht =>
  (mem_cons.mp ht).elim (hp t ∘ .symm) (hps t)

theorem lineSafe_rows {rs : List (List (Option Text))} (h : ∀ r ∈ rs, LineSafe r) {lead : Text}
    (hl : '\r' ∉ lead) : LineSafe (rowPieces perLine n lead rs) := by
  induction rs generalizing lead with
  | nil => simp [LineSafe, rowPieces]
  | cons r rs ih =>
    obtain ⟨hr, hrs⟩ := forall_mem_cons.mp h
    refine lineSafe_append ?_ (ih hrs (by simp [perLine]))
    have happart : LineSafe (some lead :: r) := lineSafe_cons (by simpa using hl) hr
    rcases r with _ | ⟨p, _ | ⟨q, ps⟩⟩
    · exact happart
    · refine lineSafe_cons (fun t ht => ?_) (by simp [LineSafe])
      obtain ⟨u, rfl, rfl⟩ := Option.map_eq_some_iff.mp ht
      simpa using ⟨hl, hr u mem_cons_self⟩
    · exact happart

theorem Regular.lineSafe (h : Regular v) (n : Nat) : LineSafe (v.parts n) := by
  have hone : ∀ t : Text, '\r' ∉ t → LineSafe [some t] := fun t ht =>
    lineSafe_cons (by simpa using ht) (by simp [LineSafe])
  have hquote : ∀ t : List CodePoint, ∀ s ∈ jsonQuote t, '\r' ∉ s := by
    intro t s hs
    obtain ⟨u, -, rfl⟩ := Option.map_eq_some_iff.mp hs
    exact carriage_not_mem_jsonString u
  induction h generalizing n with
  | null => exact hone _ (by decide)
  | bool b => cases b <;> exact hone _ (by decide)
  | int i => exact hone _ (carriage_not_mem_of_numerals (isNumeral_intText i))
  | text t => exact lineSafe_cons (hquote t) (by simp [LineSafe])
  | real x _ => exact hone _ (carriage_not_mem_of_numerals (isNumeral_jsonReal x))
  | list vs _ ih =>
    cases vs with
    | nil => exact hone _ (by decide)
    | cons v vs =>
      refine lineSafe_append (lineSafe_rows ?_ (by simp [perLine])) (hone _ (by simp [perLine]))
      rw [itemRows_eq, forall_mem_map]
      exact fun w hw => ih w hw (n + 1)
  | dict kvs _ _ ih =>
    cases kvs with
    | nil => exact hone _ (by decide)
    | cons e kvs =>
      refine lineSafe_append (lineSafe_rows ?_ (by simp [perLine])) (hone _ (by simp [perLine]))
      rw [entryRows_eq, forall_mem_map]
      exact fun e he => lineSafe_cons (hquote e.1) (lineSafe_cons (by decide) (ih e he (n + 1)))

theorem carriage_not_mem_jsonText (h : Regular v) : '\r' ∉ v.jsonText.1 := by
  have hwritten : ∀ ps, LineSafe ps → '\r' ∉ (written ps).1 := by
    intro ps hps
    induction ps with
    | nil => simp [written]
    | cons p ps ih =>
      cases p with
      | none => simp [written]
      | some t =>
        simpa [written] using ⟨hps t mem_cons_self, ih fun t ht => hps t (mem_cons_of_mem _ ht)⟩
  exact hwritten _ (h.lineSafe 0)

end Value

end Rebind
