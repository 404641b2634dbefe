import Mathlib
import Rebind.Proofs.Pattern.Reading
import Rebind.Proofs.Source.Counting
import Rebind.Proofs.Text.Lines

/-!
# Where the first class ends

The search for the end of a class walks over a masked text with a count of open braces.  Here it is
told from the text itself:

* `Zone.along z t n`: the zone in which the scanner stands after `n` characters;
* `LiveAt z t c n`: the character at `n` is a `c` that no comment and no quotes hide;
* `Closes body n`: a live closing brace with as many live braces of either kind before it;
* `PassedOver rest`: what follows a brace looks like another class;
* `EndsAt body n`: the first such brace that is not passed over.

One character adds `braceStep` to the count, also where a brace is passed over: the count is then
one below its level, and the next candidate is again a brace that finds as many of either kind
before it. So the count is never out of step with the live braces (`classEndFrom_eq_some_iff`), and
the end of the class is the first candidate that is not passed over (`classEnd_exact`).
-/

namespace Rebind

open List Pattern

/-! ## what is live -/

/-- the zone after `n` characters -/
def Zone.along : Zone → Text → Nat → Zone
  | z, _, 0 => z
  | z, [], _ + 1 => z
  | z, c :: t, n + 1 => (z.after c t.head?).along t n

def LiveAt (z : Zone) (t : Text) (c : Char) (n : Nat) : Prop :=
  t[n]? = some c ∧ (z.along t n).live c t[n + 1]?

instance (z : Zone) (t : Text) (c : Char) : DecidablePred (LiveAt z t c) := fun n =>
  inferInstanceAs (Decidable (t[n]? = some c ∧ (z.along t n).live c t[n + 1]?))

theorem liveAt_zero (z : Zone) (x c : Char) (t : Text) :
    LiveAt z (x :: t) c 0 ↔ x = c ∧ z.live x t.head? := by
  cases t <;> simp [LiveAt, Zone.along] <;> rintro rfl <;> rfl

theorem liveAt_succ (z : Zone) (x c : Char) (t : Text) (n : Nat) :
    LiveAt z (x :: t) c (n + 1) ↔ LiveAt (z.after x t.head?) t c n := Iff.rfl

theorem count_liveAt_succ (z : Zone) (x c : Char) (t : Text) (n : Nat) :
    Nat.count (LiveAt z (x :: t) c) (n + 1)
      = Nat.count (LiveAt (z.after x t.head?) t c) n
        + if x = c ∧ z.live x t.head? = true then 1 else 0 := by
  rw [Nat.count_succ', if_congr (liveAt_zero z x c t) rfl rfl]
  rfl

/-! ## masks -/

def shown (z : Zone) (c : Char) (next : Option Char) : Char := if z.live c next then c else ' '

theorem maskInertFrom_done (done : Text) (z : Zone) (t : Text) :
    maskInertFrom done z t = done.reverse ++ maskInertFrom [] z t := by
  induction t generalizing done z with
  | nil => simp [maskInertFrom]
  | cons c t ih =>
    rw [maskInertFrom, ih, maskInertFrom, ih [_]]
    simp

theorem maskInertFrom_cons (z : Zone) (c : Char) (t : Text) :
    maskInertFrom [] z (c :: t) = shown z c t.head? :: maskInertFrom [] (z.after c t.head?) t := by
  rw [maskInertFrom, maskInertFrom_done]
  rfl

theorem shown_eq_iff {z : Zone} {c x : Char} {next : Option Char} (hx : x ≠ ' ') :
    shown z c next = x ↔ c = x ∧ z.live c next := by
  unfold shown
  split
  · next h => simp [h]
  · next h => simp [h, hx.symm]

/-! ## candidates -/

/-- a live closing brace at which one brace is open, when `d` are open before the text -/
def Candidate (z : Zone) (d : Int) (t : Text) (n : Nat) : Prop :=
  LiveAt z t '\x7d' n
    ∧ d + Nat.count (LiveAt z t '\x7b') n - Nat.count (LiveAt z t '\x7d') n = 1

theorem candidate_zero (z : Zone) (d : Int) (c : Char) (t : Text) :
    Candidate z d (c :: t) 0 ↔ shown z c t.head? = '\x7d' ∧ d = 1 := by
  rw [shown_eq_iff (by decide), Candidate, liveAt_zero]
  simp

theorem candidate_succ (z : Zone) (d : Int) (c : Char) (t : Text) (n : Nat) :
    Candidate z d (c :: t) (n + 1)
      ↔ Candidate (z.after c t.head?) (d + braceStep (shown z c t.head?)) t n := by
  unfold Candidate
  rw [liveAt_succ, count_liveAt_succ, count_liveAt_succ,
    ← if_congr (shown_eq_iff (by decide)) rfl rfl, ← if_congr (shown_eq_iff (by decide)) rfl rfl]
  refine and_congr_right fun _ => ?_
  unfold braceStep
  split_ifs with h₁ h₂
  · rw [h₁] at h₂
    exact absurd h₂ (by decide)
  · push_cast
    constructor <;> intro h <;> omega
  · push_cast
    constructor <;> intro h <;> omega
  · push_cast
    constructor <;> intro h <;> omega

/-- what stands behind a brace looks like another class: past the blanks there are two characters or
more, the first is no closing brace, and they start with `class` or, being more than ten, hold it
among their first ten -/
def PassedOver (rest : Text) : Prop :=
  2 ≤ (rest.dropWhile isPlainBlank).length ∧ (trim rest).head? ≠ some '\x7d'
    ∧ ("class" <+: rest.dropWhile isPlainBlank
      ∨ 10 < (rest.dropWhile isPlainBlank).length
        ∧ "class" <:+: (rest.dropWhile isPlainBlank).take 10)

theorem trim_ne_nil_of_class {rest : Text} (h : "class" <:+: rest) : trim rest ≠ [] := by
  intro he
  have hblank : ∀ c ∈ rest, isBlank c := by
    unfold trim trimRight at he
    rw [reverse_eq_nil_iff, dropWhile_eq_nil_iff] at he
    intro c hc
    by_cases hl : c ∈ trimLeft rest
    · exact he c (mem_reverse.mpr hl)
    · have hsplit := takeWhile_append_dropWhile (p := isBlank) (l := rest)
      rw [← hsplit, mem_append] at hc
      exact hc.elim (fun hc => mem_takeWhile_imp hc) (fun hc => absurd hc hl)
  exact absurd (hblank 'c' (h.mem (by decide))) (by decide)

theorem classFollows_iff (rest : Text) : classFollows rest ↔ PassedOver rest := by
  have hsuffix : rest.dropWhile isPlainBlank <:+ rest := dropWhile_suffix _
  have hfive : (rest.dropWhile isPlainBlank).take 5 = "class"
      ↔ "class" <+: rest.dropWhile isPlainBlank := by
    rw [prefix_iff_eq_take]
    exact eq_comm
  simp only [classFollows, PassedOver, Bool.and_eq_true, Bool.or_eq_true, decide_eq_true_eq,
    bne_iff_ne, beq_iff_eq, hfive, occursIn_iff, Bool.not_eq_true', isEmpty_eq_false_iff]
  constructor
  · rintro ⟨⟨⟨-, hclose⟩, hlen⟩, hclass⟩
    exact ⟨hlen, hclose, hclass⟩
  · rintro ⟨hlen, hclose, hclass⟩
    -- a class that follows is no white space, so something is left by trimming
    have hin : "class" <:+: rest := by
      rcases hclass with h | ⟨-, h⟩
      · exact h.isInfix.trans hsuffix.isInfix
      · exact (h.trans (List.take_prefix _ _).isInfix).trans hsuffix.isInfix
    exact ⟨⟨⟨trim_ne_nil_of_class hin, hclose⟩, hlen⟩, hclass⟩

instance (rest : Text) : Decidable (PassedOver rest) := decidable_of_iff _ (classFollows_iff rest)

/-! ## the search -/

/-- the first candidate that is not passed over -/
def FirstEnd (z : Zone) (d : Int) (t : Text) (n : Nat) : Prop :=
  Candidate z d t n ∧ ¬ PassedOver (t.drop (n + 1))
    ∧ ∀ j < n, Candidate z d t j → PassedOver (t.drop (j + 1))

theorem firstEnd_zero (z : Zone) (d : Int) (c : Char) (t : Text) :
    FirstEnd z d (c :: t) 0 ↔ (shown z c t.head? = '\x7d' ∧ d = 1) ∧ ¬ PassedOver t := by
  rw [FirstEnd, candidate_zero]
  simp

theorem firstEnd_succ (z : Zone) (d : Int) (c : Char) (t : Text) (n : Nat) :
    FirstEnd z d (c :: t) (n + 1)
      ↔ (shown z c t.head? = '\x7d' ∧ d = 1 → PassedOver t)
        ∧ FirstEnd (z.after c t.head?) (d + braceStep (shown z c t.head?)) t n := by
  rw [← candidate_zero z d c t]
  unfold FirstEnd
  rw [candidate_succ, drop_succ_cons]
  constructor
  · rintro ⟨hn, hend, hbefore⟩
    refine ⟨hbefore 0 (by omega), hn, hend, fun j hj hc => ?_⟩
    exact hbefore (j + 1) (by omega) ((candidate_succ z d c t j).mpr hc)
  · rintro ⟨hfirst, hn, hend, hbefore⟩
    refine ⟨hn, hend, fun j hj hc => ?_⟩
    cases j with
    | zero => exact hfirst hc
    | succ j => exact hbefore j (by omega) ((candidate_succ z d c t j).mp hc)

theorem classEndFrom_cons (i : Nat) (d : Int) (a c : Char) (live t : Text) :
    (classEndFrom i d (a :: live) (c :: t)).value
      = if (a = '\x7d' ∧ d = 1) ∧ ¬ PassedOver t then some (i + 1)
        else (classEndFrom (i + 1) (d + braceStep a) live t).value := by
  have hne : ('\x7d' : Char) ≠ '\x7b' := by decide
  rw [classEndFrom]
  by_cases ha : a = '\x7d'
  · subst ha
    by_cases hd : d = 1
    · subst hd
      by_cases hf : classFollows t = true
      · simp [Traced.value_note_bind, hf, (classFollows_iff t).mp hf, braceStep, hne]
      · have hp : ¬ PassedOver t := fun hp => hf ((classFollows_iff t).mpr hp)
        simp [Traced.value_note_bind, Traced.value_pure, hf, hp]
    · simp [hd, braceStep, hne, sub_eq_add_neg]
  · by_cases ho : a = '\x7b'
    · simp [ho, hne.symm, braceStep]
    · simp [ha, ho, braceStep]

/-- the count keeps step with the live braces, so that the search finds the first end -/
theorem classEndFrom_eq_some_iff (t : Text) (z : Zone) (i : Nat) (d : Int) (k : Nat) :
    (classEndFrom i d (maskInertFrom [] z t) t).value = some k
      ↔ ∃ n, k = i + n + 1 ∧ FirstEnd z d t n := by
  induction t generalizing z i d with
  | nil =>
    have hnone : (classEndFrom i d (maskInertFrom [] z []) []).value = none := rfl
    rw [hnone]
    simp [FirstEnd, Candidate, LiveAt]
  | cons c t ih =>
    rw [maskInertFrom_cons, classEndFrom_cons]
    split
    · next hend =>
      constructor
      · intro h
        exact ⟨0, (Option.some.inj h).symm, (firstEnd_zero z d c t).mpr hend⟩
      · rintro ⟨n, hk, hn⟩
        cases n with
        | zero => rw [hk]
        | succ n => exact absurd (((firstEnd_succ z d c t n).mp hn).1 hend.1) hend.2
    · next hend =>
      have hpass : shown z c t.head? = '\x7d' ∧ d = 1 → PassedOver t := fun h =>
        by_contra fun hp => hend ⟨h, hp⟩
      rw [ih]
      constructor
      · rintro ⟨n, hk, hn⟩
        exact ⟨n + 1, by omega, (firstEnd_succ z d c t n).mpr ⟨hpass, hn⟩⟩
      · rintro ⟨n, hk, hn⟩
        cases n with
        | zero => exact absurd ((firstEnd_zero z d c t).mp hn) hend
        | succ n => exact ⟨n, by omega, ((firstEnd_succ z d c t n).mp hn).2⟩

/-! ## the end of the first class -/

/-- the brace at `q` ends the header of the first class -/
def HeaderBrace (code : Text) (q : Nat) : Prop :=
  code[q]? = some '\x7b' ∧ (mainClassHeader.search code).map (·.stop) = some (q + 1)

instance (code : Text) (q : Nat) : Decidable (HeaderBrace code q) :=
  inferInstanceAs (Decidable (_ ∧ _))

/-- a live closing brace with as many live braces of either kind before it -/
def Closes (body : Text) (n : Nat) : Prop :=
  LiveAt .code body '\x7d' n
    ∧ Nat.count (LiveAt .code body '\x7b') n = Nat.count (LiveAt .code body '\x7d') n

/-- the first brace that closes the body and is not passed over -/
def EndsAt (body : Text) (n : Nat) : Prop :=
  Closes body n ∧ ¬ PassedOver (body.drop (n + 1)) ∧ ∀ j < n, Closes body j
    → PassedOver (body.drop (j + 1))

theorem closes_iff (body : Text) (n : Nat) : Closes body n ↔ Candidate .code 1 body n := by
  refine and_congr_right fun _ => ?_
  omega

theorem endsAt_iff (body : Text) (n : Nat) : EndsAt body n ↔ FirstEnd .code 1 body n := by
  simp only [EndsAt, FirstEnd, closes_iff]

theorem headerBrace_of_search {code : Text} {m : Match} (h : mainClassHeader.search code = some m) :
    ∃ q, m.stop = q + 1 ∧ HeaderBrace code q := by
  obtain ⟨q, hq, hx⟩ := (search_some h).last
    [.maybe (keyword "public"), keyword "class", word, .few (fun _ => true)] '\x7b'
  rw [Nat.zero_add] at hq
  exact ⟨q, hq, hx, by rw [h, Option.map_some, hq]⟩

theorem HeaderBrace.unique {code : Text} {q q' : Nat} (h : HeaderBrace code q)
    (h' : HeaderBrace code q') :
    q = q' := by
  have hstop := Option.some.inj (h.2.symm.trans h'.2)
  omega

theorem classEnd_of_search {code : Text} {m : Match} (h : mainClassHeader.search code = some m) :
    (classEnd code).value
      = (classEndFrom m.stop 1 (maskInert (code.drop m.stop)) (code.drop m.stop)).value := by
  unfold classEnd
  simp only [Traced.value_note_bind, h]

theorem classEnd_of_no_header {code : Text} (h : mainClassHeader.search code = none) :
    (classEnd code).value = none := by
  unfold classEnd
  simp only [Traced.value_note_bind, h]
  rfl

theorem classEnd_eq_some_iff (code : Text) (k : Nat) : (classEnd code).value = some k
    ↔ ∃ q n, HeaderBrace code q ∧ EndsAt (code.drop (q + 1)) n ∧ k = q + 1 + n + 1 := by
  cases h : mainClassHeader.search code with
  | none =>
    rw [classEnd_of_no_header h]
    simp [HeaderBrace, h]
  | some m =>
    obtain ⟨q, hq, hbrace⟩ := headerBrace_of_search h
    rw [classEnd_of_search h, hq, maskInert, classEndFrom_eq_some_iff]
    constructor
    · rintro ⟨n, hk, hn⟩
      exact ⟨q, n, hbrace, (endsAt_iff _ n).mpr hn, hk⟩
    · rintro ⟨q', n, hbrace', hn, hk⟩
      obtain rfl := hbrace'.unique hbrace
      exact ⟨n, hk, (endsAt_iff _ n).mp hn⟩

theorem exists_endsAt {body : Text} {n : Nat} (hn : Closes body n)
    (hend : ¬ PassedOver (body.drop (n + 1))) :
    ∃ j, EndsAt body j := by
  induction n using Nat.strong_induction_on with
  | _ n ih =>
    by_cases h : ∀ j < n, Closes body j → PassedOver (body.drop (j + 1))
    · exact ⟨n, hn, hend, h⟩
    · push Not at h
      obtain ⟨j, hj, hc, hp⟩ := h
      exact ih j hj hc hp

/-- the end of the first class is just past the first closing brace that finds as many live braces
of either kind between the header and itself and behind which no class seems to follow; there is
none iff there is no header or every such brace is passed over -/
theorem classEnd_exact (code : Text) :
    (∀ k, (classEnd code).value = some k
      ↔ ∃ q n, HeaderBrace code q ∧ EndsAt (code.drop (q + 1)) n ∧ k = q + 1 + n + 1)
    ∧ ((classEnd code).value = none ↔ mainClassHeader.search code = none
      ∨ ∃ q, HeaderBrace code q
        ∧ ∀ n, Closes (code.drop (q + 1)) n → PassedOver (code.drop (q + 1 + n + 1))) := by
  refine ⟨classEnd_eq_some_iff code, ?_⟩
  have hnone : (classEnd code).value = none ↔ ∀ q n, HeaderBrace code q
      → ¬ EndsAt (code.drop (q + 1)) n := by
    rw [Option.eq_none_iff_forall_ne_some]
    simp only [ne_eq, classEnd_eq_some_iff]
    constructor
    · intro h q n hq hn
      exact h _ ⟨q, n, hq, hn, rfl⟩
    · rintro h k ⟨q, n, hq, hn, -⟩
      exact h q n hq hn
  rw [hnone]
  cases hm : mainClassHeader.search code with
  | none => simp [HeaderBrace, hm]
  | some m =>
    obtain ⟨q, -, hq⟩ := headerBrace_of_search hm
    simp only [reduceCtorEq, false_or]
    constructor
    · intro h
      refine ⟨q, hq, fun n hn => ?_⟩
      by_contra hp
      have hp' : ¬ PassedOver ((code.drop (q + 1)).drop (n + 1)) := by rwa [drop_drop]
      obtain ⟨j, hj⟩ := exists_endsAt hn hp'
      exact h q j hq hj
    · rintro ⟨q', hq', hall⟩ q'' n hq'' ⟨hn, hp, -⟩
      obtain rfl := hq'.unique hq''
      rw [drop_drop] at hp
      exact hp (hall n hn)

end Rebind
