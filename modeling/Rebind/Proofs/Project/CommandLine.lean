import Mathlib
import Rebind.Project.Options

/-!
# What a command line says

A command line that asks for a run is a row of options with their values.  `Spoken words said` is
the grammar: each word stands for one option or several, and a word whose last option lacks its
value has that value behind it.  The options of a run are what was said last under each name
(`ofSaid`), and nothing else is read as a run (`spoken_of_read`).

`--backup` takes no value and has no letter, so only the words of `backupWords` say it
(`Spoken.backup_iff`).
-/

namespace Rebind

open List

namespace CommandLine

variable {flag : Flag} {flags : List (Flag × Option Text)} {said : List (Flag × Text)}
  {ws : List (Text × Word)} {words : List Text} {o : Options} {t v : Text}

def filled (v : Text) (x : Flag × Option Text) : Flag × Text := (x.1, x.2.getD v)

def Fits (x : Flag × Text) : Prop := x.1 ≠ .help ∧ (x.1 = .mode → x.2 ∈ modes)

/-- the word stands for these options; the last of them may lack its value -/
def Spells (t : Text) (flags : List (Flag × Option Text)) : Prop :=
  ∃ flag long joined, Word.classify t = some (.option flag long joined) ∧
    Cluster.ofOption flag joined = some ⟨flags, false⟩

/-- the words say these options, in this order -/
inductive Spoken : List Text → List (Flag × Text) → Prop
  | done : Spoken [] []
  | word {t : Text} {ts : List Text} {flags : List (Flag × Option Text)} {said : List (Flag × Text)}
      (h : Spells t flags) (hlast : needsNext flags = false)
      (hfit : ∀ x ∈ flags.map (filled []), Fits x) (hs : Spoken ts said) :
      Spoken (t :: ts) (flags.map (filled []) ++ said)
  | valued {t v : Text} {ts : List Text} {flags : List (Flag × Option Text)}
      {said : List (Flag × Text)} (h : Spells t flags) (hlast : needsNext flags)
      (hv : Word.classify v = some .plain) (hfit : ∀ x ∈ flags.map (filled v), Fits x)
      (hs : Spoken ts said) : Spoken (t :: v :: ts) (flags.map (filled v) ++ said)

def lastSaid (said : List (Flag × Text)) (flag : Flag) : Option Text := said.reverse.lookup flag

/-- the options that were said -/
def ofSaid (said : List (Flag × Text)) : Options where
  config := lastSaid said .config
  project := lastSaid said .project
  mode := lastSaid said .mode
  backup := (lastSaid said .backup).isSome
  verbose := (lastSaid said .verbose).isSome

theorem lastSaid_snoc (said : List (Flag × Text)) (x : Flag × Text) (flag : Flag) :
    lastSaid (said ++ [x]) flag = if flag = x.1 then some x.2 else lastSaid said flag := by
  by_cases h : flag = x.1
  · simp [lastSaid, lookup, h]
  · have hne : (flag == x.1) = false := by simpa using h
    simp [lastSaid, lookup, h, hne]

theorem lastSaid_eq_none_iff : lastSaid said flag = none ↔ ∀ v, (flag, v) ∉ said := by
  simp only [lastSaid, lookup_eq_none_iff, mem_reverse, bne_iff_ne]
  constructor
  · intro h v hv
    exact h (flag, v) hv rfl
  · rintro h x hx rfl
    exact h x.2 hx

theorem mem_of_lastSaid (h : lastSaid said flag = some v) : (flag, v) ∈ said := by
  induction said using reverseRecOn with
  | nil => cases h
  | append_singleton said x ih =>
    rw [lastSaid_snoc] at h
    split at h
    · rename_i hflag
      cases h
      simp [hflag]
    · exact mem_append_left _ (ih h)

theorem Spoken.fits (h : Spoken words said) : ∀ x ∈ said, Fits x := by
  induction h with
  | done => simp
  | word _ _ hfit _ ih => exact forall_mem_append.2 ⟨hfit, ih⟩
  | valued _ _ _ hfit _ ih => exact forall_mem_append.2 ⟨hfit, ih⟩

theorem take_ofSaid {x : Flag × Text} (hx : Fits x) :
    take (ofSaid said) x.1 x.2 = some (ofSaid (said ++ [x])) := by
  obtain ⟨flag, v⟩ := x
  obtain ⟨hhelp, hmode⟩ := hx
  cases flag with
  | help => exact absurd rfl hhelp
  | mode =>
    have hm : v ∈ modes := hmode rfl
    simp [take, ofSaid, lastSaid_snoc, hm]
  | _ => simp [take, ofSaid, lastSaid_snoc]

theorem fits_of_take {o' : Options} (hhelp : flag ≠ .help) (h : take o flag v = some o') :
    Fits (flag, v) := by
  refine ⟨hhelp, fun hmode => ?_⟩
  subst hmode
  by_contra hm
  simp [take, hm] at h

theorem takeAll_ofSaid {next : Text} (h : takeAll (ofSaid said) next flags = .run o) :
    (∀ x ∈ flags.map (filled next), Fits x) ∧ o = ofSaid (said ++ flags.map (filled next)) := by
  induction flags generalizing said with
  | nil =>
    rw [takeAll, CommandLine.run.injEq] at h
    simp [h]
  | cons x flags ih =>
    obtain ⟨flag, value⟩ := x
    rw [takeAll] at h
    split at h
    · cases h
    · rename_i hhelp
      split at h
      · rename_i o' ho'
        have hfit : Fits (filled next (flag, value)) := fits_of_take hhelp ho'
        have hnext : take (ofSaid said) flag (value.getD next) = _ := take_ofSaid hfit
        rw [ho', Option.some.injEq] at hnext
        subst hnext
        obtain ⟨hfits, ho⟩ := ih h
        exact ⟨by simpa using ⟨hfit, by simpa using hfits⟩, by simpa using ho⟩
      · cases h

/-! ### Words in a row -/

theorem classifyAll_eq_cons {x : Word} (h : Word.classifyAll words = some ((t, x) :: ws))
    (hx : x ≠ .unknown) :
    ∃ ts, words = t :: ts ∧ Word.classify t = some x ∧ Word.classifyAll ts = some ws := by
  cases words with
  | nil => simp [Word.classifyAll] at h
  | cons t' ts =>
    rw [Word.classifyAll] at h
    split at h
    · -- after two dashes nothing is known
      simp only [map_cons, Option.some.injEq, List.cons.injEq, Prod.mk.injEq] at h
      exact absurd h.1.2.symm hx
    · obtain ⟨y, hy, h⟩ := Option.bind_eq_some_iff.1 h
      obtain ⟨zs, hzs, h⟩ := Option.bind_eq_some_iff.1 h
      cases h
      exact ⟨ts, rfl, hy, hzs⟩

theorem not_spoiled_of_readFrom {o' : Options} {spoiled : Bool}
    (h : readFrom o spoiled ws = .run o') : spoiled = false := by
  fun_induction readFrom o spoiled ws <;> simp_all

/-- the words behind what was said say the rest of it -/
theorem spoken_of_readFrom (hws : Word.classifyAll words = some ws)
    (h : readFrom (ofSaid said) false ws = .run o) :
    ∃ more, Spoken words more ∧ o = ofSaid (said ++ more) := by
  generalize ho : ofSaid said = o₀ at h
  generalize hb : false = spoiled at h
  fun_induction readFrom o₀ spoiled ws generalizing said words with
  | case1 => cases h
  | case2 =>
    cases words with
    | nil =>
      rw [CommandLine.run.injEq] at h
      exact ⟨[], .done, by simp [ho, h]⟩
    | cons t ts =>
      rw [Word.classifyAll] at hws
      split at hws <;> simp [Option.bind_eq_some_iff] at hws
  | case3 => exact absurd (not_spoiled_of_readFrom h) (by decide)
  | case4 => exact absurd (not_spoiled_of_readFrom h) (by decide)
  | case5 => cases h
  | case6 o₀ spoiled t flag long joined cluster hcluster hneeds v rest o₁ htake ih =>
    obtain ⟨flags, lost⟩ := cluster
    obtain ⟨rfl, rfl⟩ : spoiled = false ∧ lost = false := by
      simpa using not_spoiled_of_readFrom h
    obtain ⟨us, rfl, ht, hus⟩ := classifyAll_eq_cons hws (by simp)
    obtain ⟨ts, rfl, hv, hts⟩ := classifyAll_eq_cons hus (by simp)
    subst ho
    obtain ⟨hfit, rfl⟩ := takeAll_ofSaid htake
    obtain ⟨more, hmore, rfl⟩ := ih hts rfl rfl h
    exact ⟨_, .valued ⟨flag, long, joined, ht, hcluster⟩ hneeds hv hfit hmore, by simp⟩
  | case7 _ _ _ _ _ _ _ _ _ _ _ hrun => exact absurd h (hrun _)
  | case8 => cases h
  | case9 o₀ spoiled t flag long joined rest cluster hcluster hneeds o₁ htake ih =>
    obtain ⟨flags, lost⟩ := cluster
    obtain ⟨rfl, rfl⟩ : spoiled = false ∧ lost = false := by
      simpa using not_spoiled_of_readFrom h
    obtain ⟨ts, rfl, ht, hts⟩ := classifyAll_eq_cons hws (by simp)
    subst ho
    obtain ⟨hfit, rfl⟩ := takeAll_ofSaid htake
    obtain ⟨more, hmore, rfl⟩ := ih hts rfl rfl h
    exact ⟨_, .word ⟨flag, long, joined, ht, hcluster⟩ (by simpa using hneeds) hfit hmore, by simp⟩
  | case10 _ _ _ _ _ _ _ _ _ _ hrun => exact absurd h (hrun _)

/-- **A command line that is read as a run says the options of that run.** -/
theorem spoken_of_read (h : read words = .run o) : ∃ said, Spoken words said ∧ o = ofSaid said := by
  unfold read at h
  split at h
  · cases h
  · rename_i ws hws
    have h : readFrom (ofSaid []) false ws = .run o := h
    exact spoken_of_readFrom hws h

/-! ### Asking for backups -/

theorem mem_names_of_ofName? {name : Text} (h : Flag.ofName? name = some flag) :
    (name, flag) ∈ Flag.names := by
  obtain ⟨x, hx, rfl⟩ := Option.map_eq_some_iff.1 h
  have hname : x.1 = name := by simpa using find?_some hx
  rw [← hname]
  exact mem_of_find?_eq_some hx

theorem atEquals_cases (t : Text) :
    ((Word.atEquals t).1 = t ∧ (Word.atEquals t).2 = none) ∨
      ∃ v, (Word.atEquals t).2 = some (true, v) := by
  unfold Word.atEquals
  split <;> simp

theorem other_ne_option (t : Text) (flag : Flag) (long : Bool) (joined : Option (Bool × Text)) :
    Word.other t ≠ .option flag long joined := by
  unfold Word.other
  split <;> simp

/-- what a word with an option is: a whole name or the beginning of one name only, a name with a
value after an equals sign, or letters -/
theorem classify_option {long : Bool} {joined : Option (Bool × Text)}
    (h : Word.classify t = some (.option flag long joined)) :
    (joined = none ∧ ((t, flag) ∈ Flag.names ∨
        ∃ name, Flag.names.filter (fun n => t.isPrefixOf n.1) = [(name, flag)]))
          ∨ (∃ v, joined = some (true, v)) ∨
      ∃ c rest, joined = some (false, rest) ∧ (['-', c], flag) ∈ Flag.names := by
  unfold Word.classify at h
  split at h
  · rename_i c rest
    split at h
    · rename_i hname
      cases h
      exact .inl ⟨rfl, .inl (mem_names_of_ofName? hname)⟩
    · rename_i hnone
      have hcases := atEquals_cases ('-' :: c :: rest)
      generalize Word.atEquals ('-' :: c :: rest) = p at h hcases
      obtain ⟨name, joined'⟩ := p
      dsimp only at h hcases
      split at h
      · rename_i hname
        cases h
        obtain ⟨rfl, -⟩ | hv := hcases
        · rw [hnone] at hname
          cases hname
        · exact .inr (.inl hv)
      · split at h
        · split at h
          · exact absurd (Option.some.inj h) (other_ne_option _ _ _ _)
          · rename_i name' flag' hfilter
            cases h
            obtain ⟨rfl, rfl⟩ | hv := hcases
            · exact .inl ⟨rfl, .inr ⟨name', hfilter⟩⟩
            · exact .inr (.inl hv)
          · cases h
        · split at h
          · rename_i hletter
            cases h
            exact .inr (.inr ⟨c, rest, rfl, mem_names_of_ofName? hletter⟩)
          · exact absurd (Option.some.inj h) (other_ne_option _ _ _ _)
  · cases h

def backupWords : List Text := ["--ba", "--bac", "--back", "--backu", "--backup"]

theorem spells_backup (h : t ∈ backupWords) : Spells t [(.backup, none)] := by
  simp only [backupWords, mem_cons, not_mem_nil, or_false] at h
  rcases h with rfl | rfl | rfl | rfl | rfl <;> exact ⟨.backup, true, none, rfl, rfl⟩

theorem eq_backup_of_mem_names {name : Text} (h : (name, Flag.backup) ∈ Flag.names) :
    name = "--backup" := by
  simpa [Flag.names] using h

theorem letter_ne_backup {c : Char} : (['-', c], Flag.backup) ∉ Flag.names := by
  intro h
  have hlen := congrArg length (eq_backup_of_mem_names h)
  exact absurd hlen (by simp)

theorem mem_backupWords_of_inits : ∀ t ∈ "--backup".toList.inits,
    (Flag.names.filter (fun n => t.isPrefixOf n.1)).length = 1 → t ∈ backupWords := by
  decide

theorem backup_not_mem_ofLetters {letters : Text} {cluster : Cluster}
    (hflag : flag ≠ .backup) (h : Cluster.ofLetters flag letters = some cluster) :
    ∀ v, (Flag.backup, v) ∉ cluster.flags := by
  fun_induction Cluster.ofLetters flag letters generalizing cluster with
  | case3 => cases h
  | case5 => cases h
  | case6 flag c rest _ _ _ next hnext ih =>
    have hne : next ≠ .backup := fun he => letter_ne_backup (he ▸ mem_names_of_ofName? hnext)
    obtain ⟨inner, hinner, h⟩ := Option.bind_eq_some_iff.1 h
    cases h
    simpa [Ne.symm hflag] using ih hne hinner
  | _ =>
    cases h
    simp [Ne.symm hflag]

theorem mem_backupWords_of_spells
    (h : Spells t flags) {v : Option Text} (hv : (.backup, v) ∈ flags) : t ∈ backupWords := by
  obtain ⟨flag, long, joined, ht, hflags⟩ := h
  obtain ⟨rfl, hname⟩ | ⟨value, rfl⟩ | ⟨c, rest, rfl, hletter⟩ := classify_option ht
  · simp only [Cluster.ofOption, Option.some.injEq, Cluster.mk.injEq] at hflags
    obtain ⟨rfl, -⟩ := hflags
    obtain rfl : Flag.backup = flag := by simpa using (Prod.mk.inj (mem_singleton.1 hv)).1
    obtain hmem | ⟨name, hfilter⟩ := hname
    · rw [eq_backup_of_mem_names hmem]
      decide
    · have hmem : (name, Flag.backup) ∈ Flag.names.filter (fun n => t.isPrefixOf n.1) := by
        simp [hfilter]
      obtain ⟨hmem, hbegins⟩ := mem_filter.1 hmem
      rw [eq_backup_of_mem_names hmem, isPrefixOf_iff_prefix, ← mem_inits] at hbegins
      exact mem_backupWords_of_inits t hbegins (by rw [hfilter]; rfl)
  · -- with an equals sign comes a value, which this option does not take
    rw [Cluster.ofOption] at hflags
    split at hflags
    · rename_i htakes
      simp only [Option.some.injEq, Cluster.mk.injEq] at hflags
      obtain ⟨rfl, -⟩ := hflags
      obtain rfl : Flag.backup = flag := by simpa using (Prod.mk.inj (mem_singleton.1 hv)).1
      cases htakes
    · cases hflags
  · have hflag : flag ≠ .backup := fun he => letter_ne_backup (he ▸ hletter)
    exact absurd hv (backup_not_mem_ofLetters hflag hflags v)

theorem Spells.unique {flags' : List (Flag × Option Text)} (h : Spells t flags)
    (h' : Spells t flags') : flags = flags' := by
  obtain ⟨flag, long, joined, ht, hflags⟩ := h
  obtain ⟨flag', long', joined', ht', hflags'⟩ := h'
  rw [ht'] at ht
  cases ht
  rw [hflags'] at hflags
  cases hflags
  rfl

theorem Spells.backup_iff (h : Spells t flags)
    (v : Text) : (∃ u, (Flag.backup, u) ∈ flags.map (filled v)) ↔ t ∈ backupWords := by
  constructor
  · rintro ⟨u, hu⟩
    obtain ⟨⟨flag, value⟩, hmem, he⟩ := mem_map.1 hu
    cases he
    exact mem_backupWords_of_spells h hmem
  · intro ht
    rw [h.unique (spells_backup ht)]
    exact ⟨v, by simp [filled]⟩

theorem plain_not_mem_backupWords (h : Word.classify v = some .plain) : v ∉ backupWords := by
  intro hv
  obtain ⟨flag, long, joined, ht, -⟩ := spells_backup hv
  rw [h] at ht
  cases ht

/-- what is said of backups is read off the words -/
theorem Spoken.backup_iff (h : Spoken words said) :
    (∃ v, (Flag.backup, v) ∈ said) ↔ ∃ t ∈ words, t ∈ backupWords := by
  induction h with
  | done => simp
  | word h hlast hfit hs ih =>
    simp only [mem_append, exists_or, h.backup_iff, ih, exists_mem_cons_iff]
  | valued h hlast hv hfit hs ih =>
    simp only [mem_append, exists_or, h.backup_iff, ih, exists_mem_cons_iff,
      plain_not_mem_backupWords hv, false_or]

end CommandLine

end Rebind
