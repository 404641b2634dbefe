import Mathlib
import Rebind.Project.Settings
import Rebind.Proofs.Project.Frame
import Rebind.Proofs.Value.ReadBack

/-!
# Settings in files

Settings that were saved are loaded again as they were iff no text in them has half of a surrogate
pair (`load_saved_iff`).  The writer takes every key that is shown, the reader the keys that it
knows, and for settings without other values both are the keys of the settings: `value_update` gives
every setting the value that stands under its key.  Where a text cannot be written, the file ends in
front of it and is refused.
-/

namespace Rebind

namespace Job

theorem newlines_eq_self {t : Text} (h : '\r' ∉ t) : newlines t = t := by
  have hfold : ∀ (t done : Text), '\r' ∉ t → (t.foldl (fun (s : Text × Bool) c =>
      if c = '\r' then ('\n' :: s.1, true)
      else if c = '\n' && s.2 then (s.1, false)
      else (c :: s.1, false)) (done, false)) = (t.reverse ++ done, false) := by
    intro t
    induction t with
    | nil => intro done _; rfl
    | cons c t ih =>
      intro done h
      rw [List.mem_cons, not_or] at h
      rw [List.foldl_cons, if_neg (Ne.symm h.1), Bool.and_false,
        if_neg Bool.false_ne_true, ih _ h.2]
      simp
  rw [newlines, hfold t [] h]
  simp

end Job

namespace Settings

open List Job

variable {kvs : List (List CodePoint × Json)} {s t : Settings} {path : Text} {w : Workspace}
  {q : Place}

/-- no text in the settings has half of a surrogate pair in it -/
def Whole (s : Settings) : Prop := ∀ k, (s.value k).Whole

theorem ofKey?_key (k : Setting) : Setting.ofKey? k.key = some k := by
  cases k <;> decide +kernel

theorem key_injective : Function.Injective Setting.key := fun j k h =>
  Option.some.inj (by rw [← ofKey?_key j, h, ofKey?_key])

theorem chars_injective : Function.Injective (map CodePoint.char) :=
  Function.Injective.list_map fun _ _ => CodePoint.char.inj

theorem set_key (s : Settings) (k : Setting) (v : Json) : s.set k.key v = s.put k v := by
  rw [set, ofKey?_key]

theorem isKnown_key (k : Setting) : isKnown k.key := by
  rw [isKnown, ofKey?_key]
  rfl

theorem refuses_key (k : Setting) (v : Json) : refuses k.key v = false := by
  cases k <;> rfl

def From (t : Settings) (kvs : List (List CodePoint × Json)) : Prop :=
  ∀ e ∈ kvs, ∃ k : Setting, e = (k.key.map .char, t.value k)

theorem update_cons {k : Setting} (s : Settings) (kvs : List (List CodePoint × Json)) :
    s.update ((k.key.map .char, t.value k) :: kvs) = (s.put k (t.value k)).update kvs := by
  rw [update, whole?_map]
  dsimp only
  rw [refuses_key, if_neg Bool.false_ne_true, if_pos (isKnown_key k), set_key]

theorem extra_update (h : t.From kvs) (s : Settings) :
    (s.update kvs).1.extra = s.extra ∧ (s.update kvs).2 = none := by
  induction kvs generalizing s with
  | nil => exact ⟨rfl, rfl⟩
  | cons e kvs ih =>
    obtain ⟨⟨k, rfl⟩, hkvs⟩ := forall_mem_cons.mp h
    rw [update_cons]
    exact ih hkvs _

/-- a setting has its value once its entry was read, and keeps it -/
theorem value_update (h : t.From kvs) {k : Setting}
    (hk : s.value k = t.value k ∨ (k.key.map .char, t.value k) ∈ kvs) :
    (s.update kvs).1.value k = t.value k := by
  induction kvs generalizing s with
  | nil => exact hk.resolve_right not_mem_nil
  | cons e kvs ih =>
    obtain ⟨⟨j, rfl⟩, hkvs⟩ := forall_mem_cons.mp h
    rw [update_cons]
    apply ih hkvs
    by_cases hjk : k = j
    · subst hjk
      exact .inl (if_pos rfl)
    · refine hk.imp (fun hs => (if_neg hjk).trans hs) (fun hmem => ?_)
      refine (mem_cons.mp hmem).resolve_left (fun he => hjk ?_)
      exact key_injective (chars_injective (congrArg Prod.fst he))

theorem mem_all (k : Setting) : k ∈ Setting.all := by
  cases k <;> decide

/-- the entries that are written -/
def sorted (s : Settings) : List (List CodePoint × Json) :=
  (s.entries.mergeSort (fun a b => textLe a.1 b.1)).map (fun e => (e.1.map .char, e.2))

theorem mem_sorted (hextra : s.extra = []) {e : List CodePoint × Json} :
    e ∈ s.sorted ↔ ∃ k : Setting, e = (k.key.map .char, s.value k) := by
  simp [sorted, mem_mergeSort, entries, hextra, mem_all, eq_comm]

theorem regular_document (hextra : s.extra = []) (h : ∀ k, (s.value k).Regular) :
    s.document.Regular := by
  refine .dict s.sorted ?_ fun e he => ?_
  · have hkeys : (Setting.all.map Setting.key).Nodup :=
      (by decide : Setting.all.Nodup).map key_injective
    have hsorted : ((s.entries.mergeSort (fun a b => textLe a.1 b.1)).map Prod.fst).Nodup := by
      refine ((mergeSort_perm _ _).map Prod.fst).nodup_iff.mpr ?_
      rw [entries, hextra]
      simpa [Function.comp_def] using hkeys
    simpa [sorted, Function.comp_def] using hsorted.map chars_injective
  · obtain ⟨k, rfl⟩ := (mem_sorted hextra).mp he
    exact h k

theorem whole_document (hextra : s.extra = []) : s.document.Whole ↔ s.Whole := by
  constructor
  · intro h k
    cases h with
    | dict _ _ hvalues => exact hvalues _ ((mem_sorted hextra).mpr ⟨k, rfl⟩)
  · intro h
    refine .dict s.sorted (fun e he => ?_) fun e he => ?_
    all_goals obtain ⟨k, rfl⟩ := (mem_sorted hextra).mp he
    · rw [whole?_map]
      rfl
    · exact h k

theorem whole_plain (t : Text) : (Value.plain t).Whole := .text _ (by rw [whole?_map]; rfl)

/-- a default is a text, a list of texts, a flag or a number -/
theorem value_default {P : Json → Prop} (hplain : ∀ t, P (.plain t)) (hlist : ∀ ts, P (textList ts))
    (hbool : ∀ b, P (.bool b)) (hint : ∀ i, P (.int i)) (dir : Text) (k : Setting) :
    P ((default dir).value k) := by
  cases k with
  | scanExtensions | scanDirectories | excludeDirectories | excludePatterns => exact hlist _
  | backupEnabled | useSpaces | removeImports | addImports | preserveComments => exact hbool _
  | indentSize => exact hint _
  | _ => exact hplain _

theorem whole_default (dir : Text) : (default dir).Whole :=
  value_default whole_plain (fun _ => .list _ (forall_mem_map.mpr fun t _ => whole_plain t))
    .bool .int dir

theorem update_sorted (hextra : s.extra = []) (ht : t.extra = []) :
    t.update s.sorted = (s, none) := by
  have hfrom : s.From s.sorted := fun _ he => (mem_sorted hextra).mp he
  have hvalue : (t.update s.sorted).1.value = s.value := by
    funext k
    exact value_update hfrom (.inr ((mem_sorted hextra).mpr ⟨k, rfl⟩))
  have hrest := (extra_update hfrom t).1.trans (ht.trans hextra.symm)
  have hnone := (extra_update hfrom t).2
  generalize t.update s.sorted = u at hvalue hrest hnone
  obtain ⟨⟨value, extra⟩, refused⟩ := u
  cases s
  simp_all

/-- the file after settings were saved -/
def saved (s : Settings) (q : Place) (w : Workspace) : Workspace :=
  w.stored q (.file (bytesOf s.document.jsonText.1))

/-- what is printed when settings cannot be saved -/
def unsaved (e : Fault) : Text := "保存配置文件失败: " ++ e.text ++ ['\n']

/-- what is printed when a file of settings cannot be used -/
def unloaded (e : Fault) : Text := "警告: 加载配置文件失败: " ++ e.text ++ ['\n']

theorem exec_save (hq : w.locate path = .ok q)
    (hfree : ∀ t, w.tree.find? q = some t → t.isFile) : exec (s.save path) w
      = (.ok (), if s.document.jsonText.2 then s.saved q w
        else { s.saved q w with output := unsaved .notEncodable :: w.output }) := by
  have htext : exec (writeText path s.document.jsonText.1) w = (.ok (), s.saved q w) := by
    rcases writeBytes_cases path (bytesOf s.document.jsonText.1) w with ⟨q', hq', -, he⟩ | ⟨-, hno⟩
    · rw [writeText, he, ← Except.ok.inj (hq.symm.trans hq')]
      rfl
    · obtain ⟨t, ht, hfile⟩ := hno q hq
      rw [hfree t ht] at hfile
      cases hfile
  have hwrite : exec (writeJson path s.document) w
      = (if s.document.jsonText.2 then .ok () else .error .notEncodable, s.saved q w) := by
    rw [writeJson, exec_bind_ok htext]
    cases s.document.jsonText.2 <;> rfl
  refine (exec_bind_ok (exec_outcome (writeJson path s.document) w) _).trans ?_
  rw [hwrite]
  cases s.document.jsonText.2 <;> rfl

theorem exec_load {t : Text} (hq : w.locate path = .ok q)
    (hfile : w.tree.find? q = some (.file (bytesOf t))) (hplain : '\r' ∉ t) :
    (∀ kvs u, Value.ofJson? t = some (.dict kvs) → (default w.directory).update kvs = (u, none) →
        exec (load path) w = (.ok u, w))
      ∧ (Value.ofJson? t = none → exec (load path) w = (.ok (default w.directory),
        { w with output := unloaded (.invalid "Expecting value") :: w.output })) := by
  have htext : w.textAt path = .ok t := by
    rw [Workspace.textAt_eq hq hfile, textOf?_bytesOf, newlines_eq_self hplain]
    rfl
  have hexists : w.exists? path := by
    rw [Workspace.exists?, Workspace.item?_eq hq, hfile]
    rfl
  unfold load
  rw [exec_bind_ok (show exec ofHere w = (.ok (default w.directory), w) from rfl),
    exec_bind_ok (show exec (Job.exists? path) w = (.ok (w.exists? path), w) from rfl), hexists,
    if_pos rfl, exec_bind_ok (exec_outcome _ w), readEntries, exec_bind, exec_readText, htext]
  dsimp only
  refine ⟨fun kvs u hread hu => ?_, fun hread => ?_⟩
  · rw [hread]
    show exec (do warn ((default w.directory).update kvs).2; return _) w = _
    rw [hu]
    rfl
  · rw [hread]
    rfl

theorem exec_save_load (hextra : s.extra = []) (hregular : ∀ k, (s.value k).Regular)
    (hq : w.locate path = .ok q) (hfree : ∀ t, w.tree.find? q = some t → t.isFile) :
    (s.Whole → exec (do s.save path; load path) w = (.ok s, s.saved q w))
      ∧ (¬ s.Whole → exec (do s.save path; load path) w = (.ok (default w.directory),
        { s.saved q w with
          output := unloaded (.invalid "Expecting value") :: unsaved .notEncodable
            :: w.output })) := by
  have hdocument := regular_document hextra hregular
  obtain ⟨hsnd, hback, hrefused⟩ := Value.ofJson?_jsonText hdocument
  rw [whole_document hextra] at hsnd
  have hframe : w.Frame (· = q) (s.saved q w) := by
    refine Workspace.frame_stored (Workspace.reaches_of_locate hq) fun old hold => ⟨rfl, ?_⟩
    have := hfree old hold
    cases old <;> simp_all [Tree.isFile, Tree.isDir, Tree.SameKind]
  have hload := fun out => exec_load (w := { s.saved q w with output := out }) (hframe.locate hq)
    (w.find?_stored q _) (Value.carriage_not_mem_jsonText hdocument)
  constructor <;> intro h
  · rw [exec_bind_ok (exec_save hq hfree), if_pos (hsnd.mpr h)]
    exact (hload w.output).1 s.sorted s (hback (hsnd.mpr h)) (update_sorted hextra rfl)
  · have hfalse : s.document.jsonText.2 = false := by simpa using mt hsnd.mp h
    rw [exec_bind_ok (exec_save hq hfree), if_neg (by simp [hfalse])]
    exact (hload _).2 (hrefused hfalse)

/-- settings without other values that are saved where a file can be are loaded as they were iff no
text in them has half of a surrogate pair; otherwise both steps report that they fail, and the
settings are the default ones -/
theorem load_saved_iff {s : Settings} {path : Text} {w : Workspace} {q : Place}
    (hextra : s.extra = []) (hregular : ∀ k, (s.value k).Regular) (hq : w.locate path = .ok q)
    (hfree : ∀ t, w.tree.find? q = some t → t.isFile = true) :
    ((exec (do s.save path; load path) w).1 = .ok s ↔ s.Whole)
      ∧ (s.Whole → exec (do s.save path; load path) w = (.ok s, s.saved q w))
      ∧ (¬ s.Whole → exec (do s.save path; load path) w = (.ok (default w.directory),
        { s.saved q w with
          output := unloaded (.invalid "Expecting value") :: unsaved .notEncodable
            :: w.output })) := by
  obtain ⟨hwhole, htorn⟩ := exec_save_load hextra hregular hq hfree
  refine ⟨⟨fun h => ?_, fun h => by rw [hwhole h]⟩, hwhole, htorn⟩
  by_contra hs
  rw [htorn hs] at h
  rw [← Except.ok.inj h] at hs
  exact hs (whole_default _)

/-- values that count as false, values in one another, and a fraction -/
def tuned : Settings where
  value
    | .logFile => .null
    | .backupEnabled => .bool false
    | .indentSize => .real (.ofDecimal false 15 (-1))
    | .scanExtensions => .object [("a\r", .list [.int (-10), .dict []]), ([], .plain [])]
    | _ => .int 0
  extra := []

theorem regular_tuned (k : Setting) : (tuned.value k).Regular ∧ (tuned.value k).Whole := by
  cases k with
  | logFile => exact ⟨.null, .null⟩
  | backupEnabled => exact ⟨.bool false, .bool false⟩
  | indentSize =>
    refine ⟨.real _ fun fuel rest h => ?_, .real _⟩
    rw [show Value.jsonReal (.ofDecimal false 15 (-1)) = ['1', '.', '5'] by decide +kernel]
    obtain rfl | ⟨c, r, rfl, rfl | rfl⟩ := h <;> rfl
  | scanExtensions =>
    constructor
    · have hlist : Value.Regular (.list [.int (-10), .dict []]) :=
        .list _ (by simp [Value.Regular.int, Value.Regular.dict])
      exact .dict _ (by decide) (by simp [hlist, Value.plain, Value.Regular.text])
    · have hlist : Value.Whole (.list [.int (-10), .dict []]) :=
        .list _ (by simp [Value.Whole.int, Value.Whole.dict])
      exact .dict _ (by decide) (by simp [hlist, whole_plain])
  | _ => exact ⟨.int 0, .int 0⟩

/-- half of a pair in the name of the log -/
def torn : Settings :=
  ((default "/p").put .bindingMode (.plain "viewBinding")).put .logFile (.text [.half 0])

theorem regular_torn (k : Setting) : (torn.value k).Regular := by
  unfold torn put
  dsimp only
  split
  · exact .text _
  · split
    · exact .text _
    · exact value_default (fun _ => .text _)
        (fun _ => .list _ (forall_mem_map.mpr fun _ _ => .text _)) .bool .int _ k

theorem not_whole_torn : ¬ torn.Whole := by
  intro h
  have hfile : Value.Whole (.text [.half 0]) := h .logFile
  cases hfile with
  | text _ hplain => exact absurd hplain (by decide)

/-- an empty directory -/
def emptyDesk : Workspace where
  tree := .dir [("p", .dir [])]
  here := ["p"]
  now := ⟨2024, 1, 1, 0, 0, 0, 0⟩
  output := []
  complaints := []

theorem emptyDesk_free : emptyDesk.locate "c" = .ok ["p", "c"]
    ∧ ∀ t, emptyDesk.tree.find? ["p", "c"] = some t → t.isFile := by
  refine ⟨by decide +kernel, fun t ht => ?_⟩
  rw [show emptyDesk.tree.find? ["p", "c"] = none from rfl] at ht
  cases ht

theorem load_saved_iff_tuned : tuned.extra = [] ∧ torn.extra = []
    ∧ emptyDesk.locate "c".toList = .ok ["p".toList, "c".toList]
    ∧ (exec (do tuned.save "c".toList; load "c".toList) emptyDesk).1 = .ok tuned
    ∧ (exec (do torn.save "c".toList; load "c".toList) emptyDesk).1 ≠ .ok torn := by
  obtain ⟨hq, hfree⟩ := emptyDesk_free
  refine ⟨rfl, rfl, hq, ?_, fun h => ?_⟩
  · exact (load_saved_iff rfl (fun k => (regular_tuned k).1) hq hfree).1.mpr fun k =>
      (regular_tuned k).2
  · exact not_whole_torn ((load_saved_iff rfl regular_torn hq hfree).1.mp h)

/-- the mode of binding is lost with the rest -/
theorem torn_not_loaded : torn.extra = [] ∧ (∀ k, (torn.value k).Regular)
    ∧ emptyDesk.locate "c".toList = .ok ["p".toList, "c".toList]
    ∧ torn.value .bindingMode = .plain "viewBinding"
    ∧ ∃ u, (exec (do torn.save "c".toList; load "c".toList) emptyDesk).1 = .ok u
      ∧ u.value .bindingMode = .plain "findViewById" := by
  obtain ⟨hq, hfree⟩ := emptyDesk_free
  refine ⟨rfl, regular_torn, hq, rfl, default emptyDesk.directory, ?_, rfl⟩
  rw [(exec_save_load rfl regular_torn hq hfree).2 not_whole_torn]

end Settings

end Rebind
