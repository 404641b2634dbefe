import Rebind.Injection.Statements
import Rebind.Source.ClassBody

/-!
# Initialiser methods

The methods `initViews` and `initListener` that hold injected code: whether a class has one, how an
existing one is extended, and how a new one is put before the end of the class.
-/

namespace Rebind

open Pattern

/-! ## methods of a class in general -/

def methodDeclaration (name : Text) : Pattern :=
  seq [oneOf [lit "public", lit "protected", lit "private"], blanks1, restOfLine, blanks1,
    .text name, blanks, lit "("]

def hasMethod (code name : Text) : Bool := (methodDeclaration name).found code

/-- the lines on which a method starts and ends: `start` is the last declaration so far, `count` the
number of open braces, of which a declaration line only opens some -/
def methodSpanFrom (p : Pattern) (i : Nat) (start : Option Nat) (count : Int) :
    List Text → Option (Nat × Nat)
  | [] => none
  | l :: ls =>
    if p.found l then methodSpanFrom p (i + 1) (some i) (count + countOf '\x7b' l) ls
    else
      match start with
      | none => methodSpanFrom p (i + 1) none count ls
      | some s =>
        if (closingBrace count l).isSome then some (s, i)
        else methodSpanFrom p (i + 1) start (count + braceBalance l) ls

def methodSpan (name : Text) (ls : List Text) : Option (Nat × Nat) :=
  methodSpanFrom (methodDeclaration name) 0 none 0 ls

/-- the code with `content` in the method `name`: in the place of the body of `initListener`, at the
end of the body of any other; nothing changes if that has injected code or, in `initViews`, one of
the look-ups already -/
def updateMethod (code name content : Text) : Traced Text :=
  let ls := lines code
  match methodSpan name ls with
  | none => pure code
  | some (start, stop) =>
    if name = "initListener".toList then do
      .note (.replacing name)
      return unlines (ls.take (start + 1) ++ lines content ++ ls.drop stop)
    else
      let body := unlines ((ls.take stop).drop (start + 1))
      if occursIn lookupComment body || occursIn clickComment body then do
        .note (.alreadyMigrated name)
        return code
      else if name = "initViews".toList && (lines content).any (fun l =>
          occursIn "findViewById(" l && occursIn (trim l) body) then do
        .note (.alreadyLooksUp name)
        return code
      else pure (unlines (ls.take stop ++ [content] ++ ls.drop stop))

def putBeforeEnd (method : Text) (stop : Nat) (code : Text) : Text :=
  insertAt (stop - 1) (method ++ "\n".toList) code

/-- the code with a new method before the end of its first class, or before its last brace if the
class has no end -/
def createMethod (code name content visibility : Text) : Traced Text := do
  let stop ← classEnd code
  .note (.classEndAt stop)
  let stop ← match stop with
    | some k => pure (some k)
    | none => do
      .note .noClassEnd
      match lastIndexOf '\x7d' code with
      | some k =>
        .note (.lastBraceAt (k + 1))
        pure (some (k + 1))
      | none =>
        .note .cannotCreate
        pure none
  match stop with
  | none => return code
  | some k =>
    let method := "\n    " ++ visibility ++ " void ".toList ++ name ++ "() \x7b\n".toList ++ content
      ++ "\n    \x7d".toList
    .note (.created method)
    return putBeforeEnd method k code

/-! ## the overridden initialisers of a base class -/

def hasInitViews (code : Text) : Bool :=
  occursIn "protected void initViews()" code || occursIn "public void initViews()" code

def hasInitListener (code : Text) : Bool :=
  occursIn "public void initListener()" code || occursIn "protected void initListener()" code

/-- the code with an overriding method before the end of its first class -/
def createOverride (method code : Text) : Traced Text := do
  match ← classEnd code with
  | some k => return putBeforeEnd method k code
  | none => return code

def createInitViews (code content : Text) : Traced Text :=
  createOverride
    ("\n    @Override\n    protected void initViews() \x7b\n        super.initViews();\n"
    ++ content ++ "\n    \x7d".toList) code

def createInitListener (code content : Text) : Traced Text :=
  createOverride ("\n    @Override\n    public void initListener() \x7b\n" ++ content
    ++ "\n    \x7d".toList) code

/-- the first line, `i` or later, after which the count of braces is zero, the line `start` apart -/
def balancedLine (start i : Nat) (count : Int) : List Text → Option Nat
  | [] => none
  | l :: ls =>
    let count := count + braceBalance l
    if count = 0 ∧ start < i then some i else balancedLine start (i + 1) count ls

def overrideSpan (headers : List Text) (ls : List Text) : Option (Nat × Nat) :=
  (ls.findIdx? (anyOccursIn headers)).bind (fun start =>
    (balancedLine start start 0 (ls.drop start)).map (fun stop => (start, stop)))

/-- the code with the body of `initViews` replaced by a call of the base's and `content` -/
def updateInitViews (code content : Text) : Text :=
  let ls := lines code
  match overrideSpan ["protected void initViews() \x7b".toList,
      "public void initViews() \x7b".toList] ls with
  | none => code
  | some (start, stop) =>
    unlines (ls.take (start + 1) ++ ["        super.initViews();\n" ++ content] ++ ls.drop stop)

def updateInitListener (code content : Text) : Text :=
  let ls := lines code
  match overrideSpan ["public void initListener() \x7b".toList,
      "protected void initListener() \x7b".toList] ls with
  | none => code
  | some (start, stop) =>
    let body := unlines ((ls.take stop).drop (start + 1))
    let extended := if isBlankText body then '\n' :: content
      else body ++ "\n        \n        // 新增的点击事件监听器\n".toList ++ content
    unlines (ls.take (start + 1) ++ [extended] ++ ls.drop stop)

end Rebind
