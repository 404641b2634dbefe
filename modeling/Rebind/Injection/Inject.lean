import Rebind.Findings.Summary
import Rebind.Injection.Annotations
import Rebind.Injection.Cleanup
import Rebind.Injection.Holder
import Rebind.Injection.Imports
import Rebind.Injection.Inheritance
import Rebind.Injection.Initialiser

/-!
# Injection

`inject` puts the initialisation of the bound views into a source text.  The kind of the class
decides where: the constructor of a holder, the initialisers of an activity that sets its content
view, the overridden initialisers of a base class, or else `onCreate` itself.  Inner holders follow
in every case.
-/

namespace Rebind

def Traced.step {α : Type} (x : Traced α) : Step α := ExceptT.lift x

def liftFault {α : Type} (x : Except Fault α) : Step α := ExceptT.mk (pure x)

def injectForHolder (f : Findings) (code : Text) : Except Fault Text := do
  let code ← dropAnnotations f code
  return injectInHolder (← holderBlock f) code

/-- the code with an initialiser that holds `content`: extended if `present`, else new -/
def provideMethod (present : Bool) (name content visibility code : Text) : Traced Text := do
  if content.isEmpty then return code
  if present then
    .note (.updating name)
    updateMethod code name content
  else
    .note (.creating name)
    createMethod code name content visibility

def injectForGeneral (f : Findings) (code : Text) : Step Text := do
  let code ← liftFault (dropAnnotations f code)
  let lookups ← liftFault (generalLookups f)
  let listeners ← liftFault (generalListeners f)
  let hasViews := hasMethod code "initViews"
  let hasListener := hasMethod code "initListener"
  let code ← (provideMethod hasViews "initViews" lookups "protected" code).step
  let code ← (provideMethod hasListener "initListener" listeners "public" code).step
  let code ← if lookups.isEmpty && listeners.isEmpty then pure code
    else do
      (Traced.note .addingCalls).step
      (addInitialiserCalls code).step
  (cleanOnCreate code).step

def injectForNewBase (f : Findings) (code : Text) : Step Text := do
  let (lookups, listeners) ← liftFault (newBaseBlocks f)
  let code ← if lookups.isEmpty then pure code
    else if hasInitViews code then do
      (Traced.note (.updating "initView")).step
      pure (updateInitViews code lookups)
    else do
      (Traced.note (.creating "initView")).step
      (createInitViews code lookups).step
  if listeners.isEmpty then pure code
  else if hasInitListener code then do
    (Traced.note (.updating "initListener")).step
    pure (updateInitListener code listeners)
  else do
    (Traced.note (.creating "initListener")).step
    (createInitListener code listeners).step

def injectForOther (f : Findings) (code : Text) : Step Text := do
  let block ← liftFault (initialisation f)
  if block.isEmpty then pure code else (injectInOnCreate code block).step

def inject (f : Findings) (code : Text) : Step Text := do
  if !f.applies then return code
  let code ← (dropLibraryImports code).step
  let code ←
    if isHolder code then do
      (Traced.note .holderClass).step
      liftFault (injectForHolder f code)
    else if setsContentView code then do
      (Traced.note .contentView).step
      injectForGeneral f code
    else do
      -- the ancestors are only followed where the first two questions leave the kind open
      if ← liftFault (isNewBase code) then do
        (Traced.note .newBase).step
        injectForNewBase f code
      else injectForOther f code
  liftFault (injectInnerHolders f code)

def injected (f : Findings) (code : Text) : Except Fault Text := (inject f code).run.value

def injectionInfo (f : Findings) : Except Fault Value := do
  let views ← f.bindViewCount
  let clicks ← f.clickCount
  let methods : List Value :=
    if f.applies then
      (if views > 0 then [.str "findViewById初始化"] else [])
        ++ (if clicks > 0 then [.str "OnClickListener设置"] else [])
    else []
  return .dict [("has_butterknife", f.hasButterKnife.flag), ("bind_views_count", .int views),
    ("on_clicks_count", .int clicks), ("injection_methods", .list methods)]

end Rebind
