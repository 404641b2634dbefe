import Rebind.Findings.Detect
import Rebind.Injection.Inject
import Rebind.Layout
import Rebind.Edit.BindCall
import Rebind.Edit.ClickListener
import Rebind.Edit.FieldLookup

/-!
# A migration round

One round reads the findings off a source text, edits fields, handlers and bind calls, and injects
the initialisation, all with the same findings.  `migrate` is its outcome; `Round.journal` lists
what each stage gave, for any number of rounds, and stops at a source without annotations or at a
fault.
-/

namespace Rebind

def editAll (f : Findings) (code : Text) : Except Fault Text := do
  let code ← FieldLookup.edit f code
  let code ← ClickListener.edit f code
  BindCall.edit f code

def migrate (code : Text) : Except Fault Text := do
  let f := Findings.detect code
  injected f (← editAll f code)

inductive Stage where
  | laidOut (issues : List Text) (code : Text)
  | found (f : Findings)
  | fieldsEdited (code : Text)
  | clicksEdited (code : Text)
  | bindCallsDropped (code : Text)
  | injected (code : Text)
  | stopped (fault : Fault)

namespace Round

def laidOut (code : Text) : List Text × Text :=
  let issues := layoutIssues code
  (issues, if issues.isEmpty then code else layOut code)

/-- the stages of one round, and the code after it unless the journal ends there -/
def stages (withLayout : Bool) (code : Text) : List Stage × Option Text :=
  let (front, code) := if withLayout then
      let (issues, code) := laidOut code
      ([Stage.laidOut issues code], code)
    else ([], code)
  let f := Findings.detect code
  let front := front ++ [.found f]
  if !f.applies then (front, none)
  else
    match FieldLookup.edit f code with
    | .error e => (front ++ [.stopped e], none)
    | .ok a =>
      match ClickListener.edit f a with
      | .error e => (front ++ [.fieldsEdited a, .stopped e], none)
      | .ok b =>
        match BindCall.edit f b with
        | .error e => (front ++ [.fieldsEdited a, .clicksEdited b, .stopped e], none)
        | .ok c =>
          let front := front ++ [.fieldsEdited a, .clicksEdited b, .bindCallsDropped c]
          match Rebind.injected f c with
          | .error e => (front ++ [.stopped e], none)
          | .ok d => (front ++ [.injected d], some d)

/-- the stages of at most `rounds` rounds, each from the code the last one ended with -/
def journal (withLayout : Bool) (code : Text) : Nat → List Stage
  | 0 => []
  | rounds + 1 =>
    match stages withLayout code with
    | (front, none) => front
    | (front, some code) => front ++ journal withLayout code rounds

end Round

end Rebind
