/-
  Log binder — diagnostics.

  What is worth telling but stops nothing: a directive that no method
  matches, a changed entry that a switch cannot follow, a switch that is
  declared again.
-/
import LogBinder.Level
import LogBinder.Plugin.TypeRef

namespace LogBinder

/-- Why a switch does not follow a changed entry. -/
inductive ReloadFault where
  | level (fault : LevelFault)
  | removed
  | rejected (reason : String)
  deriving DecidableEq, Repr

/-- The wording of a fault. -/
def ReloadFault.message : ReloadFault → String
  | level fault => fault.message
  | removed => "the entry was removed"
  | rejected reason => reason

/-- Something worth telling. -/
inductive Diagnostic where
  | unmatchedDirective (capability : Capability) (name path : String)
      (supplied candidates : List String)
  | reloadFailure (switch path value : String) (fault : ReloadFault)
  | switchRedeclared (name path : String)
  deriving DecidableEq, Repr

/-- The wording of a diagnostic. -/
def Diagnostic.message : Diagnostic → String
  | unmatchedDirective capability name path supplied candidates =>
    capability.sectionName ++ " directive '" ++ name ++ "' at '" ++ path ++ "' with arguments ["
      ++ Text.joined ", " supplied ++ "] matched no method"
      ++ match candidates with
        | [] => "; no method with that name is registered"
        | _ => "; candidates: " ++ Text.joined "; " candidates
  | reloadFailure switch path value fault =>
    "switch '" ++ switch ++ "' kept its value: '" ++ value ++ "' at '" ++ path
      ++ "' was rejected (" ++ fault.message ++ ")"
  | switchRedeclared name path => "switch '" ++ name ++ "' redeclared at '" ++ path ++ "'"

end LogBinder
