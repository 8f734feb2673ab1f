import Componentry.Condition
import Componentry.Roster

/-!
# Componentry.Report

The record of all verdicts that were reached while a registry was assembled. Verdicts are grouped
by the name of the guarded declaration; groups stand in the order of their first verdict, and
verdicts within a group in the order in which they were reached.
-/

namespace Componentry

structure VerdictGroup where
  source : String
  verdicts : List Verdict
deriving DecidableEq, Repr

instance : Keyed VerdictGroup := ⟨VerdictGroup.source⟩

abbrev Report := Roster VerdictGroup

def Verdict.render (v : Verdict) : String :=
  "   - " ++ v.condition ++ (if v.matched then " matched: " else " did not match: ") ++
    v.message ++ "\n"

def VerdictGroup.render (g : VerdictGroup) : String :=
  g.source ++ ":\n" ++ String.join (g.verdicts.map (·.render))

namespace Report

def groups (r : Report) : List VerdictGroup := r.toList

def verdictsFor? (r : Report) (source : String) : Option (List Verdict) :=
  (r.get? source).map (·.verdicts)

def record (r : Report) (source : String) (v : Verdict) : Report :=
  r.put { source, verdicts := (r.verdictsFor? source).getD [] ++ [v] }

def recordAll (r : Report) (source : String) (verdicts : List Verdict) : Report :=
  verdicts.foldl (·.record source ·) r

/-- Whether no condition on a name failed. That holds of a name without conditions. -/
def allMatchedFor (r : Report) (source : String) : Bool :=
  (r.verdictsFor? source).all allMatched

def isEmpty (r : Report) : Bool := r.groups.isEmpty

def render (r : Report) : String := String.join (r.groups.map (·.render))

end Report

end Componentry
