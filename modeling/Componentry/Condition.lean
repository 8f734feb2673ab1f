import Componentry.Evaluation

/-!
# Componentry.Condition

Conditions that guard declarations. A condition sees a hierarchy and the guarded subject and comes
to a verdict. Conditions guarding one subject are judged in order, and the first that does not match
is the last to be judged: `judge_matched_of_mem_dropLast`.
-/

namespace Componentry

structure Outcome where
  matched : Bool
  message : String
deriving DecidableEq, Repr

structure Verdict extends Outcome where
  condition : String
deriving DecidableEq, Repr

inductive Condition where
  | ifPresent (criteria : Criteria)
  | ifMissing (criteria : Criteria)
  | custom (name : String) (check : Hierarchy → Subject → Outcome)

namespace Condition

def customName : String := "CustomCondition"

def fixed (outcome : Outcome) : Condition := custom customName fun _ _ => outcome

def ofPredicate (holds : Hierarchy → Subject → Bool) : Condition :=
  custom customName fun h subject =>
    if holds h subject then ⟨true, "custom condition passed"⟩
    else ⟨false, "custom condition did not pass"⟩

def name : Condition → String
  | ifPresent _ => "OnComponent"
  | ifMissing _ => "OnMissingComponent"
  | custom name _ => name

def check : Condition → Hierarchy → Subject → Logged Outcome
  | ifPresent criteria, h, subject => do
    let found ← evaluate subject criteria h
    return ⟨found.matched, found.reason⟩
  | ifMissing criteria, h, subject => do
    let found ← evaluate subject criteria h
    return ⟨!found.matched, found.reason⟩
  | custom _ check, h, subject => return check h subject

def verdict (c : Condition) (h : Hierarchy) (subject : Subject) : Logged Verdict := do
  return { toOutcome := ← c.check h subject, condition := c.name }

end Condition

/-- The verdicts on a subject, up to the first condition that does not match. -/
def judge : List Condition → Hierarchy → Subject → Logged (List Verdict)
  | [], _, _ => return []
  | c :: cs, h, subject => do
    let verdict ← c.verdict h subject
    if verdict.matched then return verdict :: (← judge cs h subject)
    else return [verdict]

def allMatched (verdicts : List Verdict) : Bool := verdicts.all (·.matched)

/-- Only the last verdict can be that a condition does not match. -/
theorem judge_matched_of_mem_dropLast {cs : List Condition} {h : Hierarchy} {subject : Subject} :
    ∀ v ∈ (judge cs h subject).value.dropLast, v.matched = true := by
  induction cs with
  | nil => simp [judge]
  | cons c cs ih =>
    intro v hv
    by_cases hm : (c.verdict h subject).value.matched = true
    · simp only [judge, Logged.value_bind, hm, if_true, Logged.value_pure] at hv
      cases hj : (judge cs h subject).value with
      | nil => simp [hj] at hv
      | cons w ws =>
        rw [hj, List.dropLast_cons_cons, List.mem_cons] at hv
        cases hv with
        | inl hv => exact hv ▸ hm
        | inr hv => exact ih v (hj ▸ hv)
    · simp [judge, hm] at hv

end Componentry
