import Componentry.Catalog
import Componentry.Report

/-!
# Componentry.Registry

A registry: the catalog of its definitions, its ancestors and the report on the conditions that
were judged for it. Ancestors are held as they were when the registry was created.
-/

namespace Componentry

structure Registry where
  catalog : Catalog := .empty
  /-- Whether a definition may take the place of another one with its name. -/
  overriding : Bool := false
  ancestors : List Level := []
  report : Report := .empty

namespace Registry

def create (overriding : Bool) (parent? : Option Hierarchy) : Registry where
  overriding
  ancestors := (parent?.map (·.levels)).getD []

/-- What can be seen from a registry: its own definitions and its ancestors. -/
def hierarchy (r : Registry) : Hierarchy := ⟨r.catalog.level, r.ancestors⟩

def definitions (r : Registry) : List Definition := r.catalog.definitions

def define (r : Registry) (d : Definition) : Except RegistryError Registry := do
  return { r with catalog := ← r.catalog.register r.overriding d }

/-- Registers a declaration that no configuration holds. -/
def register (r : Registry) (d : Declaration) : Except RegistryError Registry :=
  r.define { declaration := d }

def record (r : Registry) (source : String) (verdicts : List Verdict) : Registry :=
  { r with report := r.report.recordAll source verdicts }

end Registry

end Componentry
