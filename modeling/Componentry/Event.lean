/-!
# Componentry.Event

What the library logs while it works, and computations that log. `Logged` collects events in the
order in which they are emitted.
-/

namespace Componentry

inductive Severity where
  | debug
  | info
  | warn
deriving DecidableEq, Repr

inductive Event where
  /-- A search left ancestors out. -/
  | hierarchyTooDeep (searched : Nat)
  | skippingConfiguration (configuration : String)
  | registeringComponent (component configuration : String)
  | skippingComponent (component configuration : String)
  /-- An application was to install a logger and could not. -/
  | loggerRefused (cause : String)
  | assembling
  /-- The rendered report of an assembled registry. -/
  | conditionReport (text : String)
deriving DecidableEq, Repr

namespace Event

def severity : Event → Severity
  | hierarchyTooDeep _ => .warn
  | skippingConfiguration _ | registeringComponent _ _ | skippingComponent _ _ => .debug
  | loggerRefused _ => .debug
  | assembling | conditionReport _ => .info

def message : Event → String
  | hierarchyTooDeep searched =>
    "Registry hierarchy deeper than " ++ toString searched ++
      " levels - ignoring remaining ancestors."
  | skippingConfiguration _ => "Skipping configuration with failed conditions."
  | registeringComponent _ _ => "Registering component."
  | skippingComponent _ _ => "Skipping component with failed conditions."
  | loggerRefused cause => "Not installing tracing logger: " ++ cause
  | assembling => "Assembling component registry..."
  | conditionReport text => "Condition evaluation report:\n" ++ text

def fields : Event → List (String × String)
  | skippingConfiguration configuration => [("configuration", configuration)]
  | registeringComponent component configuration | skippingComponent component configuration =>
    [("component", component), ("configuration", configuration)]
  | _ => []

end Event

structure Logged (α : Type) where
  value : α
  events : List Event := []

namespace Logged

variable {α β : Type}

instance : Monad Logged where
  pure value := { value }
  bind x f := { value := (f x.value).value, events := x.events ++ (f x.value).events }

def emit (e : Event) : Logged Unit := ⟨(), [e]⟩

@[simp] theorem value_pure (a : α) : (pure a : Logged α).value = a := rfl

@[simp] theorem events_pure (a : α) : (pure a : Logged α).events = [] := rfl

@[simp] theorem value_bind (x : Logged α) (f : α → Logged β) :
    (x >>= f).value = (f x.value).value := rfl

@[simp] theorem events_bind (x : Logged α) (f : α → Logged β) :
    (x >>= f).events = x.events ++ (f x.value).events := rfl

end Logged

end Componentry
