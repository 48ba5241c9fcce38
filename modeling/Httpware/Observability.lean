import Httpware.Errors

/-!
# Observability events

The events that the middleware hands to `_emit_event`: a name, a logging level, a message, and the
attributes in the order in which they were written.
-/

namespace Httpware

open Python (Number)

/-- `logging.INFO`. -/
def INFO : ℤ := 20

/-- `logging.WARNING`. -/
def WARNING : ℤ := 30

/-- The value of an event attribute. -/
inductive AttributeValue
  | absent
  | int (n : ℤ)
  | number (x : Number)
  | text (s : String)
deriving DecidableEq, Repr

/-- `None` or a number. -/
def AttributeValue.ofNumber? : Option Number → AttributeValue
  | none => absent
  | some x => number x

/-- `None` or an integer. -/
def AttributeValue.ofInt? : Option ℤ → AttributeValue
  | none => absent
  | some n => int n

/-- An observability event. -/
structure Event where
  name : String
  level : ℤ
  message : String
  attributes : List (String × AttributeValue)
deriving DecidableEq, Repr

/-- `attributes.get(name)`. -/
def Event.get (e : Event) (name : String) : Option AttributeValue := e.attributes.lookup name

end Httpware
