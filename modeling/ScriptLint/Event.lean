/-!
# Events

What a run tells about itself besides its result. A computation with events
is a value with the events that led to it, in order.

Key definitions: `Event`, `Traced`.
-/

namespace ScriptLint

/-- How much an event matters. -/
inductive Level where
  | debug
  | info
  | warn
  deriving DecidableEq, Repr

/-- Something worth telling. -/
structure Event where
  level : Level
  message : String
  deriving DecidableEq, Repr

/-- A value and the events on the way to it. -/
structure Traced (α : Type) where
  value : α
  events : List Event

namespace Traced

/-- Computations run one after the other; their events follow each other. -/
instance : Monad Traced where
  pure a := ⟨a, []⟩
  bind m f :=
    let next := f m.value
    ⟨next.value, m.events ++ next.events⟩

/-- An event and nothing else. -/
def tell (level : Level) (message : String) : Traced Unit :=
  ⟨(), [⟨level, message⟩]⟩

end Traced

end ScriptLint
