import PascalTree.Released

/-! # The log

Rendering and destroying report what they did, each with a level and a message.
-/
namespace PascalTree
set_option autoImplicit false

inductive Event
  /-- A tree of the given kind, if there was one, became a text of so many bytes. -/
  | rendered (kind : Option Kind) (bytes : Nat)
  | destroyed (kind : Kind) (released : Released)
  deriving DecidableEq

namespace Event

def level : Event → String
  | rendered .. => "TRACE"
  | destroyed .. => "DEBUG"

def message : Event → String
  | rendered kind bytes =>
    "Rendered " ++ (kind.map Kind.name).getD "nothing" ++ " (" ++ toString bytes ++ " bytes)"
  | destroyed kind released =>
    "Destroyed " ++ kind.name ++ " tree (" ++ toString released.nodes ++ " nodes, " ++
      toString released.texts ++ " texts)"

def line (event : Event) : String := event.level ++ " " ++ event.message

end Event
end PascalTree
