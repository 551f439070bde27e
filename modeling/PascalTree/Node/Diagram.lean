import PascalTree.Diagram
import PascalTree.Node.Fold

/-! # The tree view

Every node is an entry captioned with its kind and payload. A child in a slot is labelled with the
name of the slot, empty slots are left out, and the items of a list follow unlabelled.
-/
namespace PascalTree
set_option autoImplicit false

namespace Payload

/-- A string brings its own quotes; any other payload is put in brackets. -/
def caption (payload : Payload) : String :=
  match payload with
  | string text => payload.kind.name ++ " " ++ text
  | _ => payload.kind.name ++ " (" ++ payload.spelling ++ ")"

end Payload

def Label.caption (label : Label) : String :=
  match label.payload with
  | some payload => payload.caption
  | none => label.kind.name

namespace Node

def diagram (node : Node) : Diagram :=
  node.fold fun label slots items =>
    .entry label.caption
      ((label.kind.slotNames.zip slots).filterMap (fun (name, slot) => slot.map (·.labelled name)) ++
        items)

def view (node : Node) : String := node.diagram.text

end Node
end PascalTree
