import PascalTree.Node.Fold
import PascalTree.Fault

/-! # Tearing a tree down

Destroying a tree reports how many nodes it had and how many of them owned a text. Counts are
64 bits wide, and adding beyond that is a fault.
-/
namespace PascalTree
set_option autoImplicit false

structure Released where
  nodes : Nat
  texts : Nat
  deriving DecidableEq

namespace Released

/-- No count reaches this. -/
def limit : Nat := 0x10000000000000000

def zero : Released := ⟨0, 0⟩

def add (first second : Released) : Except Fault Released :=
  if first.nodes + second.nodes < limit ∧ first.texts + second.texts < limit then
    .ok ⟨first.nodes + second.nodes, first.texts + second.texts⟩
  else .error .overflow

def sum (parts : List Released) : Except Fault Released := parts.foldlM add zero

theorem add_eq_ok_iff {first second total : Released} :
    first.add second = .ok total ↔
      total = ⟨first.nodes + second.nodes, first.texts + second.texts⟩ ∧
        total.nodes < limit ∧ total.texts < limit := by
  unfold add
  split <;> grind

/-- The share of a node apart from its children. -/
def ofKind (kind : Kind) : Released := ⟨1, if kind.ownsText then 1 else 0⟩

end Released

namespace Node

/-- Children are released in order, each as a whole, and then the node itself. -/
def release (node : Node) : Except Fault Released :=
  node.fold fun label slots items => do
    let below ← (slots.filterMap id ++ items).foldlM
      (fun (total : Released) (part : Except Fault Released) => do total.add (← part)) .zero
    below.add (.ofKind label.kind)

/-- Destroying nothing releases nothing. -/
def destroy : Option Node → Except Fault Released
  | none => .ok .zero
  | some node => node.release

end Node
end PascalTree
