/-! # Reserving room for a tree

Room is reserved in bytes before a tree is built. How much there is, only the allocator knows. A
request that it does not serve is refused.
-/
namespace PascalTree
set_option autoImplicit false

structure AllocationError where
  capacity : UInt64
  deriving DecidableEq

def AllocationError.message (error : AllocationError) : String :=
  "Allocation Failure: could not allocate " ++ toString error.capacity.toNat ++
    " bytes for the syntax tree"

/-- Room of at least so many bytes. -/
structure Arena where
  capacity : UInt64
  deriving DecidableEq

namespace Arena

def reserve (serves : UInt64 → Bool) (capacity : UInt64) : Except AllocationError Arena :=
  if serves capacity then .ok ⟨capacity⟩ else .error ⟨capacity⟩

end Arena
end PascalTree
