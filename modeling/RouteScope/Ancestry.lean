/-!
# Ancestry

The one thing that every host of syntax trees can tell about a node is its
parent.  A depth that shrinks from a node to its parent rules out cycles, so
the way up from any node ends.  `ancestors` lists it, nearest first and without
the node itself.
-/

namespace RouteScope

/-- Nodes that know their parents.  On the way up a bound on the number of ancestors
shrinks. -/
class Ancestry (ν : Type) where
  parent? : ν → Option ν
  depth : ν → Nat
  depth_lt {node parent : ν} : parent? node = some parent → depth parent < depth node

namespace Ancestry

variable {ν : Type} [Ancestry ν]

/-- The ancestors of a node, its parent first and the root last. -/
def ancestors (node : ν) : List ν :=
  match _found : parent? node with
  | none => []
  | some parent => parent :: ancestors parent
termination_by depth node
decreasing_by exact depth_lt _found

/-- The nearest ancestor with a property. -/
def findAncestor? (p : ν → Bool) (node : ν) : Option ν :=
  (ancestors node).find? p

theorem ancestors_of_parent?_eq_none {node : ν} (h : parent? node = none) :
    ancestors node = [] := by
  rw [ancestors]
  split <;> simp_all

theorem ancestors_of_parent?_eq_some {node parent : ν} (h : parent? node = some parent) :
    ancestors node = parent :: ancestors parent := by
  rw [ancestors]
  split <;> simp_all

end Ancestry

/-- A node that is known by a number, together with the numbers of its
ancestors, from its parent up to the root.  It is the least that a host can tell. -/
structure NumberedNode where
  number : Nat
  above : List Nat
deriving DecidableEq, Repr

namespace NumberedNode

/-- The parent, which has the rest of the way up above it. -/
def parent? : NumberedNode → Option NumberedNode
  | ⟨_, []⟩ => none
  | ⟨_, number :: above⟩ => some ⟨number, above⟩

instance : Ancestry NumberedNode where
  parent? := parent?
  depth node := node.above.length
  depth_lt {node parent} h := by
    rcases node with ⟨n, _ | ⟨m, above⟩⟩
    · simp [parent?] at h
    · obtain rfl : ⟨m, above⟩ = parent := by simpa [parent?] using h
      simp

end NumberedNode

end RouteScope
