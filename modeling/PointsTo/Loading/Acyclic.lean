/- # Acyclic -- the search for a supertype cycle

`cycleAt?` searches a graph depth first from every node in order.  It stops at the first node it meets that
has a link to a node on the path from the root to it, itself included. -/
set_option autoImplicit false

namespace PointsTo

/-- Searches the links of a node that is not yet done.  `path` holds the nodes from the root to it; the
result is the nodes that are done, or the node whose link closes a cycle. -/
def searchCycle (links : Nat → List Nat) :
    Nat → List Nat → List Nat → Nat → Except Nat (List Nat)
  | 0, _, done, _ => .ok done
  | depth + 1, path, done, node => do
    let done ← (links node).foldlM (fun done target =>
      if target ∈ node :: path then .error node
      else if target ∈ done then .ok done
      else searchCycle links depth (node :: path) done target) done
    return node :: done

/-- The first node met whose link closes a cycle, in a graph of `count` nodes. -/
def cycleAt? (count : Nat) (links : Nat → List Nat) : Option Nat :=
  let search := (List.range count).foldlM (fun done root =>
    if root ∈ done then Except.ok done else searchCycle links count [] done root) []
  match search with
  | .ok _ => none
  | .error node => some node

end PointsTo
