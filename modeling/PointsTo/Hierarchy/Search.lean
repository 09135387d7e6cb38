/- # Search -- visiting what links lead to

`visit` takes nodes from a pending list, skips those it has seen, and adds the links of the others to the
pending ones.  Adding them in front visits depth first, adding them behind visits breadth first.  A node
adds its links once, so the count of links bounds the rounds. -/
set_option autoImplicit false

namespace PointsTo

variable {α : Type} [DecidableEq α]

/-- The nodes visited from the pending ones, in order, after those seen. -/
def visit (links : α → List α) (join : List α → List α → List α) :
    Nat → List α → List α → List α
  | 0, _, seen => seen
  | _ + 1, [], seen => seen
  | rounds + 1, node :: pending, seen =>
    if node ∈ seen then visit links join rounds pending seen
    else visit links join rounds (join (links node) pending) (seen ++ [node])

/-- The nodes that links lead to from a node, depth first; the node comes first. -/
def depthFirst (links : α → List α) (rounds : Nat) (root : α) : List α :=
  visit links (fun new pending => new ++ pending) rounds [root] []

/-- The nodes that links lead to from a node, breadth first; the node comes first. -/
def breadthFirst (links : α → List α) (rounds : Nat) (root : α) : List α :=
  visit links (fun new pending => pending ++ new) rounds [root] []

end PointsTo
