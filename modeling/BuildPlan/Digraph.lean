/-!
# Directed graphs and cycles

The nodes of a graph are numbered from zero, and its arcs are kept in the order in which they were
added, parallel arcs included. `cycleNode?` looks for a cycle in two depth-first passes. The first
follows the arcs and orders the nodes by when they are finished; it stops at a node with an arc to
itself. The second follows the arcs backwards, from the node finished last to the one finished
first; a start from which it reaches another new node lies on a cycle with it.

Of a node's neighbours the one whose arc was added last comes first.
-/

namespace BuildPlan

/-- A directed graph with `size` nodes. -/
structure Digraph where
  size : Nat
  arcs : List (Nat × Nat)
  deriving DecidableEq, Repr

namespace Digraph

/-- Where the arcs out of a node lead, the last arc first. -/
def successors (g : Digraph) (n : Nat) : List Nat :=
  ((g.arcs.filter (·.1 == n)).map (·.2)).reverse

/-- Where the arcs into a node come from, the last arc first. -/
def predecessors (g : Digraph) (n : Nat) : List Nat :=
  ((g.arcs.filter (·.2 == n)).map (·.1)).reverse

/-- A neighbour list as it goes onto the stack: only unseen nodes, the last one on top. -/
def pushed (unseen neighbours : List Nat) : List Nat :=
  (neighbours.filter (unseen.contains ·)).reverse

/-- The nodes still unseen and the nodes finished, the last one first. -/
structure Progress where
  unseen : List Nat
  finished : List Nat
  deriving DecidableEq, Repr

/-- The first pass from a stack of nodes. A node stays on the stack while what it leads to is worked
off, and is finished when it comes up again. Stops at a node that leads to itself. -/
def finish (next : Nat → List Nat) (unseen finished : List Nat) :
    (stack : List Nat) → Except Nat Progress
  | [] => .ok ⟨unseen, finished⟩
  | n :: rest =>
    if _h : n ∈ unseen then
      if n ∈ next n then .error n
      else finish next (unseen.erase n) finished (pushed (unseen.erase n) (next n) ++ n :: rest)
    else finish next unseen (if n ∈ finished then finished else n :: finished) rest
termination_by stack => (unseen.length, stack.length)
decreasing_by
  · have := List.length_erase_of_mem _h
    have := List.length_pos_of_mem _h
    apply Prod.Lex.left
    omega
  · apply Prod.Lex.right
    simp

/-- The first pass from each of the given nodes that is still unseen. -/
def finishAll (next : Nat → List Nat) (p : Progress) : List Nat → Except Nat Progress
  | [] => .ok p
  | n :: starts =>
    if n ∈ p.unseen then
      match finish next p.unseen p.finished [n] with
      | .error e => .error e
      | .ok p => finishAll next p starts
    else finishAll next p starts

/-- The second pass from a stack of nodes: what is still unseen afterwards. Stops at the second new
node. -/
def sweep (back : Nat → List Nat) (unseen : List Nat) (found : Bool) :
    (stack : List Nat) → Except Nat (List Nat)
  | [] => .ok unseen
  | n :: rest =>
    if _h : n ∈ unseen then
      if found then .error n
      else sweep back (unseen.erase n) true (pushed (unseen.erase n) (back n) ++ rest)
    else sweep back unseen found rest
termination_by stack => (unseen.length, stack.length)
decreasing_by
  · have := List.length_erase_of_mem _h
    have := List.length_pos_of_mem _h
    apply Prod.Lex.left
    omega
  · apply Prod.Lex.right
    simp

/-- The second pass from each of the given nodes. -/
def sweepAll (back : Nat → List Nat) (unseen : List Nat) : List Nat → Except Nat (List Nat)
  | [] => .ok unseen
  | n :: starts =>
    match sweep back unseen false [n] with
    | .error e => .error e
    | .ok unseen => sweepAll back unseen starts

def nodes (g : Digraph) : List Nat :=
  List.range g.size

/-- The nodes with each before all that its arcs lead to, or a node on a cycle. -/
def order (g : Digraph) : Except Nat (List Nat) :=
  match finishAll g.successors ⟨g.nodes, []⟩ g.nodes with
  | .error n => .error n
  | .ok p =>
    match sweepAll g.predecessors g.nodes p.finished with
    | .error n => .error n
    | .ok _ => .ok p.finished

/-- A node on a cycle, if the graph has one. -/
def cycleNode? (g : Digraph) : Option Nat :=
  match g.order with
  | .error n => some n
  | .ok _ => none

end Digraph

end BuildPlan
