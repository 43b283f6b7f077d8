import Recompute.Graph

set_option autoImplicit false

namespace Recompute

structure Summary where
  changed : Nat
  reached : Nat
  deriving DecidableEq, Repr

abbrev Mark := Key × Dirty

namespace Graph

variable {V : Type}

structure Spread (V : Type) where
  graph : Graph V
  marked : List Key
  frontier : List Key

def Spread.visit (s : Spread V) (k : Key) : Spread V :=
  match s.graph.get? k with
  | none => s
  | some n =>
    let (first, n') := n.mark .suspect
    if first then ⟨s.graph.put k n', s.marked ++ [k], s.frontier ++ n.dependents⟩ else s

def Spread.round (s : Spread V) : Spread V :=
  s.frontier.foldl Spread.visit { s with frontier := [] }

def Spread.rounds : Nat → Spread V → Spread V
  | 0, s => s
  | n + 1, s => if s.frontier = [] then s else rounds n s.round

-- Marks everything that `frontier` leads to along edges to dependents, breadth first. Each round
-- but the last marks a clean node, so one round more than there are nodes is enough.
def spread (g : Graph V) (frontier : List Key) : Spread V :=
  Spread.rounds (g.size + 1) ⟨g, [], frontier⟩

def markChanged : List Key → Spread V → Spread V
  | [], s => s
  | k :: rest, s =>
    match s.graph.get? k with
    | none => markChanged rest s
    | some n =>
      let (first, n') := n.mark .changed
      markChanged rest
        { graph := s.graph.put k n'
          marked := if n'.isDirty then s.marked ++ [k] else s.marked
          frontier := if first then s.frontier ++ n.dependents else s.frontier }

def invalidate (g : Graph V) (keys : List Key) : Summary × List Mark × Graph V :=
  let told := markChanged keys ⟨g, [], []⟩
  let reached := told.graph.spread told.frontier
  (⟨told.marked.length, reached.marked.length⟩,
    told.marked.map (·, .changed) ++ reached.marked.map (·, .suspect), reached.graph)

def injectEach [BEq V] (version : Nat) : List (Key × V) → Spread V → Spread V
  | [], s => s
  | (k, v) :: rest, s =>
    let (receipt, n) := (s.graph.node k).inject v version
    injectEach version rest
      { graph := (s.graph.put k n).unlink k receipt.formerDeps.flatten
        marked := if receipt.changed then s.marked ++ [k] else s.marked
        frontier := if receipt.changed then s.frontier ++ n.dependents else s.frontier }

def inject [BEq V] (g : Graph V) (values : List (Key × V)) : Summary × List Mark × Graph V :=
  match values with
  | [] => (⟨0, 0⟩, [], g)
  | _ :: _ =>
    let g := g.advance
    let given := injectEach g.version values ⟨g, [], []⟩
    let reached := given.graph.spread given.frontier
    (⟨given.marked.length, reached.marked.length⟩,
      reached.marked.map (·, .suspect), reached.graph)

end Graph

end Recompute
