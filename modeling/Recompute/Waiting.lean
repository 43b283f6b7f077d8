import Recompute.Graph

set_option autoImplicit false

namespace Recompute

namespace Graph

variable {V : Type}

def waitEdges (g : Graph V) (k : Key) : Option (List Key) :=
  match g.get? k with
  | none => none
  | some n => if n.isFinished then none else some n.awaits

structure Search where
  explored : List Key := []
  claimed : List Key := []
  found : List Cycle := []

def Search.close (s : Search) (path : List Key) (k : Key) : Search :=
  let cycle := k :: (path.takeWhile (· ≠ k)).reverse
  if cycle.any (· ∈ s.claimed) then s
  else { s with claimed := s.claimed ++ cycle, found := s.found ++ [cycle] }

def Search.walk (edges : Key → Option (List Key)) : Nat → List Key → Key → Search → Search
  | 0, _, _, s => s
  | n + 1, path, k, s =>
    if k ∈ path then s.close path k
    else if k ∈ s.explored then s
    else
      let s :=
        match edges k with
        | none => s
        | some targets => targets.foldl (fun s target => walk edges n (k :: path) target s) s
      { s with explored := s.explored ++ [k] }

-- The cycles of unfinished nodes that wait for each other, as far as `roots` lead to them. A cycle
-- that shares a key with one found before is left out: failing the first one wakes the rest of it.
def cyclesFrom (g : Graph V) (roots : List Key) : List Cycle :=
  -- A path repeats no key, and all but its last key have a node, which bounds its length.
  (roots.foldl (fun s root => Search.walk g.waitEdges (g.size + 2) [] root s) {}).found

def waitClosure (g : Graph V) : Nat → List Key → List Key → List Key
  | 0, _, seen => seen
  | n + 1, frontier, seen =>
    let new := (frontier.flatMap g.awaits).filter (· ∉ seen)
    if new = [] then seen else waitClosure g n new (union seen new)

def dependsOn (g : Graph V) (root target : Key) : Bool :=
  target ∈ g.waitClosure (g.size + 1) [root] [root]

end Graph

end Recompute
