import Recompute.Graph
import Recompute.Json.Value

set_option autoImplicit false

namespace Recompute

structure NodeView where
  key : String
  status : Status
  dirty : Dirty
  version : Nat
  verifiedAt : Nat
  starts : Nat
  injected : Bool
  value : Option String
  failure : Option String
  deps : List (List String)
  dependents : List String
  deriving DecidableEq, Repr

structure Snapshot where
  version : Nat
  nodes : List NodeView
  deriving DecidableEq, Repr

namespace NodeView

def ofNode {V : Type} (render : V → String) (k : Key) (n : Node V) : NodeView :=
  { key := k.render, status := n.status, dirty := n.dirty, version := n.version
    verifiedAt := n.verifiedAt, starts := n.starts, injected := n.injected
    value := n.value?.map render, failure := n.failure?.map Failure.message
    deps := n.deps.map fun group => group.map Key.render
    dependents := n.dependents.map Key.render }

def toJson (n : NodeView) : Json :=
  .object [("key", .text n.key), ("state", .text n.status.name), ("dirty", .text n.dirty.name),
    ("version", .number n.version), ("verified_version", .number n.verifiedAt),
    ("generation", .number n.starts), ("injected", .bool n.injected),
    ("value", .ofOption .text n.value), ("error", .ofOption .text n.failure),
    ("direct_deps", .array (n.deps.map .texts)), ("reverse_deps", .texts n.dependents)]

end NodeView

namespace Snapshot

def ofGraph {V : Type} (render : V → String) (g : Graph V) : Snapshot :=
  { version := g.version
    nodes := (g.nodes.map fun (k, n) => NodeView.ofNode render k n).mergeSort
      fun a b => !(b.key < a.key : Bool) }

def find? (s : Snapshot) (key : String) : Option NodeView := s.nodes.find? (·.key = key)

def toJson (s : Snapshot) : Json :=
  .object [("version", .number s.version), ("nodes", .array (s.nodes.map NodeView.toJson))]

end Snapshot

end Recompute
