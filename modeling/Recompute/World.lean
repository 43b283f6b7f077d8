import Recompute.Computation
import Recompute.Event
import Recompute.Invalidation

set_option autoImplicit false

namespace Recompute

structure World (S V : Type) where
  graph : Graph V := {}
  outside : S
  handles : Nat := 0
  interrupted : List Handle := []
  history : List Event := []

namespace World

variable {S V : Type}

def newHandle (w : World S V) : Handle × World S V :=
  (w.handles, { w with handles := w.handles + 1 })

def interrupt (w : World S V) (h : Handle) : World S V :=
  if h ∈ w.interrupted then w else { w with interrupted := h :: w.interrupted }

def isInterrupted (w : World S V) (h : Handle) : Bool := h ∈ w.interrupted

def record (w : World S V) (e : Event) : World S V := { w with history := e :: w.history }

def recordMarks (w : World S V) (marks : List Mark) : World S V :=
  marks.foldl (fun w (k, d) => w.record (.invalidated k d)) w

def events (w : World S V) : List Event := w.history.reverse

def inject [BEq V] (w : World S V) (values : List (Key × V)) : Summary × World S V :=
  let (summary, marks, graph) := w.graph.inject values
  (summary, { w with graph }.recordMarks marks)

def invalidate (w : World S V) (keys : List Key) : Summary × World S V :=
  let (summary, marks, graph) := w.graph.invalidate keys
  (summary, { w with graph }.recordMarks marks)

end World

structure Scope where
  key : Key
  version : Nat
  handle : Handle

def Computation.run {S V α : Type} [BEq V] (scope : Scope) :
    Computation S V α → Trace V → World S V → Except Panic α × Trace V × World S V
  | .done x, t, w => (.ok x, t, w)
  | .panic p, t, w => (.error p, t, w)
  | .values keys next, t, w =>
    let (answers, t, graph) := t.request false keys w.graph
    (next answers.withoutFailures).run scope t { w with graph }
  | .outcomes keys next, t, w =>
    let (answers, t, graph) := t.request true keys w.graph
    (next answers).run scope t { w with graph }
  | .blocked next, t, w => (next t.blocked).run scope t w
  | .version next, t, w => (next scope.version).run scope t w
  | .interrupted next, t, w => (next (w.isInterrupted scope.handle)).run scope t w
  | .outside next, t, w => (next w.outside).run scope t w
  | .setOutside s next, t, w => next.run scope t { w with outside := s }
  | .note text next, t, w => next.run scope t (w.record (.noted scope.key text))
  | .interrupt h next, t, w => next.run scope t (w.interrupt h)
  | .inject key v next, t, w =>
    next.run scope t { w with graph := (w.graph.inject [(key, v)]).2.2 }
  | .invalidate key next, t, w =>
    next.run scope t { w with graph := (w.graph.invalidate [key]).2.2 }

end Recompute
