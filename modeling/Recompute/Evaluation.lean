import Recompute.Pass
import Recompute.Waiting

set_option autoImplicit false

namespace Recompute

structure Evaluation (V : Type) where
  version : Nat
  roots : Table Key (Outcome V)
  failures : List Failure
  stats : Stats

namespace Evaluation

variable {V : Type}

def get? (e : Evaluation V) (root : Key) : Option (Outcome V) := Table.get? e.roots root

def value? (e : Evaluation V) (root : Key) : Option V := (e.get? root).bind Except.toOption

def failure? (e : Evaluation V) (root : Key) : Option Failure :=
  match e.get? root with
  | some (.error f) => some f
  | _ => none

def hasFailures (e : Evaluation V) : Bool := !e.failures.isEmpty

end Evaluation

namespace Pass

variable {S V : Type}

def dispatch [BEq V] (p : Pass S V) (k : Key) (s : Progress S V) : List Key × Progress S V :=
  Progress.settle (p.work k) [] s

-- Here and in `failCycles` a listener that gives up is passed over. It is called on the thread that
-- drives the pass, so in a real engine its panic leaves the evaluation before anything is abandoned.
def enqueueAll (p : Pass S V) : List Key → Progress S V → List Key × Progress S V
  | [], s => ([], s)
  | root :: rest, s =>
    let (enqueued, s) := Progress.settle (p.enqueue root) false s
    let (others, s) := enqueueAll p rest s
    (if enqueued then root :: others else others, s)

def failCycles (p : Pass S V) : List Cycle → Progress S V → List Key × Progress S V
  | [], s => ([], s)
  | cycle :: rest, s =>
    let (ready, s) := Progress.settle (p.failCycle cycle) [] s
    let (others, s) := failCycles p rest s
    (ready ++ others, s)

inductive Turn where
  | dispatch (k : Key) (rest : List Key)
  | unblock (cycles : List Cycle)
  | stop
  | stall (unfinished : List Key)
  deriving DecidableEq, Repr

def turn (p : Pass S V) (roots queue : List Key) (s : Progress S V) : Turn :=
  if p.isStopped s then .stop
  else
    match p.order.arrange s.world.history queue with
    | k :: rest => .dispatch k rest
    | [] =>
      let unfinished := roots.filter fun root => !s.graph.isFinished root
      if unfinished = [] then .stop
      else
        match s.graph.cyclesFrom unfinished with
        | [] => .stall unfinished
        | cycles => .unblock cycles

def drain [BEq V] (p : Pass S V) (roots : List Key) :
    Nat → List Key → Progress S V → Except Abort Unit × Progress S V
  | 0, _, s => (.error .exhausted, s)
  | budget + 1, queue, s =>
    match p.turn roots queue s with
    | .stop => (.ok (), s)
    | .stall unfinished => (.error (.stalled unfinished), s)
    | .dispatch k rest =>
      let (ready, s) := p.dispatch k s
      p.drain roots budget (rest ++ ready) s
    | .unblock cycles =>
      let (ready, s) := p.failCycles cycles s
      p.drain roots budget ready s

def outcomeOf (p : Pass S V) (s : Progress S V) (root : Key) : Option (Outcome V) :=
  match s.graph.outcome? root with
  | some o => some o
  | none =>
    if s.world.isInterrupted p.handle then some (.error .interrupted)
    else
      match s.culprit with
      | none => none
      | some culprit =>
        match (s.graph.get? culprit).bind Node.failure? with
        | some f => if s.graph.dependsOn root culprit then some (.error (.merge [f])) else none
        | none => none

def evaluation (p : Pass S V) (roots : List Key) (s : Progress S V) : Evaluation V :=
  let outcomes := roots.filterMap fun root => (p.outcomeOf s root).map fun o => (root, o)
  let failures := outcomes.filterMap fun (_, o) =>
    match o with
    | .error f => some f
    | .ok _ => none
  { version := p.version, roots := outcomes, stats := s.stats
    failures := if p.keepGoing then failures else failures.take 1 }

def complete [BEq V] (p : Pass S V) (budget : Nat) (roots : List Key) (w : World S V) :
    Except Abort (Evaluation V) × World S V :=
  let (queue, s) := p.enqueueAll roots { world := w }
  let (drained, s) := p.drain roots budget queue s
  let result :=
    match drained, s.abort with
    | .error a, _ => .error a
    | .ok (), some a => .error a
    | .ok (), none => .ok (p.evaluation roots s)
  (result, s.abandon.2.world)

end Pass

end Recompute
