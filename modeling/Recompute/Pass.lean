import Recompute.Process
import Recompute.World

set_option autoImplicit false

namespace Recompute

structure Stats where
  invocations : Nat := 0
  restarts : Nat := 0
  built : Nat := 0
  unchanged : Nat := 0
  verified : Nat := 0
  errors : Nat := 0
  deriving DecidableEq, Repr

inductive Abort where
  | panicked (key : Key) (message : String)
  | stalled (keys : List Key)
  | exhausted
  deriving DecidableEq, Repr

def Abort.message : Abort → String
  | panicked key message => "function for `" ++ key.render ++ "` panicked: " ++ message
  | stalled keys => "evaluation stalled with " ++ toString keys.length ++ " unfinished keys"
  | exhausted => "evaluation ran out of its budget"

-- Which of the ready keys are worked on first. That may depend on all that happened before.
structure Order where
  arrange : List Event → List Key → List Key
  perm : ∀ history ready, (arrange history ready).Perm ready

def Order.fifo : Order := ⟨fun _ ready => ready, fun _ ready => .refl ready⟩

structure Pass (S V : Type) where
  rules : Rules S V
  listener : Listener
  order : Order := .fifo
  version : Nat
  keepGoing : Bool
  handle : Handle

structure Progress (S V : Type) where
  world : World S V
  stats : Stats := {}
  halted : Bool := false
  culprit : Option Key := none
  abort : Option Abort := none
  enqueued : List Key := []

-- Work that is lost when the listener gives up. What it has done by then stays done.
abbrev Work (S V : Type) := Process (Progress S V)

namespace Progress

variable {S V α : Type}

def graph (s : Progress S V) : Graph V := s.world.graph

def withGraph (s : Progress S V) (g : Graph V) : Progress S V :=
  { s with world := { s.world with graph := g } }

def onGraph (f : Graph V → α × Graph V) : Work S V α :=
  modifyGet fun s =>
    let (a, g) := f s.graph
    (a, s.withGraph g)

def onWorld (f : World S V → World S V) : Work S V Unit :=
  modify fun s => { s with world := f s.world }

def onNode (k : Key) (t : Node V → α × Node V) : Work S V α := onGraph (·.transition k t)

def count (f : Stats → Stats) : Work S V Unit := modify fun s => { s with stats := f s.stats }

def settle (w : Work S V α) (lost : α) (s : Progress S V) : α × Progress S V :=
  let (a, s) := w.run.run s
  (a.getD lost, s)

def abandon (s : Progress S V) : Nat × Progress S V :=
  let (n, g) := s.graph.abandon s.enqueued
  (n, { s.withGraph g with enqueued := [] })

end Progress

open Progress

namespace Pass

variable {S V : Type}

def isStopped (p : Pass S V) (s : Progress S V) : Bool :=
  s.halted || s.world.isInterrupted p.handle

def report (p : Pass S V) (e : Event) : Work S V Unit :=
  .act (fun s => { s with world := s.world.record e }) fun s =>
    if p.listener (s.world.record e).history then .lost else return

def announce (p : Pass S V) (k : Key) : Work S V Unit := do
  modify fun s => { s with enqueued := s.enqueued ++ [k] }
  p.report (.enqueued k)

def enqueue (p : Pass S V) (k : Key) : Work S V Bool := do
  let enqueued ← onNode k Node.enqueue
  if enqueued then p.announce k
  return enqueued

def giveUp (a : Abort) : Work S V Unit :=
  modify fun s => { s with halted := true, abort := s.abort <|> some a }

def haltAt (k : Key) : Work S V Unit :=
  modify fun s => { s with halted := true, culprit := s.culprit <|> some k }

def rewire (k : Key) (old new : List Group) : Work S V Unit := do
  (old.flatten.filter (· ∉ new.flatten)).forM fun dep =>
    onGraph fun g => ((), g.modify dep (·.removeDependent k))
  (new.flatten.filter (· ∉ old.flatten)).forM fun dep =>
    onNode dep fun n => ((), n.addDependent k)

def signal : List Key → Work S V (List Key)
  | [] => return []
  | waiter :: rest => do
    let ready ← onGraph (·.transition? waiter Node.countDown)
    let others ← signal rest
    return if ready = some true then waiter :: others else others

def publish (k : Key) (receipt : Receipt) (deps : List Group) : Work S V (List Key) := do
  rewire k receipt.formerDeps deps
  signal receipt.waiters

def succeed [BEq V] (p : Pass S V) (k : Key) (v : V) (deps : List Group) :
    Work S V (List Key) := do
  let receipt ← onNode k (·.succeed v deps p.version)
  count fun s =>
    { s with built := s.built + 1
             unchanged := if receipt.changed then s.unchanged else s.unchanged + 1 }
  p.report (.evaluated k (.built receipt.changed))
  publish k receipt deps

def fail (p : Pass S V) (k : Key) (f : Failure) (deps : List Group) : Work S V (List Key) := do
  let receipt ← onNode k (·.fail f deps p.version)
  count fun s => { s with errors := s.errors + 1 }
  -- A listener that gives up here loses the halt, and with it the edges.
  p.report (.evaluated k (.failed f.kind))
  if !p.keepGoing then haltAt k
  publish k receipt deps

def confirm (p : Pass S V) (k : Key) : Work S V (List Key) := do
  let receipt ← onNode k (·.confirm p.version)
  count fun s => { s with verified := s.verified + 1 }
  p.report (.evaluated k .verified)
  signal receipt.waiters

def awaitOne (p : Pass S V) (k dep : Key) : Work S V (List Key) := do
  match ← onNode dep (·.register k) with
  | .finished _ =>
    -- The dependency has finished since it was found missing, so its signal never comes.
    let _ ← onNode k Node.countDown
    return []
  | .waiting true =>
    p.announce dep
    return [dep]
  | .waiting false => return []

def awaitAll (p : Pass S V) (k : Key) : List Key → Work S V (List Key)
  | [] => return []
  | dep :: rest => do
    let ready ← p.awaitOne k dep
    return ready ++ (← p.awaitAll k rest)

def park (p : Pass S V) (k : Key) (awaits : List Key) (memo : Memo V) : Work S V (List Key) := do
  onNode k fun n => ((), n.park awaits memo)
  let ready ← p.awaitAll k awaits
  if ← onNode k Node.countDown then return ready ++ [k]
  return ready

def ask (tolerant : Bool) : List Key → Trace.Request V → Work S V (Trace.Request V)
  | [], r => return r
  | k :: rest, r => do
    let r ← onGraph fun graph =>
      let r := Trace.Request.ask tolerant { r with graph } k
      (r, r.graph)
    ask tolerant rest r

def request (tolerant : Bool) (keys : List Key) (t : Trace V) :
    Work S V (Answers V × Trace V) := do
  let r ← ask tolerant keys ⟨t, (← get).graph, [], []⟩
  return (r.answers, r.close)

def carryOut [BEq V] (scope : Scope) {α : Type} :
    Computation S V α → Trace V → Work S V (Except Panic α × Trace V)
  | .done x, t => return (.ok x, t)
  | .panic p, t => return (.error p, t)
  | .values keys next, t => do
    let (answers, t) ← request false keys t
    carryOut scope (next answers.withoutFailures) t
  | .outcomes keys next, t => do
    let (answers, t) ← request true keys t
    carryOut scope (next answers) t
  | .blocked next, t => carryOut scope (next t.blocked) t
  | .version next, t => carryOut scope (next scope.version) t
  | .interrupted next, t => do
    carryOut scope (next ((← get).world.isInterrupted scope.handle)) t
  | .outside next, t => do carryOut scope (next (← get).world.outside) t
  | .setOutside outside next, t => do
    onWorld ({ · with outside })
    carryOut scope next t
  | .note text next, t => do
    onWorld (·.record (.noted scope.key text))
    carryOut scope next t
  | .interrupt h next, t => do
    onWorld (·.interrupt h)
    carryOut scope next t
  | .inject key v next, t => do
    onGraph fun g => ((), (g.inject [(key, v)]).2.2)
    carryOut scope next t
  | .invalidate key next, t => do
    onGraph fun g => ((), (g.invalidate [key]).2.2)
    carryOut scope next t

def run [BEq V] (p : Pass S V) (k : Key) (rule : Rule S V) (memo : Memo V) :
    Work S V (Except Panic (Except Fault V) × Trace V) :=
  carryOut ⟨k, p.version, p.handle⟩ (rule k) { memo }

def conclude [BEq V] (p : Pass S V) (k : Key) (result : Except Fault V) (t : Trace V) :
    Work S V (List Key) := do
  if (← get).world.isInterrupted p.handle then return []
  -- A result does not count as long as something is missing.
  if t.absent ≠ [] then
    count fun s => { s with restarts := s.restarts + 1 }
    p.report (.restarted k t.absent)
    p.park k t.absent t.memo
  else if t.failures ≠ [] then p.fail k (.merge t.failures) t.groups
  else
    match result with
    | .ok v => p.succeed k v t.groups
    | .error fault => p.fail k (.direct k fault) t.groups

def compute [BEq V] (p : Pass S V) (k : Key) : Work S V (List Key) := do
  let (attempt, memo) ← onNode k fun n =>
    let (attempt, n) := n.start
    let (memo, n) := n.releaseMemo
    ((attempt, memo), n)
  match p.rules.get? k.tag with
  | none => p.fail k (.direct k (.noRule k.tag)) []
  | some rule =>
    count fun s => { s with invocations := s.invocations + 1 }
    p.report (.computing k attempt)
    match ← p.run k rule memo with
    | (.error panic, _) =>
      giveUp (.panicked k panic.message)
      return []
    | (.ok result, t) => p.conclude k result t

inductive Verdict where
  | changed
  | unfinished (keys : List Key)
  | unchanged
  deriving DecidableEq, Repr

def inspect (verifiedAt : Nat) (unfinished : List Key) : Group → Work S V Verdict
  | [] => return if unfinished = [] then .unchanged else .unfinished unfinished
  | dep :: rest => do
    let n ← onNode dep fun n => (n, n)
    if !n.isFinished then inspect verifiedAt (unfinished ++ [dep]) rest
    else if n.version > verifiedAt then return .changed
    else inspect verifiedAt unfinished rest

def verifyGroups [BEq V] (p : Pass S V) (k : Key) (verifiedAt : Nat) :
    Nat → List Group → Work S V (List Key)
  | _, [] => p.confirm k
  | i, group :: rest => do
    match ← inspect verifiedAt [] group with
    | .changed => p.compute k
    | .unfinished keys => p.park k keys []
    | .unchanged =>
      onNode k fun n => ((), n.verifiedUpTo i)
      p.verifyGroups k verifiedAt (i + 1) rest

def verify [BEq V] (p : Pass S V) (k : Key) (first : Nat) : Work S V (List Key) := do
  let n := (← get).graph.node k
  p.verifyGroups k n.verifiedAt first (n.deps.drop first)

def work [BEq V] (p : Pass S V) (k : Key) : Work S V (List Key) := do
  if p.isStopped (← get) then return []
  match ← onNode k Node.claim with
  | some .compute => p.compute k
  | some (.verify first) => p.verify k first
  | some .keep => p.confirm k
  | none => return []

def failMembers (p : Pass S V) (cycle : Cycle) : List Key → Work S V (List Key)
  | [] => return []
  | k :: rest => do
    let ready ←
      match (← get).graph.get? k with
      | none => pure []
      | some n =>
        if n.isFinished then pure []
        else p.fail k (.cycle cycle) (if n.asked = [] then [] else [n.asked])
    return ready ++ (← p.failMembers cycle rest)

def failCycle (p : Pass S V) (cycle : Cycle) : Work S V (List Key) := do
  return (← p.failMembers cycle cycle).filter (· ∉ cycle)

end Pass

end Recompute
