import Recompute.Failure
import Recompute.Table

set_option autoImplicit false

namespace Recompute

-- While a node is `verifying`, what its result has read is checked; while it is `computing`, its
-- rule runs or waits to be started again.
inductive Status where
  | fresh
  | verifying
  | computing
  | done
  | failed
  deriving DecidableEq, Repr

def Status.name : Status → String
  | fresh => "NotStarted"
  | verifying => "CheckingDeps"
  | computing => "Evaluating"
  | done => "Done"
  | failed => "Error"

def Status.isSettled : Status → Bool
  | done | failed => true
  | fresh | verifying | computing => false

-- A `suspect` node depends on something that was invalidated. A `changed` one was itself reported
-- changed, so its rule has to run again.
inductive Dirty where
  | clean
  | suspect
  | changed
  deriving DecidableEq, Repr

def Dirty.name : Dirty → String
  | clean => "Clean"
  | suspect => "MaybeDirty"
  | changed => "Changed"

def Dirty.join : Dirty → Dirty → Dirty
  | changed, _ | _, changed => changed
  | suspect, _ | _, suspect => suspect
  | clean, clean => clean

abbrev Group := List Key

abbrev Memo (V : Type) := Table Key (Outcome V)

-- A parked node is ready after `pending` signals: one for each key awaited, and one that ends the
-- registration.
inductive Stage where
  | queued
  | claimed
  | parked (pending : Nat)
  deriving DecidableEq, Repr

-- What a node keeps while a pass works on it: what it was last parked on, who is parked on it, how
-- many recorded groups are verified, and what earlier attempts of the pass have read.
structure Flight (V : Type) where
  stage : Stage := .queued
  awaits : List Key := []
  waiters : List Key := []
  verified : Nat := 0
  memo : Memo V := []

inductive Task where
  | compute
  | verify (first : Nat)
  | keep
  deriving DecidableEq, Repr

inductive Registration where
  | finished (version : Nat)
  | waiting (enqueued : Bool)
  deriving DecidableEq, Repr

structure Receipt where
  waiters : List Key
  formerDeps : List Group
  changed : Bool
  deriving DecidableEq, Repr

-- The record of one key. The last result is `cached`, also while the node is dirty or computed
-- again; it has read `deps`, changed last at `version`, and was last computed or verified at
-- `verifiedAt`.
structure Node (V : Type) where
  status : Status := .fresh
  dirty : Dirty := .clean
  cached : Option (Outcome V) := none
  deps : List Group := []
  dependents : List Key := []
  version : Nat := 0
  verifiedAt : Nat := 0
  starts : Nat := 0
  injected : Bool := false
  flight : Option (Flight V) := none

namespace Node

variable {V : Type}

def isDirty (n : Node V) : Bool := n.dirty ≠ .clean

def isFinished (n : Node V) : Bool := n.status.isSettled && !n.isDirty

def isInFlight (n : Node V) : Bool := n.flight.isSome

def value? (n : Node V) : Option V :=
  match n.status, n.cached with
  | .done, some (.ok v) => some v
  | _, _ => none

def failure? (n : Node V) : Option Failure :=
  match n.status, n.cached with
  | .failed, some (.error f) => some f
  | _, _ => none

def outcome? (n : Node V) : Option (Outcome V) := if n.isFinished then n.cached else none

def awaits (n : Node V) : List Key := (n.flight.map Flight.awaits).getD []

def waiters (n : Node V) : List Key := (n.flight.map Flight.waiters).getD []

def asked (n : Node V) : Group :=
  match n.flight with
  | none => []
  | some f => f.memo.keys.filter (· ∉ f.awaits) ++ f.awaits

def holds [BEq V] (n : Node V) (v : V) : Bool :=
  match n.cached with
  | some (.ok old) => old == v
  | _ => false

def mark (n : Node V) (d : Dirty) : Bool × Node V :=
  if n.status.isSettled then
    (n.dirty = .clean && d ≠ .clean, { n with dirty := n.dirty.join d })
  else (false, n)

def addDependent (n : Node V) (k : Key) : Node V :=
  if k ∈ n.dependents then n else { n with dependents := n.dependents ++ [k] }

def removeDependent (n : Node V) (k : Key) : Node V :=
  { n with dependents := n.dependents.filter (· ≠ k) }

def inject [BEq V] (n : Node V) (v : V) (version : Nat) : Receipt × Node V :=
  -- An equal value keeps the version, so that dependents need not be computed again.
  let changed := !(n.status = .done && n.holds v)
  let n' := { n with status := .done, dirty := .clean, deps := [], injected := true }
  (⟨[], n.deps, changed⟩,
    if changed then { n' with cached := some (.ok v), version, verifiedAt := version } else n')

def enqueue (n : Node V) : Bool × Node V :=
  if n.isFinished || n.isInFlight then (false, n) else (true, { n with flight := some {} })

def register (n : Node V) (waiter : Key) : Registration × Node V :=
  if n.isFinished then (.finished n.version, n)
  else
    let (enqueued, n) := n.enqueue
    (.waiting enqueued,
      { n with flight := n.flight.map fun f =>
          if waiter ∈ f.waiters then f else { f with waiters := f.waiters ++ [waiter] } })

def task (n : Node V) (f : Flight V) : Task :=
  match n.status, n.dirty with
  | .fresh, _ | .computing, _ | .failed, _ => .compute
  -- The node was parked while it was verified, and goes on where it stopped.
  | .verifying, _ => .verify f.verified
  | .done, .clean => .compute
  | .done, .suspect => if n.injected then .keep else .verify 0
  | .done, .changed => if n.injected then .keep else .compute

def claim (n : Node V) : Option Task × Node V :=
  match n.flight with
  | none => (none, n)
  | some f =>
    if f.stage ≠ .queued then (none, n)
    else
      let task := n.task f
      let status :=
        match task with
        | .compute => Status.computing
        | .verify _ => .verifying
        | .keep => n.status
      (some task, { n with status, flight := some { f with stage := .claimed } })

def start (n : Node V) : Nat × Node V :=
  (n.starts + 1, { n with status := .computing, starts := n.starts + 1 })

def verifiedUpTo (n : Node V) (group : Nat) : Node V :=
  { n with flight := n.flight.map fun f => { f with verified := group + 1 } }

def releaseMemo (n : Node V) : Memo V × Node V :=
  ((n.flight.map Flight.memo).getD [],
    { n with flight := n.flight.map fun f => { f with memo := [] } })

def park (n : Node V) (awaits : List Key) (memo : Memo V) : Node V :=
  { n with flight := n.flight.map fun f =>
      { f with stage := .parked (awaits.length + 1), awaits, memo } }

def countDown (n : Node V) : Bool × Node V :=
  match n.flight with
  | none => (false, n)
  | some f =>
    match f.stage with
    | .queued | .claimed | .parked 0 => (false, n)
    | .parked 1 => (true, { n with flight := some { f with stage := .queued } })
    | .parked (m + 2) => (false, { n with flight := some { f with stage := .parked (m + 1) } })

def settle (n : Node V) (deps : List Group) (version : Nat) : Node V :=
  { n with dirty := .clean, verifiedAt := version, deps, flight := none }

def succeed [BEq V] (n : Node V) (v : V) (deps : List Group) (version : Nat) :
    Receipt × Node V :=
  let changed := !n.holds v
  (⟨n.waiters, n.deps, changed⟩,
    { n.settle deps version with
      status := .done, cached := some (.ok v), injected := false
      version := if changed then version else n.version })

def fail (n : Node V) (f : Failure) (deps : List Group) (version : Nat) : Receipt × Node V :=
  (⟨n.waiters, n.deps, true⟩,
    { n.settle deps version with
      status := .failed, cached := some (.error f), injected := false, version })

def confirm (n : Node V) (version : Nat) : Receipt × Node V :=
  let status :=
    match n.cached with
    | some (.error _) => Status.failed
    | _ => .done
  (⟨n.waiters, [], false⟩, { n.settle n.deps version with status })

-- Gives up the work on a node. With a result it falls back to it and stays dirty, else it forgets
-- the attempt.
def abandon (n : Node V) : Node V :=
  match n.flight, n.cached with
  | none, _ => n
  | some _, none => { n with status := .fresh, dirty := .clean, deps := [], flight := none }
  | some _, some (.ok _) =>
    { n with status := .done, dirty := n.dirty.join .suspect, flight := none }
  | some _, some (.error _) =>
    { n with status := .failed, dirty := n.dirty.join .suspect, flight := none }

theorem outcome?_eq_none {n : Node V} (unfinished : n.isFinished = false) : n.outcome? = none := by
  simp [outcome?, unfinished]

@[simp] theorem flight_abandon (n : Node V) : n.abandon.flight = none := by
  unfold abandon
  split <;> simp_all

end Node

end Recompute
