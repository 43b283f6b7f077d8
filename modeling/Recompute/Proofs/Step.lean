import Recompute.Proofs.Likeness
import Recompute.Pass
import Mathlib.Logic.Function.Basic

set_option autoImplicit false

namespace Recompute

variable {S V : Type}

structure Control (S : Type) where
  version : Nat
  outside : S
  interrupted : List Handle
  handles : Nat
  halted : Bool
  culprit : Option Key
  abort : Option Abort
  enqueued : List Key
  told : List Event

def Progress.control (s : Progress S V) : Control S :=
  { version := s.graph.version, outside := s.world.outside, interrupted := s.world.interrupted
    handles := s.world.handles, halted := s.halted, culprit := s.culprit, abort := s.abort
    enqueued := s.enqueued, told := s.world.counted }

def Control.committed (c : Control S) (keepGoing : Bool) (k : Key) : Outcome V → Control S
  | .ok _ => c
  | .error _ =>
    if keepGoing then c else { c with halted := true, culprit := c.culprit <|> some k }

section

variable (c : Control S) (keepGoing : Bool) (k : Key) (o : Outcome V)

@[simp] theorem Control.version_committed : (c.committed keepGoing k o).version = c.version := by
  cases o <;> cases keepGoing <;> rfl

@[simp] theorem Control.enqueued_committed : (c.committed keepGoing k o).enqueued = c.enqueued := by
  cases o <;> cases keepGoing <;> rfl

@[simp] theorem Control.told_committed : (c.committed keepGoing k o).told = c.told := by
  cases o <;> cases keepGoing <;> rfl

@[simp] theorem Control.abort_committed : (c.committed keepGoing k o).abort = c.abort := by
  cases o <;> cases keepGoing <;> rfl

@[simp] theorem Control.outside_committed : (c.committed keepGoing k o).outside = c.outside := by
  cases o <;> cases keepGoing <;> rfl

end

def Rules.Confined (rules : Rules S V) (good : S → Prop) : Prop :=
  ∀ k rule, rules.get? k.tag = some rule → (rule k).Confined good

theorem Rules.forall_nil {P : Key → Rule S V → Prop} (k : Key) (rule : Rule S V)
    (found : Table.get? ([] : Rules S V) k.tag = some rule) : P k rule := by
  simp at found

theorem Rules.forall_cons {rules : Rules S V} {tag : String} {rule : Rule S V}
    {P : Key → Rule S V → Prop} (first : ∀ k, k.tag = tag → P k rule)
    (rest : ∀ k rule, rules.get? k.tag = some rule → P k rule) (k : Key) (rule' : Rule S V)
    (found : Table.get? ((tag, rule) :: rules : Rules S V) k.tag = some rule') : P k rule' := by
  by_cases here : tag = k.tag
  · simp only [Table.get?, here, if_true, Option.some.injEq] at found
    exact found ▸ first k here.symm
  · simp only [Table.get?, here, if_false] at found
    exact rest k rule' found

theorem Rules.Pure.confined [BEq V] {rules : Rules S V} {good : S → Prop} (pure : rules.Pure good)
    (some : ∃ s, good s) : rules.Confined good :=
  fun k rule found => (pure k rule found).confined some

def Trace.outcome (t : Trace V) (k : Key) (result : Except Fault V) : Outcome V :=
  if t.failures ≠ [] then .error (.merge t.failures)
  else
    match result with
    | .ok v => .ok v
    | .error fault => .error (.direct k fault)

theorem Trace.outcome_ne_cycle (t : Trace V) (k : Key) (result : Except Fault V) (cycle : Cycle) :
    t.outcome k result ≠ .error (.cycle cycle) := by
  unfold Trace.outcome
  split
  · simp [Failure.merge]
  · split <;> simp

structure Attempt (p : Pass S V) (good : S → Prop) (g : Graph V) (k : Key) (memo : Memo V)
    (result : Except Panic (Except Fault V)) (t : Trace V) : Prop where
  plays : ∃ rule, p.rules.get? k.tag = some rule ∧
    (rule k).Plays (({ memo } : Trace V).known g) good {} result t.reads
  remembers : ∀ d o, memo.get? d = some o → t.memo.get? d = some o
  recalls : ∀ d o, t.memo.get? d = some o → ({ memo } : Trace V).known g d = some o
  asked : ∀ d ∈ t.asked, t.memo.get? d = ({ memo } : Trace V).known g d

def Node.begun (n : Node V) : Node V := { n with starts := n.starts + 1 }

def Node.resumed (n : Node V) (f : Flight V) : Node V :=
  { n.begun with status := .computing, flight := some f }

@[simp] theorem Node.flight_resumed (n : Node V) (f : Flight V) :
    (n.resumed f).flight = some f := rfl

def Node.commit [BEq V] (n : Node V) (o : Outcome V) (deps : List Group) (version : Nat) :
    Receipt × Node V :=
  match o with
  | .ok v => n.succeed v deps version
  | .error f => n.fail f deps version

def Ending.of (o : Outcome V) (changed : Bool) : Ending :=
  match o with
  | .ok _ => .built changed
  | .error f => .failed f.kind

def Pass.began (p : Pass S V) (k : Key) (n : Node V) : List Event :=
  match p.rules.get? k.tag with
  | none => []
  | some _ => [.computing k (n.starts + 1)]

namespace Graph

def Checked (g : Graph V) (verifiedAt : Nat) (deps : List Key) : Prop :=
  ∀ d ∈ deps, (g.node d).isFinished = true ∧ (g.node d).version ≤ verifiedAt

def Outdated (g : Graph V) (verifiedAt : Nat) (deps : List Group) : Prop :=
  ∃ i group d, deps[i]? = some group ∧ d ∈ group ∧ (g.node d).isFinished = true ∧
    verifiedAt < (g.node d).version ∧ g.Checked verifiedAt (deps.take i).flatten

def Startable (g : Graph V) (k : Key) : Prop :=
  (g.node k).status = .computing ∨
    (g.node k).status = .verifying ∧ g.Outdated (g.node k).verifiedAt (g.node k).deps

theorem Startable.status {g : Graph V} {k : Key} (cause : g.Startable k) :
    (g.node k).status = .computing ∨ (g.node k).status = .verifying :=
  cause.imp_right And.left

def Confirmable (g : Graph V) (k : Key) : Prop :=
  (g.node k).status = .done ∧ (g.node k).injected = true ∨
    (g.node k).status = .verifying ∧ g.Checked (g.node k).verifiedAt (g.node k).deps.flatten

theorem Confirmable.status {g : Graph V} {k : Key} (cause : g.Confirmable k) :
    (g.node k).status = .verifying ∨ (g.node k).status = .done :=
  cause.elim (fun given => .inr given.1) fun checked => .inl checked.1

def settled (g : Graph V) (k : Key) (m : Node V) : Graph V :=
  (((g.put k m).relink k (g.node k).deps m.deps).wake (g.node k).waiters).2

def parked (g : Graph V) (k : Key) (m : Node V) (awaits : List Key) : Key → Node V := fun l =>
  if l ∈ awaits then (Function.update g.node k m l |>.register k).2
  else Function.update g.node k m l

def missing (g : Graph V) (keys : List Key) : List Key := keys.filter fun d => !(g.node d).isFinished

def idleOf (g : Graph V) (keys : List Key) : List Key := keys.filter fun d => !(g.node d).isInFlight

end Graph

def Flight.parkedOn (f : Flight V) (awaits : List Key) (memo : Memo V) : Flight V :=
  { f with stage := .parked awaits.length, awaits, memo }

-- One change that a pass over `roots` makes, whatever order the keys are worked on in.
inductive Step [BEq V] (p : Pass S V) (good : S → Prop) (roots : List Key) :
    Progress S V → Progress S V → Prop
  | enqueue {s s' : Progress S V} (k : Key) (wanted : k ∈ roots)
      (unfinished : (s.graph.node k).isFinished = false) (idle : (s.graph.node k).flight = none)
      (node : s'.graph.node =
        Function.update s.graph.node k { s.graph.node k with flight := some {} })
      (control : s'.control = { s.control with enqueued := s.enqueued ++ [k] }) :
      Step p good roots s s'
  | claim {s s' : Progress S V} (k : Key) (f : Flight V)
      (flight : (s.graph.node k).flight = some f) (queued : f.stage = .queued)
      (node : s'.graph.node = Function.update s.graph.node k (s.graph.node k).claim.2)
      (control : s'.control = s.control) :
      Step p good roots s s'
  | check {s s' : Progress S V} (k : Key) (f : Flight V) (group : Group)
      (flight : (s.graph.node k).flight = some f) (claimed : f.stage = .claimed)
      (verifying : (s.graph.node k).status = .verifying)
      (recorded : (s.graph.node k).deps[f.verified]? = some group)
      (checked : s.graph.Checked (s.graph.node k).verifiedAt group)
      (node : s'.graph.node =
        Function.update s.graph.node k ((s.graph.node k).verifiedUpTo f.verified))
      (control : s'.control = s.control) :
      Step p good roots s s'
  | confirm {s s' : Progress S V} (k : Key) (f : Flight V)
      (flight : (s.graph.node k).flight = some f) (claimed : f.stage = .claimed)
      (cause : s.graph.Confirmable k)
      (node : s'.graph.node = (s.graph.settled k ((s.graph.node k).confirm p.version).2).node)
      (control : s'.control =
        { s.control with told := .evaluated k .verified :: s.world.counted }) :
      Step p good roots s s'
  | postpone {s s' : Progress S V} (k : Key) (f : Flight V) (group : Group)
      (flight : (s.graph.node k).flight = some f) (claimed : f.stage = .claimed)
      (verifying : (s.graph.node k).status = .verifying)
      (recorded : (s.graph.node k).deps[f.verified]? = some group)
      (some : s.graph.missing group ≠ [])
      (node : s'.graph.node = s.graph.parked k
        { s.graph.node k with
          flight := Option.some (f.parkedOn (s.graph.missing group) []) }
        (s.graph.missing group))
      (control : s'.control = { s.control with
        enqueued := s.enqueued ++ s.graph.idleOf (s.graph.missing group) }) :
      Step p good roots s s'
  | lose {s s' : Progress S V} (k : Key) (f : Flight V)
      (flight : (s.graph.node k).flight = some f) (claimed : f.stage = .claimed)
      (startable : s.graph.Startable k)
      (node : s'.graph.node =
        Function.update s.graph.node k ((s.graph.node k).resumed { f with memo := [] }))
      (stopped : p.isStopped s' = true)
      (control : ∃ outside interrupted abort, good outside ∧
        (∀ h ∈ s.world.interrupted, h ∈ interrupted) ∧
        (s'.halted = s.halted ∧ abort = s.abort ∨
          ∃ message, abort = (s.abort <|> some (.panicked k message))) ∧
        s'.control = { s.control with
          outside, interrupted, abort, halted := s'.halted
          told := .computing k ((s.graph.node k).starts + 1) :: s.world.counted }) :
      Step p good roots s s'
  | restart {s s' : Progress S V} (k : Key) (f : Flight V) (result : Except Fault V) (t : Trace V)
      (flight : (s.graph.node k).flight = some f) (claimed : f.stage = .claimed)
      (startable : s.graph.Startable k)
      (attempt : Attempt p good s.graph k f.memo (.ok result) t) (some : t.absent ≠ [])
      (node : s'.graph.node =
        s.graph.parked k ((s.graph.node k).resumed (f.parkedOn t.absent t.memo)) t.absent)
      (control : ∃ outside interrupted, good outside ∧
        (∀ h ∈ s.world.interrupted, h ∈ interrupted) ∧
        s'.control = { s.control with
          outside, interrupted, enqueued := s.enqueued ++ s.graph.idleOf t.absent
          told := .restarted k t.absent :: .computing k ((s.graph.node k).starts + 1) ::
            s.world.counted }) :
      Step p good roots s s'
  | conclude {s s' : Progress S V} (k : Key) (f : Flight V) (o : Outcome V) (deps : List Group)
      (flight : (s.graph.node k).flight = some f) (claimed : f.stage = .claimed)
      (startable : s.graph.Startable k)
      (cause : (p.rules.get? k.tag = none ∧ o = .error (.direct k (.noRule k.tag)) ∧ deps = []) ∨
        ∃ result t, Attempt p good s.graph k f.memo (.ok result) t ∧ t.absent = [] ∧
          o = t.outcome k result ∧ deps = t.groups)
      (node : s'.graph.node =
        (s.graph.settled k ((s.graph.node k).begun.commit o deps p.version).2).node)
      (control : ∃ outside interrupted, good outside ∧
        (∀ h ∈ s.world.interrupted, h ∈ interrupted) ∧
        s'.control = { s.control with
          outside, interrupted
          told := .evaluated k (.of o ((s.graph.node k).begun.commit o deps p.version).1.changed) ::
            (p.began k (s.graph.node k) ++ s.world.counted) }.committed p.keepGoing k o) :
      Step p good roots s s'

structure Break [BEq V] (p : Pass S V) (cycle : Cycle) (k : Key) (s s' : Progress S V) : Prop where
  unfinished : (s.graph.node k).isFinished = false
  node : s'.graph.node = (s.graph.settled k
    ((s.graph.node k).fail (.cycle cycle)
      (if (s.graph.node k).asked = [] then [] else [(s.graph.node k).asked]) p.version).2).node
  control : s'.control =
    { s.control with told := .evaluated k (.failed .cycle) :: s.world.counted }.committed
      p.keepGoing k (.error (.cycle cycle) : Outcome V)

end Recompute
