import Recompute.Proofs.Attained

set_option autoImplicit false

namespace Recompute

variable {S V : Type}

open Progress
open Relation (ReflTransGen)

def Node.Bystander (n m : Node V) : Prop := ∃ dependents flight, m = { n with dependents, flight }

namespace Node.Bystander

variable {n m : Node V} (bystander : Bystander n m)

omit bystander in
theorem refl (n : Node V) : Bystander n n := ⟨_, _, rfl⟩

include bystander

theorem result : SameResult n m := by
  obtain ⟨dependents, flight, rfl⟩ := bystander
  constructor <;> rfl

theorem starts : m.starts = n.starts := by
  obtain ⟨dependents, flight, rfl⟩ := bystander
  rfl

theorem status : m.status = n.status := by
  obtain ⟨dependents, flight, rfl⟩ := bystander
  rfl

theorem finished (shape : n.WellFormed) (shape' : m.WellFormed) (finished : n.isFinished = true) :
    ∃ dependents, m = { n with dependents } := by
  have idle := (shape.finished finished).1
  have idle' := (shape'.finished (bystander.result.finished.trans finished)).1
  obtain ⟨dependents, flight, rfl⟩ := bystander
  cases idle'.trans idle.symm
  exact ⟨dependents, rfl⟩

end Node.Bystander

theorem Graph.bystander_update {g g' : Graph V} {k : Key} {m : Node V}
    (node : g'.node = Function.update g.node k m) (l : Key) :
    Node.Bystander (Function.update g.node k m l) (g'.node l) := node ▸ .refl _

theorem Graph.bystander_parked {g g' : Graph V} {k : Key} {m : Node V} {awaits : List Key}
    (node : g'.node = g.parked k m awaits) (l : Key) :
    Node.Bystander (Function.update g.node k m l) (g'.node l) := by
  obtain ⟨flight, parked⟩ := g.parked_eq k m awaits l
  rw [node, parked]
  exact ⟨_, flight, rfl⟩

theorem Graph.bystander_settled {g g' : Graph V} {k : Key} {m : Node V}
    (node : g'.node = (g.settled k m).node) (l : Key) :
    Node.Bystander (Function.update g.node k m l) (g'.node l) :=
  node ▸ g.settled_eq k m l

theorem Ending.of_ne_cycle {o : Outcome V} (plain : ∀ cycle, o ≠ .error (.cycle cycle))
    (changed : Bool) : Ending.of o changed ≠ .failed .cycle := by
  rcases o with (_ | cycle | _ | _) | v
  case error.cycle => exact absurd rfl (plain cycle)
  all_goals simp [Ending.of, Failure.kind]

@[simp] theorem Control.interrupted_committed (c : Control S) (keepGoing : Bool) (k : Key)
    (o : Outcome V) : (c.committed keepGoing k o).interrupted = c.interrupted := by
  cases o <;> cases keepGoing <;> rfl

variable {p : Pass S V} {s s' : Progress S V}

namespace Pass

def Cut (p : Pass S V) (s : Progress S V) : Prop :=
  s.abort ≠ none ∨ s.world.isInterrupted p.handle = true

theorem Cut.mono (cut : p.Cut s) (abort : s.abort ≠ none → s'.abort ≠ none)
    (interrupted : ∀ h ∈ s.world.interrupted, h ∈ s'.world.interrupted) : p.Cut s' := by
  refine cut.imp abort fun inside => ?_
  simp only [World.isInterrupted, decide_eq_true_eq] at inside ⊢
  exact interrupted _ inside

theorem Cut.of_control (cut : p.Cut s) (abort : s'.abort = s.abort)
    (interrupted : s'.world.interrupted = s.world.interrupted) : p.Cut s' :=
  cut.mono (fun gone => abort ▸ gone) fun _ inside => interrupted ▸ inside

variable [BEq V]

inductive Account (p : Pass S V) (k : Key) (s s' : Progress S V) : List Event → Prop
  | silent (same : Node.SameResult (s.graph.node k) (s'.graph.node k))
      (starts : (s'.graph.node k).starts = (s.graph.node k).starts)
      (idle : (s'.graph.node k).status = .computing → ¬(s.graph.node k).Verifiable) :
      Account p k s s' []
  | lose (same : Node.SameResult (s.graph.node k) (s'.graph.node k))
      (starts : (s'.graph.node k).starts = (s.graph.node k).starts + 1)
      (startable : s.graph.Startable k) (cut : p.Cut s') :
      Account p k s s' [.computing k ((s.graph.node k).starts + 1)]
  | restart (absent : List Key) (same : Node.SameResult (s.graph.node k) (s'.graph.node k))
      (starts : (s'.graph.node k).starts = (s.graph.node k).starts + 1)
      (startable : s.graph.Startable k) :
      Account p k s s' [.restarted k absent, .computing k ((s.graph.node k).starts + 1)]
  | confirm (cause : s.graph.Confirmable k)
      (node : Node.Bystander ((s.graph.node k).confirm p.version).2 (s'.graph.node k)) :
      Account p k s s' [.evaluated k .verified]
  | conclude (o : Outcome V) (deps : List Group) (startable : s.graph.Startable k)
      (unregistered : p.rules.get? k.tag = none → o = .error (.direct k (.noRule k.tag)))
      (plain : ∀ cycle, o ≠ .error (.cycle cycle))
      (node : Node.Bystander ((s.graph.node k).begun.commit o deps p.version).2 (s'.graph.node k)) :
      Account p k s s'
        (.evaluated k (.of o ((s.graph.node k).begun.commit o deps p.version).1.changed) ::
          p.began k (s.graph.node k))
  | fail (cycle : Cycle)
      (node : Node.Bystander ((s.graph.node k).broken cycle p.version) (s'.graph.node k)) :
      Account p k s s' [.evaluated k (.failed .cycle)]

structure Entry (p : Pass S V) (k : Key) (s s' : Progress S V) (log : List Event) : Prop where
  unfinished : (s.graph.node k).isFinished = false
  others : ∀ l, l ≠ k → Node.Bystander (s.graph.node l) (s'.graph.node l)
  told : s'.world.counted = log ++ s.world.counted
  entered : ∀ l ∈ s'.enqueued, l ∈ s.enqueued ∨ (s.graph.node l).isFinished = false
  account : p.Account k s s' log

variable {k : Key} {m : Node V} {log : List Event}

theorem Entry.of_worked (unfinished : (s.graph.node k).isFinished = false)
    (worked : ∀ l, Node.Bystander (Function.update s.graph.node k m l) (s'.graph.node l))
    (told : s'.world.counted = log ++ s.world.counted) {new : List Key}
    (enqueued : s'.enqueued = s.enqueued ++ new)
    (entered : ∀ l ∈ new, (s.graph.node l).isFinished = false)
    (account : Node.Bystander m (s'.graph.node k) → p.Account k s s' log) :
    p.Entry k s s' log where
  unfinished := unfinished
  others l ne := by
    have other := worked l
    rwa [Function.update_of_ne ne] at other
  told := told
  entered l inside := by
    rw [enqueued, List.mem_append] at inside
    exact inside.imp_right (entered l)
  account := by
    have self := worked k
    rw [Function.update_self] at self
    exact account self

theorem Account.of_bystander (node : Node.Bystander m (s'.graph.node k))
    (same : Node.SameResult (s.graph.node k) m) (starts : m.starts = (s.graph.node k).starts)
    (idle : m.status = .computing → ¬(s.graph.node k).Verifiable) : p.Account k s s' [] :=
  .silent (same.trans node.result) (node.starts.trans starts) fun status =>
    idle (node.status ▸ status)

theorem Entry.of_enqueued (unfinished : (s.graph.node k).isFinished = false)
    (node : s'.graph.node =
      Function.update s.graph.node k { s.graph.node k with flight := some {} })
    (control : s'.control = { s.control with enqueued := s.enqueued ++ [k] }) :
    p.Entry k s s' [] := by
  refine .of_worked unfinished (Graph.bystander_update node) (congrArg Control.told control)
    (congrArg Control.enqueued control) (by simpa using unfinished) fun self => ?_
  refine .of_bystander self (.flight _ _) rfl fun computing => ?_
  simp [Node.Verifiable, show (s.graph.node k).status = .computing from computing]

end Pass

open Pass

variable [BEq V] {good : S → Prop} {roots : List Key}

namespace Step

theorem cut (step : Step p good roots s s') (cut : p.Cut s) : p.Cut s' := by
  cases step with
  | enqueue _ _ _ _ _ control | claim _ _ _ _ _ control | check _ _ _ _ _ _ _ _ _ control
  | confirm _ _ _ _ _ _ control | postpone _ _ _ _ _ _ _ _ _ control =>
    exact cut.of_control (congrArg Control.abort control) (congrArg Control.interrupted control)
  | lose k f flight claimed startable node stopped control =>
    obtain ⟨outside, interrupted, abort, -, more, aborted, control⟩ := control
    refine cut.mono (fun gone => ?_) fun h inside => ?_
    · rw [show s'.abort = abort from congrArg Control.abort control]
      rcases aborted with ⟨-, same⟩ | ⟨message, same⟩
      · exact same ▸ gone
      · obtain ⟨a, before⟩ := Option.ne_none_iff_exists'.mp gone
        simp [same, before]
    · rw [show s'.world.interrupted = interrupted from congrArg Control.interrupted control]
      exact more h inside
  | restart k f result t flight claimed startable attempt some node control =>
    obtain ⟨outside, interrupted, -, more, control⟩ := control
    refine cut.mono (fun gone => ?_) fun h inside => ?_
    · rwa [show s'.abort = s.abort from congrArg Control.abort control]
    · rw [show s'.world.interrupted = interrupted from congrArg Control.interrupted control]
      exact more h inside
  | conclude k f o deps flight claimed startable cause node control =>
    obtain ⟨outside, interrupted, -, more, control⟩ := control
    refine cut.mono (fun gone => ?_) fun h inside => ?_
    · have abort := (congrArg Control.abort control).trans (Control.abort_committed _ _ _ o)
      rwa [show s'.abort = s.abort from abort]
    · have same := (congrArg Control.interrupted control).trans
        (Control.interrupted_committed _ _ _ o)
      rw [show s'.world.interrupted = interrupted from same]
      exact more h inside

theorem entry (step : Step p good roots s s') (live : s.halted = false)
    (shape : s.graph.WellFormed) :
    ∃ k log, p.Entry k s s' log ∧ .evaluated k (.failed .cycle) ∉ log := by
  have open' {k : Key} {f : Flight V} (flight : (s.graph.node k).flight = some f) :=
    (shape k).unfinished_of_flight flight
  have none : ∀ l ∈ ([] : List Key), (s.graph.node l).isFinished = false := by simp
  have missing (awaits : List Key) (unfinished : ∀ l ∈ awaits, (s.graph.node l).isFinished = false) :
      ∀ l ∈ s.graph.idleOf awaits, (s.graph.node l).isFinished = false :=
    fun l inside => unfinished l (List.mem_filter.mp inside).1
  cases step with
  | enqueue k wanted unfinished idle node control =>
    exact ⟨k, [], .of_enqueued unfinished node control, by simp⟩
  | claim k f flight queued node control =>
    refine ⟨k, [], .of_worked (open' flight) (Graph.bystander_update node)
      (congrArg Control.told control)
      ((congrArg Control.enqueued control).trans (List.append_nil _).symm) none fun self => ?_,
      by simp⟩
    exact .of_bystander self ((shape k).sameResult_claim flight queued) (Node.starts_claim _)
      ((shape k).not_verifiable_of_claim flight queued)
  | check k f group flight claimed verifying recorded checked node control =>
    refine ⟨k, [], .of_worked (open' flight) (Graph.bystander_update node)
      (congrArg Control.told control)
      ((congrArg Control.enqueued control).trans (List.append_nil _).symm) none fun self => ?_,
      by simp⟩
    refine .of_bystander self (.flight _ _) rfl fun computing => ?_
    simp [Node.verifiedUpTo, verifying] at computing
  | confirm k f flight claimed cause node control =>
    exact ⟨k, [.evaluated k .verified], .of_worked (open' flight) (Graph.bystander_settled node)
      (congrArg Control.told control)
      ((congrArg Control.enqueued control).trans (List.append_nil _).symm) none
      fun self => .confirm cause self, by simp⟩
  | postpone k f group flight claimed verifying recorded some node control =>
    refine ⟨k, [], .of_worked (open' flight) (Graph.bystander_parked node)
      (congrArg Control.told control) (congrArg Control.enqueued control)
      (missing _ fun l inside => (Graph.mem_missing.mp inside).2) fun self => ?_, by simp⟩
    refine .of_bystander self (.flight _ _) rfl fun computing => ?_
    simp [verifying] at computing
  | lose k f flight claimed startable node stopped control =>
    obtain ⟨outside, interrupted, abort, -, more, aborted, control⟩ := control
    refine ⟨k, [.computing k _], .of_worked (open' flight) (Graph.bystander_update node)
      (congrArg Control.told control)
      ((congrArg Control.enqueued control).trans (List.append_nil _).symm) none fun self => ?_,
      by simp⟩
    refine .lose (.trans (.resumed (open' flight) _) self.result) self.starts startable ?_
    rcases aborted with ⟨halted, -⟩ | ⟨message, same⟩
    · exact .inr (by simpa [isStopped, halted, live] using stopped)
    · refine .inl ?_
      rw [show s'.abort = abort from congrArg Control.abort control, same]
      cases s.abort <;> simp
  | restart k f result t flight claimed startable attempt some node control =>
    obtain ⟨outside, interrupted, -, -, control⟩ := control
    refine ⟨k, [.restarted k t.absent, .computing k _],
      .of_worked (open' flight) (Graph.bystander_parked node) (congrArg Control.told control)
        (congrArg Control.enqueued control)
        (missing _ fun l inside => attempt.absent_unfinished shape inside) fun self => ?_, by simp⟩
    exact .restart t.absent (.trans (.resumed (open' flight) _) self.result) self.starts startable
  | conclude k f o deps flight claimed startable cause node control =>
    obtain ⟨outside, interrupted, -, -, control⟩ := control
    have enqueued : s'.enqueued = s.enqueued ++ [] := by
      rw [List.append_nil]
      exact (congrArg Control.enqueued control).trans (Control.enqueued_committed _ _ _ o)
    have plain : ∀ cycle, o ≠ .error (.cycle cycle) := by
      intro cycle
      rcases cause with ⟨-, rfl, -⟩ | ⟨result, t, -, -, rfl, -⟩
      · simp
      · exact t.outcome_ne_cycle k result cycle
    refine ⟨k, _, .of_worked (open' flight) (Graph.bystander_settled node)
      ((congrArg Control.told control).trans (Control.told_committed _ _ _ o)) enqueued none
      fun self => .conclude o deps startable (fun none => ?_) plain self, ?_⟩
    · rcases cause with ⟨-, same, -⟩ | ⟨result, t, attempt, -⟩
      · exact same
      · obtain ⟨rule, found, -⟩ := attempt.plays
        simp [none] at found
    · have other := Ending.of_ne_cycle plain
      unfold Pass.began
      split <;> simp [Ne.symm (other _)]

end Step

variable {cycle : Cycle} {k : Key}

theorem Break.cut (broken : Break p cycle k s s') (cut : p.Cut s) : p.Cut s' := by
  have control := broken.control
  exact cut.of_control ((congrArg Control.abort control).trans (Control.abort_committed _ _ _ _))
    ((congrArg Control.interrupted control).trans (Control.interrupted_committed _ _ _ _))

theorem Break.entry (broken : Break p cycle k s s') :
    p.Entry k s s' [.evaluated k (.failed .cycle)] :=
  .of_worked broken.unfinished (Graph.bystander_settled broken.node)
    ((congrArg Control.told broken.control).trans (Control.told_committed _ _ _ _))
    (((congrArg Control.enqueued broken.control).trans (Control.enqueued_committed _ _ _ _)).trans
      (List.append_nil _).symm) (by simp) fun self => .fail cycle self

namespace Pass

theorem Goes.entry (goes : p.Goes s s') (shape : s.graph.WellFormed) :
    (s'.graph.node = s.graph.node ∧ s'.world.counted = s.world.counted ∧
        s'.enqueued = s.enqueued) ∨
      ∃ k log, p.Entry k s s' log := by
  cases goes with
  | change change =>
    cases change with
    | move move =>
      cases move with
      | rest same =>
        exact .inl ⟨same.node, congrArg Control.told same.control,
          congrArg Control.enqueued same.control⟩
      | step live step =>
        obtain ⟨k, log, entry, -⟩ := step.entry live shape
        exact .inr ⟨k, log, entry⟩
    | fail cycle k broken => exact .inr ⟨k, _, broken.entry⟩
  | enter k unfinished idle node control =>
    exact .inr ⟨k, [], .of_enqueued unfinished node control⟩
  | look w state graph history =>
    rw [state]
    exact .inl ⟨congrArg Graph.node graph, by simp only [World.counted, history], rfl⟩

theorem Goes.cut (goes : p.Goes s s') (cut : p.Cut s) : p.Cut s' := by
  cases goes with
  | change change =>
    cases change with
    | move move =>
      cases move with
      | rest same =>
        exact cut.of_control (congrArg Control.abort same.control)
          (congrArg Control.interrupted same.control)
      | step live step => exact step.cut cut
    | fail cycle k broken => exact broken.cut cut
  | enter k unfinished idle node control =>
    exact cut.of_control (congrArg Control.abort control) (congrArg Control.interrupted control)
  | look w state graph history interrupted =>
    rw [state]
    exact cut.mono id interrupted

end Pass

end Recompute
