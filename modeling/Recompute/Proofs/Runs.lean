import Recompute.Engine
import Recompute.Proofs.Resting

set_option autoImplicit false

namespace Recompute

variable {S V : Type} [BEq V]

namespace World

omit [BEq V] in
theorem recordMarks_eq (w : World S V) (marks : List Mark) :
    ∃ history, w.recordMarks marks = { w with history } := by
  induction marks generalizing w with
  | nil => exact ⟨w.history, rfl⟩
  | cons mark rest ih => exact ih (w.record (.invalidated mark.1 mark.2))

omit [BEq V] in
theorem graph_recordMarks (w : World S V) (marks : List Mark) :
    (w.recordMarks marks).graph = w.graph := by
  obtain ⟨history, recorded⟩ := w.recordMarks_eq marks
  rw [recorded]

omit [BEq V] in
@[simp] theorem history_interrupt (w : World S V) (h : Handle) :
    (w.interrupt h).history = w.history := by
  unfold interrupt
  split <;> rfl

omit [BEq V] in
theorem interrupted_interrupt (w : World S V) (h : Handle) :
    ∀ h' ∈ w.interrupted, h' ∈ (w.interrupt h).interrupted := by
  intro h' inside
  unfold interrupt
  split
  · exact inside
  · exact List.mem_cons_of_mem _ inside

omit [BEq V] in
@[simp] theorem graph_interrupt (w : World S V) (h : Handle) : (w.interrupt h).graph = w.graph := by
  unfold interrupt
  split <;> rfl

@[simp] theorem graph_inject (w : World S V) (values : List (Key × V)) :
    (w.inject values).2.graph = (w.graph.inject values).2.2 :=
  graph_recordMarks _ _

omit [BEq V] in
@[simp] theorem graph_invalidate (w : World S V) (keys : List Key) :
    (w.invalidate keys).2.graph = (w.graph.invalidate keys).2.2 :=
  graph_recordMarks _ _

end World

theorem Pass.complete_reaches (p : Pass S V) (budget : Nat) (roots : List Key) (w : World S V) :
    ∃ queue s, p.Reaches roots w queue s ∧ (p.complete budget roots w).2 = s.abandon.2.world ∧
      (∀ ev, (p.complete budget roots w).1 = .ok ev →
        s.abort = none ∧ p.turn roots queue s = .stop ∧ ev = p.evaluation roots s) ∧
      ∀ a, (p.complete budget roots w).1 = .error a → s.abort = some a ∨ a = .exhausted ∨
        ∃ keys, a = .stalled keys ∧ p.turn roots queue s = .stall keys := by
  obtain ⟨queue, turned, stops, stalls⟩ := p.drain_turned roots budget
    (p.enqueueAll roots { world := w }).1 (p.enqueueAll roots { world := w }).2
  refine ⟨queue, _, turned, rfl, fun ev success => ?_, fun a failed => ?_⟩
  · simp only [complete] at success
    split at success
    next => simp at success
    next => simp at success
    next drained abort =>
      exact ⟨abort, stops drained, (Except.ok.inj success).symm⟩
  · simp only [complete] at failed
    split at failed
    next drained =>
      cases failed
      exact .inr (stalls a drained)
    next abort =>
      cases failed
      exact .inl abort
    next => simp at failed

omit [BEq V] in
theorem Pass.finished_of_stop {p : Pass S V} {roots queue : List Key} {s : Progress S V}
    (stop : p.turn roots queue s = .stop) (live : p.isStopped s = false) :
    ∀ root ∈ roots, (s.graph.node root).isFinished = true := by
  unfold Pass.turn at stop
  rw [if_neg (by simp [live])] at stop
  split at stop
  · simp at stop
  · dsimp only at stop
    split at stop
    next none =>
      intro root inside
      have gone := List.filter_eq_nil_iff.mp none root inside
      simpa [Graph.isFinished_eq] using gone
    next => split at stop <;> simp at stop

namespace Engine

structure Evaluated (e : Engine S V) (roots : List Key) (keepGoing : Bool)
    (result : Except Abort (Evaluation V)) (e' : Engine S V) (queue : List Key)
    (s : Progress S V) : Prop where
  reaches : (e.pass keepGoing).Reaches (union [] roots) e.entry queue s
  rules : e'.rules = e.rules
  listener : e'.listener = e.listener
  graph : e'.world.graph = s.abandon.2.graph
  interrupted : e'.world.interrupted = s.world.interrupted
  history : e'.world.history = s.world.history
  ok : ∀ ev, result = .ok ev → s.abort = none ∧
    (e.pass keepGoing).turn (union [] roots) queue s = .stop ∧
    ev = (e.pass keepGoing).evaluation (union [] roots) s
  error : ∀ a, result = .error a → s.abort = some a ∨ a = .exhausted ∨
    ∃ keys, a = .stalled keys ∧ (e.pass keepGoing).turn (union [] roots) queue s = .stall keys

namespace Evaluated

variable {e e' : Engine S V} {roots : List Key} {keepGoing : Bool}
  {result : Except Abort (Evaluation V)} {queue : List Key} {s : Progress S V} {good : S → Prop}

theorem changes (evaluated : e.Evaluated roots keepGoing result e' queue s)
    (steady : e.listener.Steady) (confined : e.rules.Confined good)
    (resting : e.world.graph.Resting) (outside : good e.world.outside) :
    Progress.GroundedRun (e.pass keepGoing).version ({ world := e.entry } : Progress S V) ∧
      (e.pass keepGoing).Changes good (union [] roots) { world := e.entry } s := by
  have underway : Progress.GroundedRun (e.pass keepGoing).version
      ({ world := e.entry } : Progress S V) := Graph.Resting.underway resting
  exact ⟨underway, evaluated.reaches.changes steady confined underway outside⟩

theorem resting (evaluated : e.Evaluated roots keepGoing result e' queue s)
    (steady : e.listener.Steady) (confined : e.rules.Confined good)
    (resting : e.world.graph.Resting) (outside : good e.world.outside) :
    e'.world.graph.Resting := by
  obtain ⟨underway, changes⟩ := evaluated.changes steady confined resting outside
  rw [evaluated.graph]
  exact (changes.underway underway).abandon.resting

end Evaluated

theorem evaluate_eq (e : Engine S V) (budget : Nat) (roots : List Key) (keepGoing : Bool) :
    e.evaluate budget roots keepGoing =
      if ((e.pass keepGoing).complete budget (union [] roots) e.entry).2.isInterrupted e.current then
        (((e.pass keepGoing).complete budget (union [] roots) e.entry).1,
          { e with
            world := ((e.pass keepGoing).complete budget (union [] roots) e.entry).2.newHandle.2
            current := ((e.pass keepGoing).complete budget (union [] roots) e.entry).2.newHandle.1 })
      else
        (((e.pass keepGoing).complete budget (union [] roots) e.entry).1,
          { e with world := ((e.pass keepGoing).complete budget (union [] roots) e.entry).2 }) := rfl

theorem evaluated (e : Engine S V) (budget : Nat) (roots : List Key) (keepGoing : Bool) :
    ∃ queue s, e.Evaluated roots keepGoing (e.evaluate budget roots keepGoing).1
      (e.evaluate budget roots keepGoing).2 queue s := by
  obtain ⟨queue, s, reaches, world, ok, error⟩ :=
    (e.pass keepGoing).complete_reaches budget (union [] roots) e.entry
  have graph : ((e.pass keepGoing).complete budget (union [] roots) e.entry).2.graph =
      s.abandon.2.graph := congrArg World.graph world
  have interrupted :
      ((e.pass keepGoing).complete budget (union [] roots) e.entry).2.interrupted =
        s.world.interrupted := by
    rw [world]
    rfl
  have history : ((e.pass keepGoing).complete budget (union [] roots) e.entry).2.history =
      s.world.history := by
    rw [world]
    rfl
  refine ⟨queue, s, ?_⟩
  rw [evaluate_eq]
  split
  · exact ⟨reaches, rfl, rfl, graph, interrupted, history, ok, error⟩
  · exact ⟨reaches, rfl, rfl, graph, interrupted, history, ok, error⟩

-- What can become of a new engine. Between two calls the data outside may change, and so may the
-- order in which the next pass takes up what is ready.
inductive Reachable (rules : Rules S V) (listener : Listener) : Engine S V → Prop
  | new (outside : S) (config : Config := {}) :
      Reachable rules listener (Engine.new rules listener outside config)
  | evaluate {e : Engine S V} (budget : Nat) (roots : List Key) (keepGoing : Bool) :
      Reachable rules listener e → Reachable rules listener (e.evaluate budget roots keepGoing).2
  | interrupt {e : Engine S V} (h : Handle) :
      Reachable rules listener e → Reachable rules listener (e.interrupt h)
  | inject {e : Engine S V} (values : List (Key × V)) :
      Reachable rules listener e → Reachable rules listener (e.inject values).2
  | invalidate {e : Engine S V} (keys : List Key) :
      Reachable rules listener e → Reachable rules listener (e.invalidate keys).2
  | reset {e : Engine S V} : Reachable rules listener e → Reachable rules listener e.reset
  | outside {e : Engine S V} (outside : S) : Reachable rules listener e →
      Reachable rules listener { e with world := { e.world with outside } }
  | reorder {e : Engine S V} (order : Order) : Reachable rules listener e →
      Reachable rules listener { e with order }

namespace Reachable

variable {rules : Rules S V} {listener : Listener} {e : Engine S V}

theorem unchanged (reachable : Reachable rules listener e) :
    e.rules = rules ∧ e.listener = listener := by
  induction reachable with
  | new => exact ⟨rfl, rfl⟩
  | @evaluate e budget roots keepGoing _ ih =>
    obtain ⟨queue, s, evaluated⟩ := e.evaluated budget roots keepGoing
    exact ⟨evaluated.rules.trans ih.1, evaluated.listener.trans ih.2⟩
  | interrupt | inject | invalidate | reset | outside | reorder => assumption

theorem resting (reachable : Reachable rules listener e) (steady : listener.Steady)
    (confined : rules.Confined fun _ => True) : e.world.graph.Resting := by
  induction reachable with
  | new => exact Graph.resting_nil
  | @evaluate e budget roots keepGoing before ih =>
    obtain ⟨queue, s, evaluated⟩ := e.evaluated budget roots keepGoing
    obtain ⟨same, silent⟩ := before.unchanged
    exact evaluated.resting (silent ▸ steady) (same ▸ confined) ih trivial
  | @interrupt e h before ih => exact (World.graph_interrupt e.world h).symm ▸ ih
  | @inject e values before ih => exact (World.graph_inject e.world values).symm ▸ ih.inject values
  | @invalidate e keys before ih =>
    exact (World.graph_invalidate e.world keys).symm ▸ ih.invalidate keys
  | reset before ih => exact Graph.resting_nil
  | outside | reorder => assumption

end Reachable

end Engine

end Recompute
