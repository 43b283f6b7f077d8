import Recompute.Proofs.Rollback

set_option autoImplicit false

namespace Recompute

variable {S V : Type}

open Progress
open Relation (ReflTransGen)

structure Node.Coherent (version : Nat) (n : Node V) : Prop where
  fresh : n.status = .fresh →
    n.cached = none ∧ n.value? = none ∧ n.failure? = none ∧ n.dirty = .clean ∧ n.deps = []
  done : n.status = .done →
    ∃ v, n.cached = some (.ok v) ∧ n.value? = some v ∧ n.failure? = none
  failed : n.status = .failed →
    ∃ f, n.cached = some (.error f) ∧ n.value? = none ∧ n.failure? = some f
  injected : n.injected = true → n.status = .done ∧ n.deps = []
  dated : n.version ≤ n.verifiedAt ∧ n.verifiedAt ≤ version

structure Node.Attended (n₀ n : Node V) : Prop where
  busy : n.status = .verifying ∨ n.status = .computing → n.isInFlight = true
  finished : n.isFinished = true → n.isInFlight = false
  verifying : n.status = .verifying →
    n.dirty = .suspect ∧ ∃ v, n₀.value? = some v ∧ n.cached = some (.ok v)

namespace Node.WellFormed

variable {n : Node V} {version : Nat}

theorem coherent (shape : n.WellFormed) (dated : n.verifiedAt ≤ version) : n.Coherent version := by
  constructor
  case fresh =>
    intro status
    have none := shape.fresh status
    obtain ⟨deps, clean, -⟩ := shape.unbuilt none
    exact ⟨none, by simp [value?, status], by simp [failure?, status], clean, deps⟩
  case done =>
    intro status
    obtain ⟨v, cached⟩ := shape.done status
    exact ⟨v, cached, value?_eq_some.mpr ⟨status, cached⟩, by simp [failure?, status]⟩
  case failed =>
    intro status
    obtain ⟨f, cached⟩ := shape.failed status
    exact ⟨f, cached, by simp [value?, status], by simp [failure?, status, cached]⟩
  case injected => exact shape.injected
  case dated => exact ⟨shape.dated, dated⟩

theorem attended {n₀ : Node V} (shape : n.WellFormed) (shape₀ : n₀.WellFormed)
    (idle : n₀.flight = none) (kept : n.isFinished = false → SameResult n₀ n) :
    Attended n₀ n := by
  constructor
  case busy =>
    rintro (verifying | computing)
    · exact (shape.verifying verifying).2.1
    · exact shape.computing computing
  case finished =>
    intro finished
    simp [isInFlight, (shape.finished finished).1]
  case verifying =>
    intro verifying
    obtain ⟨suspect, inFlight, v, cached⟩ := shape.verifying verifying
    obtain ⟨f, flight⟩ := Option.isSome_iff_exists.mp inFlight
    have before : n₀.cached = some (.ok v) :=
      (kept (shape.unfinished_of_flight flight)).cached.symm.trans cached
    have status := shape₀.status_eq idle
    rw [before] at status
    exact ⟨suspect, v, value?_eq_some.mpr ⟨status, before⟩, cached⟩

end Node.WellFormed

variable [BEq V] {p : Pass S V} {good : S → Prop} {roots : List Key} {s s' : Progress S V}

theorem Pass.Change.kept (change : p.Change good roots s s') (running : s.Running p.version) :
    s'.Running p.version ∧ ∀ k, (s'.graph.node k).isFinished = false →
      Node.SameResult (s.graph.node k) (s'.graph.node k) := by
  cases change with
  | move move =>
    refine ⟨move.running running, fun k unfinished => ?_⟩
    cases move with
    | rest same => exact same.node ▸ .refl _
    | step live step => exact (step.results running.shape running.dated).unfinished unfinished
  | fail cycle k broken =>
    exact ⟨broken.running running, fun k => (broken.results running).unfinished⟩

theorem Pass.Changes.kept (changes : p.Changes good roots s s') (running : s.Running p.version) :
    s'.Running p.version ∧ ∀ k, (s'.graph.node k).isFinished = false →
      Node.SameResult (s.graph.node k) (s'.graph.node k) := by
  induction changes with
  | refl => exact ⟨running, fun k _ => .refl _⟩
  | tail _ change ih =>
    obtain ⟨running, earlier⟩ := ih
    obtain ⟨running, later⟩ := change.kept running
    refine ⟨running, fun k unfinished => ?_⟩
    have result := later k unfinished
    exact (earlier k (result.finished ▸ unfinished)).trans result

namespace Engine

variable {rules : Rules S V} {listener : Listener} {e : Engine S V}

-- No record contradicts itself: neither between passes, when nobody is worked on, nor between any
-- two steps of a pass, whatever the calls on it have come to.
theorem Reachable.records_coherent (reachable : Reachable rules listener e)
    (steady : listener.Steady) (confined : rules.Confined fun _ => True) :
    (∀ k, (e.world.graph.node k).Coherent e.world.graph.version ∧
        ((e.world.graph.node k).status = .fresh ∨ (e.world.graph.node k).status = .done ∨
          (e.world.graph.node k).status = .failed)) ∧
      ∀ keepGoing l,
        ReflTransGen (e.pass keepGoing).Calls { state := { world := e.entry } } l →
        ∀ roots s, (e.pass keepGoing).Changes (fun _ => True) roots l.state s →
        ∀ k, (s.graph.node k).Coherent s.graph.version ∧
          Node.Attended (e.world.graph.node k) (s.graph.node k) := by
  obtain ⟨rfl, rfl⟩ := reachable.unchanged
  have resting := reachable.resting steady confined
  refine ⟨fun k => ⟨(resting.shape k).coherent (resting.dated k), ?_⟩, ?_⟩
  · rw [(resting.shape k).status_eq (resting.idle k)]
    split <;> simp
  · intro keepGoing l calls roots s changes k
    have sound := (reachable.led steady confined calls).sound
    obtain ⟨running, kept⟩ := changes.kept sound.running
    refine ⟨(running.shape k).coherent (running.stamp ▸ running.dated.all k), ?_⟩
    refine (running.shape k).attended (resting.shape k) (resting.idle k) fun unfinished => ?_
    have result := kept k unfinished
    exact (sound.kept k (result.finished ▸ unfinished)).trans result

theorem records_coherent_detour :
    let a : Key := .only "a"
    ∃ l, ReflTransGen (detour.pass true).Calls { state := { world := detour.entry } } l ∧
      (l.state.graph.node a).status = .verifying ∧ (l.state.graph.node a).isInFlight = true ∧
      (l.state.graph.node a).dirty = .suspect ∧
      (l.state.graph.node a).cached.map Except.toOption =
        some (detour.world.graph.node a).value? := by
  intro a
  obtain ⟨l, calls, status⟩ : ∃ l,
      ReflTransGen (detour.pass true).Calls { state := { world := detour.entry } } l ∧
        (l.state.graph.node a).status = .verifying :=
    ⟨_, (ReflTransGen.single (.root _ a (yields_settle (by decide +kernel) false))).tail
      (.run _ a (yields_settle (by decide +kernel) [])), by decide +kernel⟩
  obtain ⟨-, within⟩ := reachable_detour.records_coherent (fun _ => rfl) (Rules.confined_detour _)
  obtain ⟨-, attended⟩ := within true l calls [] _ .refl a
  obtain ⟨suspect, v, value, cached⟩ := attended.verifying status
  refine ⟨l, calls, status, attended.busy (.inl status), suspect, ?_⟩
  rw [cached, value]
  rfl

end Engine

end Recompute
