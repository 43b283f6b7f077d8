import Recompute.Proofs.Ledger

set_option autoImplicit false

namespace Recompute

variable {S V : Type} [BEq V]

open Progress
open Relation (ReflTransGen)

-- What can become of a graph: keys are looked up, marked, told of and given, and passes work on it
-- until they are abandoned or leave nothing in flight.
inductive Graph.Made (S : Type) : Graph V → Prop
  | nil : Made S {}
  | ensure {g : Graph V} (k : Key) : Made S g → Made S (g.ensure k)
  | advance {g : Graph V} : Made S g → Made S g.advance
  | mark {g : Graph V} (k : Key) (d : Dirty) : Made S g → Made S (g.put k ((g.node k).mark d).2)
  | invalidate {g : Graph V} (keys : List Key) : Made S g → Made S (g.invalidate keys).2.2
  | inject {g : Graph V} (values : List (Key × V)) : Made S g → Made S (g.inject values).2.2
  | abandon {w : World S V} {p : Pass S V} {l : Ledger S V}
      (confined : p.rules.Confined fun _ => True) (version : p.version = w.graph.version + 1)
      (calls : ReflTransGen p.Calls { state := { world := { w with graph := w.graph.advance } } } l) :
      Made S w.graph → Made S l.state.abandon.2.graph
  | finish {w : World S V} {p : Pass S V} {l : Ledger S V}
      (confined : p.rules.Confined fun _ => True) (version : p.version = w.graph.version + 1)
      (calls : ReflTransGen p.Calls { state := { world := { w with graph := w.graph.advance } } } l)
      (idle : ∀ k, (l.state.graph.node k).flight = none) :
      Made S w.graph → Made S l.state.graph

theorem Graph.Made.idle {g : Graph V} (made : g.Made S) : g.Idle g.version := by
  induction made with
  | nil => exact idle_nil
  | @ensure g k _ ih =>
    have same : (g.ensure k).node = g.node := funext (g.node_ensure k)
    constructor
    case stamp => rfl
    case idle => exact same ▸ ih.idle
    case shape => exact fun l => same ▸ ih.shape l
    case dated => exact same ▸ ih.dated
    case linked => simpa only [Linked, same] using ih.linked
    case distinct => simpa only [Distinct, same] using ih.distinct
  | advance _ ih => exact ih.advance
  | mark k d _ ih => exact ih.doubt (.mark (ih.shape k) (ih.idle k) d)
  | invalidate keys _ ih => exact (ih.invalidate keys).current
  | inject values _ ih => exact ih.inject values
  | abandon confined version calls _ ih =>
    exact ((ih.sound version).all confined calls).running.abandon.current
  | finish confined version calls idle _ ih =>
    have running := ((ih.sound version).all confined calls).running
    exact Idle.current ⟨running.stamp, idle, running.shape, running.dated.all, running.linked,
      running.distinct⟩

namespace Pass

variable {p : Pass S V} {s : Progress S V}

theorem dispatch_of_not_queued {k : Key}
    (out : ∀ f, (s.graph.node k).flight = some f → f.stage ≠ .queued) :
    p.dispatch k s = ([], s) ∨ p.dispatch k s = ([], s.withGraph (s.graph.ensure k)) := by
  cases stopped : p.isStopped s with
  | true => exact .inl (dispatch_of_stopped k stopped)
  | false =>
    have idle : (s.graph.node k).claim = (none, s.graph.node k) := by
      cases flight : (s.graph.node k).flight with
      | none => simp [Node.claim, flight]
      | some f => simp [Node.claim, flight, out f flight]
    have first := yields_onNode k Node.claim s
    rw [idle] at first
    refine .inr (settle_of_yields (yields_bind (yields_get s) ?_) [])
    rw [if_neg (by simp [stopped])]
    exact yields_bind first (yields_pure [] _)

-- No wake-up is lost and none is counted twice, in whatever order a pass is driven.
theorem wakeups_counted {w : World S V} (made : w.graph.Made S)
    (confined : p.rules.Confined fun _ => True) (version : p.version = w.graph.version + 1)
    {l : Ledger S V}
    (calls : ReflTransGen p.Calls { state := { world := { w with graph := w.graph.advance } } } l) :
    let g := l.state.graph
    (∀ k, ((∃ f, (g.node k).flight = some f ∧ f.stage = .queued) ↔
          l.handed.count k = l.claimed.count k + 1) ∧
        ((¬ ∃ f, (g.node k).flight = some f ∧ f.stage = .queued) ↔
          l.handed.count k = l.claimed.count k)) ∧
      (∀ k f pending, (g.node k).flight = some f → f.stage = .parked pending →
        pending = (f.awaits.filter fun d => !(g.node d).isFinished).length ∧ 1 ≤ pending ∧
        ∀ d ∈ f.awaits, (g.node d).isFinished = false →
          (g.node d).isInFlight = true ∧ (g.node d).waiters.count k = 1) ∧
      ∀ k, (∀ f, (g.node k).flight = some f → f.stage ≠ .queued) →
        (p.dispatch k l.state = ([], l.state) ∨
          p.dispatch k l.state = ([], l.state.withGraph (g.ensure k))) ∧
        ∀ x n, g.get? x = some n → (p.dispatch k l.state).2.graph.get? x = some n := by
  intro g
  have sound := (made.idle.sound version).all confined calls
  have signalled := sound.running.signalled
  refine ⟨fun k => ?_, fun k f pending flight parked => ?_, fun k out => ?_⟩
  · have balance := sound.balance k
    cases flight : (g.node k).flight with
    | none =>
      rw [Node.queued_of_idle flight] at balance
      simp [balance]
    | some f =>
      rw [Node.queued_of_flight flight] at balance
      by_cases queued : f.stage = .queued <;> simp [queued, balance]
  · obtain ⟨some, count⟩ := signalled.counted k f pending flight parked
    refine ⟨count, Nat.pos_of_ne_zero some, fun d awaited unfinished => ?_⟩
    exact signalled.listed flight parked awaited unfinished
  · have dispatched := dispatch_of_not_queued (p := p) out
    refine ⟨dispatched, fun x n found => ?_⟩
    rcases dispatched with same | looked
    · rw [same]
      exact found
    · rw [looked]
      change (g.put k (g.node k)).get? x = Option.some n
      by_cases at_k : x = k
      · subst at_k
        rw [Graph.get?_put_self, Graph.node_of_get? found]
      · rw [Graph.get?_put_of_ne _ _ at_k]
        exact found

theorem wakeups_counted_detour :
    let a : Key := .only "a"
    let b : Key := .only "b"
    let e := ((Engine.new Rules.detour .steady ()).inject [(.only "c", 0)]).2
    ∃ l, ReflTransGen (e.pass true).Calls { state := { world := e.entry } } l ∧
      l.handed = [a, b] ∧ l.claimed = [a] ∧
      (∃ f, (l.state.graph.node b).flight = some f ∧ f.stage = .queued) ∧
      (l.state.graph.node b).waiters.count a = 1 := by
  intro a b e
  have made : e.world.graph.Made Unit := .inject [(.only "c", 0)] .nil
  have calls : ReflTransGen (e.pass true).Calls { state := { world := e.entry } } _ :=
    (ReflTransGen.single (.root _ a (yields_settle (by decide +kernel) false))).tail
      (.run _ a (yields_settle (by decide +kernel) []))
  obtain ⟨queued, parked, -⟩ := wakeups_counted made (Rules.confined_detour _) rfl calls
  refine ⟨_, calls, by decide +kernel, by decide +kernel, ?_, ?_⟩
  · rw [(queued b).1]
    decide +kernel
  · generalize state : Ledger.state _ = s at parked ⊢
    have stage : (s.graph.node a).flight.map Flight.stage = some (.parked 1) := by
      rw [← state]
      decide +kernel
    have awaits : (s.graph.node a).flight.map Flight.awaits = some [b] := by
      rw [← state]
      decide +kernel
    obtain ⟨f, flight, stage⟩ := Option.map_eq_some_iff.mp stage
    rw [flight] at awaits
    have awaited : b ∈ f.awaits := by simp [Option.some.inj awaits]
    refine ((parked a f 1 flight stage).2.2 b awaited ?_).2
    rw [← state]
    decide +kernel

end Pass

end Recompute
