import Recompute.Proofs.Schedules

set_option autoImplicit false

namespace Recompute

variable {S V : Type} [BEq V]

open Progress
open Relation (ReflTransGen)

variable {p : Pass S V} {good : S → Prop} {l : Ledger S V}

theorem Pass.Goes.purposeful {s s' : Progress S V} (goes : p.Goes s s')
    (prompt : p.rules.Prompt fun _ => True) (underway : s.GroundedRun p.version)
    (justified : s.graph.Justified p.rules fun _ => True)
    (purposeful : s.graph.Purposeful p.rules fun _ => True) :
    s'.graph.Purposeful p.rules fun _ => True := by
  cases goes with
  | change change => exact change.purposeful prompt underway justified purposeful
  | enter k unfinished idle node control =>
    have step : Step p (fun _ => True) [k] s s' :=
      .enqueue k List.mem_cons_self unfinished idle node control
    exact step.purposeful prompt underway justified purposeful
  | look w state graph =>
    rw [state]
    exact purposeful.of_node (congrArg Graph.node graph)

theorem Ledger.Reasoned.purposeful (reasoned : l.Reasoned p)
    (prompt : p.rules.Prompt fun _ => True)
    (purposeful : l.state.graph.Purposeful p.rules fun _ => True) {s : Progress S V}
    (goes : ReflTransGen p.Goes l.state s) : s.graph.Purposeful p.rules fun _ => True := by
  induction goes with
  | refl => exact purposeful
  | tail before next ih =>
    obtain ⟨underway, justified⟩ := reasoned.all_goes before
    exact next.purposeful prompt underway justified ih

theorem Graph.Purposeful.asks {rules : Rules S V} {g : Graph V}
    (purposeful : g.Purposeful rules good) (signalled : g.Signalled) (pure : rules.Pure good)
    {k d : Key} (blocked : g.Blocked k d) {w : World S V} (graph : w.graph = g)
    (outside : good w.outside) :
    ∃ rule, rules.get? k.tag = some rule ∧ ∀ scope,
      d ∈ ((rule k).run scope {} w).2.1.asked ∧ d ∈ ((rule k).run scope {} w).2.1.absent := by
  subst graph
  obtain ⟨awaited, unfinished⟩ := blocked
  obtain ⟨f, flight, inside⟩ := Node.exists_flight_of_awaited awaited
  have parked : ∃ i, f.stage = .parked i := by
    by_contra up
    exact signalled.not_blocked flight (fun i parked => up ⟨i, parked⟩) d ⟨awaited, unfinished⟩
  obtain ⟨i, parked⟩ := parked
  obtain ⟨pre, group, requests, missing⟩ := purposeful k f i flight parked
  have inside : d ∈ group := by
    have missed : d ∈ w.graph.missing f.awaits := mem_missing.mpr ⟨inside, unfinished⟩
    exact (mem_missing.mp (missing ▸ missed)).1
  obtain ⟨rule, found⟩ := requests.found
  refine ⟨rule, found, fun scope => ?_⟩
  obtain ⟨plays, -⟩ :=
    Computation.run_plays (pure.confined ⟨_, outside⟩ k rule found) scope {} w outside
  have tidy := plays.tidy (Trace.tidy_nil _)
  obtain ⟨rest, groups⟩ := requests.played pure found plays
  have asked : d ∈ ((rule k).run scope {} w).2.1.asked := by
    have among : d ∈ ((rule k).run scope {} w).2.1.reads.groups.flatten := by
      rw [groups]
      exact List.mem_flatten_of_mem (List.mem_append_right _ List.mem_cons_self) inside
    rw [tidy.groups] at among
    exact among
  have absent : ((rule k).run scope {} w).2.1.absent =
      ((rule k).run scope {} w).2.1.asked.filter fun d => (w.graph.outcome? d).isNone := tidy.absent
  refine ⟨asked, ?_⟩
  rw [absent, List.mem_filter, Graph.outcome?_eq, Node.outcome?_eq_none unfinished]
  exact ⟨asked, rfl⟩

theorem Rules.pure_detour (good : Unit → Prop) : Rules.detour.Pure good :=
  forall_cons (fun k _ => Rule.pure_either good _ _ k)
    (forall_cons (fun k _ => Rule.pure_either good _ _ k) forall_nil)

theorem Rules.prompt_detour (good : Unit → Prop) : Rules.detour.Prompt good :=
  forall_cons (fun _ _ _ _ _ plays _ inside _ member => Rule.prompt_either plays inside member)
    (forall_cons (fun _ _ _ _ _ plays _ inside _ member => Rule.prompt_either plays inside member)
      forall_nil)

namespace Engine

variable {rules : Rules S V} {listener : Listener} {e : Engine S V}

-- A cycle that is failed is one then: the rule of each member asks for the next one, which is
-- missing, also if the member waits for it only because of what an older result has read. Then each
-- member has failed with that cycle, and the next one is on record.
theorem Reachable.cycles_genuine (reachable : Reachable rules listener e)
    (steady : listener.Steady) (pure : rules.Pure fun _ => True)
    (prompt : rules.Prompt fun _ => True) {keepGoing : Bool} {l : Ledger S V}
    (calls : ReflTransGen (e.pass keepGoing).Calls { state := { world := e.entry } } l)
    {cycle : Cycle} (found : cycle ∈ l.due) {ready : List Key} {s : Progress S V}
    (fails : Yields ((e.pass keepGoing).failCycle cycle) l.state ready s)
    {k d : Key} (next : Cycle.Next cycle k d) :
    (∃ rule, rules.get? k.tag = some rule ∧ ∀ scope,
        let t := ((rule k).run scope {} l.state.world).2.1
        d ∈ t.asked ∧ d ∈ t.absent) ∧
      (s.graph.node k).status = .failed ∧ (s.graph.node k).dirty = .clean ∧
      (s.graph.node k).failure? = some (.cycle cycle) ∧ d ∈ (s.graph.node k).deps.flatten := by
  have confined := pure.confined ⟨e.world.outside, trivial⟩
  obtain ⟨resting, justified⟩ := (reachable.attained steady confined).rests confined
  obtain ⟨rfl, rfl⟩ := reachable.unchanged
  have led := reachable.led steady confined calls
  have sound := led.sound
  have running := sound.running
  have locked := sound.due cycle found
  have reasoned := resting.reasoned justified (p := e.pass keepGoing) rfl
  have purposeful : l.state.graph.Purposeful e.rules fun _ => True := by
    refine reasoned.purposeful prompt (fun k f i flight => ?_) led.goes
    simp [Progress.graph, resting.idle] at flight
  obtain ⟨unfinished, awaited⟩ := locked k d next
  have blocked : l.state.graph.Blocked k d := ⟨awaited, (locked.waits next.mem.2).1⟩
  refine ⟨purposeful.asks running.signalled pure blocked rfl trivial, ?_⟩
  have breaks := Pass.broken_of_yields steady fails
  have shape := (breaks.running running).shape k
  have result := sound.broken found breaks next.mem.1
  have finished : (s.graph.node k).isFinished = true := result.finished
  have cached : (s.graph.node k).cached = some (.error (.cycle cycle)) := result.cached
  obtain ⟨idle, clean, -⟩ := shape.finished finished
  have status := shape.status_eq idle
  rw [cached] at status
  refine ⟨status, clean, shape.failure?_of_outcome? ?_, ?_⟩
  · rw [Node.outcome?, if_pos finished, cached]
  · rw [result.deps, Node.deps_broken]
    exact Node.awaits_subset_asked _ awaited

theorem cycles_genuine_detour :
    let a : Key := .only "a"
    let b : Key := .only "b"
    let p := detour.pass true
    ∃ l, ReflTransGen p.Calls { state := { world := detour.entry } } l ∧
      (l.state.graph.node a).starts = (detour.world.graph.node a).starts ∧
      (∀ scope, b ∈ ((Rule.either (.only "c") b a).run scope {} l.state.world).2.1.absent) ∧
      ((settle (p.failCycle [a, b]) [] l.state).2.graph.node a).failure? =
        some (.cycle [a, b]) := by
  intro a b p
  obtain ⟨l, calls, found, starts, fails⟩ : ∃ l,
      ReflTransGen p.Calls { state := { world := detour.entry } } l ∧ [a, b] ∈ l.due ∧
        (l.state.graph.node a).starts = (detour.world.graph.node a).starts ∧
        ((p.failCycle [a, b]).run.run l.state).1.isSome = true :=
    ⟨_, (((ReflTransGen.single (.root _ a (yields_settle (by decide +kernel) false))).tail
      (.run _ a (yields_settle (by decide +kernel) []))).tail
      (.run _ b (yields_settle (by decide +kernel) []))).tail (.find _ [a]),
      by decide +kernel, by decide +kernel, by decide +kernel⟩
  obtain ⟨⟨rule, known, asks⟩, -, -, failure, -⟩ :=
    reachable_detour.cycles_genuine (fun _ => rfl) (Rules.pure_detour _) (Rules.prompt_detour _)
      calls found (yields_settle fails []) ⟨0, rfl, rfl⟩
  have same : Rules.detour.get? a.tag = some (Rule.either (.only "c") b) := rfl
  cases known.symm.trans same
  exact ⟨l, calls, starts, fun scope => (asks scope).2, failure⟩

end Engine

end Recompute
