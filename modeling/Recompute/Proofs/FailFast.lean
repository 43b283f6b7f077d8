import Recompute.Proofs.Breaking
import Recompute.Proofs.Demand

set_option autoImplicit false

namespace Recompute

variable {S V : Type}

open Relation (ReflTransGen)

-- No root has failed or is about to fail as a member of `cycles`, and whenever one waits for the
-- first member of all then by way of another one.
def Progress.Severed (roots : List Key) (cycles : List Cycle) (s : Progress S V) : Prop :=
  ∀ root ∈ roots, root ∉ cycles.flatten ∧
    (∀ f, (s.graph.node root).outcome? ≠ some (.error f)) ∧
    ∀ first ∈ cycles.flatten.head?,
      ¬ ReflTransGen (fun k d => k ∉ cycles.flatten ∧ d ∈ s.graph.awaits k) root first

namespace Pass

variable {p : Pass S V} {roots : List Key} {s : Progress S V} {root : Key}

theorem evaluation_get? (root : Key) :
    (p.evaluation roots s).get? root = if root ∈ roots then p.outcomeOf s root else none := by
  change Table.get? (roots.filterMap fun root => (p.outcomeOf s root).map fun o => (root, o)) root = _
  induction roots with
  | nil => rfl
  | cons first rest ih =>
    cases outcome : p.outcomeOf s first with
    | none =>
      simp only [List.filterMap_cons, outcome, Option.map_none, ih, List.mem_cons]
      by_cases same : root = first
      · subst same
        simp [outcome]
      · simp [same]
    | some o =>
      simp only [List.filterMap_cons, outcome, Option.map_some, Table.get?, ih, List.mem_cons]
      by_cases same : root = first
      · subst same
        simp [outcome]
      · simp [same, Ne.symm same]

theorem evaluation_failures (failFast : p.keepGoing = false) :
    (p.evaluation roots s).failures.length = 1 ↔
      ∃ root ∈ roots, ∃ f, p.outcomeOf s root = some (.error f) := by
  generalize found : (roots.filterMap fun root =>
    (p.outcomeOf s root).bind Outcome.failure?) = reported
  have failures : (p.evaluation roots s).failures = reported.take 1 := by
    simp only [evaluation, failFast, Bool.false_eq_true, if_false, List.filterMap_filterMap, ← found]
    congr 2
    funext root
    cases outcome : p.outcomeOf s root with
    | none => rfl
    | some o => cases o <;> rfl
  have mem_reported (f : Failure) :
      f ∈ reported ↔ ∃ root ∈ roots, p.outcomeOf s root = some (.error f) := by
    subst found
    simp only [List.mem_filterMap, Option.bind_eq_some_iff]
    constructor
    · rintro ⟨root, inside, o, outcome, failed⟩
      cases o with
      | ok v => simp [Outcome.failure?] at failed
      | error f' =>
        cases failed
        exact ⟨root, inside, outcome⟩
    · rintro ⟨root, inside, outcome⟩
      exact ⟨root, inside, _, outcome, rfl⟩
  rw [failures]
  constructor
  · intro one
    cases reported with
    | nil => simp at one
    | cons f rest =>
      obtain ⟨root, inside, outcome⟩ := (mem_reported f).mp List.mem_cons_self
      exact ⟨root, inside, f, outcome⟩
  · rintro ⟨root, inside, f, outcome⟩
    have some : f ∈ reported := (mem_reported f).mpr ⟨root, inside, outcome⟩
    cases reported with
    | nil => simp at some
    | cons f' rest => rfl

theorem outcomeOf_of_outcome {o : Outcome V} (outcome : (s.graph.node root).outcome? = some o) :
    p.outcomeOf s root = some o := by
  simp [outcomeOf, Graph.outcome?_eq, outcome]

theorem outcomeOf_of_culprit (outcome : (s.graph.node root).outcome? = none)
    (uninterrupted : s.world.isInterrupted p.handle = false) {k : Key} {f : Failure}
    (culprit : s.culprit = some k) (failure : (s.graph.node k).failure? = some f) :
    p.outcomeOf s root =
      if s.graph.dependsOn root k then some (.error (.merge [f])) else none := by
  have found : (s.graph.get? k).bind Node.failure? = some f := by
    cases found : s.graph.get? k with
    | none => simp [Graph.node, found, Node.failure?] at failure
    | some n => simpa [Graph.node_of_get? found] using failure
  simp [outcomeOf, Graph.outcome?_eq, outcome, uninterrupted, culprit, found]

theorem outcome?_of_awaits (shape : s.graph.WellFormed) {k : Key} (ne : root ≠ k)
    (awaits : s.graph.Awaits root k) : (s.graph.node root).outcome? = none := by
  rcases ReflTransGen.cases_head awaits with same | ⟨d, awaited, -⟩
  · exact absurd same ne
  · rw [Graph.awaits_eq] at awaited
    obtain ⟨f, flight, -⟩ := Node.exists_flight_of_awaited awaited
    exact Node.outcome?_eq_none ((shape root).unfinished_of_flight flight)

theorem reported_of_blamed (shape : s.graph.WellFormed)
    (uninterrupted : s.world.isInterrupted p.handle = false) (blamed : s.Blamed roots) :
    ∃ root ∈ roots, ∃ f, p.outcomeOf s root = some (.error f) := by
  obtain ⟨k, f, culprit, outcome, root, inside, awaits⟩ := blamed
  by_cases same : root = k
  · exact ⟨root, inside, f, outcomeOf_of_outcome (same ▸ outcome)⟩
  · have none := outcome?_of_awaits shape same awaits
    have reported := outcomeOf_of_culprit none uninterrupted culprit
      ((shape k).failure?_of_outcome? outcome)
    rw [if_pos ((s.graph.dependsOn_iff root k).mpr awaits)] at reported
    exact ⟨root, inside, _, reported⟩

variable [BEq V] {s' : Progress S V}

theorem Break.blames {cycle : Cycle} {k : Key} (broken : Break p cycle k s s')
    (failFast : p.keepGoing = false) :
    s'.halted = true ∧ s'.culprit = (s.culprit <|> some k) := by
  have control := broken.control
  rw [failFast] at control
  exact ⟨congrArg Control.halted control, congrArg Control.culprit control⟩

theorem Breaks.blames {cycle : Cycle} {keys : List Key} (breaks : Breaks p cycle keys s s')
    (failFast : p.keepGoing = false) {k : Key} (halted : s.halted = true)
    (culprit : s.culprit = some k) : s'.halted = true ∧ s'.culprit = some k := by
  induction breaks with
  | nil => exact ⟨halted, culprit⟩
  | skip _ _ ih => exact ih halted culprit
  | fail broken _ ih =>
    obtain ⟨halted', culprit'⟩ := Break.blames broken failFast
    exact ih halted' (by rw [culprit', culprit]; rfl)

theorem BreaksAll.blames {cycles : List Cycle} (breaks : BreaksAll p cycles s s')
    (failFast : p.keepGoing = false) {k : Key} (halted : s.halted = true)
    (culprit : s.culprit = some k) : s'.halted = true ∧ s'.culprit = some k := by
  induction breaks with
  | nil => exact ⟨halted, culprit⟩
  | cons first _ ih =>
    obtain ⟨halted, culprit⟩ := Breaks.blames first failFast halted culprit
    exact ih halted culprit

theorem BreaksAll.blames_first {k : Key} {cycle : Cycle} {cycles : List Cycle}
    (breaks : BreaksAll p ((k :: cycle) :: cycles) s s') (failFast : p.keepGoing = false)
    (stuck : Stuck s k) (calm : s.culprit = none) : s'.halted = true ∧ s'.culprit = some k := by
  obtain ⟨unfinished, waits⟩ := stuck
  cases breaks with
  | cons first rest =>
    cases first with
    | skip gone =>
      rcases gone with none | finished
      · simp [Graph.node, none, Node.awaits] at waits
      · simp [unfinished] at finished
    | fail broken others =>
      obtain ⟨halted, culprit⟩ := Break.blames broken failFast
      rw [calm] at culprit
      obtain ⟨halted, culprit⟩ := Breaks.blames others failFast halted culprit
      exact rest.blames failFast halted culprit

structure Unblocks (p : Pass S V) (cycles : List Cycle) (first : Key) (s s' : Progress S V) :
    Prop where
  head : cycles.flatten.head? = some first
  halted : s'.halted = true
  culprit : s'.culprit = some first
  shape : s'.graph.WellFormed
  failed : ∀ k ∈ cycles.flatten, ∃ f, (s'.graph.node k).outcome? = some (.error f)
  spared : ∀ k, k ∉ cycles.flatten → Node.Spared (s.graph.node k) (s'.graph.node k)

theorem failCycles_unblocks {queue : List Key} {cycles : List Cycle} (steady : p.listener.Steady)
    (failFast : p.keepGoing = false) (underway : s.GroundedRun p.version) (calm : s.culprit = none)
    (turn : p.turn roots queue s = .unblock cycles) :
    ∃ first, p.Unblocks cycles first s (p.failCycles cycles s).2 := by
  have breaks := failCycles_breaks steady cycles s
  have underway' := breaks.underway underway
  obtain ⟨once, stuck, -⟩ := stuck_of_unblock turn
  obtain ⟨-, -, -, some, found⟩ := turn_unblock turn
  obtain ⟨members, spared⟩ := breaks.spared underway.toRunning once stuck
  generalize (p.failCycles cycles s).2 = s' at breaks underway' members spared ⊢
  obtain ⟨first, cycle, rest, all⟩ : ∃ first cycle rest, cycles = (first :: cycle) :: rest := by
    cases cycles with
    | nil => exact absurd rfl some
    | cons head rest =>
      have sound := (s.graph.cyclesFrom_sound (roots.filter fun root => !s.graph.isFinished root)).1
      have cyclic := (sound head (found ▸ List.mem_cons_self)).1
      cases head with
      | nil => exact cyclic.elim
      | cons first cycle => exact ⟨first, cycle, rest, rfl⟩
  have leads : first ∈ cycles.flatten := by simp [all]
  obtain ⟨halted, culprit⟩ := BreaksAll.blames_first (all ▸ breaks) failFast (stuck first leads) calm
  refine ⟨first, by simp [all], halted, culprit, underway'.shape, fun k inside => ?_, spared⟩
  obtain ⟨c, among, member⟩ := List.mem_flatten.mp inside
  exact ⟨.cycle c, (members c among k member).outcome?⟩

namespace Unblocks

variable {cycles : List Cycle} {first : Key}

omit [BEq V] in
theorem first_mem (unblocks : p.Unblocks cycles first s s') : first ∈ cycles.flatten :=
  List.mem_of_mem_head? unblocks.head

omit [BEq V] in
theorem awaits_iff (unblocks : p.Unblocks cycles first s s') (root : Key) :
    s'.graph.Awaits root first ↔
      ReflTransGen (fun k d => k ∉ cycles.flatten ∧ d ∈ s.graph.awaits k) root first := by
  have edges : (fun k d => d ∈ s'.graph.awaits k) =
      fun k d => k ∉ cycles.flatten ∧ d ∈ s.graph.awaits k := by
    funext k d
    rw [Graph.awaits_eq, Graph.awaits_eq]
    by_cases inside : k ∈ cycles.flatten
    · obtain ⟨f, outcome⟩ := unblocks.failed k inside
      have finished : (s'.graph.node k).isFinished = true := by
        rw [← (unblocks.shape k).outcome?_isSome, outcome]
        rfl
      simp [Node.awaits, ((unblocks.shape k).finished finished).1, inside]
    · rw [(unblocks.spared k inside).awaits]
      simp [inside]
  rw [Graph.Awaits, edges]

omit [BEq V] in
theorem severed_iff (unblocks : p.Unblocks cycles first s s') (roots : List Key) :
    s.Severed roots cycles ↔ ∀ root ∈ roots, root ∉ cycles.flatten ∧
      (∀ f, (s.graph.node root).outcome? ≠ some (.error f)) ∧ ¬s'.graph.Awaits root first := by
  simp only [Progress.Severed, unblocks.head, unblocks.awaits_iff, Option.mem_some_iff, forall_eq']

omit [BEq V] in
theorem outcomeOf_of_spared (unblocks : p.Unblocks cycles first s s')
    (uninterrupted : s'.world.isInterrupted p.handle = false) (outside : root ∉ cycles.flatten)
    (none : (s.graph.node root).outcome? = none) :
    ∃ f, p.outcomeOf s' root =
      if s'.graph.dependsOn root first then some (.error (.merge [f])) else Option.none := by
  obtain ⟨f, outcome⟩ := unblocks.failed first unblocks.first_mem
  refine ⟨f, outcomeOf_of_culprit ?_ uninterrupted unblocks.culprit
    ((unblocks.shape first).failure?_of_outcome? outcome)⟩
  rw [(unblocks.spared root outside).result.outcome?]
  exact none

omit [BEq V] in
theorem reports_iff (unblocks : p.Unblocks cycles first s s')
    (uninterrupted : s'.world.isInterrupted p.handle = false) (root : Key) :
    (∃ f, p.outcomeOf s' root = some (.error f)) ↔
      root ∈ cycles.flatten ∨ (∃ f, (s.graph.node root).outcome? = some (.error f)) ∨
        s'.graph.Awaits root first := by
  by_cases inside : root ∈ cycles.flatten
  · obtain ⟨f, outcome⟩ := unblocks.failed root inside
    exact ⟨fun _ => .inl inside, fun _ => ⟨f, outcomeOf_of_outcome outcome⟩⟩
  · have same := (unblocks.spared root inside).result.outcome?
    cases known : (s.graph.node root).outcome? with
    | none =>
      obtain ⟨f, outcome⟩ := unblocks.outcomeOf_of_spared uninterrupted inside known
      rw [outcome, ← s'.graph.dependsOn_iff]
      by_cases depends : s'.graph.dependsOn root first = true <;> simp [depends, inside]
    | some o =>
      have outcome := outcomeOf_of_outcome (p := p) (same.trans known)
      have ne : root ≠ first := fun same => inside (same ▸ unblocks.first_mem)
      have gone : ¬s'.graph.Awaits root first := by
        intro awaits
        have none := outcome?_of_awaits unblocks.shape ne awaits
        rw [same, known] at none
        simp at none
      rw [outcome]
      simp [inside, gone]

end Unblocks

theorem unblock_reports {queue : List Key} {cycles : List Cycle} (steady : p.listener.Steady)
    (failFast : p.keepGoing = false) (underway : s.GroundedRun p.version)
    (calm : s.culprit = none) (turn : p.turn roots queue s = .unblock cycles) :
    (p.failCycles cycles s).2.halted = true ∧
      ((p.failCycles cycles s).2.world.isInterrupted p.handle = false →
        ((∃ root ∈ roots, ∃ f, p.outcomeOf (p.failCycles cycles s).2 root = some (.error f)) ↔
          ¬ s.Severed roots cycles) ∧
        (s.Severed roots cycles →
          ∃ root ∈ roots, p.outcomeOf (p.failCycles cycles s).2 root = none)) := by
  obtain ⟨first, unblocks⟩ := failCycles_unblocks steady failFast underway calm turn
  obtain ⟨-, -, waiting, -, -⟩ := turn_unblock turn
  refine ⟨unblocks.halted, fun uninterrupted => ⟨?_, fun severed => ?_⟩⟩
  · simp only [unblocks.severed_iff, unblocks.reports_iff uninterrupted, not_forall, not_and_or,
      not_not, exists_prop, ne_eq]
  · obtain ⟨root, inside⟩ := List.exists_mem_of_ne_nil _ waiting
    obtain ⟨inside, unfinished⟩ := List.mem_filter.mp inside
    obtain ⟨outside, -, apart⟩ := (unblocks.severed_iff roots).mp severed root inside
    obtain ⟨f, outcome⟩ := unblocks.outcomeOf_of_spared uninterrupted outside
      (Node.outcome?_eq_none (by simpa [Graph.isFinished_eq] using unfinished))
    refine ⟨root, inside, ?_⟩
    rw [outcome, if_neg (by rwa [Graph.dependsOn_iff])]

omit [BEq V] in
theorem turn_of_halted {queue : List Key} (halted : s.halted = true) :
    p.turn roots queue s = .stop := by
  simp [Pass.turn, isStopped, halted]

theorem Turned.not_stop {turn turn' : List Key × Progress S V} (turned : p.Turned roots turn turn') :
    p.turn roots turn.1 turn.2 ≠ .stop := by
  cases turned with
  | dispatch k rest next => simp [next]
  | unblock cycles next => simp [next]

theorem Turned.unique : Relator.RightUnique (p.Turned roots) := by
  intro before after after' turned turned'
  cases turned with
  | dispatch k rest next =>
    cases turned' with
    | dispatch k' rest' next' =>
      cases next.symm.trans next'
      rfl
    | unblock cycles next' => cases next.symm.trans next'
  | unblock cycles next =>
    cases turned' with
    | dispatch k rest next' => cases next.symm.trans next'
    | unblock cycles' next' =>
      cases next.symm.trans next'
      rfl

theorem Reaches.last {w : World S V} {queue queue' : List Key} {s s' : Progress S V}
    (reaches : p.Reaches roots w queue s) (ends : ∀ turn, ¬p.Turned roots (queue, s) turn)
    (reaches' : p.Reaches roots w queue' s') (ends' : ∀ turn, ¬p.Turned roots (queue', s') turn) :
    queue = queue' ∧ s = s' := by
  rcases Relation.ReflTransGen.total_of_right_unique Turned.unique reaches reaches' with path | path
  · rcases ReflTransGen.cases_head path with same | ⟨turn, turned, -⟩
    · exact Prod.mk.inj same
    · exact absurd turned (ends turn)
  · rcases ReflTransGen.cases_head path with same | ⟨turn, turned, -⟩
    · exact Prod.mk.inj same.symm
    · exact absurd turned (ends' turn)

theorem Reaches.final {w : World S V} {queue queue' : List Key} {s s' : Progress S V}
    (reaches : p.Reaches roots w queue s) (stop : p.turn roots queue s = .stop)
    (reaches' : p.Reaches roots w queue' s') (stop' : p.turn roots queue' s' = .stop) :
    queue = queue' ∧ s = s' :=
  reaches.last (fun _ turned => turned.not_stop stop) reaches' fun _ turned => turned.not_stop stop'

theorem Reaches.watched {good : S → Prop} (steady : p.listener.Steady)
    (confined : p.rules.Confined good) (failFast : p.keepGoing = false) {w : World S V}
    (underway : Progress.GroundedRun p.version ({ world := w } : Progress S V))
    (idle : ∀ k, (w.graph.node k).flight = none) (outside : good w.outside) {queue : List Key}
    (reaches : p.Reaches roots w queue s) :
    s.Watched roots ∨ s.halted = true ∧ ∃ queue₀ s₀ cycles, p.Reaches roots w queue₀ s₀ ∧
      s₀.Watched roots ∧ p.turn roots queue₀ s₀ = .unblock cycles ∧
      (queue, s) = p.failCycles cycles s₀ := by
  have fresh : ({ world := w } : Progress S V).Watched roots := by
    refine ⟨fun k inFlight => ?_, fun _ => rfl, fun halted => by simp at halted⟩
    simp [Node.isInFlight, Progress.graph, idle] at inFlight
  have start : p.Moves good roots { world := w } (p.enqueueAll roots { world := w }).2 :=
    (enqueueAll_moves steady (List.Subset.refl roots) rfl).1
  have known {queue : List Key} {s : Progress S V} (reaches : p.Reaches roots w queue s) :
      s.GroundedRun p.version ∧ good s.world.outside := by
    have changes := reaches.changes steady confined underway outside
    exact ⟨changes.underway underway, changes.outside outside⟩
  suffices all : ∀ turn, ReflTransGen (p.Turned roots) (p.enqueueAll roots { world := w }) turn →
      turn.2.Watched roots ∨ turn.2.halted = true ∧ ∃ queue₀ s₀ cycles,
        p.Reaches roots w queue₀ s₀ ∧ s₀.Watched roots ∧
        p.turn roots queue₀ s₀ = .unblock cycles ∧ turn = p.failCycles cycles s₀ from
    all (queue, s) reaches
  intro turn reaches
  induction reaches with
  | refl => exact .inl (start.watched failFast underway fresh)
  | @tail before after earlier turned ih =>
    have reaches : p.Reaches roots w before.1 before.2 := earlier
    obtain ⟨underway, outside⟩ := known reaches
    have watched : before.2.Watched roots :=
      ih.resolve_right fun gone => turned.not_stop (turn_of_halted gone.1)
    cases turned with
    | dispatch k rest next =>
      exact .inl ((dispatch_moves steady confined k underway outside).watched failFast underway
        watched)
    | unblock cycles next =>
      have live := (turn_unblock next).1
      simp only [isStopped, Bool.or_eq_false_iff] at live
      have halted := (unblock_reports steady failFast underway (watched.calm live.1) next).1
      exact .inr ⟨halted, _, _, cycles, reaches, watched, next, rfl⟩

end Pass

namespace Engine

variable [BEq V] {rules : Rules S V} {listener : Listener} {e : Engine S V}

-- An evaluation without keep-going that was not interrupted reports every root or one failure, but
-- for one case: the pass was stuck in several cycles, and what connects the roots with the first
-- member was broken too.
theorem Reachable.failFast_reports_iff (reachable : Reachable rules listener e)
    (steady : listener.Steady) (confined : rules.Confined fun _ => True) {budget : Nat}
    {roots : List Key} {ev : Evaluation V} (ok : (e.evaluate budget roots false).1 = .ok ev)
    (uninterrupted : (e.evaluate budget roots false).2.world.isInterrupted e.current = false) :
    (∀ root ∈ roots, (ev.get? root).isSome) ∨ ev.failures.length = 1 ↔
      ¬ ∃ queue s cycles, (e.pass false).Reaches (union [] roots) e.entry queue s ∧
        (e.pass false).turn (union [] roots) queue s = .unblock cycles ∧
        s.Severed (union [] roots) cycles := by
  obtain ⟨rfl, rfl⟩ := reachable.unchanged
  have resting := reachable.resting steady confined
  obtain ⟨queue, s, evaluated⟩ := e.evaluated budget roots false
  obtain ⟨abort, stop, rfl⟩ := evaluated.ok ev ok
  have reaches := evaluated.reaches
  have interrupted : s.world.isInterrupted e.current = false := by
    simpa only [World.isInterrupted, evaluated.interrupted] using uninterrupted
  obtain ⟨underway₀, changes⟩ := evaluated.changes steady confined resting trivial
  have underway := changes.underway underway₀
  generalize distinct : union [] roots = wanted at *
  have mem_wanted (root : Key) : root ∈ roots ↔ root ∈ wanted := by
    rw [← distinct, mem_union]
    simp
  simp only [mem_wanted]
  rw [Pass.evaluation_failures rfl]
  have reported : (∀ root ∈ wanted,
      (((e.pass false).evaluation wanted s).get? root).isSome) ↔
        ∀ root ∈ wanted, ((e.pass false).outcomeOf s root).isSome := by
    refine forall₂_congr fun root inside => ?_
    rw [Pass.evaluation_get?, if_pos inside]
  rw [reported]
  have watched {queue : List Key} {s : Progress S V}
      (reaches : (e.pass false).Reaches wanted e.entry queue s) :=
    reaches.watched steady confined rfl underway₀ resting.idle trivial
  have broken {queue₀ : List Key} {s₀ : Progress S V} {cycles : List Cycle}
      (reaches₀ : (e.pass false).Reaches wanted e.entry queue₀ s₀)
      (stuck : (e.pass false).turn wanted queue₀ s₀ = .unblock cycles) :
      ((∃ root ∈ wanted, ∃ f, (e.pass false).outcomeOf s root = some (.error f)) ↔
          ¬ s₀.Severed wanted cycles) ∧
        (s₀.Severed wanted cycles → ∃ root ∈ wanted, (e.pass false).outcomeOf s root = none) := by
    have live := (Pass.turn_unblock stuck).1
    simp only [Pass.isStopped, Bool.or_eq_false_iff] at live
    have calm := ((watched reaches₀).resolve_right (by simp [live.1])).calm live.1
    have underway' := (reaches₀.changes steady confined underway₀ trivial).underway underway₀
    obtain ⟨halted, reports⟩ := Pass.unblock_reports steady rfl underway' calm stuck
    have last := reaches₀.tail (.unblock cycles stuck)
    obtain ⟨-, rfl⟩ := reaches.final stop last (Pass.turn_of_halted halted)
    exact reports interrupted
  constructor
  · rintro claim ⟨queue₀, s₀, cycles, reaches₀, stuck, severed⟩
    obtain ⟨reports, silent⟩ := broken reaches₀ stuck
    rcases claim with all | failed
    · obtain ⟨root, inside, none⟩ := silent severed
      have some := all root inside
      simp [none] at some
    · exact reports.mp failed severed
  · intro joined
    rcases watched reaches with calm | ⟨-, queue₀, s₀, cycles, reaches₀, -, stuck, -⟩
    · cases halted : s.halted with
      | false =>
        left
        intro root inside
        have live : (e.pass false).isStopped s = false := by
          rw [Pass.isStopped, halted]
          exact interrupted
        have finished := Pass.finished_of_stop stop live root inside
        obtain ⟨o, outcome⟩ := Option.isSome_iff_exists.mp
          ((underway.shape root).outcome?_isSome.trans finished)
        rw [Pass.outcomeOf_of_outcome outcome]
        rfl
      | true =>
        right
        exact Pass.reported_of_blamed underway.shape interrupted
          ((calm.blamed halted).resolve_left (by simp [abort]))
    · right
      exact (broken reaches₀ stuck).1.mpr fun severed =>
        joined ⟨queue₀, s₀, cycles, reaches₀, stuck, severed⟩

end Engine

def Rules.knot : Rules Unit Nat :=
  [("root", fun _ => Computation.need (.only "b")),
    ("b", fun _ => do
      match ← Computation.needAll [.only "a", .only "b"] with
      | .ok _ => return .ok 0
      | .error fault => return .error fault),
    ("a", fun _ => Computation.need (.only "a"))]

theorem Rules.confined_knot (good : Unit → Prop) : Rules.knot.Confined good := by
  refine forall_cons (fun _ _ => Computation.confined_need _) (forall_cons (fun _ _ => ?_)
    (forall_cons (fun _ _ => Computation.confined_need _) forall_nil))
  refine .values fun answers => ?_
  simp only [Computation.bind]
  cases Computation.allPresent answers <;> exact .done _

namespace Engine

def knot : Engine Unit Nat := new Rules.knot .steady ()

theorem failFast_reports_iff_knot :
    ∃ queue s cycles, (knot.pass false).Reaches (union [] [.only "root"]) knot.entry queue s ∧
      (knot.pass false).turn (union [] [.only "root"]) queue s = .unblock cycles ∧
      s.Severed (union [] [.only "root"]) cycles := by
  have quiet : (knot.evaluate 20 [.only "root"] false).1.toOption.map
      (fun ev => ((ev.get? (.only "root")).isSome, ev.failures.length)) = some (false, 0) := by
    decide +kernel
  have uninterrupted :
      (knot.evaluate 20 [.only "root"] false).2.world.isInterrupted knot.current = false := by
    decide +kernel
  cases ok : (knot.evaluate 20 [.only "root"] false).1 with
  | error abort =>
    rw [ok] at quiet
    cases quiet
  | ok ev =>
    rw [ok] at quiet
    obtain ⟨roots, failures⟩ : (ev.get? (.only "root")).isSome = false ∧ ev.failures.length = 0 := by
      simpa [Except.toOption] using quiet
    have reachable : Reachable Rules.knot .steady knot := .new ()
    have reports := reachable.failFast_reports_iff (fun _ => rfl) (Rules.confined_knot _) ok
      uninterrupted
    by_contra joined
    rcases reports.mpr joined with all | one
    · exact absurd (all (.only "root") List.mem_cons_self) (by simp [roots])
    · simp [failures] at one

theorem failFast_silent_knot :
    let result := knot.evaluate 20 [.only "root"] false
    result.1.toOption.map (fun ev => (ev.roots.keys, ev.failures)) = some ([], []) ∧
      result.2.world.isInterrupted 0 = false ∧
      (result.2.world.graph.node (.only "a")).failure? = some (.cycle [.only "a"]) ∧
      (result.2.world.graph.node (.only "b")).failure? = some (.cycle [.only "b"]) := by
  decide +kernel

end Engine

end Recompute
