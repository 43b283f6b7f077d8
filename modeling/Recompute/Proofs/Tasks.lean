import Recompute.Proofs.Work

set_option autoImplicit false

namespace Recompute

variable {S V α : Type}

open Progress

namespace Pass

variable {p : Pass S V}

section

variable [BEq V] {good : S → Prop} {roots : List Key} {k : Key} {f : Flight V}
  {s s' : Progress S V}

structure Started (good : S → Prop) (k : Key) (f : Flight V) (s s' : Progress S V) : Prop where
  self : s'.graph.node k = (s.graph.node k).resumed { f with memo := [] }
  others : ∀ l, l ≠ k → s'.graph.node l = s.graph.node l
  outside : good s'.world.outside
  interrupted : ∀ h ∈ s.world.interrupted, h ∈ s'.world.interrupted
  control : s'.control = { s.control with
    outside := s'.world.outside, interrupted := s'.world.interrupted, told := s'.world.counted }

omit [BEq V] in
theorem Started.parked (ran : Started good k f s s') (flight : (s.graph.node k).flight = some f)
    (awaits : List Key) (memo : Memo V) :
    s'.graph.parked k
        { s'.graph.node k with flight := some ({ f with memo := [] }.parkedOn awaits memo) } awaits =
      s.graph.parked k ((s.graph.node k).resumed (f.parkedOn awaits memo)) awaits ∧
    s'.graph.idleOf awaits = s.graph.idleOf awaits := by
  constructor
  · rw [ran.self, Graph.parked_congr ran.others]
    rfl
  · refine List.filter_congr fun d _ => ?_
    by_cases same : d = k
    · subst same
      simp [ran.self, Node.isInFlight, flight]
    · rw [ran.others d same]

theorem Started.settled (ran : Started good k f s s') (flight : (s.graph.node k).flight = some f)
    (o : Outcome V) (deps : List Group) (version : Nat) :
    (s'.graph.settled k ((s'.graph.node k).commit o deps version).2).node =
      (s.graph.settled k ((s.graph.node k).begun.commit o deps version).2).node := by
  have committed : ((s'.graph.node k).commit o deps version).2 =
      ((s.graph.node k).begun.commit o deps version).2 := by
    rw [ran.self]
    cases o <;> rfl
  rw [committed]
  refine Graph.settled_congr ran.others ?_ ?_ _
  · rw [ran.self]
    rfl
  · simp [ran.self, Node.waiters, flight]

theorem Started.receipt (ran : Started good k f s s') (o : Outcome V) (deps : List Group)
    (version : Nat) : ((s'.graph.node k).commit o deps version).1.changed =
      ((s.graph.node k).begun.commit o deps version).1.changed := by
  rw [ran.self]
  cases o <;> rfl

omit [BEq V] in
theorem Started.node (ran : Started good k f s s') : s'.graph.node =
    Function.update s.graph.node k ((s.graph.node k).resumed { f with memo := [] }) := by
  funext l
  by_cases same : l = k
  · subst same
    simp [ran.self]
  · simp [ran.others l same, same]

theorem Started.stop (ran : Started good k f s s') (flight : (s.graph.node k).flight = some f)
    (claimed : f.stage = .claimed) (startable : s.graph.Startable k)
    (told : s'.world.counted = .computing k ((s.graph.node k).starts + 1) :: s.world.counted)
    (stopped : p.isStopped s' = true) : Step p good roots s s' := by
  have control := ran.control
  refine .lose k f flight claimed startable ?_ stopped
    ⟨_, _, s.abort, ran.outside, ran.interrupted, .inl ⟨congrArg Control.halted control, rfl⟩, ?_⟩
  · exact ran.node
  · have halted : s'.halted = s.halted := congrArg Control.halted control
    rw [control, halted, told]
    rfl

structure Hands (p : Pass S V) (k : Key) (ready : List Key) (s s' : Progress S V) : Prop where
  queued : ∀ l, (s.graph.node l).queued + ready.count l = (s'.graph.node l).queued
  claimed : ∀ l, (s'.graph.node l).isClaimed = true →
    p.isStopped s' = true ∨ l ≠ k ∧ (s.graph.node l).isClaimed = true
  starts : ∀ l, (s'.graph.node l).starts ≠ (s.graph.node l).starts → l = k ∧ s.graph.Startable k

namespace Hands

omit [BEq V] in
theorem update {m : Node V} {f' : Flight V} (flight : (s.graph.node k).flight = some f)
    (claimed : f.stage = .claimed) (others : ∀ l, l ≠ k → s'.graph.node l = s.graph.node l)
    (self : s'.graph.node k = m) (flight' : m.flight = some f') (claimed' : f'.stage = .claimed)
    (startable : s.graph.Startable k) (stopped : p.isStopped s' = true) : p.Hands k [] s s' where
  queued l := by
    by_cases same : l = k
    · subst same
      simp [self, Node.queued, flight, flight', claimed, claimed']
    · simp [others l same]
  claimed _ _ := .inl stopped
  starts l started := by
    by_cases same : l = k
    · exact ⟨same, startable⟩
    · simp [others l same] at started

omit [BEq V] in
theorem settle {g : Graph V} {m : Node V} (flight : (s.graph.node k).flight = some f)
    (claimed : f.stage = .claimed) (others : ∀ l, l ≠ k → g.node l = s.graph.node l)
    (idle : m.flight = none) (node : s'.graph.node = (g.settled k m).node)
    (startable : m.starts ≠ (s.graph.node k).starts → s.graph.Startable k) :
    p.Hands k (g.roused k m) s s' where
  queued l := by
    rw [node, ← g.queued_settled]
    by_cases same : l = k
    · subst same
      rw [Function.update_self, Node.queued_of_idle idle, Node.queued_of_flight flight, claimed]
      simp
    · rw [Function.update_of_ne same, others l same]
  claimed l inside := by
    rw [node, g.isClaimed_settled] at inside
    by_cases same : l = k
    · subst same
      simp [Node.isClaimed, idle] at inside
    · rw [Function.update_of_ne same, others l same] at inside
      exact .inr ⟨same, inside⟩
  starts l started := by
    rw [node, g.settled_starts] at started
    by_cases same : l = k
    · subst same
      rw [Function.update_self] at started
      exact ⟨rfl, startable started⟩
    · simp [Function.update_of_ne same, others l same] at started

omit [BEq V] in
theorem park {n : Node V} {f' : Flight V} {awaits : List Key} {m : Nat}
    (flight : (s.graph.node k).flight = some f) (claimed : f.stage = .claimed)
    (flight' : n.flight = some f') (parked : f'.stage = .parked m) (once : awaits.Nodup)
    (unfinished : ∀ d ∈ awaits, (Function.update s.graph.node k n d).isFinished = false)
    (node : s'.graph.node = s.graph.parked k n awaits)
    (startable : n.starts ≠ (s.graph.node k).starts → s.graph.Startable k) :
    p.Hands k (s.graph.idleOf awaits) s s' where
  queued l := by
    have busy : (s.graph.node k).isInFlight = true := by simp [Node.isInFlight, flight]
    rw [node, ← Graph.queued_parked flight' busy once unfinished]
    by_cases same : l = k
    · subst same
      rw [Function.update_self, Node.queued_of_flight flight', Node.queued_of_flight flight,
        claimed, parked]
      simp
    · rw [Function.update_of_ne same]
  claimed l inside := by
    rw [node, Graph.isClaimed_parked unfinished] at inside
    by_cases same : l = k
    · subst same
      simp [Node.isClaimed, flight', parked] at inside
    · rw [Function.update_of_ne same] at inside
      exact .inr ⟨same, inside⟩
  starts l started := by
    obtain ⟨f'', parked⟩ := s.graph.parked_eq k n awaits l
    rw [node, parked] at started
    by_cases same : l = k
    · subst same
      rw [Function.update_self] at started
      exact ⟨rfl, startable started⟩
    · simp [Function.update_of_ne same] at started

omit [BEq V] in
theorem of_node {s₀ : Progress S V} {ready : List Key}
    (queued : ∀ l, (s.graph.node l).queued = (s₀.graph.node l).queued)
    (claimed : ∀ l, (s.graph.node l).isClaimed = (s₀.graph.node l).isClaimed)
    (starts : ∀ l, (s.graph.node l).starts = (s₀.graph.node l).starts)
    (startable : s.graph.Startable k → s₀.graph.Startable k)
    (hands : p.Hands k ready s s') : p.Hands k ready s₀ s' where
  queued l := queued l ▸ hands.queued l
  claimed l inside := claimed l ▸ hands.claimed l inside
  starts l started := (hands.starts l (starts l ▸ started)).imp_right startable

end Hands

theorem conclude_interrupted (ran : Started good k f s s') (flight : (s.graph.node k).flight = some f)
    (claimed : f.stage = .claimed) (startable : s.graph.Startable k)
    (told : s'.world.counted = .computing k ((s.graph.node k).starts + 1) :: s.world.counted)
    (result : Except Fault V) (t : Trace V) (cut : s'.world.isInterrupted p.handle = true) :
    Yields (p.conclude k result t) s' [] s' ∧ Step p good roots s s' ∧ p.Hands k [] s s' := by
  have gone : p.isStopped s' = true := by simp [isStopped, cut]
  refine ⟨yields_bind (yields_get s') ?_, ran.stop flight claimed startable told gone,
    .update flight claimed ran.others ran.self rfl claimed startable gone⟩
  rw [if_pos cut]
  exact yields_pure [] s'

theorem conclude_complete (steady : p.listener.Steady) (ran : Started good k f s s')
    (told : s'.world.counted = .computing k ((s.graph.node k).starts + 1) :: s.world.counted)
    (flight : (s.graph.node k).flight = some f) (claimed : f.stage = .claimed)
    (startable : s.graph.Startable k) {result : Except Fault V} {t : Trace V}
    (attempt : Attempt p good s.graph k f.memo (.ok result) t)
    (live : s'.world.isInterrupted p.handle = false) (complete : t.absent = []) :
    ∃ ready s'', Yields (p.conclude k result t) s' ready s'' ∧ Step p good roots s s'' ∧
      p.Hands k ready s s'' := by
  have control := ran.control
  obtain ⟨s'', yields, graph, control''⟩ :=
    commit_yields steady k (t.outcome k result) t.groups s'
  refine ⟨s'.graph.roused k ((s'.graph.node k).commit (t.outcome k result) t.groups p.version).2,
    s'', yields_bind (yields_get s') ?_, ?_, ?_⟩
  · rw [if_neg (by simp [live]), if_neg (by simp [complete])]
    unfold Trace.outcome at yields ⊢
    by_cases failed : t.failures = []
    · simp only [failed, ne_eq, not_true_eq_false, if_false] at yields ⊢
      cases result <;> exact yields
    · simp only [failed, ne_eq, not_false_eq_true, if_true] at yields ⊢
      exact yields
  · obtain ⟨rule, found, -⟩ := attempt.plays
    refine .conclude k f _ _ flight claimed startable
      (.inr ⟨result, t, attempt, complete, rfl, rfl⟩) ?_
      ⟨_, _, ran.outside, ran.interrupted, ?_⟩
    · rw [graph]
      exact ran.settled flight _ _ _
    · rw [control'', ran.receipt, told, control, began, found]
      rfl
  · exact .settle flight claimed ran.others
      (Node.renewed_commit _ (t.outcome k result) t.groups p.version).idle
      (by rw [graph]) fun _ => startable

omit [BEq V] in
theorem Started.finished (ran : Started good k f s s') (shape : s.graph.WellFormed)
    (flight : (s.graph.node k).flight = some f) (d : Key) :
    (s'.graph.node d).isFinished = (s.graph.node d).isFinished := by
  by_cases same : d = k
  · subst same
    rw [ran.self, (shape d).unfinished_of_flight flight]
    rfl
  · rw [ran.others d same]

theorem conclude_missing (steady : p.listener.Steady) (ran : Started good k f s s')
    (told : s'.world.counted = .computing k ((s.graph.node k).starts + 1) :: s.world.counted)
    (shape : s.graph.WellFormed) (flight : (s.graph.node k).flight = some f)
    (claimed : f.stage = .claimed) (startable : s.graph.Startable k) {result : Except Fault V}
    {t : Trace V} (attempt : Attempt p good s.graph k f.memo (.ok result) t)
    (live : s'.world.isInterrupted p.handle = false) (missing : t.absent ≠ []) :
    ∃ ready s'', Yields (p.conclude k result t) s' ready s'' ∧ Step p good roots s s'' ∧
      p.Hands k ready s s'' := by
  have unfinished := (shape k).unfinished_of_flight flight
  have self : (s'.graph.node k).flight = some { f with memo := [] } := by simp [ran.self]
  have finished := ran.finished shape flight
  have open' := fun d inside => (finished d).trans (attempt.absent_unfinished shape inside)
  obtain ⟨s'', fourth, node, control''⟩ := park_yields steady (f := { f with memo := [] })
    t.memo
    { s' with
      stats := { s'.stats with restarts := s'.stats.restarts + 1 }
      world := s'.world.record (.restarted k t.absent) }
    self ((finished k).trans unfinished) missing attempt.absent_once open'
  obtain ⟨parked, idle⟩ := ran.parked flight t.absent t.memo
  refine ⟨s'.graph.idleOf t.absent, s'', yields_bind (yields_get s') ?_, ?_, ?_⟩
  · rw [if_neg (by simp [live]), if_pos missing]
    exact yields_bind (yields_count _ s') (yields_bind (yields_report steady _ _) fourth)
  · refine .restart k f result t flight claimed startable attempt missing (node.trans parked)
      ⟨_, _, ran.outside, ran.interrupted, ?_⟩
    have control := ran.control
    have enqueued : s'.enqueued = s.enqueued := congrArg Control.enqueued control
    have idle : s'.graph.idleOf t.absent = s.graph.idleOf t.absent := idle
    refine control''.trans ?_
    change { s'.control with
      enqueued := s'.enqueued ++ s'.graph.idleOf t.absent
      told := .restarted k t.absent :: s'.world.counted } = _
    rw [control, enqueued, idle, told]
  · rw [idle]
    exact .park flight claimed (Node.flight_resumed _ _) rfl attempt.absent_once
      (Graph.unfinished_update (.resumed unfinished _)
        fun d inside => attempt.absent_unfinished shape inside) (node.trans parked)
      fun _ => startable

theorem conclude_step (steady : p.listener.Steady) (ran : Started good k f s s')
    (told : s'.world.counted = .computing k ((s.graph.node k).starts + 1) :: s.world.counted)
    (shape : s.graph.WellFormed) (flight : (s.graph.node k).flight = some f)
    (claimed : f.stage = .claimed) (startable : s.graph.Startable k) {result : Except Fault V} {t : Trace V}
    (attempt : Attempt p good s.graph k f.memo (.ok result) t) :
    ∃ ready s'', Yields (p.conclude k result t) s' ready s'' ∧ Step p good roots s s'' ∧
      p.Hands k ready s s'' := by
  cases cut : s'.world.isInterrupted p.handle with
  | true => exact ⟨[], s', conclude_interrupted ran flight claimed startable told result t cut⟩
  | false =>
    by_cases complete : t.absent = []
    · exact conclude_complete steady ran told flight claimed startable attempt cut complete
    · exact conclude_missing steady ran told shape flight claimed startable attempt cut complete

theorem run_yields (ran : Started good k f s s') (unfinished : (s.graph.node k).isFinished = false)
    {rule : Rule S V} (found : p.rules.get? k.tag = some rule)
    (confined : (rule k).Confined good) :
    ∃ result t s'', Yields (p.run k rule f.memo) s' (result, t) s'' ∧ Started good k f s s'' ∧
      s''.world.counted = s'.world.counted ∧ Attempt p good s.graph k f.memo result t := by
  obtain ⟨plays, kept⟩ := Computation.run_plays confined ⟨k, p.version, p.handle⟩
    { memo := f.memo } s'.world ran.outside
  refine ⟨_, _, _, p.yields_run k rule f.memo s', ?_, kept.counted, ?_⟩
  · have changed (world : World S V) (version : world.graph.version = s'.graph.version)
        (handles : world.handles = s'.world.handles) :
        ({ s' with world } : Progress S V).control = { s'.control with
          outside := world.outside, interrupted := world.interrupted, told := world.counted } := by
      simp only [Progress.graph] at version
      simp [Progress.control, Progress.graph, version, handles]
    constructor
    case self => exact (kept.node k).trans ran.self
    case others => exact fun l ne => (kept.node l).trans (ran.others l ne)
    case outside => exact kept.outside
    case interrupted => exact fun h inside => kept.interrupted h (ran.interrupted h inside)
    case control => exact (changed _ kept.version kept.handles).trans (by rw [ran.control])
  · have outcomes : ∀ l, (s'.graph.node l).outcome? = (s.graph.node l).outcome? := by
      intro l
      by_cases same : l = k
      · subst same
        rw [ran.self, (Node.SameResult.resumed unfinished _).outcome?]
      · rw [ran.others l same]
    refine Attempt.congr outcomes ⟨⟨rule, found, plays⟩, kept.remembers, kept.memo, ?_⟩
    obtain ⟨later, asked, memo⟩ := kept.asked
    rw [asked]
    exact memo

theorem Started.panic (ran : Started good k f s s') (flight : (s.graph.node k).flight = some f)
    (claimed : f.stage = .claimed) (startable : s.graph.Startable k)
    (told : s'.world.counted = .computing k ((s.graph.node k).starts + 1) :: s.world.counted)
    (panic : Panic) :
    ∃ s'', Yields (giveUp (.panicked k panic.message)) s' () s'' ∧ Step p good roots s s'' ∧
      p.Hands k [] s s'' := by
  refine ⟨_, yields_modify _ s', ?_,
    .update flight claimed ran.others ran.self rfl claimed startable (by simp [isStopped])⟩
  have abort : s'.abort = s.abort := congrArg Control.abort ran.control
  refine .lose k f flight claimed startable ?_ (by simp [isStopped])
    ⟨_, _, s'.abort <|> some (.panicked k panic.message), ran.outside, ran.interrupted,
      .inr ⟨panic.message, by rw [abort]⟩, ?_⟩
  · exact ran.node
  · rw [← told]
    exact congrArg (fun c : Control S =>
      { c with halted := true, abort := s'.abort <|> some (Abort.panicked k panic.message) })
      ran.control

theorem Started.ruleless (steady : p.listener.Steady) (ran : Started good k f s s')
    (flight : (s.graph.node k).flight = some f) (claimed : f.stage = .claimed)
    (startable : s.graph.Startable k) (told : s'.world.counted = s.world.counted)
    (found : p.rules.get? k.tag = none) :
    ∃ ready s'', Yields (p.fail k (.direct k (.noRule k.tag)) []) s' ready s'' ∧
      Step p good roots s s'' ∧ p.Hands k ready s s'' := by
  obtain ⟨s'', yields, graph, control⟩ := fail_yields steady k (.direct k (.noRule k.tag)) [] s'
  refine ⟨_, s'', yields, ?_,
    .settle flight claimed ran.others rfl (congrArg Graph.node graph) fun _ => startable⟩
  refine .conclude k f (.error (.direct k (.noRule k.tag))) [] flight claimed startable
    (.inl ⟨found, rfl, rfl⟩) ?_ ⟨_, _, ran.outside, ran.interrupted, ?_⟩
  · rw [graph]
    exact ran.settled flight (.error (.direct k (.noRule k.tag))) [] p.version
  · rw [control, told, began, found, ran.control]
    rfl

theorem compute_step (steady : p.listener.Steady) (confined : p.rules.Confined good)
    (shape : s.graph.WellFormed) (outside : good s.world.outside)
    (flight : (s.graph.node k).flight = some f) (claimed : f.stage = .claimed)
    (startable : s.graph.Startable k) :
    ∃ ready s', Yields (p.compute k) s ready s' ∧ Step p good roots s s' ∧
      p.Hands k ready s s' := by
  have unfinished := (shape k).unfinished_of_flight flight
  have first := yields_onNode k (fun n =>
    ((n.start.1, n.start.2.releaseMemo.1), n.start.2.releaseMemo.2)) s
  have started : (s.graph.node k).start.2.releaseMemo =
      (f.memo, (s.graph.node k).resumed { f with memo := [] }) := by
    simp [Node.releaseMemo, Node.start, Node.resumed, Node.begun, flight]
  rw [started] at first
  have ran : Started good k f s (s.withGraph
      (s.graph.put k ((s.graph.node k).resumed { f with memo := [] }))) :=
    ⟨s.graph.node_put_self k _, fun l ne => s.graph.node_put_of_ne _ ne, outside, fun _ h => h, rfl⟩
  cases found : p.rules.get? k.tag with
  | none =>
    obtain ⟨ready, s', last, step, hands⟩ :=
      ran.ruleless steady flight claimed startable rfl found
    refine ⟨ready, s', yields_bind first ?_, step, hands⟩
    simp only [found]
    exact last
  | some rule =>
    have second := yields_count (fun stats => { stats with invocations := stats.invocations + 1 })
      (s.withGraph (s.graph.put k ((s.graph.node k).resumed { f with memo := [] })))
    obtain ⟨s₂, third, ran₂, told₂⟩ : ∃ s₂,
        Yields (p.report (.computing k ((s.graph.node k).start.1)))
          { s.withGraph (s.graph.put k ((s.graph.node k).resumed { f with memo := [] })) with
            stats := { s.stats with invocations := s.stats.invocations + 1 } } () s₂ ∧
        Started good k f s s₂ ∧
        s₂.world.counted = .computing k ((s.graph.node k).starts + 1) :: s.world.counted :=
      ⟨_, yields_report steady _ _, { ran with control := rfl }, rfl⟩
    obtain ⟨result, t, s₃, fourth, ran₃, told₃, attempt⟩ :=
      run_yields ran₂ unfinished found (confined k rule found)
    rw [told₂] at told₃
    cases result with
    | error panic =>
      obtain ⟨s', last, step, hands⟩ := ran₃.panic flight claimed startable told₃ panic
      refine ⟨[], s', yields_bind first ?_, step, hands⟩
      simp only [found]
      exact yields_bind second (yields_bind third (yields_bind fourth
        (yields_bind last (yields_pure [] s'))))
    | ok result =>
      obtain ⟨ready, s', last, step, hands⟩ :=
        conclude_step steady ran₃ told₃ shape flight claimed startable attempt
      refine ⟨ready, s', yields_bind first ?_, step, hands⟩
      simp only [found]
      exact yields_bind second (yields_bind third (yields_bind fourth last))

end

def Finds (g : Graph V) (verifiedAt : Nat) (found : List Key) (group : Group) : Verdict → Prop
  | .changed => ∃ d ∈ group, (g.node d).isFinished = true ∧ verifiedAt < (g.node d).version
  | .unfinished keys => keys = found ++ g.missing group ∧ keys ≠ []
  | .unchanged => found = [] ∧ g.Checked verifiedAt group

theorem finds_of_node {g g' : Graph V} (same : g'.node = g.node) : Finds g' = Finds g := by
  funext verifiedAt found group verdict
  cases verdict <;> simp only [Finds, Graph.missing_of_node same, Graph.checked_of_node same, same]

theorem Finds.unfinished {g : Graph V} {verifiedAt : Nat} {found : List Key} {dep : Key}
    {rest : Group} {verdict : Verdict} (finished : (g.node dep).isFinished = false)
    (finds : Finds g verifiedAt (found ++ [dep]) rest verdict) :
    Finds g verifiedAt found (dep :: rest) verdict := by
  cases verdict with
  | changed => exact finds.imp fun d => .imp_left (List.mem_cons_of_mem dep)
  | unfinished keys => simpa [Finds, Graph.missing, finished] using finds
  | unchanged => exact absurd finds.1 (by simp)

theorem Finds.current {g : Graph V} {verifiedAt : Nat} {found : List Key} {dep : Key}
    {rest : Group} {verdict : Verdict} (finished : (g.node dep).isFinished = true)
    (current : (g.node dep).version ≤ verifiedAt) (finds : Finds g verifiedAt found rest verdict) :
    Finds g verifiedAt found (dep :: rest) verdict := by
  cases verdict with
  | changed => exact finds.imp fun d => .imp_left (List.mem_cons_of_mem dep)
  | unfinished keys => simpa [Finds, Graph.missing, finished] using finds
  | unchanged => exact ⟨finds.1, List.forall_mem_cons.mpr ⟨⟨finished, current⟩, finds.2⟩⟩

theorem inspect_yields (verifiedAt : Nat) (found : List Key) (group : Group) (s : Progress S V) :
    ∃ verdict g, Yields (inspect verifiedAt found group) s verdict (s.withGraph g) ∧
      g.node = s.graph.node ∧ g.version = s.graph.version ∧
      Finds s.graph verifiedAt found group verdict := by
  induction group generalizing found s with
  | nil =>
    refine ⟨_, s.graph, yields_pure _ s, rfl, rfl, ?_⟩
    by_cases none : found = [] <;> simp [none, Finds, Graph.missing, Graph.Checked]
  | cons dep rest ih =>
    have first : Yields (onNode dep fun n => (n, n)) s (s.graph.node dep)
        (s.withGraph (s.graph.ensure dep)) := yields_onNode dep (fun n => (n, n)) s
    have same : (s.graph.ensure dep).node = s.graph.node := funext (s.graph.node_ensure dep)
    have later (found : List Key) := ih found (s.withGraph (s.graph.ensure dep))
    change ∀ found, ∃ verdict g, Yields _ (s.withGraph (s.graph.ensure dep)) verdict (s.withGraph g) ∧
      g.node = (s.graph.ensure dep).node ∧ g.version = s.graph.version ∧
        Finds (s.graph.ensure dep) verifiedAt found rest verdict at later
    rw [same, finds_of_node same] at later
    cases finished : (s.graph.node dep).isFinished with
    | false =>
      obtain ⟨verdict, g, yields, node, version, finds⟩ := later (found ++ [dep])
      refine ⟨verdict, g, yields_bind first ?_, node, version, finds.unfinished finished⟩
      simpa only [finished, Bool.not_false, if_true] using yields
    | true =>
      by_cases newer : (s.graph.node dep).version > verifiedAt
      · refine ⟨.changed, s.graph.ensure dep, yields_bind first ?_, same, rfl,
          dep, List.mem_cons_self, finished, newer⟩
        simp only [finished, Bool.not_true, Bool.false_eq_true, if_false, if_pos newer]
        exact yields_pure _ _
      · obtain ⟨verdict, g, yields, node, version, finds⟩ := later found
        refine ⟨verdict, g, yields_bind first ?_, node, version,
          finds.current finished (Nat.not_lt.mp newer)⟩
        simpa only [finished, Bool.not_true, Bool.false_eq_true, if_false, if_neg newer] using yields

section

variable [BEq V] {good : S → Prop} {roots : List Key} {k : Key} {f : Flight V} {group : Group}
  {ready : List Key} {s s₁ s' : Progress S V}

omit [BEq V] in
theorem Hands.of_sameState (same : s.SameState s₁) (hands : p.Hands k ready s₁ s') :
    p.Hands k ready s s' :=
  hands.of_node (fun l => by rw [same.node]) (fun l => by rw [same.node])
    (fun l => by rw [same.node]) fun startable => Graph.startable_of_node same.node ▸ startable

theorem confirm_step (steady : p.listener.Steady) (flight : (s.graph.node k).flight = some f)
    (claimed : f.stage = .claimed) (cause : s.graph.Confirmable k) :
    ∃ ready s', Yields (p.confirm k) s ready s' ∧ Step p good roots s s' ∧
      p.Hands k ready s s' := by
  obtain ⟨s', yields, node, control⟩ := confirm_yields steady k s
  exact ⟨_, s', yields, .confirm k f flight claimed cause node control,
    .settle flight claimed (fun _ _ => rfl) rfl node fun started => absurd rfl started⟩

theorem postpone_step (steady : p.listener.Steady) (shape : s.graph.WellFormed)
    (flight : (s.graph.node k).flight = some f) (claimed : f.stage = .claimed)
    (verifying : (s.graph.node k).status = .verifying)
    (recorded : (s.graph.node k).deps[f.verified]? = some group) (once : group.Nodup)
    (some : s.graph.missing group ≠ []) :
    ∃ ready s', Yields (p.park k (s.graph.missing group) []) s ready s' ∧
      Step p good roots s s' ∧ p.Hands k ready s s' := by
  have open' : ∀ d ∈ s.graph.missing group, (s.graph.node d).isFinished = false :=
    fun d inside => (Graph.mem_missing.mp inside).2
  obtain ⟨s', yields, node, control⟩ := park_yields steady [] s flight
    ((shape k).unfinished_of_flight flight) some (once.filter _) open'
  exact ⟨_, s', yields, .postpone k f group flight claimed verifying recorded some node control,
    .park flight claimed rfl rfl (once.filter _) (Graph.unfinished_update (.flight _ _) open')
      node fun started => absurd rfl started⟩

theorem check_step (flight : (s.graph.node k).flight = some f) (claimed : f.stage = .claimed)
    (verifying : (s.graph.node k).status = .verifying)
    (recorded : (s.graph.node k).deps[f.verified]? = some group)
    (checked : s.graph.Checked (s.graph.node k).verifiedAt group) :
    ∃ s', Yields (onNode k fun n => ((), n.verifiedUpTo f.verified)) s () s' ∧
      Step p good roots s s' ∧ s'.control = s.control ∧
      s'.graph.node = Function.update s.graph.node k { s.graph.node k with
        flight := some { f with verified := f.verified + 1 } } := by
  have put := s.graph.put_node k ((s.graph.node k).verifiedUpTo f.verified)
  refine ⟨_, yields_onNode k (fun n => ((), n.verifiedUpTo f.verified)) s,
    .check k f group flight claimed verifying recorded checked put rfl, rfl, put.trans ?_⟩
  simp [Node.verifiedUpTo, flight]

omit [BEq V] in
theorem Hands.verified {i : Nat} (flight : (s.graph.node k).flight = some f)
    (verifying : (s.graph.node k).status = .verifying)
    (node : s₁.graph.node = Function.update s.graph.node k { s.graph.node k with
      flight := some { f with verified := i } })
    (hands : p.Hands k ready s₁ s') : p.Hands k ready s s' := by
  have result (l : Key) : Node.SameResult (s.graph.node l) (s₁.graph.node l) :=
    node ▸ Graph.sameResult_update (.flight _ _) l
  refine hands.of_node (fun l => ?_) (fun l => ?_) (fun l => ?_) ?_
  · rw [node]
    exact Graph.update_congr Node.queued (by simp [Node.queued, flight]) l
  · rw [node]
    exact Graph.update_congr Node.isClaimed (by simp [Node.isClaimed, flight]) l
  · rw [node]
    exact Graph.update_congr Node.starts (by rfl) l
  · have self : s₁.graph.node k = { s.graph.node k with
        flight := some { f with verified := i } } := by rw [node, Function.update_self]
    rintro (computing | ⟨-, outdated⟩)
    · simp [self, verifying] at computing
    · rw [self] at outdated
      exact .inr ⟨verifying, outdated.of_sameResult result⟩

theorem verifyGroups_moves (steady : p.listener.Steady)
    (confined : p.rules.Confined good) {groups : List Group} {f : Flight V} {s : Progress S V}
    (running : s.Running p.version) (live : s.halted = false) (outside : good s.world.outside)
    (flight : (s.graph.node k).flight = some f) (claimed : f.stage = .claimed)
    (verifying : (s.graph.node k).status = .verifying)
    (rest : (s.graph.node k).deps.drop f.verified = groups) :
    ∃ ready s', Yields (p.verifyGroups k (s.graph.node k).verifiedAt f.verified groups) s ready s' ∧
      p.Moves good roots s s' ∧ p.Hands k ready s s' := by
  have upto := running.current.verified k f flight verifying
  -- By recursion on the groups that are left; a step checks the first one.
  induction groups generalizing f s with
  | nil =>
    rw [List.take_of_length_le (List.drop_eq_nil_iff.mp rest)] at upto
    obtain ⟨ready, s', yields, step, hands⟩ :=
      confirm_step steady flight claimed (.inr ⟨verifying, upto⟩)
    exact ⟨ready, s', yields, .single (.step live step), hands⟩
  | cons group groups ih =>
    have recorded : (s.graph.node k).deps[f.verified]? = some group := by
      rw [← List.head?_drop, rest]
      rfl
    obtain ⟨answer, g, first, node, version, verdict⟩ :=
      inspect_yields (s.graph.node k).verifiedAt [] group s
    have same : s.SameState (s.withGraph g) := ⟨node, control_withGraph s version⟩
    generalize s.withGraph g = s₁ at first same
    have flight₁ : (s₁.graph.node k).flight = some f := same.node ▸ flight
    have verifying₁ : (s₁.graph.node k).status = .verifying := same.node ▸ verifying
    have recorded₁ : (s₁.graph.node k).deps[f.verified]? = some group := same.node ▸ recorded
    have shape₁ : s₁.graph.WellFormed := fun l => same.node ▸ running.shape l
    cases answer with
    | changed =>
      obtain ⟨d, inside, finished, newer⟩ := verdict
      have startable : s.graph.Startable k :=
        .inr ⟨verifying, f.verified, group, d, recorded, inside, finished, newer, upto⟩
      obtain ⟨ready, s', second, step, hands⟩ := compute_step (s := s₁) steady confined shape₁
        ((congrArg (good ·.outside) same.control) ▸ outside) flight₁ claimed
        (Graph.startable_of_node same.node ▸ startable)
      exact ⟨ready, s', yields_bind first second, .single (.step live (step.of_sameState same)),
        hands.of_sameState same⟩
    | unfinished keys =>
      obtain ⟨missing, some⟩ := verdict
      rw [List.nil_append, ← Graph.missing_of_node same.node] at missing
      subst missing
      have once := running.distinct.group running.shape verifying recorded
      obtain ⟨ready, s', second, step, hands⟩ :=
        postpone_step steady shape₁ flight₁ claimed verifying₁ recorded₁ once some
      exact ⟨ready, s', yields_bind first second, .single (.step live (step.of_sameState same)),
        hands.of_sameState same⟩
    | unchanged =>
      have checked₁ : s₁.graph.Checked (s₁.graph.node k).verifiedAt group :=
        Graph.checked_of_node same.node ▸ same.node ▸ verdict.2
      obtain ⟨s₂, second, step, control, node⟩ :=
        check_step flight₁ claimed verifying₁ recorded₁ checked₁
      have control : s₂.control = s.control := control.trans same.control
      have step : Step p good roots s s₂ := step.of_sameState same
      have running₂ := step.running running
      have self : s₂.graph.node k = { s.graph.node k with
          flight := some { f with verified := f.verified + 1 } } := by
        rw [node, Function.update_self, same.node]
      have flight₂ : (s₂.graph.node k).flight = some { f with verified := f.verified + 1 } := by
        rw [self]
      have verifying₂ : (s₂.graph.node k).status = .verifying := by
        rw [self]
        exact verifying
      have more : (s₂.graph.node k).deps.drop (f.verified + 1) = groups := by
        rw [self, ← List.drop_drop, rest]
        rfl
      obtain ⟨ready, s', last, moves, hands⟩ := ih running₂
        ((congrArg Control.halted control).trans live) ((congrArg (good ·.outside) control) ▸ outside)
        flight₂ claimed verifying₂ more (running₂.current.verified k _ flight₂ verifying₂)
      rw [self] at last
      exact ⟨ready, s', yields_bind first (yields_bind second last), .head (.step live step) moves,
        (hands.verified flight₁ verifying₁ node).of_sameState same⟩

def claims (p : Pass S V) (k : Key) (s : Progress S V) : List Key :=
  if !p.isStopped s && (s.graph.node k).claim.1.isSome then [k] else []

omit [BEq V] in
theorem outdated_of_claim {g g' : Graph V} (shape : g.WellFormed) {f : Flight V}
    (flight : (g.node k).flight = some f) (queued : f.stage = .queued)
    (node : g'.node = Function.update g.node k (g.node k).claim.2)
    (verifiable : (g.node k).Verifiable) (startable : g'.Startable k) :
    g.Outdated (g.node k).verifiedAt (g.node k).deps := by
  have self : g'.node k = (g.node k).claim.2 := by rw [node, Function.update_self]
  rcases (shape k).claim_cases flight queued with
    ⟨claim, status, -⟩ | ⟨claim, -⟩ | ⟨claim, -⟩
  · rw [claim] at self
    simpa [self, status] using startable.status
  · rw [claim] at self
    rcases startable with computing | ⟨-, outdated⟩
    · simp [self] at computing
    · rw [self] at outdated
      refine outdated.of_sameResult fun l => ?_
      by_cases same : l = k
      · subst same
        rw [self]
        exact .unsettled ((shape l).unfinished_of_flight flight) rfl _ _
      · rw [node, Function.update_of_ne same]
        exact .refl _
  · exact absurd verifiable (Node.not_verifiable_of_compute claim)

structure Dispatches (p : Pass S V) (k : Key) (ready : List Key) (s s' : Progress S V) : Prop where
  queued : ∀ l, (s.graph.node l).queued + ready.count l =
    (s'.graph.node l).queued + (p.claims k s).count l
  claimed : ∀ l, (s'.graph.node l).isClaimed = true →
    p.isStopped s' = true ∨ (s.graph.node l).isClaimed = true
  starts : ∀ l, (s'.graph.node l).starts ≠ (s.graph.node l).starts → l = k ∧
    ((s.graph.node k).Verifiable → s.graph.Outdated (s.graph.node k).verifiedAt (s.graph.node k).deps)

omit [BEq V] in
theorem Dispatches.none (claims : p.claims k s = []) (node : s'.graph.node = s.graph.node) :
    p.Dispatches k [] s s' where
  queued l := by rw [node, claims]
  claimed l inside := .inr (node ▸ inside)
  starts l started := absurd (by rw [node]) started

omit [BEq V] in
theorem Hands.dispatches (shape : s.graph.WellFormed) (flight : (s.graph.node k).flight = some f)
    (queued : f.stage = .queued) (claims : p.claims k s = [k])
    (node : s₁.graph.node = Function.update s.graph.node k (s.graph.node k).claim.2)
    (hands : p.Hands k ready s₁ s') : p.Dispatches k ready s s' where
  queued l := by
    have count := hands.queued l
    rw [claims]
    by_cases same : l = k
    · subst same
      have flight₁ : (s₁.graph.node l).flight = some { f with stage := .claimed } := by
        rw [node, Function.update_self, Node.flight_claim flight queued]
      rw [Node.queued_of_flight flight₁] at count
      rw [Node.queued_of_flight flight, queued, List.count_singleton_self]
      simp only [reduceCtorEq, if_true, if_false] at count ⊢
      omega
    · rw [node, Function.update_of_ne same] at count
      rw [count, List.count_cons_of_ne (Ne.symm same), List.count_nil, Nat.add_zero]
  claimed l inside := by
    rcases hands.claimed l inside with gone | ⟨ne, before⟩
    · exact .inl gone
    · rw [node, Function.update_of_ne ne] at before
      exact .inr before
  starts l started := by
    have claimed : (s₁.graph.node l).starts = (s.graph.node l).starts := by
      by_cases same : l = k
      · subst same
        simp [node]
      · simp [node, same]
    refine (hands.starts l (claimed ▸ started)).imp_right fun startable verifiable => ?_
    exact outdated_of_claim shape flight queued node verifiable startable

theorem work_queued (steady : p.listener.Steady) (confined : p.rules.Confined good)
    (running : s.Running p.version) (outside : good s.world.outside)
    (stopped : p.isStopped s = false) (flight : (s.graph.node k).flight = some f)
    (queued : f.stage = .queued) :
    ∃ ready s', Yields (p.work k) s ready s' ∧ p.Moves good roots s s' ∧
      p.Dispatches k ready s s' := by
  have live : s.halted = false := (Bool.or_eq_false_iff.mp stopped).1
  have going : ¬p.isStopped s = true := by simp [stopped]
  have first := yields_onNode k Node.claim s
  have put := s.graph.put_node k (s.graph.node k).claim.2
  generalize claimed : s.withGraph (s.graph.put k (s.graph.node k).claim.2) = s₁ at first
  have node₁ : s₁.graph.node = Function.update s.graph.node k (s.graph.node k).claim.2 :=
    claimed ▸ put
  have control₁ : s₁.control = s.control := claimed ▸ rfl
  have step : Step p good roots s s₁ := .claim k f flight queued node₁ control₁
  have running₁ := step.running running
  have live₁ : s₁.halted = false := (congrArg Control.halted control₁).trans live
  have outside₁ : good s₁.world.outside := (congrArg (good ·.outside) control₁) ▸ outside
  have flight₁ : (s₁.graph.node k).flight = some { f with stage := .claimed } := by
    rw [node₁, Function.update_self, Node.flight_claim flight queued]
  have dispatches {s' : Progress S V} {ready : List Key} (hands : p.Hands k ready s₁ s')
      (some : (s.graph.node k).claim.1.isSome = true) : p.Dispatches k ready s s' :=
    hands.dispatches running.shape flight queued (by simp [claims, stopped, some]) node₁
  rcases (running.shape k).claim_cases flight queued with
    ⟨task, status, injected⟩ | ⟨task, -⟩ | ⟨task, -⟩ <;> rw [task] at first node₁
  · have self : s₁.graph.Confirmable k := by
      refine .inl ?_
      rw [node₁, Function.update_self]
      exact ⟨status, injected⟩
    obtain ⟨ready, s', second, last, hands⟩ := confirm_step steady flight₁ rfl self
    refine ⟨ready, s', yields_bind (yields_get s) ?_,
      .head (.step live step) (.single (.step live₁ last)), dispatches hands (by rw [task]; rfl)⟩
    rw [if_neg going]
    exact yields_bind first second
  · have verifying : (s₁.graph.node k).status = .verifying := by
      rw [node₁, Function.update_self]
    obtain ⟨ready, s', second, moves, hands⟩ := verifyGroups_moves steady confined running₁ live₁
      outside₁ flight₁ rfl verifying rfl
    refine ⟨ready, s', yields_bind (yields_get s) ?_, .head (.step live step) moves,
      dispatches hands (by rw [task]; rfl)⟩
    rw [if_neg going]
    exact yields_bind first (yields_bind (yields_get s₁) second)
  · have computing : (s₁.graph.node k).status = .computing := by
      rw [node₁, Function.update_self]
    obtain ⟨ready, s', second, last, hands⟩ := compute_step steady confined running₁.shape outside₁
      flight₁ rfl (.inl computing)
    refine ⟨ready, s', yields_bind (yields_get s) ?_,
      .head (.step live step) (.single (.step live₁ last)), dispatches hands (by rw [task]; rfl)⟩
    rw [if_neg going]
    exact yields_bind first second

theorem work_moves (steady : p.listener.Steady) (confined : p.rules.Confined good)
    (k : Key) {s : Progress S V} (running : s.Running p.version) (outside : good s.world.outside) :
    ∃ ready s', Yields (p.work k) s ready s' ∧ p.Moves good roots s s' ∧
      p.Dispatches k ready s s' := by
  cases stopped : p.isStopped s with
  | true =>
    refine ⟨[], s, yields_bind (yields_get s) ?_, .refl, .none (by simp [claims, stopped]) rfl⟩
    rw [if_pos stopped]
    exact yields_pure [] s
  | false =>
    by_cases queued : ∃ f, (s.graph.node k).flight = some f ∧ f.stage = .queued
    · obtain ⟨f, flight, queued⟩ := queued
      exact work_queued steady confined running outside stopped flight queued
    · have idle : (s.graph.node k).claim = (none, s.graph.node k) := by
        cases flight : (s.graph.node k).flight with
        | none => simp [Node.claim, flight]
        | some f =>
          have busy : f.stage ≠ .queued := fun same => queued ⟨f, flight, same⟩
          simp [Node.claim, flight, busy]
      have first := yields_onNode k Node.claim s
      have put := s.graph.put_node k (s.graph.node k).claim.2
      rw [idle] at first put
      have same : (s.graph.put k (s.graph.node k)).node = s.graph.node :=
        put.trans (Function.update_eq_self k _)
      refine ⟨[], s.withGraph (s.graph.put k (s.graph.node k)), yields_bind (yields_get s) ?_,
        .single (.rest ⟨same, rfl⟩), .none (by simp [claims, idle]) same⟩
      rw [if_neg (by simp [stopped])]
      exact yields_bind first (yields_pure [] _)

end

end Pass

end Recompute
