import Recompute.Proofs.Breaking
import Recompute.Proofs.Demand
import Recompute.Proofs.Silence

set_option autoImplicit false

namespace Recompute

variable {S V : Type}

open Relation (ReflTransGen)

open Progress

namespace Graph

structure Touches (g g' : Graph V) (k : Key) : Prop where
  self : (g'.node k).isFinished = true ∨ (g'.node k).isInFlight = true
  others : ∀ l, l ≠ k → Node.SameAttempt (g.node l) (g'.node l) ∧
    (g'.node l).isFinished = (g.node l).isFinished

variable {g g' : Graph V} {k : Key}

theorem Touches.update {m : Node V} (node : g'.node = Function.update g.node k m)
    (self : m.isInFlight = true) : g.Touches g' k where
  self := by simp [node, self]
  others l ne := by
    rw [node, Function.update_of_ne ne]
    exact ⟨.refl _, rfl⟩

theorem Touches.settle (signalled : g.Signalled) {m : Node V}
    (node : g'.node = (g.settled k m).node) (finished : m.isFinished = true) : g.Touches g' k where
  self := by
    rw [node, (g.settled_sameResult k m k).finished, Function.update_self]
    exact .inl finished
  others l ne := by
    rw [node, (g.settled_sameResult k m l).finished, Function.update_of_ne ne]
    exact ⟨sameAttempt_settled (signalled.once _) m ne, rfl⟩

theorem Touches.park {n : Node V} {f : Flight V} {awaits : List Key}
    (node : g'.node = g.parked k n awaits) (result : Node.SameResult (g.node k) n)
    (flight : n.flight = some f) (missing : ∀ d ∈ awaits, (g.node d).isFinished = false) :
    g.Touches g' k where
  self := by
    obtain ⟨-, f', found, -⟩ := parked_self (unfinished_update result missing) flight
    exact .inr (by simp [Node.isInFlight, node, found])
  others l ne := by
    rw [node]
    refine ⟨sameAttempt_parked (unfinished_update result missing) ne, ?_⟩
    unfold parked
    rw [Function.update_of_ne ne]
    split
    · exact (Node.SameResult.register _ _).finished
    · rfl

end Graph

variable [BEq V] {p : Pass S V} {good : S → Prop} {roots : List Key} {s s' : Progress S V}

theorem Step.touches (step : Step p good roots s s') (running : s.Running p.version) :
    ∃ k, s.graph.Touches s'.graph k ∧ ∀ d, ¬ s.graph.Blocked k d := by
  have signalled := running.signalled
  have shape := running.shape
  have open' {k : Key} {f : Flight V} (flight : (s.graph.node k).flight = some f) :=
    (shape k).unfinished_of_flight flight
  have free {k : Key} {f : Flight V} (flight : (s.graph.node k).flight = some f)
      (claimed : f.stage = .claimed) := signalled.not_blocked flight (by simp [claimed])
  cases step with
  | enqueue k wanted unfinished idle node control =>
    exact ⟨k, .update node rfl, by simp [Graph.Blocked, Node.awaits, idle]⟩
  | claim k f flight queued node control =>
    refine ⟨k, .update node ?_, signalled.not_blocked flight (by simp [queued])⟩
    simp [Node.isInFlight, Node.flight_claim flight queued]
  | check k f group flight claimed verifying recorded checked node control =>
    refine ⟨k, .update node ?_, free flight claimed⟩
    simp [Node.isInFlight, Node.verifiedUpTo, flight]
  | confirm k f flight claimed cause node control =>
    have renewed := (shape k).renewed_confirm p.version cause.status
    exact ⟨k, .settle signalled node renewed.finished, free flight claimed⟩
  | postpone k f group flight claimed verifying recorded some node control =>
    exact ⟨k, .park node (.flight _ _) rfl fun d inside => (Graph.mem_missing.mp inside).2,
      free flight claimed⟩
  | lose k f flight claimed startable node stopped control =>
    exact ⟨k, .update node rfl, free flight claimed⟩
  | restart k f result t flight claimed startable attempt some node control =>
    exact ⟨k, .park node (.resumed (open' flight) _) (Node.flight_resumed _ _)
      fun d inside => attempt.absent_unfinished shape inside, free flight claimed⟩
  | conclude k f o deps flight claimed startable cause node control =>
    have renewed := Node.renewed_commit (s.graph.node k).begun o deps p.version
    exact ⟨k, .settle signalled node renewed.finished, free flight claimed⟩

theorem Break.touches {cycle : Cycle} {k : Key} (broken : Break p cycle k s s')
    (running : s.Running p.version) : s.graph.Touches s'.graph k :=
  .settle running.signalled broken.node rfl

theorem Graph.Results.unfinished {g g' : Graph V} {version : Nat} (results : g.Results version g')
    {l : Key} (unfinished : (g'.node l).isFinished = false) :
    Node.SameResult (g.node l) (g'.node l) := by
  cases results with
  | same same => exact same.result l
  | renewed k m _ _ renewed node =>
    have same := g.settled_sameResult k m l
    rw [node] at unfinished ⊢
    rw [same.finished] at unfinished
    by_cases at_k : l = k
    · subst at_k
      rw [Function.update_self, renewed.finished] at unfinished
      simp at unfinished
    · rwa [Function.update_of_ne at_k] at same

namespace Graph

omit [BEq V] in
theorem Locked.blocked {g : Graph V} {cycle : Cycle} (locked : g.Locked cycle) {k : Key}
    (member : k ∈ cycle) : ∃ d, g.Blocked k d := by
  obtain ⟨-, d, inside, awaited⟩ := locked.waits member
  exact ⟨d, awaited, (locked.waits inside).1⟩

end Graph

namespace Progress

structure Tended (p : Pass S V) (g₀ : Graph V) (asked : List Key) (due : List Cycle)
    (s : Progress S V) : Prop where
  running : s.Running p.version
  kept : ∀ k, (s.graph.node k).isFinished = false → Node.SameResult (g₀.node k) (s.graph.node k)
  asked : ∀ k ∈ asked, (s.graph.node k).isFinished = true ∨ (s.graph.node k).isInFlight = true
  due : ∀ cycle ∈ due, s.graph.Locked cycle

namespace Tended

variable {g₀ : Graph V} {asked : List Key} {due : List Cycle}

omit [BEq V] in
theorem of_node (tended : s.Tended p g₀ asked due) (running : s'.Running p.version)
    (node : s'.graph.node = s.graph.node) : s'.Tended p g₀ asked due := by
  constructor
  case running => exact running
  case kept => simpa only [node] using tended.kept
  case asked => simpa only [node] using tended.asked
  case due => simpa only [Graph.Locked, node] using tended.due

omit [BEq V] in
theorem proceed (tended : s.Tended p g₀ asked due) (running : s'.Running p.version) {k : Key}
    (touches : s.graph.Touches s'.graph k)
    (same : ∀ l, (s'.graph.node l).isFinished = false →
      Node.SameResult (s.graph.node l) (s'.graph.node l))
    (apart : ∀ cycle ∈ due, k ∉ cycle) : s'.Tended p g₀ asked due := by
  constructor
  case running => exact running
  case kept =>
    intro l unfinished
    have result := same l unfinished
    exact (tended.kept l (result.finished ▸ unfinished)).trans result
  case asked =>
    intro l inside
    by_cases at_k : l = k
    · exact at_k ▸ touches.self
    · obtain ⟨attempt, finished⟩ := touches.others l at_k
      rw [finished]
      refine (tended.asked l inside).imp_right fun inFlight => ?_
      obtain ⟨f, flight⟩ := Option.isSome_iff_exists.mp inFlight
      obtain ⟨f', flight', -⟩ := attempt.flight f flight
      simp [Node.isInFlight, flight']
  case due =>
    intro cycle found l d next
    have ne : l ≠ k := fun same => apart cycle found (same ▸ next.mem.1)
    obtain ⟨attempt, finished⟩ := touches.others l ne
    rw [finished, attempt.awaits]
    exact tended.due cycle found l d next

omit [BEq V] in
theorem ask (tended : s.Tended p g₀ asked due) {k : Key}
    (busy : (s.graph.node k).isFinished = true ∨ (s.graph.node k).isInFlight = true) :
    s.Tended p g₀ (asked ++ [k]) due :=
  { tended with
    asked := fun l inside => by
      rcases List.mem_append.mp inside with old | new
      · exact tended.asked l old
      · exact List.mem_singleton.mp new ▸ busy }

theorem step (tended : s.Tended p g₀ asked due) (step : Step p good roots s s') :
    s'.Tended p g₀ asked due := by
  have running := tended.running
  obtain ⟨k, touches, free⟩ := step.touches running
  refine tended.proceed (step.running running) touches
    (fun l => (step.results running.shape running.dated).unfinished) fun cycle found member => ?_
  obtain ⟨d, blocked⟩ := (tended.due cycle found).blocked member
  exact free d blocked

theorem moves (tended : s.Tended p g₀ asked due) (moves : p.Moves good roots s s') :
    s'.Tended p g₀ asked due := by
  induction moves with
  | refl => exact tended
  | tail _ move ih =>
    cases move with
    | rest same => exact ih.of_node (ih.running.of_sameState same) same.node
    | step live step => exact ih.step step

theorem breaks (tended : s.Tended p g₀ asked due) {cycle : Cycle} {keys : List Key}
    (breaks : p.Breaks cycle keys s s') (apart : ∀ k ∈ keys, ∀ cycle ∈ due, k ∉ cycle) :
    s'.Tended p g₀ asked due := by
  induction breaks with
  | nil => exact tended
  | skip _ _ ih => exact ih tended fun k inside => apart k (List.mem_cons_of_mem _ inside)
  | @fail k rest s s₁ s' broken _ ih =>
    have running := tended.running
    refine ih (tended.proceed (broken.running running) (broken.touches running) ?_
      (apart k List.mem_cons_self)) fun k inside => apart k (List.mem_cons_of_mem _ inside)
    intro l
    exact (broken.results running).unfinished

end Tended

end Progress

namespace Pass

omit [BEq V] in
theorem isStopped_congr (halted : s'.halted = s.halted)
    (interrupted : s'.world.interrupted = s.world.interrupted) : p.isStopped s' = p.isStopped s := by
  simp [isStopped, World.isInterrupted, halted, interrupted]

theorem work_of_stopped (k : Key) (stopped : p.isStopped s = true) : Yields (p.work k) s [] s := by
  refine yields_bind (yields_get s) ?_
  rw [if_pos stopped]
  exact yields_pure [] s

theorem dispatch_of_stopped (k : Key) (stopped : p.isStopped s = true) : p.dispatch k s = ([], s) :=
  settle_of_yields (work_of_stopped k stopped) []

theorem Breaks.live {cycle : Cycle} {keys : List Key} (breaks : p.Breaks cycle keys s s')
    (live : p.isStopped s' = false) : p.isStopped s = false := by
  induction breaks with
  | nil => exact live
  | skip _ _ ih => exact ih live
  | @fail k rest s s₁ s' broken _ ih =>
    have control := broken.control
    have next := ih live
    unfold Control.committed at control
    split at control
    next => simp at *
    next =>
      split at control
      next =>
        rwa [isStopped_congr (congrArg Control.halted control)
          (congrArg Control.interrupted control)] at next
      next =>
        have halted : s₁.halted = true := congrArg Control.halted control
        simp [isStopped, halted] at next

end Pass

-- A pass in progress, and the records of who drives it: the roots that were asked for, the keys
-- that were handed back for dispatch, those that were claimed, and the cycles that were found but
-- not broken yet.
structure Ledger (S V : Type) where
  state : Progress S V
  asked : List Key := []
  handed : List Key := []
  claimed : List Key := []
  due : List Cycle := []

namespace Pass

-- The calls on a pass, in any order: any key can be dispatched, whether it is ready or not. All of
-- them return; a call that is lost because the listener gives up hands nothing back.
inductive Calls (p : Pass S V) : Ledger S V → Ledger S V → Prop
  | root (l : Ledger S V) (k : Key) {enqueued : Bool} {s : Progress S V}
      (returns : Yields (p.enqueue k) l.state enqueued s) : Calls p l
      { l with
        state := s
        asked := l.asked ++ [k]
        handed := l.handed ++ if enqueued then [k] else [] }
  | run (l : Ledger S V) (k : Key) {ready : List Key} {s : Progress S V}
      (returns : Yields (p.work k) l.state ready s) : Calls p l
      { l with
        state := s
        handed := l.handed ++ ready
        claimed := l.claimed ++ p.claims k l.state }
  | find (l : Ledger S V) (roots : List Key) : Calls p l
      { l with due := l.state.graph.cyclesFrom roots }
  | fail (l : Ledger S V) (cycle : Cycle) (found : cycle ∈ l.due) {ready : List Key}
      {s : Progress S V} (returns : Yields (p.failCycle cycle) l.state ready s) : Calls p l
      { l with
        state := s
        handed := l.handed ++ ready
        due := l.due.erase cycle }
  | interrupt (l : Ledger S V) (h : Handle) : Calls p l
      { l with state := { l.state with world := l.state.world.interrupt h } }
  | outside (l : Ledger S V) (outside : S) : Calls p l
      { l with state := { l.state with world := { l.state.world with outside } } }

theorem Calls.silent {l l' : Ledger S V} (calls : p.Calls l l') : p.silent.Calls l l' := by
  cases calls with
  | root k returns => exact .root l k (p.within_enqueue k _ _ _ returns)
  | run k returns => exact .run l k (p.within_work k _ _ _ returns)
  | find roots => exact .find l roots
  | fail cycle found returns => exact .fail l cycle found (p.within_failCycle cycle _ _ _ returns)
  | interrupt h => exact .interrupt l h
  | outside o => exact .outside l o

inductive Goes (p : Pass S V) (s s' : Progress S V) : Prop
  | change (change : p.Change (fun _ => True) [] s s')
  | enter (k : Key) (unfinished : (s.graph.node k).isFinished = false)
      (idle : (s.graph.node k).flight = none)
      (node : s'.graph.node =
        Function.update s.graph.node k { s.graph.node k with flight := some {} })
      (control : s'.control = { s.control with enqueued := s.enqueued ++ [k] })
  | look (w : World S V) (state : s' = { s with world := w }) (graph : w.graph = s.world.graph)
      (history : w.history = s.world.history)
      (interrupted : ∀ h ∈ s.world.interrupted, h ∈ w.interrupted)

theorem Goes.underway (goes : p.Goes s s') (underway : s.GroundedRun p.version) :
    s'.GroundedRun p.version := by
  cases goes with
  | change change => exact change.underway underway
  | enter k unfinished idle node control =>
    have step : Step p (fun _ => True) [k] s s' :=
      .enqueue k List.mem_cons_self unfinished idle node control
    exact step.underway underway
  | look w state graph =>
    obtain ⟨running, grounded⟩ := underway
    have same : ({ s with world := w } : Progress S V).graph = s.graph := graph
    rw [state]
    exact ⟨⟨same ▸ running.stamp, same ▸ running.shape, same ▸ running.dated, same ▸ running.linked,
      same ▸ running.signalled, same ▸ running.current, same ▸ running.distinct,
      same ▸ running.tracked⟩, same ▸ grounded⟩

theorem underway_of_goes (goes : ReflTransGen p.Goes s s') (underway : s.GroundedRun p.version) :
    s'.GroundedRun p.version := by
  induction goes with
  | refl => exact underway
  | tail _ next ih => exact next.underway ih

theorem goes_of_changes (changes : p.Changes (fun _ => True) [] s s') :
    ReflTransGen p.Goes s s' := ReflTransGen.mono (fun _ _ => Goes.change) _ _ changes

theorem worked_of_yields (steady : p.listener.Steady)
    (confined : p.rules.Confined fun _ => True) (running : s.Running p.version) {k : Key}
    {ready : List Key} (returns : Yields (p.work k) s ready s') :
    p.Moves (fun _ => True) [] s s' ∧ p.Dispatches k ready s s' := by
  obtain ⟨ready', s'', yields, worked⟩ : ∃ ready' s'', Yields (p.work k) s ready' s'' ∧
      p.Moves (fun _ => True) [] s s'' ∧ p.Dispatches k ready' s s'' :=
    work_moves steady confined k running trivial
  obtain ⟨rfl, rfl⟩ := returns.unique yields
  exact worked

theorem broken_of_yields (steady : p.listener.Steady) {cycle : Cycle} {ready : List Key}
    (returns : Yields (p.failCycle cycle) s ready s') : p.Breaks cycle cycle s s' := by
  obtain ⟨ready', s'', yields, breaks, -⟩ := failCycle_breaks steady cycle s
  obtain ⟨rfl, rfl⟩ := returns.unique yields
  exact breaks

theorem Calls.goes {l l' : Ledger S V} (calls : p.Calls l l') (steady : p.listener.Steady)
    (confined : p.rules.Confined fun _ => True) (running : l.state.Running p.version) :
    ReflTransGen p.Goes l.state l'.state := by
  cases calls with
  | root k returns =>
    obtain ⟨b, s', yields, asked⟩ := enqueue_cases steady k l.state
    obtain ⟨rfl, rfl⟩ := returns.unique yields
    rcases asked with ⟨-, same, -⟩ | ⟨-, unfinished, idle, node, control⟩
    · exact .single (.change (.move (.rest same)))
    · exact .single (.enter k unfinished idle node control)
  | run k returns =>
    obtain ⟨moves, -⟩ := worked_of_yields steady confined running returns
    exact goes_of_changes (Moves.changes moves)
  | find roots => exact .refl
  | fail cycle found returns =>
    exact goes_of_changes (broken_of_yields steady returns).changes
  | interrupt h =>
    refine .single (.look _ rfl (World.graph_interrupt _ h) (World.history_interrupt _ h) ?_)
    exact World.interrupted_interrupt _ h
  | outside o => exact .single (.look _ rfl rfl rfl fun _ => id)

end Pass

structure Ledger.Sound (p : Pass S V) (g₀ : Graph V) (l : Ledger S V) : Prop
    extends l.state.Tended p g₀ l.asked l.due where
  once : l.due.flatten.Nodup
  balance : ∀ k, l.handed.count k = l.claimed.count k + (l.state.graph.node k).queued
  free : p.isStopped l.state = false → ∀ k, (l.state.graph.node k).isClaimed = false

namespace Ledger.Sound

variable {g₀ : Graph V} {l l' : Ledger S V}

omit [BEq V] in
theorem stuck (sound : l.Sound p g₀) {cycle : Cycle} (found : cycle ∈ l.due) {k : Key}
    (member : k ∈ cycle) : (l.state.graph.node k).queued = 0 := by
  obtain ⟨d, blocked⟩ := (sound.due cycle found).blocked member
  cases flight : (l.state.graph.node k).flight with
  | none => exact Node.queued_of_idle flight
  | some f =>
    rw [Node.queued_of_flight flight, if_neg]
    intro queued
    exact sound.running.signalled.not_blocked flight (by simp [queued]) d blocked

theorem broken (sound : l.Sound p g₀) {cycle : Cycle} (found : cycle ∈ l.due) {s : Progress S V}
    (breaks : p.Breaks cycle cycle l.state s) {k : Key} (member : k ∈ cycle) :
    Node.SameResult ((l.state.graph.node k).broken cycle p.version) (s.graph.node k) := by
  have once : cycle.Nodup := sound.once.sublist (List.sublist_flatten_of_mem found)
  have stuck : ∀ k ∈ cycle, Pass.Stuck l.state k := by
    intro k member
    obtain ⟨unfinished, d, -, awaited⟩ := (sound.due cycle found).waits member
    exact ⟨unfinished, List.ne_nil_of_mem awaited⟩
  exact (breaks.spared sound.running once stuck).1 k member

omit [BEq V] in
theorem of_graph (sound : l.Sound p g₀) {w : World S V} (graph : w.graph = l.state.world.graph)
    (interrupted : ∀ h ∈ l.state.world.interrupted, h ∈ w.interrupted) :
    ({ l with state := { l.state with world := w } } : Ledger S V).Sound p g₀ := by
  have same : ({ l.state with world := w } : Progress S V).graph = l.state.graph := graph
  have running := sound.running
  constructor
  case toTended =>
    refine sound.toTended.of_node ?_ (congrArg Graph.node same)
    exact ⟨same ▸ running.stamp, same ▸ running.shape, same ▸ running.dated, same ▸ running.linked,
      same ▸ running.signalled, same ▸ running.current, same ▸ running.distinct, same ▸ running.tracked⟩
  case once => exact sound.once
  case balance => exact same ▸ sound.balance
  case free =>
    intro live
    refine same ▸ sound.free ?_
    simp only [Pass.isStopped, World.isInterrupted, Bool.or_eq_false_iff,
      decide_eq_false_iff_not] at live ⊢
    exact ⟨live.1, fun inside => live.2 (interrupted _ inside)⟩

theorem root (sound : l.Sound p g₀) (steady : p.listener.Steady) {k : Key} {enqueued : Bool}
    {s : Progress S V} (returns : Yields (p.enqueue k) l.state enqueued s) :
    ({ l with
        state := s
        asked := l.asked ++ [k]
        handed := l.handed ++ if enqueued then [k] else [] } : Ledger S V).Sound p g₀ := by
  obtain ⟨b, s', yields, step⟩ := Pass.enqueue_cases steady k l.state
  obtain ⟨rfl, rfl⟩ := returns.unique yields
  rcases step with ⟨rfl, same, busy⟩ | ⟨rfl, unfinished, idle, node, control⟩
  · have node := same.node
    constructor
    case toTended =>
      exact (sound.toTended.of_node (sound.running.of_sameState same) node).ask (node ▸ busy)
    case once => exact sound.once
    case balance => simpa [node] using sound.balance
    case free =>
      intro live
      rw [node]
      refine sound.free ?_
      rwa [← Pass.isStopped_congr (congrArg Control.halted same.control)
        (congrArg Control.interrupted same.control)]
  · have step : Step p (fun _ => True) [k] l.state s :=
      .enqueue k List.mem_cons_self unfinished idle node control
    constructor
    case toTended =>
      refine (sound.toTended.step step).ask (.inr ?_)
      simp [node, Node.isInFlight]
    case once => exact sound.once
    case balance =>
      intro x
      have before := sound.balance x
      rw [node]
      by_cases same : x = k
      · subst same
        rw [Node.queued_of_idle idle] at before
        simp [Node.queued, before]
      · simp [same, Ne.symm same, before]
    case free =>
      intro live x
      rw [node]
      by_cases same : x = k
      · subst same
        simp [Node.isClaimed]
      · rw [Function.update_of_ne same]
        refine sound.free ?_ x
        rwa [← Pass.isStopped_congr (congrArg Control.halted control)
          (congrArg Control.interrupted control)]

theorem run (sound : l.Sound p g₀) (steady : p.listener.Steady)
    (confined : p.rules.Confined fun _ => True) {k : Key} {ready : List Key} {s : Progress S V}
    (returns : Yields (p.work k) l.state ready s) :
    ({ l with
        state := s
        handed := l.handed ++ ready
        claimed := l.claimed ++ p.claims k l.state } : Ledger S V).Sound p g₀ := by
  obtain ⟨moves, dispatches⟩ := Pass.worked_of_yields steady confined sound.running returns
  constructor
  case toTended => exact sound.toTended.moves moves
  case once => exact sound.once
  case balance =>
    intro x
    have before := sound.balance x
    have change := dispatches.queued x
    simp only [List.count_append]
    omega
  case free =>
    intro live x
    cases stopped : p.isStopped l.state with
    | true =>
      obtain ⟨-, rfl⟩ := returns.unique (Pass.work_of_stopped k stopped)
      simp [stopped] at live
    | false =>
      by_contra claimed
      rcases dispatches.claimed x (by simpa using claimed) with gone | before
      · simp [live] at gone
      · simp [sound.free stopped x] at before

theorem fail (sound : l.Sound p g₀) (steady : p.listener.Steady) {cycle : Cycle}
    (found : cycle ∈ l.due) {ready : List Key} {s : Progress S V}
    (returns : Yields (p.failCycle cycle) l.state ready s) :
    ({ l with
        state := s
        handed := l.handed ++ ready
        due := l.due.erase cycle } : Ledger S V).Sound p g₀ := by
  obtain ⟨ready', s', yields, breaks, queued⟩ := Pass.failCycle_breaks steady cycle l.state
  obtain ⟨rfl, rfl⟩ := returns.unique yields
  have split : (cycle ++ (l.due.erase cycle).flatten).Nodup :=
    (List.perm_cons_erase found).flatten.nodup_iff.mp sound.once
  obtain ⟨-, once, apart⟩ := List.nodup_append.mp split
  constructor
  case toTended =>
    have later : l.state.Tended p g₀ l.asked (l.due.erase cycle) :=
      { sound.toTended with due := fun c inside => sound.due c (List.mem_of_mem_erase inside) }
    exact later.breaks breaks fun k member c inside other =>
      apart k member k (List.mem_flatten_of_mem inside other) rfl
  case once => exact once
  case balance =>
    intro x
    have change := queued sound.running (fun k member => sound.stuck found member) x
    have before := sound.balance x
    simp only [List.count_append]
    omega
  case free =>
    intro live x
    by_contra claimed
    have before := breaks.claimed x (by simpa using claimed)
    simp [sound.free (breaks.live live) x] at before

omit [BEq V] in
theorem congr (sound : l.Sound p g₀) {p' : Pass S V} (version : p'.version = p.version)
    (handle : p'.handle = p.handle) : l.Sound p' g₀ := by
  have stopped : p'.isStopped l.state = p.isStopped l.state := by simp only [Pass.isStopped, handle]
  constructor
  case toTended => exact { sound.toTended with running := version ▸ sound.running }
  case once => exact sound.once
  case balance => exact sound.balance
  case free => exact stopped ▸ sound.free

theorem calls (sound : l.Sound p g₀) (confined : p.rules.Confined fun _ => True)
    (calls : p.Calls l l') : l'.Sound p g₀ := by
  have silent : l.Sound p.silent g₀ := sound.congr rfl rfl
  refine congr (p := p.silent) ?_ rfl rfl
  cases calls.silent with
  | root k returns => exact silent.root p.silent_steady returns
  | run k returns => exact silent.run p.silent_steady confined returns
  | find roots =>
    obtain ⟨once, locked⟩ := l.state.graph.cyclesFrom_locked roots
    exact { silent with once, due := fun cycle found => (locked cycle found).2 }
  | fail cycle found returns => exact silent.fail p.silent_steady found returns
  | interrupt h => exact silent.of_graph (World.graph_interrupt _ h) (World.interrupted_interrupt _ h)
  | outside o => exact silent.of_graph rfl fun _ => id

end Ledger.Sound

omit [BEq V] in
theorem Graph.Idle.sound {w : World S V} (idle : w.graph.Idle w.graph.version)
    (version : p.version = w.graph.version + 1) :
    ({ state := { world := { w with graph := w.graph.advance } } } : Ledger S V).Sound p w.graph := by
  have flight := idle.idle
  constructor
  case toTended =>
    constructor
    case running => exact version ▸ idle.running
    case kept => exact fun k _ => .refl _
    case asked | due => simp
  case once => exact .nil
  case balance =>
    intro k
    simp [Progress.graph, Node.queued_of_idle (flight k)]
  case free => exact fun _ k => by simp [Node.isClaimed, Progress.graph, flight]

theorem Ledger.Sound.all {g₀ : Graph V} {l l' : Ledger S V} (sound : l.Sound p g₀)
    (confined : p.rules.Confined fun _ => True) (calls : ReflTransGen p.Calls l l') :
    l'.Sound p g₀ := by
  induction calls with
  | refl => exact sound
  | tail _ call ih => exact ih.calls confined call

theorem Ledger.Sound.goes {g₀ : Graph V} {l l' : Ledger S V} (sound : l.Sound p g₀)
    (steady : p.listener.Steady) (confined : p.rules.Confined fun _ => True)
    (calls : ReflTransGen p.Calls l l') : ReflTransGen p.Goes l.state l'.state := by
  induction calls with
  | refl => exact .refl
  | tail before call ih =>
    exact ih.trans (call.goes steady confined (sound.all confined before).running)

namespace Engine

structure Led (e : Engine S V) (p : Pass S V) (l : Ledger S V) : Prop where
  resting : e.world.graph.Resting
  sound : l.Sound p e.world.graph
  begun : Progress.GroundedRun p.version ({ world := e.entry } : Progress S V)
  goes : ReflTransGen p.Goes { world := e.entry } l.state

variable {rules : Rules S V} {listener : Listener} {e : Engine S V} {l l' : Ledger S V}

theorem Led.underway (led : e.Led p l) : l.state.GroundedRun p.version :=
  Pass.underway_of_goes led.goes led.begun

theorem Led.onward (led : e.Led p l) (steady : p.listener.Steady)
    (confined : p.rules.Confined fun _ => True) (calls : ReflTransGen p.Calls l l') :
    e.Led p l' where
  resting := led.resting
  sound := led.sound.all confined calls
  begun := led.begun
  goes := led.goes.trans (led.sound.goes steady confined calls)

theorem Reachable.led (reachable : Reachable rules listener e) (steady : listener.Steady)
    (confined : rules.Confined fun _ => True) {keepGoing : Bool}
    (calls : ReflTransGen (e.pass keepGoing).Calls { state := { world := e.entry } } l) :
    e.Led (e.pass keepGoing) l := by
  obtain ⟨rfl, rfl⟩ := reachable.unchanged
  have resting := reachable.resting steady confined
  have start : e.Led (e.pass keepGoing) { state := { world := e.entry } } := by
    constructor
    case resting => exact resting
    case sound => exact resting.toIdle.sound rfl
    case begun => exact Graph.Resting.underway resting
    case goes => exact .refl
  exact start.onward steady confined calls

end Engine

end Recompute
