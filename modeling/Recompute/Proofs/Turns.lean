import Recompute.Evaluation
import Recompute.Proofs.Tasks

set_option autoImplicit false

namespace Recompute

variable {S V : Type} [BEq V]

open Progress

namespace Progress

omit [BEq V] in
theorem Running.of_sameState {version : Nat} {s s' : Progress S V}
    (running : s.Running version) (same : s.SameState s') : s'.Running version := by
  obtain ⟨node, control⟩ := same
  have missing := Graph.missing_of_node node
  have checked := Graph.checked_of_node node
  have enqueued : s'.enqueued = s.enqueued := congrArg Control.enqueued control
  obtain ⟨stamp, shape, ⟨all, unfinished⟩, linked, ⟨once, listed, counted, registered, waiting, ready⟩,
    ⟨recalled, verified, apart, awaited⟩, distinct, tracked⟩ := running
  constructor
  case stamp => exact (congrArg Control.version control).trans stamp
  case shape => simpa only [Graph.WellFormed, node] using shape
  case dated => constructor <;> simpa only [node]
  case linked => simpa only [Graph.Linked, node] using linked
  case signalled => constructor <;> simpa only [node, missing]
  case current => constructor <;> simpa only [node, checked]
  case distinct => simpa only [Graph.Distinct, node] using distinct
  case tracked => simpa only [node, enqueued] using tracked

omit [BEq V] in
theorem GroundedRun.of_sameState {version : Nat} {s s' : Progress S V}
    (underway : s.GroundedRun version) (same : s.SameState s') : s'.GroundedRun version where
  toRunning := underway.toRunning.of_sameState same
  grounded := by
    have checked := Graph.checked_of_node same.node
    simpa only [Graph.Grounded, same.node, checked] using underway.grounded

end Progress

namespace Pass

variable {p : Pass S V} {good : S → Prop} {roots : List Key} {s s' : Progress S V}

theorem Move.running (move : p.Move good roots s s') (running : s.Running p.version) :
    s'.Running p.version := by
  cases move with
  | rest same => exact running.of_sameState same
  | step live step => exact step.running running

theorem Move.underway (move : p.Move good roots s s') (underway : s.GroundedRun p.version) :
    s'.GroundedRun p.version := by
  cases move with
  | rest same => exact underway.of_sameState same
  | step live step => exact step.underway underway

theorem Moves.underway (moves : p.Moves good roots s s') (underway : s.GroundedRun p.version) :
    s'.GroundedRun p.version := by
  induction moves with
  | refl => exact underway
  | tail _ move ih => exact move.underway ih

theorem Move.outside (move : p.Move good roots s s') (outside : good s.world.outside) :
    good s'.world.outside := by
  cases move with
  | rest same => exact (congrArg (good ·.outside) same.control) ▸ outside
  | step live step =>
    change good s'.control.outside
    cases step with
    | enqueue _ _ _ _ _ control | claim _ _ _ _ _ control | check _ _ _ _ _ _ _ _ _ control
    | confirm _ _ _ _ _ _ control | postpone _ _ _ _ _ _ _ _ _ control =>
      rw [control]
      exact outside
    | lose _ _ _ _ _ _ _ control =>
      obtain ⟨_, _, _, still, -, -, control⟩ := control
      rw [control]
      exact still
    | restart _ _ _ _ _ _ _ _ _ _ control =>
      obtain ⟨_, _, still, -, control⟩ := control
      rw [control]
      exact still
    | conclude _ _ o _ _ _ _ _ _ control =>
      obtain ⟨_, _, still, -, control⟩ := control
      rw [control, Control.outside_committed]
      exact still

theorem Moves.outside (moves : p.Moves good roots s s') (outside : good s.world.outside) :
    good s'.world.outside := by
  induction moves with
  | refl => exact outside
  | tail _ move ih => exact move.outside ih

omit [BEq V] in
theorem enqueue_cases (steady : p.listener.Steady) (k : Key) (s : Progress S V) :
    ∃ b s', Yields (p.enqueue k) s b s' ∧
      (b = false ∧ s.SameState s' ∧
          ((s.graph.node k).isFinished = true ∨ (s.graph.node k).isInFlight = true) ∨
        b = true ∧ (s.graph.node k).isFinished = false ∧ (s.graph.node k).flight = none ∧
          s'.graph.node = Function.update s.graph.node k { s.graph.node k with flight := some {} } ∧
          s'.control = { s.control with enqueued := s.enqueued ++ [k] }) := by
  have first := yields_onNode k Node.enqueue s
  have put := s.graph.put_node k (s.graph.node k).enqueue.2
  rcases (s.graph.node k).enqueue_cases with ⟨still, busy⟩ | ⟨queued, unfinished, idle⟩
  · rw [still] at first put
    exact ⟨false, _, yields_bind first (yields_pure _ _),
      .inl ⟨rfl, ⟨put.trans (Function.update_eq_self k _), rfl⟩, busy⟩⟩
  · rw [queued] at first put
    have second := yields_announce steady k
      (s.withGraph (s.graph.put k { s.graph.node k with flight := some {} }))
    exact ⟨true, _, yields_bind first (yields_bind second (yields_pure _ _)),
      .inr ⟨rfl, unfinished, idle, put, rfl⟩⟩

theorem enqueue_moves (steady : p.listener.Steady) {k : Key} (wanted : k ∈ roots)
    (live : s.halted = false) :
    ∃ b s', Yields (p.enqueue k) s b s' ∧ p.Moves good roots s s' ∧ s'.halted = false := by
  obtain ⟨b, s', yields, ⟨-, same, -⟩ | ⟨-, unfinished, idle, node, control⟩⟩ :=
    enqueue_cases steady k s
  · exact ⟨b, s', yields, .single (.rest same), (congrArg Control.halted same.control).trans live⟩
  · exact ⟨b, s', yields, .single (.step live (.enqueue k wanted unfinished idle node control)),
      (congrArg Control.halted control).trans live⟩

theorem enqueueAll_moves (steady : p.listener.Steady) {keys : List Key} (wanted : keys ⊆ roots)
    (live : s.halted = false) :
    p.Moves good roots s (p.enqueueAll keys s).2 ∧ (p.enqueueAll keys s).2.halted = false := by
  induction keys generalizing s with
  | nil => exact ⟨.refl, live⟩
  | cons root rest ih =>
    obtain ⟨here, rest'⟩ := List.cons_subset.mp wanted
    obtain ⟨b, s₁, yields, moves, live₁⟩ : ∃ b s₁, Yields (p.enqueue root) s b s₁ ∧
        p.Moves good roots s s₁ ∧ s₁.halted = false := enqueue_moves steady here live
    obtain ⟨others, live₂⟩ := ih rest' live₁
    have settled := settle_of_yields yields false
    have next : (p.enqueueAll (root :: rest) s).2 = (p.enqueueAll rest s₁).2 := by
      simp only [enqueueAll, settled]
    rw [next]
    exact ⟨moves.trans others, live₂⟩

theorem dispatch_moves (steady : p.listener.Steady) (confined : p.rules.Confined good)
    (k : Key) (underway : s.GroundedRun p.version) (outside : good s.world.outside) :
    p.Moves good roots s (p.dispatch k s).2 := by
  obtain ⟨ready, s', yields, moves, -⟩ := work_moves steady confined k underway.toRunning outside
  rw [show p.dispatch k s = (ready, s') from settle_of_yields yields []]
  exact moves

inductive Breaks (p : Pass S V) (cycle : Cycle) : List Key → Progress S V → Progress S V → Prop
  | nil (s : Progress S V) : Breaks p cycle [] s s
  | skip {k : Key} {rest : List Key} {s s' : Progress S V}
      (gone : s.graph.get? k = none ∨ (s.graph.node k).isFinished = true) :
      Breaks p cycle rest s s' → Breaks p cycle (k :: rest) s s'
  | fail {k : Key} {rest : List Key} {s s' s'' : Progress S V} :
      Break p cycle k s s' → Breaks p cycle rest s' s'' → Breaks p cycle (k :: rest) s s''

inductive BreaksAll (p : Pass S V) : List Cycle → Progress S V → Progress S V → Prop
  | nil (s : Progress S V) : BreaksAll p [] s s
  | cons {cycle : Cycle} {rest : List Cycle} {s s' s'' : Progress S V} :
      Breaks p cycle cycle s s' → BreaksAll p rest s' s'' → BreaksAll p (cycle :: rest) s s''

inductive Turned (p : Pass S V) (roots : List Key) :
    List Key × Progress S V → List Key × Progress S V → Prop
  | dispatch {queue : List Key} {s : Progress S V} (k : Key) (rest : List Key)
      (turn : p.turn roots queue s = .dispatch k rest) :
      Turned p roots (queue, s) (rest ++ (p.dispatch k s).1, (p.dispatch k s).2)
  | unblock {queue : List Key} {s : Progress S V} (cycles : List Cycle)
      (turn : p.turn roots queue s = .unblock cycles) :
      Turned p roots (queue, s) (p.failCycles cycles s)

def Reaches (p : Pass S V) (roots : List Key) (w : World S V) (queue : List Key)
    (s : Progress S V) : Prop :=
  Relation.ReflTransGen (p.Turned roots) (p.enqueueAll roots { world := w }) (queue, s)

theorem Reaches.start (p : Pass S V) (roots : List Key) (w : World S V) :
    p.Reaches roots w (p.enqueueAll roots { world := w }).1 (p.enqueueAll roots { world := w }).2 :=
  .refl

theorem Reaches.dispatch {w : World S V} {queue : List Key} (reaches : p.Reaches roots w queue s)
    (k : Key) (rest : List Key) (turn : p.turn roots queue s = .dispatch k rest) :
    p.Reaches roots w (rest ++ (p.dispatch k s).1) (p.dispatch k s).2 :=
  reaches.tail (.dispatch k rest turn)

theorem drain_turned (roots : List Key) (budget : Nat) (queue : List Key) (s : Progress S V) :
    ∃ queue', Relation.ReflTransGen (p.Turned roots) (queue, s)
        (queue', (p.drain roots budget queue s).2) ∧
      ((p.drain roots budget queue s).1 = .ok () →
        p.turn roots queue' (p.drain roots budget queue s).2 = .stop) ∧
      ∀ a, (p.drain roots budget queue s).1 = .error a → a = .exhausted ∨
        ∃ keys, a = .stalled keys ∧
          p.turn roots queue' (p.drain roots budget queue s).2 = .stall keys := by
  induction budget generalizing queue s with
  | zero => exact ⟨queue, .refl, by simp [drain], by simp [drain]⟩
  | succ budget ih =>
    cases turn : p.turn roots queue s with
    | stop =>
      have drained : p.drain roots (budget + 1) queue s = (.ok (), s) := by simp only [drain, turn]
      rw [drained]
      exact ⟨queue, .refl, fun _ => turn, by simp⟩
    | stall unfinished =>
      have drained : p.drain roots (budget + 1) queue s = (.error (.stalled unfinished), s) := by
        simp only [drain, turn]
      rw [drained]
      refine ⟨queue, .refl, by simp, fun a failed => .inr ⟨unfinished, ?_, turn⟩⟩
      exact (Except.error.inj failed).symm
    | dispatch k rest =>
      obtain ⟨queue', turned, stops⟩ := ih (rest ++ (p.dispatch k s).1) (p.dispatch k s).2
      have drained : p.drain roots (budget + 1) queue s =
          p.drain roots budget (rest ++ (p.dispatch k s).1) (p.dispatch k s).2 := by
        simp only [drain, turn]
      rw [drained]
      exact ⟨queue', .head (.dispatch k rest turn) turned, stops⟩
    | unblock cycles =>
      obtain ⟨queue', turned, stops⟩ := ih (p.failCycles cycles s).1 (p.failCycles cycles s).2
      have drained : p.drain roots (budget + 1) queue s =
          p.drain roots budget (p.failCycles cycles s).1 (p.failCycles cycles s).2 := by
        simp only [drain, turn]
      rw [drained]
      exact ⟨queue', .head (.unblock cycles turn) turned, stops⟩

theorem failMembers_breaks (steady : p.listener.Steady) (cycle : Cycle) (keys : List Key)
    (s : Progress S V) : ∃ ready s', Yields (p.failMembers cycle keys) s ready s' ∧
      Breaks p cycle keys s s' ∧
      ∀ l, l ∉ keys → (s.graph.node l).queued + ready.count l = (s'.graph.node l).queued := by
  induction keys generalizing s with
  | nil => exact ⟨[], s, yields_pure [] s, .nil s, fun _ _ => rfl⟩
  | cons k rest ih =>
    cases found : s.graph.get? k with
    | none =>
      obtain ⟨ready, s', yields, breaks, queued⟩ := ih s
      refine ⟨[] ++ ready, s', yields_bind (yields_get s) ?_, .skip (.inl found) breaks,
        fun l out => queued l (List.not_mem_of_not_mem_cons out)⟩
      simp only [found]
      exact yields_bind (yields_pure [] s) (yields_bind yields (yields_pure _ _))
    | some n =>
      have node := Graph.node_of_get? found
      cases finished : n.isFinished with
      | true =>
        obtain ⟨ready, s', yields, breaks, queued⟩ := ih s
        refine ⟨[] ++ ready, s', yields_bind (yields_get s) ?_, .skip (.inr (node ▸ finished)) breaks,
          fun l out => queued l (List.not_mem_of_not_mem_cons out)⟩
        simp only [found, finished, if_true]
        exact yields_bind (yields_pure [] s) (yields_bind yields (yields_pure _ _))
      | false =>
        obtain ⟨s₁, first, graph, control⟩ := fail_yields steady k (.cycle cycle)
          (if n.asked = [] then [] else [n.asked]) s
        obtain ⟨others, s', second, breaks, queued⟩ := ih s₁
        have broken : Break p cycle k s s₁ := by
          subst node
          exact ⟨finished, by rw [graph], control⟩
        have roused := s.graph.queued_settled k ((s.graph.node k).fail (.cycle cycle)
          (if n.asked = [] then [] else [n.asked]) p.version).2
        rw [← graph] at roused
        generalize s.graph.roused k _ = ready at first roused
        refine ⟨ready ++ others, s', yields_bind (yields_get s) ?_, .fail broken breaks,
          fun l out => ?_⟩
        · simp only [found, finished]
          exact yields_bind first (yields_bind second (yields_pure _ _))
        · have here := roused l
          rw [Function.update_of_ne (List.ne_of_not_mem_cons out)] at here
          rw [List.count_append, ← queued l (List.not_mem_of_not_mem_cons out), ← here]
          omega

namespace Breaks

variable {cycle : Cycle} {keys : List Key}

theorem running (breaks : Breaks p cycle keys s s') (running : s.Running p.version) :
    s'.Running p.version := by
  induction breaks with
  | nil => exact running
  | skip _ _ ih => exact ih running
  | fail broken _ ih => exact ih (broken.running running)

theorem idle (breaks : Breaks p cycle keys s s') (running : s.Running p.version) (l : Key)
    (idle : l ∈ keys ∨ (s.graph.node l).flight = none) : (s'.graph.node l).flight = none := by
  induction breaks with
  | nil => exact idle.resolve_left (by simp)
  | @skip k rest s s' gone _ ih =>
    refine ih running ?_
    rcases idle with member | idle
    · rcases List.mem_cons.mp member with rfl | member
      · rcases gone with none | finished
        · exact .inr (by simp [Graph.node, none])
        · exact .inr ((running.shape l).finished finished).1
      · exact .inl member
    · exact .inr idle
  | @fail k rest s s₁ s' broken _ ih =>
    refine ih (broken.running running) ?_
    by_cases same : l = k
    · subst same
      right
      rw [broken.node]
      exact Graph.flight_settled_self (running.signalled.once _) rfl
    · refine (idle.imp_left fun member => (List.mem_cons.mp member).resolve_left same).imp_right ?_
      intro idle
      have inFlight := Graph.isInFlight_settled (running.signalled.once k)
        ((s.graph.node k).fail (.cycle cycle)
          (if (s.graph.node k).asked = [] then [] else [(s.graph.node k).asked]) p.version).2 l
      rw [Function.update_of_ne same, ← broken.node] at inFlight
      simpa [Node.isInFlight, idle] using inFlight

theorem claimed (breaks : Breaks p cycle keys s s') (l : Key)
    (inside : (s'.graph.node l).isClaimed = true) : (s.graph.node l).isClaimed = true := by
  induction breaks with
  | nil => exact inside
  | skip _ _ ih => exact ih inside
  | @fail k rest s s₁ s' broken _ ih =>
    have before := ih inside
    rw [broken.node, Graph.isClaimed_settled] at before
    by_cases same : l = k
    · subst same
      simp [Node.isClaimed, Node.fail, Node.settle] at before
    · rwa [Function.update_of_ne same] at before

end Breaks

theorem failCycle_breaks (steady : p.listener.Steady) (cycle : Cycle) (s : Progress S V) :
    ∃ ready s', Yields (p.failCycle cycle) s ready s' ∧ Breaks p cycle cycle s s' ∧
      (s.Running p.version → (∀ k ∈ cycle, (s.graph.node k).queued = 0) →
        ∀ l, (s.graph.node l).queued + ready.count l = (s'.graph.node l).queued) := by
  obtain ⟨ready, s', yields, breaks, queued⟩ := failMembers_breaks steady cycle cycle s
  refine ⟨_, s', yields_bind yields (yields_pure _ _), breaks, fun running stuck l => ?_⟩
  by_cases member : l ∈ cycle
  · have none : (ready.filter (· ∉ cycle)).count l = 0 :=
      List.count_eq_zero.mpr fun inside => by simp [member] at inside
    rw [none, stuck l member, Node.queued_of_idle (breaks.idle running l (.inl member))]
  · rw [List.count_filter (by simpa using member)]
    exact queued l member

theorem failCycles_breaks (steady : p.listener.Steady) (cycles : List Cycle) (s : Progress S V) :
    BreaksAll p cycles s (p.failCycles cycles s).2 := by
  induction cycles generalizing s with
  | nil => exact .nil s
  | cons cycle rest ih =>
    obtain ⟨ready, s', failed, breaks, -⟩ := failCycle_breaks steady cycle s
    have settled := settle_of_yields failed []
    have next : (p.failCycles (cycle :: rest) s).2 = (p.failCycles rest s').2 := by
      simp only [failCycles, settled]
    rw [next]
    exact .cons breaks (ih s')

inductive Change (p : Pass S V) (good : S → Prop) (roots : List Key) (s s' : Progress S V) : Prop
  | move (move : p.Move good roots s s')
  | fail (cycle : Cycle) (k : Key) (broken : Break p cycle k s s')

abbrev Changes (p : Pass S V) (good : S → Prop) (roots : List Key) :
    Progress S V → Progress S V → Prop :=
  Relation.ReflTransGen (p.Change good roots)

theorem Change.underway (change : p.Change good roots s s') (underway : s.GroundedRun p.version) :
    s'.GroundedRun p.version := by
  cases change with
  | move move => exact move.underway underway
  | fail cycle k broken => exact broken.underway underway

theorem Change.outside (change : p.Change good roots s s') (outside : good s.world.outside) :
    good s'.world.outside := by
  cases change with
  | move move => exact move.outside outside
  | fail cycle k broken =>
    change good s'.control.outside
    rw [broken.control, Control.outside_committed]
    exact outside

theorem Changes.underway (changes : p.Changes good roots s s')
    (underway : s.GroundedRun p.version) : s'.GroundedRun p.version := by
  induction changes with
  | refl => exact underway
  | tail _ change ih => exact change.underway ih

theorem Changes.outside (changes : p.Changes good roots s s') (outside : good s.world.outside) :
    good s'.world.outside := by
  induction changes with
  | refl => exact outside
  | tail _ change ih => exact change.outside ih

theorem Moves.changes (moves : p.Moves good roots s s') : p.Changes good roots s s' := by
  induction moves with
  | refl => exact .refl
  | tail _ move ih => exact ih.tail (.move move)

theorem Breaks.changes {cycle : Cycle} {keys : List Key} (breaks : Breaks p cycle keys s s') :
    p.Changes good roots s s' := by
  induction breaks with
  | nil => exact .refl
  | skip _ _ ih => exact ih
  | fail broken _ ih => exact .head (.fail _ _ broken) ih

theorem BreaksAll.changes {cycles : List Cycle} (breaks : BreaksAll p cycles s s') :
    p.Changes good roots s s' := by
  induction breaks with
  | nil => exact .refl
  | cons breaks _ ih => exact breaks.changes.trans ih

theorem BreaksAll.running {cycles : List Cycle} (breaks : BreaksAll p cycles s s')
    (running : s.Running p.version) : s'.Running p.version := by
  induction breaks with
  | nil => exact running
  | cons breaks _ ih => exact ih (breaks.running running)

theorem BreaksAll.underway {cycles : List Cycle} (breaks : BreaksAll p cycles s s')
    (underway : s.GroundedRun p.version) : s'.GroundedRun p.version := by
  have changes : p.Changes (fun _ => True) [] s s' := breaks.changes
  exact changes.underway underway

theorem Turned.changes (steady : p.listener.Steady) (confined : p.rules.Confined good)
    {turn turn' : List Key × Progress S V} (turned : p.Turned roots turn turn')
    (underway : turn.2.GroundedRun p.version) (outside : good turn.2.world.outside) :
    p.Changes good roots turn.2 turn'.2 := by
  cases turned with
  | dispatch k rest => exact (dispatch_moves steady confined k underway outside).changes
  | unblock cycles => exact (failCycles_breaks steady cycles _).changes

theorem Reaches.changes (steady : p.listener.Steady) (confined : p.rules.Confined good)
    {queue : List Key} {w : World S V} (reaches : p.Reaches roots w queue s)
    (underway : Progress.GroundedRun p.version ({ world := w } : Progress S V))
    (outside : good w.outside) : p.Changes good roots { world := w } s := by
  have start : p.Changes good roots { world := w } (p.enqueueAll roots { world := w }).2 :=
    (enqueueAll_moves steady (List.Subset.refl roots) rfl).1.changes
  have all {turn : List Key × Progress S V}
      (turns : Relation.ReflTransGen (p.Turned roots) (p.enqueueAll roots { world := w }) turn) :
      p.Changes good roots { world := w } turn.2 := by
    induction turns with
    | refl => exact start
    | tail _ turned ih =>
      exact ih.trans (turned.changes steady confined (ih.underway underway) (ih.outside outside))
  exact all reaches

end Pass

end Recompute
