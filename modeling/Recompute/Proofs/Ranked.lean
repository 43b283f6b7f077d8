import Recompute.Proofs.Breaking
import Recompute.Proofs.Reference

set_option autoImplicit false

namespace Recompute

variable {S V : Type} [BEq V] {lower : Key → Key → Prop}

theorem Node.isCyclic_iff {V : Type} {n : Node V} :
    n.isCyclic = true ↔ ∃ cycle, n.cached = some (.error (.cycle cycle)) := by
  unfold Node.isCyclic
  split <;> simp_all

namespace Graph

structure Layered (lower : Key → Key → Prop) (g : Graph V) : Prop where
  deps : ∀ k, ∀ d ∈ (g.node k).deps.flatten, lower d k
  plain : ∀ k, (g.node k).isCyclic = false

def WaitsBelow (lower : Key → Key → Prop) (g : Graph V) : Prop :=
  ∀ k, ∀ d ∈ (g.node k).awaits, lower d k

variable {g g' : Graph V} {k : Key}

omit [BEq V] in
theorem Layered.of_sameRecords (layered : g.Layered lower) (same : g.SameRecords g') :
    g'.Layered lower where
  deps l := by
    rw [(same l).deps]
    exact layered.deps l
  plain l := by simpa [Node.isCyclic, (same l).cached] using layered.plain l

omit [BEq V] in
theorem Layered.renew (layered : g.Layered lower) {m : Node V}
    (same : ∀ l, Node.SameResult (Function.update g.node k m l) (g'.node l))
    (deps : ∀ d ∈ m.deps.flatten, lower d k) (plain : m.isCyclic = false) : g'.Layered lower := by
  have all : ∀ l, (∀ d ∈ (Function.update g.node k m l).deps.flatten, lower d l) ∧
      (Function.update g.node k m l).isCyclic = false :=
    (Function.forall_update_iff g.node fun l n =>
      (∀ d ∈ n.deps.flatten, lower d l) ∧ n.isCyclic = false).mpr
        ⟨⟨deps, plain⟩, fun l _ => ⟨layered.deps l, layered.plain l⟩⟩
  constructor
  case deps =>
    intro l
    rw [(same l).deps]
    exact (all l).1
  case plain =>
    intro l
    simpa [Node.isCyclic, (same l).cached] using (all l).2

theorem Layered.give (layered : g.Layered lower) (k : Key) (v : V) (version : Nat) :
    (g.given k v version).Layered lower := by
  obtain ⟨-, deps, -, -, -, changed⟩ := (g.node k).inject_facts v version
  refine layered.renew (sameResult_given g k v version) (by simp [deps]) ?_
  rcases changed with ⟨-, cached, -⟩ | ⟨-, -, -, cached, -⟩
  · simp [Node.isCyclic, cached]
  · simpa [Node.isCyclic, cached] using layered.plain k

omit [BEq V] in
theorem WaitsBelow.proceed (below : g.WaitsBelow lower)
    (others : ∀ l, l ≠ k → Node.SameAttempt (g.node l) (g'.node l))
    (self : ∀ d ∈ (g'.node k).awaits, lower d k) : g'.WaitsBelow lower := by
  intro l
  by_cases at_k : l = k
  · exact at_k ▸ self
  · rw [(others l at_k).awaits]
    exact below l

omit [BEq V] in
theorem WaitsBelow.update (below : g.WaitsBelow lower) {m : Node V}
    (node : g'.node = Function.update g.node k m) (awaits : m.awaits = (g.node k).awaits) :
    g'.WaitsBelow lower := by
  refine below.proceed (k := k) (fun l ne => ?_) ?_
  · rw [node, Function.update_of_ne ne]
    exact .refl _
  · rw [node, Function.update_self, awaits]
    exact below k

omit [BEq V] in
theorem WaitsBelow.park (below : g.WaitsBelow lower) {n : Node V} {f : Flight V} {awaits : List Key}
    (node : g'.node = g.parked k n awaits) (result : Node.SameResult (g.node k) n)
    (flight : n.flight = some f) (missing : ∀ d ∈ awaits, (g.node d).isFinished = false)
    (lowered : ∀ d ∈ f.awaits, lower d k) : g'.WaitsBelow lower := by
  have open' := unfinished_update result missing
  refine below.proceed (k := k) (fun l ne => ?_) ?_
  · rw [node]
    exact sameAttempt_parked open' ne
  · obtain ⟨-, f', found, -, same, -⟩ := parked_self open' flight
    rw [node, Node.awaits, found, Option.map_some, Option.getD_some, same]
    exact lowered

omit [BEq V] in
theorem WaitsBelow.settle (below : g.WaitsBelow lower) (signalled : g.Signalled) {n : Node V}
    (node : g'.node = (g.settled k n).node) (idle : n.flight = none) : g'.WaitsBelow lower := by
  refine below.proceed (k := k) (fun l ne => ?_) ?_
  · rw [node]
    exact sameAttempt_settled (signalled.once _) n ne
  · rw [node, Node.awaits, flight_settled_self (signalled.once _) idle]
    simp

end Graph

variable {p : Pass S V} {good : S → Prop} {roots : List Key} {s s' : Progress S V}

omit [BEq V] in
theorem Attempt.below {g : Graph V} {k : Key} {memo : Memo V} {result : Except Panic (Except Fault V)}
    {t : Trace V} (attempt : Attempt p good g k memo result t) (ranked : p.rules.Ranked good lower) :
    ∀ d ∈ t.asked, lower d k := by
  obtain ⟨rule, found, plays⟩ := attempt.plays
  exact ranked k rule found _ _ t.reads plays

namespace Step

theorem Effect.layered {g g' : Graph V} (effect : Effect p good g g') (shape : g.WellFormed)
    (ranked : p.rules.Ranked good lower) (layered : g.Layered lower) : g'.Layered lower := by
  cases effect with
  | same same => exact layered.of_sameRecords fun k => (same.result k).record
  | confirmed k unfinished cause node =>
    have status := cause.status
    have same (l : Key) := node ▸ g.settled_sameResult k ((g.node k).confirm p.version).2 l
    refine layered.renew same ?_ ?_ <;> rw [(shape k).confirm_eq status]
    · exact layered.deps k
    · exact layered.plain k
  | concluded k f o deps unfinished computed flight cause node =>
    have same (l : Key) := node ▸
      g.settled_sameResult k ((g.node k).begun.commit o deps p.version).2 l
    refine layered.renew same ?_ ?_
    · rw [Node.deps_commit]
      rcases cause with ⟨-, -, rfl⟩ | ⟨result, t, attempt, -, -, rfl⟩
      · simp
      · exact attempt.tidy.groups.symm ▸ attempt.below ranked
    · rw [Bool.eq_false_iff, Ne, Node.isCyclic_iff, Node.cached_commit]
      rintro ⟨cycle, same⟩
      rcases cause with ⟨-, rfl, -⟩ | ⟨result, t, -, -, rfl, -⟩
      · simp at same
      · exact t.outcome_ne_cycle k result cycle (Option.some.inj same)

theorem waitsBelow (step : Step p good roots s s') (underway : s.GroundedRun p.version)
    (ranked : p.rules.Ranked good lower) (layered : s.graph.Layered lower)
    (below : s.graph.WaitsBelow lower) : s'.graph.WaitsBelow lower := by
  have signalled := underway.signalled
  have shape := underway.shape
  have open' {k : Key} {f : Flight V} (flight : (s.graph.node k).flight = some f) :=
    (shape k).unfinished_of_flight flight
  cases step with
  | enqueue k wanted unfinished idle node control =>
    exact below.update node (by simp [Node.awaits, idle])
  | claim k f flight queued node control =>
    exact below.update node (by simp [Node.awaits, Node.flight_claim flight queued, flight])
  | check k f group flight claimed verifying recorded checked node control =>
    exact below.update node (by simp [Node.awaits, Node.verifiedUpTo, flight])
  | confirm k f flight claimed cause node control =>
    have status := cause.status
    exact below.settle signalled node ((shape k).renewed_confirm p.version status).idle
  | postpone k f group flight claimed verifying recorded some node control =>
    refine below.park node (.flight _ _) rfl (fun d inside => (Graph.mem_missing.mp inside).2) ?_
    intro d inside
    have member := (Graph.mem_missing.mp inside).1
    exact layered.deps k d (List.mem_flatten.mpr ⟨group, List.mem_of_getElem? recorded, member⟩)
  | lose k f flight claimed startable node stopped control =>
    exact below.update node (by simp [Node.awaits, flight])
  | restart k f result t flight claimed startable attempt some node control =>
    refine below.park node (.resumed (open' flight) _) rfl
      (fun d inside => attempt.absent_unfinished shape inside) ?_
    intro d inside
    have absent := attempt.tidy.absent
    change t.absent = t.asked.filter _ at absent
    exact attempt.below ranked d (List.mem_filter.mp (absent ▸ inside)).1
  | conclude k f o deps flight claimed startable cause node control =>
    exact below.settle signalled node
      (Node.renewed_commit (s.graph.node k).begun o deps p.version).idle

end Step

namespace Pass

theorem Move.below (move : p.Move good roots s s') (underway : s.GroundedRun p.version)
    (ranked : p.rules.Ranked good lower) (layered : s.graph.Layered lower)
    (below : s.graph.WaitsBelow lower) : s'.graph.Layered lower ∧ s'.graph.WaitsBelow lower := by
  cases move with
  | rest same =>
    obtain ⟨node, -⟩ := same
    refine ⟨layered.of_sameRecords fun k => node ▸ .refl _, ?_⟩
    unfold Graph.WaitsBelow
    rw [node]
    exact below
  | step live step =>
    exact ⟨(step.effect underway.shape).layered underway.shape ranked layered,
      step.waitsBelow underway ranked layered below⟩

theorem Moves.below (moves : p.Moves good roots s s') (underway : s.GroundedRun p.version)
    (ranked : p.rules.Ranked good lower) (layered : s.graph.Layered lower)
    (below : s.graph.WaitsBelow lower) : s'.graph.Layered lower ∧ s'.graph.WaitsBelow lower := by
  induction moves with
  | refl => exact ⟨layered, below⟩
  | tail earlier move ih => exact move.below (Moves.underway earlier underway) ranked ih.1 ih.2

omit [BEq V] in
theorem not_unblock (founded : WellFounded lower) (below : s.graph.WaitsBelow lower)
    {queue : List Key} {cycles : List Cycle} : p.turn roots queue s ≠ .unblock cycles := by
  -- By induction along `lower` no key is a member, since the one it waits for would be one too.
  intro turn
  obtain ⟨-, -, next⟩ := stuck_of_unblock turn
  obtain ⟨-, -, -, some, same⟩ := turn_unblock turn
  obtain ⟨cycle, found⟩ := List.exists_mem_of_ne_nil cycles some
  have members := ((s.graph.cyclesFrom_sound _).1 cycle (same ▸ found)).1.ne_nil
  have none (k : Key) : k ∉ cycle := by
    induction k using founded.induction with
    | _ k ih =>
      intro member
      obtain ⟨d, inside, awaited⟩ := next cycle found k member
      exact ih d (below k d awaited) inside
  exact members (List.eq_nil_iff_forall_not_mem.mpr none)

theorem Reaches.moves (steady : p.listener.Steady) (confined : p.rules.Confined good)
    (ranked : p.rules.Ranked good lower) (founded : WellFounded lower) {queue : List Key} {w : World S V}
    (reaches : p.Reaches roots w queue s)
    (underway : Progress.GroundedRun p.version ({ world := w } : Progress S V))
    (outside : good w.outside) (layered : w.graph.Layered lower) (below : w.graph.WaitsBelow lower) :
    p.Moves good roots { world := w } s := by
  have start : p.Moves good roots { world := w } (p.enqueueAll roots { world := w }).2 :=
    (enqueueAll_moves steady (List.Subset.refl roots) rfl).1
  have all {turn : List Key × Progress S V}
      (turns : Relation.ReflTransGen (p.Turned roots) (p.enqueueAll roots { world := w }) turn) :
      p.Moves good roots { world := w } turn.2 := by
    induction turns with
    | refl => exact start
    | tail _ turned ih =>
      cases turned with
      | dispatch k rest =>
        exact ih.trans (dispatch_moves steady confined k (ih.underway underway) (ih.outside outside))
      | unblock cycles turn =>
        exact absurd turn (not_unblock founded (Moves.below ih underway ranked layered below).2)
  exact all reaches

end Pass

end Recompute
