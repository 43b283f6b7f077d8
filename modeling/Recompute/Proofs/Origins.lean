import Recompute.Proofs.Breaking
import Recompute.Proofs.Causes
import Recompute.Proofs.Rollback

set_option autoImplicit false

namespace Recompute

variable {S V : Type}

open Progress
open Relation (ReflTransGen reflTransGen_swap)

namespace Graph

variable {g g' : Graph V} {k : Key} {f : Failure}

theorem explained_direct {fault : Fault} (failed : g.Failed k (.direct k fault)) :
    g.Explained k (.direct k fault) where
  attributed := .direct fault
  causes := by
    intro r inside
    cases List.mem_singleton.mp inside
    exact ⟨failed.dooms, _, failed, .inl rfl⟩
  cycles := by simp [Failure.cycles]
  fault := by simp [Failure.fault?, Failure.causes, ownFault_of_failed failed, Failure.kind]

theorem explained_cycle {c : Cycle} (member : k ∈ c)
    (failed : ∀ m ∈ c, g.Failed m (.cycle c)) (ring : ∀ m ∈ c, g.Dooms m k) :
    g.Explained k (.cycle c) where
  attributed := .cycle member
  causes := fun r inside => ⟨ring r inside, _, failed r inside, .inr rfl⟩
  cycles := by
    intro c' inside m member
    cases List.mem_singleton.mp inside
    exact ⟨ring m member, failed m member⟩
  fault := by
    symm
    apply List.findSome?_eq_none_iff.mpr
    intro r inside
    simp [ownFault_of_failed (failed r inside), Failure.kind]

theorem explained_merge {failures : List Failure} (some : failures ≠ [])
    (failed : g.Failed k (.merge failures))
    (each : ∀ f ∈ failures, ∃ d, k ∈ (g.node d).dependents ∧ g.Explained d f) :
    g.Explained k (.merge failures) where
  attributed := by
    obtain ⟨f, inside⟩ := List.exists_mem_of_ne_nil _ some
    obtain ⟨d, -, explained⟩ := each f inside
    obtain ⟨r, cause⟩ := List.exists_mem_of_ne_nil _ explained.attributed.causes
    have cause := Failure.mem_causes_merge.mpr ⟨f, inside, cause⟩
    exact .transitive (List.ne_nil_of_mem cause) (Failure.nodup_causes_merge failures)
  causes := by
    intro r cause
    obtain ⟨f, inside, cause⟩ := Failure.mem_causes_merge.mp cause
    obtain ⟨d, depends, explained⟩ := each f inside
    obtain ⟨dooms, own⟩ := explained.causes r cause
    exact ⟨dooms.tail ⟨depends, _, failed⟩, own⟩
  cycles := by
    intro c carried m member
    obtain ⟨f, inside, carried⟩ := Failure.mem_cycles_merge.mp carried
    obtain ⟨d, depends, explained⟩ := each f inside
    obtain ⟨dooms, own⟩ := explained.cycles c carried m member
    exact ⟨dooms.tail ⟨depends, _, failed⟩, own⟩
  fault := by
    apply Failure.fault?_merge
    intro f inside
    obtain ⟨d, -, explained⟩ := each f inside
    exact explained.fault

theorem Accounted.explained (accounted : g.Accounted []) (failed : g.Failed k f) :
    g.Explained k f :=
  (accounted k f failed).resolve_left not_pending_nil

theorem Accounted.renew (accounted : g.Accounted []) (linked : g.Linked) (linked' : g'.Linked)
    (same : ∀ x, (g.node x).isFinished = true → Node.SameResult (g.node x) (g'.node x))
    (new : (∀ d f, g.Failed d f → g'.Failed d f ∧ g'.Explained d f) →
      ∀ x f, (g.node x).isFinished = false → g'.Failed x f → g'.Explained x f) :
    g'.Accounted [] := by
  have conserves := Conserves.of_finished linked linked' same
  have keep (d : Key) (f : Failure) (failed : g.Failed d f) : g'.Failed d f ∧ g'.Explained d f := by
    have failed' := (failed_congr (same d failed.finished.1)).mpr failed
    apply And.intro failed'
    exact (conserves.explained (accounted.explained failed) failed').resolve_left not_pending_nil
  intro x f failed
  right
  cases finished : (g.node x).isFinished with
  | true => exact (keep x f ((failed_congr (same x finished)).mp failed)).2
  | false => exact new keep x f finished failed

end Graph

variable [BEq V] {p : Pass S V} {good : S → Prop} {roots : List Key} {s s' : Progress S V}

omit [BEq V] in
theorem Graph.Failed.of_settled {g g' : Graph V} {k x : Key} {m : Node V} {f : Failure}
    (failed : g'.Failed x f) (node : g'.node = (g.settled k m).node)
    (unfinished : (g.node x).isFinished = false) : x = k ∧ m.outcome? = some (.error f) := by
  have same := g.settled_sameResult k m x
  rw [Graph.Failed, node, same.outcome?] at failed
  by_cases at_k : x = k
  · subst at_k
    rw [Function.update_self] at failed
    exact ⟨rfl, failed⟩
  · rw [Function.update_of_ne at_k] at failed
    have finished := Graph.Failed.finished failed
    simp [unfinished] at finished

theorem Step.Effect.accounted {g g' : Graph V} (effect : Step.Effect p good g g')
    (accounted : g.Accounted []) (shape : g.WellFormed) (dated : g.Dated p.version)
    (current : g.Current) (linked : g.Linked) : g'.Accounted [] := by
  have results := effect.results shape dated
  have linked' := results.linked linked
  have kept (x : Key) := results.finished (l := x)
  cases effect with
  | same same => exact accounted.same same
  | confirmed k unfinished cause node =>
    have status := cause.status
    refine accounted.renew linked linked' kept fun _ x f open' failed => ?_
    obtain ⟨rfl, outcome⟩ := failed.of_settled node open'
    have cached := (Node.outcome?_eq_some.mp outcome).2
    rw [(shape x).confirm_eq status] at cached
    obtain ⟨v, value⟩ : ∃ v, (g.node x).cached = some (.ok v) :=
      status.elim (fun up => ((shape x).verifying up).2.2) (shape x).done
    cases value.symm.trans cached
  | concluded k f o deps unfinished computed flight cause node =>
    refine accounted.renew linked linked' kept fun keep x e open' failed => ?_
    obtain ⟨rfl, outcome⟩ := failed.of_settled node open'
    have cached := (Node.outcome?_eq_some.mp outcome).2
    rw [Node.cached_commit] at cached
    cases cached
    rcases cause with ⟨-, same, -⟩ | ⟨result, t, attempt, -, same, rfl⟩
    · cases same
      exact Graph.explained_direct failed
    · have groups : t.groups.flatten = t.asked := attempt.tidy.groups
      have read (d : Key) (inside : d ∈ t.asked) : x ∈ (g'.node d).dependents := by
        rw [linked', node, (g.settled_sameResult x _ x).deps, Function.update_self,
          Node.deps_commit, groups]
        exact inside
      unfold Trace.outcome at same
      split at same
      next some =>
        cases same
        refine Graph.explained_merge some failed fun f inside => ?_
        obtain ⟨d, asked, found⟩ := attempt.tidy.failures f inside
        rw [Attempt.known_eq (current.recalled x _ flight), Graph.outcome?_eq] at found
        exact ⟨d, read d asked, (keep d f found).2⟩
      next =>
        cases result with
        | ok v => cases same
        | error fault =>
          cases same
          exact Graph.explained_direct failed

namespace Pass

variable {cycles : List Cycle}

theorem BreaksAll.accounted (breaks : BreaksAll p cycles s s') (running : s.Running p.version)
    (once : cycles.flatten.Nodup) (locked : ∀ c ∈ cycles, s.graph.Locked c)
    (accounted : s.graph.Accounted []) : s'.graph.Accounted [] := by
  have stuck : ∀ k ∈ cycles.flatten, Stuck s k := by
    intro k inside
    obtain ⟨c, found, member⟩ := List.mem_flatten.mp inside
    obtain ⟨unfinished, d, -, awaited⟩ := (locked c found).waits member
    exact ⟨unfinished, List.ne_nil_of_mem awaited⟩
  obtain ⟨members, others⟩ := breaks.spared running once stuck
  have linked' := (breaks.running running).linked
  refine accounted.renew running.linked linked' (fun x finished => ?_) fun _ x f open' now => ?_
  · apply (others x _).result
    intro inside
    simp [(stuck x inside).1] at finished
  · have inside : x ∈ cycles.flatten := by
      by_contra out
      have before := ((Graph.failed_congr (others x out).result).mp now).finished.1
      simp [open'] at before
    obtain ⟨c, found, member⟩ := List.mem_flatten.mp inside
    have failed (m : Key) (member : m ∈ c) : s'.graph.Failed m (.cycle c) := by
      rw [Graph.Failed, (members c found m member).outcome?]
      exact Node.outcome?_eq_some.mpr ⟨rfl, rfl⟩
    have conveys (k d : Key) (next : Cycle.Next c k d) : s'.graph.Conveys d k := by
      refine And.intro ?_ ⟨_, failed k next.mem.1⟩
      rw [linked', (members c found k next.mem.1).deps, Node.deps_broken]
      exact Node.awaits_subset_asked _ (locked c found k d next).2
    cases now.unique (failed x member)
    apply Graph.explained_cycle member failed
    intro m there
    apply And.intro ⟨_, failed m there⟩
    exact reflTransGen_swap.mp (Cycle.leads (R := Function.swap s'.graph.Conveys) conveys member there)

theorem Moves.accounted (moves : p.Moves good roots s s') (underway : s.GroundedRun p.version)
    (accounted : s.graph.Accounted []) : s'.graph.Accounted [] := by
  induction moves with
  | refl => exact accounted
  | @tail s₁ s₂ before move ih =>
    have underway₁ := Moves.underway before underway
    cases move with
    | rest same =>
      apply ih.same
      constructor <;> intro l <;> rw [same.node]
      exact .refl _
    | step live step =>
      exact (step.effect underway₁.shape).accounted ih underway₁.shape underway₁.dated
        underway₁.current underway₁.linked

theorem Turned.accounted {turn turn' : List Key × Progress S V} (steady : p.listener.Steady)
    (confined : p.rules.Confined good) (turned : p.Turned roots turn turn')
    (underway : turn.2.GroundedRun p.version) (outside : good turn.2.world.outside)
    (accounted : turn.2.graph.Accounted []) : turn'.2.graph.Accounted [] := by
  cases turned with
  | @dispatch queue s k rest turn =>
    have moves : p.Moves good roots s (p.dispatch k s).2 :=
      dispatch_moves steady confined k underway outside
    exact moves.accounted underway accounted
  | @unblock queue s cycles turn =>
    obtain ⟨-, -, -, -, found⟩ := turn_unblock turn
    obtain ⟨once, locked⟩ := s.graph.cyclesFrom_locked
      (roots.filter fun root => !s.graph.isFinished root)
    rw [← found] at once locked
    exact (failCycles_breaks steady cycles s).accounted underway.toRunning once
      (fun c inside => (locked c inside).2) accounted

theorem Reaches.accounted {queue : List Key} {w : World S V} (steady : p.listener.Steady)
    (confined : p.rules.Confined good) (reaches : p.Reaches roots w queue s)
    (underway : Progress.GroundedRun p.version ({ world := w } : Progress S V))
    (outside : good w.outside) (accounted : w.graph.Accounted []) : s.graph.Accounted [] := by
  have entered : p.Moves good roots { world := w } (p.enqueueAll roots { world := w }).2 :=
    (enqueueAll_moves steady (List.Subset.refl roots) rfl).1
  have start := entered.accounted underway accounted
  have all {turn : List Key × Progress S V}
      (turns : ReflTransGen (p.Turned roots) (p.enqueueAll roots { world := w }) turn) :
      p.Changes good roots { world := w } turn.2 ∧ turn.2.graph.Accounted [] := by
    induction turns with
    | refl => exact ⟨entered.changes, start⟩
    | tail _ turned ih =>
      obtain ⟨changes, accounted⟩ := ih
      have underway' := changes.underway underway
      have outside' := changes.outside outside
      exact ⟨changes.trans (turned.changes steady confined underway' outside'),
        turned.accounted steady confined underway' outside' accounted⟩
  exact (all reaches).2

end Pass

namespace Engine

variable {rules : Rules S V} {listener : Listener} {e : Engine S V}

theorem Reachable.accounted (reachable : Reachable rules listener e) (steady : listener.Steady)
    (confined : rules.Confined fun _ => True) : e.world.graph.Accounted [] := by
  induction reachable with
  | new => exact Graph.accounted_nil
  | @evaluate e budget roots keepGoing before ih =>
    obtain ⟨queue, s, evaluated⟩ := e.evaluated budget roots keepGoing
    have resting := before.resting steady confined
    obtain ⟨rfl, rfl⟩ := before.unchanged
    obtain ⟨underway, changes⟩ := evaluated.changes steady confined resting trivial
    have accounted := evaluated.reaches.accounted steady confined underway trivial ih.advance
    have running := (changes.underway underway).toRunning
    rw [evaluated.graph]
    apply accounted.same
    constructor <;> intro k <;> rw [running.node_abandon]
    · exact (running.shape k).sameResult_abandon
    · exact (running.shape k).abandon_facts.2.2.1
  | @interrupt e h _ ih => exact (World.graph_interrupt e.world h).symm ▸ ih
  | @inject e values _ ih => exact (World.graph_inject e.world values).symm ▸ ih.inject values
  | @invalidate e keys _ ih =>
    exact (World.graph_invalidate e.world keys).symm ▸ ih.invalidate keys
  | reset => exact Graph.accounted_nil
  | outside | reorder => assumption

-- Between passes each failure that is not in doubt names its causes by its kind, and they hold at
-- that moment: each cause has failed itself, on its own or on a cycle, and each cycle is what all
-- of its members have failed with.
theorem Reachable.causes_stand (reachable : Reachable rules listener e) (steady : listener.Steady)
    (confined : rules.Confined fun _ => True) {k : Key} {f : Failure}
    (clean : (e.world.graph.node k).isDirty = false)
    (failure : (e.world.graph.node k).failure? = some f) :
    (f.kind = .direct ∧ f.causes = [k] ∨
      f.kind = .cycle ∧ (∃ c, f.cycles = [c] ∧ k ∈ c ∧ f.causes = c) ∨
      f.kind = .transitive ∧ f.causes ≠ [] ∧ f.causes.Nodup) ∧
    (∀ r ∈ f.causes, (e.world.graph.node r).isDirty = false ∧
      ∃ f', (e.world.graph.node r).failure? = some f' ∧ (f'.kind = .direct ∨ f'.kind = .cycle)) ∧
    ∀ c ∈ f.cycles, ∀ m ∈ c, (e.world.graph.node m).isDirty = false ∧
      (e.world.graph.node m).failure? = some (.cycle c) := by
  have shape := (reachable.resting steady confined).shape
  have failed := (Graph.failed_iff (shape k)).mpr ⟨clean, failure⟩
  have explained := (reachable.accounted steady confined).explained failed
  refine ⟨?_, fun r cause => ?_, fun c carried m member => ?_⟩
  · cases explained.attributed with
    | direct fault => exact .inl ⟨rfl, rfl⟩
    | cycle member => exact .inr (.inl ⟨rfl, _, rfl, member, rfl⟩)
    | transitive some once => exact .inr (.inr ⟨rfl, some, once⟩)
  · obtain ⟨-, f', own, kind⟩ := explained.causes r cause
    obtain ⟨clean', failure'⟩ := (Graph.failed_iff (shape r)).mp own
    exact ⟨clean', f', failure', kind⟩
  · exact (Graph.failed_iff (shape m)).mp (explained.cycles c carried m member).2

end Engine

def Rules.tangle : Rules Unit Nat :=
  [("y", fun _ => Computation.need (.only "x")),
    ("x", fun _ => .values [.only "a", .only "c"] fun _ => .done (.ok 0)),
    ("a", fun _ => Computation.need (.only "a")),
    ("c", fun _ => return .error (.message "boom"))]

theorem Rules.confined_tangle (good : Unit → Prop) : Rules.tangle.Confined good :=
  forall_cons (fun _ _ => Computation.confined_need _)
    (forall_cons (fun _ _ => .values fun _ => .done _)
      (forall_cons (fun _ _ => Computation.confined_need _)
        (forall_cons (fun _ _ => .done _) forall_nil)))

namespace Engine

def tangle : Engine Unit Nat :=
  let failed := ((new Rules.tangle .steady ()).evaluate 20 [.only "x"] true).2
  ((failed.invalidate [.only "c"]).2.evaluate 20 [.only "y"] true).2

theorem reachable_tangle : Reachable Rules.tangle .steady tangle :=
  .evaluate _ _ _ (.invalidate _ (.evaluate _ _ _ (.new ())))

theorem causes_stand_tangle :
    let a : Key := .only "a"
    let c : Key := .only "c"
    let g := tangle.world.graph
    ∃ f, (g.node (.only "y")).failure? = some f ∧ f.kind = .transitive ∧ f.causes = [a, c] ∧
      f.cycles = [[a]] ∧ (g.node a).isDirty = false ∧ (g.node a).failure? = some (.cycle [a]) ∧
      (g.node c).isDirty = false ∧
      ∃ f', (g.node c).failure? = some f' ∧ (f'.kind = .direct ∨ f'.kind = .cycle) := by
  intro a c g
  have failure : (g.node (.only "y")).failure? =
      some (.transitive [a, c] (some (.message "boom")) [[a]]) := by
    decide +kernel
  obtain ⟨-, causes, cycles⟩ := reachable_tangle.causes_stand (fun _ => rfl)
    (Rules.confined_tangle _) (by decide +kernel) failure
  obtain ⟨clean, cyclic⟩ := cycles [a] List.mem_cons_self a List.mem_cons_self
  obtain ⟨clean', own⟩ := causes c (List.mem_cons_of_mem a List.mem_cons_self)
  exact ⟨_, failure, rfl, rfl, rfl, clean, cyclic, clean', own⟩

end Engine

end Recompute
