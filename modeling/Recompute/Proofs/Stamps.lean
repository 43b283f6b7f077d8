import Recompute.Proofs.Breaking
import Recompute.Proofs.Muting
import Recompute.Proofs.Records
import Recompute.Proofs.Rollback

set_option autoImplicit false

namespace Recompute

variable {S V : Type} [BEq V]

open Progress
open Relation (ReflTransGen)

def Node.Stamped (version : Nat) (n m : Node V) : Prop :=
  m.version = version ∨ m.version = n.version ∧ AlikeAnswer n.cached m.cached

-- A later result is a newer one, or nobody tells it from the former one.
structure Node.Ages (n m : Node V) : Prop where
  version : n.version ≤ m.version
  cached : m.version = n.version → AlikeAnswer n.cached m.cached

namespace Node

variable {version : Nat} {n m l : Node V}

theorem Ages.refl (n : Node V) : Ages n n := ⟨Nat.le_refl _, fun _ => .refl _⟩

theorem Ages.trans (first : Ages n m) (second : Ages m l) : Ages n l where
  version := Nat.le_trans first.version second.version
  cached same := by
    have grows := first.version
    have grows' := second.version
    have between : m.version = n.version := by omega
    exact (first.cached between).trans (second.cached (by omega))

theorem Stamped.refl (version : Nat) (n : Node V) : Stamped version n n := .inr ⟨rfl, .refl _⟩

theorem Stamped.record (stamped : Stamped version n m) (cached : l.cached = m.cached)
    (same : l.version = m.version) : Stamped version n l := by
  unfold Stamped
  rw [cached, same]
  exact stamped

theorem Stamped.result (stamped : Stamped version n m) (same : SameResult m l) :
    Stamped version n l :=
  stamped.record same.cached same.version

theorem Renewed.stamped (same : SameResult n m) (renewed : Renewed version m l) :
    Stamped version n l := by
  apply renewed.changed.imp_right
  rintro ⟨kept, o, o', before, after, alike⟩
  rw [kept, same.version, ← same.cached, before, after]
  exact ⟨rfl, .some alike⟩

theorem Stamped.inject (stamped : Stamped version n m) (v : V) :
    Stamped version n (m.inject v version).2 := by
  obtain ⟨-, -, -, -, -, changed | unchanged⟩ := m.inject_facts v version
  · exact .inl changed.2.2.1
  · obtain ⟨-, -, -, cached, same, -⟩ := unchanged
    exact stamped.record cached same

theorem Stamped.ages (stamped : Stamped version n m) (older : n.version < version) : Ages n m := by
  rcases stamped with new | ⟨same, alike⟩
  · exact ⟨by omega, fun same => by omega⟩
  · exact ⟨Nat.le_of_eq same.symm, fun _ => alike⟩

omit [BEq V] in
theorem WellFormed.settled (shape : n.WellFormed) (settled : n.status.isSettled = true) :
    (∃ v, n.cached = some (.ok v) ∧ n.value? = some v) ∨
      ∃ f, n.cached = some (.error f) ∧ n.failure? = some f := by
  cases status : n.status with
  | fresh | verifying | computing => simp [status, Status.isSettled] at settled
  | done =>
    obtain ⟨v, cached⟩ := shape.done status
    exact .inl ⟨v, cached, by simp [value?, status, cached]⟩
  | failed =>
    obtain ⟨f, cached⟩ := shape.failed status
    exact .inr ⟨f, cached, by simp [failure?, status, cached]⟩

end Node

namespace Graph

variable {version : Nat} {k : Key} {g g' : Graph V} {entered : List Key} {log : List Event}
  {lost : Bool}

theorem WorkEffect.renews (effect : g.WorkEffect version k g' entered log lost) (l : Key) :
    Node.SameResult (g.node l) (g'.node l) ∨ (g.node l).isFinished = false ∧
      ∃ m, Node.Renewed version (g.node l) m ∧ Node.SameResult m (g'.node l) := by
  have renews {m : Node V} (unfinished : (g.node k).isFinished = false)
      (renewed : Node.Renewed version (g.node k) m)
      (result : Node.SameResult (Function.update g.node k m l) (g'.node l)) :
      Node.SameResult (g.node l) (g'.node l) ∨ (g.node l).isFinished = false ∧
        ∃ m, Node.Renewed version (g.node l) m ∧ Node.SameResult m (g'.node l) := by
    by_cases same : l = k
    · subst same
      rw [Function.update_self] at result
      exact .inr ⟨unfinished, m, renewed, result⟩
    · rw [Function.update_of_ne same] at result
      exact .inl result
  cases effect with
  | publish m ending unfinished shape renewed starts node =>
    apply renews unfinished renewed
    rw [node]
    exact g.settled_sameResult k m l
  | drop m ending unfinished shape renewed starts node =>
    apply renews unfinished renewed
    rw [node]
    exact .refl _
  | park f f' n awaits reached entered pending log flight queued carried shape flight' stage enough
      awaits' waiters some missing within source entered' node =>
    exact .inl ((sameResults_parked node carried.result carried.dependents).result l)
  | hang f f' n log flight queued carried shape flight' stage awaits' waiters source node =>
    rw [node]
    exact .inl (sameResult_update carried.result l)

end Graph

namespace Progress

def Dated (version : Nat) (w : World S V) (s : Progress S V) : Prop :=
  ∀ l, Node.SameResult (w.graph.node l) (s.graph.node l) ∨
    (s.graph.node l).isFinished = true ∧
      Node.Stamped version (w.graph.node l) (s.graph.node l)

end Progress

namespace Pass

variable {p : Pass S V} {asked : Key → Prop} {w : World S V} {s s' : Progress S V}

theorem PassStep.dated (act : p.PassStep asked s s') (dated : s.Dated p.version w) :
    s'.Dated p.version w := by
  intro l
  have kept (same : Node.SameResult (s.graph.node l) (s'.graph.node l)) :
      Node.SameResult (w.graph.node l) (s'.graph.node l) ∨ (s'.graph.node l).isFinished = true ∧
        Node.Stamped p.version (w.graph.node l) (s'.graph.node l) := by
    rcases dated l with former | ⟨finished, stamped⟩
    · exact .inl (former.trans same)
    · exact .inr ⟨same.finished.trans finished, stamped.result same⟩
  cases act with
  | rest node =>
    apply kept
    rw [node]
    exact .refl _
  | enter k wanted unfinished idle node =>
    apply kept
    rw [node]
    exact Graph.sameResult_update (.flight _ _) l
  | worked k worked =>
    obtain ⟨effect, -, -, -, -, -⟩ := worked
    rcases effect.renews l with same | ⟨unfinished, m, renewed, same⟩
    · exact kept same
    · have former := (dated l).resolve_right fun finished => by simp [finished.1] at unfinished
      exact .inr ⟨same.finished.trans renewed.finished, (renewed.stamped former).result same⟩

theorem PassSteps.dated (steps : p.PassSteps asked s s') (dated : s.Dated p.version w) :
    s'.Dated p.version w := by
  induction steps with
  | refl => exact dated
  | tail _ act ih => exact act.dated ih

end Pass

namespace Graph

def Ages (g h : Graph V) : Prop := ∀ k, Node.Ages (g.node k) (h.node k)

variable {g h : Graph V}

theorem SameRecords.ages (same : g.SameRecords h) : g.Ages h := by
  intro k
  apply Node.Ages.mk (Nat.le_of_eq (same k).version.symm)
  intro _
  rw [(same k).cached]
  exact .refl _

theorem ages_of_stamped {version later : Nat} (quiescent : g.Quiescent version)
    (newer : version < later)
    (stamped : ∀ k, Node.Stamped later (g.node k) (h.node k)) : g.Ages h := by
  intro k
  apply (stamped k).ages
  have dated := (quiescent.shape k).dated
  have bound := quiescent.dated k
  omega

theorem Quiescent.ages_inject {version : Nat} (quiescent : g.Quiescent version)
    (values : List (Key × V)) :
    g.Ages (g.inject values).2.2 := by
  have newer : version < g.version + 1 := by
    have stamp := quiescent.stamp
    omega
  apply ages_of_stamped quiescent newer
  refine inject_records (P := fun h => ∀ k, Node.Stamped (g.version + 1) (g.node k) (h.node k))
    (fun g₁ g₂ same stamped k => ?_) g (fun k => .refl _ _) (fun g₁ k v stamped l => ?_) values
  · exact (stamped k).record (same k).cached (same k).version
  · have same := sameResult_given g₁ k v (g.version + 1) l
    by_cases at_k : l = k
    · subst at_k
      rw [Function.update_self] at same
      exact ((stamped l).inject v).result same
    · rw [Function.update_of_ne at_k] at same
      exact (stamped l).result same

end Graph

namespace Engine

variable {rules : Rules S V} {listener : Listener} {e : Engine S V}

theorem Reachable.call (reachable : Reachable rules listener e) (c : Call S V) :
    Reachable rules listener (e.call c).2 := by
  cases c with
  | evaluate budget roots keepGoing => exact .evaluate budget roots keepGoing reachable
  | handle => exact reachable
  | interrupt h => exact .interrupt h reachable
  | inject values => exact .inject values reachable
  | invalidate keys => exact .invalidate keys reachable
  | reset => exact .reset reachable
  | outside outside => exact .outside outside reachable
  | reorder order => exact .reorder order reachable

theorem Reachable.calls (reachable : Reachable rules listener e) (cs : List (Call S V)) :
    Reachable rules listener (e.calls cs).2 := by
  induction cs generalizing e with
  | nil => exact reachable
  | cons c rest ih => exact ih (reachable.call c)

theorem Reachable.ages_evaluate (reachable : Reachable rules listener e)
    (confined : rules.Confined fun _ => True) (budget : Nat) (roots : List Key) (keepGoing : Bool) :
    e.world.graph.Ages (e.evaluate budget roots keepGoing).2.world.graph := by
  obtain ⟨s, new, steps, passInv, graph, -⟩ :=
    reachable.evaluate_passInv confined budget roots keepGoing
  have dated := Pass.PassSteps.dated (w := e.entry) steps fun l => .inl (.refl _)
  apply Graph.ages_of_stamped (reachable.quiescent confined) (Nat.lt_succ_self _)
  intro k
  rw [graph, passInv.node_abandon]
  have given := (passInv.shape k).sameResult_abandon
  rcases dated k with same | ⟨-, stamped⟩
  · exact (Node.Stamped.refl _ _).result (same.trans given)
  · exact stamped.result given

theorem Reachable.ages_call (reachable : Reachable rules listener e)
    (confined : rules.Confined fun _ => True) {c : Call S V} (kept : c ≠ .reset) :
    e.world.graph.Ages (e.call c).2.world.graph := by
  have still {g : Graph V} (same : g = e.world.graph) : e.world.graph.Ages g := by
    rw [same]
    exact fun k => .refl _
  cases c with
  | evaluate budget roots keepGoing => exact reachable.ages_evaluate confined budget roots keepGoing
  | handle => exact still rfl
  | interrupt h => exact still (World.graph_interrupt e.world h)
  | inject values =>
    exact (World.graph_inject e.world values).symm ▸ (reachable.quiescent confined).ages_inject
      values
  | invalidate keys =>
    exact (World.graph_invalidate e.world keys).symm ▸
      (e.world.graph.sameRecords_invalidate keys).ages
  | reset => exact absurd rfl kept
  | outside | reorder => exact still rfl

theorem Reachable.ages_calls (reachable : Reachable rules listener e)
    (confined : rules.Confined fun _ => True) {cs : List (Call S V)} (kept : .reset ∉ cs) :
    e.world.graph.Ages (e.calls cs).2.world.graph := by
  induction cs generalizing e with
  | nil => exact fun k => .refl _
  | cons c rest ih =>
    rw [List.mem_cons, not_or] at kept
    have first := reachable.ages_call confined (Ne.symm kept.1)
    have later := ih (reachable.call c) kept.2
    exact fun k => (first k).trans (later k)

-- From one moment between two calls to a later one, with no reset in between, the version of a key
-- never falls; and if it stays the same, so does the result, whichever listener was told and
-- however the passes ended.
theorem Reachable.same_version_same_result [EquivBEq V] (reachable : Reachable rules listener e)
    (confined : rules.Confined fun _ => True) (cs : List (Call S V)) (kept : .reset ∉ cs) (k : Key) :
    let n := e.world.graph.node k
    let m := (e.calls cs).2.world.graph.node k
    n.version ≤ m.version ∧
      (m.version = n.version → n.status.isSettled = true → m.status.isSettled = true →
        (∃ v w, n.value? = some v ∧ m.value? = some w ∧ (v == w) = true) ∨
          ∃ f, n.failure? = some f ∧ m.failure? = some f) := by
  intro n m
  have ages := reachable.ages_calls confined kept k
  apply And.intro ages.version
  intro same settled settled'
  have alike : AlikeAnswer n.cached m.cached := ages.cached same
  have shape : n.WellFormed := (reachable.quiescent confined).shape k
  have shape' : m.WellFormed := ((reachable.calls cs).quiescent confined).shape k
  rcases shape.settled settled with ⟨v, cached, value⟩ | ⟨f, cached, failure⟩ <;>
    rcases shape'.settled settled' with ⟨w, cached', value'⟩ | ⟨f', cached', failure'⟩ <;>
    rw [cached, cached', AlikeAnswer, Option.rel_some_some] at alike
  · exact .inl ⟨v, w, value, value', indistinct_iff.mp alike⟩
  · exact alike.elim
  · exact alike.elim
  · cases alike
    exact .inr ⟨f, failure, failure'⟩

theorem same_version_same_result_detour :
    let a : Key := .only "a"
    let d : Key := .only "d"
    let cs : List (Call Unit Nat) :=
      [.evaluate 1 [a] true, .inject [(d, 7)], .evaluate 20 [a] true]
    let n := detour.world.graph.node a
    let m := (detour.calls cs).2.world.graph.node a
    n.isDirty = true ∧ m.isDirty = false ∧ n.version = m.version ∧
      (detour.evaluate 1 [a] true).1.toOption.isNone = true ∧
      ∃ v w, n.value? = some v ∧ m.value? = some w ∧ (v == w) = true := by
  intro a d cs n m
  have kept := reachable_detour.same_version_same_result (Rules.confined_detour _) cs (by simp [cs]) a
  have same : m.version = n.version := by decide +kernel
  have equal := kept.2 same (by decide +kernel) (by decide +kernel)
  have value : n.failure? = none := by decide +kernel
  refine ⟨by decide +kernel, by decide +kernel, same.symm, by decide +kernel, ?_⟩
  apply equal.resolve_right
  rintro ⟨f, failure, -⟩
  rw [value] at failure
  cases failure

end Engine

end Recompute
