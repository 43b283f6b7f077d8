import Recompute.Proofs.Edges

set_option autoImplicit false

namespace Recompute

variable {S V : Type}

namespace Graph

def WellFormed (g : Graph V) : Prop := ∀ k, (g.node k).WellFormed

structure SameResults (g g' : Graph V) : Prop where
  result : ∀ l, Node.SameResult (g.node l) (g'.node l)
  dependents : ∀ l, (g'.node l).dependents = (g.node l).dependents

theorem Outdated.of_sameResult {g g' : Graph V}
    (same : ∀ l, Node.SameResult (g.node l) (g'.node l)) {verifiedAt : Nat} {deps : List Group}
    (outdated : g'.Outdated verifiedAt deps) : g.Outdated verifiedAt deps := by
  simpa only [Outdated, Checked, (same _).finished, (same _).version] using outdated

theorem wellFormed_update {g : Graph V} (shape : g.WellFormed) {k : Key} {m : Node V}
    (changed : m.WellFormed) (l : Key) : (Function.update g.node k m l).WellFormed :=
  update_all shape changed l

theorem wellFormed_settled {g : Graph V} (shape : g.WellFormed) {k : Key} {m : Node V}
    (renewed : m.WellFormed) : (g.settled k m).WellFormed := by
  intro l
  have put := wellFormed_update shape (k := k) renewed l
  have linked : (((g.put k m).relink k (g.node k).deps m.deps).node l).WellFormed := by
    rw [node_relink, put_node]
    split
    · exact put.addDependent k
    · split
      · exact put.removeDependent k
      · exact put
  have woken (waiters : List Key) : ∀ g : Graph V, (g.node l).WellFormed →
      ((g.wake waiters).2.node l).WellFormed := by
    induction waiters with
    | nil => exact fun g shape => shape
    | cons waiter rest ih =>
      intro g shape
      refine ih (g.transition? waiter Node.countDown).2 ?_
      rw [node_transition?_countDown]
      split
      next same => exact same ▸ shape.countDown
      next => exact shape
  exact woken _ _ linked

theorem wellFormed_parked {g : Graph V} (shape : g.WellFormed) {k : Key} {m : Node V}
    (waiting : m.WellFormed) (awaits : List Key) (l : Key) :
    (g.parked k m awaits l).WellFormed := by
  have put := wellFormed_update shape (k := k) waiting l
  unfold parked
  split
  · exact put.register k
  · exact put

theorem sameResult_update {g : Graph V} {k : Key} {m : Node V}
    (same : Node.SameResult (g.node k) m) (l : Key) :
    Node.SameResult (g.node l) (Function.update g.node k m l) :=
  update_rel Node.SameResult.refl same l

theorem unfinished_update {g : Graph V} {k : Key} {m : Node V}
    (same : Node.SameResult (g.node k) m) {awaits : List Key}
    (missing : ∀ d ∈ awaits, (g.node d).isFinished = false) :
    ∀ d ∈ awaits, (Function.update g.node k m d).isFinished = false := by
  intro d inside
  rw [(sameResult_update same d).finished]
  exact missing d inside

theorem sameResults_update {g g' : Graph V} {k : Key} {m : Node V}
    (node : g'.node = Function.update g.node k m) (result : Node.SameResult (g.node k) m)
    (dependents : m.dependents = (g.node k).dependents) : g.SameResults g' where
  result l := node ▸ sameResult_update result l
  dependents l := node ▸ update_congr Node.dependents dependents l

theorem sameResults_parked {g g' : Graph V} {k : Key} {m : Node V} {awaits : List Key}
    (node : g'.node = g.parked k m awaits) (result : Node.SameResult (g.node k) m)
    (dependents : m.dependents = (g.node k).dependents) : g.SameResults g' where
  result l := by
    rw [node, parked]
    split
    · exact (sameResult_update result l).trans (.register _ _)
    · exact sameResult_update result l
  dependents l := by
    rw [node, parked]
    split
    · rw [Node.dependents_register, update_congr Node.dependents dependents]
    · exact update_congr Node.dependents dependents l

end Graph

namespace Graph

structure Dated (version : Nat) (g : Graph V) : Prop where
  all : ∀ k, (g.node k).verifiedAt ≤ version
  unfinished : ∀ k, (g.node k).isFinished = false → (g.node k).verifiedAt < version

namespace SameResults

variable {g g' : Graph V} (same : g.SameResults g')

include same

theorem linked (linked : g.Linked) : g'.Linked := by
  intro k d
  rw [same.dependents, (same.result k).deps]
  exact linked k d

theorem dated {version : Nat} (dated : g.Dated version) : g'.Dated version where
  all k := by
    rw [(same.result k).verifiedAt]
    exact dated.all k
  unfinished k unfinished := by
    rw [(same.result k).finished] at unfinished
    rw [(same.result k).verifiedAt]
    exact dated.unfinished k unfinished

theorem checked {verifiedAt : Nat} {deps : List Key} (checked : g.Checked verifiedAt deps) :
    g'.Checked verifiedAt deps := by
  intro d inside
  rw [(same.result d).finished, (same.result d).version]
  exact checked d inside

end SameResults

end Graph

variable [BEq V] {p : Pass S V} {good : S → Prop} {roots : List Key} {s s' : Progress S V}

inductive Graph.Results (version : Nat) (g g' : Graph V) : Prop
  | same (same : g.SameResults g')
  | renewed (k : Key) (m : Node V) (unfinished : (g.node k).isFinished = false)
      (shape : m.WellFormed) (renewed : Node.Renewed version (g.node k) m)
      (node : g'.node = (g.settled k m).node)

namespace Graph.Results

variable {g g' : Graph V} {version : Nat} (results : g.Results version g')

include results

theorem linked (linked : g.Linked) : g'.Linked := by
  cases results with
  | same same => exact same.linked linked
  | renewed k m _ _ renewed node =>
    intro x l
    rw [node]
    exact linked_settled linked renewed.dependents x l

theorem dated (dated : g.Dated version) : g'.Dated version := by
  cases results with
  | same same => exact same.dated dated
  | renewed k m _ _ renewed node =>
    constructor
    case all =>
      intro l
      rw [node, (g.settled_sameResult k m l).verifiedAt]
      exact update_all (P := (·.verifiedAt ≤ version)) dated.all (Nat.le_of_eq renewed.verifiedAt) l
    case unfinished =>
      intro l unfinished
      rw [node, (g.settled_sameResult k m l).finished] at unfinished
      rw [node, (g.settled_sameResult k m l).verifiedAt]
      by_cases same : l = k
      · subst same
        simp [renewed.finished] at unfinished
      · simp only [same, Function.update_of_ne, ne_eq, not_false_eq_true] at unfinished ⊢
        exact dated.unfinished l unfinished

theorem finished {l : Key} (finished : (g.node l).isFinished = true) :
    Node.SameResult (g.node l) (g'.node l) := by
  cases results with
  | same same => exact same.result l
  | renewed k m unfinished _ renewed node =>
    have ne : l ≠ k := by
      rintro rfl
      simp [unfinished] at finished
    rw [node]
    simpa [ne] using g.settled_sameResult k m l

theorem checked {verifiedAt : Nat} {deps : List Key} (checked : g.Checked verifiedAt deps) :
    g'.Checked verifiedAt deps := by
  intro d inside
  obtain ⟨finished, dated⟩ := checked d inside
  have same := results.finished finished
  rw [same.finished, same.version]
  exact ⟨finished, dated⟩

end Graph.Results

namespace Step

theorem wellFormed (step : Step p good roots s s') (shape : s.graph.WellFormed)
    (dated : s.graph.Dated p.version) : s'.graph.WellFormed := by
  cases step with
  | enqueue k wanted unfinished idle node control =>
    intro l
    rw [node]
    refine Graph.wellFormed_update shape ?_ l
    exact (shape k).enqueued unfinished idle []
  | claim k f flight queued node control =>
    intro l
    rw [node]
    exact Graph.wellFormed_update shape ((shape k).claim flight queued) l
  | check k f group flight claimed verifying recorded checked node control =>
    intro l
    rw [node]
    refine Graph.wellFormed_update shape ?_ l
    simp only [Node.verifiedUpTo, flight, Option.map_some]
    exact (shape k).verified verifying ((shape k).memo f flight (by simp [verifying]))
  | confirm k f flight claimed cause node control =>
    have status := cause.status
    intro l
    rw [node]
    exact Graph.wellFormed_settled shape ((shape k).confirm status (dated.all k)) l
  | postpone k f group flight claimed verifying recorded some node control =>
    intro l
    rw [node]
    refine Graph.wellFormed_parked shape ?_ _ l
    exact (shape k).verified verifying rfl
  | lose k f flight claimed startable node stopped control =>
    intro l
    rw [node]
    refine Graph.wellFormed_update shape ?_ l
    exact (shape k).started startable.status _ _
  | restart k f result t flight claimed startable attempt some node control =>
    intro l
    rw [node]
    refine Graph.wellFormed_parked shape ?_ _ l
    exact (shape k).started startable.status _ _
  | conclude k f o deps flight claimed startable cause node control =>
    have begun : (s.graph.node k).begun.WellFormed := { shape k with }
    intro l
    rw [node]
    exact Graph.wellFormed_settled shape (begun.commit o deps (dated.all k)) l

inductive Effect (p : Pass S V) (good : S → Prop) (g g' : Graph V) : Prop
  | same (same : g.SameResults g')
  | confirmed (k : Key) (unfinished : (g.node k).isFinished = false)
      (cause : g.Confirmable k)
      (node : g'.node = (g.settled k ((g.node k).confirm p.version).2).node)
  | concluded (k : Key) (f : Flight V) (o : Outcome V) (deps : List Group)
      (unfinished : (g.node k).isFinished = false) (computed : (g.node k).injected = false)
      (flight : (g.node k).flight = some f)
      (cause : (p.rules.get? k.tag = none ∧ o = .error (.direct k (.noRule k.tag)) ∧ deps = []) ∨
        ∃ result t, Attempt p good g k f.memo (.ok result) t ∧ t.absent = [] ∧
          o = t.outcome k result ∧ deps = t.groups)
      (node : g'.node = (g.settled k ((g.node k).begun.commit o deps p.version).2).node)

theorem effect (step : Step p good roots s s') (shape : s.graph.WellFormed) :
    Effect p good s.graph s'.graph := by
  cases step with
  | enqueue k wanted unfinished idle node control =>
    refine .same (Graph.sameResults_update node ?_ rfl)
    exact .flight _ _
  | claim k f flight queued node control =>
    have unfinished := (shape k).unfinished_of_flight flight
    rcases (shape k).claim_cases flight queued with ⟨claim, -⟩ | ⟨claim, -⟩ | ⟨claim, -⟩ <;>
      rw [claim] at node <;> refine .same (Graph.sameResults_update node ?_ rfl)
    · exact .flight _ _
    · exact .unsettled unfinished rfl _ _
    · exact .unsettled unfinished rfl _ _
  | check k f group flight claimed verifying recorded checked node control =>
    refine .same (Graph.sameResults_update node ?_ rfl)
    exact .flight _ _
  | confirm k f flight claimed cause node control =>
    exact .confirmed k ((shape k).unfinished_of_flight flight) cause node
  | postpone k f group flight claimed verifying recorded some node control =>
    refine .same (Graph.sameResults_parked node ?_ rfl)
    exact .flight _ _
  | lose k f flight claimed startable node stopped control =>
    have unfinished := (shape k).unfinished_of_flight flight
    refine .same (Graph.sameResults_update node ?_ rfl)
    exact .resumed unfinished _
  | restart k f result t flight claimed startable attempt some node control =>
    have unfinished := (shape k).unfinished_of_flight flight
    refine .same (Graph.sameResults_parked node ?_ rfl)
    exact .resumed unfinished _
  | conclude k f o deps flight claimed startable cause node control =>
    have computed : (s.graph.node k).injected = false := by
      by_contra given
      have done := ((shape k).injected (by simpa using given)).1
      simpa [done] using startable.status
    exact .concluded k f o deps ((shape k).unfinished_of_flight flight) computed flight cause node

theorem Effect.results {g g' : Graph V} (effect : Effect p good g g')
    (shape : g.WellFormed) (dated : g.Dated p.version) : g.Results p.version g' := by
  cases effect with
  | same same => exact .same same
  | confirmed k unfinished cause node =>
    have status := cause.status
    exact .renewed k _ unfinished ((shape k).confirm status (dated.all k))
      ((shape k).renewed_confirm p.version status) node
  | concluded k f o deps unfinished computed flight cause node =>
    have renewed := Node.renewed_commit (g.node k).begun o deps p.version
    have begun : (g.node k).begun.WellFormed := { shape k with }
    exact .renewed k _ unfinished (begun.commit o deps (dated.all k)) { renewed with } node

theorem results (step : Step p good roots s s') (shape : s.graph.WellFormed)
    (dated : s.graph.Dated p.version) : s.graph.Results p.version s'.graph :=
  (step.effect shape).results shape dated

end Step

end Recompute
