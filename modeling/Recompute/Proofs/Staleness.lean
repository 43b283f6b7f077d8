import Recompute.Proofs.Commits

set_option autoImplicit false

namespace Recompute

variable {S V : Type}

open Progress
open Relation (ReflTransGen)

namespace Node

def Doubted (n : Node V) : Prop :=
  n.dirty = .suspect ∧ n.injected = false ∧ ∃ v, n.cached = some (.ok v)

theorem SameResult.doubted {n m : Node V} (same : SameResult n m) : m.Doubted ↔ n.Doubted := by
  simp only [Doubted, same.dirty, same.injected, same.cached]

theorem WellFormed.verifiable_of_doubted {n : Node V} (shape : n.WellFormed) (doubted : n.Doubted)
    (resting : n.status ≠ .computing) : n.Verifiable := by
  obtain ⟨dirty, injected, v, cached⟩ := doubted
  cases status : n.status with
  | fresh => simp [shape.fresh status] at cached
  | verifying => exact .inl status
  | computing => exact absurd status resting
  | done => exact .inr ⟨status, dirty, injected⟩
  | failed => simpa [cached] using shape.failed status

end Node

namespace Graph

def Stale (g : Graph V) (verifiedAt : Nat) (deps : List Key) : Prop :=
  ∃ d ∈ deps, (g.node d).isFinished = true ∧ verifiedAt < (g.node d).version

def Extends (g g' : Graph V) : Prop :=
  ∀ d, (g.node d).isFinished = true → Node.SameResult (g.node d) (g'.node d)

theorem mem_flatten_take {deps : List Group} {d : Key} {n : Nat} :
    d ∈ (deps.take n).flatten ↔ ∃ i group, i < n ∧ deps[i]? = some group ∧ d ∈ group := by
  rw [List.mem_flatten]
  constructor
  · rintro ⟨group, among, inside⟩
    obtain ⟨i, found⟩ := List.mem_iff_getElem?.mp among
    rw [List.getElem?_take] at found
    split at found
    next sooner => exact ⟨i, group, sooner, found, inside⟩
    next => cases found
  · rintro ⟨i, group, sooner, found, inside⟩
    refine ⟨group, List.mem_iff_getElem?.mpr ⟨i, ?_⟩, inside⟩
    rw [List.getElem?_take, if_pos sooner, found]

theorem group_unique {deps : List Group} (once : deps.flatten.Nodup) {d : Key} {i j : Nat}
    {group group' : Group} (found : deps[i]? = some group) (found' : deps[j]? = some group')
    (inside : d ∈ group) (inside' : d ∈ group') : i = j := by
  have apart := List.pairwise_iff_getElem.mp (List.nodup_flatten.mp once).2
  obtain ⟨short, rfl⟩ := List.getElem?_eq_some_iff.mp found
  obtain ⟨short', rfl⟩ := List.getElem?_eq_some_iff.mp found'
  rcases Nat.lt_trichotomy i j with before | same | after
  · exact (apart i j short short' before inside inside').elim
  · exact same
  · exact (apart j i short' short after inside' inside).elim

theorem Current.waits_in_order {g : Graph V} (current : g.Current) (distinct : g.Distinct) {k d : Key}
    {v : V} (cached : (g.node k).cached = some (.ok v)) (verifying : (g.node k).status = .verifying)
    (awaited : d ∈ (g.node k).awaits) :
    d ∈ (g.node k).deps.flatten ∧ ∀ i group, (g.node k).deps[i]? = some group → d ∈ group →
      g.Checked (g.node k).verifiedAt ((g.node k).deps.take i).flatten := by
  obtain ⟨f, flight, awaited⟩ := Node.exists_flight_of_awaited awaited
  have among := current.awaited k f flight verifying d awaited
  obtain ⟨j, group', reached, found', inside'⟩ := mem_flatten_take.mp among
  refine ⟨List.mem_flatten_of_mem (List.mem_of_getElem? found') inside', ?_⟩
  intro i group found inside x earlier
  obtain rfl := group_unique (distinct k v cached) found found' inside inside'
  obtain ⟨j, group, sooner, before, inside⟩ := mem_flatten_take.mp earlier
  exact current.verified k f flight verifying x
    (mem_flatten_take.mpr ⟨j, group, by omega, before, inside⟩)

-- Whoever is computed, though it has a value that may still be right, has something that changed.
def Prompted (g : Graph V) : Prop :=
  ∀ k, (g.node k).Doubted → (g.node k).status = .computing →
    g.Outdated (g.node k).verifiedAt (g.node k).deps

variable {g g' : Graph V} {verifiedAt : Nat} {n₀ : Node V} {k : Key}

theorem Stale.not_checked {deps : List Key} (stale : g.Stale verifiedAt deps) :
    ¬ g.Checked verifiedAt deps := by
  obtain ⟨d, inside, -, changed⟩ := stale
  exact fun checked => Nat.not_le_of_lt changed (checked d inside).2

theorem Outdated.stale {deps : List Group} (outdated : g.Outdated verifiedAt deps) :
    g.Stale verifiedAt deps.flatten := by
  obtain ⟨i, group, d, found, inside, finished, changed, -⟩ := outdated
  exact ⟨d, List.mem_flatten_of_mem (List.mem_of_getElem? found) inside, finished, changed⟩

namespace Extends

variable (extend : g.Extends g')

include extend

theorem stale {deps : List Key} (stale : g.Stale verifiedAt deps) : g'.Stale verifiedAt deps := by
  obtain ⟨d, inside, finished, changed⟩ := stale
  have same := extend d finished
  exact ⟨d, inside, same.finished.trans finished, same.version ▸ changed⟩

theorem checked {deps : List Key} (checked : g.Checked verifiedAt deps) :
    g'.Checked verifiedAt deps := by
  intro d inside
  obtain ⟨finished, old⟩ := checked d inside
  have same := extend d finished
  exact ⟨same.finished.trans finished, same.version ▸ old⟩

theorem outdated {deps : List Group} (outdated : g.Outdated verifiedAt deps) :
    g'.Outdated verifiedAt deps := by
  obtain ⟨i, group, d, found, inside, finished, changed, before⟩ := outdated
  have same := extend d finished
  exact ⟨i, group, d, found, inside, same.finished.trans finished, same.version ▸ changed,
    extend.checked before⟩

end Extends

theorem Prompted.outdated (prompted : g.Prompted) (doubted : (g.node k).Doubted)
    (startable : g.Startable k) : g.Outdated (g.node k).verifiedAt (g.node k).deps :=
  startable.elim (prompted k doubted) And.right

theorem Prompted.stale (prompted : g.Prompted) (shape : g.WellFormed)
    (same : Node.SameResult n₀ (g.node k)) (kept : n₀.injected = true ∨ n₀.Doubted)
    (startable : g.Startable k) : g.Stale n₀.verifiedAt n₀.deps.flatten := by
  rcases kept with injected | doubted
  · have done := ((shape k).injected (same.injected.trans injected)).1
    simpa [done] using startable.status
  · have outdated := prompted.outdated (same.doubted.mpr doubted) startable
    rw [same.verifiedAt, same.deps] at outdated
    exact outdated.stale

end Graph

variable [BEq V] {p : Pass S V} {k : Key} {s s' : Progress S V} {log : List Event}

namespace Pass

namespace Entry

variable (entry : p.Entry k s s' log)

include entry

theorem extends_graph : s.graph.Extends s'.graph := by
  intro d finished
  have ne : d ≠ k := by
    rintro rfl
    simp [entry.unfinished] at finished
  exact (entry.others d ne).result

theorem prompted (shape : s.graph.WellFormed) (prompted : s.graph.Prompted) :
    s'.graph.Prompted := by
  have extend := entry.extends_graph
  intro l doubted computing
  by_cases same : l = k
  · subst same
    have before (result : Node.SameResult (s.graph.node l) (s'.graph.node l))
        (startable : s.graph.Startable l) :
        s'.graph.Outdated (s'.graph.node l).verifiedAt (s'.graph.node l).deps := by
      rw [result.verifiedAt, result.deps]
      exact extend.outdated (prompted.outdated (result.doubted.mp doubted) startable)
    have dirty := doubted.1
    cases entry.account with
    | silent result _ idle =>
      refine before result (.inl ?_)
      by_contra resting
      exact idle computing ((shape l).verifiable_of_doubted (result.doubted.mp doubted) resting)
    | lose result _ startable | restart _ result _ startable => exact before result startable
    | confirm cause node => simp [node.result.dirty, Node.confirm, Node.settle] at dirty
    | conclude o deps startable unregistered plain node =>
      cases o <;>
        simp [node.result.dirty, Node.commit, Node.succeed, Node.fail, Node.settle] at dirty
    | fail cycle node => simp [node.result.dirty, Node.broken, Node.fail, Node.settle] at dirty
  · obtain ⟨result, status⟩ := And.intro (entry.others l same).result (entry.others l same).status
    rw [result.verifiedAt, result.deps]
    exact extend.outdated (prompted l (result.doubted.mp doubted) (status ▸ computing))

end Entry

theorem Goes.prompted (goes : p.Goes s s') (shape : s.graph.WellFormed)
    (prompted : s.graph.Prompted) : s'.graph.Prompted := by
  rcases goes.entry shape with ⟨node, -⟩ | ⟨k, log, entry⟩
  · simpa only [Graph.Prompted, Graph.Outdated, Graph.Checked, node] using prompted
  · exact entry.prompted shape prompted

theorem prompted_of_goes (goes : ReflTransGen p.Goes s s') (underway : s.GroundedRun p.version)
    (prompted : s.graph.Prompted) : s'.graph.Prompted := by
  induction goes with
  | refl => exact prompted
  | tail before next ih => exact next.prompted (underway_of_goes before underway).shape ih

theorem extends_of_goes (goes : ReflTransGen p.Goes s s') (underway : s.GroundedRun p.version) :
    s.graph.Extends s'.graph := by
  intro d finished
  obtain ⟨⟨dependents, node⟩, -⟩ := final_of_goes goes underway finished
  exact Node.Bystander.result ⟨dependents, _, node⟩

end Pass

end Recompute
