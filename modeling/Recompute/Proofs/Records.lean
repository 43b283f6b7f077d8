import Recompute.Proofs.Resting
import Recompute.Proofs.Sweep

set_option autoImplicit false

namespace Recompute

variable {V : Type}

namespace Node

structure SameRecord (n m : Node V) : Prop where
  cached : m.cached = n.cached
  deps : m.deps = n.deps
  version : m.version = n.version
  verifiedAt : m.verifiedAt = n.verifiedAt
  injected : m.injected = n.injected
  changed : n.dirty = .changed → m.dirty = .changed

theorem SameRecord.refl (n : Node V) : SameRecord n n :=
  ⟨rfl, rfl, rfl, rfl, rfl, id⟩

theorem SameRecord.trans {n m l : Node V} (first : SameRecord n m) (second : SameRecord m l) :
    SameRecord n l where
  cached := second.cached.trans first.cached
  deps := second.deps.trans first.deps
  version := second.version.trans first.version
  verifiedAt := second.verifiedAt.trans first.verifiedAt
  injected := second.injected.trans first.injected
  changed changed := second.changed (first.changed changed)

theorem SameResult.record {n m : Node V} (same : SameResult n m) : SameRecord n m :=
  ⟨same.cached, same.deps, same.version, same.verifiedAt, same.injected,
    fun changed => same.dirty.trans changed⟩

theorem WellFormed.record_abandon {n : Node V} (shape : n.WellFormed) : SameRecord n n.abandon := by
  obtain ⟨cached, deps, -, version, verifiedAt, injected, -, changed⟩ := shape.abandon_facts
  exact ⟨cached, deps, version, verifiedAt, injected, changed.mpr⟩

end Node

namespace Graph

def SameRecords (g g' : Graph V) : Prop := ∀ k, Node.SameRecord (g.node k) (g'.node k)

variable {g₀ g : Graph V}

theorem SameRecords.put (same : g₀.SameRecords g) {k : Key} {m : Node V}
    (record : Node.SameRecord (g.node k) m) : g₀.SameRecords (g.put k m) := by
  intro l
  rw [put_node]
  exact (same l).trans (update_rel Node.SameRecord.refl record l)

theorem sameRecords_kept (g₀ : Graph V) : Spread.Kept (fun g _ => g₀.SameRecords g) where
  skip _ _ _ _ same := same
  mark g k todo finished same := by
    have clean := ((isFinished_iff _).mp finished).2
    exact same.put ⟨rfl, rfl, rfl, rfl, rfl, by simp [clean]⟩

theorem sameRecords_spread (g : Graph V) (frontier : List Key) :
    g.SameRecords (g.spread frontier).graph :=
  spread_kept (sameRecords_kept g) g frontier fun _ => .refl _

theorem sameRecords_invalidate (g : Graph V) (keys : List Key) :
    g.SameRecords (g.invalidate keys).2.2 := by
  intro k
  rw [node_invalidate]
  split
  next => exact ⟨rfl, rfl, rfl, rfl, rfl, fun _ => rfl⟩
  next =>
    split
    next swept =>
      have clean := ((isFinished_iff _).mp swept.finished).2
      exact ⟨rfl, rfl, rfl, rfl, rfl, by simp [clean]⟩
    next => exact .refl _

theorem inject_records [BEq V] {P : Graph V → Prop}
    (record : ∀ g g' : Graph V, g.SameRecords g' → P g → P g') (g : Graph V) (holds : P g)
    (give : ∀ g' k v, P g' → P (g'.given k v (g.version + 1))) (values : List (Key × V)) :
    P (g.inject values).2.2 := by
  cases values with
  | nil => exact holds
  | cons entry rest =>
    have given : P (injectEach (g.version + 1) (entry :: rest) ⟨g.advance, [], []⟩).graph :=
      injectEach_kept (I := fun g _ => P g) (fun g' k v _ => give g' k v) (entry :: rest)
        ⟨g.advance, [], []⟩ (record g g.advance (fun _ => .refl _) holds)
    exact record _ _ (sameRecords_spread _ _) given

end Graph

theorem Progress.GroundedRun.sameRecords_abandon {S : Type} {s : Progress S V} {version : Nat}
    (underway : s.GroundedRun version) : s.graph.SameRecords s.abandon.2.graph :=
  fun k => underway.node_abandon k ▸ (underway.shape k).record_abandon

end Recompute
