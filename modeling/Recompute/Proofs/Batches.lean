import Recompute.Proofs.Closure

set_option autoImplicit false

namespace Recompute

variable {V : Type}

namespace Graph

open Relation (ReflTransGen)

structure Same (g h : Graph V) : Prop where
  keys : g.keys = h.keys
  version : g.version = h.version
  node : ∀ k, g.node k = h.node k

variable {g : Graph V} {told more : List Key} {k : Key}

theorem swept_append : g.Swept (told ++ more) k ↔ g.Swept told k ∨ g.Swept more k := by
  simp only [Swept, List.mem_append, or_and_right, exists_or]

theorem swept_congr (same : ∀ d, d ∈ told ↔ d ∈ more) : g.Swept told k ↔ g.Swept more k := by
  simp only [Swept, same]

theorem status_invalidate (g : Graph V) (keys : List Key) (k : Key) :
    ((g.invalidate keys).2.2.node k).status = (g.node k).status := by
  rw [node_invalidate_frame]

theorem dependents_invalidate (g : Graph V) (keys : List Key) (k : Key) :
    ((g.invalidate keys).2.2.node k).dependents = (g.node k).dependents := by
  rw [node_invalidate_frame]

-- What is dirty stops a second wave, but whatever lies behind it is dirty too.
theorem swept_invalidate :
    (g.invalidate told).2.2.Swept more k ↔ g.Swept more k ∧ ¬ g.Swept told k := by
  have before {x : Key} (finished : ((g.invalidate told).2.2.node x).isFinished = true) :=
    (isFinished_invalidate g told x).mp finished
  constructor
  · intro swept
    apply And.intro _ (before swept.finished).2
    obtain ⟨d, inside, finished, path⟩ := swept
    refine ⟨d, inside, (before finished).1, ReflTransGen.mono (fun x y passes => ?_) d k path⟩
    exact ⟨dependents_invalidate g told x ▸ passes.1, (before passes.2).1⟩
  · rintro ⟨⟨d, inside, finished, path⟩, apart⟩
    -- Had the first wave met the path, it would have gone on to its end.
    induction path with
    | refl => exact ⟨d, inside, (isFinished_invalidate g told d).mpr ⟨finished, apart⟩, .refl⟩
    | @tail x y path passes ih =>
      have here := ih fun swept => apart (swept.next passes)
      apply here.next
      apply And.intro
      · rw [dependents_invalidate]
        exact passes.1
      · exact (isFinished_invalidate g told y).mpr ⟨passes.2, apart⟩

open Classical in
theorem invalidate_congr (same : ∀ d, d ∈ told ↔ d ∈ more) :
    Same (g.invalidate told).2.2 (g.invalidate more).2.2 := by
  obtain ⟨keys, version⟩ := invalidate_frame g told
  obtain ⟨keys', version'⟩ := invalidate_frame g more
  apply Same.mk (keys.trans keys'.symm) (version.trans version'.symm)
  intro k
  rw [node_invalidate, node_invalidate]
  have reported := and_congr_left fun _ : (g.node k).status.isSettled = true => same k
  exact if_congr reported rfl (if_congr (swept_congr same) rfl rfl)

theorem node_invalidate_append (g : Graph V) (told more : List Key) (k : Key) :
    (g.invalidate (told ++ more)).2.2.node k =
      ((g.invalidate told).2.2.invalidate more).2.2.node k := by
  have status := status_invalidate g told k
  cases settled : (g.node k).status.isSettled with
  | false =>
    have apart (keys : List Key) : ¬ g.Swept keys k := by
      intro swept
      simp [((isFinished_iff _).mp swept.finished).1] at settled
    rw [invalidate_apart (fun _ => settled) (apart _), invalidate_apart (fun _ => status ▸ settled),
      invalidate_apart (fun _ => settled) (apart told)]
    exact fun swept => apart more (swept_invalidate.mp swept).1
  | true =>
    by_cases second : k ∈ more
    · rw [invalidate_told (List.mem_append_right _ second) settled,
        invalidate_told second (status ▸ settled), node_invalidate_frame g told]
      rfl
    by_cases first : k ∈ told
    · have reported : (g.invalidate told).2.2.node k = _ := invalidate_told first settled
      rw [invalidate_told (List.mem_append_left _ first) settled,
        invalidate_apart (fun inside => absurd inside second), reported]
      intro swept
      have finished := swept.finished
      simp [reported, isFinished_reported] at finished
    have neither : k ∉ told ++ more := by simp [first, second]
    by_cases swept : g.Swept told k
    · rw [invalidate_swept neither (swept_append.mpr (.inl swept)),
        invalidate_apart (fun inside => absurd inside second), invalidate_swept first swept]
      exact fun again => (swept_invalidate.mp again).2 swept
    have kept := invalidate_apart (fun inside => absurd inside first) swept
    by_cases again : g.Swept more k
    · rw [invalidate_swept neither (swept_append.mpr (.inr again)),
        invalidate_swept second (swept_invalidate.mpr ⟨again, swept⟩), kept]
    · rw [invalidate_apart (fun inside => absurd inside neither), invalidate_apart, kept]
      · exact fun inside => absurd inside second
      · exact fun later => again (swept_invalidate.mp later).1
      · exact fun either => (swept_append.mp either).elim swept again

theorem invalidate_append (g : Graph V) (told more : List Key) :
    Same (g.invalidate (told ++ more)).2.2 ((g.invalidate told).2.2.invalidate more).2.2 := by
  obtain ⟨keys, version⟩ := invalidate_frame g (told ++ more)
  obtain ⟨keys', version'⟩ := invalidate_frame (g.invalidate told).2.2 more
  obtain ⟨first, first'⟩ := invalidate_frame g told
  apply Same.mk (keys.trans (keys'.trans first).symm) (version.trans (version'.trans first').symm)
  exact node_invalidate_append g told more

-- Neither how keys are batched nor their order matters to what invalidating them leaves of any
-- graph, whether or not its edges are those of a run.
theorem invalidate_batches (g : Graph V) (told more : List Key) :
    Same (g.invalidate (told ++ more)).2.2 ((g.invalidate told).2.2.invalidate more).2.2 ∧
      (∀ keys, keys.Perm (told ++ more) →
        Same (g.invalidate (told ++ more)).2.2 (g.invalidate keys).2.2) ∧
      ∀ keys : List Key, (∀ k, k ∈ keys ↔ k ∈ told ++ more) →
        Same (g.invalidate (told ++ more)).2.2 (g.invalidate keys).2.2 := by
  refine ⟨invalidate_append g told more, fun keys order => ?_, fun keys same => ?_⟩
  · exact invalidate_congr fun d => order.mem_iff.symm
  · exact invalidate_congr fun d => (same d).symm

theorem invalidate_batches_snare :
    let a : Key := .only "a"
    let b : Key := .only "b"
    let c : Key := .only "c"
    let g := Engine.snare.world.graph
    a ∈ (g.node b).dependents ∧ b ∈ (g.node a).dependents ∧
      (∀ k ∈ [a, b, c], ((g.invalidate [c]).2.2.invalidate [b]).2.2.node k =
        (g.invalidate [b, c, b]).2.2.node k) ∧
      ((g.invalidate [b, c]).2.2.node a).dirty = .suspect ∧
      ((g.invalidate [c]).2.2.node a).dirty = .clean := by
  intro a b c g
  obtain ⟨batches, permuted, sets⟩ := invalidate_batches g [c] [b]
  have twice := sets [b, c, b] (by simp [or_comm])
  have swapped := permuted [b, c] (List.Perm.swap c b [])
  refine ⟨by decide +kernel, by decide +kernel, fun k _ => ?_, ?_, by decide +kernel⟩
  · rw [← batches.node k, twice.node k]
  · rw [← swapped.node a, batches.node a]
    decide +kernel

end Graph

end Recompute
