import Recompute.Proofs.Resting
import Recompute.Proofs.Sweep

set_option autoImplicit false

namespace Recompute

variable {V : Type}

namespace Graph

def Awake (k d : Key) (excused held : Node V → Prop) (g : Graph V) (todo : List Key) : Prop :=
  (g.node k).status.isSettled = true ∧
    (k ∈ todo ∨ (g.node k).isDirty = true ∨ excused (g.node k) ∨
      d ∈ (g.node k).deps.flatten ∧ held (g.node d))

variable {k d : Key} {excused held : Node V → Prop} {g : Graph V} {todo : List Key}

theorem Awake.doubt (awake : g.Awake k d excused held todo) {l : Key} {m : Node V}
    (status : m.status = (g.node l).status) (dirty : m.isDirty = true) {todo' : List Key}
    (rest : ∀ x ∈ todo, x ≠ l → x ∈ todo')
    (next : l = d → d ∈ (g.node k).deps.flatten → held (g.node d) → k ∈ todo' ∨ held m) :
    (g.put l m).Awake k d excused held todo' := by
  obtain ⟨settled, cause⟩ := awake
  have node := g.put_node l m
  by_cases same : k = l
  · subst same
    refine ⟨?_, .inr (.inl ?_)⟩ <;> rw [node, Function.update_self]
    · rw [status]
      exact settled
    · exact dirty
  · unfold Awake
    rw [node, Function.update_of_ne same]
    refine ⟨settled, ?_⟩
    rcases cause with inside | doubted | given | ⟨read, holds⟩
    · exact .inl (rest k inside same)
    · exact .inr (.inl doubted)
    · exact .inr (.inr (.inl given))
    · by_cases hit : l = d
      · rcases next hit read holds with inside | still
        · exact .inl inside
        · subst hit
          rw [Function.update_self]
          exact .inr (.inr (.inr ⟨read, still⟩))
      · rw [Function.update_of_ne (Ne.symm hit)]
        exact .inr (.inr (.inr ⟨read, holds⟩))

theorem awake_kept (version : Nat) :
    Spread.Kept (fun (g : Graph V) todo => g.Between version todo ∧ g.Awake k d excused held todo) where
  skip g l todo unfinished holds := by
    obtain ⟨between, settled, cause⟩ := holds
    refine ⟨(between_kept version).skip g l todo unfinished between, settled, ?_⟩
    rcases cause with inside | rest
    · rcases List.mem_cons.mp inside with rfl | inside
      · right; left
        simpa [Node.isFinished, settled] using unfinished
      · exact .inl inside
    · exact .inr rest
  mark g l todo finished holds := by
    obtain ⟨between, awake⟩ := holds
    refine ⟨(between_kept version).mark g l todo finished between, ?_⟩
    refine awake.doubt (m := (g.node l).suspected) rfl (by simp [Node.suspected, Node.isDirty])
      ?_ ?_
    · intro x inside ne
      exact List.mem_append_left _ ((List.mem_cons.mp inside).resolve_left ne)
    · rintro rfl read -
      exact .inl (List.mem_append_right _ ((between.linked k l).mpr read))

theorem awake_givable [BEq V] (version old : Nat) : Givable version (fun (g : Graph V) todo =>
    g.Between version todo ∧ g.Awake k d (fun n => n.injected = true) (fun n => n.version = old) todo) := by
  intro g l v todo holds
  obtain ⟨between, settled, cause⟩ := holds
  refine ⟨between_givable version g l v todo between, ?_⟩
  have node := node_given g l v version
  have same := sameResult_given g l v version
  obtain ⟨-, -, -, finished, injected, changed⟩ := (g.node l).inject_facts v version
  generalize ((g.node l).inject v version).2 = m at node same finished injected changed
  have status (x : Key) : ((g.given l v version).node x).status = (Function.update g.node l m x).status := by
    rw [node]
    split <;> rfl
  unfold Awake
  simp only [status, (same k).injected, (same k).deps, (same d).version]
  have dirty : ((g.given l v version).node k).isDirty = (Function.update g.node l m k).isDirty := by
    simp [Node.isDirty, (same k).dirty]
  rw [dirty]
  by_cases at_l : k = l
  · subst at_l
    rw [Function.update_self]
    exact ⟨((isFinished_iff m).mp finished).1, .inr (.inr (.inl injected))⟩
  · rw [Function.update_of_ne at_l]
    refine ⟨settled, ?_⟩
    rcases cause with inside | doubted | given | ⟨read, kept⟩
    · left
      split
      · exact List.mem_append_left _ inside
      · exact inside
    · exact .inr (.inl doubted)
    · exact .inr (.inr (.inl given))
    · by_cases hit : d = l
      · subst hit
        rw [Function.update_self]
        rcases changed with ⟨new, -⟩ | ⟨-, -, -, -, still, -⟩
        · rw [if_pos new]
          exact .inl (List.mem_append_right _ ((between.linked k d).mpr read))
        · exact .inr (.inr (.inr ⟨read, still.trans kept⟩))
      · rw [Function.update_of_ne hit]
        exact .inr (.inr (.inr ⟨read, kept⟩))

theorem Between.settled_of_built {version : Nat} (between : g.Between version todo)
    (built : (g.node k).cached ≠ none) : (g.node k).status.isSettled = true := by
  obtain ⟨still, quiet⟩ := (between.shape k).quiet (between.idle k)
  cases status : (g.node k).status with
  | fresh => exact absurd ((between.shape k).fresh status) built
  | verifying => exact absurd status still
  | computing => exact absurd status quiet
  | done | failed => rfl

theorem Between.settled_of_read {version : Nat} (between : g.Between version todo)
    (read : d ∈ (g.node k).deps.flatten) : (g.node k).status.isSettled = true := by
  refine between.settled_of_built fun none => ?_
  simp [((between.shape k).unbuilt none).1] at read

theorem invalidate_changed {keys : List Key} (told : d ∈ keys)
    (settled : (g.node d).status.isSettled = true) :
    ((g.invalidate keys).2.2.node d).dirty = .changed := by
  rw [invalidate_told told settled]
  rfl

theorem Resting.invalidate_dirty (resting : g.Resting) {keys : List Key} (told : d ∈ keys)
    (finished : (g.node d).isFinished = true) (read : d ∈ (g.node k).deps.flatten) :
    ((g.invalidate keys).2.2.node k).isDirty = true := by
  rw [isDirty_invalidate]
  cases dirty : (g.node k).isDirty with
  | true => exact .inr (.inr rfl)
  | false =>
    have reads : g.Passes d k := by
      refine ⟨(resting.linked k d).mpr read, ?_⟩
      simp [Node.isFinished, dirty, resting.settled_of_read read]
    exact .inr (.inl ⟨d, told, finished, .single reads⟩)

theorem Resting.inject_dirty [BEq V] (resting : g.Resting) {values : List (Key × V)}
    (newer : (g.node d).version < ((g.inject values).2.2.node d).version)
    (read : d ∈ (g.node k).deps.flatten) :
    ((g.inject values).2.2.node k).isDirty = true ∨
      ((g.inject values).2.2.node k).injected = true := by
  cases values with
  | nil => exact absurd newer (Nat.lt_irrefl _)
  | cons entry rest =>
    have awake : g.Awake k d (fun n => n.injected = true) (fun n => n.version = (g.node d).version)
        [] :=
      ⟨resting.settled_of_read read, .inr (.inr (.inr ⟨read, rfl⟩))⟩
    obtain ⟨-, -, cause⟩ := spread_kept (awake_kept (g.version + 1)) _ _
      (injectEach_kept (awake_givable (g.version + 1) (g.node d).version) (entry :: rest)
        ⟨g.advance, [], []⟩ ⟨Between.advance resting, awake⟩)
    rcases cause with inside | doubted | given | ⟨-, kept⟩
    · simp at inside
    · exact .inl doubted
    · exact .inr given
    · exact absurd newer (Nat.not_lt_of_le (Nat.le_of_eq kept))

end Graph

end Recompute
