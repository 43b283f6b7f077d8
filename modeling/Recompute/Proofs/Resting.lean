import Recompute.Proofs.Marking
import Recompute.Proofs.Turns

set_option autoImplicit false

namespace Recompute

variable {S V : Type}

namespace Graph

structure Idle (version : Nat) (g : Graph V) : Prop where
  stamp : g.version = version
  idle : ∀ k, (g.node k).flight = none
  shape : g.WellFormed
  dated : ∀ k, (g.node k).verifiedAt ≤ version
  linked : g.Linked
  distinct : g.Distinct

-- What holds of a graph between two passes, but for the keys that marking has yet to visit.
structure Between (version : Nat) (g : Graph V) (todo : List Key) : Prop extends Idle version g where
  grounded : ∀ k, (g.node k).isFinished = true → (g.node k).isCyclic = false →
    k ∈ todo ∨ g.Checked (g.node k).verifiedAt (g.node k).deps.flatten

abbrev Resting (g : Graph V) : Prop := g.Between g.version []

theorem idle_nil : ({} : Graph V).Idle 0 := by
  have fresh (k : Key) : ({} : Graph V).node k = {} := rfl
  constructor
  case stamp => rfl
  case idle => exact fun _ => rfl
  case shape => exact fun k => fresh k ▸ Node.wellFormed_fresh
  case dated => exact fun k => Nat.le_refl 0
  case linked => simp [Linked, fresh]
  case distinct => simp [Distinct, fresh]

theorem resting_nil : ({} : Graph V).Resting where
  toIdle := idle_nil
  grounded k finished := by
    have fresh : ({} : Graph V).node k = {} := rfl
    simp [fresh, Node.isFinished, Status.isSettled] at finished

structure Doubted (n m : Node V) : Prop where
  shape : m.WellFormed
  flight : m.flight = none
  cached : m.cached = n.cached
  deps : m.deps = n.deps
  dependents : m.dependents = n.dependents
  verifiedAt : m.verifiedAt = n.verifiedAt

theorem Doubted.mark {n : Node V} (shape : n.WellFormed) (idle : n.flight = none) (d : Dirty) :
    Doubted n (n.mark d).2 := by
  have shape := shape.mark d idle
  unfold Node.mark at shape ⊢
  split
  next settled =>
    rw [if_pos settled] at shape
    exact ⟨shape, idle, rfl, rfl, rfl, rfl⟩
  next unsettled =>
    rw [if_neg unsettled] at shape
    exact ⟨shape, idle, rfl, rfl, rfl, rfl⟩

theorem Doubted.suspected {n : Node V} (shape : n.WellFormed) (idle : n.flight = none)
    (finished : n.isFinished = true) : Doubted n n.suspected := by
  obtain ⟨settled, clean⟩ := (isFinished_iff n).mp finished
  have marked : (n.mark .suspect).2 = n.suspected := by
    simp [Node.mark, settled, clean, Dirty.join, Node.suspected]
  exact marked ▸ .mark shape idle .suspect

theorem Doubted.reported {n : Node V} (shape : n.WellFormed) (idle : n.flight = none)
    (settled : n.status.isSettled = true) : Doubted n n.reported := by
  have join : n.dirty.join .changed = .changed := by cases n.dirty <;> rfl
  have marked : (n.mark .changed).2 = n.reported := by simp [Node.mark, settled, join, Node.reported]
  exact marked ▸ .mark shape idle .changed

theorem Idle.doubt {version : Nat} {g : Graph V} (idle : g.Idle version) {k : Key} {m : Node V}
    (doubted : Doubted (g.node k) m) : (g.put k m).Idle version := by
  have node := g.put_node k m
  constructor
  case stamp => exact idle.stamp
  case idle =>
    intro l
    rw [node]
    exact update_all (P := (·.flight = none)) idle.idle doubted.flight l
  case shape =>
    intro l
    rw [node]
    exact wellFormed_update idle.shape doubted.shape l
  case dated =>
    intro l
    rw [node]
    exact update_all (P := (·.verifiedAt ≤ version)) idle.dated
      (doubted.verifiedAt ▸ idle.dated k) l
  case linked =>
    intro x d
    rw [node, update_congr Node.deps doubted.deps, update_congr Node.dependents doubted.dependents]
    exact idle.linked x d
  case distinct =>
    intro l v found
    rw [node] at found ⊢
    by_cases same : l = k
    · subst same
      rw [Function.update_self] at found ⊢
      exact doubted.deps ▸ idle.distinct l v (doubted.cached ▸ found)
    · rw [Function.update_of_ne same] at found ⊢
      exact idle.distinct l v found

namespace Between

variable {version : Nat} {g : Graph V} {todo : List Key}

theorem doubt (between : g.Between version todo) {k : Key} {m : Node V}
    (doubted : Doubted (g.node k) m) (unfinished : m.isFinished = false) {todo' : List Key}
    (rest : ∀ x ∈ todo, x ≠ k → x ∈ todo')
    (next : (g.node k).isFinished = true → ∀ x ∈ (g.node k).dependents, x ∈ todo') :
    (g.put k m).Between version todo' where
  toIdle := between.toIdle.doubt doubted
  grounded := by
    -- Who has read `k` comes next if `k` was finished, and else was not grounded on it.
    have node := g.put_node k m
    intro l finished plain
    rw [node] at finished plain ⊢
    have ne : l ≠ k := by
      rintro rfl
      simp [unfinished] at finished
    rw [Function.update_of_ne ne] at finished plain ⊢
    rcases between.grounded l finished plain with inside | checked
    · exact .inl (rest l inside ne)
    · by_cases reads : k ∈ (g.node l).deps.flatten
      · exact .inl (next (checked k reads).1 l ((between.linked l k).mpr reads))
      · right
        intro d inside
        have ne : d ≠ k := fun same => reads (same ▸ inside)
        rw [node, Function.update_of_ne ne]
        exact checked d inside

end Between

theorem idle_kept (version : Nat) : Spread.Kept (fun (g : Graph V) _ => g.Idle version) where
  skip _ _ _ _ idle := idle
  mark _ k _ finished idle := idle.doubt (.suspected (idle.shape k) (idle.idle k) finished)

theorem idle_reportable (version : Nat) : Reportable (fun (g : Graph V) _ => g.Idle version) :=
  fun _ k _ settled idle => idle.doubt (.reported (idle.shape k) (idle.idle k) settled)

theorem between_kept (version : Nat) :
    Spread.Kept (fun (g : Graph V) todo => g.Between version todo) where
  skip g k todo unfinished between :=
    { between with
      grounded := by
        intro l finished plain
        refine (between.grounded l finished plain).imp_left fun inside => ?_
        rcases List.mem_cons.mp inside with rfl | inside
        · simp [unfinished] at finished
        · exact inside }
  mark g k todo finished between := by
    refine between.doubt (.suspected (between.shape k) (between.idle k) finished) ?_ ?_ ?_
    · simp [Node.suspected, Node.isFinished, Node.isDirty]
    · intro x inside ne
      have inside := (List.mem_cons.mp inside).resolve_left ne
      exact List.mem_append_left _ inside
    · exact fun _ x inside => List.mem_append_right _ inside

theorem between_reportable (version : Nat) :
    Reportable (fun (g : Graph V) todo => g.Between version todo) := by
  intro g k todo settled between
  refine between.doubt (.reported (between.shape k) (between.idle k) settled) ?_ ?_ ?_
  · simp [Node.reported, Node.isFinished, Node.isDirty]
  · intro x inside _
    split
    · exact List.mem_append_left _ inside
    · exact inside
  · intro finished x inside
    rw [if_pos finished]
    exact List.mem_append_right _ inside

theorem node_given [BEq V] (g : Graph V) (k : Key) (v : V) (version : Nat) (l : Key) :
    (g.given k v version).node l =
      if l ∈ (g.node k).deps.flatten then
        (Function.update g.node k ((g.node k).inject v version).2 l).removeDependent k
      else Function.update g.node k ((g.node k).inject v version).2 l := by
  rw [given, node_unlink, put_node]

theorem sameResult_given [BEq V] (g : Graph V) (k : Key) (v : V) (version : Nat) (l : Key) :
    Node.SameResult (Function.update g.node k ((g.node k).inject v version).2 l)
      ((g.given k v version).node l) := by
  rw [node_given]
  split
  · exact .removeDependent _ _
  · exact .refl _

theorem Idle.given [BEq V] {version : Nat} {g : Graph V} (idle : g.Idle version) (k : Key) (v : V) :
    (g.given k v version).Idle version := by
  have node := node_given g k v version
  have same := sameResult_given g k v version
  obtain ⟨flight, deps, dependents, -, -, changed⟩ := (g.node k).inject_facts v version
  have shape := (idle.shape k).inject (idle.idle k) v version
  generalize ((g.node k).inject v version).2 = m at *
  have others {l : Key} (ne : l ≠ k) : Function.update g.node k m l = g.node l :=
    Function.update_of_ne ne m g.node
  constructor
  case stamp => exact (version_unlink _ _ _).trans idle.stamp
  case idle =>
    intro l
    have before : (Function.update g.node k m l).flight = none := by
      by_cases at_k : l = k
      · subst at_k
        rw [Function.update_self, flight]
        exact idle.idle l
      · exact others at_k ▸ idle.idle l
    rw [node]
    split <;> exact before
  case shape =>
    intro l
    have before := wellFormed_update idle.shape (k := k) shape l
    rw [node]
    split
    · exact before.removeDependent k
    · exact before
  case dated =>
    intro l
    rw [(same l).verifiedAt]
    by_cases at_k : l = k
    · subst at_k
      rw [Function.update_self]
      rcases changed with ⟨-, -, -, now⟩ | ⟨-, -, -, -, -, kept⟩
      · exact Nat.le_of_eq now
      · exact kept ▸ idle.dated l
    · exact others at_k ▸ idle.dated l
  case linked =>
    have listed (x l : Key) : x ∈ (Function.update g.node k m l).dependents ↔
        l ∈ (g.node x).deps.flatten := by
      rw [update_congr Node.dependents dependents]
      exact idle.linked x l
    intro x l
    rw [(same x).deps, node]
    by_cases at_k : x = k
    · subst at_k
      rw [Function.update_self, deps]
      split
      next => simp [Node.mem_dependents_removeDependent]
      next out => simpa [listed] using out
    · rw [others at_k]
      split
      · rw [Node.mem_dependents_removeDependent, listed]
        simp [at_k]
      · exact listed x l
  case distinct =>
    intro l w found
    rw [(same l).cached] at found
    rw [(same l).deps]
    by_cases at_k : l = k
    · subst at_k
      rw [Function.update_self, deps]
      simp
    · rw [others at_k] at found ⊢
      exact idle.distinct l w found

theorem idle_givable [BEq V] (version : Nat) :
    Givable version (fun (g : Graph V) _ => g.Idle version) :=
  fun _ k v _ idle => idle.given k v

theorem between_givable [BEq V] (version : Nat) :
    Givable version (fun (g : Graph V) todo => g.Between version todo) := by
  intro g k v todo between
  refine ⟨between.toIdle.given k v, ?_⟩
  have node := node_given g k v version
  have same := sameResult_given g k v version
  obtain ⟨-, deps, -, finished, -, changed⟩ := (g.node k).inject_facts v version
  generalize ((g.node k).inject v version).2 = m at *
  have others {l : Key} (ne : l ≠ k) : Function.update g.node k m l = g.node l :=
    Function.update_of_ne ne m g.node
  intro l done plain
  rw [(same l).finished] at done
  rw [(same l).deps, (same l).verifiedAt]
  have plain : (Function.update g.node k m l).isCyclic = false := by
    simpa [Node.isCyclic, (same l).cached] using plain
  by_cases at_k : l = k
  · subst at_k
    rw [Function.update_self, deps]
    exact .inr (by simp [Checked])
  · rw [others at_k] at done plain ⊢
    rcases between.grounded l done plain with inside | checked
    · left
      split
      · exact List.mem_append_left _ inside
      · exact inside
    · by_cases hit : k ∈ (g.node l).deps.flatten
      · rcases changed with ⟨new, -⟩ | ⟨-, -, -, -, kept, -⟩
        · left
          rw [if_pos new]
          exact List.mem_append_right _ ((between.linked l k).mpr hit)
        · right
          intro d inside
          rw [(same d).finished, (same d).version]
          by_cases dep_k : d = k
          · subst dep_k
            rw [Function.update_self, kept]
            exact ⟨finished, (checked d inside).2⟩
          · exact others dep_k ▸ checked d inside
      · right
        intro d inside
        have ne : d ≠ k := fun same => hit (same ▸ inside)
        rw [(same d).finished, (same d).version, others ne]
        exact checked d inside

theorem Idle.current {version : Nat} {g : Graph V} (idle : g.Idle version) : g.Idle g.version := by
  obtain rfl := idle.stamp
  exact idle

theorem Between.resting {version : Nat} {g : Graph V} (between : g.Between version []) :
    g.Resting := by
  obtain rfl := between.stamp
  exact between

theorem Resting.invalidate {g : Graph V} (resting : g.Resting) (keys : List Key) :
    (g.invalidate keys).2.2.Resting :=
  Between.resting
    (invalidate_kept (between_kept g.version) (between_reportable g.version) g keys resting)

theorem Idle.advance {version : Nat} {g : Graph V} (idle : g.Idle version) :
    g.advance.Idle (version + 1) where
  stamp := congrArg (· + 1) idle.stamp
  idle := idle.idle
  shape := idle.shape
  dated k := Nat.le_succ_of_le (idle.dated k)
  linked := idle.linked
  distinct := idle.distinct

theorem Idle.invalidate {version : Nat} {g : Graph V} (idle : g.Idle version) (keys : List Key) :
    (g.invalidate keys).2.2.Idle version :=
  invalidate_kept (idle_kept version) (idle_reportable version) g keys idle

theorem Idle.inject [BEq V] {g : Graph V} (idle : g.Idle g.version) (values : List (Key × V)) :
    (g.inject values).2.2.Idle (g.inject values).2.2.version := by
  cases values with
  | nil => exact idle
  | cons entry rest =>
    exact Idle.current (spread_kept (idle_kept (g.version + 1)) _ _
      (injectEach_kept (idle_givable (g.version + 1)) (entry :: rest) ⟨g.advance, [], []⟩
        idle.advance))

theorem Between.advance {g : Graph V} (resting : g.Resting) :
    g.advance.Between (g.version + 1) [] where
  toIdle := resting.toIdle.advance
  grounded := resting.grounded

theorem Resting.inject [BEq V] {g : Graph V} (resting : g.Resting) (values : List (Key × V)) :
    (g.inject values).2.2.Resting := by
  cases values with
  | nil => exact resting
  | cons entry rest =>
    exact Between.resting (spread_kept (between_kept (g.version + 1)) _ _
      (injectEach_kept (between_givable (g.version + 1)) (entry :: rest) ⟨g.advance, [], []⟩
        (Between.advance resting)))

theorem Idle.running {w : World S V} (idle : w.graph.Idle w.graph.version) :
    Progress.Running (w.graph.version + 1)
      ({ world := { w with graph := w.graph.advance } } : Progress S V) := by
  have flight := idle.idle
  have before (k : Key) : (w.graph.node k).verifiedAt < w.graph.version + 1 :=
    Nat.lt_succ_of_le (idle.dated k)
  constructor
  case stamp => rfl
  case shape => exact idle.shape
  case dated => exact ⟨fun k => Nat.le_of_lt (before k), fun k _ => before k⟩
  case linked => exact idle.linked
  case signalled => constructor <;> simp [Progress.graph, Node.waiters, flight]
  case current => constructor <;> simp [Progress.graph, flight]
  case distinct => exact idle.distinct
  case tracked => simp [Progress.graph, Node.isInFlight, flight]

theorem Resting.underway {w : World S V} (resting : w.graph.Resting) :
    Progress.GroundedRun (w.graph.version + 1)
      ({ world := { w with graph := w.graph.advance } } : Progress S V) where
  toRunning := resting.toIdle.running
  grounded k finished plain := (resting.grounded k finished plain).resolve_left (by simp)

end Graph

namespace Progress

variable {version : Nat} {s : Progress S V}

theorem Running.node_abandon (running : s.Running version) (k : Key) :
    s.abandon.2.graph.node k = (s.graph.node k).abandon :=
  s.graph.node_abandon_of_tracked running.tracked k

theorem Running.abandon (running : s.Running version) : s.abandon.2.graph.Idle version := by
  have node := running.node_abandon
  have shape := running.shape
  have facts (k : Key) := (shape k).abandon_facts
  constructor
  case stamp => exact (s.graph.version_abandon s.enqueued).trans running.stamp
  case idle => exact fun k => node k ▸ (s.graph.node k).flight_abandon
  case shape => exact fun k => node k ▸ (shape k).abandon
  case dated =>
    intro k
    rw [node, (facts k).2.2.2.2.1]
    exact running.dated.all k
  case linked =>
    intro k d
    rw [node, node, (facts k).2.1, (facts d).2.2.1]
    exact running.linked k d
  case distinct =>
    intro k v found
    rw [node, (facts k).1] at found
    rw [node, (facts k).2.1]
    exact running.distinct k v found

theorem GroundedRun.abandon (underway : s.GroundedRun version) :
    s.abandon.2.graph.Between version [] where
  toIdle := underway.toRunning.abandon
  grounded := by
    have node := underway.node_abandon
    have facts (k : Key) := (underway.shape k).abandon_facts
    intro k finished plain
    rw [node, (facts k).2.2.2.2.2.2.1] at finished
    have plain : (s.graph.node k).isCyclic = false := by
      simpa [Node.isCyclic, node, (facts k).1] using plain
    right
    intro d inside
    rw [node, (facts k).2.1] at inside
    rw [node, node, (facts d).2.2.2.2.2.2.1, (facts d).2.2.2.1, (facts k).2.2.2.2.1]
    exact underway.grounded k finished plain d inside

end Progress

end Recompute
