import Recompute.Proofs.NodeShape

set_option autoImplicit false

namespace Recompute

variable {V : Type}

namespace Graph

-- Whoever has read a key is listed among its dependents, and nobody else.
def Linked (g : Graph V) : Prop :=
  ∀ k d, k ∈ (g.node d).dependents ↔ d ∈ (g.node k).deps.flatten

theorem put_node (g : Graph V) (k : Key) (n : Node V) :
    (g.put k n).node = Function.update g.node k n := by
  funext l
  rw [node_put, Function.update_apply]

section

variable {nodes : Key → Node V} {k : Key} {m : Node V}

theorem update_all {P : Node V → Prop} (all : ∀ l, P (nodes l)) (new : P m) (l : Key) :
    P (Function.update nodes k m l) :=
  (Function.forall_update_iff nodes fun _ => P).mpr ⟨new, fun l _ => all l⟩ l

theorem update_rel {R : Node V → Node V → Prop} (refl : ∀ n, R n n) (new : R (nodes k) m)
    (l : Key) : R (nodes l) (Function.update nodes k m l) :=
  (Function.forall_update_iff nodes fun l => R (nodes l)).mpr ⟨new, fun _ _ => refl _⟩ l

theorem update_congr {β : Type} (t : Node V → β) (same : t m = t (nodes k)) (l : Key) :
    t (Function.update nodes k m l) = t (nodes l) :=
  (update_rel (R := fun n n' => t n = t n') (fun _ => rfl) same.symm l).symm

end

theorem countDown_wake (g : Graph V) (waiters : List Key) (l : Key) :
    ∃ f, (g.wake waiters).2.node l = { g.node l with flight := f } := by
  induction waiters generalizing g with
  | nil => exact ⟨(g.node l).flight, rfl⟩
  | cons waiter rest ih =>
    obtain ⟨f, woken⟩ := ih (g.transition? waiter Node.countDown).2
    rw [node_transition?_countDown] at woken
    by_cases same : l = waiter
    · subst same
      rw [if_pos rfl, (g.node l).countDown_eq] at woken
      exact ⟨f, woken⟩
    · rw [if_neg same] at woken
      exact ⟨f, woken⟩

theorem node_relink (g : Graph V) (k : Key) (old new : List Group) (l : Key) :
    (g.relink k old new).node l =
      if l ∈ new.flatten ∧ l ∉ old.flatten then (g.node l).addDependent k
      else if l ∈ old.flatten ∧ l ∉ new.flatten then (g.node l).removeDependent k
      else g.node l := by
  by_cases before : l ∈ old.flatten <;> by_cases after : l ∈ new.flatten <;>
    simp [relink, node_link, node_unlink, before, after, -List.mem_flatten, -List.filter_flatten]

theorem mem_dependents_relink {g : Graph V} {k : Key} {old : List Group}
    (linked : ∀ d, k ∈ (g.node d).dependents ↔ d ∈ old.flatten) (new : List Group) (l x : Key) :
    x ∈ ((g.relink k old new).node l).dependents ↔
      if x = k then l ∈ new.flatten else x ∈ (g.node l).dependents := by
  rw [node_relink]
  have edge := linked l
  by_cases same : x = k
  · subst same
    by_cases before : l ∈ old.flatten <;> by_cases after : l ∈ new.flatten <;>
      simp [before, after, edge, Node.mem_dependents_addDependent,
        Node.mem_dependents_removeDependent, -List.mem_flatten]
  · by_cases before : l ∈ old.flatten <;> by_cases after : l ∈ new.flatten <;>
      simp [before, after, same, Node.mem_dependents_addDependent,
        Node.mem_dependents_removeDependent, -List.mem_flatten]

@[simp] theorem flight_relink (g : Graph V) (k : Key) (old new : List Group) (l : Key) :
    ((g.relink k old new).node l).flight = (g.node l).flight := by
  rw [node_relink]
  split
  · exact Node.flight_addDependent _ _
  · split <;> rfl

section

variable (g : Graph V) (k : Key) (m : Node V)

theorem settled_eq (l : Key) : ∃ dependents flight,
    (g.settled k m).node l = { Function.update g.node k m l with dependents, flight } := by
  obtain ⟨f, woken⟩ := countDown_wake ((g.put k m).relink k (g.node k).deps m.deps)
    (g.node k).waiters l
  have linked : ∃ dependents, ((g.put k m).relink k (g.node k).deps m.deps).node l =
      { (g.put k m).node l with dependents } := by
    rw [node_relink]
    split
    · unfold Node.addDependent
      split
      · exact ⟨_, rfl⟩
      · exact ⟨_, rfl⟩
    · split
      · exact ⟨_, rfl⟩
      · exact ⟨_, rfl⟩
  obtain ⟨dependents, linked⟩ := linked
  exact ⟨dependents, f, by rw [settled, woken, linked, put_node]⟩

theorem settled_sameResult (l : Key) :
    Node.SameResult (Function.update g.node k m l) ((g.settled k m).node l) := by
  obtain ⟨dependents, f, settled⟩ := g.settled_eq k m l
  rw [settled]
  constructor <;> rfl

theorem settled_status (l : Key) :
    ((g.settled k m).node l).status = (Function.update g.node k m l).status := by
  obtain ⟨dependents, f, settled⟩ := g.settled_eq k m l
  rw [settled]

theorem settled_starts (l : Key) :
    ((g.settled k m).node l).starts = (Function.update g.node k m l).starts := by
  obtain ⟨dependents, f, settled⟩ := g.settled_eq k m l
  rw [settled]

theorem settled_flight_of_notMem {l : Key} (out : l ∉ (g.node k).waiters) :
    ((g.settled k m).node l).flight = (Function.update g.node k m l).flight := by
  rw [settled, node_wake_of_notMem _ _ out, flight_relink, put_node]

theorem settled_flight_of_mem (once : (g.node k).waiters.Nodup) {l : Key}
    (inside : l ∈ (g.node k).waiters) :
    ((g.settled k m).node l).flight =
      (Function.update g.node k m l).flight.map Flight.signalled := by
  rw [settled, node_wake_of_mem _ _ once inside, Node.countDown_eq, flight_relink, put_node]

theorem mem_dependents_settled {g : Graph V} {k : Key} {m : Node V}
    (linked : ∀ d, k ∈ (g.node d).dependents ↔ d ∈ (g.node k).deps.flatten)
    (dependents : m.dependents = (g.node k).dependents) (l x : Key) :
    x ∈ ((g.settled k m).node l).dependents ↔
      if x = k then l ∈ m.deps.flatten else x ∈ (g.node l).dependents := by
  have before (d : Key) : ((g.put k m).node d).dependents = (g.node d).dependents := by
    rw [put_node]
    exact update_congr Node.dependents dependents d
  obtain ⟨f, woken⟩ := countDown_wake ((g.put k m).relink k (g.node k).deps m.deps)
    (g.node k).waiters l
  rw [settled, woken]
  change x ∈ (((g.put k m).relink k (g.node k).deps m.deps).node l).dependents ↔ _
  rw [mem_dependents_relink fun d => by rw [before]; exact linked d, before]

end

theorem parked_eq (g : Graph V) (k : Key) (n : Node V) (awaits : List Key) (l : Key) :
    ∃ flight, g.parked k n awaits l = { Function.update g.node k n l with flight } := by
  unfold parked
  split
  · exact Node.register_eq _ k
  · exact ⟨_, rfl⟩

theorem linked_settled {g : Graph V} (linked : g.Linked) {k : Key} {m : Node V}
    (dependents : m.dependents = (g.node k).dependents) : (g.settled k m).Linked := by
  intro x l
  rw [mem_dependents_settled (linked k) dependents, (settled_sameResult g k m x).deps]
  by_cases same : x = k
  · subst same
    simp
  · simp [same, linked x l]

theorem wake_congr {g g' : Graph V} (same : g'.node = g.node) (waiters : List Key) :
    (g'.wake waiters).2.node = (g.wake waiters).2.node := by
  induction waiters generalizing g g' with
  | nil => exact same
  | cons waiter rest ih =>
    have counted : (g'.transition? waiter Node.countDown).2.node =
        (g.transition? waiter Node.countDown).2.node := by
      funext l
      rw [node_transition?_countDown, node_transition?_countDown, same]
    exact ih counted

theorem settled_congr {g g' : Graph V} {k : Key} (others : ∀ l, l ≠ k → g'.node l = g.node l)
    (deps : (g'.node k).deps = (g.node k).deps) (waiters : (g'.node k).waiters = (g.node k).waiters)
    (m : Node V) : (g'.settled k m).node = (g.settled k m).node := by
  rw [settled, settled, deps, waiters]
  refine wake_congr ?_ _
  funext l
  rw [node_relink, node_relink, put_node, put_node]
  by_cases same : l = k
  · subst same
    simp
  · simp [same, others l same]

theorem settled_of_deps (g : Graph V) {k : Key} {m : Node V} (deps : m.deps = (g.node k).deps) :
    (g.settled k m).node = ((g.put k m).wake (g.node k).waiters).2.node := by
  refine wake_congr ?_ _
  funext l
  rw [node_relink, deps]
  by_cases inside : l ∈ (g.node k).deps.flatten <;> simp [inside, -List.mem_flatten]

end Graph

end Recompute
