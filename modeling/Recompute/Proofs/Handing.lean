import Recompute.Proofs.Attempts
import Mathlib.Data.List.Nodup

set_option autoImplicit false

namespace Recompute

variable {S V : Type}

namespace Node

def queued (n : Node V) : Nat := if n.flight.any (·.stage = .queued) then 1 else 0

def isClaimed (n : Node V) : Bool := n.flight.any (·.stage = .claimed)

variable {n : Node V} {f : Flight V}

theorem queued_of_flight (flight : n.flight = some f) :
    n.queued = if f.stage = .queued then 1 else 0 := by
  simp [queued, flight]

theorem queued_of_idle (idle : n.flight = none) : n.queued = 0 := by
  simp [queued, idle]

theorem queued_countDown (n : Node V) :
    n.queued + (if n.countDown.1 then 1 else 0) = n.countDown.2.queued := by
  cases flight : n.flight with
  | none => simp [countDown, flight]
  | some f =>
    cases stage : f.stage with
    | queued | claimed => simp [countDown, flight, stage]
    | parked m => rcases m with _ | _ | m <;> simp [countDown, flight, stage, queued]

theorem isClaimed_countDown (n : Node V) : n.countDown.2.isClaimed = n.isClaimed := by
  cases flight : n.flight with
  | none => simp [countDown, flight]
  | some f =>
    cases stage : f.stage with
    | queued | claimed => simp [countDown, flight, stage]
    | parked m => rcases m with _ | _ | m <;> simp [countDown, flight, stage, isClaimed]

end Node

namespace Graph

theorem queued_wake (g : Graph V) (waiters : List Key) (l : Key) :
    (g.node l).queued + (g.wake waiters).1.count l = ((g.wake waiters).2.node l).queued := by
  induction waiters generalizing g with
  | nil => rfl
  | cons waiter rest ih =>
    have counted := (g.node waiter).queued_countDown
    have rest := ih (g.transition? waiter Node.countDown).2
    have answer := transition?_countDown g waiter
    rw [node_transition?_countDown] at rest
    simp only [wake]
    by_cases same : l = waiter
    · subst same
      rw [if_pos rfl] at rest
      by_cases ready : (g.transition? l Node.countDown).1 = some true
      · rw [if_pos (answer.mp ready)] at counted
        rw [if_pos ready, List.count_cons_self]
        omega
      · rw [if_neg (mt answer.mpr ready)] at counted
        rw [if_neg ready]
        omega
    · rw [if_neg same] at rest
      have other (keys : List Key) : (waiter :: keys).count l = keys.count l :=
        List.count_cons_of_ne (Ne.symm same)
      rw [← rest]
      split
      · rw [other]
      · rfl

theorem isClaimed_wake (g : Graph V) (waiters : List Key) (l : Key) :
    ((g.wake waiters).2.node l).isClaimed = (g.node l).isClaimed := by
  induction waiters generalizing g with
  | nil => rfl
  | cons waiter rest ih =>
    have rest := ih (g.transition? waiter Node.countDown).2
    rw [node_transition?_countDown] at rest
    refine rest.trans ?_
    split
    next same => rw [same, Node.isClaimed_countDown]
    next => rfl

def roused (g : Graph V) (k : Key) (m : Node V) : List Key :=
  (((g.put k m).relink k (g.node k).deps m.deps).wake (g.node k).waiters).1

section

variable (g : Graph V) (k : Key) (m : Node V) (l : Key)

theorem queued_settled : (Function.update g.node k m l).queued + (g.roused k m).count l =
    ((g.settled k m).node l).queued := by
  have woken := queued_wake ((g.put k m).relink k (g.node k).deps m.deps) (g.node k).waiters l
  have before : (((g.put k m).relink k (g.node k).deps m.deps).node l).queued =
      (Function.update g.node k m l).queued := by
    simp only [Node.queued, flight_relink, put_node]
  rw [before] at woken
  exact woken

theorem isClaimed_settled :
    ((g.settled k m).node l).isClaimed = (Function.update g.node k m l).isClaimed := by
  rw [settled, isClaimed_wake]
  simp only [Node.isClaimed, flight_relink, put_node]

theorem roused_of_deps (deps : m.deps = (g.node k).deps) :
    g.roused k m = ((g.put k m).wake (g.node k).waiters).1 := by
  have none (deps : List Key) : deps.filter (· ∉ deps) = [] := by simp
  have same : (g.put k m).relink k (g.node k).deps m.deps = g.put k m := by
    simp only [relink, deps, none, unlink, link, List.foldl_nil]
  rw [roused, same]

end

theorem queued_parked {g : Graph V} {k : Key} {n : Node V} {f : Flight V} {awaits : List Key}
    (flight : n.flight = some f) (busy : (g.node k).isInFlight = true) (once : awaits.Nodup)
    (unfinished : ∀ d ∈ awaits, (Function.update g.node k n d).isFinished = false) (l : Key) :
    (Function.update g.node k n l).queued + (g.idleOf awaits).count l =
      (g.parked k n awaits l).queued := by
  have out (outside : l ∉ awaits) : (g.idleOf awaits).count l = 0 :=
    List.count_eq_zero.mpr fun inside => outside (List.mem_filter.mp inside).1
  have flying : n.isInFlight = true := by simp [Node.isInFlight, flight]
  have inFlight := (update_congr Node.isInFlight (flying.trans busy.symm) l).symm
  unfold parked
  split
  next inside =>
    rw [Node.register_of_unfinished (unfinished l inside)]
    generalize Function.update g.node k n l = n' at inFlight
    cases flight' : n'.flight with
    | none =>
      have idle : (g.idleOf awaits).count l = 1 := by
        refine List.count_eq_one_of_mem (once.filter _) (List.mem_filter.mpr ⟨inside, ?_⟩)
        rw [inFlight, Node.isInFlight, flight']
        rfl
      simp [Node.queued, flight', idle]
    | some f' =>
      have busy : (g.idleOf awaits).count l = 0 := by
        refine List.count_eq_zero.mpr fun idle => ?_
        have none := (List.mem_filter.mp idle).2
        rw [inFlight, Node.isInFlight, flight'] at none
        simp at none
      simp [Node.queued, flight', busy]
  next outside => rw [out outside, Nat.add_zero]

theorem isClaimed_parked {g : Graph V} {k : Key} {n : Node V} {awaits : List Key}
    (unfinished : ∀ d ∈ awaits, (Function.update g.node k n d).isFinished = false) (l : Key) :
    (g.parked k n awaits l).isClaimed = (Function.update g.node k n l).isClaimed := by
  unfold parked
  split
  next inside =>
    rw [Node.register_of_unfinished (unfinished l inside)]
    cases flight : (Function.update g.node k n l).flight <;> simp [Node.isClaimed, flight]
  next => rfl

end Graph

end Recompute
