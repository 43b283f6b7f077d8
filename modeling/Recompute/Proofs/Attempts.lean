import Recompute.Proofs.Signals

set_option autoImplicit false

namespace Recompute

variable {S V : Type}

namespace Node

structure SameAttempt (n m : Node V) : Prop where
  status : m.status = n.status
  idle : n.flight = none → ∀ f, m.flight = some f →
    f.stage = .queued ∧ f.awaits = [] ∧ f.verified = 0 ∧ f.memo = []
  flight : ∀ f, n.flight = some f → ∃ f', m.flight = some f' ∧
    f'.awaits = f.awaits ∧ f'.verified = f.verified ∧ f'.memo = f.memo ∧
    (∀ i, f'.stage = .parked i → ∃ j, f.stage = .parked j) ∧ (f'.stage = .claimed ↔ f.stage = .claimed)

namespace SameAttempt

theorem refl (n : Node V) : SameAttempt n n where
  status := rfl
  idle none f flight := by simp [none] at flight
  flight f flight := ⟨f, flight, rfl, rfl, rfl, fun i parked => ⟨i, parked⟩, .rfl⟩

theorem of_flight {n m : Node V} (status : m.status = n.status) (flight : m.flight = n.flight) :
    SameAttempt n m where
  status := status
  idle none f found := by simp [flight, none] at found
  flight f found := ⟨f, flight.trans found, rfl, rfl, rfl, fun i parked => ⟨i, parked⟩, .rfl⟩

theorem signalled {n m : Node V} (status : m.status = n.status)
    (flight : m.flight = n.flight.map Flight.signalled) : SameAttempt n m where
  status := status
  idle none f found := by simp [flight, none] at found
  flight f found := by
    refine ⟨f.signalled, by simp [flight, found], rfl, rfl, rfl, ?_, ?_⟩
    · intro i parked
      cases stage : f.stage with
      | parked j => exact ⟨j, rfl⟩
      | queued | claimed => simp [Flight.signalled, stage] at parked
    · cases stage : f.stage with
      | queued | claimed => simp [Flight.signalled, stage]
      | parked m => rcases m with _ | _ | j <;> simp [Flight.signalled, stage]

theorem register {n : Node V} (unfinished : n.isFinished = false) (waiter : Key) :
    SameAttempt n (n.register waiter).2 where
  status := by rw [register_of_unfinished unfinished]
  idle none f found := by
    rw [register_of_unfinished unfinished] at found
    cases found
    simp [none]
  flight f found := by
    rw [register_of_unfinished unfinished]
    exact ⟨_, rfl, by simp [found], by simp [found], by simp [found],
      fun i parked => ⟨i, by simpa [found] using parked⟩, by simp [found]⟩

theorem before {n m : Node V} (same : SameAttempt n m) {f : Flight V} (flight : m.flight = some f) :
    (n.flight = none ∧ f.stage = .queued ∧ f.awaits = [] ∧ f.verified = 0 ∧ f.memo = []) ∨
      ∃ f₀, n.flight = some f₀ ∧ f.awaits = f₀.awaits ∧ f.verified = f₀.verified ∧
        f.memo = f₀.memo ∧ (∀ i, f.stage = .parked i → ∃ j, f₀.stage = .parked j) := by
  cases found : n.flight with
  | none => exact .inl ⟨rfl, same.idle found f flight⟩
  | some f₀ =>
    obtain ⟨f', flight', awaits, verified, memo, parked, -⟩ := same.flight f₀ found
    rw [flight] at flight'
    cases flight'
    exact .inr ⟨f₀, rfl, awaits, verified, memo, parked⟩

theorem awaits {n m : Node V} (same : SameAttempt n m) : m.awaits = n.awaits := by
  cases found : n.flight with
  | none =>
    cases found' : m.flight with
    | none => simp [Node.awaits, found, found']
    | some f =>
      obtain ⟨-, awaits, -⟩ := same.idle found f found'
      simp [Node.awaits, found, found', awaits]
  | some f =>
    obtain ⟨f', found', awaits, -⟩ := same.flight f found
    simp [Node.awaits, found, found', awaits]

theorem asked {n m : Node V} (same : SameAttempt n m) : m.asked = n.asked := by
  cases found : n.flight with
  | none =>
    cases found' : m.flight with
    | none => simp [Node.asked, found, found']
    | some f =>
      obtain ⟨-, awaits, -, memo⟩ := same.idle found f found'
      simp [Node.asked, found, found', awaits, memo, Table.keys]
  | some f =>
    obtain ⟨f', found', awaits, -, memo, -⟩ := same.flight f found
    simp [Node.asked, found, found', awaits, memo]

end SameAttempt

end Node

namespace Graph

theorem sameAttempt_settled {g : Graph V} {k l : Key} (once : (g.node k).waiters.Nodup) (n : Node V)
    (ne : l ≠ k) : Node.SameAttempt (g.node l) ((g.settled k n).node l) := by
  have status := g.settled_status k n l
  rw [Function.update_of_ne ne] at status
  by_cases inside : l ∈ (g.node k).waiters
  · have flight := g.settled_flight_of_mem k n once inside
    rw [Function.update_of_ne ne] at flight
    exact .signalled status flight
  · have flight := g.settled_flight_of_notMem k n inside
    rw [Function.update_of_ne ne] at flight
    exact .of_flight status flight

theorem flight_settled_self {g : Graph V} {k : Key} (once : (g.node k).waiters.Nodup) {n : Node V}
    (idle : n.flight = none) : ((g.settled k n).node k).flight = none := by
  by_cases inside : k ∈ (g.node k).waiters
  · simp [g.settled_flight_of_mem k n once inside, idle]
  · simp [g.settled_flight_of_notMem k n inside, idle]

theorem sameAttempt_parked {g : Graph V} {k : Key} {n : Node V} {awaits : List Key}
    (unfinished : ∀ d ∈ awaits, (Function.update g.node k n d).isFinished = false) {l : Key}
    (ne : l ≠ k) : Node.SameAttempt (g.node l) (g.parked k n awaits l) := by
  unfold parked
  split
  next inside =>
    have open' := unfinished l inside
    rw [Function.update_of_ne ne] at open' ⊢
    exact .register open' k
  next =>
    rw [Function.update_of_ne ne]
    exact .refl _

theorem sameAttempt_parked_self {g : Graph V} {k : Key} {n : Node V} {awaits : List Key}
    (unfinished : ∀ d ∈ awaits, (Function.update g.node k n d).isFinished = false) :
    Node.SameAttempt n (g.parked k n awaits k) := by
  unfold parked
  split
  next inside =>
    have open' := unfinished k inside
    rw [Function.update_self] at open' ⊢
    exact .register open' k
  next =>
    rw [Function.update_self]
    exact .refl _

theorem parked_self {g : Graph V} {k : Key} {n : Node V} {awaits : List Key}
    (unfinished : ∀ d ∈ awaits, (Function.update g.node k n d).isFinished = false) {f : Flight V}
    (flight : n.flight = some f) :
    (g.parked k n awaits k).status = n.status ∧ ∃ f', (g.parked k n awaits k).flight = some f' ∧
      f'.stage = f.stage ∧ f'.awaits = f.awaits ∧ f'.verified = f.verified ∧ f'.memo = f.memo := by
  unfold parked
  split
  next inside =>
    have open' := unfinished k inside
    rw [Function.update_self] at open' ⊢
    rw [Node.register_of_unfinished open']
    exact ⟨rfl, _, rfl, by simp [flight]⟩
  next =>
    rw [Function.update_self]
    exact ⟨rfl, f, flight, rfl, rfl, rfl, rfl⟩

theorem isInFlight_settled {g : Graph V} {k : Key} (once : (g.node k).waiters.Nodup) (n : Node V)
    (l : Key) :
    ((g.settled k n).node l).isInFlight = (Function.update g.node k n l).isInFlight := by
  by_cases inside : l ∈ (g.node k).waiters
  · simp [Node.isInFlight, g.settled_flight_of_mem k n once inside]
  · simp [Node.isInFlight, g.settled_flight_of_notMem k n inside]

theorem isInFlight_parked {g : Graph V} {k : Key} {n : Node V} {awaits : List Key}
    (unfinished : ∀ d ∈ awaits, (Function.update g.node k n d).isFinished = false) (l : Key) :
    (g.parked k n awaits l).isInFlight = ((Function.update g.node k n l).isInFlight || l ∈ awaits) := by
  unfold parked
  by_cases inside : l ∈ awaits
  · rw [if_pos inside, Node.register_of_unfinished (unfinished l inside)]
    simp [Node.isInFlight, inside]
  · simp [inside]

end Graph

end Recompute
