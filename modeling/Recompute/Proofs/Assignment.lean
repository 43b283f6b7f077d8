import Recompute.Proofs.Handing
import Recompute.Proofs.WaiterInvariant

set_option autoImplicit false

namespace Recompute

variable {V : Type}

namespace Node

def pending (n : Node V) : Nat := (n.flight.map (·.stage.pending)).getD 0

def waits (n : Node V) : List Key := if n.pending = 0 then [] else n.awaits

-- How a key stands to those who owe something for it. While a pass goes on, somebody has each key
-- that is queued or claimed, and nobody else has it. A member of a cycle being broken is `doomed`.
structure Assigned (live doomed : Prop) (n : Node V) (hand claim check fail : Nat) : Prop where
  busy : n.isInFlight = true → n.isFinished = false
  distinct : n.status = .done ∨ n.status = .verifying → n.deps.flatten.Nodup
  parked : ∀ f m, n.flight = some f → f.stage = .parked m → m ≠ 0
  hands : hand ≤ n.queued
  claims : claim + check ≤ n.isClaimed.toNat
  kept : live → ¬doomed → n.queued ≤ hand ∧ n.isClaimed.toNat ≤ claim + check
  verified : check ≠ 0 → n.status = .done ∨ n.status = .verifying
  broken : doomed → hand = 0 ∧ claim + check = 0 ∧
    (fail = 0 ∧ n.isFinished = true ∨ fail = 1 ∧ n.isInFlight = true)
  spared : ¬doomed → fail = 0

theorem Assigned.congr {live doomed : Prop} {n m : Node V} {hand claim check fail : Nat}
    (assigned : n.Assigned live doomed hand claim check fail)
    (status : m.status = n.status) (dirty : m.dirty = n.dirty) (deps : m.deps = n.deps)
    (stage : m.flight.map Flight.stage = n.flight.map Flight.stage) :
    m.Assigned live doomed hand claim check fail := by
  have finished : m.isFinished = n.isFinished := by simp [isFinished, isDirty, status, dirty]
  have same : m.isInFlight = n.isInFlight ∧ m.queued = n.queued ∧ m.isClaimed = n.isClaimed := by
    unfold isInFlight queued isClaimed
    cases flight : n.flight <;> cases flight' : m.flight <;> simp_all
  obtain ⟨flying, queued, claimed⟩ := same
  constructor
  case busy => simpa only [flying, finished] using assigned.busy
  case distinct => simpa only [status, deps] using assigned.distinct
  case parked =>
    intro f i flight parked
    rw [flight] at stage
    obtain ⟨f₀, flight₀, same⟩ := Option.map_eq_some_iff.mp stage.symm
    exact assigned.parked f₀ i flight₀ (same.trans parked)
  case hands => simpa only [queued] using assigned.hands
  case claims => simpa only [claimed] using assigned.claims
  case kept => simpa only [queued, claimed] using assigned.kept
  case verified => simpa only [status] using assigned.verified
  case broken => simpa only [finished, flying] using assigned.broken
  case spared => exact assigned.spared

theorem waits_of_pending {n : Node V} (none : n.pending = 0) : n.waits = [] := by
  simp [waits, none]

theorem pending_countDown (n : Node V) :
    n.countDown.2.pending = n.pending - 1 ∧ n.countDown.2.awaits = n.awaits ∧
      n.countDown.2.waiters = n.waiters ∧ (n.countDown.1 = true ↔ n.pending = 1) := by
  cases flight : n.flight with
  | none => simp [countDown, pending, flight]
  | some f =>
    cases stage : f.stage with
    | queued | claimed => simp [countDown, pending, flight, stage, Stage.pending]
    | parked m =>
      rcases m with _ | _ | m <;>
        simp [countDown, pending, awaits, waiters, flight, stage, Stage.pending]

theorem waits_countDown (n : Node V) :
    n.countDown.2.waits = if n.countDown.1 then [] else n.waits := by
  obtain ⟨pending, awaits, -, answer⟩ := n.pending_countDown
  cases roused : n.countDown.1 with
  | true => simp [waits, pending, answer.mp roused]
  | false =>
    have more : n.pending ≠ 1 := by simpa [roused] using answer
    have same : n.pending - 1 = 0 ↔ n.pending = 0 := by omega
    simp [waits, pending, awaits, same]

theorem Assigned.countDown {live doomed : Prop} [Decidable doomed] {n : Node V}
    {hand claim check fail : Nat} (assigned : n.Assigned live doomed hand claim check fail) :
    n.countDown.2.Assigned live doomed ((if n.countDown.1 ∧ ¬doomed then 1 else 0) + hand) claim
      check fail := by
  have queued := n.queued_countDown
  have claimed := n.isClaimed_countDown
  have shape := n.countDown_eq
  generalize n.countDown = counting at *
  obtain ⟨b, m⟩ := counting
  dsimp only at *
  have finished : m.isFinished = n.isFinished := shape ▸ rfl
  have flying : m.isInFlight = n.isInFlight := by simp [isInFlight, shape]
  constructor
  case busy => simpa only [finished, flying] using assigned.busy
  case distinct => simpa only [shape] using assigned.distinct
  case parked =>
    intro f i flight stage
    rw [shape] at flight
    obtain ⟨f₀, flight₀, rfl⟩ := Option.map_eq_some_iff.mp flight
    cases stage₀ : f₀.stage with
    | queued | claimed => simp [Flight.signalled, stage₀] at stage
    | parked i₀ =>
      have some := assigned.parked f₀ i₀ flight₀ stage₀
      rcases i₀ with _ | _ | i₀
      · exact absurd rfl some
      · simp [Flight.signalled, stage₀] at stage
      · simp only [Flight.signalled, stage₀, Stage.parked.injEq] at stage
        omega
  case hands =>
    have hands := assigned.hands
    rw [← queued]
    cases b with
    | false => simpa using hands
    | true => split <;> simp <;> omega
  case claims => simpa only [claimed] using assigned.claims
  case kept =>
    intro going out
    obtain ⟨hands, claims⟩ := assigned.kept going out
    rw [← queued, claimed]
    refine ⟨?_, claims⟩
    cases b <;> simp [out] <;> omega
  case verified => simpa only [shape] using assigned.verified
  case broken =>
    intro inside
    simpa [finished, flying, inside] using assigned.broken inside
  case spared => exact assigned.spared

theorem idle_facts {n : Node V} (idle : n.flight = none) :
    n.pending = 0 ∧ n.queued = 0 ∧ n.isClaimed = false ∧ n.isInFlight = false := by
  simp [pending, queued, isClaimed, isInFlight, idle]

theorem queued_facts {n : Node V} (queued : n.queued ≠ 0) :
    n.pending = 0 ∧ n.isClaimed = false ∧ ∃ f, n.flight = some f ∧ f.stage = .queued := by
  cases flight : n.flight with
  | none => simp [Node.queued, flight] at queued
  | some f =>
    have stage : f.stage = .queued := by simpa [Node.queued, flight] using queued
    simp [pending, isClaimed, flight, stage, Stage.pending]

theorem claimed_facts {n : Node V} (claimed : n.isClaimed = true) :
    n.pending = 0 ∧ n.queued = 0 ∧ n.isInFlight = true ∧
      ∃ f, n.flight = some f ∧ f.stage = .claimed := by
  cases flight : n.flight with
  | none => simp [isClaimed, flight] at claimed
  | some f =>
    have stage : f.stage = .claimed := by simpa [isClaimed, flight] using claimed
    simp [pending, queued, isInFlight, flight, stage, Stage.pending]

theorem claim_of_queued {n : Node V} {f : Flight V} (flight : n.flight = some f)
    (queued : f.stage = .queued) :
    ∃ task status, n.claim = (some task,
        { n with status, flight := some { f with stage := .claimed } }) ∧
      (task = .compute ∧ status = .computing ∨ task ≠ .compute ∧
        (n.status = .done ∨ n.status = .verifying) ∧
          (status = .verifying ∨ status = n.status)) := by
  unfold Node.claim
  rw [flight]
  simp only [queued, ne_eq, not_true_eq_false, if_false]
  refine ⟨_, _, rfl, ?_⟩
  cases status : n.status with
  | fresh | verifying | computing | failed => simp [task, status]
  | done =>
    cases dirty : n.dirty <;> cases injected : n.injected <;> simp [task, status, dirty, injected]

theorem isFinished_of_status {n : Node V} (unfinished : n.isFinished = false) {status : Status}
    (kept : status = n.status ∨ status.isSettled = false) (starts : Nat)
    (flight : Option (Flight V)) :
    Node.isFinished { n with status, starts, flight } = false := by
  rcases kept with rfl | unsettled
  · exact unfinished
  · simp [isFinished, unsettled]

end Node

end Recompute
