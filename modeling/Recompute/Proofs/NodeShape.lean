import Recompute.Proofs.Step

set_option autoImplicit false

namespace Recompute

variable {S V : Type}

def Flight.signalled (f : Flight V) : Flight V :=
  { f with
    stage := match f.stage with
      | .parked 1 => .queued
      | .parked (m + 2) => .parked (m + 1)
      | .queued | .claimed | .parked 0 => f.stage }

namespace Node

structure WellFormed (n : Node V) : Prop where
  unbuilt : n.cached = none → n.deps = [] ∧ n.dirty = .clean ∧ n.injected = false
  fresh : n.status = .fresh → n.cached = none
  done : n.status = .done → ∃ v, n.cached = some (.ok v)
  failed : n.status = .failed → ∃ f, n.cached = some (.error f)
  verifying : n.status = .verifying → n.dirty = .suspect ∧ n.isInFlight = true ∧
    ∃ v, n.cached = some (.ok v)
  computing : n.status = .computing → n.isInFlight = true
  injected : n.injected = true → n.status = .done ∧ n.deps = []
  flying : n.isInFlight = true → n.cached ≠ none → n.dirty ≠ .clean
  unstarted : ∀ f, n.flight = some f → n.status ≠ .verifying → n.status ≠ .computing →
    f.verified = 0 ∧ f.awaits = [] ∧ (f.stage = .queued ∨ f.stage = .claimed ∧ n.injected = true)
  memo : ∀ f, n.flight = some f → n.status ≠ .computing → f.memo = []
  dated : n.version ≤ n.verifiedAt

theorem exists_flight_of_awaited {n : Node V} {d : Key} (awaited : d ∈ n.awaits) :
    ∃ f, n.flight = some f ∧ d ∈ f.awaits := by
  cases flight : n.flight with
  | none => simp [awaits, flight] at awaited
  | some f => exact ⟨f, rfl, by simpa [awaits, flight] using awaited⟩

theorem register_of_finished {n : Node V} (finished : n.isFinished = true) (waiter : Key) :
    n.register waiter = (.finished n.version, n) := by
  simp [register, finished]

theorem register_of_unfinished {n : Node V} (unfinished : n.isFinished = false) (waiter : Key) :
    n.register waiter = (.waiting !n.isInFlight,
      { n with
        flight := some { (n.flight.getD {}) with
          waiters := if waiter ∈ n.waiters then n.waiters else n.waiters ++ [waiter] } }) := by
  cases flight : n.flight with
  | none =>
    simp [register, enqueue, isInFlight, waiters, flight, unfinished]
  | some f =>
    by_cases known : waiter ∈ f.waiters <;>
      simp [register, enqueue, isInFlight, waiters, flight, unfinished, known]

theorem enqueue_cases (n : Node V) :
    (n.enqueue = (false, n) ∧ (n.isFinished = true ∨ n.isInFlight = true)) ∨
      n.enqueue = (true, { n with flight := some {} }) ∧ n.isFinished = false ∧ n.flight = none := by
  by_cases busy : (n.isFinished || n.isInFlight) = true
  · exact .inl ⟨by simp [enqueue, busy], by simpa using busy⟩
  · refine .inr ⟨by simp [enqueue, busy], ?_⟩
    simpa [isInFlight] using busy

theorem countDown_eq (n : Node V) :
    n.countDown.2 = { n with flight := n.flight.map Flight.signalled } := by
  obtain ⟨status, dirty, cached, deps, dependents, version, verifiedAt, starts, injected, flight⟩ := n
  cases flight with
  | none => rfl
  | some f =>
    obtain ⟨stage, awaits, waiters, verified, memo⟩ := f
    match stage with
    | .queued | .claimed | .parked 0 | .parked 1 | .parked (m + 2) => rfl

theorem register_eq (n : Node V) (waiter : Key) :
    ∃ f, (n.register waiter).2 = { n with flight := f } := by
  cases finished : n.isFinished with
  | true => exact ⟨n.flight, congrArg Prod.snd (register_of_finished finished waiter)⟩
  | false => exact ⟨_, congrArg Prod.snd (register_of_unfinished finished waiter)⟩

structure SameResult (n m : Node V) : Prop where
  cached : m.cached = n.cached
  dirty : m.dirty = n.dirty
  deps : m.deps = n.deps
  version : m.version = n.version
  verifiedAt : m.verifiedAt = n.verifiedAt
  injected : m.injected = n.injected
  finished : m.isFinished = n.isFinished

theorem outcome?_eq_some {n : Node V} {o : Outcome V} :
    n.outcome? = some o ↔ n.isFinished = true ∧ n.cached = some o := by
  unfold outcome?
  split <;> simp_all

namespace SameResult

theorem refl (n : Node V) : SameResult n n := by
  constructor <;> rfl

theorem trans {n m l : Node V} (first : SameResult n m) (second : SameResult m l) :
    SameResult n l where
  cached := second.cached.trans first.cached
  dirty := second.dirty.trans first.dirty
  deps := second.deps.trans first.deps
  version := second.version.trans first.version
  verifiedAt := second.verifiedAt.trans first.verifiedAt
  injected := second.injected.trans first.injected
  finished := second.finished.trans first.finished

theorem outcome? {n m : Node V} (same : SameResult n m) : m.outcome? = n.outcome? := by
  simp [Node.outcome?, same.finished, same.cached]

theorem flight (n : Node V) (f : Option (Flight V)) : SameResult n { n with flight := f } := by
  constructor <;> rfl

theorem unsettled {n : Node V} (unfinished : n.isFinished = false) {status : Status}
    (unsettled : status.isSettled = false) (starts : Nat) (flight : Option (Flight V)) :
    SameResult n { n with status, starts, flight } where
  cached := rfl
  dirty := rfl
  deps := rfl
  version := rfl
  verifiedAt := rfl
  injected := rfl
  finished := by simpa [isFinished, unsettled] using unfinished.symm

theorem resumed {n : Node V} (unfinished : n.isFinished = false) (f : Flight V) :
    SameResult n (n.resumed f) :=
  unsettled unfinished rfl _ _

theorem removeDependent (n : Node V) (k : Key) : SameResult n (n.removeDependent k) := by
  constructor <;> rfl

theorem register (n : Node V) (waiter : Key) : SameResult n (n.register waiter).2 := by
  obtain ⟨f, registered⟩ := n.register_eq waiter
  exact registered ▸ flight n f

end SameResult

-- The result of `m` takes the place of that of `n` at `version`; a reader who finds no newer
-- version than before finds no other result either.
structure Renewed [BEq V] (version : Nat) (n m : Node V) : Prop where
  finished : m.isFinished = true
  idle : m.flight = none
  verifiedAt : m.verifiedAt = version
  dependents : m.dependents = n.dependents
  changed : m.version = version ∨ m.version = n.version ∧
    ∃ o o', n.cached = some o ∧ m.cached = some o' ∧ Alike o o'

@[simp] theorem deps_commit [BEq V] (n : Node V) (o : Outcome V) (deps : List Group)
    (version : Nat) : (n.commit o deps version).2.deps = deps := by
  cases o <;> rfl

@[simp] theorem verifiedAt_commit [BEq V] (n : Node V) (o : Outcome V) (deps : List Group)
    (version : Nat) : (n.commit o deps version).2.verifiedAt = version := by
  cases o <;> rfl

@[simp] theorem cached_commit [BEq V] (n : Node V) (o : Outcome V) (deps : List Group)
    (version : Nat) : (n.commit o deps version).2.cached = some o := by
  cases o <;> rfl

theorem renewed_commit [BEq V] (n : Node V) (o : Outcome V) (deps : List Group) (version : Nat) :
    Renewed version n (n.commit o deps version).2 := by
  cases o with
  | error f =>
    exact ⟨rfl, rfl, rfl, rfl, .inl rfl⟩
  | ok v =>
    refine ⟨rfl, rfl, rfl, rfl, ?_⟩
    by_cases held : n.holds v = true
    · right
      refine ⟨by simp [commit, succeed, held], ?_⟩
      unfold holds at held
      split at held
      next old cached => exact ⟨_, _, cached, rfl, .rel _ _ held⟩
      next => simp at held
    · left
      simp [commit, succeed, held]

theorem wellFormed_fresh : ({} : Node V).WellFormed := by
  constructor <;> simp [isInFlight]

theorem inject_of_holds [BEq V] {n : Node V} {v : V} {version : Nat} (done : n.status = .done)
    (holds : n.holds v = true) : n.inject v version =
      (⟨[], n.deps, false⟩, { n with dirty := .clean, deps := [], injected := true }) := by
  simp [inject, done, holds]

theorem inject_of_not_holds [BEq V] {n : Node V} {v : V} {version : Nat}
    (new : ¬(n.status = .done ∧ n.holds v = true)) : n.inject v version =
      (⟨[], n.deps, true⟩,
        { n with
          status := .done, dirty := .clean, cached := some (.ok v), deps := [], version
          verifiedAt := version, injected := true }) := by
  have changed : (!(decide (n.status = .done) && n.holds v)) = true := by
    simpa [Bool.eq_false_iff, -Bool.not_eq_true, imp_iff_not_or] using new
  simp only [inject, changed, if_true]

@[simp] theorem dependents_register (n : Node V) (waiter : Key) :
    (n.register waiter).2.dependents = n.dependents := by
  obtain ⟨f, registered⟩ := n.register_eq waiter
  rw [registered]

@[simp] theorem flight_addDependent (n : Node V) (k : Key) : (n.addDependent k).flight = n.flight := by
  unfold Node.addDependent
  split <;> rfl

theorem mem_dependents_addDependent (n : Node V) (k l : Key) :
    l ∈ (n.addDependent k).dependents ↔ l ∈ n.dependents ∨ l = k := by
  unfold Node.addDependent
  split
  next known => exact ⟨.inl, fun inside => inside.elim id fun same => same ▸ known⟩
  next => simp

theorem mem_dependents_removeDependent (n : Node V) (k l : Key) :
    l ∈ (n.removeDependent k).dependents ↔ l ∈ n.dependents ∧ l ≠ k := by
  simp [Node.removeDependent]

theorem value?_eq_some {n : Node V} {v : V} :
    n.value? = some v ↔ n.status = .done ∧ n.cached = some (.ok v) := by
  unfold value?
  split <;> simp_all

theorem inject_facts [BEq V] (n : Node V) (v : V) (version : Nat) :
    (n.inject v version).2.flight = n.flight ∧ (n.inject v version).2.deps = [] ∧
      (n.inject v version).2.dependents = n.dependents ∧
      (n.inject v version).2.isFinished = true ∧ (n.inject v version).2.injected = true ∧
      ((n.inject v version).1.changed = true ∧ (n.inject v version).2.cached = some (.ok v) ∧
          (n.inject v version).2.version = version ∧ (n.inject v version).2.verifiedAt = version ∨
        (n.inject v version).1.changed = false ∧ n.status = .done ∧ n.holds v = true ∧
          (n.inject v version).2.cached = n.cached ∧ (n.inject v version).2.version = n.version ∧
          (n.inject v version).2.verifiedAt = n.verifiedAt) := by
  by_cases held : n.status = .done ∧ n.holds v = true
  · rw [inject_of_holds held.1 held.2]
    simp [isFinished, isDirty, Status.isSettled, held.1, held.2]
  · rw [inject_of_not_holds held]
    simp [isFinished, isDirty, Status.isSettled]

theorem flight_claim {n : Node V} {f : Flight V} (flight : n.flight = some f)
    (queued : f.stage = .queued) : n.claim.2.flight = some { f with stage := .claimed } := by
  simp [claim, flight, queued]

@[simp] theorem starts_claim (n : Node V) : n.claim.2.starts = n.starts := by
  unfold Node.claim
  split
  · rfl
  · split <;> rfl

def Verifiable (n : Node V) : Prop :=
  n.status = .verifying ∨ n.status = .done ∧ n.dirty = .suspect ∧ n.injected = false

theorem not_verifiable_of_compute {n m : Node V} (claim : n.claim = (some .compute, m)) :
    ¬n.Verifiable := by
  have task : ∃ f, n.task f = .compute := by
    unfold Node.claim at claim
    split at claim
    · simp at claim
    next f _ =>
      split at claim
      · simp at claim
      · exact ⟨f, Option.some.inj (congrArg Prod.fst claim)⟩
  obtain ⟨f, task⟩ := task
  rintro (status | ⟨status, dirty, injected⟩)
  · simp [Node.task, status] at task
  · simp [Node.task, status, dirty, injected] at task

namespace WellFormed

variable {n : Node V}

theorem finished (shape : n.WellFormed) (finished : n.isFinished = true) :
    n.flight = none ∧ n.dirty = .clean ∧ ∃ o, n.cached = some o := by
  simp only [isFinished, isDirty, Bool.and_eq_true, Bool.not_eq_true', decide_eq_false_iff_not,
    ne_eq, not_not] at finished
  obtain ⟨settled, clean⟩ := finished
  have cached : ∃ o, n.cached = some o := by
    cases status : n.status <;> simp_all [Status.isSettled]
    · obtain ⟨v, found⟩ := shape.done status
      exact ⟨_, found⟩
    · obtain ⟨f, found⟩ := shape.failed status
      exact ⟨_, found⟩
  refine ⟨?_, clean, cached⟩
  cases flight : n.flight with
  | none => rfl
  | some f =>
    obtain ⟨o, found⟩ := cached
    exact absurd clean (shape.flying (by simp [isInFlight, flight]) (by simp [found]))

theorem unfinished_of_flight (shape : n.WellFormed) {f : Flight V} (flight : n.flight = some f) :
    n.isFinished = false := by
  rw [Bool.eq_false_iff]
  intro finished
  simp [(shape.finished finished).1] at flight

theorem status_of_awaits (shape : n.WellFormed) (waits : n.awaits ≠ []) :
    n.status = .verifying ∨ n.status = .computing := by
  by_contra resting
  rw [not_or] at resting
  obtain ⟨d, awaited⟩ := List.exists_mem_of_ne_nil _ waits
  obtain ⟨f, flight, awaited⟩ := exists_flight_of_awaited awaited
  simp [(shape.unstarted f flight resting.1 resting.2).2.1] at awaited

theorem outcome?_isSome (shape : n.WellFormed) : n.outcome?.isSome = n.isFinished := by
  cases finished : n.isFinished with
  | false => simp [outcome?, finished]
  | true =>
    obtain ⟨-, -, o, found⟩ := shape.finished finished
    simp [outcome?, finished, found]

theorem failure?_of_outcome? (shape : n.WellFormed) {f : Failure}
    (outcome : n.outcome? = some (.error f)) : n.failure? = some f := by
  unfold outcome? at outcome
  split at outcome
  next finished =>
    cases status : n.status with
    | done =>
      obtain ⟨v, value⟩ := shape.done status
      cases value.symm.trans outcome
    | failed => simp [failure?, status, outcome]
    | _ => simp [isFinished, status, Status.isSettled] at finished
  next => simp at outcome

theorem mark (shape : n.WellFormed) (d : Dirty) (idle : n.flight = none) :
    (n.mark d).2.WellFormed := by
  unfold Node.mark
  split
  next settled =>
    have cached : n.cached ≠ none := by
      intro none
      cases status : n.status <;> simp_all [Status.isSettled]
      · simpa [none] using shape.done status
      · simpa [none] using shape.failed status
    have waits : n.status ≠ .verifying ∧ n.status ≠ .computing := by
      constructor <;> intro status <;> simp [status, Status.isSettled] at settled
    exact { shape with
      unbuilt := fun none => absurd none cached
      verifying := fun status => absurd status waits.1
      flying := by simp [isInFlight, idle]
      unstarted := by simp [idle] }
  · exact shape

theorem addDependent (shape : n.WellFormed) (k : Key) : (n.addDependent k).WellFormed := by
  unfold Node.addDependent
  split
  · exact shape
  · exact { shape with }

theorem removeDependent (shape : n.WellFormed) (k : Key) : (n.removeDependent k).WellFormed :=
  { shape with }

theorem inject [BEq V] (shape : n.WellFormed) (idle : n.flight = none) (v : V) (version : Nat) :
    (n.inject v version).2.WellFormed := by
  by_cases kept : n.status = .done ∧ n.holds v = true
  · obtain ⟨w, cached⟩ := shape.done kept.1
    rw [inject_of_holds kept.1 kept.2]
    constructor <;> simp [isInFlight, idle, cached, shape.dated, kept.1]
  · rw [inject_of_not_holds kept]
    constructor <;> simp [isInFlight, idle]

theorem quiet (shape : n.WellFormed) (idle : n.flight = none) :
    n.status ≠ .verifying ∧ n.status ≠ .computing := by
  constructor <;> intro status
  · simpa [isInFlight, idle] using (shape.verifying status).2.1
  · simpa [isInFlight, idle] using shape.computing status

theorem enqueued (shape : n.WellFormed) (unfinished : n.isFinished = false)
    (idle : n.flight = none) (waiters : List Key) :
    { n with flight := some { waiters } : Node V }.WellFormed := by
  refine { shape with
    verifying := fun status => absurd status (shape.quiet idle).1
    computing := fun status => absurd status (shape.quiet idle).2
    flying := ?_
    unstarted := by simp
    memo := by simp }
  intro _ built clean
  have settled : n.status.isSettled = true := by
    have quiet := shape.quiet idle
    cases status : n.status <;> simp_all [Status.isSettled]
    exact built (shape.fresh status)
  simp only at clean
  simp [isFinished, isDirty, settled, clean] at unfinished

theorem claim_cases (shape : n.WellFormed) {f : Flight V} (flight : n.flight = some f)
    (queued : f.stage = .queued) :
    (n.claim = (some .keep, { n with flight := some { f with stage := .claimed } }) ∧
      n.status = .done ∧ n.injected = true) ∨
    (n.claim = (some (.verify f.verified),
        { n with status := .verifying, flight := some { f with stage := .claimed } }) ∧
      n.dirty = .suspect ∧ n.injected = false ∧ f.memo = [] ∧ (∃ v, n.cached = some (.ok v)) ∧
      (n.status = .verifying ∨ f.verified = 0 ∧ f.awaits = [])) ∨
    (n.claim = (some .compute,
        { n with status := .computing, flight := some { f with stage := .claimed } }) ∧
      n.injected = false) := by
  have flying : n.isInFlight = true := by simp [isInFlight, flight]
  obtain ⟨status', claim, compute, verify, keep⟩ : ∃ status', n.claim = (some (n.task f),
      { n with status := status', flight := some { f with stage := .claimed } }) ∧
      (n.task f = .compute → status' = .computing) ∧
      (∀ first, n.task f = .verify first → status' = .verifying) ∧
      (n.task f = .keep → status' = n.status) := by
    refine ⟨_, by rw [Node.claim, flight]; exact if_neg (by simp [queued]), ?_, ?_, ?_⟩
    · intro task
      simp only [task]
    · intro first task
      simp only [task]
    · intro task
      simp only [task]
  rw [claim]
  have given := shape.injected
  cases status : n.status with
  | fresh | computing | failed =>
    have task : n.task f = .compute := by simp [task, status]
    right; right
    rw [status] at given
    exact ⟨by rw [task, compute task], by simpa using mt given⟩
  | verifying =>
    have task : n.task f = .verify f.verified := by simp [task, status]
    obtain ⟨dirty, -, cached⟩ := shape.verifying status
    rw [status] at given
    right; left
    exact ⟨by rw [task, verify _ task], dirty, by simpa using mt given,
      shape.memo f flight (by simp [status]), cached, .inl rfl⟩
  | done =>
    obtain ⟨v, cached⟩ := shape.done status
    have unstarted := shape.unstarted f flight (by simp [status]) (by simp [status])
    have dirtied := shape.flying flying (by simp [cached])
    cases injected : n.injected with
    | true =>
      have task : n.task f = .keep := by
        cases dirty : n.dirty <;> simp_all [Node.task]
      left
      exact ⟨by rw [task, keep task, status], rfl, rfl⟩
    | false =>
      right
      cases dirty : n.dirty with
      | clean => exact absurd dirty dirtied
      | suspect =>
        have task : n.task f = .verify f.verified := by
          simp [Node.task, status, dirty, injected, unstarted.1]
        left
        exact ⟨by rw [task, verify _ task], rfl, rfl,
          shape.memo f flight (by simp [status]), ⟨v, cached⟩, .inr ⟨unstarted.1, unstarted.2.1⟩⟩
      | changed =>
        have task : n.task f = .compute := by simp [Node.task, status, dirty, injected]
        right
        exact ⟨by rw [task, compute task], rfl⟩

theorem claim (shape : n.WellFormed) {f : Flight V} (flight : n.flight = some f)
    (queued : f.stage = .queued) : n.claim.2.WellFormed := by
  have flying : n.isInFlight = true := by simp [isInFlight, flight]
  have dirtied := shape.flying flying
  rcases shape.claim_cases flight queued with
    ⟨claim, status, injected⟩ | ⟨claim, dirty, injected, memo, cached, started⟩ | ⟨claim, injected⟩
  · have unstarted := shape.unstarted f flight (by simp [status]) (by simp [status])
    have memo := shape.memo f flight
    obtain ⟨v, cached⟩ := shape.done status
    have deps := (shape.injected injected).2
    rw [claim]
    refine { shape with
      verifying := by simp [status], flying := fun _ => dirtied, computing := by simp [status]
      unstarted := ?_, memo := ?_ }
    · rintro _ ⟨⟩ - -
      exact ⟨unstarted.1, unstarted.2.1, .inr ⟨rfl, injected⟩⟩
    · rintro _ ⟨⟩ moving
      exact memo moving
  · obtain ⟨v, cached⟩ := cached
    rw [claim]
    constructor <;> simp_all [isInFlight, shape.dated]
  · rw [claim]
    have unbuilt := shape.unbuilt
    constructor <;> simp_all [isInFlight, shape.dated]

theorem sameResult_claim (shape : n.WellFormed) {f : Flight V} (flight : n.flight = some f)
    (queued : f.stage = .queued) : SameResult n n.claim.2 := by
  have unfinished := shape.unfinished_of_flight flight
  rcases shape.claim_cases flight queued with ⟨claim, -⟩ | ⟨claim, -⟩ | ⟨claim, -⟩ <;> rw [claim]
  · exact .flight _ _
  · exact .unsettled unfinished rfl _ _
  · exact .unsettled unfinished rfl _ _

theorem not_verifiable_of_claim (shape : n.WellFormed) {f : Flight V} (flight : n.flight = some f)
    (queued : f.stage = .queued) (computing : n.claim.2.status = .computing) : ¬n.Verifiable := by
  rcases shape.claim_cases flight queued with ⟨claim, status, -⟩ | ⟨claim, -⟩ | ⟨claim, -⟩
  · simp [claim, status] at computing
  · simp [claim] at computing
  · exact not_verifiable_of_compute claim

theorem started (shape : n.WellFormed) (status : n.status = .computing ∨ n.status = .verifying)
    (starts : Nat) (f : Flight V) :
    { n with status := .computing, starts, flight := some f : Node V }.WellFormed := by
  have flying : n.isInFlight = true := by
    rcases status with status | status
    · exact shape.computing status
    · exact (shape.verifying status).2.1
  have given := shape.injected
  have injected : n.injected = false := by
    rcases status with status | status <;> simpa [status] using mt given
  have dirtied := shape.flying flying
  exact { shape with
    fresh := by simp, done := by simp, failed := by simp, verifying := by simp
    computing := by simp [isInFlight], injected := by simp [injected]
    flying := fun _ => dirtied, unstarted := by simp, memo := by simp }

theorem verified (shape : n.WellFormed) (status : n.status = .verifying) {f : Flight V}
    (memo : f.memo = []) : { n with flight := some f : Node V }.WellFormed := by
  have dirtied := shape.flying (shape.verifying status).2.1
  obtain ⟨dirty, -, cached⟩ := shape.verifying status
  exact { shape with
    verifying := fun _ => ⟨dirty, rfl, cached⟩
    computing := by simp [status]
    flying := fun _ => dirtied
    unstarted := by simp [status]
    memo := by
      rintro _ ⟨⟩ -
      exact memo }

theorem signalled (shape : n.WellFormed) {f f' : Flight V} (flight : n.flight = some f)
    (verified : f'.verified = f.verified) (awaits : f'.awaits = f.awaits) (memo : f'.memo = f.memo)
    (stage : f'.stage = f.stage ∨ ∃ m, f.stage = .parked m) :
    { n with flight := some f' : Node V }.WellFormed := by
  have flying : n.isInFlight = true := by simp [isInFlight, flight]
  have dirtied := shape.flying flying
  exact { shape with
    verifying := fun status => ⟨(shape.verifying status).1, rfl, (shape.verifying status).2.2⟩
    computing := fun _ => rfl
    flying := fun _ => dirtied
    unstarted := by
      rintro _ ⟨⟩ idle resting
      have unstarted := shape.unstarted f flight idle resting
      rw [verified, awaits]
      rcases stage with same | ⟨m, parked⟩
      · rwa [same]
      · simp [parked] at unstarted
    memo := by
      rintro _ ⟨⟩ resting
      exact memo ▸ shape.memo f flight resting }

theorem register (shape : n.WellFormed) (waiter : Key) : (n.register waiter).2.WellFormed := by
  cases finished : n.isFinished with
  | true =>
    rw [register_of_finished finished]
    exact shape
  | false =>
    rw [register_of_unfinished finished]
    cases flight : n.flight with
    | none => exact shape.enqueued finished flight _
    | some f => exact shape.signalled flight rfl rfl rfl (.inl rfl)

theorem countDown (shape : n.WellFormed) : n.countDown.2.WellFormed := by
  rw [n.countDown_eq]
  cases flight : n.flight with
  | none =>
    rw [Option.map_none, ← flight]
    exact shape
  | some f =>
    refine shape.signalled flight rfl rfl rfl ?_
    cases stage : f.stage with
    | queued | claimed => exact .inl (by simp [Flight.signalled, stage])
    | parked m =>
      cases m with
      | zero => exact .inl (by simp [Flight.signalled, stage])
      | succ m => exact .inr ⟨_, rfl⟩

theorem commit [BEq V] (shape : n.WellFormed) (o : Outcome V) (deps : List Group) {version : Nat}
    (later : n.verifiedAt ≤ version) : (n.commit o deps version).2.WellFormed := by
  have dated := shape.dated
  cases o with
  | error f => constructor <;> simp [Node.commit, Node.fail, settle, isInFlight]
  | ok v =>
    constructor <;> simp [Node.commit, succeed, settle, isInFlight]
    split <;> omega

theorem confirm_eq (shape : n.WellFormed) {version : Nat}
    (status : n.status = .verifying ∨ n.status = .done) : n.confirm version =
      (⟨n.waiters, [], false⟩,
        { n with status := .done, dirty := .clean, verifiedAt := version, flight := none }) := by
  obtain ⟨v, cached⟩ : ∃ v, n.cached = some (.ok v) := by
    rcases status with status | status
    · exact (shape.verifying status).2.2
    · exact shape.done status
  simp [Node.confirm, cached, settle]

theorem confirm (shape : n.WellFormed) {version : Nat}
    (status : n.status = .verifying ∨ n.status = .done) (later : n.verifiedAt ≤ version) :
    (n.confirm version).2.WellFormed := by
  obtain ⟨v, cached⟩ : ∃ v, n.cached = some (.ok v) := by
    rcases status with status | status
    · exact (shape.verifying status).2.2
    · exact shape.done status
  have dated := shape.dated
  have given := shape.injected
  rw [shape.confirm_eq status]
  constructor <;> simp [isInFlight, cached]
  · exact fun injected => (given injected).2
  · omega

theorem renewed_confirm [BEq V] (shape : n.WellFormed) (version : Nat)
    (status : n.status = .verifying ∨ n.status = .done) :
    Renewed version n (n.confirm version).2 := by
  obtain ⟨v, cached⟩ : ∃ v, n.cached = some (.ok v) := by
    rcases status with status | status
    · exact (shape.verifying status).2.2
    · exact shape.done status
  rw [shape.confirm_eq status]
  exact ⟨rfl, rfl, rfl, rfl, .inr ⟨rfl, _, _, cached, cached, Alike.refl _⟩⟩

theorem abandon_facts (shape : n.WellFormed) :
    n.abandon.cached = n.cached ∧ n.abandon.deps = n.deps ∧ n.abandon.dependents = n.dependents ∧
      n.abandon.version = n.version ∧ n.abandon.verifiedAt = n.verifiedAt ∧
      n.abandon.injected = n.injected ∧ n.abandon.isFinished = n.isFinished ∧
      (n.abandon.dirty = .changed ↔ n.dirty = .changed) := by
  have join : n.dirty.join .suspect ≠ .clean ∧
      (n.dirty.join .suspect = .changed ↔ n.dirty = .changed) := by
    cases n.dirty <;> simp [Dirty.join]
  unfold Node.abandon
  split
  next => simp
  next f flight none =>
    have unfinished := shape.unfinished_of_flight flight
    simp only [unfinished, none, shape.unbuilt none, true_and]
    exact ⟨by simp [isFinished, Status.isSettled], by simp⟩
  next f v flight cached =>
    have unfinished := shape.unfinished_of_flight flight
    simp only [unfinished, cached, true_and]
    exact ⟨by simp [isFinished, isDirty, join.1], join.2⟩
  next f e flight cached =>
    have unfinished := shape.unfinished_of_flight flight
    simp only [unfinished, cached, true_and]
    exact ⟨by simp [isFinished, isDirty, join.1], join.2⟩

theorem status_eq (shape : n.WellFormed) (idle : n.flight = none) :
    n.status = match n.cached with
      | none => .fresh
      | some (.ok _) => .done
      | some (.error _) => .failed := by
  obtain ⟨up, resting⟩ := shape.quiet idle
  cases status : n.status with
  | fresh => rw [shape.fresh status]
  | verifying => exact absurd status up
  | computing => exact absurd status resting
  | done =>
    obtain ⟨v, cached⟩ := shape.done status
    rw [cached]
  | failed =>
    obtain ⟨f, cached⟩ := shape.failed status
    rw [cached]

theorem abandon (shape : n.WellFormed) : n.abandon.WellFormed := by
  have given := shape.injected
  have dated := shape.dated
  have unbuilt := shape.unbuilt
  unfold Node.abandon
  split
  next => exact shape
  next f flight none =>
    constructor <;> simp [isInFlight, none, dated, unbuilt none]
  next f v flight cached =>
    constructor <;> simp [isInFlight, cached, dated]
    exact fun injected => (given injected).2
  next f e flight cached =>
    have computed : n.injected = false := by
      rw [Bool.eq_false_iff]
      intro injected
      obtain ⟨v, done⟩ := shape.done (given injected).1
      simp [cached] at done
    constructor <;> simp [isInFlight, cached, dated, computed]

end WellFormed

end Node

end Recompute
