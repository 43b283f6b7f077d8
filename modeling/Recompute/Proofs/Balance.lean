import Recompute.Proofs.Assignment
import Recompute.Proofs.Duties

set_option autoImplicit false

namespace Recompute

variable {V : Type}

-- To owe this is to have the key: nobody else commits it or claims it meanwhile.
def Duty.Assigns (k : Key) : Duty → Prop
  | .hand l | .claim l | .check l | .fail l => k = l
  | .signal _ | .register _ _ => False

-- Whoever commits a key has claimed it, or fails it as a member of a cycle.
inductive Duties.Commits (doomed : Cycle) (later : List Cycle) (k : Key) : Duties → Prop
  | claim : Commits doomed later k (one (.claim k))
  | check : Commits doomed later k (one (.check k))
  | fail (inside : k ∈ doomed) (out : k ∉ later.flatten) : Commits doomed later k (one (.fail k))

-- What runs owe agrees with what the nodes say, and whoever waits is owed what it waits for. The
-- members of cycles that are broken `later` wait for each other, and `roots` have been asked for.
structure Balanced (live : Prop) (doomed : Cycle) (later : List Cycle) (roots : List Key)
    (nodes : Key → Node V) (owed : Duties) : Prop where
  assigned : ∀ k, (nodes k).Assigned live (k ∈ doomed) (owed (.hand k)) (owed (.claim k))
    (owed (.check k)) (owed (.fail k))
  due : ∀ k, (nodes k).isFinished = false →
    Due (nodes k).waits (nodes k).pending (owed (.signal k))
      (fun d => owed (.register k d) + (nodes d).waiters.count k) fun d => (nodes d).isFinished
  later : ∀ cycle ∈ later, ∀ k ∈ cycle, ∃ d ∈ cycle,
    d ∈ (nodes k).waits ∧ (nodes d).isFinished = false
  roots : ∀ k ∈ roots, (nodes k).isFinished = true ∨ (nodes k).isInFlight = true

namespace Balanced

open Duties

variable {live : Prop} {doomed : Cycle} {later : List Cycle} {roots : List Key}
  {nodes : Key → Node V} {owed owed' others : Duties} {k d : Key} {n : Node V}

theorem assigned_update (balanced : Balanced live doomed later roots nodes owed)
    (assigned : n.Assigned live (k ∈ doomed) (owed' (.hand k)) (owed' (.claim k)) (owed' (.check k))
      (owed' (.fail k)))
    (rest : ∀ l duty, k ≠ l → duty.Assigns l → owed' duty = owed duty) (l : Key) :
    (Function.update nodes k n l).Assigned live (l ∈ doomed) (owed' (.hand l)) (owed' (.claim l))
      (owed' (.check l)) (owed' (.fail l)) := by
  by_cases here : l = k
  · subst here
    simpa using assigned
  · have assigned := balanced.assigned l
    have same (duty : Duty) (has : duty.Assigns l) := rest l duty (Ne.symm here) has
    rw [← same (.hand l) rfl, ← same (.claim l) rfl, ← same (.check l) rfl, ← same (.fail l) rfl]
      at assigned
    simpa [here] using assigned

theorem roots_update (balanced : Balanced live doomed later roots nodes owed)
    (up : n.isFinished = true ∨ n.isInFlight = true ∨
      (nodes k).isFinished = false ∧ (nodes k).isInFlight = false) :
    ∀ l ∈ roots, (Function.update nodes k n l).isFinished = true ∨
      (Function.update nodes k n l).isInFlight = true := by
  intro l inside
  by_cases here : l = k
  · subst here
    have before := balanced.roots l inside
    simp only [Function.update_self]
    rcases up with finished | flying | ⟨unfinished, idle⟩
    · exact .inl finished
    · exact .inr flying
    · simp [unfinished, idle] at before
  · simpa [here] using balanced.roots l inside

-- What is done to a key and to the duty to have it is no matter to others, as long as the key waits
-- for the same and the same wait for it.
theorem turn (balanced : Balanced live doomed later roots nodes owed)
    (assigned : n.Assigned live (k ∈ doomed) (owed' (.hand k)) (owed' (.claim k)) (owed' (.check k))
      (owed' (.fail k))) (rest : ∀ duty, ¬duty.Assigns k → owed' duty = owed duty)
    (finished : n.isFinished = (nodes k).isFinished) (pending : n.pending = (nodes k).pending)
    (waits : n.waits = (nodes k).waits) (waiters : n.waiters = (nodes k).waiters)
    (up : (nodes k).isInFlight = true → n.isInFlight = true) :
    Balanced live doomed later roots (Function.update nodes k n) owed' := by
  constructor
  case assigned =>
    refine balanced.assigned_update assigned fun l duty ne has => rest duty ?_
    cases duty <;> simp_all [Duty.Assigns]
  case due =>
    intro l unfinished
    have signal : owed' (.signal l) = owed (.signal l) := rest _ id
    have register (d : Key) : owed' (.register l d) = owed (.register l d) := rest _ id
    simp only [Graph.update_congr _ finished, Graph.update_congr _ pending,
      Graph.update_congr _ waits, Graph.update_congr _ waiters, signal, register] at unfinished ⊢
    exact balanced.due l unfinished
  case later =>
    simp only [Graph.update_congr _ finished, Graph.update_congr _ waits]
    exact balanced.later
  case roots =>
    apply balanced.roots_update
    rw [finished]
    cases (nodes k).isFinished <;> cases flying : (nodes k).isInFlight <;> simp_all

theorem still (balanced : Balanced live doomed later roots nodes owed)
    (status : n.status = (nodes k).status) (dirty : n.dirty = (nodes k).dirty)
    (deps : n.deps = (nodes k).deps)
    (stage : n.flight.map Flight.stage = (nodes k).flight.map Flight.stage)
    (awaits : n.awaits = (nodes k).awaits) (waiters : n.waiters = (nodes k).waiters) :
    Balanced live doomed later roots (Function.update nodes k n) owed := by
  have pending : n.pending = (nodes k).pending := by
    have same := congrArg (Option.map Stage.pending) stage
    simp only [Option.map_map] at same
    exact congrArg (Option.getD · 0) same
  have flying : n.isInFlight = (nodes k).isInFlight := by
    simpa [Node.isInFlight] using congrArg Option.isSome stage
  have assigned := (balanced.assigned k).congr status dirty deps stage
  refine balanced.turn assigned (fun _ _ => rfl) ?_ pending ?_ waiters fun up => flying.trans up
  · simp [Node.isFinished, Node.isDirty, status, dirty]
  · simp [Node.waits, pending, awaits]

theorem asked (balanced : Balanced live doomed later roots nodes owed)
    (up : (nodes k).isFinished = true ∨ (nodes k).isInFlight = true) :
    Balanced live doomed later (roots ++ [k]) nodes owed :=
  { balanced with
    roots := fun l inside => by
      rcases List.mem_append.mp inside with inside | inside
      · exact balanced.roots l inside
      · rwa [List.mem_singleton.mp inside] }

theorem weaken (balanced : Balanced live doomed later roots nodes owed) {live' : Prop}
    (weaker : live' → live) : Balanced live' doomed later roots nodes owed where
  assigned k :=
    { balanced.assigned k with
      kept := fun going => (balanced.assigned k).kept (weaker going) }
  due := balanced.due
  later := balanced.later
  roots := balanced.roots

-- Once a pass has stopped a key need not be worked on.
theorem drop (balanced : Balanced live doomed later roots nodes (owed + others)) (stopped : ¬live)
    (has : owed = one (.hand k) ∨ owed = one (.claim k) ∨ owed = one (.check k)) :
    Balanced live doomed later roots nodes others where
  assigned l := by
    have assigned := balanced.assigned l
    have ⟨_, _, _, hands, claims, _, verified, broken, spared⟩ := assigned
    simp only [Pi.add_apply] at hands claims verified broken spared
    have kept (d : Duty) (fails : d = .fail l) : owed d = 0 := by
      rcases has with rfl | rfl | rfl <;> simp [one, fails]
    refine { assigned with
      kept := fun going => absurd going stopped
      hands := by omega
      claims := by omega
      verified := fun some => verified (by omega)
      broken := fun inside => ?_
      spared := fun out => ?_ }
    · obtain ⟨hand, claims, fail⟩ := broken inside
      rw [kept _ rfl, Nat.zero_add] at fail
      refine ⟨?_, ?_, fail⟩ <;> omega
    · have := spared out
      omega
  due l unfinished := by
    have due := balanced.due l unfinished
    rcases has with rfl | rfl | rfl <;> simpa [one] using due
  later := balanced.later
  roots := balanced.roots

theorem of_hand (balanced : Balanced live doomed later roots nodes (one (.hand k) + others)) :
    (∃ f, (nodes k).flight = some f ∧ f.stage = .queued) ∧ k ∉ doomed ∧ others (.hand k) = 0 ∧
      others (.claim k) = 0 ∧ others (.check k) = 0 ∧ others (.fail k) = 0 := by
  obtain ⟨-, -, -, hands, claims, -, -, broken, spared⟩ := balanced.assigned k
  simp only [one, Pi.add_apply, if_true, reduceCtorEq, if_false, Nat.zero_add]
    at hands claims broken spared
  obtain ⟨-, unclaimed, f, flight, queued⟩ := Node.queued_facts (n := nodes k) (by omega)
  rw [Node.queued_of_flight flight, if_pos queued] at hands
  simp only [unclaimed, Bool.toNat_false] at claims
  have out : k ∉ doomed := fun inside => by
    have := (broken inside).1
    omega
  exact ⟨⟨f, flight, queued⟩, out, by omega, by omega, by omega, spared out⟩

theorem claim (balanced : Balanced live doomed later roots nodes (one (.hand k) + others)) :
    ∃ task, (nodes k).claim.1 = some task ∧
      Balanced live doomed later roots (Function.update nodes k (nodes k).claim.2)
        (one (if task = .compute then .claim k else .check k) + others) := by
  obtain ⟨⟨f, flight, queued⟩, out, hand, claim, check, fail⟩ := balanced.of_hand
  have assigned := balanced.assigned k
  have unfinished : (nodes k).isFinished = false :=
    assigned.busy (by simp [Node.isInFlight, flight])
  obtain ⟨task, status, claimed, kinds⟩ := Node.claim_of_queued flight queued
  have kept : status = (nodes k).status ∨ status.isSettled = false := by
    rcases kinds with ⟨-, rfl⟩ | ⟨-, -, rfl | rfl⟩ <;> simp [Status.isSettled]
  have unfinished' := Node.isFinished_of_status unfinished kept (nodes k).starts
    (some { f with stage := .claimed })
  rw [claimed]
  have none : (nodes k).pending = 0 := by simp [Node.pending, flight, queued, Stage.pending]
  refine ⟨task, rfl, balanced.turn ?_ ?_ (unfinished'.trans unfinished.symm) none.symm ?_ ?_
    fun _ => rfl⟩
  · constructor
    case busy => exact fun _ => unfinished'
    case distinct =>
      intro rests
      apply assigned.distinct
      rcases kinds with ⟨-, rfl⟩ | ⟨-, rests, -⟩
      · simp at rests
      · exact rests
    case parked =>
      rintro _ m ⟨⟩ stage
      cases stage
    case verified =>
      intro some
      rcases kinds with ⟨rfl, -⟩ | ⟨-, rests, rfl | rfl⟩
      · simp [one, check] at some
      · exact .inr rfl
      · exact rests
    case broken => exact fun inside => absurd inside out
    all_goals by_cases task = .compute <;> simp_all [one, Node.queued, Node.isClaimed]
  · intro duty rest
    by_cases task = .compute <;> cases duty <;> simp_all [Duty.Assigns, one]
  · exact (Node.waits_of_pending none).symm
  · simp [Node.waiters, flight]

theorem of_claim (balanced : Balanced live doomed later roots nodes (owed + others))
    (has : owed = one (.claim k) ∨ owed = one (.check k)) :
    (nodes k).isClaimed = true ∧ k ∉ doomed ∧ others (.hand k) = 0 ∧ others (.claim k) = 0 ∧
      others (.check k) = 0 ∧ others (.fail k) = 0 := by
  obtain ⟨-, -, -, hands, claims, -, -, broken, spared⟩ := balanced.assigned k
  have claimed : (nodes k).isClaimed = true := by
    cases claimed : (nodes k).isClaimed with
    | true => rfl
    | false => rcases has with rfl | rfl <;> simp [claimed, one] at claims
  have free := (Node.claimed_facts claimed).2.1
  have out : k ∉ doomed := fun inside => by
    have none := (broken inside).2.1
    rcases has with rfl | rfl <;> simp [one] at none
  rw [claimed] at claims
  have unfailed := spared out
  rcases has with rfl | rfl <;> simp [one] at hands claims unfailed <;>
    refine ⟨claimed, out, ?_, ?_, ?_, unfailed⟩ <;> omega

theorem start (balanced : Balanced live doomed later roots nodes (owed + others))
    (has : owed = one (.claim k) ∨ owed = one (.check k)) :
    Balanced live doomed later roots
      (Function.update nodes k (nodes k).start.2.releaseMemo.2) (one (.claim k) + others) := by
  obtain ⟨claimed, out, hand, claim, check, fail⟩ := balanced.of_claim has
  obtain ⟨none, -, flying, f, flight, stage⟩ := Node.claimed_facts claimed
  have unfinished : (nodes k).isFinished = false := (balanced.assigned k).busy flying
  have flight' : (nodes k).start.2.releaseMemo.2.flight = some { f with memo := [] } := by
    simp [Node.start, Node.releaseMemo, flight]
  have unfinished' : (nodes k).start.2.releaseMemo.2.isFinished = false := rfl
  have pending : (nodes k).start.2.releaseMemo.2.pending = 0 := by
    simp [Node.pending, flight', stage, Stage.pending]
  refine balanced.turn ?_ ?_ (unfinished'.trans unfinished.symm) (pending.trans none.symm) ?_ ?_ ?_
  · constructor
    case busy => exact fun _ => unfinished'
    case distinct => simp [Node.start, Node.releaseMemo]
    case parked =>
      intro f' m found parked
      cases flight'.symm.trans found
      simp [stage] at parked
    case broken => exact fun inside => absurd inside out
    all_goals
      simp [one, hand, claim, check, fail, Node.queued, Node.isClaimed, flight', stage]
  · intro duty rest
    rcases has with rfl | rfl <;> cases duty <;> simp_all [Duty.Assigns, one]
  · rw [Node.waits_of_pending none, Node.waits_of_pending pending]
  · simp [Node.waiters, flight, flight']
  · simp [Node.isInFlight, flight']

theorem park (balanced : Balanced live doomed later roots nodes (owed + others))
    (has : owed = one (.claim k) ∨ owed = one (.check k)) {awaits : List Key} (once : awaits.Nodup)
    (memo : Memo V) :
    Balanced live doomed later roots (Function.update nodes k ((nodes k).park awaits memo))
      (one (.signal k) + registers k awaits + others) := by
  obtain ⟨claimed, out, hand, claim, check, fail⟩ := balanced.of_claim has
  obtain ⟨none, -, flying, f, flight, -⟩ := Node.claimed_facts claimed
  have assigned := balanced.assigned k
  have parked : ((nodes k).park awaits memo).flight =
      some { f with stage := .parked (awaits.length + 1), awaits, memo } := by
    simp [Node.park, flight]
  have finished : ((nodes k).park awaits memo).isFinished = (nodes k).isFinished := rfl
  have waiters : ((nodes k).park awaits memo).waiters = (nodes k).waiters := by
    simp [Node.waiters, parked, flight]
  constructor
  case assigned =>
    refine balanced.assigned_update ?_ fun l duty ne inside => ?_
    · constructor
      case busy => exact fun _ => finished ▸ assigned.busy flying
      case distinct => exact assigned.distinct
      case spared => simp [one, registers, fail]
      case parked =>
        rw [parked]
        rintro _ m ⟨⟩ stage
        have := Stage.parked.inj stage
        omega
      all_goals
        simp [one, registers, hand, claim, check, fail, out, parked, Node.queued, Node.isClaimed]
    · rcases has with rfl | rfl <;> cases duty <;> simp_all [Duty.Assigns, one, registers]
  case due =>
    intro l unfinished
    simp only [Graph.update_congr _ finished, Graph.update_congr _ waiters] at unfinished ⊢
    have due := balanced.due l unfinished
    by_cases here : l = k
    · subst here
      have pending : ((nodes l).park awaits memo).pending = awaits.length + 1 := by
        simp [Node.pending, parked, Stage.pending]
      have waits : ((nodes l).park awaits memo).waits = awaits := by
        simp [Node.waits, pending, Node.awaits, parked]
      rw [Node.waits_of_pending none, none] at due
      simp only [Function.update_self, pending, waits]
      rcases has with rfl | rfl <;>
        simpa [one, registers, Nat.add_comm, Nat.add_assoc] using due.park once
    · rcases has with rfl | rfl <;>
        simpa [here, Ne.symm here, one, registers] using due
  case later =>
    intro cycle found l inside
    obtain ⟨d, next, awaited, unfinished⟩ := balanced.later cycle found l inside
    refine ⟨d, next, ?_, by rwa [Graph.update_congr _ finished]⟩
    by_cases here : l = k
    · subst here
      simp [Node.waits_of_pending none] at awaited
    · simpa [here] using awaited
  case roots =>
    apply balanced.roots_update
    simp [Node.isInFlight, parked]

-- The key awaited has finished since it was found missing: the signal for it is given at once.
theorem late (balanced : Balanced live doomed later roots nodes (one (.register k d) + others))
    (finished : (nodes d).isFinished = true) :
    Balanced live doomed later roots nodes (one (.signal k) + others) where
  assigned l := by simpa [one] using balanced.assigned l
  due l unfinished := by
    have due := balanced.due l unfinished
    by_cases here : k = l
    · subst here
      have moved : Due (nodes k).waits (nodes k).pending
          ((one (.register k d) + others) (.signal k) + 1)
          (fun e => others (.register k e) + (nodes e).waiters.count k)
          fun e => (nodes e).isFinished := by
        refine due.move (d := d) ?_ ?_ (fun _ => id) fun _ => finished
        · simp only [one, Pi.add_apply, if_true]
          omega
        · intro e ne
          simp [one, Ne.symm ne]
      simpa [one, Nat.add_comm] using moved
    · simpa [one, here] using due
  later := balanced.later
  roots := balanced.roots

theorem enqueue (balanced : Balanced live doomed later roots nodes owed)
    (unfinished : (nodes k).isFinished = false) (idle : (nodes k).flight = none) :
    Balanced live doomed later roots
      (Function.update nodes k { nodes k with flight := some {} }) (one (.hand k) + owed) := by
  have assigned := balanced.assigned k
  have hands := assigned.hands
  have claims := assigned.claims
  obtain ⟨none, free, unclaimed, -⟩ := Node.idle_facts idle
  have out : k ∉ doomed := fun inside => by
    have up := (assigned.broken inside).2.2
    simp [unfinished, Node.isInFlight, idle] at up
  have none' : Node.pending { nodes k with flight := some {} } = 0 := rfl
  rw [free] at hands
  rw [unclaimed] at claims
  refine balanced.turn ?_ ?_ rfl (none'.trans none.symm) ?_ ?_ fun _ => rfl
  · constructor
    case busy => exact fun _ => unfinished
    case distinct => exact assigned.distinct
    case verified => simpa [one] using assigned.verified
    case spared => simpa [one] using assigned.spared
    case parked =>
      rintro _ m ⟨⟩ stage
      cases stage
    case broken => exact fun inside => absurd inside out
    case hands => simp [one, Node.queued, Nat.le_zero.mp hands]
    case claims => simpa [one, Node.isClaimed] using claims
    case kept => simp [one, Node.queued, Node.isClaimed]
  · intro duty rest
    cases duty <;> simp_all [Duty.Assigns, one]
  · rw [Node.waits_of_pending none, Node.waits_of_pending none']
  · simp [Node.waiters, idle]

theorem wait (balanced : Balanced live doomed later roots nodes (one (.register k d) + others))
    {f : Flight V} (flight : (nodes d).flight = some f)
    (registered : n = { nodes d with flight := some { f with
      waiters := if k ∈ f.waiters then f.waiters else f.waiters ++ [k] } }) :
    Balanced live doomed later roots (Function.update nodes d n) others := by
  have finished : n.isFinished = (nodes d).isFinished := registered ▸ rfl
  have pending : n.pending = (nodes d).pending := by simp [Node.pending, registered, flight]
  have waits : n.waits = (nodes d).waits := by
    simp only [Node.waits, pending]
    simp [Node.awaits, registered, flight]
  have waiters : n.waiters = if k ∈ f.waiters then f.waiters else f.waiters ++ [k] := by
    simp [Node.waiters, registered]
  have before : (nodes d).waiters = f.waiters := by simp [Node.waiters, flight]
  constructor
  case assigned =>
    refine balanced.assigned_update ?_ fun l duty ne inside => ?_
    · simpa [one] using (balanced.assigned d).congr (m := n) (registered ▸ rfl) (registered ▸ rfl)
        (registered ▸ rfl) (by simp [registered, flight])
    · cases duty <;> simp_all [Duty.Assigns, one]
  case due =>
    intro l unfinished
    simp only [Graph.update_congr _ finished, Graph.update_congr _ pending,
      Graph.update_congr _ waits] at unfinished ⊢
    have due := balanced.due l unfinished
    have same (e : Key) :
        (one (.register k d) + others) (.register l e) + (nodes e).waiters.count l =
          others (.register l e) + (Function.update nodes d n e).waiters.count l := by
      have bound := due.bounded e
      by_cases there : e = d
      · subst there
        by_cases here : k = l
        · subst here
          have single : (nodes e).waiters.count k = 0 := by
            simp only [one, Pi.add_apply, if_true] at bound
            split at bound <;> omega
          rw [before] at single
          simp [one, waiters, before, List.count_eq_zero.mp single, single]
          omega
        · have out : ([k] : List Key).count l = 0 := by simp [here]
          simp only [Function.update_self, waiters, before]
          split <;> simp [one, here]
      · simp [one, Ne.symm there, there]
    simp only [same] at due
    simpa [one] using due
  case later =>
    simp only [Graph.update_congr _ finished, Graph.update_congr _ waits]
    exact balanced.later
  case roots =>
    apply balanced.roots_update
    simp [Node.isInFlight, registered]

theorem roused (balanced : Balanced live doomed later roots nodes (one (.signal k) + others))
    (roused : (nodes k).countDown.1 = true) :
    (nodes k).isFinished = false ∧ others (.signal k) = 0 ∧
      ∀ d ∈ (nodes k).waits, (nodes d).isFinished = true := by
  have last : (nodes k).pending = 1 := (nodes k).pending_countDown.2.2.2.mp roused
  have unfinished : (nodes k).isFinished = false := by
    apply (balanced.assigned k).busy
    cases flight : (nodes k).flight with
    | none => simp [Node.pending, flight] at last
    | some f => simp [Node.isInFlight, flight]
  have due := balanced.due k unfinished
  have counted := due.counted
  simp only [one, Pi.add_apply, if_true] at due counted
  refine ⟨unfinished, by omega, fun d awaited => ?_⟩
  have none := due.nothing (by omega) d
  by_contra open'
  have some := due.owed d awaited (by simpa using open')
  omega

theorem countDown (balanced : Balanced live doomed later roots nodes (one (.signal k) + others)) :
    Balanced live doomed later roots (Function.update nodes k (nodes k).countDown.2)
      (hands (if (nodes k).countDown.1 ∧ k ∉ doomed then [k] else []) + others) := by
  have ready := balanced.roused
  have assigned := (balanced.assigned k).countDown
  have waits := (nodes k).waits_countDown
  obtain ⟨pending, -, waiters, answer⟩ := (nodes k).pending_countDown
  have shape := (nodes k).countDown_eq
  generalize (nodes k).countDown = counting at *
  obtain ⟨b, n⟩ := counting
  dsimp only at *
  have finished : n.isFinished = (nodes k).isFinished := shape ▸ rfl
  have flying : n.isInFlight = (nodes k).isInFlight := by simp [Node.isInFlight, shape]
  constructor
  case assigned =>
    refine balanced.assigned_update ?_ fun l duty ne inside => ?_
    · by_cases roused : b = true ∧ k ∉ doomed <;> simpa [hands, one, roused] using assigned
    · split <;> cases duty <;> simp_all [Duty.Assigns, one, hands]
  case due =>
    intro l unfinished
    simp only [Graph.update_congr _ finished, Graph.update_congr _ waiters] at unfinished ⊢
    have due := balanced.due l unfinished
    by_cases here : k = l
    · subst here
      simp only [one, Pi.add_apply, reduceCtorEq, if_false, if_true, Nat.zero_add] at due
      simp only [hands, Pi.add_apply, Nat.zero_add, Function.update_self, pending, waits]
      cases b with
      | true =>
        rw [answer.mp rfl, Nat.add_comm] at due
        rw [answer.mp rfl]
        exact due.rouse (Nat.le_refl 1)
      | false =>
        have counted := due.counted
        obtain ⟨m, more⟩ : ∃ m, (nodes k).pending = m + 1 :=
          Nat.exists_eq_succ_of_ne_zero (by omega)
        rw [more, Nat.add_comm 1] at due
        rw [more]
        exact due.signal
    · simpa [one, hands, here, Ne.symm here] using due
  case later =>
    intro cycle found l inside
    obtain ⟨d, next, awaited, unfinished⟩ := balanced.later cycle found l inside
    refine ⟨d, next, ?_, by rwa [Graph.update_congr _ finished]⟩
    by_cases here : l = k
    · subst here
      cases b with
      | true => simp [(ready rfl).2.2 d awaited] at unfinished
      | false => simpa [waits] using awaited
    · simpa [here] using awaited
  case roots =>
    apply balanced.roots_update
    rw [finished, flying]
    cases (nodes k).isFinished <;> cases (nodes k).isInFlight <;> simp

theorem of_commits (balanced : Balanced live doomed later roots nodes (owed + others))
    (commits : Commits doomed later k owed) :
    k ∉ later.flatten ∧ others (.hand k) = 0 ∧ others (.claim k) = 0 ∧ others (.check k) = 0 ∧
      others (.fail k) = 0 := by
  have claimed (has : owed = one (.claim k) ∨ owed = one (.check k)) :
      k ∉ later.flatten ∧ others (.hand k) = 0 ∧ others (.claim k) = 0 ∧ others (.check k) = 0 ∧
        others (.fail k) = 0 := by
    obtain ⟨claimed, -, hand, claim, check, fail⟩ := balanced.of_claim has
    refine ⟨fun inside => ?_, hand, claim, check, fail⟩
    obtain ⟨cycle, found, member⟩ := List.mem_flatten.mp inside
    obtain ⟨d, -, awaited, -⟩ := balanced.later cycle found k member
    simp [Node.waits_of_pending (Node.claimed_facts claimed).1] at awaited
  cases commits with
  | claim => exact claimed (.inl rfl)
  | check => exact claimed (.inr rfl)
  | fail inside out =>
    obtain ⟨hand, claims, fail⟩ := (balanced.assigned k).broken inside
    simp only [one, Pi.add_apply, reduceCtorEq, if_false, if_true] at hand claims fail
    refine ⟨out, ?_, ?_, ?_, ?_⟩ <;> omega

theorem commit (balanced : Balanced live doomed later roots nodes (owed + others))
    (commits : Commits doomed later k owed) (finished : n.isFinished = true)
    (idle : n.flight = none) (distinct : n.status = .done ∨ n.status = .verifying →
      n.deps.flatten.Nodup) :
    Balanced live doomed later roots (Function.update nodes k n)
      (signals (nodes k).waiters + others) := by
  obtain ⟨out, hand, claim, check, fail⟩ := balanced.of_commits commits
  obtain ⟨none, free, unclaimed, grounded⟩ := Node.idle_facts idle
  have elsewhere (duty : Duty) (ne : ¬duty.Assigns k) : (owed + others) duty = others duty := by
    cases commits <;> cases duty <;> simp_all [Duty.Assigns, one]
  constructor
  case assigned =>
    refine balanced.assigned_update ?_ fun l duty ne inside => ?_
    · simp only [signals, Pi.add_apply, Nat.zero_add, hand, claim, check, fail]
      constructor
      case busy => simp [grounded]
      case distinct => exact distinct
      case parked => simp [idle]
      case broken => simp [finished]
      all_goals simp [free, unclaimed]
    · rw [elsewhere duty (by cases duty <;> simp_all [Duty.Assigns])]
      cases duty <;> simp_all [Duty.Assigns, signals]
  case due =>
    intro l unfinished
    by_cases here : l = k
    · subst here
      simp [finished] at unfinished
    · have open' : (nodes l).isFinished = false := by simpa [here] using unfinished
      have due := balanced.due l open'
      have registers (d : Key) : (owed + others) (.register l d) = others (.register l d) :=
        elsewhere _ id
      simp only [registers, elsewhere (.signal l) id] at due
      have moved : Due (nodes l).waits (nodes l).pending
          (others (.signal l) + (nodes k).waiters.count l)
          (fun d => others (.register l d) + (Function.update nodes k n d).waiters.count l)
          fun d => (Function.update nodes k n d).isFinished := by
        refine due.move (d := k) ?_ ?_ ?_ ?_
        · simp [Node.waiters, idle]
        · intro d ne
          simp [ne]
        · intro d done
          by_cases same : d = k
          · simp [same, finished]
          · simpa [same] using done
        · simp [finished]
      simpa [here, signals, Nat.add_comm] using moved
  case later =>
    intro cycle found l inside
    have apart {l : Key} (inside : l ∈ cycle) : l ≠ k := by
      rintro rfl
      exact out (List.mem_flatten_of_mem found inside)
    obtain ⟨d, next, awaited, unfinished⟩ := balanced.later cycle found l inside
    exact ⟨d, next, by simpa [apart inside] using awaited, by simpa [apart next] using unfinished⟩
  case roots =>
    apply balanced.roots_update
    exact .inl finished

theorem doom {cycle : Cycle} (balanced : Balanced live [] (cycle :: later) roots nodes owed)
    (once : cycle.Nodup) : Balanced live cycle later roots nodes (fails cycle + owed) where
  assigned k := by
    have assigned := balanced.assigned k
    have ⟨_, _, _, hands, claims, kept, _, _, spared⟩ := assigned
    have unfailed := spared (by simp)
    refine { assigned with
      hands := by simpa [fails] using hands
      claims := by simpa [fails] using claims
      kept := fun going out => by simpa [fails] using kept going (by simp)
      verified := by simpa [fails] using assigned.verified
      broken := fun inside => ?_
      spared := fun out => by simp [fails, unfailed, List.count_eq_zero_of_not_mem out] }
    obtain ⟨d, -, awaited, -⟩ := balanced.later cycle List.mem_cons_self k inside
    have pending : (nodes k).pending ≠ 0 := fun none => by
      simp [Node.waits_of_pending none] at awaited
    have flying : (nodes k).isInFlight = true := by
      cases flight : (nodes k).flight with
      | none => exact absurd (Node.idle_facts flight).1 pending
      | some f => simp [Node.isInFlight, flight]
    have free : (nodes k).queued = 0 := by
      by_contra queued
      exact pending (Node.queued_facts queued).1
    have unclaimed : (nodes k).isClaimed = false := by
      cases claimed : (nodes k).isClaimed with
      | false => rfl
      | true => exact absurd (Node.claimed_facts claimed).1 pending
    simp only [free, unclaimed, Bool.toNat_false, Nat.le_zero, Nat.add_eq_zero_iff] at hands claims
    simp [fails, hands, claims, unfailed, flying, List.count_eq_one_of_mem once inside]
  due k unfinished := by simpa [fails] using balanced.due k unfinished
  later cycle' found := balanced.later cycle' (List.mem_cons_of_mem cycle found)
  roots := balanced.roots

theorem saved (balanced : Balanced live doomed later roots nodes owed)
    (done : ∀ k ∈ doomed, owed (.fail k) = 0) : Balanced live [] later roots nodes owed where
  assigned k := by
    have assigned := balanced.assigned k
    refine { assigned with kept := fun going _ => ?_, broken := by simp, spared := fun _ => ?_ }
    · by_cases inside : k ∈ doomed
      · obtain ⟨-, -, ⟨-, finished⟩ | ⟨failing, -⟩⟩ := assigned.broken inside
        · cases flight : (nodes k).flight with
          | none => simp [Node.idle_facts flight]
          | some f => simp [assigned.busy (by simp [Node.isInFlight, flight])] at finished
        · simp [done k inside] at failing
      · exact assigned.kept going inside
    · by_cases inside : k ∈ doomed
      · exact done k inside
      · exact assigned.spared inside
  due := balanced.due
  later := balanced.later
  roots := balanced.roots

end Balanced

end Recompute
