import Recompute.Proofs.Results
import Mathlib.Data.List.Nodup

set_option autoImplicit false

namespace Recompute

variable {S V : Type}

def Stage.pending : Stage → Nat
  | .parked m => m
  | .queued | .claimed => 0

theorem Stage.parked_of_pending {stage : Stage} (some : 0 < stage.pending) :
    ∃ m, stage = .parked m := by
  cases stage with
  | parked m => exact ⟨m, rfl⟩
  | queued | claimed => simp [pending] at some

theorem Stage.pending_eq_zero {stage : Stage} (up : ∀ m, stage ≠ .parked m) : stage.pending = 0 := by
  cases stage with
  | parked m => exact absurd rfl (up m)
  | queued | claimed => rfl

theorem Flight.pending_signalled (f : Flight V) :
    f.stage.pending ≤ f.signalled.stage.pending + 1 := by
  cases stage : f.stage with
  | queued | claimed => simp [Stage.pending]
  | parked m => rcases m with _ | _ | m <;> simp [Flight.signalled, stage, Stage.pending]

namespace Graph

theorem mem_missing {g : Graph V} {keys : List Key} {d : Key} :
    d ∈ g.missing keys ↔ d ∈ keys ∧ (g.node d).isFinished = false := by
  simp [missing]

theorem missing_congr {g g' : Graph V} {keys : List Key}
    (same : ∀ d ∈ keys, (g'.node d).isFinished = (g.node d).isFinished) :
    g'.missing keys = g.missing keys :=
  List.filter_congr fun d inside => by rw [same d inside]

theorem missing_eq_nil {g : Graph V} {keys : List Key} :
    g.missing keys = [] ↔ ∀ d ∈ keys, (g.node d).isFinished = true := by
  simp [missing]

theorem parked_nil (g : Graph V) (k : Key) (n : Node V) :
    g.parked k n [] = Function.update g.node k n := by
  funext l
  simp [parked]

theorem unfinished_parked {g : Graph V} {k : Key} {n : Node V} {awaits : List Key}
    (still : n.isFinished = false) (missing : ∀ d ∈ awaits, (g.node d).isFinished = false) :
    ∀ d ∈ awaits, (Function.update g.node k n d).isFinished = false := by
  intro d inside
  by_cases same : d = k
  · subst same
    simp [still]
  · simp [same, missing d inside]

theorem parked_flight {g : Graph V} {k : Key} {n : Node V} {awaits : List Key}
    (unfinished : ∀ d ∈ awaits, (Function.update g.node k n d).isFinished = false) {l : Key}
    {f : Flight V} (flight : (g.parked k n awaits l).flight = some f) :
    ∃ f', (Function.update g.node k n l).flight.getD {} = f' ∧ f.stage = f'.stage ∧
      f.awaits = f'.awaits ∧ f.waiters =
        if l ∈ awaits ∧ k ∉ f'.waiters then f'.waiters ++ [k] else f'.waiters := by
  refine ⟨_, rfl, ?_⟩
  unfold parked at flight
  by_cases inside : l ∈ awaits
  · rw [if_pos inside, Node.register_of_unfinished (unfinished l inside)] at flight
    cases flight
    generalize Function.update g.node k n l = n'
    cases before : n'.flight with
    | none => simp [Node.waiters, before, inside]
    | some f => by_cases known : k ∈ f.waiters <;> simp [Node.waiters, before, inside, known]
  · rw [if_neg inside] at flight
    simp [flight, inside]

theorem flight_parked {g : Graph V} {k : Key} {n : Node V} {awaits : List Key}
    (unfinished : ∀ d ∈ awaits, (Function.update g.node k n d).isFinished = false) {l : Key}
    {f : Flight V} (flight : (Function.update g.node k n l).flight = some f) :
    ∃ f', (g.parked k n awaits l).flight = some f' ∧ f'.stage = f.stage ∧ f'.awaits = f.awaits := by
  unfold parked
  split
  next inside =>
    rw [Node.register_of_unfinished (unfinished l inside)]
    exact ⟨_, rfl, by simp [flight], by simp [flight]⟩
  next => exact ⟨f, flight, rfl, rfl⟩

theorem mem_waiters_parked {g : Graph V} {k : Key} {n : Node V} {awaits : List Key}
    (unfinished : ∀ d ∈ awaits, (Function.update g.node k n d).isFinished = false) (l x : Key) :
    x ∈ (g.parked k n awaits l).waiters ↔
      x ∈ (Function.update g.node k n l).waiters ∨ l ∈ awaits ∧ x = k := by
  unfold parked
  by_cases inside : l ∈ awaits
  · rw [if_pos inside, Node.register_of_unfinished (unfinished l inside)]
    generalize Function.update g.node k n l = n'
    by_cases known : k ∈ n'.waiters
    · simp only [Node.waiters] at known ⊢
      simp [known, inside]
      rintro rfl
      exact known
    · simp only [Node.waiters] at known ⊢
      simp [known, inside]
  · simp [inside]

section

variable {g : Graph V} {k : Key} {n : Node V} {awaits : List Key}

theorem nodup_waiters_parked {l : Key} (once : (Function.update g.node k n l).waiters.Nodup)
    (unfinished : ∀ d ∈ awaits, (Function.update g.node k n d).isFinished = false) :
    (g.parked k n awaits l).waiters.Nodup := by
  unfold parked
  split
  next inside =>
    rw [Node.register_of_unfinished (unfinished l inside)]
    generalize Function.update g.node k n l = n' at once
    change (if k ∈ n'.waiters then n'.waiters else n'.waiters ++ [k]).Nodup
    split
    next => exact once
    next new => simpa [List.nodup_append, once] using fun x old => ne_of_mem_of_not_mem old new
  next => exact once

theorem isFinished_parked (unfinished : (g.node k).isFinished = false) (still : n.isFinished = false)
    (d : Key) : (g.parked k n awaits d).isFinished = (g.node d).isFinished := by
  have updated := update_congr Node.isFinished (still.trans unfinished.symm) d
  rw [← updated, parked]
  split
  · exact (Node.SameResult.register _ _).finished
  · rfl

theorem parked_cases {f' : Flight V}
    (unfinished : ∀ d ∈ awaits, (Function.update g.node k n d).isFinished = false)
    (flight' : n.flight = some f') {l : Key} {f : Flight V}
    (found : (g.parked k n awaits l).flight = some f) :
    (l = k ∧ f.stage = f'.stage ∧ f.awaits = f'.awaits) ∨
      (f.stage = .queued ∧ f.awaits = []) ∨
      ∃ f₀, (g.node l).flight = some f₀ ∧ f.stage = f₀.stage ∧ f.awaits = f₀.awaits := by
  obtain ⟨f₀, before, stage₀, awaits₀, -⟩ := parked_flight unfinished found
  by_cases same : l = k
  · subst same
    simp only [Function.update_self, flight', Option.getD_some] at before
    subst before
    exact .inl ⟨rfl, stage₀, awaits₀⟩
  · right
    rw [Function.update_of_ne same] at before
    cases base : (g.node l).flight with
    | none =>
      simp only [base, Option.getD_none] at before
      subst before
      exact .inl ⟨stage₀, awaits₀⟩
    | some f₁ =>
      simp only [base, Option.getD_some] at before
      subst before
      exact .inr ⟨_, rfl, stage₀, awaits₀⟩

end

-- What holds of waiters even when a listener may give up: who is parked may wait for signals that
-- never come, but whoever is ready has everything that it was parked on.
structure WaiterInvariant (g : Graph V) : Prop where
  once : ∀ d, (g.node d).waiters.Nodup
  waiting : ∀ k d, k ∈ (g.node d).waiters → (g.node k).isFinished = true ∨
    ∃ f m, (g.node k).flight = some f ∧ f.stage = .parked m ∧ d ∈ f.awaits
  counted : ∀ k f m, (g.node k).flight = some f → f.stage = .parked m →
    (g.missing f.awaits).length ≤ m
  ready : ∀ k f, (g.node k).flight = some f → (∀ m, f.stage ≠ .parked m) →
    ∀ d ∈ f.awaits, (g.node d).isFinished = true

variable {g g' : Graph V} {k : Key} {n : Node V}

theorem WaiterInvariant.left (waiterInv : g.WaiterInvariant) {f : Flight V}
    (flight : (g.node k).flight = some f) :
    (g.missing f.awaits).length ≤ f.stage.pending := by
  cases stage : f.stage with
  | parked m => exact waiterInv.counted k f m flight stage
  | queued | claimed =>
    have none := missing_eq_nil.mpr (waiterInv.ready k f flight (by simp [stage]))
    simp [none]

theorem ready_of_left {f : Flight V} (left : (g.missing f.awaits).length ≤ f.stage.pending)
    (up : ∀ m, f.stage ≠ .parked m) : ∀ d ∈ f.awaits, (g.node d).isFinished = true := by
  rw [Stage.pending_eq_zero up] at left
  exact missing_eq_nil.mp (List.eq_nil_of_length_eq_zero (Nat.le_zero.mp left))

theorem WaiterInvariant.of_left (once : ∀ d, (g.node d).waiters.Nodup)
    (waiting : ∀ k d, k ∈ (g.node d).waiters → (g.node k).isFinished = true ∨
      ∃ f m, (g.node k).flight = some f ∧ f.stage = .parked m ∧ d ∈ f.awaits)
    (left : ∀ k f, (g.node k).flight = some f → (g.missing f.awaits).length ≤ f.stage.pending) :
    g.WaiterInvariant where
  once := once
  waiting := waiting
  counted k f m flight parked := by
    have left := left k f flight
    rw [parked] at left
    exact left
  ready k f flight up := ready_of_left (left k f flight) up

theorem waiterInv_of_idle (idle : ∀ k, (g.node k).flight = none) : g.WaiterInvariant := by
  constructor <;> simp [idle, Node.waiters]

theorem missing_length_le (keys : List Key)
    (still : ∀ d, (g.node d).isFinished = true → (g'.node d).isFinished = true) :
    (g'.missing keys).length ≤ (g.missing keys).length := by
  refine (List.monotone_filter_right keys fun d open' => ?_).length_le
  have unfinished := mt (still d)
  simp_all

theorem missing_length_lt {keys : List Key} (inside : k ∈ g.missing keys)
    (still : ∀ d, (g.node d).isFinished = true → (g'.node d).isFinished = true)
    (finished : (g'.node k).isFinished = true) :
    (g'.missing keys).length < (g.missing keys).length := by
  have later : g'.missing keys = (g.missing keys).filter fun d => !(g'.node d).isFinished := by
    rw [missing, missing, List.filter_filter]
    refine List.filter_congr fun d _ => ?_
    have unfinished := mt (still d)
    cases before : (g.node d).isFinished <;> simp_all
  rw [later]
  refine List.length_filter_lt_length_iff_exists.mpr ⟨k, inside, ?_⟩
  simp [finished]

theorem WaiterInvariant.finish (waiterInv : g.WaiterInvariant) (shape : g.WellFormed)
    (unfinished : (g.node k).isFinished = false) (finished : (g'.node k).isFinished = true)
    (others : ∀ d, d ≠ k → (g'.node d).isFinished = (g.node d).isFinished)
    (moved : ∀ l f, (g'.node l).flight = some f → l ≠ k ∧ ∃ f₀, (g.node l).flight = some f₀ ∧
      f.awaits = f₀.awaits ∧ f.waiters = f₀.waiters ∧
      (f.stage = f₀.stage ∨ k ∈ f₀.awaits ∧ f.stage = f₀.signalled.stage))
    (flying : ∀ l, l ≠ k → (g.node l).isInFlight = true → (g'.node l).isInFlight = true) :
    g'.WaiterInvariant := by
  have still (d : Key) (done : (g.node d).isFinished = true) : (g'.node d).isFinished = true := by
    by_cases same : d = k
    · exact same ▸ finished
    · rw [others d same]
      exact done
  have left (l : Key) (f : Flight V) (found : (g'.node l).flight = some f) :
      (g'.missing f.awaits).length ≤ f.stage.pending := by
    obtain ⟨-, f₀, before, awaits, -, stage | ⟨awaited, stage⟩⟩ := moved l f found
    · rw [awaits, stage]
      exact Nat.le_trans (missing_length_le _ still) (waiterInv.left before)
    · -- A signal less is to come, and a key less is missing.
      have missing : k ∈ g.missing f₀.awaits := mem_missing.mpr ⟨awaited, unfinished⟩
      have fewer := missing_length_lt missing still finished
      have before := waiterInv.left before
      have signal := f₀.pending_signalled
      rw [awaits, stage]
      omega
  refine .of_left (fun d => ?_) (fun l d inside => ?_) left
  · cases found : (g'.node d).flight with
    | none => simp [Node.waiters, found]
    | some f =>
      obtain ⟨-, f₀, before, -, waiters, -⟩ := moved d f found
      simpa [Node.waiters, found, before, waiters] using waiterInv.once d
  · cases found : (g'.node d).flight with
    | none => simp [Node.waiters, found] at inside
    | some f =>
      obtain ⟨ne, f₀, before, -, waiters, -⟩ := moved d f found
      have open' : (g'.node d).isFinished = false := by
        rw [others d ne]
        exact (shape d).unfinished_of_flight before
      have old : l ∈ (g.node d).waiters := by
        simpa [Node.waiters, found, before, waiters] using inside
      rcases waiterInv.waiting l d old with done | ⟨f₁, m, waits, -, awaited⟩
      · exact .inl (still l done)
      · by_cases same : l = k
        · exact .inl (same ▸ finished)
        · obtain ⟨f', found'⟩ := Option.isSome_iff_exists.mp
            (flying l same (by simp [Node.isInFlight, waits]))
          obtain ⟨-, f₂, before', awaits, -⟩ := moved l f' found'
          cases waits.symm.trans before'
          have missing : d ∈ g'.missing f'.awaits := mem_missing.mpr ⟨awaits ▸ awaited, open'⟩
          obtain ⟨m, parked⟩ := Stage.parked_of_pending
            (Nat.lt_of_lt_of_le (List.length_pos_of_mem missing) (left l f' found'))
          exact .inr ⟨f', m, found', parked, awaits ▸ awaited⟩

theorem WaiterInvariant.settle (waiterInv : g.WaiterInvariant) (shape : g.WellFormed)
    (node : g'.node = (g.settled k n).node) (unfinished : (g.node k).isFinished = false)
    (finished : n.isFinished = true) (idle : n.flight = none) : g'.WaiterInvariant := by
  have flight (l : Key) : ((g.settled k n).node l).flight = if l ∈ (g.node k).waiters
      then (Function.update g.node k n l).flight.map Flight.signalled
      else (Function.update g.node k n l).flight := by
    split
    next inside => exact g.settled_flight_of_mem k n (waiterInv.once k) inside
    next out => exact g.settled_flight_of_notMem k n out
  refine waiterInv.finish shape unfinished ?_ (fun d ne => ?_) (fun l f found => ?_)
    fun l ne flying => ?_
  · rw [node, (g.settled_sameResult k n k).finished, Function.update_self]
    exact finished
  · rw [node, (g.settled_sameResult k n d).finished, Function.update_of_ne ne]
  · rw [node, flight] at found
    by_cases same : l = k
    · subst same
      simp [idle] at found
    · rw [Function.update_of_ne same] at found
      refine ⟨same, ?_⟩
      split at found
      next inside =>
        obtain ⟨f₀, before, rfl⟩ := Option.map_eq_some_iff.mp found
        rcases waiterInv.waiting l k inside with done | ⟨f₁, m, before₁, -, awaited⟩
        · simp [((shape l).finished done).1] at before
        · cases before.symm.trans before₁
          exact ⟨f₀, before, rfl, rfl, .inr ⟨awaited, rfl⟩⟩
      next out => exact ⟨f, found, rfl, rfl, .inl rfl⟩
  · simp only [Node.isInFlight] at flying ⊢
    rw [node, flight, Function.update_of_ne ne]
    split <;> simpa using flying

theorem WaiterInvariant.drop (waiterInv : g.WaiterInvariant) (shape : g.WellFormed)
    (node : g'.node = Function.update g.node k n) (unfinished : (g.node k).isFinished = false)
    (finished : n.isFinished = true) (idle : n.flight = none) : g'.WaiterInvariant := by
  refine waiterInv.finish shape unfinished ?_ (fun d ne => ?_) (fun l f found => ?_)
    fun l ne flying => ?_
  · rw [node, Function.update_self]
    exact finished
  · rw [node, Function.update_of_ne ne]
  · rw [node] at found
    by_cases same : l = k
    · subst same
      simp [idle] at found
    · rw [Function.update_of_ne same] at found
      exact ⟨same, f, found, rfl, rfl, .inl rfl⟩
  · rw [node, Function.update_of_ne ne]
    exact flying

theorem WaiterInvariant.park (waiterInv : g.WaiterInvariant) {f : Flight V} {reached : List Key}
    (node : g'.node = g.parked k n reached)
    (up : ∀ f m, (g.node k).flight = some f → f.stage ≠ .parked m)
    (unfinished : (g.node k).isFinished = false) (still : n.isFinished = false)
    (flight : n.flight = some f) (waiters : f.waiters = (g.node k).waiters)
    (missing : ∀ d ∈ reached, (g.node d).isFinished = false) (within : reached ⊆ f.awaits)
    (left : (g.missing f.awaits).length ≤ f.stage.pending) : g'.WaiterInvariant := by
  have open' := unfinished_parked (k := k) still missing
  have finished (d : Key) : (g'.node d).isFinished = (g.node d).isFinished := by
    rw [node, isFinished_parked unfinished still]
  have old (d : Key) : (Function.update g.node k n d).waiters = (g.node d).waiters :=
    update_congr Node.waiters (by simp [Node.waiters, flight, waiters]) d
  refine .of_left (fun d => ?_) (fun x d inside => ?_) fun l f' found => ?_
  · rw [node]
    exact nodup_waiters_parked (old d ▸ waiterInv.once d) open'
  · rw [node, mem_waiters_parked open', old] at inside
    rw [finished]
    rcases inside with before | ⟨awaited, rfl⟩
    · rcases waiterInv.waiting x d before with done | ⟨f₀, m, found, parked, awaits⟩
      · exact .inl done
      · have ne : x ≠ k := by
          rintro rfl
          exact up f₀ m found parked
        obtain ⟨f', found', stage, same⟩ := flight_parked open' (l := x)
          (by rw [Function.update_of_ne ne]; exact found)
        exact .inr ⟨f', m, node ▸ found', stage.trans parked, same ▸ awaits⟩
    · have here : (Function.update g.node x n x).flight = some f := by simpa using flight
      obtain ⟨f', found, stage, awaits⟩ := flight_parked open' here
      have missing : d ∈ g.missing f.awaits := mem_missing.mpr ⟨within awaited, missing d awaited⟩
      obtain ⟨m, parked⟩ := Stage.parked_of_pending
        (Nat.lt_of_lt_of_le (List.length_pos_of_mem missing) left)
      exact .inr ⟨f', m, node ▸ found, stage.trans parked, awaits ▸ within awaited⟩
  · rw [missing_congr fun d _ => finished d]
    rw [node] at found
    rcases parked_cases open' flight found with
      ⟨-, stage, awaits⟩ | ⟨-, awaits⟩ | ⟨f₀, before, stage, awaits⟩
    · rw [awaits, stage]
      exact left
    · simp [awaits, Graph.missing]
    · rw [awaits, stage]
      exact waiterInv.left before

theorem WaiterInvariant.renew (waiterInv : g.WaiterInvariant) {f : Flight V}
    (node : g'.node = Function.update g.node k n)
    (up : ∀ f m, (g.node k).flight = some f → f.stage ≠ .parked m)
    (unfinished : (g.node k).isFinished = false) (still : n.isFinished = false)
    (flight : n.flight = some f) (waiters : f.waiters = (g.node k).waiters)
    (awaits : f.awaits = (g.node k).awaits) : g'.WaiterInvariant := by
  have none : g.missing f.awaits = [] := by
    rw [awaits, missing_eq_nil]
    intro d inside
    cases before : (g.node k).flight with
    | none => simp [Node.awaits, before] at inside
    | some f₀ =>
      exact waiterInv.ready k f₀ before (fun m => up f₀ m before) d
        (by simpa [Node.awaits, before] using inside)
  rw [← parked_nil] at node
  exact waiterInv.park node up unfinished still flight waiters (by simp) (by simp) (by simp [none])

end Graph

end Recompute
