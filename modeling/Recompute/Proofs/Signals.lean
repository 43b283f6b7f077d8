import Recompute.Proofs.WaiterInvariant

set_option autoImplicit false

namespace Recompute

variable {S V : Type}

namespace Graph

-- Who is parked gets as many signals as it needs, and is registered for each of them.
structure Signalled (g : Graph V) : Prop where
  once : ∀ d, (g.node d).waiters.Nodup
  distinct : ∀ k f, (g.node k).flight = some f → f.awaits.Nodup
  counted : ∀ k f m, (g.node k).flight = some f → f.stage = .parked m →
    m ≠ 0 ∧ m = (g.missing f.awaits).length
  registered : ∀ k f m, (g.node k).flight = some f → f.stage = .parked m →
    ∀ d ∈ g.missing f.awaits, k ∈ (g.node d).waiters
  waiting : ∀ k d, k ∈ (g.node d).waiters → (g.node k).isFinished = true ∨
    ∃ f m, (g.node k).flight = some f ∧ f.stage = .parked m ∧ d ∈ f.awaits
  ready : ∀ k f, (g.node k).flight = some f → (∀ m, f.stage ≠ .parked m) →
    ∀ d ∈ f.awaits, (g.node d).isFinished = true

theorem Signalled.listed {g : Graph V} (signalled : g.Signalled) {k d : Key} {f : Flight V} {m : Nat}
    (flight : (g.node k).flight = some f) (parked : f.stage = .parked m) (awaited : d ∈ f.awaits)
    (unfinished : (g.node d).isFinished = false) :
    (g.node d).isInFlight = true ∧ (g.node d).waiters.count k = 1 := by
  have listed : k ∈ (g.node d).waiters :=
    signalled.registered k f m flight parked d (mem_missing.mpr ⟨awaited, unfinished⟩)
  constructor
  · cases idle : (g.node d).flight with
    | none => simp [Node.waiters, idle] at listed
    | some f => simp [Node.isInFlight, idle]
  · exact List.count_eq_one_of_mem (signalled.once d) listed

theorem Signalled.waiterInv {g : Graph V} (signalled : g.Signalled) : g.WaiterInvariant where
  once := signalled.once
  waiting := signalled.waiting
  counted k f m flight parked := (signalled.counted k f m flight parked).2 ▸ Nat.le_refl _
  ready := signalled.ready

section

variable {g g' : Graph V} {k : Key} {n : Node V} {f : Flight V}

theorem Signalled.update (signalled : g.Signalled) (node : g'.node = Function.update g.node k n)
    (unfinished : (g.node k).isFinished = false) (still : n.isFinished = false)
    (up : ∀ f m, (g.node k).flight = some f → f.stage ≠ .parked m) (flight : n.flight = some f)
    (stage : ∀ m, f.stage ≠ .parked m) (awaits : f.awaits = (g.node k).awaits)
    (waiters : f.waiters = (g.node k).waiters) : g'.Signalled := by
  have waiterInv := signalled.waiterInv.renew node up unfinished still flight waiters awaits
  have absent (keys : List Key) : g'.missing keys = g.missing keys :=
    missing_congr fun d _ => by
      rw [node, ← parked_nil, isFinished_parked unfinished still]
  have listed (d : Key) : (g'.node d).waiters = (g.node d).waiters :=
    node ▸ update_congr Node.waiters (by simp [Node.waiters, flight, waiters]) d
  have elsewhere {l : Key} {f' : Flight V} {m : Nat} (parked : (g'.node l).flight = some f')
      (stage' : f'.stage = .parked m) : (g.node l).flight = some f' := by
    by_cases same : l = k
    · subst same
      rw [node, Function.update_self, flight] at parked
      cases parked
      exact absurd stage' (stage m)
    · simpa [node, same] using parked
  constructor
  case once => exact waiterInv.once
  case waiting => exact waiterInv.waiting
  case ready => exact waiterInv.ready
  case distinct =>
    intro l f' found
    by_cases same : l = k
    · subst same
      rw [node, Function.update_self, flight] at found
      cases found
      rw [awaits]
      cases before : (g.node l).flight with
      | none => simp [Node.awaits, before]
      | some f₀ => simpa [Node.awaits, before] using signalled.distinct l f₀ before
    · exact signalled.distinct l f' (by simpa [node, same] using found)
  case counted =>
    intro l f' m found parked
    rw [absent]
    exact signalled.counted l f' m (elsewhere found parked) parked
  case registered =>
    intro l f' m found parked d inside
    rw [absent] at inside
    rw [listed]
    exact signalled.registered l f' m (elsewhere found parked) parked d inside

theorem Signalled.park (signalled : g.Signalled) {f' : Flight V} {awaits : List Key}
    (node : g'.node = g.parked k n awaits)
    (flight : (g.node k).flight = some f) (up : ∀ m, f.stage ≠ .parked m)
    (unfinished : (g.node k).isFinished = false) (still : n.isFinished = false)
    (flight' : n.flight = some f') (stage : f'.stage = .parked awaits.length)
    (awaits' : f'.awaits = awaits) (waiters : f'.waiters = f.waiters) (once : awaits.Nodup)
    (some : awaits ≠ []) (missing : ∀ d ∈ awaits, (g.node d).isFinished = false) :
    g'.Signalled := by
  have open' := unfinished_parked (k := k) still missing
  have all : g.missing awaits = awaits := by
    simpa [Graph.missing, List.filter_eq_self] using missing
  have waiterInv : g'.WaiterInvariant := by
    refine signalled.waiterInv.park node ?_ unfinished still flight'
      (by simp [Node.waiters, flight, waiters]) missing (awaits' ▸ List.Subset.refl _) ?_
    · intro f₀ m found
      cases flight.symm.trans found
      exact up m
    · rw [awaits', all, stage]
      exact Nat.le_refl _
  have absent (keys : List Key) : g'.missing keys = g.missing keys :=
    missing_congr fun d _ => by rw [node, isFinished_parked unfinished still]
  have listed (l x : Key) :
      x ∈ (g'.node l).waiters ↔ x ∈ (g.node l).waiters ∨ l ∈ awaits ∧ x = k := by
    have rest : (Function.update g.node k n l).waiters = (g.node l).waiters :=
      update_congr Node.waiters (by simp [Node.waiters, flight, flight', waiters]) l
    rw [node, mem_waiters_parked open', rest]
  constructor
  case once => exact waiterInv.once
  case waiting => exact waiterInv.waiting
  case ready => exact waiterInv.ready
  case distinct =>
    intro l f'' found
    rw [node] at found
    rcases parked_cases open' flight' found with ⟨-, -, same⟩ | ⟨-, same⟩ | ⟨f₀, before, -, same⟩
    · exact same ▸ awaits' ▸ once
    · simp [same]
    · exact same ▸ signalled.distinct l f₀ before
  case counted =>
    intro l f'' m found parked
    rw [absent]
    rw [node] at found
    rcases parked_cases open' flight' found with ⟨-, stage', same⟩ | ⟨queued, -⟩ |
      ⟨f₀, before, stage', same⟩
    · rw [stage', stage] at parked
      cases parked
      rw [same, awaits', all]
      exact ⟨by simpa using some, rfl⟩
    · simp [queued] at parked
    · rw [same]
      exact signalled.counted l f₀ m before (stage' ▸ parked)
  case registered =>
    intro l f'' m found parked d inside
    rw [absent] at inside
    rw [listed]
    rw [node] at found
    rcases parked_cases open' flight' found with ⟨rfl, -, same⟩ | ⟨queued, -⟩ |
      ⟨f₀, before, stage', same⟩
    · exact .inr ⟨awaits' ▸ same ▸ (mem_missing.mp inside).1, rfl⟩
    · simp [queued] at parked
    · exact .inl (signalled.registered l f₀ m before (stage' ▸ parked) d (same ▸ inside))

end

theorem missing_settled {g g' : Graph V} {k : Key} {keys : List Key} (once : keys.Nodup)
    (finished : (g'.node k).isFinished = true)
    (others : ∀ d, d ≠ k → (g'.node d).isFinished = (g.node d).isFinished) :
    g'.missing keys = (g.missing keys).erase k := by
  have distinct : (g.missing keys).Nodup := once.filter _
  rw [distinct.erase_eq_filter, missing, missing, List.filter_filter]
  refine List.filter_congr fun d _ => ?_
  by_cases same : d = k
  · subst same
    simp [finished]
  · simp [same, others d same]

section

variable {g g' : Graph V} {k : Key} {n : Node V}

theorem Signalled.awaited (signalled : g.Signalled) (shape : g.WellFormed) {l : Key} {f : Flight V}
    (waits : l ∈ (g.node k).waiters) (flight : (g.node l).flight = some f) :
    k ∈ f.awaits ∧ ∃ m, f.stage = .parked (m + 1) := by
  rcases signalled.waiting l k waits with done | ⟨f₀, m, before, parked, awaited⟩
  · simp [((shape l).finished done).1] at flight
  · rw [flight] at before
    cases before
    obtain ⟨some, -⟩ := signalled.counted l f m flight parked
    obtain ⟨m, rfl⟩ := Nat.exists_eq_succ_of_ne_zero some
    exact ⟨awaited, m, parked⟩

theorem Signalled.settled_cases (signalled : g.Signalled) (shape : g.WellFormed)
    (idle : n.flight = none) {l : Key} {f : Flight V}
    (found : ((g.settled k n).node l).flight = some f) :
    l ≠ k ∧ ∃ f₀, (g.node l).flight = some f₀ ∧ f.awaits = f₀.awaits ∧ f.waiters = f₀.waiters ∧
      (l ∉ (g.node k).waiters ∧ f.stage = f₀.stage ∨
        k ∈ f₀.awaits ∧ ∃ m, f₀.stage = .parked (m + 1) ∧
          f.stage = if m = 0 then .queued else .parked m) := by
  have ne : l ≠ k := by
    rintro rfl
    by_cases inside : l ∈ (g.node l).waiters
    · simp [g.settled_flight_of_mem l n (signalled.once l) inside, idle] at found
    · simp [g.settled_flight_of_notMem l n inside, idle] at found
  refine ⟨ne, ?_⟩
  by_cases inside : l ∈ (g.node k).waiters
  · rw [g.settled_flight_of_mem k n (signalled.once k) inside, Function.update_of_ne ne] at found
    obtain ⟨f₀, before, rfl⟩ := Option.map_eq_some_iff.mp found
    obtain ⟨awaited, m, parked⟩ := signalled.awaited shape inside before
    refine ⟨f₀, before, rfl, rfl, .inr ⟨awaited, m, parked, ?_⟩⟩
    cases m <;> simp [Flight.signalled, parked]
  · rw [g.settled_flight_of_notMem k n inside, Function.update_of_ne ne] at found
    exact ⟨f, found, rfl, rfl, .inl ⟨inside, rfl⟩⟩

theorem Signalled.settle (signalled : g.Signalled) (shape : g.WellFormed)
    (node : g'.node = (g.settled k n).node)
    (unfinished : (g.node k).isFinished = false) (finished : n.isFinished = true)
    (idle : n.flight = none) : g'.Signalled := by
  -- The waiters of `k` are parked, and each takes the one signal that it was promised for `k`.
  have waiterInv := signalled.waiterInv.settle shape node unfinished finished idle
  have finished_k : (g'.node k).isFinished = true := by
    rw [node, (g.settled_sameResult k n k).finished]
    simpa using finished
  have others (d : Key) (ne : d ≠ k) : (g'.node d).isFinished = (g.node d).isFinished := by
    rw [node, (g.settled_sameResult k n d).finished]
    simp [ne]
  have moved {l : Key} {f : Flight V} (found : (g'.node l).flight = some f) :=
    signalled.settled_cases shape idle (node ▸ found)
  constructor
  case once => exact waiterInv.once
  case waiting => exact waiterInv.waiting
  case ready => exact waiterInv.ready
  case distinct =>
    intro l f found
    obtain ⟨-, f₀, before, awaits, -⟩ := moved found
    exact awaits ▸ signalled.distinct l f₀ before
  case counted =>
    intro l f m found parked
    obtain ⟨ne, f₀, before, awaits, -, ⟨out, stage⟩ | ⟨awaited, m₀, stage₀, stage⟩⟩ := moved found
    · have registered := signalled.registered l f₀ m before (stage ▸ parked) k
      have same : g'.missing f₀.awaits = g.missing f₀.awaits := by
        refine missing_congr fun d inside => others d ?_
        rintro rfl
        exact out (registered (mem_missing.mpr ⟨inside, unfinished⟩))
      rw [awaits, same]
      exact signalled.counted l f₀ m before (stage ▸ parked)
    · obtain ⟨-, count⟩ := signalled.counted l f₀ _ before stage₀
      have missing : k ∈ g.missing f₀.awaits := mem_missing.mpr ⟨awaited, unfinished⟩
      rw [awaits, missing_settled (signalled.distinct l f₀ before) finished_k others,
        List.length_erase_of_mem missing, ← count]
      rw [stage] at parked
      split at parked <;> simp_all
  case registered =>
    intro l f m found parked d inside
    obtain ⟨ne, f₀, before, awaits, -, stage⟩ := moved found
    rw [awaits] at inside
    obtain ⟨awaited, open'⟩ := mem_missing.mp inside
    have ne : d ≠ k := by
      rintro rfl
      simp [finished_k] at open'
    rw [others d ne] at open'
    have old : l ∈ (g.node d).waiters := by
      rcases stage with ⟨-, stage⟩ | ⟨-, m₀, stage₀, -⟩
      · exact signalled.registered l f₀ m before (stage ▸ parked) d (mem_missing.mpr ⟨awaited, open'⟩)
      · exact signalled.registered l f₀ _ before stage₀ d (mem_missing.mpr ⟨awaited, open'⟩)
    rw [node]
    by_cases waits : d ∈ (g.node k).waiters
    · cases base : (g.node d).flight <;>
        simp_all [Node.waiters, g.settled_flight_of_mem k n (signalled.once k) waits,
          Flight.signalled]
    · simpa [Node.waiters, g.settled_flight_of_notMem k n waits, ne] using old

end

end Graph

end Recompute
