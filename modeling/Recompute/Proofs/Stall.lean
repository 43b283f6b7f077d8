import Recompute.Proofs.Ledger

set_option autoImplicit false

namespace Recompute

variable {S V : Type}

open Progress
open Relation (ReflTransGen)

namespace Graph

theorem follows_of_awaits {g : Graph V} {k d : Key} (unfinished : (g.node k).isFinished = false)
    (awaited : d ∈ (g.node k).awaits) : Follows g.waitEdges k d := by
  refine ⟨(g.node k).awaits, ?_, awaited⟩
  cases found : g.get? k with
  | none => simp [node, found, Node.awaits] at awaited
  | some n =>
    rw [node_of_get? found] at unfinished ⊢
    simp [waitEdges, found, unfinished]

-- Whoever is on the way to a result waits for somebody who is, too.
def Deadlocked (g : Graph V) : Prop :=
  ∀ k, (g.node k).isInFlight = true → ∃ d, Follows g.waitEdges k d ∧ (g.node d).isInFlight = true

theorem Deadlocked.idle {g : Graph V} (deadlocked : g.Deadlocked) {k : Key}
    (ends : Ends g.waitEdges k) : (g.node k).isInFlight = false := by
  induction ends with
  | intro k _ ih =>
    by_contra busy
    obtain ⟨d, follows, busy⟩ := deadlocked k (by simpa using busy)
    simp [ih d follows] at busy

theorem Deadlocked.cyclesFrom_ne_nil {g : Graph V} (deadlocked : g.Deadlocked) {roots : List Key}
    (asked : ∀ root ∈ roots, (g.node root).isFinished = true ∨ (g.node root).isInFlight = true)
    (some : (roots.filter fun root => !g.isFinished root) ≠ []) :
    g.cyclesFrom (roots.filter fun root => !g.isFinished root) ≠ [] := by
  intro none
  obtain ⟨root, inside⟩ := List.exists_mem_of_ne_nil _ some
  obtain ⟨wanted, unfinished⟩ := List.mem_filter.mp inside
  rw [isFinished_eq, Bool.not_eq_true'] at unfinished
  have idle := deadlocked.idle (g.ends_of_cyclesFrom_eq_nil none inside)
  rcases asked root wanted with finished | busy
  · simp [unfinished] at finished
  · simp [idle] at busy

end Graph

variable [BEq V] {p : Pass S V} {g₀ : Graph V} {l : Ledger S V}

namespace Ledger.Sound

omit [BEq V] in
theorem parked (sound : l.Sound p g₀) (live : p.isStopped l.state = false)
    (drained : ∀ k, l.handed.count k = l.claimed.count k) {k : Key} {f : Flight V}
    (flight : (l.state.graph.node k).flight = some f) : ∃ m, f.stage = .parked m := by
  have balance := sound.balance k
  have free := sound.free live k
  rw [Node.queued_of_flight flight, drained] at balance
  cases stage : f.stage with
  | queued => simp [stage] at balance
  | claimed => simp [Node.isClaimed, flight, stage] at free
  | parked m => exact ⟨m, rfl⟩

omit [BEq V] in
theorem deadlocked (sound : l.Sound p g₀) (live : p.isStopped l.state = false)
    (drained : ∀ k, l.handed.count k = l.claimed.count k) : l.state.graph.Deadlocked := by
  intro k busy
  obtain ⟨f, flight⟩ := Option.isSome_iff_exists.mp busy
  obtain ⟨m, stage⟩ := sound.parked live drained flight
  obtain ⟨some, count⟩ := sound.running.signalled.counted k f m flight stage
  obtain ⟨d, missing⟩ : ∃ d, d ∈ l.state.graph.missing f.awaits := by
    apply List.exists_mem_of_length_pos
    omega
  obtain ⟨awaited, unfinished⟩ := Graph.mem_missing.mp missing
  have awaits : (l.state.graph.node k).awaits = f.awaits := by simp [Node.awaits, flight]
  refine ⟨d, Graph.follows_of_awaits ?_ (awaits ▸ awaited), ?_⟩
  · exact (sound.running.shape k).unfinished_of_flight flight
  · exact (sound.running.signalled.listed flight stage awaited unfinished).1

end Ledger.Sound

namespace Pass

variable {s s' : Progress S V} {roots queue : List Key}

theorem failCycles_fails (steady : p.listener.Steady) (running : s.Running p.version)
    (roots : List Key) :
    let cycles := s.graph.cyclesFrom roots
    let broken := (p.failCycles cycles s).2.graph
    ∀ cycle ∈ cycles, cycle ≠ [] ∧ ∀ k ∈ cycle, (s.graph.node k).isFinished = false ∧
      (broken.node k).isFinished = true ∧ (broken.node k).failure? = some (.cycle cycle) := by
  intro cycles broken cycle found
  obtain ⟨-, locked⟩ := s.graph.cyclesFrom_locked roots
  obtain ⟨once, stuck, -⟩ := stuck_of_cyclesFrom s roots
  have breaks := failCycles_breaks steady cycles s
  have shape := (breaks.running running).shape
  refine ⟨(locked cycle found).1, fun k member => ?_⟩
  have result := (breaks.spared running once stuck).1 cycle found k member
  have finished : (broken.node k).isFinished = true := result.finished
  refine ⟨((locked cycle found).2.waits member).1, finished, ?_⟩
  apply (shape k).failure?_of_outcome?
  rw [Node.outcome?, if_pos finished]
  exact result.cached

-- With `asked` for roots the calls from `l₀` on come to `s`, and just what is in `queue` has been
-- handed back but not claimed.
def Drives (p : Pass S V) (l₀ : Ledger S V) (asked queue : List Key) (s : Progress S V) : Prop :=
  ∃ l, ReflTransGen p.Calls l₀ l ∧ l.state = s ∧ asked ⊆ l.asked ∧
    ∀ k, l.handed.count k = l.claimed.count k + queue.count k

variable {l₀ : Ledger S V} {asked : List Key}

theorem Drives.perm {queue' : List Key} (drives : p.Drives l₀ asked queue s)
    (same : queue.Perm queue') : p.Drives l₀ asked queue' s := by
  obtain ⟨l, calls, state, wanted, count⟩ := drives
  refine ⟨l, calls, state, wanted, fun k => ?_⟩
  rw [← same.count_eq]
  exact count k

theorem Drives.enqueueAll (steady : p.listener.Steady) (drives : p.Drives l₀ asked queue s)
    (keys : List Key) :
    p.Drives l₀ (asked ++ keys) (queue ++ (p.enqueueAll keys s).1) (p.enqueueAll keys s).2 := by
  induction keys generalizing asked queue s with
  | nil => simpa [Pass.enqueueAll] using drives
  | cons root rest ih =>
    obtain ⟨b, s', yields, -⟩ := enqueue_cases steady root s
    have settled := settle_of_yields yields false
    have next : p.Drives l₀ (asked ++ [root]) (queue ++ if b then [root] else []) s' := by
      obtain ⟨l, calls, rfl, wanted, count⟩ := drives
      refine ⟨_, calls.tail (.root l root yields), rfl, ?_, fun k => ?_⟩
      · exact List.append_subset.mpr ⟨List.subset_append_of_subset_left _ wanted,
          List.subset_append_right _ _⟩
      · simp only [List.count_append, count]
        omega
    have rest := ih next
    simp only [Pass.enqueueAll, settled]
    cases b <;> simpa using rest

theorem Drives.dispatch (steady : p.listener.Steady) (confined : p.rules.Confined fun _ => True)
    (sound : l₀.Sound p g₀) {k : Key} (live : p.isStopped s = false)
    (drives : p.Drives l₀ asked (k :: queue) s) :
    p.Drives l₀ asked (queue ++ (p.dispatch k s).1) (p.dispatch k s).2 := by
  obtain ⟨l, calls, rfl, wanted, count⟩ := drives
  have sound := sound.all confined calls
  obtain ⟨ready, s', yields, -⟩ : ∃ ready s', Yields (p.work k) l.state ready s' ∧
      p.Moves (fun _ => True) [] l.state s' ∧ p.Dispatches k ready l.state s' :=
    work_moves steady confined k sound.running trivial
  have claims : p.claims k l.state = [k] := by
    have balance := sound.balance k
    rw [count, List.count_cons_self] at balance
    cases flight : (l.state.graph.node k).flight with
    | none =>
      rw [Node.queued_of_idle flight] at balance
      omega
    | some f =>
      rw [Node.queued_of_flight flight] at balance
      by_cases queued : f.stage = .queued
      · simp [Pass.claims, live, Node.claim, flight, queued]
      · rw [if_neg queued] at balance
        omega
  rw [show p.dispatch k l.state = (ready, s') from settle_of_yields yields []]
  refine ⟨_, calls.tail (.run l k yields), rfl, wanted, fun x => ?_⟩
  have count := count x
  rw [← List.singleton_append, List.count_append] at count
  simp only [claims, List.count_append, count]
  omega

theorem failCycles_calls (steady : p.listener.Steady) {l : Ledger S V} {cycles : List Cycle}
    (found : l.due = cycles) :
    ∃ l', ReflTransGen p.Calls l l' ∧ l'.state = (p.failCycles cycles l.state).2 ∧
      l'.asked = l.asked ∧ l'.claimed = l.claimed ∧
      l'.handed = l.handed ++ (p.failCycles cycles l.state).1 := by
  induction cycles generalizing l with
  | nil => exact ⟨l, .refl, rfl, rfl, rfl, (List.append_nil _).symm⟩
  | cons cycle rest ih =>
    obtain ⟨ready, s', yields, -⟩ := failCycle_breaks steady cycle l.state
    have settled := settle_of_yields yields []
    have first := Calls.fail l cycle (by simp [found]) yields
    have due : l.due.erase cycle = rest := by rw [found, List.erase_cons_head]
    obtain ⟨l', calls, state, asked, claimed, handed⟩ :=
      ih (l := { l with state := s', handed := l.handed ++ ready, due := l.due.erase cycle }) due
    refine ⟨l', .head first calls, ?_, asked, claimed, ?_⟩
    · simp only [Pass.failCycles, settled, state]
    · simp only [Pass.failCycles, settled, handed, List.append_assoc]

theorem Drives.unblock (steady : p.listener.Steady) (drives : p.Drives l₀ asked [] s)
    (roots : List Key) :
    p.Drives l₀ asked (p.failCycles (s.graph.cyclesFrom roots) s).1
      (p.failCycles (s.graph.cyclesFrom roots) s).2 := by
  obtain ⟨l, calls, rfl, wanted, count⟩ := drives
  have found := Calls.find (p := p) l roots
  obtain ⟨l', fails, state, asked', claimed, handed⟩ := failCycles_calls steady
    (l := { l with due := l.state.graph.cyclesFrom roots }) rfl
  dsimp only at state asked' claimed handed
  refine ⟨l', (calls.tail found).trans fails, state, asked' ▸ wanted, fun k => ?_⟩
  have count := count k
  rw [handed, claimed, List.count_append]
  simp only [List.count_nil] at count
  omega

theorem Reaches.drives {w : World S V} (steady : p.listener.Steady)
    (confined : p.rules.Confined fun _ => True)
    (sound : ({ state := { world := w } } : Ledger S V).Sound p g₀)
    (reaches : p.Reaches roots w queue s) : p.Drives { state := { world := w } } roots queue s := by
  have start : p.Drives { state := { world := w } } roots
      (p.enqueueAll roots { world := w }).1 (p.enqueueAll roots { world := w }).2 := by
    have fresh : p.Drives { state := { world := w } } [] [] { world := w } :=
      ⟨_, .refl, rfl, List.nil_subset _, fun _ => rfl⟩
    exact fresh.enqueueAll steady roots
  have all {turn : List Key × Progress S V}
      (turns : ReflTransGen (p.Turned roots) (p.enqueueAll roots { world := w }) turn) :
      p.Drives { state := { world := w } } roots turn.1 turn.2 := by
    induction turns with
    | refl => exact start
    | tail _ turned ih =>
      cases turned with
      | @dispatch queue s k rest turn =>
        have spec := p.turn_spec roots queue s
        rw [turn] at spec
        obtain ⟨live, pick⟩ := spec
        exact (ih.perm pick).dispatch steady confined sound live
      | @unblock queue s cycles turn =>
        obtain ⟨-, rfl, -, -, rfl⟩ := turn_unblock turn
        exact ih.unblock steady _
  exact all reaches

theorem Change.not_stalled {good : S → Prop} (change : p.Change good roots s s') {keys : List Key}
    (before : s.abort ≠ some (.stalled keys)) : s'.abort ≠ some (.stalled keys) := by
  change s'.control.abort ≠ _
  cases change with
  | fail cycle k broken =>
    rw [broken.control, Control.abort_committed]
    exact before
  | move move =>
    cases move with
    | rest same =>
      rw [same.control]
      exact before
    | step live step =>
      cases step with
      | enqueue _ _ _ _ _ control | claim _ _ _ _ _ control | check _ _ _ _ _ _ _ _ _ control
      | confirm _ _ _ _ _ _ control | postpone _ _ _ _ _ _ _ _ _ control =>
        rw [control]
        exact before
      | restart _ _ _ _ _ _ _ _ _ _ control =>
        obtain ⟨_, _, -, -, control⟩ := control
        rw [control]
        exact before
      | conclude _ _ o _ _ _ _ _ _ control =>
        obtain ⟨_, _, -, -, control⟩ := control
        rw [control, Control.abort_committed]
        exact before
      | lose k _ _ _ _ _ _ control =>
        obtain ⟨_, _, abort, -, -, cause, control⟩ := control
        rw [control]
        change abort ≠ _
        rcases cause with ⟨-, rfl⟩ | ⟨message, rfl⟩
        · exact before
        · cases known : s.abort with
          | none => simp
          | some a => simpa [known] using before

theorem Changes.not_stalled {good : S → Prop} (changes : p.Changes good roots s s')
    {keys : List Key} (before : s.abort ≠ some (.stalled keys)) : s'.abort ≠ some (.stalled keys) := by
  induction changes with
  | refl => exact before
  | tail _ change ih => exact change.not_stalled ih

end Pass

namespace Engine

variable {rules : Rules S V} {listener : Listener} {e : Engine S V}

-- No evaluation stalls. Whenever nothing is left to dispatch, in whatever order it was done, and
-- the pass goes on with an unfinished root, there are cycles, and breaking them fails all of their
-- members.
theorem Reachable.never_stalls (reachable : Reachable rules listener e)
    (steady : listener.Steady) (confined : rules.Confined fun _ => True) (roots : List Key)
    (keepGoing : Bool) :
    let p := e.pass keepGoing
    let wanted := union [] roots
    let start : Ledger S V := { state := { world := e.entry } }
    (∀ budget keys, (e.evaluate budget roots keepGoing).1 ≠ .error (.stalled keys)) ∧
      (∀ queue s, p.Reaches wanted e.entry queue s → p.Drives start wanted queue s) ∧
      ∀ s, p.Drives start wanted [] s → p.isStopped s = false →
        let unfinished := wanted.filter fun root => !s.graph.isFinished root
        let cycles := s.graph.cyclesFrom unfinished
        let broken := (p.failCycles cycles s).2.graph
        unfinished ≠ [] → cycles ≠ [] ∧ ∀ cycle ∈ cycles, cycle ≠ [] ∧ ∀ k ∈ cycle,
          (s.graph.node k).isFinished = false ∧ (broken.node k).isFinished = true ∧
            (broken.node k).failure? = some (.cycle cycle) := by
  obtain ⟨rfl, rfl⟩ := reachable.unchanged
  have resting := reachable.resting steady confined
  intro p wanted start
  have fresh : start.Sound p e.world.graph := resting.toIdle.sound rfl
  have drives (queue : List Key) (s : Progress S V) (reaches : p.Reaches wanted e.entry queue s) :
      p.Drives start wanted queue s := reaches.drives steady confined fresh
  have blocked (s : Progress S V) (drained : p.Drives start wanted [] s)
      (live : p.isStopped s = false)
      (some : (wanted.filter fun root => !s.graph.isFinished root) ≠ []) :
      s.graph.cyclesFrom (wanted.filter fun root => !s.graph.isFinished root) ≠ [] := by
    obtain ⟨l, calls, rfl, asked, count⟩ := drained
    have sound := fresh.all confined calls
    exact (sound.deadlocked live count).cyclesFrom_ne_nil
      (fun root wanted => sound.asked root (asked wanted)) some
  refine ⟨fun budget keys stalled => ?_, drives, fun s drained live some => ?_⟩
  · obtain ⟨queue, s, evaluated⟩ := e.evaluated budget roots keepGoing
    obtain ⟨-, changes⟩ := evaluated.changes steady confined resting trivial
    rcases evaluated.error _ stalled with abort | exhausted | ⟨_, -, turn⟩
    · exact changes.not_stalled (by simp) abort
    · simp at exhausted
    · have spec := p.turn_spec wanted queue s
      rw [turn] at spec
      obtain ⟨live, rfl, some, -, none⟩ := spec
      exact blocked s (drives [] s evaluated.reaches) live some none
  · refine ⟨blocked s drained live some, ?_⟩
    obtain ⟨l, calls, rfl, -⟩ := drained
    exact Pass.failCycles_fails steady (fresh.all confined calls).running _

theorem never_stalls_detour :
    let a : Key := .only "a"
    let b : Key := .only "b"
    let start : Ledger Unit Nat := { state := { world := detour.entry } }
    (∀ budget keys, (detour.evaluate budget [a] true).1 ≠ .error (.stalled keys)) ∧
      ∃ s, (detour.pass true).Drives start (union [] [a]) [] s ∧
        let cycles := s.graph.cyclesFrom ((union [] [a]).filter fun root => !s.graph.isFinished root)
        cycles = [[a, b]] ∧
          (((detour.pass true).failCycles cycles s).2.graph.node b).failure? =
            some (.cycle [a, b]) := by
  intro a b start
  obtain ⟨never, drives, blocked⟩ :=
    reachable_detour.never_stalls (fun _ => rfl) (Rules.confined_detour _) [a] true
  have reaches := ((Pass.Reaches.start (detour.pass true) (union [] [a]) detour.entry).dispatch
    a [] (by decide +kernel)).dispatch b [] (by decide +kernel)
  have drained := drives _ _ reaches
  generalize ready : [] ++ _ = queue at drained
  have none : queue = [] := by
    rw [← ready]
    decide +kernel
  subst none
  obtain ⟨-, fails⟩ := blocked _ drained (by decide +kernel) (by decide +kernel)
  refine ⟨never, _, drained, by decide +kernel, ?_⟩
  exact ((fails [a, b] (by decide +kernel)).2 b (by simp)).2.2

end Engine

end Recompute
