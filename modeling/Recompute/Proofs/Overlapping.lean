import Recompute.Overlap
import Recompute.Proofs.Maintaining
import Recompute.Proofs.Stall

set_option autoImplicit false

namespace Recompute

variable {S V : Type}

open Duties Progress
open Relation (ReflTransGen)

namespace Pass

section

variable {p : Pass S V} {roots : List Key}

theorem failCycles_balances (steady : p.listener.Steady) {cycles : List Cycle} {queue : List Key}
    {s : Progress S V} (once : cycles.flatten.Nodup)
    (balances : p.Balances [] cycles roots (hands queue) s) :
    p.Balances [] [] roots (hands (queue ++ (p.failCycles cycles s).1))
      (p.failCycles cycles s).2 := by
  induction cycles generalizing queue s with
  | nil => simpa [failCycles] using balances
  | cons cycle rest ih =>
    rw [List.flatten_cons] at once
    obtain ⟨once, onceRest, apart⟩ := List.nodup_append.mp once
    have whole : p.Maintains cycle rest roots (p.failCycle cycle) (fun ready d => d = hands ready)
        (fails cycle) := by
      refine (maintains_failMembers steady (List.Subset.refl cycle) ?_).bind fun _ _ same => same
      exact fun k member inside => apart k member k inside rfl
    obtain ⟨ready, _, s', run, rfl, balanced⟩ := whole.run (balances.doom once)
    have settled : settle (p.failCycle cycle) [] s = (ready, s') := settle_of_yields run []
    rw [add_comm, ← hands_append] at balanced
    have saved := balanced.saved fun k _ => rfl
    have rest := ih onceRest saved
    simp only [failCycles, settled]
    rwa [← List.append_assoc]

theorem enqueueAll_balances (steady : p.listener.Steady) {asked queue : List Key}
    {s : Progress S V} (balances : p.Balances [] [] asked (hands queue) s) (keys : List Key) :
    p.Balances [] [] (asked ++ keys) (hands (queue ++ (p.enqueueAll keys s).1))
      (p.enqueueAll keys s).2 := by
  induction keys generalizing asked queue s with
  | nil => simpa [enqueueAll] using balances
  | cons root rest ih =>
    obtain ⟨b, s', yields, effect⟩ := enqueue_cases steady root s
    have settled := settle_of_yields yields false
    have next : p.Balances [] [] (asked ++ [root]) (hands (queue ++ if b then [root] else []))
        s' := by
      rcases effect with ⟨rfl, same, up⟩ | ⟨rfl, unfinished, idle, node, control⟩
      · have stopped : p.isStopped s' = p.isStopped s :=
          isStopped_congr (congrArg Control.halted same.control)
            (congrArg Control.interrupted same.control)
        unfold Balances
        rw [same.node, stopped, if_neg (by simp), List.append_nil]
        exact balances.asked up
      · have stopped : p.isStopped s' = p.isStopped s :=
          isStopped_congr (congrArg Control.halted control) (congrArg Control.interrupted control)
        unfold Balances
        rw [node, stopped, if_pos rfl, hands_append, add_comm, hands_cons, hands_nil, add_zero]
        refine (balances.enqueue unfinished idle).asked (.inr ?_)
        simp [Node.isInFlight]
    have rest := ih next
    simp only [enqueueAll, settled]
    cases b <;> simpa using rest

end

inductive Staffed (p : Pass S V) (roots : List Key) : List (Work S V (List Key)) → Duties → Prop
  | nil : Staffed p roots [] 0
  | cons {w : Work S V (List Key)} {runs : List (Work S V (List Key))} {owed others : Duties} :
      p.Maintains [] [] roots w (fun ready d => d = hands ready) owed →
      Staffed p roots runs others →
      Staffed p roots (w :: runs) (owed + others)

namespace Staffed

variable {p : Pass S V} {roots : List Key} {w : Work S V (List Key)}
  {before after : List (Work S V (List Key))} {owed others : Duties}

theorem insert (staffed : p.Staffed roots (before ++ after) others)
    (keeps : p.Maintains [] [] roots w (fun ready d => d = hands ready) owed) :
    p.Staffed roots (before ++ w :: after) (owed + others) := by
  induction before generalizing others with
  | nil => exact .cons keeps staffed
  | cons v rest ih =>
    cases staffed with
    | cons first staffed =>
      rw [add_left_comm]
      exact .cons first (ih staffed)

theorem split (staffed : p.Staffed roots (before ++ w :: after) owed) :
    ∃ own others, p.Maintains [] [] roots w (fun ready d => d = hands ready) own ∧
      p.Staffed roots (before ++ after) others ∧ owed = own + others := by
  induction before generalizing owed with
  | nil =>
    cases staffed with
    | cons keeps staffed => exact ⟨_, _, keeps, staffed, rfl⟩
  | cons v rest ih =>
    cases staffed with
    | cons first staffed =>
      obtain ⟨own, others, keeps, left, rfl⟩ := ih staffed
      exact ⟨own, _, keeps, .cons first left, add_left_comm _ _ _⟩

end Staffed

def CrewBalances (p : Pass S V) (roots : List Key) (c : Crew S V) : Prop :=
  ∃ owed, p.Staffed roots c.runs owed ∧ p.Balances [] [] roots (hands c.ready + owed) c.state

variable {p : Pass S V} {roots : List Key} {config : Config} {c c' : Crew S V}

theorem Balances.parked {s : Progress S V} {k : Key} {f : Flight V}
    (balances : p.Balances [] [] roots 0 s) (live : p.isStopped s = false)
    (flight : (s.graph.node k).flight = some f) :
    (s.graph.node k).waits = f.awaits ∧ ∃ m, f.stage = .parked (m + 1) := by
  have assigned := balances.assigned k
  obtain ⟨queued, claimed⟩ := assigned.kept live (by simp)
  cases stage : f.stage with
  | queued => simp [Node.queued, flight, stage] at queued
  | claimed => simp [Node.isClaimed, flight, stage] at claimed
  | parked m =>
    have some := assigned.parked f m flight stage
    refine ⟨by simp [Node.waits, Node.pending, Node.awaits, flight, stage, Stage.pending, some], ?_⟩
    exact ⟨m - 1, by congr; omega⟩

theorem Balances.listed {s : Progress S V} {ready : List Key} {k : Key} {f : Flight V}
    {pending : Nat} (balances : p.Balances [] [] roots (hands ready) s)
    (flight : (s.graph.node k).flight = some f) (stage : f.stage = .parked pending) :
    pending = (s.graph.missing f.awaits).length ∧ 1 ≤ pending ∧
      ∀ d ∈ s.graph.missing f.awaits, (s.graph.node d).isInFlight = true ∧
        (s.graph.node d).waiters.count k = 1 := by
  have assigned := balances.assigned k
  have some : pending ≠ 0 := assigned.parked f pending flight stage
  have due := balances.due k (assigned.busy (by simp [Node.isInFlight, flight]))
  have waits : (s.graph.node k).waits = f.awaits := by
    simp [Node.waits, Node.pending, Node.awaits, flight, stage, Stage.pending, some]
  have count : (s.graph.node k).pending = pending := by
    simp [Node.pending, flight, stage, Stage.pending]
  simp only [waits, count, hands, Nat.zero_add] at due
  have settled (d : Key) (finished : (s.graph.node d).isFinished = true) :
      (s.graph.node d).waiters.count k = 0 := by
    cases flight : (s.graph.node d).flight with
    | none => simp [Node.waiters, flight]
    | some f => simp [(balances.assigned d).busy (by simp [Node.isInFlight, flight])] at finished
  refine ⟨due.outstanding settled, Nat.pos_of_ne_zero some, fun d missing => ?_⟩
  obtain ⟨awaited, unfinished⟩ := Graph.mem_missing.mp missing
  have once := due.owed d awaited unfinished
  refine ⟨?_, once⟩
  cases idle : (s.graph.node d).flight with
  | none => simp [Node.waiters, idle] at once
  | some f => simp [Node.isInFlight, idle]

theorem crewBalances_start (steady : p.listener.Steady) {w : World S V} {version : Nat}
    (idle : w.graph.Idle version) (roots : List Key) : p.CrewBalances roots (p.crew roots w) := by
  have start : p.Balances [] [] [] (hands []) ({ world := w } : Progress S V) := by
    rw [hands_nil]
    constructor
    case assigned =>
      intro k
      have shape := idle.shape k
      obtain ⟨-, free, unclaimed, grounded⟩ := Node.idle_facts (idle.idle k)
      constructor
      case busy => exact fun flying => absurd flying (by simp [Progress.graph, grounded])
      case distinct =>
        rintro (done | verifying)
        · obtain ⟨v, cached⟩ := shape.done done
          exact idle.distinct k v cached
        · exact absurd verifying (shape.quiet (idle.idle k)).1
      case parked => simp [Progress.graph, idle.idle k]
      all_goals simp [Progress.graph, free, unclaimed]
    case due =>
      intro k _
      obtain ⟨none, -⟩ := Node.idle_facts (idle.idle k)
      constructor <;> simp [Progress.graph, Node.waits, Node.waiters, none, idle.idle]
    case later => simp
    case roots => simp
  have entered := enqueueAll_balances steady start roots
  refine ⟨0, .nil, ?_⟩
  rwa [add_zero]

variable [BEq V]

theorem CrewBalances.step (steady : p.listener.Steady) (confined : p.rules.Confined fun _ => True)
    (balanced : p.CrewBalances roots c) (overlaps : p.Overlaps config roots c c') :
    p.CrewBalances roots c' := by
  obtain ⟨owed, staffed, balances⟩ := balanced
  cases overlaps with
  | @take s ready rest runs k pick free =>
    have same : hands ready = one (.hand k) + hands rest := by
      rw [← hands_cons]
      funext duty
      cases duty <;> simp [hands, pick.count_eq]
    have staffed' : p.Staffed roots (runs ++ [p.work k]) (one (.hand k) + owed) :=
      Staffed.insert (by simpa using staffed) (maintains_work steady confined k)
    refine ⟨_, staffed', ?_⟩
    dsimp only at balances
    rwa [same, add_assoc, add_left_comm] at balances
  | @act s ready before after update next =>
    obtain ⟨own, others, keeps, left, rfl⟩ := staffed.split
    dsimp only at balances
    rw [add_left_comm] at balances
    obtain ⟨own', balances', rest⟩ := keeps _ s balances
    refine ⟨_, left.insert rest, ?_⟩
    rwa [add_left_comm]
  | @finish s ready before after more =>
    obtain ⟨own, others, keeps, left, rfl⟩ := staffed.split
    cases keeps
    refine ⟨others, left, ?_⟩
    rwa [hands_append, add_assoc]
  | lose =>
    obtain ⟨own, others, keeps, -⟩ := staffed.split
    cases keeps
  | @unblock s ready cycles turn =>
    cases staffed
    obtain ⟨live, rfl, -, -, -⟩ := turn_unblock turn
    obtain ⟨once, stuck, next⟩ := stuck_of_unblock turn
    dsimp only at balances
    rw [hands_nil, add_zero] at balances
    have later : p.Balances [] cycles roots (hands []) s := by
      rw [hands_nil]
      refine { balances with later := fun cycle found k member => ?_ }
      obtain ⟨d, inside, awaited⟩ := next cycle found k member
      obtain ⟨f, flight, awaited⟩ := Node.exists_flight_of_awaited awaited
      refine ⟨d, inside, ?_, (stuck d (List.mem_flatten_of_mem found inside)).1⟩
      rw [(Balances.parked balances live flight).1]
      exact awaited
    refine ⟨0, .nil, ?_⟩
    rw [add_zero]
    simpa using failCycles_balances steady once later

end Pass

-- With any number of workers no wake-up is lost, also when a key finishes while others register
-- with it. When nobody works, whoever is parked is registered with just what it still waits for,
-- what is ready was handed out once, and the pass never stands still before its roots finish.
theorem Engine.Reachable.no_wakeup_lost [BEq V] {rules : Rules S V} {listener : Listener}
    {e : Engine S V} (reachable : Reachable rules listener e) (steady : listener.Steady)
    (confined : rules.Confined fun _ => True) {roots : List Key} {keepGoing : Bool} {c : Crew S V}
    (overlaps : ReflTransGen ((e.pass keepGoing).Overlaps e.config (union [] roots))
      (e.crew roots keepGoing) c) :
    let p := e.pass keepGoing
    let g := c.state.graph
    (∀ k, c.ready.count k ≤ (g.node k).queued) ∧
      (c.runs = [] → ∀ k f pending, (g.node k).flight = some f → f.stage = .parked pending →
        pending = (g.missing f.awaits).length ∧ 1 ≤ pending ∧
        ∀ d ∈ g.missing f.awaits, (g.node d).isInFlight = true ∧ (g.node d).waiters.count k = 1) ∧
      (c.runs = [] → p.isStopped c.state = false →
        (∀ k, c.ready.count k = (g.node k).queued ∧ (g.node k).isClaimed = false) ∧
        ∀ keys, p.turn (union [] roots) c.ready c.state ≠ .stall keys) := by
  obtain ⟨rfl, rfl⟩ := reachable.unchanged
  have resting := reachable.resting steady confined
  intro p g
  have balanced : p.CrewBalances (union [] roots) c := by
    induction overlaps with
    | refl => exact Pass.crewBalances_start (p := e.pass keepGoing) steady resting.toIdle.advance _
    | tail _ next ih => exact ih.step steady confined next
  obtain ⟨owed, staffed, balances⟩ := balanced
  obtain ⟨s, ready, runs⟩ := c
  have alone (none : runs = []) : p.Balances [] [] (union [] roots) (hands ready) s := by
    subst none
    cases staffed
    dsimp only at balances
    rwa [add_zero] at balances
  refine ⟨fun k => ?_, fun none k f pending => (alone none).listed, fun none live => ?_⟩
  · have handed := (balances.assigned k).hands
    exact Nat.le_trans (Nat.le_add_right _ _) handed
  · have balances := alone none
    refine ⟨fun k => ?_, fun keys stall => ?_⟩
    · have assigned := balances.assigned k
      obtain ⟨queued, claimed⟩ := assigned.kept live (by simp)
      refine ⟨Nat.le_antisymm assigned.hands queued, ?_⟩
      simpa [hands] using claimed
    · have spec := p.turn_spec (union [] roots) ready s
      rw [stall] at spec
      obtain ⟨-, rfl, some, -, stuck⟩ := spec
      refine Graph.Deadlocked.cyclesFrom_ne_nil (fun k busy => ?_) balances.roots some stuck
      obtain ⟨f, flight⟩ := Option.isSome_iff_exists.mp busy
      have unfinished := (balances.assigned k).busy busy
      have awaits : (s.graph.node k).awaits = f.awaits := by simp [Node.awaits, flight]
      have drained : p.Balances [] [] (union [] roots) 0 s := hands_nil ▸ balances
      obtain ⟨-, m, stage⟩ := drained.parked live flight
      obtain ⟨count, -, listed⟩ := balances.listed flight stage
      obtain ⟨d, missing⟩ : ∃ d, d ∈ s.graph.missing f.awaits := by
        apply List.exists_mem_of_length_pos
        omega
      refine ⟨d, Graph.follows_of_awaits unfinished ?_, (listed d missing).1⟩
      rw [awaits]
      exact (Graph.mem_missing.mp missing).1

end Recompute
