import Recompute.Proofs.Quiescent
import Recompute.Proofs.Served
import Mathlib.Algebra.Order.BigOperators.Group.Finset
import Mathlib.Data.Prod.Lex

set_option autoImplicit false

namespace Recompute

variable {S V : Type}

open Progress
open Pass (InQueue)
open Relation (ReflTransGen)

def Node.remaining (n : Node V) : Nat :=
  match n.flight with
  | none => 2
  | some f => if f.stage = .queued then 1 else 0

theorem Node.remaining_of_flight {n : Node V} {f : Flight V} (flight : n.flight = some f) :
    n.remaining = if f.stage = .queued then 1 else 0 := by
  simp [remaining, flight]

theorem Node.remaining_register (n : Node V) (waiter : Key) :
    (n.register waiter).2.remaining ≤ n.remaining := by
  cases finished : n.isFinished with
  | true => rw [register_of_finished finished]
  | false =>
    rw [register_of_unfinished finished]
    cases flight : n.flight with
    | none => simp [remaining, flight]
    | some f => simp [remaining, flight]

namespace Graph

def openIn (g : Graph V) (N : Finset Key) : Finset Key :=
  N.filter fun k => (g.node k).isFinished = false

def remainingIn (g : Graph V) (N : Finset Key) : Nat := ∑ k ∈ N, (g.node k).remaining

variable {g g' : Graph V} {N : Finset Key} {k : Key}

theorem openIn_subset (still : ∀ d, (g.node d).isFinished = true → (g'.node d).isFinished = true) :
    g'.openIn N ⊆ g.openIn N := by
  intro d inside
  obtain ⟨member, unfinished⟩ := Finset.mem_filter.mp inside
  refine Finset.mem_filter.mpr ⟨member, ?_⟩
  by_contra finished
  simp [still d (by simpa using finished)] at unfinished

theorem openIn_lt (still : ∀ d, (g.node d).isFinished = true → (g'.node d).isFinished = true)
    (member : k ∈ N) (unfinished : (g.node k).isFinished = false)
    (finished : (g'.node k).isFinished = true) : (g'.openIn N).card < (g.openIn N).card := by
  refine Finset.card_lt_card (Finset.ssubset_iff_subset_ne.mpr
    ⟨openIn_subset still, fun same => ?_⟩)
  have before : k ∈ g'.openIn N := same ▸ Finset.mem_filter.mpr ⟨member, unfinished⟩
  have still := (Finset.mem_filter.mp before).2
  simp [finished] at still

theorem openIn_congr (same : ∀ d, (g'.node d).isFinished = (g.node d).isFinished) :
    g'.openIn N = g.openIn N := by
  simp only [openIn, same]

theorem remainingIn_lt (each : ∀ l, l ≠ k → (g'.node l).remaining ≤ (g.node l).remaining)
    (member : k ∈ N) (less : (g'.node k).remaining < (g.node k).remaining) :
    g'.remainingIn N < g.remainingIn N := by
  refine Finset.sum_lt_sum (fun l _ => ?_) ⟨k, member, less⟩
  by_cases same : l = k
  · exact same ▸ Nat.le_of_lt less
  · exact each l same

end Graph

namespace Pass

variable [BEq V] {p : Pass S V} {w : World S V} {new : List Event} {k : Key} {s s' : Progress S V}
  {N : Finset Key}

theorem WorkStep.progress (worked : p.WorkStep k s s') (passInv : s.PassInvariant p.version w new)
    (queued : InQueue s k) (member : k ∈ N) : (s'.graph.openIn N).card < (s.graph.openIn N).card ∨
      (s'.graph.openIn N).card = (s.graph.openIn N).card ∧
        s'.graph.remainingIn N < s.graph.remainingIn N := by
  obtain ⟨f₀, flight₀, queued₀⟩ := queued
  have one : (s.graph.node k).remaining = 1 := by
    rw [Node.remaining_of_flight flight₀, if_pos queued₀]
  obtain ⟨effect, -⟩ := worked
  have spares := effect.spares passInv.shape passInv.waiterInv passInv.dated
  have committed (ending : Ending) (unfinished : (s.graph.node k).isFinished = false)
      (told : Event.endings [.evaluated k ending] k ≠ [] → (s'.graph.node k).isFinished = true) :
      (s'.graph.openIn N).card < (s.graph.openIn N).card :=
    Graph.openIn_lt (fun d => spares.still) member unfinished (told (by simp [Event.endings]))
  cases effect with
  | publish m ending unfinished =>
    exact .inl (committed ending unfinished fun told => (spares.told k told).2)
  | drop m ending unfinished =>
    exact .inl (committed ending unfinished fun told => (spares.told k told).2)
  | park f f' n awaits reached entered pending log flight queued carried good flight' stage enough
      awaits' waiters some missing within source entered' node =>
    have unfinished := (passInv.shape k).unfinished_of_flight flight
    have open' := Graph.unfinished_update carried.result fun d inside => missing d (within inside)
    refine .inr ⟨congrArg Finset.card (Graph.openIn_congr fun d => ?_),
      Graph.remainingIn_lt (fun l ne => ?_) member ?_⟩
    · rw [node, Graph.isFinished_parked unfinished (carried.unfinished unfinished)]
    · rw [node, Graph.parked, Function.update_of_ne ne]
      split
      · exact Node.remaining_register _ k
      · exact Nat.le_refl _
    · obtain ⟨-, f₁, flight₁, stage₁, -⟩ := Graph.parked_self open' flight'
      rw [one, node, Node.remaining_of_flight flight₁, stage₁, stage]
      simp
  | hang f f' n log flight queued carried good flight' stage awaits' waiters source node =>
    refine .inr ⟨congrArg Finset.card (Graph.openIn_congr fun d => ?_),
      Graph.remainingIn_lt (fun l ne => ?_) member ?_⟩
    · rw [node, (Graph.sameResult_update carried.result d).finished]
    · rw [node, Function.update_of_ne ne]
    · rw [one, node, Function.update_self, Node.remaining_of_flight flight', stage]
      simp

-- How far a pass is from its end: what is unfinished, then what can be taken up until something
-- finishes, then the queue.
def distance (N : Finset Key) (turn : List Key × Progress S V) : ℕ ×ₗ ℕ ×ₗ ℕ :=
  toLex ((turn.2.graph.openIn N).card, toLex (turn.2.graph.remainingIn N, turn.1.length))

theorem Turned.distance_lt {roots : List Key} {turn turn' : List Key × Progress S V}
    (confined : p.rules.Confined fun _ => True) (turned : p.Turned roots turn turn')
    (passInv : turn.2.PassInvariant p.version w new)
    (within : ∀ l, (turn.2.graph.node l).isInFlight = true → l ∈ N) :
    distance N turn' < distance N turn := by
  cases turned with
  | @dispatch queue s k rest turn =>
    obtain ⟨live, pick⟩ := turn_dispatch turn
    by_cases queued : InQueue s k
    · have flying : (s.graph.node k).isInFlight = true := by
        obtain ⟨f, flight, -⟩ := queued
        simp [Node.isInFlight, flight]
      have member : k ∈ N := within k flying
      have worked := dispatch_workStep confined passInv queued live
      rcases worked.progress passInv queued member with fewer | ⟨same, less⟩
      · exact Prod.Lex.toLex_lt_toLex.mpr (.inl fewer)
      · exact Prod.Lex.toLex_lt_toLex.mpr (.inr ⟨same, Prod.Lex.toLex_lt_toLex.mpr (.inl less)⟩)
    · obtain ⟨none, node, -⟩ : _ ∧ _ ∧ p.PassStep (fun _ => False) s _ := dispatch_rests queued
      have shorter : (rest ++ (p.dispatch k s).1).length < queue.length := by
        simp [none, pick.length_eq]
      have unfinished : ((p.dispatch k s).2.graph.openIn N).card = (s.graph.openIn N).card :=
        congrArg Finset.card (Graph.openIn_congr fun d => by rw [node])
      have remaining : (p.dispatch k s).2.graph.remainingIn N = s.graph.remainingIn N := by
        simp only [Graph.remainingIn, node]
      exact Prod.Lex.toLex_lt_toLex.mpr (.inr ⟨unfinished,
        Prod.Lex.toLex_lt_toLex.mpr (.inr ⟨remaining, shorter⟩)⟩)
  | @unblock queue s cycles turn =>
    obtain ⟨k, unfinished, flying, finished⟩ := unblock_finishes turn passInv
    have steps : p.PassSteps (fun _ => False) s _ := failCycles_passSteps cycles passInv
    refine Prod.Lex.toLex_lt_toLex.mpr (.inl ?_)
    exact Graph.openIn_lt (fun d => steps.still passInv) (within k flying) unfinished finished

def Ends (p : Pass S V) (roots : List Key) (n : Nat) (turn : List Key × Progress S V) : Prop :=
  ∀ budget, n ≤ budget → p.drain roots budget turn.1 turn.2 = p.drain roots n turn.1 turn.2 ∧
    (p.drain roots budget turn.1 turn.2).1 ≠ .error .exhausted

theorem Ends.of_turned {roots queue queue' : List Key} {n : Nat}
    (next : ∀ budget, p.drain roots (budget + 1) queue s = p.drain roots budget queue' s')
    (ends : p.Ends roots n (queue', s')) : p.Ends roots (n + 1) (queue, s) := by
  intro budget enough
  obtain ⟨more, rfl⟩ : ∃ more, budget = more + 1 := ⟨budget - 1, by omega⟩
  obtain ⟨same, some⟩ := ends more (by omega)
  simp only [next]
  exact ⟨same, some⟩

theorem Ends.of_drained {roots queue : List Key} (result : Except Abort Unit × Progress S V)
    (drained : ∀ budget, p.drain roots (budget + 1) queue s = result)
    (some : result.1 ≠ .error .exhausted) : p.Ends roots 1 (queue, s) := by
  intro budget enough
  obtain ⟨more, rfl⟩ : ∃ more, budget = more + 1 := ⟨budget - 1, by omega⟩
  simp only [drained more, drained 0]
  exact ⟨trivial, some⟩

theorem Ends.complete {roots : List Key} {n budget : Nat}
    (ends : p.Ends roots n (p.enqueueAll roots { world := w })) (enough : n ≤ budget) :
    p.complete budget roots w = p.complete n roots w := by
  unfold Pass.complete
  simp only [(ends budget enough).1]

theorem ends_of_nearer {roots : List Key} {first : List Key × Progress S V}
    (nearer : ∀ turn turn', ReflTransGen (p.Turned roots) first turn → p.Turned roots turn turn' →
      distance N turn' < distance N turn)
    {turn : List Key × Progress S V} (turns : ReflTransGen (p.Turned roots) first turn) :
    ∃ n, p.Ends roots n turn := by
  induction h : distance N turn using WellFoundedLT.induction generalizing turn with
  | _ far ih =>
  obtain ⟨queue, s⟩ := turn
  have step (turn' : List Key × Progress S V) (turned : p.Turned roots (queue, s) turn')
      (next : ∀ budget, p.drain roots (budget + 1) queue s = p.drain roots budget turn'.1 turn'.2) :
      ∃ n, p.Ends roots n (queue, s) := by
    obtain ⟨n, ends⟩ := ih _ (h ▸ nearer _ _ turns turned) (turns.tail turned) rfl
    exact ⟨n + 1, ends.of_turned next⟩
  cases turn : p.turn roots queue s with
  | stop => exact ⟨1, .of_drained (.ok (), s) (fun _ => by simp only [drain, turn]) (by simp)⟩
  | stall unfinished =>
    exact ⟨1, .of_drained (.error (.stalled unfinished), s) (fun _ => by simp only [drain, turn])
      (by simp)⟩
  | dispatch k rest => exact step _ (.dispatch k rest turn) fun _ => by simp only [drain, turn]
  | unblock cycles => exact step _ (.unblock cycles turn) fun _ => by simp only [drain, turn]

end Pass

def Node.parkedOn (n : Node V) : Option (List Key) :=
  match n.flight with
  | some { stage := .parked _, awaits, .. } => some awaits
  | _ => none

theorem Node.parkedOn_eq_some {n : Node V} {awaits : List Key} (parked : n.parkedOn = some awaits) :
    ∃ f m, n.flight = some f ∧ f.stage = .parked m ∧ f.awaits = awaits := by
  unfold parkedOn at parked
  split at parked
  next m awaits' waiters verified memo flight =>
    cases parked
    exact ⟨_, m, flight, rfl, rfl⟩
  next => cases parked

namespace Pass

variable [BEq V] {p : Pass S V} {w : World S V} {new : List Event} {k : Key} {s s' : Progress S V}

inductive Parks (p : Pass S V) (roots : List Key) (k : Key) (awaits : List Key) :
    List Key × Progress S V → List Key × Progress S V → Prop
  | intro {queue : List Key} {s : Progress S V} (rest : List Key)
      (turn : p.turn roots queue s = .dispatch k rest) (queued : InQueue s k)
      (parked : ((p.dispatch k s).2.graph.node k).parkedOn = some awaits) :
      Parks p roots k awaits (queue, s) (rest ++ (p.dispatch k s).1, (p.dispatch k s).2)

inductive Restarts (p : Pass S V) (roots : List Key) (k : Key) (absent : List Key) :
    List Key × Progress S V → Prop
  | intro {queue : List Key} {s : Progress S V} (rest : List Key)
      (turn : p.turn roots queue s = .dispatch k rest)
      (told : absent ∈ Event.restarts (s.world.since (p.dispatch k s).2.world) k) :
      Restarts p roots k absent (queue, s)

variable {roots awaits absent : List Key} {turn turn' : List Key × Progress S V}

theorem WorkStep.parkedOn (worked : p.WorkStep k s s') (passInv : s.PassInvariant p.version w new)
    (parked : (s'.graph.node k).parkedOn = some awaits) :
    ∀ d ∈ awaits, (s.graph.node d).isFinished = false := by
  obtain ⟨f₁, m, flight₁, stage₁, rfl⟩ := Node.parkedOn_eq_some parked
  obtain ⟨effect, -⟩ := worked
  have spares := effect.spares passInv.shape passInv.waiterInv passInv.dated
  have idle (ending : Ending) (told : Event.endings [.evaluated k ending] k ≠ [] →
      (s'.graph.node k).isFinished = true) :
    ∀ d ∈ f₁.awaits, (s.graph.node d).isFinished = false := by
    have none := ((spares.shape k).finished (told (by simp [Event.endings]))).1
    simp [none] at flight₁
  cases effect with
  | publish m ending => exact idle ending fun told => (spares.told k told).2
  | drop m ending => exact idle ending fun told => (spares.told k told).2
  | park f f' n awaits reached entered pending log flight queued carried good flight' stage enough
      awaits' waiters some missing within source entered' node =>
    have open' := Graph.unfinished_update carried.result fun d inside => missing d (within inside)
    obtain ⟨-, f₂, flight₂, -, awaits₂, -⟩ := Graph.parked_self open' flight'
    rw [node, flight₂] at flight₁
    cases flight₁
    rw [awaits₂, awaits']
    exact missing
  | hang f f' n log flight queued carried good flight' stage awaits' waiters source node =>
    rw [node, Function.update_self, flight'] at flight₁
    cases flight₁
    simp [stage] at stage₁

theorem Parks.turned (parks : p.Parks roots k awaits turn turn') : p.Turned roots turn turn' := by
  cases parks with
  | intro rest turn => exact .dispatch k rest turn

theorem Parks.served (parks : p.Parks roots k awaits turn turn') {d : Key} (inside : d ∈ awaits) :
    turn'.2.graph.Served k d := by
  cases parks with
  | intro rest turn queued parked =>
    obtain ⟨f, m, flight, stage, rfl⟩ := Node.parkedOn_eq_some parked
    exact .inr (.inr ⟨f, flight, .inr ⟨m, stage, inside⟩⟩)

theorem Parks.missing (parks : p.Parks roots k awaits turn turn')
    (confined : p.rules.Confined fun _ => True) (passInv : turn.2.PassInvariant p.version w new) :
    InQueue turn.2 k ∧ ∀ d ∈ awaits, (turn.2.graph.node d).isFinished = false := by
  cases parks with
  | intro rest turn queued parked =>
    have worked := dispatch_workStep confined passInv queued (turn_dispatch turn).1
    exact ⟨queued, worked.parkedOn passInv parked⟩

theorem Restarts.missing (restarts : p.Restarts roots k absent turn)
    (confined : p.rules.Confined fun _ => True) (passInv : turn.2.PassInvariant p.version w new) :
    InQueue turn.2 k ∧ ∀ d ∈ absent, (turn.2.graph.node d).isFinished = false := by
  cases restarts with
  | intro rest turn told =>
    have act : p.PassStep (fun _ => False) _ _ := dispatch_passStep confined passInv k
    rcases act.restarts k with none | ⟨absent', one, restarted⟩
    · simp [none] at told
    · rw [one, List.mem_singleton] at told
      subst told
      exact ⟨restarted.queued, restarted.missing⟩

theorem Parks.disjoint {turn₂ : List Key × Progress S V} {keys : List Key}
    (parks : p.Parks roots k awaits turn turn') (confined : p.rules.Confined fun _ => True)
    (turns : ReflTransGen (p.Turned roots) turn' turn₂)
    (passInv : turn'.2.PassInvariant p.version w new)
    (queued : InQueue turn₂.2 k) (missing : ∀ d ∈ keys, (turn₂.2.graph.node d).isFinished = false) :
    awaits.Disjoint keys := by
  intro d inside again
  have steps : p.PassSteps (fun _ => False) turn'.2 turn₂.2 :=
    turns_passSteps confined turns passInv
  obtain ⟨log, later⟩ := steps.passInv passInv
  have finished := (steps.served passInv (parks.served inside)).finished later.shape queued
  simp [missing d again] at finished

def Seeks (p : Pass S V) (roots : List Key) (w : World S V) (U : Finset Key) : Prop :=
  ∀ queue s, p.Reaches roots w queue s → ∀ k, ∀ absent ∈ Event.restarts (w.since s.world) k,
    ∀ d ∈ absent, d ∈ U

def realm (roots : List Key) (w : World S V) (U : Finset Key) : Finset Key :=
  roots.toFinset ∪ U ∪ (w.graph.keys.flatMap fun k => (w.graph.node k).deps.flatten).toFinset

theorem Reaches.within {queue : List Key} {U : Finset Key} (reaches : p.Reaches roots w queue s)
    (confined : p.rules.Confined fun _ => True)
    (begun : ({ world := w } : Progress S V).PassInvariant p.version w [])
    (seeks : p.Seeks roots w U) (idle : ∀ k, (w.graph.node k).flight = none) (l : Key)
    (flying : (s.graph.node l).isInFlight = true) : l ∈ realm roots w U := by
  refine (reaches.passSteps confined begun).within begun (· ∈ realm roots w U)
    (fun l flying => ?_) (fun l wanted => ?_) (fun k l recorded => ?_) (fun k l missed => ?_) flying
  · have none : ((({ world := w } : Progress S V).graph.node l).flight) = none := idle l
    simp [Node.isInFlight, none] at flying
  · exact Finset.mem_union_left _ (Finset.mem_union_left _ (List.mem_toFinset.mpr wanted))
  · refine Finset.mem_union_right _ (List.mem_toFinset.mpr (List.mem_flatMap.mpr ⟨k, ?_, recorded⟩))
    by_contra out
    have none : w.graph.get? k = none := by
      simpa [Graph.get?] using mt (Table.mem_keys_iff w.graph.nodes k).mpr out
    simp [Graph.node, none] at recorded
  · obtain ⟨absent, told, inside⟩ := List.mem_flatten.mp missed
    exact Finset.mem_union_left _ (Finset.mem_union_right _
      (seeks queue s reaches k absent told l inside))

theorem Reaches.restarts_le {queue : List Key} {U : Finset Key}
    (reaches : p.Reaches roots w queue s)
    (confined : p.rules.Confined fun _ => True)
    (begun : ({ world := w } : Progress S V).PassInvariant p.version w [])
    (seeks : p.Seeks roots w U) (k : Key) :
    (Event.restarts (w.since s.world) k).length ≤ U.card := by
  obtain ⟨F, bound, served⟩ := (reaches.passSteps confined begun).restarts_served begun k
  refine Nat.le_trans bound (Finset.card_le_card fun d inside => ?_)
  obtain ⟨absent, told, missed⟩ := List.mem_flatten.mp (served d inside).2
  exact seeks queue s reaches k absent told d missed

end Pass

namespace Computation

variable {α : Type}

inductive Asks (U : Finset Key) : Computation S V α → Prop
  | done (a : α) : Asks U (.done a)
  | panic (p : Panic) : Asks U (.panic p)
  | values {keys : List Key} {next : Table Key (Option V) → Computation S V α} :
      (∀ k ∈ keys, k ∈ U) → (∀ answers, Asks U (next answers)) → Asks U (.values keys next)
  | outcomes {keys : List Key} {next : Answers V → Computation S V α} :
      (∀ k ∈ keys, k ∈ U) → (∀ answers, Asks U (next answers)) → Asks U (.outcomes keys next)
  | blocked {next : Bool → Computation S V α} : (∀ b, Asks U (next b)) → Asks U (.blocked next)
  | silent {c : Computation S V α} : (∃ good, Silent good c) →
      (∀ c', Next (fun _ => True) c c' → Asks U c') → Asks U c

variable {U : Finset Key}

theorem asks_need_bind {β : Type} {k : Key} {next : Except Fault V → Computation S V β}
    (inside : k ∈ U)
    (asks : ∀ answer, (next answer).Asks U) : Asks U (need k >>= next) := by
  refine .values (by simpa using inside) fun answers => ?_
  simp only [bind]
  cases (Table.get? answers k).join <;> exact asks _

theorem asks_need {k : Key} (inside : k ∈ U) :
    Asks U (need k : Computation S V (Except Fault V)) := by
  rw [← bind_pure (need k)]
  exact asks_need_bind inside .done

theorem Plays.asks {look : Oracle V} {c : Computation S V α} {t u : Trace V} {r : Except Panic α}
    (plays : Plays look (fun _ => True) c t r u) (asks : Asks U c) {d : Key} (asked : d ∈ u.asked) :
    d ∈ t.asked ∨ d ∈ U := by
  induction plays with
  | done | panic => exact .inl asked
  | values plays ih =>
    cases asks with
    | silent quiet => exact quiet.elim fun _ quiet => quiet.elim
    | values within asks =>
      rcases ih (asks _) asked with heard | inside
      · exact (Trace.mem_asked_heard.mp heard).imp_right (within d)
      · exact .inr inside
  | outcomes plays ih =>
    cases asks with
    | silent quiet => exact quiet.elim fun _ quiet => quiet.elim
    | outcomes within asks =>
      rcases ih (asks _) asked with heard | inside
      · exact (Trace.mem_asked_heard.mp heard).imp_right (within d)
      · exact .inr inside
  | blocked plays ih =>
    cases asks with
    | silent quiet => exact quiet.elim fun _ quiet => quiet.elim
    | blocked asks => exact ih (asks _) asked
  | silent quiet next plays ih =>
    cases asks with
    | silent _ asks => exact ih (asks _ next) asked
    | _ => exact quiet.elim

end Computation

def Rules.Asks (rules : Rules S V) (U : Finset Key) : Prop :=
  ∀ k rule, rules.get? k.tag = some rule → (rule k).Asks U

namespace Pass

variable [BEq V] {p : Pass S V} {w : World S V} {new : List Event} {k : Key} {s s' : Progress S V}
  {asked : Key → Prop} {roots absent : List Key} {U : Finset Key}

theorem PassSteps.missed (steps : p.PassSteps asked s s')
    (told : absent ∈ Event.restarts (s.world.since s'.world) k) : p.Misses k absent := by
  induction steps with
  | refl => simp [World.since, Event.restarts] at told
  | tail before act ih =>
    rw [PassSteps.restarts_append before act, List.mem_append] at told
    rcases told with now | earlier
    · rcases act.restarts k with none | ⟨absent', one, restarted⟩
      · simp [none] at now
      · rw [one, List.mem_singleton] at now
        exact now ▸ restarted.missed
    · exact ih earlier

theorem seeks_of_asks (confined : p.rules.Confined fun _ => True)
    (begun : ({ world := w } : Progress S V).PassInvariant p.version w []) (asks : p.rules.Asks U) :
    p.Seeks roots w U := by
  intro queue s reaches k absent told d inside
  obtain ⟨rule, look, result, t, found, plays, rfl⟩ :=
    (reaches.passSteps confined begun).missed told
  have requested : d ∈ t.asked := by
    rw [(plays.tidy (Trace.tidy_nil look)).absent] at inside
    exact (List.mem_filter.mp inside).1
  exact (plays.asks (asks k rule found) requested).resolve_left (by simp)

end Pass

namespace Engine

variable [BEq V] {rules : Rules S V} {listener : Listener} {e : Engine S V}

-- A pass whose attempts request keys of `U` only comes to an end, whatever budget above a certain
-- one it is given. What a node is parked on has nothing in common with what it was parked on
-- before, nor has what an attempt finds missing later; so it is restarted once for each key of `U`
-- at most.
theorem Reachable.evaluate_ends (reachable : Reachable rules listener e)
    (confined : rules.Confined fun _ => True) (roots : List Key) (keepGoing : Bool) (U : Finset Key)
    (seeks : (e.pass keepGoing).Seeks (union [] roots) e.entry U) :
    let p := e.pass keepGoing
    let start := p.enqueueAll (union [] roots) { world := e.entry }
    (∃ n, p.Ends (union [] roots) n start ∧ ∀ budget, n ≤ budget →
      e.evaluate budget roots keepGoing = e.evaluate n roots keepGoing) ∧
    ∀ queue s, p.Reaches (union [] roots) e.entry queue s → ∀ k,
      (Event.restarts (e.entry.since s.world) k).length ≤ U.card ∧
      ∀ awaits turn', p.Parks (union [] roots) k awaits (queue, s) turn' →
        ∀ later, ReflTransGen (p.Turned (union [] roots)) turn' later →
          (∀ again end', p.Parks (union [] roots) k again later end' → awaits.Disjoint again) ∧
          ∀ absent, p.Restarts (union [] roots) k absent later → awaits.Disjoint absent := by
  intro p start
  have quiescent := reachable.quiescent confined
  have begun := Quiescent.passInv quiescent keepGoing
  have confined := reachable.confined_pass confined keepGoing
  have passInv (turn) (turns : ReflTransGen (p.Turned (union [] roots)) start turn) :
      ∃ new, turn.2.PassInvariant p.version e.entry new := by
    obtain ⟨log, now⟩ := (Pass.Reaches.passSteps confined turns begun).passInv begun
    exact ⟨_, now⟩
  refine ⟨?_, fun queue s turns k => ⟨?_, ?_⟩⟩
  · have nearer (turn turn') (turns : ReflTransGen (p.Turned (union [] roots)) start turn)
        (turned : p.Turned (union [] roots) turn turn') :
        Pass.distance (Pass.realm (union [] roots) e.entry U) turn' <
          Pass.distance (Pass.realm (union [] roots) e.entry U) turn := by
      obtain ⟨new, now⟩ := passInv turn turns
      exact turned.distance_lt confined now
        (Pass.Reaches.within turns confined begun seeks quiescent.idle)
    obtain ⟨n, ends⟩ := Pass.ends_of_nearer nearer .refl
    refine ⟨n, ends, fun budget enough => ?_⟩
    rw [evaluate_eq, evaluate_eq, ends.complete enough]
  · exact Pass.Reaches.restarts_le turns confined begun seeks k
  · intro awaits turn' parks later turns'
    obtain ⟨new, now⟩ := passInv turn' (turns.tail parks.turned)
    obtain ⟨new', then'⟩ := passInv later ((turns.tail parks.turned).trans turns')
    refine ⟨fun again end' parks' => ?_, fun absent restarts => ?_⟩
    · obtain ⟨queued, missing⟩ := parks'.missing confined then'
      exact parks.disjoint confined turns' now queued missing
    · obtain ⟨queued, missing⟩ := restarts.missing confined then'
      exact parks.disjoint confined turns' now queued missing

end Engine

def Rules.stairs : Rules Unit Nat :=
  [("a", Rule.either (.only "b") (.only "c")), ("b", Rule.either (.only "d") (.only "d")),
    ("c", Rule.either (.only "d") (.only "d"))]

theorem Rules.confined_stairs (good : Unit → Prop) : Rules.stairs.Confined good :=
  forall_cons (fun k _ => Rule.confined_either good _ _ k)
    (forall_cons (fun k _ => Rule.confined_either good _ _ k)
      (forall_cons (fun k _ => Rule.confined_either good _ _ k) forall_nil))

theorem Rule.asks_either {U : Finset Key} {first second : Key} (inside : first ∈ U)
    (inside' : second ∈ U) (k : Key) : (Rule.either first second k).Asks U := by
  refine Computation.asks_need_bind inside fun answer => ?_
  split
  · exact Computation.asks_need inside'
  · exact .done answer

theorem Rules.asks_stairs : Rules.stairs.Asks {.only "b", .only "c", .only "d"} :=
  forall_cons (fun k _ => Rule.asks_either (by simp) (by simp) k)
    (forall_cons (fun k _ => Rule.asks_either (by simp) (by simp) k)
      (forall_cons (fun k _ => Rule.asks_either (by simp) (by simp) k) forall_nil))

namespace Engine

def stairs : Engine Unit Nat := ((new Rules.stairs .steady ()).inject [(.only "d", 0)]).2

theorem reachable_stairs : Reachable Rules.stairs .steady stairs := .inject _ (.new ())

theorem evaluate_ends_stairs :
    let a : Key := .only "a"
    let b : Key := .only "b"
    let c : Key := .only "c"
    let p := stairs.pass true
    let roots := union [] [a]
    (∃ n, ∀ budget, n ≤ budget → stairs.evaluate budget [a] true = stairs.evaluate n [a] true) ∧
      ∃ turn₁ turn₁' turn₂ turn₂', p.Parks roots a [b] turn₁ turn₁' ∧
        ReflTransGen (p.Turned roots) turn₁' turn₂ ∧ p.Parks roots a [c] turn₂ turn₂' ∧
        [b].Disjoint [c] ∧ (Event.restarts (stairs.entry.since turn₂'.2.world) a).length = 2 := by
  intro a b c p roots
  have seeks : p.Seeks roots stairs.entry _ :=
    Pass.seeks_of_asks (Rules.confined_stairs _)
      (Quiescent.passInv (reachable_stairs.quiescent (Rules.confined_stairs _)) true)
        Rules.asks_stairs
  obtain ⟨⟨n, -, same⟩, all⟩ :=
    reachable_stairs.evaluate_ends (Rules.confined_stairs _) [a] true _ seeks
  let start := p.enqueueAll roots { world := stairs.entry }
  have begun : p.Reaches roots stairs.entry start.1 start.2 := .start p roots stairs.entry
  have first : p.Parks roots a [b] (start.1, start.2) _ :=
    .intro [] (by decide +kernel) (Pass.inQueue_iff.mpr (by decide +kernel)) (by decide +kernel)
  have next :
      p.turn roots ([] ++ (p.dispatch a start.2).1) (p.dispatch a start.2).2 = .dispatch b [] := by
    decide +kernel
  have between := ReflTransGen.single (Pass.Turned.dispatch b [] next)
  have second : p.Parks roots a [c] ([] ++ (p.dispatch b (p.dispatch a start.2).2).1, _) _ :=
    .intro (s := (p.dispatch b (p.dispatch a start.2).2).2) [] (by decide +kernel)
      (Pass.inQueue_iff.mpr (by decide +kernel)) (by decide +kernel)
  have apart := ((all _ _ begun a).2 [b] _ first _ between).1 [c] _ second
  exact ⟨⟨n, same⟩, _, _, _, _, first, between, second, apart, by decide +kernel⟩

end Engine

end Recompute
