import Recompute.Overlap
import Recompute.Proofs.Causes
import Recompute.Proofs.FailFast
import Recompute.Proofs.Halting
import Recompute.Proofs.Rollback

set_option autoImplicit false

namespace Recompute

variable {S V : Type}

open Progress
open Relation (ReflTransGen)

theorem Failure.merge_singleton {k : Key} {e : Failure}
    (cause : (∃ fault, e = .direct k fault) ∨ ∃ failures, e = .merge failures) :
    Failure.merge [e] = .transitive e.causes e.fault? e.cycles := by
  have kept : union [] e.causes = e.causes ∧ union [] e.cycles = e.cycles := by
    rcases cause with ⟨fault, rfl⟩ | ⟨failures, rfl⟩
    · exact ⟨union_nil_of_nodup (List.nodup_singleton k), rfl⟩
    · exact ⟨union_nil_of_nodup (nodup_causes_merge failures),
        union_nil_of_nodup (nodup_cycles_merge failures)⟩
  simp [Failure.merge, kept.1, kept.2]

namespace Graph

def Pends (g : Graph V) (k d : Key) : Prop :=
  (∃ f m, (g.node k).flight = some f ∧ f.stage = .parked m) ∧ g.Blocked k d

variable {g g' : Graph V} {k : Key}

theorem awaits_iff_pends (shape : g.WellFormed) (waiterInv : g.WaiterInvariant)
    (unfinished : (g.node k).isFinished = false) (l : Key) :
    g.Awaits l k ↔ ReflTransGen g.Pends l k := by
  constructor
  · intro awaits
    induction awaits using ReflTransGen.head_induction_on with
    | refl => exact .refl
    | @head l d awaited rest ih =>
      rw [awaits_eq] at awaited
      obtain ⟨f, flight, listed⟩ := Node.exists_flight_of_awaited awaited
      have open' : (g.node d).isFinished = false := by
        rcases ReflTransGen.cases_head rest with rfl | ⟨d', awaited', -⟩
        · exact unfinished
        · rw [awaits_eq] at awaited'
          obtain ⟨f', flight', -⟩ := Node.exists_flight_of_awaited awaited'
          exact (shape d).unfinished_of_flight flight'
      have parked : ∃ m, f.stage = .parked m := by
        by_contra up
        have finished := waiterInv.ready l f flight (fun m stage => up ⟨m, stage⟩) d listed
        simp [open'] at finished
      obtain ⟨m, stage⟩ := parked
      exact .head ⟨⟨f, m, flight, stage⟩, awaited, open'⟩ ih
  · refine ReflTransGen.mono (fun l d pends => ?_) _ _
    rw [awaits_eq]
    exact pends.2.1

theorem awaits_settled_iff {m : Node V} (once : (g.node k).waiters.Nodup)
    (node : g'.node = (g.settled k m).node) (idle : m.flight = none) (l : Key) :
    g'.Awaits l k ↔ g.Awaits l k := by
  have others {x : Key} (ne : x ≠ k) : g'.awaits x = g.awaits x := by
    rw [awaits_eq, awaits_eq, node]
    exact (sameAttempt_settled once m ne).awaits
  constructor
  · intro awaits
    refine ReflTransGen.mono (fun x y awaited => ?_) _ _ awaits
    have ne : x ≠ k := by
      rintro rfl
      have flight : (g'.node x).isInFlight = false := by
        rw [node, isInFlight_settled once]
        simp [Node.isInFlight, idle]
      rw [awaits_eq] at awaited
      obtain ⟨f, found, -⟩ := Node.exists_flight_of_awaited awaited
      simp [Node.isInFlight, found] at flight
    exact others ne ▸ awaited
  · intro awaits
    induction awaits using ReflTransGen.head_induction_on with
    | refl => exact .refl
    | @head x y awaited _ ih =>
      by_cases same : x = k
      · exact same ▸ .refl
      · exact .head ((others same).symm ▸ awaited) ih

variable {roots : List Key}

theorem WorkEffect.demanded [BEq V] {version : Nat} {entered : List Key} {log : List Event}
    {lost : Bool}
    (effect : g.WorkEffect version k g' entered log lost) (shape : g.WellFormed)
    (waiterInv : g.WaiterInvariant)
    {f : Flight V} (flight : (g.node k).flight = some f) (queued : f.stage = .queued)
    (demanded : g.Demanded roots) : g'.Demanded roots := by
  have free := not_blocked_of_ready flight (waiterInv.ready k f flight (by simp [queued]))
  have flying : (g.node k).isInFlight = true := by simp [Node.isInFlight, flight]
  have unfinished := (shape k).unfinished_of_flight flight
  cases effect with
  | publish m ending _ good renewed starts node =>
    exact (demanded.settle (waiterInv.once k) node renewed.idle flying free).1
  | drop m ending _ good renewed starts node =>
    refine (demanded.finish (fun l ne => ?_) (fun l ne => ?_) (fun l inFlight => ?_) flying free).1
    · rw [node, Function.update_of_ne ne]
      exact .refl _
    · rw [node, Function.update_of_ne ne]
    · have ne : l ≠ k := by
        rintro rfl
        simp [node, Node.isInFlight, renewed.idle] at inFlight
      rw [node, Function.update_of_ne ne] at inFlight
      exact ⟨ne, inFlight⟩
  | park _ f' n awaits reached entered pending log _ _ carried good flight' stage enough awaits'
      waiters some missing within source entered' node =>
    exact demanded.park node carried.result flying flight' (awaits'.symm ▸ within)
      (fun d inside => missing d (within inside)) free
  | hang _ f' n log _ _ carried good flight' stage awaits' waiters source node =>
    exact demanded.update node unfinished (carried.unfinished unfinished) free fun _ => .inl flying

theorem Demanded.enqueue (demanded : g.Demanded roots) (wanted : k ∈ roots) :
    (g.put k (g.node k).enqueue.2).Demanded roots := by
  have put := g.put_node k (g.node k).enqueue.2
  rcases (g.node k).enqueue_cases with ⟨still, -⟩ | ⟨queued, unfinished, idle⟩
  · rw [still] at put ⊢
    exact demanded.of_node (put.trans (Function.update_eq_self k _))
  · rw [queued] at put ⊢
    exact demanded.update put unfinished unfinished (by simp [Blocked, Node.awaits, idle])
      fun _ => .inr wanted

end Graph

namespace Pass

variable [BEq V] {p : Pass S V} {roots queue : List Key} {w : World S V} {s : Progress S V}
  {k : Key}

structure Blameless (roots : List Key) (s : Progress S V) : Prop where
  demanded : s.graph.Demanded roots
  culprit : s.culprit = none

omit [BEq V] in
theorem Blameless.enqueueAll (blameless : Blameless roots s) {keys : List Key}
    (wanted : keys ⊆ roots) : Blameless roots (p.enqueueAll keys s).2 := by
  induction keys generalizing s with
  | nil => exact blameless
  | cons k rest ih =>
    have held : s.Undisturbed (settle (p.enqueue k) false s).2 :=
      p.undisturbed_reports.enqueue k s
    have after : After (p.enqueue k) s
        (fun _ s' => s'.graph = s.graph.put k (s.graph.node k).enqueue.2)
        (fun s' => s'.graph = s.graph.put k (s.graph.node k).enqueue.2) := by
      refine (yields_onNode k Node.enqueue s).bind_after ?_
      cases (s.graph.node k).enqueue.1 with
      | false => exact (yields_pure false _).after rfl
      | true =>
        exact .bind (after_announce k _ fun s' graph _ _ => ⟨(yields_pure true s').after graph, graph⟩)
    have graph := after.settle false
    have next : Blameless roots (settle (p.enqueue k) false s).2 := by
      refine ⟨?_, held.culprit.trans blameless.culprit⟩
      rw [graph]
      exact blameless.demanded.enqueue (wanted List.mem_cons_self)
    exact ih next (List.Subset.trans (List.subset_cons_self k rest) wanted)

theorem Blameless.dispatch (blameless : Blameless roots s) (failFast : p.keepGoing = false)
    (confined : p.rules.Confined fun _ => True) {new : List Event}
    (passInv : s.PassInvariant p.version w new) (live : p.isStopped s = false) :
    (p.dispatch k s).2.halted = true ∨ Blameless roots (p.dispatch k s).2 := by
  by_cases queued : InQueue s k
  · rcases dispatch_condemns confined passInv queued live with
      held | ⟨halted, -⟩ | ⟨e, deps, s₁, condemns⟩
    · obtain ⟨effect, -, -, -, -, -⟩ := dispatch_workStep confined passInv queued live
      obtain ⟨f, flight, queued⟩ := queued
      exact .inr ⟨effect.demanded passInv.shape passInv.waiterInv flight queued blameless.demanded,
        held.culprit.trans blameless.culprit⟩
    · exact .inl halted
    · left
      rw [condemns.blames.halted, failFast]
      exact Bool.or_true _
  · obtain ⟨-, same, (_ : p.PassStep (fun _ => True) s _)⟩ := dispatch_rests queued
    exact .inr ⟨blameless.demanded.of_node same,
      (dispatch_sameHalt_of_not_queued queued).culprit.trans blameless.culprit⟩

theorem Reaches.blameless (failFast : p.keepGoing = false)
    (confined : p.rules.Confined fun _ => True)
    (passInv : ({ world := w } : Progress S V).PassInvariant p.version w [])
    (idle : ∀ k, (w.graph.node k).flight = none) (reaches : p.Reaches roots w queue s) :
    s.halted = true ∨ queue = [] ∨ Blameless roots s := by
  have fresh : Blameless roots ({ world := w } : Progress S V) :=
    ⟨fun k inFlight => by simp [Node.isInFlight, Progress.graph, idle] at inFlight, rfl⟩
  suffices all : ∀ turn, ReflTransGen (p.Turned roots) (p.enqueueAll roots { world := w }) turn →
      turn.2.halted = true ∨ turn.1 = [] ∨ Blameless roots turn.2 from all (queue, s) reaches
  intro turn reaches
  induction reaches with
  | refl => exact .inr (.inr (fresh.enqueueAll (List.Subset.refl roots)))
  | @tail before after earlier turned ih =>
    have reaches : p.Reaches roots w before.1 before.2 := earlier
    obtain ⟨new, passInv'⟩ := (reaches.passSteps confined passInv).passInv passInv
    cases turned with
    | @dispatch queue s k rest turn =>
      obtain ⟨live, pick⟩ := turn_dispatch turn
      have blameless : Blameless roots s := by
        refine (ih.resolve_left fun (halted : s.halted = true) => ?_).resolve_left
          fun (none : queue = []) => ?_
        · simp [isStopped, halted] at live
        · simp [none] at pick
      exact (blameless.dispatch failFast confined passInv' live).imp_right .inr
    | @unblock queue s cycles turn =>
      exact (failCycles_halts failFast cycles s).imp_right .inl

namespace Condemns

variable {e : Failure} {deps : List Group} {s₁ : Progress S V}

theorem culprit (condemns : p.Condemns k e deps s s₁) (failFast : p.keepGoing = false)
    (blameless : Blameless roots s) : (p.dispatch k s).2.culprit = some k := by
  rw [condemns.blames.culprit, failFast, condemns.held.culprit, blameless.culprit]
  rfl

theorem outcome (condemns : p.Condemns k e deps s s₁) :
    ((p.dispatch k s).2.graph.node k).outcome? = some (.error e) := by
  have same := s₁.graph.settled_sameResult k
    ((s₁.graph.node k).commit (.error e) deps p.version).2 k
  have renewed := Node.renewed_commit (s₁.graph.node k) (.error e) deps p.version
  rw [Function.update_self] at same
  rw [condemns.node, same.outcome?, Node.outcome?, if_pos renewed.finished, Node.cached_commit]

theorem others (condemns : p.Condemns k e deps s s₁) {l : Key} (ne : l ≠ k) :
    Node.SameResult (s₁.graph.node l) ((p.dispatch k s).2.graph.node l) := by
  have same := s₁.graph.settled_sameResult k
    ((s₁.graph.node k).commit (.error e) deps p.version).2 l
  rw [Function.update_of_ne ne] at same
  rw [condemns.node]
  exact same

theorem starts (condemns : p.Condemns k e deps s s₁) (l : Key) :
    ((p.dispatch k s).2.graph.node l).starts = (s₁.graph.node l).starts := by
  rw [condemns.node, Graph.settled_starts]
  have same : ((s₁.graph.node k).commit (.error e) deps p.version).2.starts =
      (s₁.graph.node k).starts := rfl
  exact Graph.update_congr Node.starts same l

theorem awaits_iff (condemns : p.Condemns k e deps s s₁) (waiterInv : s₁.graph.WaiterInvariant)
    (l : Key) :
    (p.dispatch k s).2.graph.Awaits l k ↔ s₁.graph.Awaits l k :=
  Graph.awaits_settled_iff (waiterInv.once k) condemns.node
    (Node.renewed_commit (s₁.graph.node k) (.error e) deps p.version).idle l

theorem demanded (condemns : p.Condemns k e deps s s₁) (blameless : Blameless roots s)
    {new : List Event} (passInv : s.PassInvariant p.version w new) :
    ∃ root ∈ roots, s₁.graph.Awaits root k := by
  obtain ⟨f, since⟩ := condemns.since
  obtain ⟨effect, -, -, -, -, -⟩ := since.stay
  have demanded := effect.demanded passInv.shape passInv.waiterInv since.flight₀ since.queued
    blameless.demanded
  obtain ⟨f', flight, -⟩ := since.flight
  obtain ⟨root, inside, path⟩ := demanded k (by simp [Node.isInFlight, flight])
  refine ⟨root, inside, ReflTransGen.mono (fun x y blocked => ?_) _ _ path⟩
  rw [Graph.awaits_eq]
  exact blocked.1

end Condemns

end Pass

namespace Engine

variable [BEq V] {rules : Rules S V} {listener : Listener} {e : Engine S V}

-- If the failure of `k` in `s₁`, to which the work on it comes, halts an evaluation without keep-
-- going, then nothing commits or starts any more, and what is reported is the outcome of every root
-- that has finished, and this failure for just those that were waiting for `k`.
theorem Reachable.failFast_blames_waiting (reachable : Reachable rules listener e)
    (confined : rules.Confined fun _ => True) {budget : Nat} {roots : List Key} {ev : Evaluation V}
    (ok : (e.evaluate budget roots false).1 = .ok ev)
    (uninterrupted : (e.evaluate budget roots false).2.world.isInterrupted e.current = false)
    {queue rest : List Key} {k : Key} {s : Progress S V}
    (reaches : (e.pass false).Reaches (union [] roots) e.entry queue s)
    (turn : (e.pass false).turn (union [] roots) queue s = .dispatch k rest)
    (halts : ((e.pass false).dispatch k s).2.halted = true) :
    ∃ f deps s₁, (e.pass false).Condemns k f deps s s₁ ∧
      let w := (e.evaluate budget roots false).2.world
      w.history = .evaluated k (.failed f.kind) :: s₁.world.history ∧
      (w.graph.node k).outcome? = some (.error f) ∧
      (∀ l, l ≠ k → Node.SameResult (s₁.graph.node l) (w.graph.node l)) ∧
      (∀ l, (w.graph.node l).starts = (s₁.graph.node l).starts) ∧
      (∀ root ∈ roots, (w.graph.node root).isFinished = true →
        ∃ o, (w.graph.node root).outcome? = some o ∧ ev.get? root = some o) ∧
      (∀ root ∈ roots, (w.graph.node root).isFinished = false →
        (s₁.graph.Awaits root k → ev.get? root =
          some (.error (.transitive f.causes f.fault? f.cycles))) ∧
        (¬ s₁.graph.Awaits root k → ev.get? root = none)) ∧
      (∀ l, s₁.graph.Awaits l k ↔ ReflTransGen s₁.graph.Pends l k) ∧
      (∀ root, root ∉ roots → ev.get? root = none) ∧
      ∃ root ∈ roots, ∃ f', ev.get? root = some (.error f') := by
  obtain ⟨rfl, rfl⟩ := reachable.unchanged
  have passInv₀ := Quiescent.passInv (reachable.quiescent confined) false
  obtain ⟨new, passInv⟩ := (reaches.passSteps confined passInv₀).passInv passInv₀
  obtain ⟨live, pick⟩ := Pass.turn_dispatch turn
  have unhalted : s.halted = false := (Bool.or_eq_false_iff.mp live).1
  have blameless := ((reaches.blameless rfl confined passInv₀ (reachable.quiescent confined).idle)
    |>.resolve_left (by simp [unhalted])).resolve_left fun none => by simp [none] at pick
  obtain ⟨queue', s', evaluated⟩ := e.evaluated budget roots false
  obtain ⟨unaborted, stop, rfl⟩ := evaluated.ok ev ok
  have last := reaches.tail (.dispatch k rest turn)
  obtain ⟨-, rfl⟩ := evaluated.reaches.final stop last (Pass.turn_of_halted halts)
  have queued : Pass.InQueue s k := by
    by_contra out
    have held := Pass.dispatch_sameHalt_of_not_queued (p := e.pass false) out
    simp [held.halted, unhalted] at halts
  obtain ⟨f, deps, s₁, condemns⟩ :=
    ((Pass.dispatch_condemns confined passInv queued live).resolve_left fun held => by
      simp [held.halted, unhalted] at halts).resolve_left fun aborted => aborted.2 unaborted
  obtain ⟨f', since⟩ := condemns.since
  have engages : (e.pass false).PassStep (fun _ => True) s s₁ := .worked k since.stay
  have ends : (e.pass false).PassStep (fun _ => True) s _ :=
    .worked k (Pass.dispatch_workStep confined passInv queued live)
  obtain ⟨_, _, _, -, passInv₁⟩ := engages.spares passInv
  obtain ⟨_, _, _, -, passInv'⟩ := ends.spares passInv
  have culprit := condemns.culprit rfl blameless
  have outcome := condemns.outcome
  have awaits := condemns.awaits_iff passInv₁.waiterInv
  have interrupted : ((e.pass false).dispatch k s).2.world.isInterrupted e.current = false := by
    simpa only [World.isInterrupted, evaluated.interrupted] using uninterrupted
  have abandoned (l : Key) : Node.SameResult (((e.pass false).dispatch k s).2.graph.node l)
      ((e.evaluate budget roots false).2.world.graph.node l) := by
    rw [evaluated.graph, passInv'.node_abandon]
    exact (passInv'.shape l).sameResult_abandon
  have failure := (passInv'.shape k).failure?_of_outcome? outcome
  have reported (root : Key) (inside : root ∈ roots) :
      ((e.pass false).evaluation (union [] roots) ((e.pass false).dispatch k s).2).get? root =
        (e.pass false).outcomeOf ((e.pass false).dispatch k s).2 root := by
    rw [Pass.evaluation_get?, if_pos ((mem_union [] roots root).mpr (.inr inside))]
  obtain ⟨waiter, wanted, waits⟩ := condemns.demanded blameless passInv
  obtain ⟨told, asked, f'', failed⟩ := Pass.reported_of_blamed (p := e.pass false) passInv'.shape
    interrupted ⟨k, f, culprit, outcome, waiter, wanted, (awaits waiter).mpr waits⟩
  have among : told ∈ roots := by simpa [mem_union] using asked
  refine ⟨f, deps, s₁, condemns, ?_, ?_, fun l ne => ?_, fun l => ?_, fun root inside finished => ?_,
    fun root inside unfinished => ?_, ?_, fun root outside => ?_, told, among, f'', ?_⟩
  · rw [evaluated.history]
    exact condemns.blames.history
  · rw [(abandoned k).outcome?]
    exact outcome
  · exact (condemns.others ne).trans (abandoned l)
  · rw [evaluated.graph, passInv'.node_abandon, Node.starts_abandon]
    exact condemns.starts l
  · rw [(abandoned root).finished, ← (passInv'.shape root).outcome?_isSome] at finished
    obtain ⟨o, committed⟩ := Option.isSome_iff_exists.mp finished
    rw [(abandoned root).outcome?, reported root inside]
    exact ⟨o, committed, Pass.outcomeOf_of_outcome committed⟩
  · rw [(abandoned root).finished] at unfinished
    have blamed := Pass.outcomeOf_of_culprit (p := e.pass false) (Node.outcome?_eq_none unfinished)
      interrupted culprit failure
    rw [reported root inside, blamed, Failure.merge_singleton condemns.cause]
    rw [← awaits root, ← Graph.dependsOn_iff]
    exact ⟨fun waiting => if_pos waiting, fun apart => if_neg apart⟩
  · exact Graph.awaits_iff_pends passInv₁.shape passInv₁.waiterInv
      (since.carried.unfinished since.unfinished₀)
  · rw [Pass.evaluation_get?, if_neg]
    simpa [mem_union] using outside
  · rw [reported told among]
    exact failed

end Engine

def Rules.faulty : Rules Unit Nat :=
  [("root", fun _ => Computation.need (.only "a")),
    ("a", fun _ => .done (.error (.message "no"))),
    ("other", fun _ => Computation.need (.only "b")),
    ("b", fun _ => .done (.ok 0))]

theorem Rules.confined_faulty (good : Unit → Prop) : Rules.faulty.Confined good :=
  forall_cons (fun _ _ => Computation.confined_need _) (forall_cons (fun _ _ => .done _)
    (forall_cons (fun _ _ => Computation.confined_need _) (forall_cons (fun _ _ => .done _)
      forall_nil)))

namespace Engine

def faulty : Engine Unit Nat := new Rules.faulty .steady ()

theorem failFast_blames_waiting_faulty :
    ∃ ev, (faulty.evaluate 20 [.only "root", .only "other"] false).1 = .ok ev ∧
      ev.get? (.only "root") = some (.error (.transitive [.only "a"] (some (.message "no")) [])) ∧
      ev.get? (.only "other") = none ∧ ∃ root, ∃ f, ev.get? root = some (.error f) := by
  have result : (faulty.evaluate 20 [.only "root", .only "other"] false).1.toOption.map
      (fun ev => (ev.get? (.only "root"), ev.get? (.only "other"))) =
        some (some (.error (.transitive [.only "a"] (some (.message "no")) [])), none) := by
    decide +kernel
  have uninterrupted : (faulty.evaluate 20 [.only "root", .only "other"] false).2.world.isInterrupted
      faulty.current = false := by
    decide +kernel
  obtain ⟨queue, s, reaches, turn, halts⟩ : ∃ queue s,
      (faulty.pass false).Reaches (union [] [.only "root", .only "other"]) faulty.entry queue s ∧
        (faulty.pass false).turn (union [] [.only "root", .only "other"]) queue s =
          .dispatch (.only "a") [.only "b"] ∧
        ((faulty.pass false).dispatch (.only "a") s).2.halted = true := by
    have start := Pass.Reaches.start (faulty.pass false) (union [] [.only "root", .only "other"])
      faulty.entry
    have first := start.dispatch (.only "root") [.only "other"] (by decide +kernel)
    have second := first.dispatch (.only "other") [.only "a"] (by decide +kernel)
    exact ⟨_, _, second, by decide +kernel, by decide +kernel⟩
  cases ok : (faulty.evaluate 20 [.only "root", .only "other"] false).1 with
  | error abort =>
    rw [ok] at result
    cases result
  | ok ev =>
    rw [ok] at result
    have reachable : Reachable Rules.faulty .steady faulty := .new ()
    obtain ⟨f, deps, s₁, -, -, -, -, -, -, -, -, -, root, -, reported⟩ :=
      reachable.failFast_blames_waiting (Rules.confined_faulty _) ok uninterrupted reaches turn halts
    have both : ev.get? (.only "root") =
          some (.error (.transitive [.only "a"] (some (.message "no")) [])) ∧
        ev.get? (.only "other") = none := by
      simpa [Except.toOption] using result
    exact ⟨ev, rfl, both.1, both.2, root, reported⟩

open Crew.Move in
-- With two workers, `root` may find `a` missing before it fails and register with it only then:
-- nobody waited for `a` when it failed, and yet `root` is told of it.
theorem failFast_blames_late_faulty :
    let root : Key := .only "root"
    let a : Key := .only "a"
    let p := faulty.pass false
    let overlaps := p.Overlaps { workers := some 2 } [root, a]
    ∃ c c₁ c' ev, ReflTransGen overlaps (faulty.crew [root, a] false) c ∧ overlaps c c₁ ∧
      ReflTransGen overlaps c₁ c' ∧
      (c.state.graph.node a).isFinished = false ∧ (c₁.state.graph.node a).isFinished = true ∧
      c₁.state.culprit = none ∧ c'.state.culprit = some a ∧
      ¬ c.state.graph.Awaits root a ∧ p.evaluation? [root, a] c' = some ev ∧
      ev.get? root = some (.error (.transitive [a] (some (.message "no")) [])) := by
  intro root a p overlaps
  let before := [take 0, take 0] ++ List.replicate 7 (proceed 0) ++ List.replicate 6 (proceed 1)
  let after := List.replicate 4 (proceed 1) ++ List.replicate 8 (proceed 0)
  have played : (p.play { workers := some 2 } before (faulty.crew [root, a] false)).any
      (fun c => !(c.state.graph.node a).isFinished && !c.state.graph.dependsOn root a &&
        (p.move { workers := some 2 } c (proceed 1)).any fun c₁ =>
          (c₁.state.graph.node a).isFinished && c₁.state.culprit = none &&
          (p.play { workers := some 2 } after c₁).any fun c' =>
            c'.state.culprit = some a && (p.evaluation? [root, a] c').any fun ev =>
              ev.get? root = some (.error (.transitive [a] (some (.message "no")) []))) = true := by
    decide +kernel
  simp only [Option.any_eq_true, Bool.and_eq_true, Bool.not_eq_true', decide_eq_true_eq] at played
  obtain ⟨c, first, ⟨unfinished, apart⟩, c₁, moved, ⟨finished, unblamed⟩, c', last, blamed, ev,
    reported, told⟩ := played
  refine ⟨c, c₁, c', ev, Pass.overlaps_of_play first, Pass.overlaps_of_move moved,
    Pass.overlaps_of_play last,
    unfinished, finished, unblamed, blamed, ?_, reported, told⟩
  rw [← Graph.dependsOn_iff, apart]
  exact Bool.false_ne_true

end Engine

end Recompute
