import Recompute.Proofs.Turns
import Recompute.Proofs.Waits

set_option autoImplicit false

namespace Recompute

variable {S V : Type}

open Relation (ReflTransGen)

namespace Graph

def Blocked (g : Graph V) (k d : Key) : Prop :=
  d ∈ (g.node k).awaits ∧ (g.node d).isFinished = false

def Wanted (g : Graph V) (roots : List Key) (k : Key) : Prop :=
  ∃ root ∈ roots, ReflTransGen g.Blocked root k

def Demanded (roots : List Key) (g : Graph V) : Prop :=
  ∀ k, (g.node k).isInFlight = true → g.Wanted roots k

variable {g g' : Graph V} {roots : List Key} {k : Key}

theorem not_blocked_of_ready {f : Flight V} (flight : (g.node k).flight = some f)
    (ready : ∀ d ∈ f.awaits, (g.node d).isFinished = true) (d : Key) : ¬ g.Blocked k d := by
  rintro ⟨awaited, unfinished⟩
  have awaits : (g.node k).awaits = f.awaits := by simp [Node.awaits, flight]
  have finished := ready d (awaits ▸ awaited)
  simp [unfinished] at finished

theorem Signalled.not_blocked (signalled : g.Signalled) {f : Flight V}
    (flight : (g.node k).flight = some f) (up : ∀ m, f.stage ≠ .parked m) (d : Key) :
    ¬ g.Blocked k d :=
  not_blocked_of_ready flight (signalled.ready k f flight up) d

theorem Demanded.of_node (demanded : g.Demanded roots) (same : g'.node = g.node) :
    g'.Demanded roots := by
  have blocked : g'.Blocked = g.Blocked := by
    funext k d
    simp only [Blocked, same]
  simpa only [Demanded, Wanted, blocked, same] using demanded

theorem Demanded.proceed (demanded : g.Demanded roots)
    (others : ∀ l, l ≠ k → Node.SameAttempt (g.node l) (g'.node l))
    (finished : ∀ l, (g'.node l).isFinished = (g.node l).isFinished)
    (free : ∀ d, ¬ g.Blocked k d)
    (new : ∀ l, (g'.node l).isInFlight = true → (g.node l).isInFlight = true ∨ l ∈ roots ∨
      (g.node k).isInFlight = true ∧ g'.Blocked k l) : g'.Demanded roots := by
  have keeps : ∀ x y, g.Blocked x y → g'.Blocked x y := by
    intro x y blocked
    have ne : x ≠ k := by
      rintro rfl
      exact free y blocked
    exact ⟨(others x ne).awaits ▸ blocked.1, (finished y).trans blocked.2⟩
  have still {l : Key} (inFlight : (g.node l).isInFlight = true) : g'.Wanted roots l := by
    obtain ⟨root, inside, path⟩ := demanded l inFlight
    exact ⟨root, inside, ReflTransGen.mono keeps _ _ path⟩
  intro l inFlight
  rcases new l inFlight with old | wanted | ⟨old, blocked⟩
  · exact still old
  · exact ⟨l, wanted, .refl⟩
  · obtain ⟨root, inside, path⟩ := still old
    exact ⟨root, inside, path.tail blocked⟩

theorem Demanded.update (demanded : g.Demanded roots) {m : Node V}
    (node : g'.node = Function.update g.node k m) (unfinished : (g.node k).isFinished = false)
    (still : m.isFinished = false) (free : ∀ d, ¬ g.Blocked k d)
    (new : m.isInFlight = true → (g.node k).isInFlight = true ∨ k ∈ roots) :
    g'.Demanded roots := by
  refine demanded.proceed (k := k) (fun l ne => ?_) (fun l => ?_) free fun l inFlight => ?_
  · rw [node, Function.update_of_ne ne]
    exact .refl _
  · rw [node]
    exact update_congr Node.isFinished (still.trans unfinished.symm) l
  · rw [node] at inFlight
    by_cases same : l = k
    · subst same
      rw [Function.update_self] at inFlight
      exact (new inFlight).imp_right .inl
    · rw [Function.update_of_ne same] at inFlight
      exact .inl inFlight

theorem Demanded.park (demanded : g.Demanded roots) {n : Node V} {f : Flight V} {reached : List Key}
    (node : g'.node = g.parked k n reached) (result : Node.SameResult (g.node k) n)
    (inFlight : (g.node k).isInFlight = true) (flight : n.flight = some f)
    (within : reached ⊆ f.awaits) (missing : ∀ d ∈ reached, (g.node d).isFinished = false)
    (free : ∀ d, ¬ g.Blocked k d) : g'.Demanded roots := by
  have open' := unfinished_update result missing
  have finished (l : Key) : (g'.node l).isFinished = (g.node l).isFinished := by
    rw [node, ← (sameResult_update result l).finished, parked]
    split
    · exact (Node.SameResult.register _ _).finished
    · rfl
  refine demanded.proceed (k := k) (fun l ne => ?_) finished free fun l inFlight' => ?_
  · rw [node]
    exact sameAttempt_parked open' ne
  · rw [node, isInFlight_parked open', Bool.or_eq_true, decide_eq_true_eq] at inFlight'
    rcases inFlight' with old | awaited
    · left
      by_cases same : l = k
      · exact same ▸ inFlight
      · simpa [same] using old
    · obtain ⟨-, f', found, -, same, -⟩ := parked_self open' flight
      rw [← node] at found
      refine .inr (.inr ⟨inFlight, ?_, (finished l).trans (missing l awaited)⟩)
      simpa [Node.awaits, found, same] using within awaited

theorem Demanded.finish (demanded : g.Demanded roots)
    (others : ∀ l, l ≠ k → Node.SameAttempt (g.node l) (g'.node l))
    (finished : ∀ l, l ≠ k → (g'.node l).isFinished = (g.node l).isFinished)
    (flying : ∀ l, (g'.node l).isInFlight = true → l ≠ k ∧ (g.node l).isInFlight = true)
    (inFlight : (g.node k).isInFlight = true) (free : ∀ d, ¬ g.Blocked k d) :
    g'.Demanded roots ∧ ∃ root ∈ roots, g'.Awaits root k := by
  have keeps : ∀ x y, g.Blocked x y → y ∈ (g'.node x).awaits := by
    intro x y blocked
    have ne : x ≠ k := by
      rintro rfl
      exact free y blocked
    rw [(others x ne).awaits]
    exact blocked.1
  constructor
  · intro l inFlight'
    obtain ⟨ne, before⟩ := flying l inFlight'
    obtain ⟨root, inside, path⟩ := demanded l before
    refine ⟨root, inside, ?_⟩
    clear inFlight' before
    induction path with
    | refl => exact .refl
    | @tail x y _ blocked ih =>
      have ne' : x ≠ k := by
        rintro rfl
        exact free y blocked
      exact (ih ne').tail ⟨keeps x y blocked, (finished y ne).trans blocked.2⟩
  · obtain ⟨root, inside, path⟩ := demanded k inFlight
    refine ⟨root, inside, ReflTransGen.mono (fun x y blocked => ?_) _ _ path⟩
    rw [awaits_eq]
    exact keeps x y blocked

theorem Demanded.settle (demanded : g.Demanded roots) (once : (g.node k).waiters.Nodup) {n : Node V}
    (node : g'.node = (g.settled k n).node) (idle : n.flight = none)
    (inFlight : (g.node k).isInFlight = true) (free : ∀ d, ¬ g.Blocked k d) :
    g'.Demanded roots ∧ ∃ root ∈ roots, g'.Awaits root k := by
  refine demanded.finish (fun l ne => ?_) (fun l ne => ?_) (fun l inFlight' => ?_) inFlight free
  · rw [node]
    exact sameAttempt_settled once n ne
  · rw [node, (g.settled_sameResult k n l).finished, Function.update_of_ne ne]
  · rw [node, isInFlight_settled once] at inFlight'
    have ne : l ≠ k := by
      rintro rfl
      simp [Node.isInFlight, idle] at inFlight'
    exact ⟨ne, by simpa [ne] using inFlight'⟩

end Graph

variable [BEq V] {p : Pass S V} {good : S → Prop} {roots : List Key} {s s' : Progress S V}

theorem Step.demanded (step : Step p good roots s s') (underway : s.GroundedRun p.version)
    (demanded : s.graph.Demanded roots) : s'.graph.Demanded roots := by
  have signalled := underway.signalled
  have shape := underway.shape
  have open' {k : Key} {f : Flight V} (flight : (s.graph.node k).flight = some f) :=
    (shape k).unfinished_of_flight flight
  have flying {k : Key} {f : Flight V} (flight : (s.graph.node k).flight = some f) :
      (s.graph.node k).isInFlight = true := by simp [Node.isInFlight, flight]
  have free {k : Key} {f : Flight V} (flight : (s.graph.node k).flight = some f)
      (claimed : f.stage = .claimed) := signalled.not_blocked flight (by simp [claimed])
  cases step with
  | enqueue k wanted unfinished idle node control =>
    exact demanded.update node unfinished unfinished (by simp [Graph.Blocked, Node.awaits, idle])
      fun _ => .inr wanted
  | claim k f flight queued node control =>
    have still := ((shape k).claim flight queued).unfinished_of_flight
      (Node.flight_claim flight queued)
    exact demanded.update node (open' flight) still
      (signalled.not_blocked flight (by simp [queued])) fun _ => .inl (flying flight)
  | check k f group flight claimed verifying recorded checked node control =>
    exact demanded.update node (open' flight) (open' flight) (free flight claimed)
      fun _ => .inl (flying flight)
  | confirm k f flight claimed cause node control =>
    have status := cause.status
    exact (demanded.settle (signalled.once k) node ((shape k).renewed_confirm p.version status).idle
      (flying flight) (free flight claimed)).1
  | postpone k f group flight claimed verifying recorded some node control =>
    exact demanded.park node (.flight _ _) (flying flight) rfl (List.Subset.refl _)
      (fun d inside => (Graph.mem_missing.mp inside).2) (free flight claimed)
  | lose k f flight claimed startable node stopped control =>
    exact demanded.update node (open' flight) rfl (free flight claimed)
      fun _ => .inl (flying flight)
  | restart k f result t flight claimed startable attempt some node control =>
    exact demanded.park node (.resumed (open' flight) _) (flying flight) rfl (List.Subset.refl _)
      (fun d inside => attempt.absent_unfinished shape inside) (free flight claimed)
  | conclude k f o deps flight claimed startable cause node control =>
    exact (demanded.settle (signalled.once k) node
      (Node.renewed_commit (s.graph.node k).begun o deps p.version).idle (flying flight)
      (free flight claimed)).1

def Progress.Blamed (roots : List Key) (s : Progress S V) : Prop :=
  ∃ k f, s.culprit = some k ∧ (s.graph.node k).outcome? = some (.error f) ∧
    ∃ root ∈ roots, s.graph.Awaits root k

structure Progress.Watched (roots : List Key) (s : Progress S V) : Prop where
  demanded : s.graph.Demanded roots
  calm : s.halted = false → s.culprit = none
  blamed : s.halted = true → s.abort ≠ none ∨ s.Blamed roots

omit [BEq V] in
theorem Progress.Watched.of_sameState (watched : s.Watched roots) (same : s.SameState s') :
    s'.Watched roots := by
  obtain ⟨node, control⟩ := same
  have awaits : s'.graph.awaits = s.graph.awaits := by
    funext k
    rw [Graph.awaits_eq, Graph.awaits_eq, node]
  have halted : s'.halted = s.halted := congrArg Control.halted control
  have culprit : s'.culprit = s.culprit := congrArg Control.culprit control
  have abort : s'.abort = s.abort := congrArg Control.abort control
  obtain ⟨demanded, calm, blamed⟩ := watched
  constructor
  · exact demanded.of_node node
  · simpa only [halted, culprit] using calm
  · simpa only [Progress.Blamed, Graph.Awaits, halted, culprit, abort, node, awaits] using blamed

namespace Pass

theorem Move.watched (move : p.Move good roots s s') (failFast : p.keepGoing = false)
    (underway : s.GroundedRun p.version) (watched : s.Watched roots) : s'.Watched roots := by
  cases move with
  | rest same => exact watched.of_sameState same
  | step live step =>
    have demanded := step.demanded underway watched.demanded
    have calm := watched.calm live
    have quiet (halted : s'.halted = s.halted) (culprit : s'.culprit = s.culprit) :
        s'.Watched roots :=
      ⟨demanded, fun _ => culprit.trans calm, fun stopped => by simp [halted, live] at stopped⟩
    cases step with
    | enqueue _ _ _ _ _ control | claim _ _ _ _ _ control | check _ _ _ _ _ _ _ _ _ control
    | confirm _ _ _ _ _ _ control | postpone _ _ _ _ _ _ _ _ _ control =>
      exact quiet (congrArg Control.halted control) (congrArg Control.culprit control)
    | lose _ _ _ _ _ _ _ control =>
      obtain ⟨_, _, abort, -, -, given, control⟩ := control
      have culprit : s'.culprit = s.culprit := congrArg Control.culprit control
      have gave : s'.abort = abort := congrArg Control.abort control
      refine ⟨demanded, fun _ => culprit.trans calm, fun stopped => .inl ?_⟩
      rw [gave]
      rcases given with ⟨still, -⟩ | ⟨message, rfl⟩
      · simp [still, live] at stopped
      · cases s.abort <;> simp
    | restart _ _ _ _ _ _ _ _ _ _ control =>
      obtain ⟨_, _, -, -, control⟩ := control
      exact quiet (congrArg Control.halted control) (congrArg Control.culprit control)
    | conclude k f o deps flight claimed startable cause node control =>
      obtain ⟨_, _, -, -, control⟩ := control
      cases o with
      | ok v => exact quiet (congrArg Control.halted control) (congrArg Control.culprit control)
      | error failure =>
        rw [failFast] at control
        have halted : s'.halted = true := congrArg Control.halted control
        have culprit : s'.culprit = (s.culprit <|> some k) := congrArg Control.culprit control
        have renewed := Node.renewed_commit (s.graph.node k).begun (.error failure) deps p.version
        refine ⟨demanded, fun live => by simp [halted] at live, fun _ => .inr ?_⟩
        refine ⟨k, failure, by rw [culprit, calm]; rfl, ?_, ?_⟩
        · have same := s.graph.settled_sameResult k
            ((s.graph.node k).begun.commit (.error failure) deps p.version).2 k
          rw [Function.update_self] at same
          rw [node, same.outcome?, Node.outcome?, if_pos renewed.finished, Node.cached_commit]
        · exact (watched.demanded.settle (underway.signalled.once k) node renewed.idle
            (by simp [Node.isInFlight, flight])
            (underway.signalled.not_blocked flight (by simp [claimed]))).2

theorem Moves.watched (moves : p.Moves good roots s s') (failFast : p.keepGoing = false)
    (underway : s.GroundedRun p.version) (watched : s.Watched roots) : s'.Watched roots := by
  induction moves with
  | refl => exact watched
  | tail earlier move ih => exact move.watched failFast (Moves.underway earlier underway) ih

end Pass

end Recompute
