import Recompute.Proofs.Handing
import Recompute.Proofs.Running
import Mathlib.Logic.Relation

set_option autoImplicit false

namespace Recompute

variable {S V α β : Type}

namespace Progress

-- `w` is not lost: it ends in `s'` with the answer `a`.
def Yields (w : Work S V α) (s : Progress S V) (a : α) (s' : Progress S V) : Prop :=
  w.run.run s = (some a, s')

theorem yields_pure (a : α) (s : Progress S V) : Yields (pure a) s a s := rfl

theorem yields_bind {w : Work S V α} {f : α → Work S V β} {a : α} {b : β}
    {s s' s'' : Progress S V} (first : Yields w s a s') (second : Yields (f a) s' b s'') :
    Yields (w >>= f) s b s'' := by
  unfold Yields at *
  simp only [Process.run_bind, first]
  exact second

theorem yields_get (s : Progress S V) : Yields (get : Work S V (Progress S V)) s s s := rfl

theorem yields_modify (f : Progress S V → Progress S V) (s : Progress S V) :
    Yields (modify f : Work S V Unit) s () (f s) := rfl

theorem yields_onGraph (f : Graph V → α × Graph V) (s : Progress S V) :
    Yields (onGraph f) s (f s.graph).1 (s.withGraph (f s.graph).2) := rfl

theorem yields_onNode (k : Key) (t : Node V → α × Node V) (s : Progress S V) :
    Yields (onNode k t) s (t (s.graph.node k)).1
      (s.withGraph (s.graph.put k (t (s.graph.node k)).2)) := rfl

theorem yields_count (f : Stats → Stats) (s : Progress S V) :
    Yields (count f) s () { s with stats := f s.stats } := rfl

theorem settle_of_yields {w : Work S V α} {s s' : Progress S V} {a : α} (yields : Yields w s a s')
    (lost : α) : settle w lost s = (a, s') := by
  unfold Yields at yields
  simp [settle, yields]

theorem control_withGraph (s : Progress S V) {g : Graph V} (version : g.version = s.graph.version) :
    (s.withGraph g).control = s.control := by
  simp only [control, withGraph, graph, World.counted] at version ⊢
  rw [version]

structure SameState (s s' : Progress S V) : Prop where
  node : s'.graph.node = s.graph.node
  control : s'.control = s.control

end Progress

open Progress

def Listener.Steady (listener : Listener) : Prop := ∀ history, listener history = false

inductive Pass.Move [BEq V] (p : Pass S V) (good : S → Prop) (roots : List Key)
    (s s' : Progress S V) : Prop
  | rest (same : s.SameState s')
  | step (live : s.halted = false) (step : Step p good roots s s')

abbrev Pass.Moves [BEq V] (p : Pass S V) (good : S → Prop) (roots : List Key) :
    Progress S V → Progress S V → Prop :=
  Relation.ReflTransGen (p.Move good roots)

namespace Graph

theorem missing_of_node {g g' : Graph V} (same : g'.node = g.node) : g'.missing = g.missing := by
  funext keys
  simp only [missing, same]

theorem idleOf_of_node {g g' : Graph V} (same : g'.node = g.node) : g'.idleOf = g.idleOf := by
  funext keys
  simp only [idleOf, same]

theorem checked_of_node {g g' : Graph V} (same : g'.node = g.node) : g'.Checked = g.Checked := by
  funext verifiedAt deps
  simp only [Checked, same]

theorem outdated_of_node {g g' : Graph V} (same : g'.node = g.node) : g'.Outdated = g.Outdated := by
  funext verifiedAt deps
  simp only [Outdated, checked_of_node same, same]

theorem startable_of_node {g g' : Graph V} (same : g'.node = g.node) : g'.Startable = g.Startable := by
  funext k
  simp only [Startable, outdated_of_node same, same]

theorem parked_of_node {g g' : Graph V} (same : g'.node = g.node) : g'.parked = g.parked := by
  funext k m awaits l
  simp only [parked, same]

theorem settled_of_node {g g' : Graph V} (same : g'.node = g.node) (k : Key) (m : Node V) :
    (g'.settled k m).node = (g.settled k m).node :=
  settled_congr (fun l _ => congrFun same l) (by rw [same]) (by rw [same]) m

theorem known_congr {g g' : Graph V} (same : ∀ k, (g'.node k).outcome? = (g.node k).outcome?)
    (t : Trace V) : t.known g' = t.known g := by
  funext k
  simp only [Trace.known, outcome?_eq, same]

theorem parked_congr {g g' : Graph V} {k : Key} (others : ∀ l, l ≠ k → g'.node l = g.node l)
    (m : Node V) (awaits : List Key) : g'.parked k m awaits = g.parked k m awaits := by
  have updated : Function.update g'.node k m = Function.update g.node k m := by
    funext l
    by_cases same : l = k
    · subst same
      simp
    · simp [same, others l same]
  funext l
  simp only [parked, updated]

theorem parked_countDown {g : Graph V} {k : Key} {n : Node V} {f : Flight V} {awaits : List Key}
    (unfinished : n.isFinished = false) (flight : n.flight = some f) :
    Function.update (g.parked k n awaits) k (g.parked k n awaits k).countDown.2 =
      g.parked k { n with flight := some f.signalled } awaits := by
  funext l
  by_cases same : l = k
  · subst same
    rw [Function.update_self]
    unfold parked
    rw [Function.update_self, Function.update_self, Node.countDown_eq]
    split
    · have still : ({ n with flight := some f.signalled } : Node V).isFinished = false := unfinished
      rw [Node.register_of_unfinished unfinished, Node.register_of_unfinished still]
      by_cases known : l ∈ f.waiters <;> simp [flight, Node.waiters, Flight.signalled, known]
    · simp [flight]
  · rw [Function.update_of_ne same]
    simp [parked, same]

end Graph

theorem Attempt.congr {p : Pass S V} {good : S → Prop} {g g' : Graph V}
    (same : ∀ k, (g'.node k).outcome? = (g.node k).outcome?) {k : Key} {memo : Memo V}
    {result : Except Panic (Except Fault V)} {t : Trace V}
    (attempt : Attempt p good g' k memo result t) : Attempt p good g k memo result t := by
  have known := Graph.known_congr same ({ memo } : Trace V)
  constructor
  case plays => exact known ▸ attempt.plays
  case remembers => exact attempt.remembers
  case recalls => exact known ▸ attempt.recalls
  case asked => exact known ▸ attempt.asked

theorem Step.of_sameState [BEq V] {p : Pass S V} {good : S → Prop} {roots : List Key}
    {s₀ s s' : Progress S V}
    (same : s₀.SameState s) (step : Step p good roots s s') : Step p good roots s₀ s' := by
  obtain ⟨nodes, control₀⟩ := same
  have enqueued : s.enqueued = s₀.enqueued := congrArg Control.enqueued control₀
  have interrupted : s.world.interrupted = s₀.world.interrupted :=
    congrArg Control.interrupted control₀
  have counted : s.world.counted = s₀.world.counted := congrArg Control.told control₀
  have attempted {k : Key} {memo : Memo V} {result : Except Panic (Except Fault V)} {t : Trace V}
      (attempt : Attempt p good s.graph k memo result t) :
      Attempt p good s₀.graph k memo result t :=
    attempt.congr fun l => by rw [nodes]
  cases step with
  | enqueue k wanted unfinished idle node control =>
    rw [nodes] at unfinished idle node
    rw [control₀, enqueued] at control
    exact .enqueue k wanted unfinished idle node control
  | claim k f flight queued node control =>
    rw [nodes] at flight node
    exact .claim k f flight queued node (control.trans control₀)
  | check k f group flight claimed verifying recorded checked node control =>
    rw [nodes] at flight verifying recorded node
    rw [Graph.checked_of_node nodes, nodes] at checked
    exact .check k f group flight claimed verifying recorded checked node (control.trans control₀)
  | confirm k f flight claimed cause node control =>
    rw [Graph.settled_of_node nodes, nodes] at node
    rw [Graph.Confirmable, Graph.checked_of_node nodes, nodes] at cause
    rw [nodes] at flight
    rw [control₀, counted] at control
    exact .confirm k f flight claimed cause node control
  | postpone k f group flight claimed verifying recorded some node control =>
    rw [Graph.parked_of_node nodes, Graph.missing_of_node nodes, nodes] at node
    rw [Graph.missing_of_node nodes] at some
    rw [Graph.missing_of_node nodes, Graph.idleOf_of_node nodes, control₀, enqueued] at control
    rw [nodes] at flight verifying recorded
    exact .postpone k f group flight claimed verifying recorded some node control
  | lose k f flight claimed startable node stopped control =>
    rw [nodes] at flight node
    rw [Graph.startable_of_node nodes] at startable
    have halted : s.halted = s₀.halted := congrArg Control.halted control₀
    have abort : s.abort = s₀.abort := congrArg Control.abort control₀
    rw [interrupted, control₀, halted, abort, counted, nodes] at control
    exact .lose k f flight claimed startable node stopped control
  | restart k f result t flight claimed startable attempt some node control =>
    rw [Graph.parked_of_node nodes, nodes] at node
    rw [interrupted, control₀, enqueued, Graph.idleOf_of_node nodes, counted, nodes] at control
    rw [nodes] at flight
    rw [Graph.startable_of_node nodes] at startable
    exact .restart k f result t flight claimed startable (attempted attempt) some node control
  | conclude k f o deps flight claimed startable cause node control =>
    rw [Graph.settled_of_node nodes, nodes] at node
    rw [interrupted, control₀, counted, nodes] at control
    rw [nodes] at flight
    rw [Graph.startable_of_node nodes] at startable
    refine .conclude k f o deps flight claimed startable ?_ node control
    refine cause.imp_right ?_
    rintro ⟨result, t, attempt, rest⟩
    exact ⟨result, t, attempted attempt, rest⟩

namespace Pass

variable {p : Pass S V}

theorem run_report (p : Pass S V) (e : Event) (s : Progress S V) :
    (p.report e).run.run s = (if p.listener (e :: s.world.history) then none else some (),
      { s with world := s.world.record e }) := by
  change (if p.listener (e :: s.world.history) then .lost else pure () : Work S V Unit).run.run _ = _
  split <;> rfl

theorem yields_report (steady : p.listener.Steady) (e : Event) (s : Progress S V) :
    Yields (p.report e) s () { s with world := s.world.record e } := by
  simp [Yields, run_report, steady _]

theorem yields_announce (steady : p.listener.Steady) (k : Key) (s : Progress S V) :
    Yields (p.announce k) s ()
      { s with enqueued := s.enqueued ++ [k], world := s.world.record (.enqueued k) } :=
  yields_bind (yields_modify _ s) (yields_report steady _ _)

theorem awaitOne_yields (steady : p.listener.Steady) (k dep : Key) (s : Progress S V)
    (unfinished : (s.graph.node dep).isFinished = false) :
    ∃ s', Yields (p.awaitOne k dep) s (s.graph.idleOf [dep]) s' ∧
      s'.graph.node = Function.update s.graph.node dep ((s.graph.node dep).register k).2 ∧
      s'.control = { s.control with enqueued := s.enqueued ++ s.graph.idleOf [dep] } := by
  have registered := Node.register_of_unfinished unfinished k
  have first := yields_onNode dep (fun n => n.register k) s
  have node := s.graph.put_node dep ((s.graph.node dep).register k).2
  cases flying : (s.graph.node dep).isInFlight with
  | false =>
    have idle : s.graph.idleOf [dep] = [dep] := by simp [Graph.idleOf, flying]
    have answer : ((s.graph.node dep).register k).1 = .waiting true := by simp [registered, flying]
    rw [answer] at first
    have second := yields_announce steady dep
      (s.withGraph (s.graph.put dep ((s.graph.node dep).register k).2))
    rw [idle]
    exact ⟨_, yields_bind first (yields_bind second (yields_pure [dep] _)), node, rfl⟩
  | true =>
    have idle : s.graph.idleOf [dep] = [] := by simp [Graph.idleOf, flying]
    have answer : ((s.graph.node dep).register k).1 = .waiting false := by simp [registered, flying]
    rw [answer] at first
    rw [idle, List.append_nil]
    exact ⟨_, yields_bind first (yields_pure [] _), node, rfl⟩

theorem awaitAll_yields (steady : p.listener.Steady) (k : Key) {awaits : List Key}
    (once : awaits.Nodup) (s : Progress S V)
    (unfinished : ∀ d ∈ awaits, (s.graph.node d).isFinished = false) :
    ∃ s', Yields (p.awaitAll k awaits) s (s.graph.idleOf awaits) s' ∧
      (∀ l, s'.graph.node l =
        if l ∈ awaits then ((s.graph.node l).register k).2 else s.graph.node l) ∧
      s'.control = { s.control with enqueued := s.enqueued ++ s.graph.idleOf awaits } := by
  induction awaits generalizing s with
  | nil => exact ⟨s, yields_pure [] s, by simp, by simp [Graph.idleOf]; rfl⟩
  | cons dep rest ih =>
    obtain ⟨out, once⟩ := List.nodup_cons.mp once
    obtain ⟨s₁, first, node₁, control₁⟩ :=
      awaitOne_yields steady k dep s (unfinished dep List.mem_cons_self)
    have others {d : Key} (inside : d ∈ rest) : s₁.graph.node d = s.graph.node d := by
      have ne : d ≠ dep := fun same => out (same ▸ inside)
      rw [node₁, Function.update_of_ne ne]
    obtain ⟨s₂, second, node₂, control₂⟩ := ih once s₁ fun d inside => by
      rw [others inside]
      exact unfinished d (List.mem_cons_of_mem _ inside)
    have idle : s₁.graph.idleOf rest = s.graph.idleOf rest :=
      List.filter_congr fun d inside => by rw [others inside]
    have split : s.graph.idleOf (dep :: rest) = s.graph.idleOf [dep] ++ s.graph.idleOf rest := by
      simp only [Graph.idleOf, List.filter_cons, List.filter_nil]
      split <;> rfl
    rw [idle] at second
    rw [split]
    refine ⟨s₂, yields_bind first (yields_bind second (yields_pure _ _)), ?_, ?_⟩
    · intro l
      rw [node₂, node₁]
      by_cases same : l = dep
      · subst same
        simp [out]
      · simp [same]
    · have enqueued : s₁.enqueued = s.enqueued ++ s.graph.idleOf [dep] :=
        congrArg Control.enqueued control₁
      rw [control₂, enqueued, idle, control₁, List.append_assoc]

theorem yields_park {k : Key} {f : Flight V} (awaits : List Key) (memo : Memo V)
    (s : Progress S V) (flight : (s.graph.node k).flight = some f) :
    Yields (onNode k fun n => ((), n.park awaits memo)) s () (s.withGraph (s.graph.put k
      { s.graph.node k with
        flight := some { f with stage := .parked (awaits.length + 1), awaits, memo } })) := by
  have parked := yields_onNode k (fun n => ((), n.park awaits memo)) s
  simp only [Node.park, flight, Option.map_some] at parked
  exact parked

theorem yields_countDown {g : Graph V} {k : Key} {f : Flight V} {awaits : List Key} {memo : Memo V}
    {s : Progress S V} (open' : (g.node k).isFinished = false) (some : awaits ≠ [])
    (unfinished : ∀ d ∈ awaits, (g.node d).isFinished = false)
    (node : s.graph.node = g.parked k { g.node k with
      flight := Option.some { f with stage := .parked (awaits.length + 1), awaits, memo } } awaits) :
    Yields (onNode k Node.countDown) s false
        (s.withGraph (s.graph.put k (s.graph.node k).countDown.2)) ∧
      (s.graph.put k (s.graph.node k).countDown.2).node =
        g.parked k { g.node k with flight := Option.some (f.parkedOn awaits memo) } awaits := by
  obtain ⟨pending, positive⟩ : ∃ m, awaits.length = m + 1 :=
    Nat.exists_eq_succ_of_ne_zero (by simpa using some)
  have counted := yields_onNode k Node.countDown s
  have missing := Graph.unfinished_update (.flight (g.node k)
    (Option.some { f with stage := .parked (awaits.length + 1), awaits, memo })) unfinished
  obtain ⟨-, f', found, stage, -⟩ := Graph.parked_self missing rfl
  have answer : (s.graph.node k).countDown.1 = false := by
    rw [node, Node.countDown, found]
    simp [stage, positive]
  have last : ({ f with stage := .parked (awaits.length + 1), awaits, memo } : Flight V).signalled =
      f.parkedOn awaits memo := by
    simp [Flight.signalled, Flight.parkedOn, positive]
  rw [answer] at counted
  refine ⟨counted, ?_⟩
  rw [s.graph.put_node, node, Graph.parked_countDown (by exact open') rfl, last]

theorem park_yields (steady : p.listener.Steady) {k : Key} {f : Flight V} {awaits : List Key}
    (memo : Memo V) (s : Progress S V) (flight : (s.graph.node k).flight = some f)
    (open' : (s.graph.node k).isFinished = false) (some : awaits ≠ []) (once : awaits.Nodup)
    (unfinished : ∀ d ∈ awaits, (s.graph.node d).isFinished = false) :
    ∃ s', Yields (p.park k awaits memo) s (s.graph.idleOf awaits) s' ∧
      s'.graph.node = s.graph.parked k
        { s.graph.node k with flight := Option.some (f.parkedOn awaits memo) } awaits ∧
      s'.control = { s.control with enqueued := s.enqueued ++ s.graph.idleOf awaits } := by
  have first := yields_park awaits memo s flight
  have put := s.graph.put_node k { s.graph.node k with
    flight := Option.some { f with stage := .parked (awaits.length + 1), awaits, memo } }
  generalize parked : s.graph.put k { s.graph.node k with
    flight := Option.some { f with stage := .parked (awaits.length + 1), awaits, memo } } = g
      at first put
  have idle : g.idleOf awaits = s.graph.idleOf awaits := by
    refine List.filter_congr fun d _ => ?_
    rw [put, Graph.update_congr Node.isInFlight (by simp [Node.isInFlight, flight])]
  have version : g.version = s.graph.version := parked ▸ s.graph.version_put k _
  obtain ⟨s₂, second, node₂, control₂⟩ :=
    awaitAll_yields steady k once (s.withGraph g) fun d inside => by
      change (g.node d).isFinished = false
      rw [put]
      exact Graph.unfinished_update (.flight _ _) unfinished d inside
  obtain ⟨third, node₃⟩ := yields_countDown (s := s₂) open' some unfinished <| funext fun l => by
    rw [node₂, Graph.parked, ← put]
    rfl
  change Yields _ _ (g.idleOf awaits) s₂ at second
  change s₂.control = { (s.withGraph g).control with
    enqueued := s.enqueued ++ g.idleOf awaits } at control₂
  rw [idle] at second control₂
  refine ⟨_, yields_bind first (yields_bind second (yields_bind third (yields_pure _ _))), node₃, ?_⟩
  rw [← control_withGraph s version]
  exact control₂

theorem yields_rewire (k : Key) (old new : List Group) (s : Progress S V) :
    Yields (rewire k old new) s () (s.withGraph (s.graph.relink k old new)) := by
  have unlinks (deps : List Key) (s : Progress S V) :
      Yields (deps.forM fun dep => onGraph fun g => ((), g.modify dep (·.removeDependent k))) s ()
        (s.withGraph (s.graph.unlink k deps)) := by
    induction deps generalizing s with
    | nil => exact yields_pure () s
    | cons dep rest ih => exact yields_bind (yields_onGraph _ s) (ih _)
  have links (deps : List Key) (s : Progress S V) :
      Yields (deps.forM fun dep => onNode dep fun n => ((), n.addDependent k)) s ()
        (s.withGraph (s.graph.link k deps)) := by
    induction deps generalizing s with
    | nil => exact yields_pure () s
    | cons dep rest ih => exact yields_bind (yields_onNode dep _ s) (ih _)
  exact yields_bind (unlinks _ s) (links _ _)

theorem yields_signal (waiters : List Key) (s : Progress S V) :
    Yields (signal waiters) s (s.graph.wake waiters).1 (s.withGraph (s.graph.wake waiters).2) := by
  induction waiters generalizing s with
  | nil => exact yields_pure [] s
  | cons waiter rest ih =>
    exact yields_bind (yields_onGraph (·.transition? waiter Node.countDown) s)
      (yields_bind (ih _) (yields_pure _ _))

theorem yields_publish {g : Graph V} {k : Key} {receipt : Receipt} (m : Node V)
    (s : Progress S V) (graph : s.graph = g.put k m) (waiters : receipt.waiters = (g.node k).waiters)
    (formerDeps : receipt.formerDeps = (g.node k).deps) :
    Yields (publish k receipt m.deps) s (g.roused k m) (s.withGraph (g.settled k m)) := by
  have published : Yields (publish k receipt m.deps) s
      ((s.graph.relink k receipt.formerDeps m.deps).wake receipt.waiters).1
      (s.withGraph ((s.graph.relink k receipt.formerDeps m.deps).wake receipt.waiters).2) :=
    yields_bind (yields_rewire k receipt.formerDeps m.deps s) (yields_signal receipt.waiters _)
  rw [graph, waiters, formerDeps] at published
  exact published

theorem succeed_yields [BEq V] (steady : p.listener.Steady) (k : Key) (v : V) (deps : List Group)
    (s : Progress S V) : ∃ s', Yields (p.succeed k v deps) s
        (s.graph.roused k ((s.graph.node k).succeed v deps p.version).2) s' ∧
      s'.graph = s.graph.settled k ((s.graph.node k).succeed v deps p.version).2 ∧
      s'.control = { s.control with
        told := .evaluated k (.built ((s.graph.node k).succeed v deps p.version).1.changed) ::
          s.world.counted } := by
  have first := yields_onNode k (·.succeed v deps p.version) s
  have second := yields_count (fun stats =>
    { stats with
      built := stats.built + 1
      unchanged := if ((s.graph.node k).succeed v deps p.version).1.changed then stats.unchanged
        else stats.unchanged + 1 })
    (s.withGraph (s.graph.put k ((s.graph.node k).succeed v deps p.version).2))
  refine ⟨_, yields_bind first (yields_bind second
    (yields_bind (yields_report steady _ _)
      (yields_publish ((s.graph.node k).succeed v deps p.version).2 _ rfl rfl rfl))), rfl, ?_⟩
  exact control_withGraph _ ((Graph.version_wake _ _).trans (Graph.version_relink _ _ _ _))

theorem yields_halt (k : Key) {w : Work S V α} (s : Progress S V) {a : α} {s' : Progress S V}
    (yields : Yields w
      (if p.keepGoing then s else { s with halted := true, culprit := s.culprit <|> some k }) a s') :
    Yields (if !p.keepGoing then (do haltAt k; w) else w) s a s' := by
  cases keep : p.keepGoing with
  | true =>
    rw [keep] at yields
    exact yields
  | false =>
    rw [keep] at yields
    exact yields_bind (yields_modify _ s) yields

theorem fail_yields (steady : p.listener.Steady) (k : Key) (f : Failure) (deps : List Group)
    (s : Progress S V) : ∃ s', Yields (p.fail k f deps) s
        (s.graph.roused k ((s.graph.node k).fail f deps p.version).2) s' ∧
      s'.graph = s.graph.settled k ((s.graph.node k).fail f deps p.version).2 ∧
      s'.control =
        { s.control with told := .evaluated k (.failed f.kind) :: s.world.counted }.committed
          p.keepGoing k (.error f : Outcome V) := by
  have first := yields_onNode k (·.fail f deps p.version) s
  have second := yields_count (fun stats => { stats with errors := stats.errors + 1 })
    (s.withGraph (s.graph.put k ((s.graph.node k).fail f deps p.version).2))
  have third := yields_report steady (.evaluated k (.failed f.kind))
    { s.withGraph (s.graph.put k ((s.graph.node k).fail f deps p.version).2) with
      stats := { s.stats with errors := s.stats.errors + 1 } }
  refine ⟨_, yields_bind first (yields_bind second (yields_bind third
    (yields_halt _ _
      (yields_publish ((s.graph.node k).fail f deps p.version).2 _ ?_ rfl rfl)))), rfl, ?_⟩
  · cases p.keepGoing <;> rfl
  · have version : (s.graph.settled k ((s.graph.node k).fail f deps p.version).2).version =
        s.graph.version := (Graph.version_wake _ _).trans (Graph.version_relink _ _ _ _)
    unfold Control.committed
    cases p.keepGoing <;> exact control_withGraph _ version

theorem commit_yields [BEq V] (steady : p.listener.Steady) (k : Key) (o : Outcome V)
    (deps : List Group) (s : Progress S V) :
    ∃ s', Yields (match o with
        | .ok v => p.succeed k v deps
        | .error f => p.fail k f deps) s
        (s.graph.roused k ((s.graph.node k).commit o deps p.version).2) s' ∧
      s'.graph = s.graph.settled k ((s.graph.node k).commit o deps p.version).2 ∧
      s'.control =
        { s.control with
          told := .evaluated k (.of o ((s.graph.node k).commit o deps p.version).1.changed) ::
            s.world.counted }.committed p.keepGoing k o := by
  cases o with
  | ok v => exact succeed_yields steady k v deps s
  | error f => exact fail_yields steady k f deps s

theorem confirm_yields [BEq V] (steady : p.listener.Steady) (k : Key) (s : Progress S V) :
    ∃ s', Yields (p.confirm k) s (s.graph.roused k ((s.graph.node k).confirm p.version).2) s' ∧
      s'.graph.node = (s.graph.settled k ((s.graph.node k).confirm p.version).2).node ∧
      s'.control = { s.control with told := .evaluated k .verified :: s.world.counted } := by
  have first := yields_onNode k (·.confirm p.version) s
  have second := yields_count (fun stats => { stats with verified := stats.verified + 1 })
    (s.withGraph (s.graph.put k ((s.graph.node k).confirm p.version).2))
  have deps : ((s.graph.node k).confirm p.version).2.deps = (s.graph.node k).deps := by
    rfl
  rw [s.graph.roused_of_deps k _ deps]
  refine ⟨_, yields_bind first (yields_bind second
    (yields_bind (yields_report steady _ _) (yields_signal _ _))), ?_, ?_⟩
  · exact (s.graph.settled_of_deps deps).symm
  · exact control_withGraph _ (Graph.version_wake _ _)

theorem yields_ask (tolerant : Bool) (keys : List Key) {r : Trace.Request V} {s : Progress S V}
    (graph : r.graph = s.graph) :
    Yields (ask tolerant keys r) s (keys.foldl (Trace.Request.ask tolerant) r)
      (s.withGraph (keys.foldl (Trace.Request.ask tolerant) r).graph) := by
  induction keys generalizing r s with
  | nil =>
    rw [List.foldl_nil, graph]
    exact yields_pure r s
  | cons k rest ih =>
    have first := yields_onGraph (fun graph =>
      (Trace.Request.ask tolerant { r with graph } k,
        (Trace.Request.ask tolerant { r with graph } k).graph)) s
    rw [← graph] at first
    exact yields_bind first (ih rfl)

theorem yields_request (tolerant : Bool) (keys : List Key) (t : Trace V) (s : Progress S V) :
    Yields (request tolerant keys t) s
      ((t.request tolerant keys s.graph).1, (t.request tolerant keys s.graph).2.1)
      (s.withGraph (t.request tolerant keys s.graph).2.2) :=
  yields_bind (yields_get s) (yields_bind (yields_ask tolerant keys rfl) (yields_pure _ _))

theorem yields_carryOut [BEq V] (scope : Scope) (c : Computation S V α) (t : Trace V)
    (s : Progress S V) :
    Yields (carryOut scope c t) s ((c.run scope t s.world).1, (c.run scope t s.world).2.1)
      { s with world := (c.run scope t s.world).2.2 } := by
  induction c generalizing t s with
  | done x => exact yields_pure _ s
  | panic p => exact yields_pure _ s
  | values keys next ih => exact yields_bind (yields_request false keys t s) (ih _ _ _)
  | outcomes keys next ih => exact yields_bind (yields_request true keys t s) (ih _ _ _)
  | blocked next ih => exact ih _ t s
  | version next ih => exact ih _ t s
  | interrupted next ih => exact yields_bind (yields_get s) (ih _ t s)
  | outside next ih => exact yields_bind (yields_get s) (ih _ t s)
  | setOutside outside next ih => exact yields_bind (yields_modify _ s) (ih t _)
  | note text next ih => exact yields_bind (yields_modify _ s) (ih t _)
  | interrupt h next ih => exact yields_bind (yields_modify _ s) (ih t _)
  | inject key v next ih =>
    exact yields_bind (yields_onGraph (fun g => ((), (g.inject [(key, v)]).2.2)) s) (ih t _)
  | invalidate key next ih =>
    exact yields_bind (yields_onGraph (fun g => ((), (g.invalidate [key]).2.2)) s) (ih t _)

theorem yields_run [BEq V] (p : Pass S V) (k : Key) (rule : Rule S V) (memo : Memo V)
    (s : Progress S V) :
    Yields (p.run k rule memo) s
      (((rule k).run ⟨k, p.version, p.handle⟩ { memo } s.world).1,
        ((rule k).run ⟨k, p.version, p.handle⟩ { memo } s.world).2.1)
      { s with world := ((rule k).run ⟨k, p.version, p.handle⟩ { memo } s.world).2.2 } :=
  yields_carryOut _ _ _ s

end Pass

end Recompute
