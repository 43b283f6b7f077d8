import Recompute.Evaluation
import Recompute.Proofs.After

set_option autoImplicit false

namespace Recompute

variable {S V : Type}

open Progress

structure Node.Carried (n m : Node V) : Prop where
  result : SameResult n m
  dependents : m.dependents = n.dependents
  starts : n.starts ≤ m.starts

theorem Node.Carried.refl (n : Node V) : Carried n n := ⟨.refl n, rfl, Nat.le_refl _⟩

theorem Node.Carried.trans {n m l : Node V} (first : Carried n m) (second : Carried m l) :
    Carried n l :=
  ⟨first.result.trans second.result, second.dependents.trans first.dependents,
    Nat.le_trans first.starts second.starts⟩

theorem Node.Carried.flight (n : Node V) (f : Option (Flight V)) :
    Carried n { n with flight := f } := ⟨.flight n f, rfl, Nat.le_refl _⟩

theorem Node.Carried.unfinished {n m : Node V} (carried : Carried n m)
    (unfinished : n.isFinished = false) : m.isFinished = false :=
  carried.result.finished.trans unfinished

theorem Node.Carried.renewed [BEq V] {n m l : Node V} {version : Nat} (carried : Carried n m)
    (renewed : Renewed version m l) : Renewed version n l where
  finished := renewed.finished
  idle := renewed.idle
  verifiedAt := renewed.verifiedAt
  dependents := renewed.dependents.trans carried.dependents
  changed := by
    rw [← carried.result.version, ← carried.result.cached]
    exact renewed.changed

theorem Node.isInFlight_register {n : Node V} (unfinished : n.isFinished = false) (k : Key) :
    (n.register k).2.isInFlight = true := by
  rw [register_of_unfinished unfinished]
  rfl

theorem Node.register_twice {n : Node V} (unfinished : n.isFinished = false) (k : Key) :
    ((n.register k).2.register k).2 = (n.register k).2 := by
  have still : (n.register k).2.isFinished = false :=
    (SameResult.register n k).finished.trans unfinished
  rw [register_of_unfinished still, register_of_unfinished unfinished]
  by_cases known : k ∈ (n.flight.map Flight.waiters).getD [] <;> simp [waiters, known]

-- What becomes of the work on `k`, whatever the listener does: the result is published, or the
-- listener gives up on it after the commit; the node is parked, where the listener may give up
-- before all of `awaits` are `reached`; or it stays claimed. The indices are the keys that `k`
-- brings into the pass, the milestones, and whether a commit was lost.
inductive Graph.WorkEffect [BEq V] (version : Nat) (k : Key) (g g' : Graph V) :
    List Key → List Event → Bool → Prop
  | publish (m : Node V) (ending : Ending) (unfinished : (g.node k).isFinished = false)
      (shape : m.WellFormed) (renewed : Node.Renewed version (g.node k) m)
      (starts : (g.node k).starts ≤ m.starts) (node : g'.node = (g.settled k m).node) :
      WorkEffect version k g g' [] [.evaluated k ending] false
  | drop (m : Node V) (ending : Ending) (unfinished : (g.node k).isFinished = false)
      (shape : m.WellFormed) (renewed : Node.Renewed version (g.node k) m)
      (starts : (g.node k).starts ≤ m.starts) (node : g'.node = Function.update g.node k m) :
      WorkEffect version k g g' [] [.evaluated k ending] true
  | park (f f' : Flight V) (n : Node V) (awaits reached entered : List Key) (pending : Nat)
      (log : List Event) (flight : (g.node k).flight = some f) (queued : f.stage = .queued)
      (carried : Node.Carried (g.node k) n) (shape : n.WellFormed) (flight' : n.flight = some f')
      (stage : f'.stage = .parked pending) (enough : awaits.length ≤ pending)
      (awaits' : f'.awaits = awaits) (waiters : f'.waiters = f.waiters) (some : awaits ≠ [])
      (missing : ∀ d ∈ awaits, (g.node d).isFinished = false) (within : reached ⊆ awaits)
      (source : log = [] ∧ awaits ⊆ (g.node k).deps.flatten ∨ log = [.restarted k awaits])
      (entered' : ∀ d, d ∈ entered ↔ d ∈ reached ∧ (g.node d).isInFlight = false)
      (node : g'.node = g.parked k n reached) :
      WorkEffect version k g g' entered log false
  | hang (f f' : Flight V) (n : Node V) (log : List Event)
      (flight : (g.node k).flight = some f) (queued : f.stage = .queued)
      (carried : Node.Carried (g.node k) n) (shape : n.WellFormed) (flight' : n.flight = some f')
      (stage : f'.stage = .claimed) (awaits' : f'.awaits = f.awaits)
      (waiters : f'.waiters = f.waiters)
      (source : log = [] ∨ ∃ absent, log = [.restarted k absent] ∧ absent ≠ [] ∧
        ∀ d ∈ absent, (g.node d).isFinished = false)
      (node : g'.node = Function.update g.node k n) :
      WorkEffect version k g g' [] log false

namespace Pass

def Misses (p : Pass S V) (k : Key) (absent : List Key) : Prop :=
  ∃ rule look result t, p.rules.get? k.tag = some rule ∧
    (rule k).Plays look (fun _ => True) {} result t ∧ t.absent = absent

inductive WorkStep [BEq V] (p : Pass S V) (k : Key) (s s' : Progress S V) : Prop
  | intro {entered : List Key} {log : List Event} {lost : Bool}
      (effect : s.graph.WorkEffect p.version k s'.graph entered log lost)
      (stamp : s'.graph.version = s.graph.version) (enqueued : s'.enqueued = s.enqueued ++ entered)
      (logs : s.world.Logs s'.world log)
      (heard : ∀ ending, log = [.evaluated k ending] → ∃ h, s.world.history <:+ h ∧
        s'.world.history = .evaluated k ending :: h ∧ p.listener s'.world.history = lost)
      (missed : ∀ absent, log = [.restarted k absent] → p.Misses k absent)

-- What a pass that was `asked` for some keys does between two looks at it.
inductive PassStep [BEq V] (p : Pass S V) (asked : Key → Prop) (s s' : Progress S V) : Prop
  | rest (node : s'.graph.node = s.graph.node) (stamp : s'.graph.version = s.graph.version)
      (enqueued : s'.enqueued = s.enqueued) (logs : s.world.Logs s'.world [])
  | enter (k : Key) (wanted : asked k) (unfinished : (s.graph.node k).isFinished = false)
      (idle : (s.graph.node k).flight = none)
      (node : s'.graph.node =
        Function.update s.graph.node k { s.graph.node k with flight := some {} })
      (stamp : s'.graph.version = s.graph.version) (enqueued : s'.enqueued = s.enqueued ++ [k])
      (logs : s.world.Logs s'.world [])
  | worked (k : Key) (worked : p.WorkStep k s s')

abbrev PassSteps [BEq V] (p : Pass S V) (asked : Key → Prop) : Progress S V → Progress S V → Prop :=
  Relation.ReflTransGen (p.PassStep asked)

variable {p : Pass S V}

theorem after_announce (k : Key) (s : Progress S V) {done : Unit → Progress S V → Prop}
    {lost : Progress S V → Prop}
    (heard : ∀ s' : Progress S V, s'.graph = s.graph → s'.enqueued = s.enqueued ++ [k] →
      s.world.Logs s'.world [] → done () s' ∧ lost s') :
    After (p.announce k) s done lost := by
  have logs : s.world.Logs (s.world.record (.enqueued k)) [] := .record s.world (.enqueued k)
  have announced := heard
    { s with enqueued := s.enqueued ++ [k], world := s.world.record (.enqueued k) } rfl rfl logs
  refine (yields_modify _ s).bind_after (after_report (.enqueued k) (fun _ => ?_) fun _ => ?_)
  · exact announced.1
  · exact announced.2

theorem enqueue_after [BEq V] {asked : Key → Prop} {k : Key} (wanted : asked k) (s : Progress S V) :
    After (p.enqueue k) s (fun _ => p.PassStep asked s) (p.PassStep asked s) := by
  have first := yields_onNode k Node.enqueue s
  have put := s.graph.put_node k (s.graph.node k).enqueue.2
  rcases (s.graph.node k).enqueue_cases with ⟨still, -⟩ | ⟨queued, unfinished, idle⟩
  · rw [still] at first put
    refine first.bind_after ((yields_pure false _).after ?_)
    exact .rest (put.trans (Function.update_eq_self k _)) rfl rfl
      ((World.Logs.refl _).of_history rfl)
  · rw [queued] at first put
    refine first.bind_after (.bind (after_announce k _ fun s' graph enqueued logs => ?_))
    have act : p.PassStep asked s s' := by
      refine .enter k wanted unfinished idle ?_ ?_ enqueued (logs.of_history rfl)
      · rw [graph]
        exact put
      · rw [graph]
        rfl
    exact ⟨(yields_pure true s').after act, act⟩

theorem enqueueAll_passSteps [BEq V] {asked : Key → Prop} {keys : List Key}
    (wanted : ∀ k ∈ keys, asked k)
    (s : Progress S V) : p.PassSteps asked s (p.enqueueAll keys s).2 := by
  induction keys generalizing s with
  | nil => exact .refl
  | cons k rest ih =>
    have first : p.PassStep asked s (settle (p.enqueue k) false s).2 :=
      (enqueue_after (wanted k List.mem_cons_self) s).settle false
    exact .head first (ih (fun l inside => wanted l (List.mem_cons_of_mem k inside)) _)

structure Registers (k : Key) (reached : List Key) (s s' : Progress S V) : Prop where
  node : ∀ l, s'.graph.node l =
    if l ∈ reached then ((s.graph.node l).register k).2 else s.graph.node l
  stamp : s'.graph.version = s.graph.version
  enqueued : ∃ entered, s'.enqueued = s.enqueued ++ entered ∧
    ∀ d, d ∈ entered ↔ d ∈ reached ∧ (s.graph.node d).isInFlight = false
  logs : s.world.Logs s'.world []

theorem registers_nil (k : Key) (s : Progress S V) : Registers k [] s s :=
  ⟨by simp, rfl, ⟨[], by simp⟩, .refl _⟩

theorem Registers.one {k dep : Key} {s s' : Progress S V} {entered : List Key}
    (node : s'.graph.node = Function.update s.graph.node dep ((s.graph.node dep).register k).2)
    (stamp : s'.graph.version = s.graph.version) (enqueued : s'.enqueued = s.enqueued ++ entered)
    (idle : ∀ d, d ∈ entered ↔ d = dep ∧ (s.graph.node dep).isInFlight = false)
    (logs : s.world.Logs s'.world []) : Registers k [dep] s s' where
  node l := by
    by_cases same : l = dep
    · subst same
      simp [node]
    · simp [node, same]
  stamp := stamp
  enqueued := by
    refine ⟨entered, enqueued, fun d => (idle d).trans ?_⟩
    rw [List.mem_singleton]
    exact and_congr_right fun same => by rw [same]
  logs := logs

theorem Registers.trans {k : Key} {reached reached' : List Key} {s s' s'' : Progress S V}
    (unfinished : ∀ d ∈ reached, (s.graph.node d).isFinished = false)
    (first : Registers k reached s s') (second : Registers k reached' s' s'') :
    Registers k (reached ++ reached') s s'' where
  node l := by
    rw [second.node, first.node]
    by_cases here : l ∈ reached <;> by_cases there : l ∈ reached' <;> simp [here, there]
    exact Node.register_twice (unfinished l here) k
  stamp := second.stamp.trans first.stamp
  enqueued := by
    obtain ⟨entered, enqueued, idle⟩ := first.enqueued
    obtain ⟨entered', enqueued', idle'⟩ := second.enqueued
    refine ⟨entered ++ entered', ?_, fun d => ?_⟩
    · rw [enqueued', enqueued, List.append_assoc]
    · rw [List.mem_append, List.mem_append, idle, idle', first.node]
      by_cases here : d ∈ reached
      · simp [here, Node.isInFlight_register (unfinished d here)]
      · simp [here]
  logs := first.logs.trans second.logs

theorem Registers.parked {k : Key} {n : Node V} {reached : List Key} {s s' : Progress S V}
    (registers : Registers k reached (s.withGraph (s.graph.put k n)) s')
    (busy : n.isInFlight = (s.graph.node k).isInFlight) :
    s'.graph.node = s.graph.parked k n reached ∧ s'.graph.version = s.graph.version ∧
      (∃ entered, s'.enqueued = s.enqueued ++ entered ∧
        ∀ d, d ∈ entered ↔ d ∈ reached ∧ (s.graph.node d).isInFlight = false) ∧
      s.world.Logs s'.world [] := by
  have put : (s.withGraph (s.graph.put k n)).graph.node = Function.update s.graph.node k n :=
    s.graph.put_node k n
  obtain ⟨entered, enqueued, idle⟩ := registers.enqueued
  refine ⟨funext fun l => ?_, registers.stamp, ⟨entered, enqueued, fun d => ?_⟩,
    registers.logs.of_history rfl⟩
  · rw [registers.node, put]
    rfl
  · rw [idle, put, Graph.update_congr Node.isInFlight busy]

theorem awaitOne_after (k dep : Key) (s : Progress S V)
    (unfinished : (s.graph.node dep).isFinished = false) :
    After (p.awaitOne k dep) s (fun _ => Registers k [dep] s) (Registers k [dep] s) := by
  have registered := Node.register_of_unfinished unfinished k
  have first := yields_onNode dep (fun n => n.register k) s
  have node := s.graph.put_node dep ((s.graph.node dep).register k).2
  cases flying : (s.graph.node dep).isInFlight with
  | false =>
    have answer : ((s.graph.node dep).register k).1 = .waiting true := by simp [registered, flying]
    rw [answer] at first
    refine first.bind_after (.bind (after_announce dep _ fun s' graph enqueued logs => ?_))
    have registers : Registers k [dep] s s' := by
      refine .one ?_ ?_ enqueued (by simp [flying]) (logs.of_history rfl)
      · rw [graph]
        exact node
      · rw [graph]
        rfl
    exact ⟨(yields_pure [dep] s').after registers, registers⟩
  | true =>
    have answer : ((s.graph.node dep).register k).1 = .waiting false := by simp [registered, flying]
    rw [answer] at first
    refine first.bind_after ((yields_pure [] _).after ?_)
    exact .one node rfl (List.append_nil _).symm (by simp [flying])
      ((World.Logs.refl _).of_history rfl)

theorem awaitAll_after (k : Key) (awaits : List Key) (s : Progress S V)
    (unfinished : ∀ d ∈ awaits, (s.graph.node d).isFinished = false) :
    After (p.awaitAll k awaits) s (fun _ => Registers k awaits s)
      (fun s' => ∃ reached, reached ⊆ awaits ∧ Registers k reached s s') := by
  induction awaits generalizing s with
  | nil => exact (yields_pure [] s).after (registers_nil k s)
  | cons dep rest ih =>
    have here : ∀ d ∈ [dep], (s.graph.node d).isFinished = false := by
      simpa using unfinished dep List.mem_cons_self
    refine .bind ((awaitOne_after k dep s (here dep (by simp))).mono (fun ready s₁ first => ?_) ?_)
    · have later : ∀ d ∈ rest, (s₁.graph.node d).isFinished = false := by
        intro d inside
        have before := unfinished d (List.mem_cons_of_mem _ inside)
        rw [first.node]
        split
        · exact (Node.SameResult.register _ k).finished.trans before
        · exact before
      refine .bind ((ih s₁ later).mono (fun others s₂ second => ?_) fun s₂ gone => ?_)
      · exact (yields_pure _ s₂).after (first.trans here second)
      · obtain ⟨reached, within, second⟩ := gone
        exact ⟨[dep] ++ reached, List.cons_subset_cons dep within, first.trans here second⟩
    · intro s' gone
      exact ⟨[dep], by simp, gone⟩

theorem park_after {k : Key} {f : Flight V} {awaits : List Key} (memo : Memo V) (s : Progress S V)
    (flight : (s.graph.node k).flight = some f) (some : awaits ≠ [])
    (unfinished : ∀ d ∈ awaits, (s.graph.node d).isFinished = false)
    (open' : (s.graph.node k).isFinished = false) {lost : Progress S V → Prop}
    (parks : ∀ s' reached entered pending, reached ⊆ awaits → awaits.length ≤ pending →
      (∀ d, d ∈ entered ↔ d ∈ reached ∧ (s.graph.node d).isInFlight = false) →
      s'.graph.node = s.graph.parked k
        { s.graph.node k with
          flight := Option.some { f with stage := .parked pending, awaits, memo } } reached →
      s'.graph.version = s.graph.version → s'.enqueued = s.enqueued ++ entered →
      s.world.Logs s'.world [] → lost s') :
    After (p.park k awaits memo) s (fun _ => lost) lost := by
  refine (yields_park awaits memo s flight).bind_after
    (.bind ((awaitAll_after k awaits _ fun d inside => ?_).mono ?_ ?_))
  · refine (congrArg Node.isFinished (congrFun (s.graph.put_node k _) d)).trans ?_
    exact Graph.unfinished_update (.flight _ _) unfinished d inside
  · intro ready s₂ registers
    obtain ⟨node₂, version₂, ⟨entered, enqueued₂, idle⟩, logs₂⟩ :=
      registers.parked (by simp [Node.isInFlight, flight])
    obtain ⟨third, node₃⟩ := yields_countDown (s := s₂) open' some unfinished node₂
    refine third.bind_after ((yields_pure ready _).after ?_)
    exact parks _ awaits entered awaits.length (List.Subset.refl _) (Nat.le_refl _) idle node₃
      version₂ enqueued₂ ⟨logs₂.later, logs₂.milestones⟩
  · intro s₂ gone
    obtain ⟨reached, within, registers⟩ := gone
    obtain ⟨node₂, version₂, ⟨entered, enqueued₂, idle⟩, logs₂⟩ :=
      registers.parked (by simp [Node.isInFlight, flight])
    exact parks s₂ reached entered _ within (Nat.le_succ _) idle node₂ version₂ enqueued₂ logs₂

structure Publishes (p : Pass S V) (k : Key) (m : Node V) (s s' : Progress S V) : Prop where
  stamp : s'.graph.version = s.graph.version
  enqueued : s'.enqueued = s.enqueued
  told : ∃ ending w, s.world.Logs w [] ∧ s'.world.history = .evaluated k ending :: w.history
  node : s'.graph.node = if p.listener s'.world.history = true then Function.update s.graph.node k m
    else (s.graph.settled k m).node

theorem Publishes.of_put {k : Key} {m : Node V} {s s' : Progress S V} {ending : Ending}
    (graph : s'.graph = s.graph.put k m) (enqueued : s'.enqueued = s.enqueued)
    (history : s'.world.history = .evaluated k ending :: s.world.history)
    (heard : p.listener (.evaluated k ending :: s.world.history) = true) :
    p.Publishes k m s s' where
  stamp := graph ▸ rfl
  enqueued := enqueued
  told := ⟨ending, s.world, .refl _, history⟩
  node := by
    rw [history, if_pos heard, graph]
    exact s.graph.put_node k m

theorem Publishes.of_settled {k : Key} {m : Node V} {s s' : Progress S V} {ending : Ending}
    (node : s'.graph.node = (s.graph.settled k m).node) (stamp : s'.graph.version = s.graph.version)
    (enqueued : s'.enqueued = s.enqueued)
    (history : s'.world.history = .evaluated k ending :: s.world.history)
    (heard : p.listener (.evaluated k ending :: s.world.history) = false) :
    p.Publishes k m s s' where
  stamp := stamp
  enqueued := enqueued
  told := ⟨ending, s.world, .refl _, history⟩
  node := by
    rw [history, if_neg (by simp [heard])]
    exact node

theorem Publishes.worked [BEq V] {k : Key} {m : Node V} {s s' : Progress S V}
    (publishes : p.Publishes k m s s') (unfinished : (s.graph.node k).isFinished = false)
    (shape : m.WellFormed) (renewed : Node.Renewed p.version (s.graph.node k) m)
    (starts : (s.graph.node k).starts ≤ m.starts) : p.WorkStep k s s' := by
  obtain ⟨ending, w, quiet, told⟩ := publishes.told
  have enqueued : s'.enqueued = s.enqueued ++ [] := by
    rw [publishes.enqueued, List.append_nil]
  have logs : s.world.Logs s'.world [.evaluated k ending] := by
    have last : w.Logs s'.world [.evaluated k ending] :=
      (World.Logs.record w (.evaluated k ending)).trans ((World.Logs.refl _).of_history told)
    exact quiet.trans last
  have heard : ∀ lost, p.listener s'.world.history = lost → ∀ ending',
      [Event.evaluated k ending] = [.evaluated k ending'] → ∃ h, s.world.history <:+ h ∧
        s'.world.history = .evaluated k ending' :: h ∧ p.listener s'.world.history = lost := by
    rintro lost same _ ⟨⟩
    exact ⟨w.history, quiet.later, told, same⟩
  have node := publishes.node
  cases lost : p.listener s'.world.history with
  | true =>
    rw [if_pos lost] at node
    exact .intro (.drop m ending unfinished shape renewed starts node) publishes.stamp enqueued logs
      (heard true lost) (by simp)
  | false =>
    rw [if_neg (by simp [lost])] at node
    exact .intro (.publish m ending unfinished shape renewed starts node) publishes.stamp enqueued
      logs (heard false lost) (by simp)

theorem version_settled (g : Graph V) (k : Key) (m : Node V) :
    (g.settled k m).version = g.version :=
  (Graph.version_wake _ _).trans (Graph.version_relink _ _ _ _)

theorem commit_after [BEq V] (k : Key) (o : Outcome V) (deps : List Group) (s : Progress S V) :
    After (match o with
      | .ok v => p.succeed k v deps
      | .error f => p.fail k f deps) s
      (fun _ => p.Publishes k ((s.graph.node k).commit o deps p.version).2 s)
      (p.Publishes k ((s.graph.node k).commit o deps p.version).2 s) := by
  cases o with
  | ok v =>
    refine (yields_onNode k (·.succeed v deps p.version) s).bind_after
      ((yields_count _ _).bind_after
      (.bind (after_report _ (fun heard => ?_) fun heard => ?_)))
    · exact (yields_publish ((s.graph.node k).succeed v deps p.version).2 _ rfl rfl rfl).after
        (.of_settled rfl (version_settled _ _ _) rfl rfl heard)
    · exact .of_put rfl rfl rfl heard
  | error f =>
    refine (yields_onNode k (·.fail f deps p.version) s).bind_after ((yields_count _ _).bind_after
      (.bind (after_report _ (fun heard => ?_) fun heard => ?_)))
    · refine (yields_halt k _ (yields_publish ((s.graph.node k).fail f deps p.version).2 _ ?_ rfl
        rfl)).after ?_
      · cases p.keepGoing <;> rfl
      · refine .of_settled rfl (version_settled _ _ _) ?_ ?_ heard
        · cases p.keepGoing <;> rfl
        · cases p.keepGoing <;> rfl
    · exact .of_put rfl rfl rfl heard

theorem confirm_after [BEq V] (k : Key) (s : Progress S V) :
    After (p.confirm k) s (fun _ => p.Publishes k ((s.graph.node k).confirm p.version).2 s)
      (p.Publishes k ((s.graph.node k).confirm p.version).2 s) := by
  have deps : ((s.graph.node k).confirm p.version).2.deps = (s.graph.node k).deps := rfl
  refine (yields_onNode k (·.confirm p.version) s).bind_after ((yields_count _ _).bind_after
    (.bind (after_report _ (fun heard => ?_) fun heard => ?_)))
  · refine (yields_signal _ _).after (.of_settled ?_ (Graph.version_wake _ _) rfl rfl heard)
    exact (s.graph.settled_of_deps deps).symm
  · exact .of_put rfl rfl rfl heard

end Pass

end Recompute
