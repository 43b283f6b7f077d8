import Recompute.Proofs.Staleness

set_option autoImplicit false

namespace Recompute

variable {S V : Type}

open Progress
open Relation (ReflTransGen)

namespace Node

structure SameValue (n m : Node V) : Prop where
  cached : m.cached = n.cached
  deps : m.deps = n.deps
  version : m.version = n.version
  injected : m.injected = n.injected
  starts : m.starts = n.starts

theorem SameValue.refl (n : Node V) : SameValue n n := ⟨rfl, rfl, rfl, rfl, rfl⟩

theorem SameValue.trans {n m l : Node V} (first : SameValue n m) (second : SameValue m l) :
    SameValue n l where
  cached := second.cached.trans first.cached
  deps := second.deps.trans first.deps
  version := second.version.trans first.version
  injected := second.injected.trans first.injected
  starts := second.starts.trans first.starts

theorem SameResult.value {n m : Node V} (same : SameResult n m) (starts : m.starts = n.starts) :
    SameValue n m :=
  ⟨same.cached, same.deps, same.version, same.injected, starts⟩

theorem Bystander.value {n m : Node V} (bystander : Bystander n m) : SameValue n m :=
  bystander.result.value bystander.starts

theorem SameValue.value? {n m : Node V} (same : SameValue n m) (done : n.status = .done)
    (done' : m.status = .done) : m.value? = n.value? := by
  simp [Node.value?, done, done', same.cached]

theorem WellFormed.value_confirm {n : Node V} (shape : n.WellFormed) (version : Nat)
    (status : n.status = .verifying ∨ n.status = .done) : SameValue n (n.confirm version).2 := by
  rw [shape.confirm_eq status]
  exact ⟨rfl, rfl, rfl, rfl, rfl⟩

end Node

variable [BEq V] {p : Pass S V} {k l : Key} {s s' : Progress S V} {log : List Event}

namespace Pass

structure Keeps (n₀ : Node V) (old : List Event) (k : Key) (s : Progress S V) : Prop where
  value : Node.SameValue n₀ (s.graph.node k)
  pending : (s.graph.node k).isFinished = false → Node.SameResult n₀ (s.graph.node k)
  told : ∃ new, s.world.counted = new ++ old ∧ Event.attempts new k = 0 ∧
    ∀ ending, .evaluated k ending ∈ new → ending = .verified

def Spares (n₀ : Node V) (old : List Event) (k : Key) (s : Progress S V) : Prop :=
  Keeps n₀ old k s ∨ s.graph.Stale n₀.verifiedAt n₀.deps.flatten

variable {n₀ : Node V} {old : List Event}

omit [BEq V] in
theorem Spares.of_node (spares : Spares n₀ old k s) (node : s'.graph.node = s.graph.node)
    (told : s'.world.counted = s.world.counted) : Spares n₀ old k s' := by
  rcases spares with ⟨value, pending, new⟩ | stale
  · left
    constructor <;> simpa only [node, told]
  · right
    simpa only [Graph.Stale, node] using stale

omit [BEq V] in
theorem Keeps.proceed (keeps : Keeps n₀ old k s)
    (value : Node.SameValue (s.graph.node k) (s'.graph.node k))
    (pending : (s'.graph.node k).isFinished = false →
      Node.SameResult (s.graph.node k) (s'.graph.node k))
    (told : s'.world.counted = log ++ s.world.counted) (attempts : Event.attempts log k = 0)
    (endings : ∀ ending, .evaluated k ending ∈ log → ending = .verified) : Keeps n₀ old k s' where
  value := keeps.value.trans value
  pending unfinished := by
    have result := pending unfinished
    exact (keeps.pending (result.finished ▸ unfinished)).trans result
  told := by
    obtain ⟨new, before, none, all⟩ := keeps.told
    refine ⟨log ++ new, by rw [told, before, List.append_assoc], ?_, fun ending inside => ?_⟩
    · have none' : log.countP _ = 0 := attempts
      rw [Event.attempts, List.countP_append, none']
      exact (Nat.zero_add _).trans none
    · exact (List.mem_append.mp inside).elim (endings ending) (all ending)

omit [BEq V] in
theorem Keeps.start (w : World S V) (k : Key) :
    Keeps (w.graph.node k) w.counted k { world := w } where
  value := .refl _
  pending _ := .refl _
  told := ⟨[], rfl, rfl, by simp⟩

theorem Keeps.events {w : World S V} {l : Ledger S V} (keeps : Keeps n₀ w.counted k l.state)
    (calls : ReflTransGen p.Calls { state := { world := w } } l) :
    Event.attempts (w.since l.state.world) k = 0 ∧
      ∀ ending ∈ Event.endings (w.since l.state.world) k, ending = .verified := by
  obtain ⟨new, told, none, all⟩ := keeps.told
  obtain ⟨-, counted⟩ := counted_of_calls calls
  generalize w.since l.state.world = events at counted
  obtain rfl : events.filter Event.isCounted = new :=
    List.append_cancel_right (counted.symm.trans told)
  refine ⟨(Event.attempts_counted events k).symm.trans none, fun ending inside => ?_⟩
  rw [← Event.endings_counted] at inside
  exact all ending (Event.mem_endings.mp inside)

theorem Keeps.verified {w : World S V} {l : Ledger S V} (keeps : Keeps n₀ w.counted k l.state)
    (calls : ReflTransGen p.Calls { state := { world := w } } l)
    (goes : ReflTransGen p.Goes { world := w } l.state)
    (underway : Progress.GroundedRun p.version { world := w })
    (unfinished : (w.graph.node k).isFinished = false)
    (finished : (l.state.graph.node k).isFinished = true) :
    Event.endings (w.since l.state.world) k = [.verified] := by
  obtain ⟨ending, ended⟩ := (Booked.of_calls calls goes underway).ending unfinished finished
  obtain ⟨-, all⟩ := keeps.events calls
  rw [Event.endings_counted] at ended
  rw [ended] at all ⊢
  rw [all ending List.mem_cons_self]

theorem Account.endings (account : p.Account k s s' log) (ne : l ≠ k) (ending : Ending) :
    .evaluated l ending ∉ log := by
  cases account with
  | silent | lose | restart => simp
  | confirm | fail => simp [ne]
  | conclude o deps startable unregistered plain node =>
    unfold Pass.began
    split <;> simp [ne]

namespace Entry

theorem other (entry : p.Entry k s s' log) (ne : l ≠ k) (keeps : Keeps n₀ old l s) :
    Keeps n₀ old l s' :=
  have other := entry.others l ne
  keeps.proceed other.value (fun _ => other.result) entry.told (entry.account.attempts ne)
    fun ending inside => absurd inside (entry.account.endings ne ending)

theorem spares (entry : p.Entry k s s' log) (plain : .evaluated k (.failed .cycle) ∉ log)
    (shape : s.graph.WellFormed) (prompted : s.graph.Prompted)
    (kept : n₀.injected = true ∨ n₀.Doubted) (spares : Spares n₀ old l s) : Spares n₀ old l s' := by
  have extend := entry.extends_graph
  rcases spares with keeps | stale
  · by_cases same : l = k
    · subst same
      have outdated (startable : s.graph.Startable l) : Spares n₀ old l s' := by
        have pending := keeps.pending entry.unfinished
        exact .inr (extend.stale (prompted.stale shape pending kept startable))
      have told := entry.told
      cases entry.account with
      | silent result starts =>
        exact .inl (keeps.proceed (result.value starts) (fun _ => result) told rfl (by simp))
      | lose _ _ startable | restart _ _ _ startable | conclude _ _ startable =>
        exact outdated startable
      | confirm cause node =>
        have value := (shape l).value_confirm p.version cause.status
        have finished := ((shape l).renewed_confirm p.version cause.status).finished
        refine .inl (keeps.proceed (value.trans node.value) (fun unfinished => ?_) told rfl (by simp))
        simp [node.result.finished, finished] at unfinished
      | fail => simp at plain
    · exact .inl (entry.other same keeps)
  · exact .inr (extend.stale stale)

end Entry

theorem Moves.spares (moves : p.Moves (fun _ => True) [] s s') (underway : s.GroundedRun p.version)
    (prompted : s.graph.Prompted) (kept : n₀.injected = true ∨ n₀.Doubted)
    (spares : Spares n₀ old k s) : Spares n₀ old k s' := by
  induction moves with
  | refl => exact spares
  | tail before move ih =>
    have goes := goes_of_changes (Moves.changes before)
    have shape := (underway_of_goes goes underway).shape
    cases move with
    | rest same => exact ih.of_node same.node (congrArg Control.told same.control)
    | step live step =>
      obtain ⟨x, log, entry, plain⟩ := step.entry live shape
      exact entry.spares plain shape (prompted_of_goes goes underway prompted) kept ih

omit [BEq V] in
theorem starts_of_worked {x : Key} {m : Node V}
    (worked : ∀ l, Node.Bystander (Function.update s.graph.node x m l) (s'.graph.node l))
    (same : m.starts = (s.graph.node x).starts) (k : Key) :
    (s'.graph.node k).starts = (s.graph.node k).starts := by
  rw [(worked k).starts]
  exact Graph.update_congr Node.starts same k

namespace Breaks

variable {cycle : Cycle} {keys : List Key}

theorem starts (breaks : p.Breaks cycle keys s s') (k : Key) :
    (s'.graph.node k).starts = (s.graph.node k).starts := by
  induction breaks with
  | nil => rfl
  | skip _ _ ih => exact ih
  | fail broken _ ih => exact ih.trans (starts_of_worked (Graph.bystander_settled broken.node) rfl k)

theorem spares (breaks : p.Breaks cycle keys s s') (out : k ∉ keys) (spares : Spares n₀ old k s) :
    Spares n₀ old k s' := by
  induction breaks with
  | nil => exact spares
  | skip _ _ ih => exact ih (fun inside => out (List.mem_cons_of_mem _ inside)) spares
  | fail broken _ ih =>
    rw [List.mem_cons, not_or] at out
    obtain ⟨ne, out⟩ := out
    refine ih out ?_
    exact spares.imp (broken.entry.other ne) broken.entry.extends_graph.stale

end Breaks

namespace Calls

variable {g₀ : Graph V} {l l' : Ledger S V}

theorem stale_of_fail {cycle : Cycle} (sound : l.Sound p g₀) (found : cycle ∈ l.due)
    (breaks : p.Breaks cycle cycle l.state s) (member : k ∈ cycle)
    (underway : l.state.GroundedRun p.version) (prompted : l.state.graph.Prompted)
    (kept : n₀.injected = true ∨ n₀.Doubted)
    (pending : Node.SameResult n₀ (l.state.graph.node k)) :
    s.graph.Stale n₀.verifiedAt n₀.deps.flatten := by
  obtain ⟨d, next⟩ := Cycle.exists_next member
  obtain ⟨unfinished, awaited⟩ := sound.due cycle found k d next
  rcases (underway.shape k).status_of_awaits (List.ne_nil_of_mem awaited) with verifying | computing
  · have result := sound.broken found breaks next.mem.2
    refine ⟨d, ?_, result.finished, ?_⟩
    · rw [← pending.deps]
      obtain ⟨v, cached⟩ := ((underway.shape k).verifying verifying).2.2
      exact (underway.current.waits_in_order underway.distinct cached verifying awaited).1
    · rw [result.version, ← pending.verifiedAt]
      exact underway.dated.unfinished k unfinished
  · have stale := prompted.stale underway.shape pending kept (.inl computing)
    exact (extends_of_goes (goes_of_changes breaks.changes) underway).stale stale

theorem spares (calls : p.Calls l l') (steady : p.listener.Steady)
    (confined : p.rules.Confined fun _ => True) (sound : l.Sound p g₀)
    (underway : l.state.GroundedRun p.version) (prompted : l.state.graph.Prompted)
    (kept : n₀.injected = true ∨ n₀.Doubted) (spares : Spares n₀ old k l.state) :
    Spares n₀ old k l'.state := by
  cases calls with
  | root x returns =>
    obtain ⟨b, s', yields, asked⟩ := enqueue_cases steady x l.state
    obtain ⟨rfl, rfl⟩ := returns.unique yields
    rcases asked with ⟨-, same, -⟩ | ⟨-, unfinished, idle, node, control⟩
    · exact spares.of_node same.node (congrArg Control.told same.control)
    · have entry : p.Entry x l.state _ [] := .of_enqueued unfinished node control
      exact entry.spares (by simp) underway.shape prompted kept spares
  | run x returns =>
    obtain ⟨moves, -⟩ := worked_of_yields steady confined underway.toRunning returns
    exact Moves.spares moves underway prompted kept spares
  | find roots => exact spares
  | fail cycle found returns =>
    have breaks := broken_of_yields steady returns
    by_cases member : k ∈ cycle
    · refine .inr (spares.elim (fun keeps => ?_) ?_)
      · obtain ⟨unfinished, -⟩ := (sound.due cycle found).waits member
        exact stale_of_fail sound found breaks member underway prompted kept
          (keeps.pending unfinished)
      · exact (extends_of_goes (goes_of_changes breaks.changes) underway).stale
    · exact breaks.spares member spares
  | interrupt h =>
    exact spares.of_node (congrArg Graph.node (World.graph_interrupt _ h))
      (congrArg (List.filter Event.isCounted) (World.history_interrupt _ h))
  | outside o => exact spares.of_node rfl rfl

theorem starts (calls : p.Calls l l') (steady : p.listener.Steady)
    (confined : p.rules.Confined fun _ => True) (running : l.state.Running p.version)
    (started : (l'.state.graph.node k).starts ≠ (l.state.graph.node k).starts)
    (verifiable : (l.state.graph.node k).Verifiable) :
    l.state.graph.Outdated (l.state.graph.node k).verifiedAt (l.state.graph.node k).deps := by
  cases calls with
  | root x returns =>
    obtain ⟨b, s', yields, asked⟩ := enqueue_cases steady x l.state
    obtain ⟨rfl, rfl⟩ := returns.unique yields
    rcases asked with ⟨-, same, -⟩ | ⟨-, unfinished, idle, node, control⟩
    · exact absurd (congrArg Node.starts (congrFun same.node k)) started
    · exact absurd (starts_of_worked (Graph.bystander_update node) rfl k) started
  | run x returns =>
    obtain ⟨-, dispatches⟩ := worked_of_yields steady confined running returns
    obtain ⟨rfl, outdated⟩ := dispatches.starts k started
    exact outdated verifiable
  | find roots => exact absurd rfl started
  | fail cycle found returns =>
    exact absurd ((broken_of_yields steady returns).starts k) started
  | interrupt h =>
    exact absurd (congrArg (fun g : Graph V => (g.node k).starts) (World.graph_interrupt _ h)) started
  | outside o => exact absurd rfl started

theorem all_spares (calls : ReflTransGen p.Calls l l') (steady : p.listener.Steady)
    (confined : p.rules.Confined fun _ => True) (sound : l.Sound p g₀)
    (underway : l.state.GroundedRun p.version) (prompted : l.state.graph.Prompted)
    (kept : n₀.injected = true ∨ n₀.Doubted) (spares : Spares n₀ old k l.state) :
    Spares n₀ old k l'.state := by
  induction calls with
  | refl => exact spares
  | tail before call ih =>
    have goes := sound.goes steady confined before
    exact call.spares steady confined (sound.all confined before) (underway_of_goes goes underway)
      (prompted_of_goes goes underway prompted) kept ih

end Calls

theorem Entry.attempts_le (entry : p.Entry k s s' log) (l : Key) :
    Event.attempts log l + (s.graph.node l).starts ≤ (s'.graph.node l).starts := by
  by_cases same : l = k
  · subst same
    cases entry.account with
    | silent _ starts => simp [Event.attempts, starts]
    | lose _ starts => simp [Event.attempts, starts, Nat.add_comm]
    | restart _ _ starts => simp [Event.attempts, starts, Nat.add_comm]
    | confirm cause node =>
      have starts : ((s.graph.node l).confirm p.version).2.starts = (s.graph.node l).starts := rfl
      rw [node.starts, starts]
      simp [Event.attempts]
    | conclude o deps startable unregistered plain node =>
      have starts : ((s.graph.node l).begun.commit o deps p.version).2.starts =
          (s.graph.node l).starts + 1 := by cases o <;> rfl
      rw [node.starts, starts]
      unfold Pass.began
      split <;> simp [Event.attempts, Nat.add_comm]
    | fail cycle node =>
      have starts : ((s.graph.node l).broken cycle p.version).starts = (s.graph.node l).starts := rfl
      rw [node.starts, starts]
      simp [Event.attempts]
  · rw [(entry.others l same).starts, entry.account.attempts same, Nat.zero_add]

theorem attempts_le_of_goes (goes : ReflTransGen p.Goes s s') (underway : s.GroundedRun p.version)
    (k : Key) :
    Event.attempts s'.world.counted k + (s.graph.node k).starts ≤
      Event.attempts s.world.counted k + (s'.graph.node k).starts := by
  induction goes with
  | refl => exact Nat.le_refl _
  | tail before next ih =>
    rcases next.entry (underway_of_goes before underway).shape with ⟨node, told, -⟩ | ⟨x, log, entry⟩
    · rwa [node, told]
    · have more := entry.attempts_le k
      rw [Event.attempts] at more ih ⊢
      rw [entry.told, List.countP_append]
      omega

theorem Calls.unfinished_of_run {l l' : Ledger S V} (calls : p.Calls l l')
    (steady : p.listener.Steady) (confined : p.rules.Confined fun _ => True)
    (underway : l.state.GroundedRun p.version)
    (run : Event.attempts l'.state.world.history k ≠ Event.attempts l.state.world.history k) :
    (l.state.graph.node k).isFinished = false := by
  by_contra finished
  have goes := calls.goes steady confined underway.toRunning
  obtain ⟨-, same⟩ := final_of_goes goes underway (by simpa using finished)
  rw [World.counted, World.counted, Event.attempts_counted, Event.attempts_counted] at same
  exact run same

theorem Calls.outdated {l l' : Ledger S V} (calls : p.Calls l l') (steady : p.listener.Steady)
    (confined : p.rules.Confined fun _ => True) (underway : l.state.GroundedRun p.version)
    (prompted : l.state.graph.Prompted) (doubted : (l.state.graph.node k).Doubted)
    (run : Event.attempts l'.state.world.history k ≠ Event.attempts l.state.world.history k) :
    l.state.graph.Outdated (l.state.graph.node k).verifiedAt (l.state.graph.node k).deps := by
  by_cases computing : (l.state.graph.node k).status = .computing
  · exact prompted k doubted computing
  · refine calls.starts steady confined underway.toRunning (fun same => run ?_)
      ((underway.shape k).verifiable_of_doubted doubted computing)
    have most := attempts_le_of_goes (calls.goes steady confined underway.toRunning) underway k
    obtain ⟨new, history, -⟩ := calls.told
    rw [World.counted, World.counted, Event.attempts_counted, Event.attempts_counted] at most
    rw [Event.attempts, history, List.countP_append] at most ⊢
    simp only [Event.attempts] at most ⊢
    omega

theorem Goes.not_entered (goes : p.Goes s s') (shape : s.graph.WellFormed)
    (finished : (s.graph.node k).isFinished = true) (out : k ∉ s.enqueued) : k ∉ s'.enqueued := by
  rcases goes.entry shape with ⟨-, -, same⟩ | ⟨x, log, entry⟩
  · rwa [same]
  · intro inside
    rcases entry.entered k inside with before | unfinished
    · exact out before
    · simp [finished] at unfinished

theorem not_entered_of_goes (goes : ReflTransGen p.Goes s s') (underway : s.GroundedRun p.version)
    (finished : (s.graph.node k).isFinished = true) (out : k ∉ s.enqueued) : k ∉ s'.enqueued := by
  induction goes with
  | refl => exact out
  | tail before next ih =>
    have same := extends_of_goes before underway k finished
    exact next.not_entered (underway_of_goes before underway).shape (same.finished.trans finished) ih

end Pass

namespace Engine

variable {rules : Rules S V} {listener : Listener} {e : Engine S V}

-- A pass computes only what it must. Whoever is finished when it begins is not enqueued, and stays
-- as it is but for its dependents. A computed value in doubt is verified group by group, and its
-- rule is started only if something in one of the groups has changed, while all that is in the
-- groups before is finished and unchanged; if nothing has changed, the value is kept. A given value
-- is kept anyway.
theorem Reachable.recomputed_only_if_outdated (reachable : Reachable rules listener e)
    (steady : listener.Steady) (confined : rules.Confined fun _ => True) (keepGoing : Bool) :
    let p := e.pass keepGoing
    let start : Ledger S V := { state := { world := e.entry } }
    (∀ budget roots, ∃ l, ReflTransGen p.Calls start l ∧
        (e.evaluate budget roots keepGoing).2.world.graph = l.state.abandon.2.graph ∧
        (e.evaluate budget roots keepGoing).2.world.history = l.state.world.history) ∧
      ∀ l, ReflTransGen p.Calls start l → ∀ k,
        let before := e.world.graph.node k
        let now := l.state.graph.node k
        let events := e.entry.since l.state.world
        let kept := Node.SameValue before now ∧ now.value? = before.value? ∧
          Event.attempts events k = 0
        (before.isFinished = true →
          k ∉ l.state.enqueued ∧ ∃ dependents, now = { before with dependents }) ∧
        (before.status = .done → before.dirty = .suspect → before.injected = false →
          (∀ l', p.Calls l l' →
            Event.attempts l'.state.world.history k ≠ Event.attempts l.state.world.history k →
              l.state.graph.Outdated before.verifiedAt before.deps) ∧
          (now.status = .verifying → ∀ d ∈ now.awaits, d ∈ before.deps.flatten ∧
            ∀ i group, before.deps[i]? = some group → d ∈ group →
              l.state.graph.Checked before.verifiedAt (before.deps.take i).flatten) ∧
          (now.isFinished = true → l.state.graph.Checked before.verifiedAt before.deps.flatten →
            Event.endings events k = [.verified] ∧ kept)) ∧
        (before.injected = true → kept ∧ ∀ ending ∈ Event.endings events k, ending = .verified) := by
  intro p start
  refine ⟨fun budget roots => ?_, fun l calls k => ?_⟩
  · obtain ⟨queue, l, calls, evaluated⟩ :=
      reachable.evaluate_calls steady confined budget roots keepGoing
    exact ⟨l, calls, evaluated.graph, evaluated.history⟩
  obtain ⟨rfl, rfl⟩ := reachable.unchanged
  have started : e.Led p start := reachable.led steady confined .refl
  have led : e.Led p l := started.onward steady confined calls
  have prompted : start.state.graph.Prompted := fun k _ computing =>
    absurd computing ((led.begun.shape k).quiet (led.resting.idle k)).2
  have shape : (e.world.graph.node k).WellFormed := led.begun.shape k
  have shape' := led.underway.shape k
  have spares (kept : (e.world.graph.node k).injected = true ∨ (e.world.graph.node k).Doubted) :
      Pass.Spares (e.world.graph.node k) e.entry.counted k l.state :=
    Pass.Calls.all_spares calls steady confined started.sound led.begun prompted kept
      (.inl (Pass.Keeps.start e.entry k))
  refine ⟨fun finished => ?_, fun done dirty computed => ?_, fun injected => ?_⟩
  · obtain ⟨node, -⟩ := Pass.final_of_goes led.goes led.begun finished
    exact ⟨Pass.not_entered_of_goes led.goes led.begun finished List.not_mem_nil, node⟩
  · have doubted : (e.world.graph.node k).Doubted := ⟨dirty, computed, shape.done done⟩
    refine ⟨fun l' call run => ?_, fun verifying d awaited => ?_, fun finished checked => ?_⟩
    · have prompted' := Pass.prompted_of_goes led.goes led.begun prompted
      have result := led.sound.kept k (call.unfinished_of_run steady confined led.underway run)
      rw [← result.verifiedAt, ← result.deps]
      exact call.outdated steady confined led.underway prompted' (result.doubted.mpr doubted) run
    · have unfinished : (l.state.graph.node k).isFinished = false := by
        simp [Node.isFinished, verifying, Status.isSettled]
      have result := led.sound.kept k unfinished
      obtain ⟨v, cached⟩ := (shape'.verifying verifying).2.2
      rw [← result.verifiedAt, ← result.deps]
      exact led.underway.current.waits_in_order led.underway.distinct cached verifying awaited
    · have keeps := (spares (.inr doubted)).resolve_right fun stale => stale.not_checked checked
      have open' : (e.world.graph.node k).isFinished = false := by
        simp [Node.isFinished, Node.isDirty, dirty]
      obtain ⟨v, cached⟩ := shape.done done
      have done' : (l.state.graph.node k).status = .done := by
        rw [shape'.status_eq (shape'.finished finished).1, keeps.value.cached, cached]
      exact ⟨keeps.verified calls led.goes led.begun open' finished, keeps.value,
        keeps.value.value? done done', (keeps.events calls).1⟩
  · have keeps := (spares (.inl injected)).resolve_right (by
      rintro ⟨d, inside, -⟩
      simp [(shape.injected injected).2] at inside)
    obtain ⟨none, all⟩ := keeps.events calls
    have done' := (shape'.injected (keeps.value.injected.trans injected)).1
    exact ⟨⟨keeps.value, keeps.value.value? (shape.injected injected).1 done', none⟩, all⟩

theorem recomputed_only_if_outdated_detour :
    let a : Key := .only "a"
    let b : Key := .only "b"
    let e := (detour.inject [(.only "d", 7)]).2
    let p := e.pass true
    ∃ l l' l'', ReflTransGen p.Calls { state := { world := e.entry } } l ∧ p.Calls l l' ∧
      ReflTransGen p.Calls l' l'' ∧
      l.state.graph.Outdated (e.world.graph.node b).verifiedAt (e.world.graph.node b).deps ∧
      Event.attempts l'.state.world.history b = Event.attempts l.state.world.history b + 1 ∧
      Event.endings (e.entry.since l''.state.world) a = [.verified] ∧
      (l''.state.graph.node a).starts = (e.world.graph.node a).starts := by
  intro a b e p
  have known : Reachable Rules.detour .steady e := .inject _ reachable_detour
  obtain ⟨l, l', l'', calls, call, calls', once, finished, checked⟩ : ∃ l l' l'',
      ReflTransGen p.Calls { state := { world := e.entry } } l ∧ p.Calls l l' ∧
        ReflTransGen p.Calls l' l'' ∧
        Event.attempts l'.state.world.history b = Event.attempts l.state.world.history b + 1 ∧
        (l''.state.graph.node a).isFinished = true ∧
        ∀ d ∈ (e.world.graph.node a).deps.flatten, (l''.state.graph.node d).isFinished = true ∧
          (l''.state.graph.node d).version ≤ (e.world.graph.node a).verifiedAt :=
    ⟨_, _, _, (ReflTransGen.single (.root _ a (yields_settle (by decide +kernel) false))).tail
      (.run _ a (yields_settle (by decide +kernel) [])),
      .run _ b (yields_settle (by decide +kernel) []),
      .single (.run _ a (yields_settle (by decide +kernel) [])),
      by decide +kernel, by decide +kernel, by decide +kernel⟩
  obtain ⟨-, all⟩ :=
    known.recomputed_only_if_outdated (fun _ => rfl) (Rules.confined_detour _) true
  obtain ⟨-, doubted, -⟩ := all l calls b
  obtain ⟨-, doubted', -⟩ := all l'' ((calls.tail call).trans calls') a
  obtain ⟨outdated, -⟩ := doubted (by decide +kernel) (by decide +kernel) (by decide +kernel)
  obtain ⟨-, -, kept⟩ := doubted' (by decide +kernel) (by decide +kernel) (by decide +kernel)
  obtain ⟨endings, value, -⟩ := kept finished checked
  exact ⟨l, l', l'', calls, call, calls', outdated l' call (by omega), once, endings, value.starts⟩

end Engine

end Recompute
