import Recompute.Proofs.Faithful

set_option autoImplicit false

namespace Recompute

variable {S V : Type} [BEq V] {rules : Rules S V} {lower : Key → Key → Prop}

def Outcome.equal : Outcome V → Outcome V → Bool
  | .ok v, .ok w => v == w
  | .error e, .error f => e = f
  | _, _ => false

theorem Outcome.equal_of_alike [EquivBEq V] {o o' : Outcome V} (alike : Alike o o') :
    Outcome.equal o o' = true := by
  cases o <;> cases o' <;> simp only [Alike] at alike
  · simpa [equal] using alike
  · exact indistinct_iff.mp alike

-- What the calls to an engine say of it: the data that its last pass has found outside, the keys
-- reported changed since then, and the values given since the last reset.
structure Account (S V : Type) where
  outside : S
  told : List Key := []
  given : Key → Option V := fun _ => none

namespace Engine

def Informed (e : Engine S V) (a : Account S V) : Prop :=
  ∀ k ∈ e.world.graph.keys, e.rules.Affected a.outside e.world.outside k → k ∈ a.told

inductive History (rules : Rules S V) (listener : Listener) : Engine S V → Account S V → Prop
  | new (outside : S) (config : Config := {}) :
      History rules listener (Engine.new rules listener outside config) { outside }
  | evaluate {e : Engine S V} {a : Account S V} (budget : Nat) (roots : List Key)
      (keepGoing : Bool) (informed : e.Informed a) : History rules listener e a →
      History rules listener (e.evaluate budget roots keepGoing).2
        { a with outside := e.world.outside, told := [] }
  | interrupt {e : Engine S V} {a : Account S V} (h : Handle) :
      History rules listener e a → History rules listener (e.interrupt h) a
  | inject {e : Engine S V} {a : Account S V} (values : List (Key × V)) :
      History rules listener e a →
      History rules listener (e.inject values).2 { a with given := giveAll a.given values }
  | invalidate {e : Engine S V} {a : Account S V} (keys : List Key) :
      History rules listener e a →
      History rules listener (e.invalidate keys).2 { a with told := a.told ++ keys }
  | reset {e : Engine S V} {a : Account S V} : History rules listener e a →
      History rules listener e.reset { a with given := fun _ => none }
  | outside {e : Engine S V} {a : Account S V} (outside : S) : History rules listener e a →
      History rules listener { e with world := { e.world with outside } } a
  | reorder {e : Engine S V} {a : Account S V} (order : Order) : History rules listener e a →
      History rules listener { e with order } a

structure Accounted (lower : Key → Key → Prop) (e : Engine S V) (a : Account S V) : Prop where
  resting : e.world.graph.Resting
  faithful : e.world.graph.Faithful e.rules lower a.outside a.given
  told : e.world.graph.Told a.told

variable {listener : Listener} {e e' : Engine S V} {a : Account S V} {roots queue : List Key}
  {keepGoing : Bool} {result : Except Abort (Evaluation V)} {s : Progress S V}

theorem Evaluated.faithful (evaluated : e.Evaluated roots keepGoing result e' queue s)
    (accounted : e.Accounted lower a) (informed : e.Informed a) (steady : e.listener.Steady)
    (pure : e.rules.Pure (· = e.world.outside))
    (ranked : e.rules.Ranked (· = e.world.outside) lower) (founded : WellFounded lower) :
    s.GroundedRun (e.pass keepGoing).version ∧
      (e.pass keepGoing).Moves (· = e.world.outside) (union [] roots) { world := e.entry } s ∧
      s.graph.Faithful e.rules lower e.world.outside a.given := by
  have confined := pure.confined ⟨e.world.outside, rfl⟩
  have resting := accounted.resting
  obtain ⟨underway, changes⟩ := evaluated.changes steady confined resting rfl
  have justified := accounted.faithful.justified.transfer accounted.told informed confined
  have entry : e.entry.graph.Faithful e.rules lower e.world.outside a.given :=
    { accounted.faithful with justified }.of_sameRecords fun _ => .refl _
  have below : e.entry.graph.WaitsBelow lower := by
    intro k
    simp [Engine.entry, Node.awaits, resting.idle]
  have moves : (e.pass keepGoing).Moves (· = e.world.outside) (union [] roots)
      { world := e.entry } s :=
    evaluated.reaches.moves steady confined ranked founded underway rfl entry.layered below
  exact ⟨changes.underway underway, moves, moves.faithful underway ranked entry⟩

theorem History.reachable (history : History rules listener e a) : Reachable rules listener e := by
  induction history with
  | new outside config => exact .new outside config
  | evaluate budget roots keepGoing _ _ ih => exact .evaluate budget roots keepGoing ih
  | interrupt h _ ih => exact .interrupt h ih
  | inject values _ ih => exact .inject values ih
  | invalidate keys _ ih => exact .invalidate keys ih
  | reset _ ih => exact .reset ih
  | outside outside _ ih => exact .outside outside ih
  | reorder order _ ih => exact .reorder order ih

theorem History.accounted (history : History rules listener e a) (steady : listener.Steady)
    (pure : ∀ s, rules.Pure (· = s)) (ranked : ∀ s, rules.Ranked (· = s) lower)
    (founded : WellFounded lower) : e.Accounted lower a := by
  induction history with
  | new outside => exact ⟨Graph.resting_nil, Graph.faithful_nil, by simp [Graph.Told]⟩
  | @evaluate e a budget roots keepGoing informed before ih =>
    obtain ⟨queue, s, evaluated⟩ := e.evaluated budget roots keepGoing
    obtain ⟨rfl, rfl⟩ := before.reachable.unchanged
    obtain ⟨underway, -, faithful⟩ :=
      evaluated.faithful ih informed steady (pure _) (ranked _) founded
    have confined := (pure e.world.outside).confined ⟨_, rfl⟩
    constructor
    case resting => exact evaluated.resting steady confined ih.resting rfl
    case faithful =>
      rw [evaluated.graph, evaluated.rules]
      exact faithful.of_sameRecords underway.sameRecords_abandon
    case told => simp [Graph.Told]
  | @interrupt e a h _ ih =>
    obtain ⟨resting, faithful, told⟩ := ih
    constructor <;> simpa [Engine.interrupt]
  | @inject e a values _ ih =>
    have graph := World.graph_inject e.world values
    constructor
    case resting => exact graph.symm ▸ ih.resting.inject values
    case faithful => exact graph.symm ▸ ih.faithful.inject ih.resting values
    case told =>
      have told := Graph.inject_records (fun _ _ same told => told.of_sameRecords same)
        e.world.graph ih.told (fun _ k v told => told.give k v _) values
      exact graph.symm ▸ told
  | @invalidate e a keys _ ih =>
    have graph := World.graph_invalidate e.world keys
    have same := e.world.graph.sameRecords_invalidate keys
    constructor
    case resting => exact graph.symm ▸ ih.resting.invalidate keys
    case faithful => exact graph.symm ▸ ih.faithful.of_sameRecords same
    case told => exact graph.symm ▸ ih.told.invalidate ih.resting keys
  | reset _ ih =>
    exact ⟨Graph.resting_nil, Graph.faithful_nil, fun k _ => .inl rfl⟩
  | outside | reorder =>
    rename_i ih
    exact ⟨ih.resting, ih.faithful, ih.told⟩

theorem History.outcomes_alike_reference (history : History rules listener e a)
    (steady : listener.Steady) (pure : ∀ s, rules.Pure (· = s)) (founded : WellFounded lower)
    (ranked : ∀ s, rules.Ranked (· = s) lower) (informed : e.Informed a) {budget : Nat}
    {ev : Evaluation V} (ok : (e.evaluate budget roots true).1 = .ok ev)
    (uninterrupted : (e.evaluate budget roots true).2.world.isInterrupted e.current = false) :
    List.Forall₂ (fun root entry => entry.1 = root ∧
      ∃ o, rules.reference founded a.given e.world.outside root = some o ∧ Alike entry.2 o)
      (union [] roots) ev.roots := by
  have accounted := history.accounted steady pure ranked founded
  obtain ⟨rfl, rfl⟩ := history.reachable.unchanged
  obtain ⟨queue, s, evaluated⟩ := e.evaluated budget roots true
  obtain ⟨abort, stop, rfl⟩ := evaluated.ok ev ok
  obtain ⟨underway, moves, faithful⟩ :=
    evaluated.faithful accounted informed steady (pure _) (ranked _) founded
  have live : (e.pass true).isStopped s = false := by
    have interrupted : s.world.isInterrupted e.current = false := by
      simpa only [World.isInterrupted, evaluated.interrupted] using uninterrupted
    have halted : s.halted = false := by
      by_contra halted
      exact moves.abort_of_halted rfl rfl (by simpa using halted) abort
    simp [Pass.isStopped, halted, interrupted, Engine.pass]
  have finished := Pass.finished_of_stop stop live
  have found : ∀ root ∈ union [] roots, ∃ o o', (e.pass true).outcomeOf s root = some o ∧
      e.rules.reference founded a.given e.world.outside root = some o' ∧ Alike o o' := by
    intro root inside
    obtain ⟨o, o', cached, reference, alike⟩ := faithful.justified.alike_reference
      underway.grounded underway.shape faithful.holds faithful.layered.plain (pure _) founded
      (ranked _) root (finished root inside)
    refine ⟨o, o', ?_, reference, alike⟩
    have outcome : s.graph.outcome? root = some o := by
      rw [Graph.outcome?_eq, Node.outcome?, if_pos (finished root inside), cached]
    simp [Pass.outcomeOf, outcome]
  generalize union [] roots = wanted at found
  simp only [Pass.evaluation]
  induction wanted with
  | nil => exact .nil
  | cons root rest ih =>
    obtain ⟨here, others⟩ := List.forall_mem_cons.mp found
    obtain ⟨o, o', outcome, reference, alike⟩ := here
    simp only [List.filterMap_cons, outcome, Option.map_some]
    exact .cons ⟨rfl, o', reference, alike⟩ (ih others)

-- Incremental evaluation comes to what evaluation from scratch does.
theorem History.evaluation_equals_reference [EquivBEq V] (history : History rules listener e a)
    (steady : listener.Steady) (pure : ∀ s, rules.Pure (· = s)) (founded : WellFounded lower)
    (ranked : ∀ s, rules.Ranked (· = s) lower) (informed : e.Informed a) {budget : Nat}
    {ev : Evaluation V} (ok : (e.evaluate budget roots true).1 = .ok ev)
    (uninterrupted : (e.evaluate budget roots true).2.world.isInterrupted e.current = false) :
    List.Forall₂ (fun root entry => entry.1 = root ∧
      ∃ o, rules.reference founded a.given e.world.outside root = some o ∧
        Outcome.equal entry.2 o = true)
      (union [] roots) ev.roots := by
  have alike := history.outcomes_alike_reference steady pure founded ranked informed ok uninterrupted
  refine alike.imp ?_
  rintro root entry ⟨same, o, reference, alike⟩
  exact ⟨same, o, reference, Outcome.equal_of_alike alike⟩

end Engine

def Rules.gauge : Rules Nat Nat :=
  [("relay", fun _ => Computation.need (.only "gauge")),
    ("gauge", fun _ => .outside fun n => .done (.ok n))]

theorem Rules.pure_gauge (n : Nat) : Rules.gauge.Pure (· = n) := by
  refine forall_cons (fun _ _ => .need _ _ _) (forall_cons (fun _ _ => ?_) forall_nil)
  refine .left trivial ?_
  rintro _ ⟨_, rfl, rfl⟩
  refine .right trivial ?_
  rintro _ ⟨_, rfl, rfl⟩
  exact .done (.refl _)

omit [BEq V] in
theorem Computation.Plays.asked_need {look : Oracle V} {good : S → Prop} {k d : Key}
    {result : Except Panic (Except Fault V)} {t : Trace V}
    (plays : Plays look good (need k) {} result t) (asked : d ∈ t.asked) : d = k := by
  cases plays with
  | silent quiet => exact quiet.elim
  | values plays =>
    simp only [bind] at plays
    have ended : t = ({} : Trace V).heard look false [k] := by
      generalize (Table.get? (answersOf look [k]).withoutFailures k).join = answer at plays
      cases answer with
      | none =>
        cases plays with
        | silent quiet => exact quiet.elim
        | done => rfl
      | some v =>
        cases plays with
        | silent quiet => exact quiet.elim
        | done => rfl
    subst ended
    simpa [Trace.mem_asked_heard] using asked

def Key.height (k : Key) : Nat := if k.tag = "relay" then 1 else 0

theorem Key.founded : WellFounded fun d k : Key => d.height < k.height :=
  InvImage.wf height Nat.lt_wfRel.wf

theorem Rules.ranked_gauge (n : Nat) :
    Rules.gauge.Ranked (· = n) fun d k => d.height < k.height := by
  refine forall_cons (fun k tag look result t plays d asked => ?_)
    (forall_cons (fun k _ look result t plays d asked => ?_) forall_nil)
  · rw [plays.asked_need asked]
    simp [Key.height, tag, Key.only]
  · obtain ⟨_, ⟨m, -, rfl⟩, plays⟩ := plays.next trivial
    cases plays with
    | silent quiet => exact quiet.elim
    | done => simp at asked

namespace Engine

def gauged : Engine Nat Nat :=
  let read := ((new Rules.gauge .steady 1).evaluate 9 [.only "relay"] false).2
  ({ read with world := { read.world with outside := 2 } }.invalidate [.only "gauge"]).2

theorem history_gauged :
    History Rules.gauge .steady gauged { outside := 1, told := [.only "gauge"] } := by
  have started : (new Rules.gauge .steady 1).Informed ({ outside := 1 } : Account Nat Nat) := by
    intro k inside
    simp [new, World.newHandle, Graph.keys, Table.keys] at inside
  exact .invalidate _ (.outside 2 (.evaluate 9 _ false started (.new 1)))

theorem informed_gauged : gauged.Informed { outside := 1, told := [.only "gauge"] } := by
  have keys : gauged.world.graph.keys = [.only "relay", .only "gauge"] := by decide +kernel
  have same : gauged.rules = Rules.gauge := history_gauged.reachable.unchanged.1
  rintro k inside ⟨rule, found, affected⟩
  rw [keys] at inside
  rw [same] at found
  rcases List.mem_cons.mp inside with rfl | inside
  · cases found
    exact absurd (.need _ _ _) affected
  · exact inside

theorem evaluation_equals_reference_gauge :
    (gauged.evaluate 9 [.only "relay"] true).1.toOption.map (·.roots) =
        some [(.only "relay", .ok 2)] ∧
      ∃ o, Rules.gauge.reference Key.founded (fun _ => none) 2 (.only "relay") = some o ∧
        Outcome.equal (.ok 2) o = true := by
  have done : (gauged.evaluate 9 [.only "relay"] true).1.toOption.map (·.roots) =
      some [(.only "relay", .ok 2)] := by
    decide +kernel
  have uninterrupted :
      (gauged.evaluate 9 [.only "relay"] true).2.world.isInterrupted gauged.current = false := by
    decide +kernel
  refine ⟨done, ?_⟩
  cases ok : (gauged.evaluate 9 [.only "relay"] true).1 with
  | error abort =>
    rw [ok] at done
    cases done
  | ok ev =>
    rw [ok] at done
    have roots : ev.roots = [(.only "relay", .ok 2)] := by simpa [Except.toOption] using done
    have equal := history_gauged.evaluation_equals_reference (fun _ => rfl) Rules.pure_gauge
      Key.founded Rules.ranked_gauge informed_gauged ok uninterrupted
    have outside : gauged.world.outside = 2 := by decide +kernel
    have distinct : union [] [Key.only "relay"] = [.only "relay"] := by decide
    rw [roots, outside, distinct] at equal
    exact (List.forall₂_cons.mp equal).1.2

end Engine

end Recompute
