import Recompute.Proofs.Records
import Recompute.Proofs.Runs

set_option autoImplicit false

namespace Recompute

variable {S V : Type} [BEq V]

def Rules.Gives (rules : Rules S V) (good : S → Prop) (look : Oracle V) (k : Key) (o : Outcome V)
    (deps : List Group) : Prop :=
  (rules.get? k.tag = none ∧ o = .error (.direct k (.noRule k.tag)) ∧ deps = []) ∨
    ∃ rule result t, rules.get? k.tag = some rule ∧ (rule k).Plays look good {} (.ok result) t ∧
      t.absent = [] ∧ Alike (t.outcome k result) o ∧ deps = t.groups

namespace Graph

def Agrees (g : Graph V) (look : Oracle V) (verifiedAt : Nat) (deps : List Key) : Prop :=
  ∀ d ∈ deps, (g.node d).version ≤ verifiedAt →
    (g.node d).cached ≠ none ∧ AlikeAnswer (look d) (g.node d).cached

-- Every computed result that was not reported changed is what its rule gives for the outcomes that
-- it has read, and those are the ones there are as long as they have no newer version.
def Justified (rules : Rules S V) (good : S → Prop) (g : Graph V) : Prop :=
  ∀ k o, (g.node k).cached = some o → (g.node k).injected = false → (g.node k).dirty ≠ .changed →
    (g.node k).isCyclic = false →
    ∃ look, rules.Gives good look k o (g.node k).deps ∧
      g.Agrees look (g.node k).verifiedAt (g.node k).deps.flatten

end Graph

namespace Graph

variable {rules : Rules S V} {good : S → Prop} {g g' : Graph V}

theorem Justified.of_sameRecords (justified : g.Justified rules good) (same : g.SameRecords g') :
    g'.Justified rules good := by
  intro k o found computed unchanged plain
  rw [(same k).cached] at found
  rw [(same k).injected] at computed
  have plain : (g.node k).isCyclic = false := by simpa [Node.isCyclic, (same k).cached] using plain
  obtain ⟨look, gives, agrees⟩ := justified k o found computed
    (mt (same k).changed unchanged) plain
  rw [(same k).deps, (same k).verifiedAt]
  refine ⟨look, gives, fun d inside old => ?_⟩
  rw [(same d).version] at old
  rw [(same d).cached]
  exact agrees d inside old

theorem Justified.replace (justified : g.Justified rules good) {k : Key} {m : Node V}
    (same : ∀ l, Node.SameResult (Function.update g.node k m l) (g'.node l))
    (own : ∀ o, m.cached = some o → m.injected = false → m.isCyclic = false →
      ∃ look, rules.Gives good look k o m.deps ∧ g'.Agrees look m.verifiedAt m.deps.flatten)
    (read : ∀ l, (g.node l).injected = false → (g.node l).isCyclic = false →
      k ∈ (g.node l).deps.flatten → m.version ≤ (g.node l).verifiedAt →
      (g.node k).version ≤ (g.node l).verifiedAt ∧ ∀ a, (g.node k).cached ≠ none →
        AlikeAnswer a (g.node k).cached → m.cached ≠ none ∧ AlikeAnswer a m.cached) :
    g'.Justified rules good := by
  intro l o found computed unchanged plain
  rw [(same l).cached] at found
  rw [(same l).injected] at computed
  rw [(same l).dirty] at unchanged
  rw [(same l).deps, (same l).verifiedAt]
  have plain : (Function.update g.node k m l).isCyclic = false := by
    simpa [Node.isCyclic, (same l).cached] using plain
  by_cases at_k : l = k
  · subst at_k
    rw [Function.update_self] at found computed plain ⊢
    exact own o found computed plain
  · rw [Function.update_of_ne at_k] at found computed plain unchanged ⊢
    obtain ⟨look, gives, agrees⟩ := justified l o found computed unchanged plain
    refine ⟨look, gives, fun d inside old => ?_⟩
    rw [(same d).version] at old
    rw [(same d).cached]
    by_cases hit : d = k
    · subst hit
      rw [Function.update_self] at old ⊢
      obtain ⟨older, alike⟩ := read l computed plain inside old
      obtain ⟨some, agrees⟩ := agrees d inside older
      exact alike (look d) some agrees
    · rw [Function.update_of_ne hit] at old ⊢
      exact agrees d inside old

theorem Justified.settle (justified : g.Justified rules good) (grounded : g.Grounded)
    {version : Nat} (dated : g.Dated version) {k : Key} {m : Node V}
    (unfinished : (g.node k).isFinished = false) (renewed : Node.Renewed version (g.node k) m)
    (node : g'.node = (g.settled k m).node)
    (new : ∀ o, m.cached = some o → m.injected = false → m.isCyclic = false →
      ∃ look, rules.Gives good look k o m.deps ∧
        ∀ d ∈ m.deps.flatten, (g.node d).isFinished = true ∧ (g.node d).cached ≠ none ∧
          AlikeAnswer (look d) (g.node d).cached) : g'.Justified rules good := by
  have same (l : Key) := node ▸ g.settled_sameResult k m l
  refine justified.replace same ?_ ?_
  · intro o found computed plain
    obtain ⟨look, gives, agrees⟩ := new o found computed plain
    refine ⟨look, gives, fun d inside _ => ?_⟩
    obtain ⟨finished, agrees⟩ := agrees d inside
    have ne : d ≠ k := by
      rintro rfl
      simp [unfinished] at finished
    rw [(same d).cached, Function.update_of_ne ne]
    exact agrees
  · intro l _ plain inside old
    rcases renewed.changed with now | ⟨kept, a, b, before, after, alike⟩
    · -- Whoever has read the new version has finished after it.
      exfalso
      cases finished : (g.node l).isFinished with
      | true => simp [(grounded l finished plain k inside).1] at unfinished
      | false =>
        have := dated.unfinished l finished
        omega
    · refine ⟨kept ▸ old, fun answer _ agrees => ?_⟩
      rw [before] at agrees
      rw [after]
      exact ⟨by simp, agrees.trans (.some alike)⟩

end Graph

variable {p : Pass S V} {good : S → Prop} {roots : List Key} {s s' : Progress S V}

theorem Step.Effect.justified {g g' : Graph V} (effect : Step.Effect p good g g')
    (justified : g.Justified p.rules good) (shape : g.WellFormed) (dated : g.Dated p.version)
    (grounded : g.Grounded) (current : g.Current) : g'.Justified p.rules good := by
  cases effect with
  | same same => exact justified.of_sameRecords fun k => (same.result k).record
  | confirmed k unfinished cause node =>
    have status := cause.status
    refine justified.settle grounded dated unfinished ((shape k).renewed_confirm p.version status)
      node ?_
    rw [(shape k).confirm_eq status]
    intro o found computed plain
    rcases cause with ⟨-, injected⟩ | ⟨verifying, checked⟩
    · simp [injected] at computed
    · have suspect := ((shape k).verifying verifying).1
      obtain ⟨look, gives, agrees⟩ := justified k o found computed (by simp [suspect]) plain
      exact ⟨look, gives, fun d inside =>
        ⟨(checked d inside).1, agrees d inside (checked d inside).2⟩⟩
  | concluded k f o deps unfinished computed flight cause node =>
    have renewed := Node.renewed_commit (g.node k).begun o deps p.version
    refine justified.settle grounded dated unfinished { renewed with } node ?_
    rw [Node.cached_commit, Node.deps_commit]
    rintro _ ⟨⟩ - -
    rcases cause with ⟨missing, rfl, rfl⟩ | ⟨result, t, attempt, complete, rfl, rfl⟩
    · exact ⟨fun _ => none, .inl ⟨missing, rfl, rfl⟩, by simp⟩
    · obtain ⟨rule, found, plays⟩ := attempt.plays
      have known := Attempt.known_eq (current.recalled k f flight)
      refine ⟨_, .inr ⟨rule, result, t.reads, found, plays, complete, Alike.refl _, rfl⟩, ?_⟩
      intro d inside
      have asked : d ∈ t.asked := attempt.tidy.groups ▸ inside
      have some := attempt.complete complete d asked
      rw [known, Graph.outcome?_eq] at some ⊢
      have finished : (g.node d).isFinished = true := by
        rw [← (shape d).outcome?_isSome]
        exact some
      have outcome : (g.node d).outcome? = (g.node d).cached := by simp [Node.outcome?, finished]
      rw [outcome] at some ⊢
      exact ⟨finished, Option.isSome_iff_ne_none.mp some, .refl _⟩

namespace Pass

theorem Change.justified (change : p.Change good roots s s')
    (underway : s.GroundedRun p.version) (justified : s.graph.Justified p.rules good) :
    s'.graph.Justified p.rules good := by
  cases change with
  | move move =>
    cases move with
    | rest same =>
      refine justified.of_sameRecords fun k => ?_
      rw [same.node]
      exact (Node.SameResult.refl _).record
    | step live step =>
      exact (step.effect underway.shape).justified justified underway.shape underway.dated
        underway.grounded underway.current
  | fail cycle k broken =>
    exact justified.settle underway.grounded underway.dated broken.unfinished
      (Node.renewed_commit _ (.error (.cycle cycle)) _ _) broken.node
      (by simp [Node.isCyclic])

theorem Changes.justified (changes : p.Changes good roots s s')
    (underway : s.GroundedRun p.version) (justified : s.graph.Justified p.rules good) :
    s'.graph.Justified p.rules good := by
  induction changes with
  | refl => exact justified
  | tail earlier change ih => exact change.justified (Changes.underway earlier underway) ih

end Pass

namespace Graph

variable {rules : Rules S V}

def Early (version : Nat) (g : Graph V) : Prop :=
  ∀ k, (g.node k).injected = false → (g.node k).verifiedAt < version

omit [BEq V] in
theorem Early.of_sameRecords {version : Nat} {g g' : Graph V} (early : g.Early version)
    (same : g.SameRecords g') : g'.Early version := by
  intro k computed
  rw [(same k).injected] at computed
  rw [(same k).verifiedAt]
  exact early k computed

theorem Early.given {version : Nat} {g : Graph V} (early : g.Early version) (k : Key) (v : V) :
    (g.given k v version).Early version := by
  intro l computed
  have same := sameResult_given g k v version
  obtain ⟨-, -, -, -, injected, -⟩ := (g.node k).inject_facts v version
  rw [(same l).injected] at computed
  rw [(same l).verifiedAt]
  have ne : l ≠ k := by
    rintro rfl
    simp [injected] at computed
  rw [Function.update_of_ne ne] at computed ⊢
  exact early l computed

theorem Justified.given {version : Nat} {g : Graph V} (justified : g.Justified rules good)
    (early : g.Early version) (k : Key) (v : V) : (g.given k v version).Justified rules good := by
  obtain ⟨-, -, -, -, injected, changed⟩ := (g.node k).inject_facts v version
  refine justified.replace (sameResult_given g k v version) ?_ ?_
  · intro o _ computed
    simp [injected] at computed
  · intro l computed _ _ old
    rcases changed with ⟨-, -, now, -⟩ | ⟨-, -, -, cached, kept, -⟩
    · have := early l computed
      omega
    · rw [cached]
      exact ⟨kept ▸ old, fun _ some agrees => ⟨some, agrees⟩⟩

theorem Justified.inject {g : Graph V} (justified : g.Justified rules good)
    (resting : g.Resting) (values : List (Key × V)) :
    (g.inject values).2.2.Justified rules good := by
  have early : g.Early (g.version + 1) := fun k _ => Nat.lt_succ_of_le (resting.dated k)
  have both := inject_records (P := fun g' => g'.Early (g.version + 1) ∧ g'.Justified rules good)
    (fun _ _ same holds => ⟨holds.1.of_sameRecords same, holds.2.of_sameRecords same⟩) g
    ⟨early, justified⟩ (fun _ k v holds => ⟨holds.1.given k v, holds.2.given holds.1 k v⟩) values
  exact both.2

end Graph

namespace Engine

variable {rules : Rules S V} {listener : Listener} {e e' : Engine S V}

theorem Evaluated.justified {roots : List Key} {keepGoing : Bool}
    {result : Except Abort (Evaluation V)} {queue : List Key}
    (evaluated : e.Evaluated roots keepGoing result e' queue s) (steady : e.listener.Steady)
    (confined : e.rules.Confined good) (resting : e.world.graph.Resting)
    (outside : good e.world.outside) (justified : e.world.graph.Justified e.rules good) :
    e'.world.graph.Justified e.rules good := by
  obtain ⟨underway, changes⟩ := evaluated.changes steady confined resting outside
  have after := changes.justified underway justified
  rw [evaluated.graph]
  exact after.of_sameRecords (changes.underway underway).sameRecords_abandon

theorem Reachable.justified (reachable : Reachable rules listener e) (steady : listener.Steady)
    (confined : rules.Confined fun _ => True) :
    e.world.graph.Justified rules fun _ => True := by
  have fresh : ({} : Graph V).Justified rules fun _ => True := by
    intro k o found
    simp [show ({} : Graph V).node k = {} from rfl] at found
  induction reachable with
  | new => exact fresh
  | @evaluate e budget roots keepGoing before ih =>
    obtain ⟨queue, s, evaluated⟩ := e.evaluated budget roots keepGoing
    obtain ⟨same, silent⟩ := before.unchanged
    have resting := before.resting steady confined
    exact same ▸ evaluated.justified (silent ▸ steady) (same ▸ confined) resting trivial (same ▸ ih)
  | @interrupt e h before ih => exact (World.graph_interrupt e.world h).symm ▸ ih
  | @inject e values before ih =>
    exact (World.graph_inject e.world values).symm ▸ ih.inject (before.resting steady confined) values
  | @invalidate e keys before ih =>
    exact (World.graph_invalidate e.world keys).symm ▸
      ih.of_sameRecords (Graph.sameRecords_invalidate e.world.graph keys)
  | reset before ih => exact fresh
  | outside | reorder => assumption

-- A clean computed value rests on finished results that did not change since it was computed or
-- verified, and running its rule again on them reads just what is on record and gives an equal
-- value: one that `==` does not tell apart from it, hence one that is `==` where that is an
-- equivalence.
theorem Reachable.clean_value_consistent (reachable : Reachable rules listener e)
    (steady : listener.Steady) (pure : rules.Pure fun _ => True) {k : Key} {v : V}
    (done : (e.world.graph.node k).value? = some v) (clean : (e.world.graph.node k).dirty = .clean)
    (computed : (e.world.graph.node k).injected = false) :
    (∀ d ∈ (e.world.graph.node k).deps.flatten, (e.world.graph.node d).isFinished = true ∧
      (e.world.graph.node d).version ≤ (e.world.graph.node k).verifiedAt) ∧
    ∃ rule, rules.get? k.tag = some rule ∧ ∀ scope, ∃ v' t w,
      (rule k).run scope {} e.world = (.ok (.ok v'), t, w) ∧
      t.groups = (e.world.graph.node k).deps ∧ t.absent = [] ∧ t.failures = [] ∧
      Indistinct v' v ∧ (EquivBEq V → (v' == v) = true) := by
  have confined := pure.confined ⟨e.world.outside, trivial⟩
  have resting := reachable.resting steady confined
  obtain ⟨status, cached⟩ := Node.value?_eq_some.mp done
  have finished : (e.world.graph.node k).isFinished = true := by
    simp [Node.isFinished, Node.isDirty, Status.isSettled, status, clean]
  have plain : (e.world.graph.node k).isCyclic = false := by simp [Node.isCyclic, cached]
  have checked := (resting.grounded k finished plain).resolve_left (by simp)
  refine ⟨checked, ?_⟩
  obtain ⟨look, gives, agrees⟩ :=
    reachable.justified steady confined k _ cached computed (by simp [clean]) plain
  rcases gives with ⟨-, impossible, -⟩ | ⟨rule, result, t, found, plays, complete, alike, groups⟩
  · simp at impossible
  refine ⟨rule, found, fun scope => ?_⟩
  obtain ⟨plays', -⟩ :=
    Computation.run_plays (confined k rule found) scope {} e.world trivial
  have known : ({} : Trace V).known e.world.graph = e.world.graph.outcome? := rfl
  have agree : ∀ d ∈ t.asked, AlikeAnswer (look d) (({} : Trace V).known e.world.graph d) := by
    intro d asked
    have inside : d ∈ (e.world.graph.node k).deps.flatten := by
      rw [groups, (plays.tidy (Trace.tidy_nil look)).groups]
      exact asked
    rw [known, Graph.outcome?_eq, Node.outcome?, if_pos (checked d inside).1]
    exact (agrees d inside (checked d inside).2).2
  obtain ⟨same, ends⟩ := (pure k rule found).plays plays plays' agree
  generalize (rule k).run scope {} e.world = ran at same ends
  obtain ⟨result', t', w⟩ := ran
  have failures : t.failures = [] := by
    by_contra failed
    simp [Trace.outcome, failed, Alike] at alike
  subst same
  rcases ends with ⟨a, b, first, second, ends⟩ | ⟨panic, first, -⟩
  · cases first
    cases second
    rcases result with fault | value
    · simp [Trace.outcome, failures, Alike] at alike
    · rcases b with fault | value'
      · exact ends.elim
      · have equal : Indistinct value' v := by
          have alike : Indistinct value v := by simpa [Trace.outcome, failures, Alike] using alike
          exact Relation.EqvGen.trans _ _ _ (Relation.EqvGen.symm _ _ ends) alike
        exact ⟨value', t', w, rfl, groups.symm, complete, failures, equal,
          fun _ => indistinct_iff.mp equal⟩
  · simp at first

end Engine

def Rules.relay : Rules Unit Nat := [("relay", fun k => Computation.need ⟨"base", k.argument⟩)]

theorem Rules.pure_relay (good : Unit → Prop) : relay.Pure good :=
  forall_cons (fun k _ => .need good good ⟨"base", k.argument⟩) forall_nil

namespace Engine

theorem clean_value_consistent_relay :
    let base : Key := ⟨"base", .datum .unit⟩
    let copy : Key := ⟨"relay", .datum .unit⟩
    let e := (((new Rules.relay .steady ()).inject [(base, 7)]).2.evaluate 9 [copy] true).2
    (e.world.graph.node copy).value? = some 7 ∧ ∀ scope, ∃ v t w,
      (Computation.need base : Computation Unit Nat _).run scope {} e.world = (.ok (.ok v), t, w) ∧
        t.groups = [[base]] ∧ (v == 7) = true := by
  intro base copy e
  have reachable : Reachable Rules.relay .steady e :=
    .evaluate 9 [copy] true (.inject [(base, 7)] (.new ()))
  have done : (e.world.graph.node copy).value? = some 7 := by decide
  obtain ⟨-, rule, found, again⟩ := reachable.clean_value_consistent (fun _ => rfl)
    (Rules.pure_relay _) done (by decide) (by decide)
  refine ⟨done, fun scope => ?_⟩
  obtain ⟨v, t, w, run, groups, -, -, -, equal⟩ := again scope
  cases found
  exact ⟨v, t, w, run, groups.trans (by decide), equal inferInstance⟩

end Engine

end Recompute
