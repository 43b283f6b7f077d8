import Recompute.Proofs.Purpose

set_option autoImplicit false

namespace Recompute

variable {S V : Type} [BEq V]

open Progress

structure Progress.Orderly (p : Pass S V) (good : S → Prop) (given : Key → Option V)
    (s : Progress S V) : Prop where
  underway : s.GroundedRun p.version
  justified : s.graph.Justified p.rules good
  holds : s.graph.Holds given
  purposeful : s.graph.Purposeful p.rules good

omit [BEq V] in
theorem Node.WellFormed.computed_of_awaits {n : Node V} (shape : n.WellFormed)
    (waits : n.awaits ≠ []) : n.injected = false := by
  by_contra given
  have done := (shape.injected (by simpa using given)).1
  simpa [done] using shape.status_of_awaits waits

namespace Progress.Orderly

variable {p : Pass S V} {good : S → Prop} {given : Key → Option V} {s : Progress S V} {k : Key}
  {roots : List Key} {s' : Progress S V}

theorem injected_iff (orderly : s.Orderly p good given) (k : Key) :
    (s.graph.node k).injected = true ↔ given k ≠ none := by
  cases known : given k with
  | none => simp [orderly.holds.computed k known]
  | some v => simp [(orderly.holds.given k v known).1]

theorem computed (orderly : s.Orderly p good given) {f : Flight V} {i : Nat}
    (flight : (s.graph.node k).flight = some f) (parked : f.stage = .parked i) :
    given k = none := by
  obtain ⟨some, count⟩ := orderly.underway.signalled.counted k f i flight parked
  have waits : (s.graph.node k).awaits ≠ [] := by
    intro none
    have none : f.awaits = [] := by simpa [Node.awaits, flight] using none
    simp [count, none, Graph.missing] at some
  have computed := (orderly.underway.shape k).computed_of_awaits waits
  simpa [computed] using (orderly.injected_iff k).not

theorem settles (orderly : s.Orderly p good given) (finished : (s.graph.node k).isFinished = true)
    (plain : (s.graph.node k).isCyclic = false) (computed : given k = none) :
    ∃ o, (s.graph.node k).outcome? = some o ∧ p.rules.Settles good s.graph k o := by
  obtain ⟨-, clean, o, cached⟩ := (orderly.underway.shape k).finished finished
  obtain ⟨look, gives, agrees⟩ := orderly.justified k o cached (orderly.holds.computed k computed)
    (by simp [clean]) plain
  refine ⟨o, by simp [Node.outcome?, finished, cached], look, _, gives, fun d inside => ?_⟩
  obtain ⟨done, old⟩ := orderly.underway.grounded k finished plain d inside
  rw [Graph.outcome?_eq, Node.outcome?, if_pos done]
  exact ⟨done, (agrees d inside old).2⟩

theorem requests (orderly : s.Orderly p good given) {f : Flight V} {i : Nat}
    (flight : (s.graph.node k).flight = some f) (parked : f.stage = .parked i) :
    ∃ pre group, p.rules.Requests good s.graph k pre group ∧
      s.graph.missing f.awaits = s.graph.missing group ∧ s.graph.missing group ≠ [] := by
  obtain ⟨pre, group, requests, missing⟩ := orderly.purposeful k f i flight parked
  obtain ⟨some, count⟩ := orderly.underway.signalled.counted k f i flight parked
  refine ⟨pre, group, requests, missing, fun none => some ?_⟩
  rw [count, missing, none, List.length_nil]

theorem step (orderly : s.Orderly p good given) (prompt : p.rules.Prompt good)
    (step : Step p good roots s s') : s'.Orderly p good given where
  underway := step.underway orderly.underway
  justified := (step.effect orderly.underway.shape).justified orderly.justified
    orderly.underway.shape
    orderly.underway.dated orderly.underway.grounded orderly.underway.current
  holds := (step.effect orderly.underway.shape).holds orderly.underway.shape orderly.holds
  purposeful := step.purposeful prompt orderly.underway orderly.justified orderly.purposeful

theorem of_sameState (orderly : s.Orderly p good given) (same : s.SameState s') :
    s'.Orderly p good given where
  underway := orderly.underway.of_sameState same
  justified := orderly.justified.of_sameRecords fun _ => same.node ▸ .refl _
  holds := orderly.holds.of_sameRecords fun _ => same.node ▸ .refl _
  purposeful := orderly.purposeful.of_node same.node

theorem moves (orderly : s.Orderly p good given) (prompt : p.rules.Prompt good)
    (moves : p.Moves good roots s s') : s'.Orderly p good given := by
  induction moves with
  | refl => exact orderly
  | tail _ move ih =>
    cases move with
    | rest same => exact ih.of_sameState same
    | step live step => exact ih.step prompt step

end Progress.Orderly

structure Graph.Advances (rules : Rules S V) (good : S → Prop) (g g' : Graph V)
    (k : Key) : Prop where
  busy : (g.node k).isInFlight = true
  others : ∀ l, l ≠ k → (g'.node l).isFinished = (g.node l).isFinished
  earned : (g'.node k).isFinished = true → (g'.node k).injected = true ∨
    (g'.node k).isCyclic = false ∧
      ∃ o, (g'.node k).outcome? = some o ∧ rules.Settles good g k o
  still : ∀ l, (g.node l).isInFlight = true →
    (g'.node l).isFinished = true ∨ (g'.node l).isInFlight = true
  entered : ∀ l, (g'.node l).isInFlight = true → (g.node l).isInFlight = true ∨
    ∃ f i, (g'.node k).flight = some f ∧ f.stage = .parked i ∧ l ∈ f.awaits

namespace Graph.Advances

variable {rules : Rules S V} {good : S → Prop} {g g' : Graph V} {k : Key} {m : Node V}
  {f : Flight V}

theorem update (node : g'.node = Function.update g.node k m) (busy : (g.node k).isInFlight = true)
    (flight : m.flight = some f) (shape : m.WellFormed) : g.Advances rules good g' k where
  busy := busy
  others l ne := by rw [node, Function.update_of_ne ne]
  earned finished := by
    rw [node, Function.update_self] at finished
    simp [shape.unfinished_of_flight flight] at finished
  still l flying := by
    rw [node]
    by_cases same : l = k
    · subst same
      simp [Node.isInFlight, flight]
    · rw [Function.update_of_ne same]
      exact .inr flying
  entered l flying := by
    rw [node] at flying
    by_cases same : l = k
    · exact .inl (same ▸ busy)
    · rw [Function.update_of_ne same] at flying
      exact .inl flying

theorem settle (once : (g.node k).waiters.Nodup) (node : g'.node = (g.settled k m).node)
    (busy : (g.node k).isInFlight = true) (finished : m.isFinished = true)
    (earned : m.injected = true ∨ m.isCyclic = false ∧
      ∃ o, m.cached = some o ∧ rules.Settles good g k o) : g.Advances rules good g' k where
  busy := busy
  others l ne := by rw [node, (g.settled_sameResult k m l).finished, Function.update_of_ne ne]
  earned _ := by
    have result := g.settled_sameResult k m k
    rw [Function.update_self, ← node] at result
    rw [result.injected, result.outcome?, Node.outcome?, if_pos finished, Node.isCyclic,
      result.cached]
    exact earned
  still l flying := by
    rw [node, isInFlight_settled once]
    by_cases same : l = k
    · subst same
      rw [(g.settled_sameResult l m l).finished, Function.update_self]
      exact .inl finished
    · rw [Function.update_of_ne same]
      exact .inr flying
  entered l flying := by
    rw [node, isInFlight_settled once] at flying
    by_cases same : l = k
    · exact .inl (same ▸ busy)
    · rw [Function.update_of_ne same] at flying
      exact .inl flying

theorem park {awaits : List Key} {i : Nat} (node : g'.node = g.parked k m awaits)
    (busy : (g.node k).isInFlight = true) (unfinished : (g.node k).isFinished = false)
    (result : Node.SameResult (g.node k) m) (flight : m.flight = some f)
    (parked : f.stage = .parked i)
    (awaits' : f.awaits = awaits) (missing : ∀ d ∈ awaits, (g.node d).isFinished = false) :
    g.Advances rules good g' k := by
  have open' := unfinished_update result missing
  have finished (l : Key) : (g'.node l).isFinished = (g.node l).isFinished := by
    rw [node]
    exact isFinished_parked unfinished (result.finished.trans unfinished) l
  have flying (l : Key) :
      (g'.node l).isInFlight = ((g.node l).isInFlight || decide (l ∈ awaits)) := by
    have flying : m.isInFlight = true := by simp [Node.isInFlight, flight]
    rw [node, isInFlight_parked open', update_congr Node.isInFlight (flying.trans busy.symm)]
  constructor
  case busy => exact busy
  case others => exact fun l _ => finished l
  case earned =>
    intro done
    simp [finished, unfinished] at done
  case still =>
    intro l before
    simp [flying, before]
  case entered =>
    intro l after
    rw [flying, Bool.or_eq_true, decide_eq_true_eq] at after
    refine after.imp_right fun awaited => ?_
    obtain ⟨-, f', found, stage, same, -⟩ := parked_self open' flight
    refine ⟨f', i, ?_, stage.trans parked, ?_⟩
    · rw [node]
      exact found
    · rw [same, awaits']
      exact awaited

end Graph.Advances

variable {p : Pass S V} {good : S → Prop} {given : Key → Option V} {s s' t t' : Progress S V}
  {k : Key}

theorem Graph.Confirmable.settles {rules : Rules S V} {g : Graph V} (cause : g.Confirmable k)
    (justified : g.Justified rules good) (shape : g.WellFormed) :
    (g.node k).injected = true ∨ (g.node k).isCyclic = false ∧
      ∃ o, (g.node k).cached = some o ∧ rules.Settles good g k o := by
  rcases cause with ⟨-, injected⟩ | ⟨verifying, checked⟩
  · exact .inl injected
  · obtain ⟨suspect, -, v, cached⟩ := (shape k).verifying verifying
    have plain : (g.node k).isCyclic = false := by simp [Node.isCyclic, cached]
    by_cases injected : (g.node k).injected = true
    · exact .inl injected
    · obtain ⟨look, gives, agrees⟩ :=
        justified k _ cached (by simpa using injected) (by simp [suspect]) plain
      refine .inr ⟨plain, _, cached, look, _, gives, fun d inside => ?_⟩
      obtain ⟨finished, old⟩ := checked d inside
      rw [outcome?_eq, Node.outcome?, if_pos finished]
      exact ⟨finished, (agrees d inside old).2⟩

theorem Attempt.settles {g : Graph V} {memo : Memo V} {result : Except Fault V} {u : Trace V}
    (attempt : Attempt p good g k memo (.ok result) u) (shape : g.WellFormed)
    (recalled : ∀ d o, memo.get? d = some o → (g.node d).outcome? = some o)
    (complete : u.absent = []) : p.rules.Settles good g k (u.outcome k result) := by
  have answered := attempt.complete complete
  have groups : u.groups.flatten = u.asked := attempt.tidy.groups
  obtain ⟨rule, found, plays⟩ := attempt.plays
  rw [Attempt.known_eq recalled] at plays answered
  refine ⟨_, _, .inr ⟨rule, result, u.reads, found, plays, complete, .refl _, rfl⟩,
    fun d inside => ?_⟩
  have some := answered d (groups ▸ inside)
  rw [Graph.outcome?_eq, (shape d).outcome?_isSome] at some
  exact ⟨some, .refl _⟩

theorem Step.advances (step : Step p good [] s s') (underway : s.GroundedRun p.version)
    (justified : s.graph.Justified p.rules good) :
    ∃ k, s.graph.Advances p.rules good s'.graph k := by
  have shape := underway.shape
  have once := underway.signalled.once
  have open' {k : Key} {f : Flight V} (flight : (s.graph.node k).flight = some f) :=
    (shape k).unfinished_of_flight flight
  have busy {k : Key} {f : Flight V} (flight : (s.graph.node k).flight = some f) :
      (s.graph.node k).isInFlight = true := by simp [Node.isInFlight, flight]
  cases step with
  | enqueue k wanted => simp at wanted
  | claim k f flight queued node control =>
    exact ⟨k, .update node (busy flight) (Node.flight_claim flight queued)
      ((shape k).claim flight queued)⟩
  | check k f group flight claimed verifying recorded checked node control =>
    have flight' : ((s.graph.node k).verifiedUpTo f.verified).flight =
        some { f with verified := f.verified + 1 } := by
      simp [Node.verifiedUpTo, flight]
    refine ⟨k, .update node (busy flight) flight' ?_⟩
    rw [Node.verifiedUpTo, flight]
    exact (shape k).verified verifying ((shape k).memo f flight (by simp [verifying]))
  | confirm k f flight claimed cause node control =>
    have status := cause.status
    have renewed := (shape k).renewed_confirm p.version status
    refine ⟨k, .settle (once k) node (busy flight) renewed.finished ?_⟩
    rw [(shape k).confirm_eq status]
    exact cause.settles justified shape
  | postpone k f group flight claimed verifying recorded some node control =>
    exact ⟨k, .park node (busy flight) (open' flight) (.flight _ _) rfl rfl rfl
      fun d inside => (Graph.mem_missing.mp inside).2⟩
  | lose k f flight claimed startable node stopped control =>
    exact ⟨k, .update node (busy flight) (Node.flight_resumed _ _)
      ((shape k).started startable.status _ _)⟩
  | restart k f result t flight claimed startable attempt some node control =>
    exact ⟨k, .park node (busy flight) (open' flight) (.resumed (open' flight) _)
      (Node.flight_resumed _ _) rfl rfl fun d inside => attempt.absent_unfinished shape inside⟩
  | conclude k f o deps flight claimed startable cause node control =>
    have renewed := Node.renewed_commit (s.graph.node k).begun o deps p.version
    refine ⟨k, .settle (once k) node (busy flight) renewed.finished (.inr ?_)⟩
    rw [Node.isCyclic, Node.cached_commit]
    rcases cause with ⟨none, rfl, -⟩ | ⟨result, u, attempt, complete, rfl, -⟩
    · exact ⟨rfl, _, rfl, fun _ => Option.none, [], .inl ⟨none, rfl, rfl⟩, by simp [Graph.Echoes]⟩
    · refine ⟨?_, _, rfl, attempt.settles shape (underway.current.recalled k f flight) complete⟩
      split
      next cycle same => exact absurd (Option.some.inj same) (u.outcome_ne_cycle k result cycle)
      next => rfl

namespace Progress.Orderly

variable {pre : List Group} {group : Group} {l : Key} {o : Outcome V}

theorem alike_of_given (orderly : s.Orderly p good given) (orderly' : t.Orderly p good given)
    {v : V}
    (known : given k = some v) (finished : (s.graph.node k).isFinished = true)
    (finished' : (t.graph.node k).isFinished = true) :
    AlikeAnswer (s.graph.outcome? k) (t.graph.outcome? k) := by
  obtain ⟨-, w, cached, equal⟩ := orderly.holds.given k v known
  obtain ⟨-, w', cached', equal'⟩ := orderly'.holds.given k v known
  rw [Graph.outcome?_eq, Graph.outcome?_eq, Node.outcome?, Node.outcome?, if_pos finished,
    if_pos finished', cached, cached']
  exact .some (equal.trans _ _ _ (equal'.symm _ _))

variable (pure : p.rules.Pure good) (some : ∃ s, good s)

include pure some

theorem alike_of_settles (orderly : s.Orderly p good given)
    (finished : (s.graph.node k).isFinished = true) (plain : (s.graph.node k).isCyclic = false)
    (computed : given k = none) (settles : p.rules.Settles good s.graph k o) :
    AlikeAnswer (Option.some o) (s.graph.outcome? k) := by
  obtain ⟨o', outcome, settles'⟩ := orderly.settles finished plain computed
  rw [Graph.outcome?_eq, outcome]
  exact .some (settles.unique pure some settles')

theorem not_settles (orderly : s.Orderly p good given) {f : Flight V} {i : Nat}
    (flight : (s.graph.node k).flight = Option.some f) (parked : f.stage = .parked i) :
    ¬ p.rules.Settles good s.graph k o := by
  intro settles
  obtain ⟨pre, group, requests, -, waits⟩ := orderly.requests flight parked
  exact waits (Graph.missing_eq_nil.mpr (settles.requested pure some requests))

end Progress.Orderly

namespace Graph

def Drained (g : Graph V) : Prop :=
  ∀ k f, (g.node k).flight = some f → ∃ i, f.stage = .parked i

-- What is done or begun in `g` is done or begun in `g'`, which has failed no cycles but those that
-- `g` has failed.
structure Behind (g g' : Graph V) : Prop where
  matched : g.Matched g'
  begun : ∀ k, (g.node k).isInFlight = true →
    (g'.node k).isFinished = true ∨ (g'.node k).isInFlight = true
  cyclic : ∀ k, (g'.node k).isFinished = true → (g'.node k).isCyclic = true →
    (g.node k).isFinished = true

omit [BEq V] in
theorem Drained.parked {g : Graph V} (drained : g.Drained) (flying : (g.node k).isInFlight = true) :
    ∃ f i, (g.node k).flight = some f ∧ f.stage = .parked i := by
  obtain ⟨f, flight⟩ := Option.isSome_iff_exists.mp flying
  obtain ⟨i, parked⟩ := drained k f flight
  exact ⟨f, i, flight, parked⟩

end Graph

namespace Progress.Orderly

variable {pre : List Group} {group : Group} {l : Key}

theorem begun (orderly : s.Orderly p good given) (pure : p.rules.Pure good) (some : ∃ s, good s)
    (drained : s.graph.Drained) (computed : given k = none)
    (busy : (s.graph.node k).isFinished = true ∧ (s.graph.node k).isCyclic = false ∨
      (s.graph.node k).isInFlight = true)
    (requests : p.rules.Requests good s.graph k pre group) (inside : l ∈ group) :
    (s.graph.node l).isFinished = true ∨ (s.graph.node l).isInFlight = true := by
  rcases busy with ⟨finished, plain⟩ | flying
  · obtain ⟨o, -, settles⟩ := orderly.settles finished plain computed
    exact .inl (settles.requested pure some requests l inside)
  · obtain ⟨f, i, flight, parked⟩ := drained.parked flying
    obtain ⟨pre', group', requests', missing, waits⟩ := orderly.requests flight parked
    rcases requests.compare pure some requests' with earlier | rfl | later
    · exact .inl (requests'.finished l (List.mem_flatten_of_mem earlier inside))
    · cases unfinished : (s.graph.node l).isFinished with
      | true => exact .inl rfl
      | false =>
        have awaited : l ∈ s.graph.missing f.awaits :=
          missing ▸ Graph.mem_missing.mpr ⟨inside, unfinished⟩
        have awaited := (Graph.mem_missing.mp awaited).1
        exact .inr (orderly.underway.signalled.listed flight parked awaited unfinished).1
    · exact absurd (requests.passed later) waits

end Progress.Orderly

theorem Progress.Orderly.plain_of_injected (orderly : s.Orderly p good given)
    (injected : (s.graph.node k).injected = true) : (s.graph.node k).isCyclic = false := by
  cases known : given k with
  | none => simp [orderly.holds.computed k known] at injected
  | some v =>
    obtain ⟨-, w, cached, -⟩ := orderly.holds.given k v known
    simp [Node.isCyclic, cached]

namespace Graph.Behind

theorem refl (g : Graph V) : g.Behind g := ⟨.refl g, fun _ => .inr, fun _ finished _ => finished⟩

theorem advance (behind : s.graph.Behind t.graph) (pure : p.rules.Pure good) (some : ∃ s, good s)
    (shape : s.graph.WellFormed) (orderly : s'.Orderly p good given)
    (ahead : t.Orderly p good given)
    (drained : t.graph.Drained) (matched : s.graph.Matched s'.graph)
    (advances : s.graph.Advances p.rules good s'.graph k) : s'.graph.Behind t.graph := by
  have busy := behind.begun k advances.busy
  have fresh : (s.graph.node k).isFinished = false := by
    obtain ⟨f, flight⟩ := Option.isSome_iff_exists.mp advances.busy
    exact (shape k).unfinished_of_flight flight
  have plain (finished : (t.graph.node k).isFinished = true) :
      (t.graph.node k).isCyclic = false := by
    by_contra cyclic
    simp [behind.cyclic k finished (by simpa using cyclic)] at fresh
  have settled (finished : (s'.graph.node k).isFinished = true) :
      (t.graph.node k).isFinished = true ∧
        AlikeAnswer (s'.graph.outcome? k) (t.graph.outcome? k) := by
    cases known : given k with
    | some v =>
      have done : (t.graph.node k).isFinished = true := by
        refine busy.resolve_right fun flying => ?_
        obtain ⟨f, i, flight, parked⟩ := drained.parked flying
        simp [ahead.computed flight parked] at known
      exact ⟨done, orderly.alike_of_given ahead known finished done⟩
    | none =>
      have computed : (s'.graph.node k).injected = false := orderly.holds.computed k known
      obtain ⟨-, o, outcome, settles⟩ :=
        (advances.earned finished).resolve_left (by simp [computed])
      have settles := settles.mono behind.matched
      have done : (t.graph.node k).isFinished = true := by
        refine busy.resolve_right fun flying => ?_
        obtain ⟨f, i, flight, parked⟩ := drained.parked flying
        exact ahead.not_settles pure some flight parked settles
      rw [outcome?_eq s'.graph, outcome]
      exact ⟨done, ahead.alike_of_settles pure some done (plain done) known settles⟩
  have after : s'.graph.Matched t.graph := by
    intro l finished
    by_cases same : l = k
    · exact same ▸ settled (same ▸ finished)
    · have before := (advances.others l same).symm.trans finished
      obtain ⟨done, alike⟩ := behind.matched l before
      exact ⟨done, (matched l before).2.symm.trans alike⟩
  constructor
  case matched => exact after
  case begun =>
    intro l flying
    rcases advances.entered l flying with before | ⟨f, i, flight, parked, awaited⟩
    · exact behind.begun l before
    · obtain ⟨pre, group, requests, missing, -⟩ := orderly.requests flight parked
      have inside : l ∈ group := by
        obtain ⟨f', flight'⟩ := Option.isSome_iff_exists.mp flying
        have unfinished := (orderly.underway.shape l).unfinished_of_flight flight'
        exact (mem_missing.mp (missing ▸ mem_missing.mpr ⟨awaited, unfinished⟩)).1
      have computed := orderly.computed flight parked
      exact ahead.begun pure some drained computed (busy.imp_left fun done => ⟨done, plain done⟩)
        (requests.mono after) inside
  case cyclic => exact fun l finished cyclic => (matched l (behind.cyclic l finished cyclic)).1

theorem extend (behind : s.graph.Behind t.graph) (orderly : t'.Orderly p good given)
    (matched : t.graph.Matched t'.graph) (advances : t.graph.Advances p.rules good t'.graph k) :
    s.graph.Behind t'.graph := by
  constructor
  case matched => exact behind.matched.trans matched
  case begun =>
    intro l flying
    rcases behind.begun l flying with finished | flying
    · exact .inl (matched l finished).1
    · exact advances.still l flying
  case cyclic =>
    intro l finished cyclic
    by_cases same : l = k
    ·
      subst same
      have plain : (t'.graph.node l).isCyclic = false := by
        rcases advances.earned finished with injected | ⟨plain, -⟩
        · exact orderly.plain_of_injected injected
        · exact plain
      simp [plain] at cyclic
    · have before := (advances.others l same).symm.trans finished
      exact behind.cyclic l before (matched.isCyclic before ▸ cyclic)

theorem of_node {g g' h h' : Graph V} (behind : g.Behind h) (node : g'.node = g.node)
    (node' : h'.node = h.node) : g'.Behind h' := by
  constructor
  case matched =>
    intro k
    rw [outcome?_eq, outcome?_eq, node, node', ← outcome?_eq g, ← outcome?_eq h]
    exact behind.matched k
  case begun =>
    rw [node, node']
    exact behind.begun
  case cyclic =>
    rw [node, node']
    exact behind.cyclic

end Graph.Behind

namespace Pass

theorem Moves.kept {P : Graph V → Prop} (moves : p.Moves good [] s s')
    (prompt : p.rules.Prompt good) (orderly : s.Orderly p good given)
    (rest : ∀ g g' : Graph V, g'.node = g.node → P g → P g')
    (step : ∀ (s s' : Progress S V) (k : Key), s.Orderly p good given → s'.Orderly p good given →
      s.graph.Matched s'.graph → s.graph.Advances p.rules good s'.graph k → P s.graph → P s'.graph)
    (first : P s.graph) : P s'.graph := by
  induction moves with
  | refl => exact first
  | tail earlier move ih =>
    have orderly := orderly.moves prompt earlier
    have underway := orderly.underway
    cases move with
    | rest same => exact rest _ _ same.node ih
    | step live taken =>
      obtain ⟨k, advances⟩ := taken.advances underway orderly.justified
      have matched := (taken.results underway.shape underway.dated).matched
      exact step _ _ k orderly (orderly.step prompt taken) matched advances ih

end Pass

namespace Graph.Behind

variable (behind : s.graph.Behind t.graph) (prompt : p.rules.Prompt good)

include behind prompt

-- Until it has caught up a run stays behind one that is drained.
theorem follow (pure : p.rules.Pure good) (some : ∃ s, good s) (orderly : s.Orderly p good given)
    (ahead : t.Orderly p good given) (drained : t.graph.Drained) (moves : p.Moves good [] s s') :
    s'.graph.Behind t.graph :=
  moves.kept prompt orderly (P := (·.Behind t.graph))
    (fun _ _ node behind => behind.of_node node rfl)
    (fun _ _ _ orderly orderly' matched advances behind =>
      behind.advance pure some orderly.underway.shape orderly' ahead drained matched advances)
    behind

theorem lead (orderly : t.Orderly p good given) (moves : p.Moves good [] t t') :
    s.graph.Behind t'.graph :=
  moves.kept prompt orderly (P := s.graph.Behind)
    (fun _ _ node behind => behind.of_node rfl node)
    (fun _ _ _ _ orderly' matched advances behind => behind.extend orderly' matched advances) behind

end Graph.Behind

end Recompute
