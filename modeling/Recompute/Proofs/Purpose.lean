import Recompute.Proofs.Faithful
import Recompute.Proofs.Replay

set_option autoImplicit false

namespace Recompute

variable {S V : Type} [BEq V]

omit [BEq V] in
-- Once a request was answered with something missing, nothing new is asked for.
def Rules.Prompt (rules : Rules S V) (good : S → Prop) : Prop :=
  ∀ k rule, rules.get? k.tag = some rule → ∀ look result t,
    (rule k).Plays look good {} result t → ∀ group ∈ t.groups.dropLast, ∀ d ∈ group, (look d).isSome

namespace Graph

-- Whoever is parked waits for what is missing of a group that its rule requests.
def Purposeful (rules : Rules S V) (good : S → Prop) (g : Graph V) : Prop :=
  ∀ k f i, (g.node k).flight = some f → f.stage = .parked i →
    ∃ pre group, rules.Requests good g k pre group ∧ g.missing f.awaits = g.missing group

variable {rules : Rules S V} {good : S → Prop} {g g' : Graph V} {k : Key}

theorem Purposeful.proceed (purposeful : g.Purposeful rules good) (matched : g.Matched g')
    (others : ∀ l, l ≠ k → Node.SameAttempt (g.node l) (g'.node l))
    (self : ∀ f i, (g'.node k).flight = some f → f.stage = .parked i →
      ∃ pre group, rules.Requests good g' k pre group ∧ g'.missing f.awaits = g'.missing group) :
    g'.Purposeful rules good := by
  intro l f i flight parked
  by_cases same : l = k
  · subst same
    exact self f i flight parked
  · rcases (others l same).before flight with ⟨-, queued, -⟩ | ⟨f₀, before, awaits, -, -, stage⟩
    · simp [queued] at parked
    · obtain ⟨j, parked₀⟩ := stage i parked
      obtain ⟨pre, group, requests, missing⟩ := purposeful l f₀ j before parked₀
      refine ⟨pre, group, requests.mono matched, ?_⟩
      rw [awaits, ← matched.missing, missing, matched.missing]

theorem Purposeful.settle (purposeful : g.Purposeful rules good) (signalled : g.Signalled)
    (matched : g.Matched g') {m : Node V} (node : g'.node = (g.settled k m).node)
    (idle : m.flight = none) : g'.Purposeful rules good := by
  refine purposeful.proceed (k := k) matched (fun l ne => ?_) ?_
  · rw [node]
    exact sameAttempt_settled (signalled.once _) m ne
  · simp [node, flight_settled_self (signalled.once _) idle]

theorem Purposeful.update (purposeful : g.Purposeful rules good) (matched : g.Matched g')
    {m : Node V}
    {f : Flight V} (node : g'.node = Function.update g.node k m) (flight : m.flight = some f)
    (up : ∀ i, f.stage ≠ .parked i) : g'.Purposeful rules good := by
  refine purposeful.proceed (k := k) matched (fun l ne => ?_) fun f' i found parked => ?_
  · rw [node, Function.update_of_ne ne]
    exact .refl _
  · rw [node, Function.update_self, flight] at found
    cases found
    exact absurd parked (up i)

theorem Purposeful.park (purposeful : g.Purposeful rules good) (matched : g.Matched g') {n : Node V}
    {f : Flight V} {awaits group : List Key} {pre : List Group}
    (node : g'.node = g.parked k n awaits)
    (result : Node.SameResult (g.node k) n) (flight : n.flight = some f)
    (awaits' : f.awaits = awaits)
    (requests : rules.Requests good g k pre group) (missing : awaits = g.missing group) :
    g'.Purposeful rules good := by
  have open' := unfinished_update result
    fun d (inside : d ∈ awaits) => (mem_missing.mp (missing ▸ inside)).2
  refine purposeful.proceed (k := k) matched (fun l ne => ?_) fun f' i found parked => ?_
  · rw [node]
    exact sameAttempt_parked open' ne
  · obtain ⟨-, f'', flight'', -, awaits'', -⟩ := parked_self open' flight
    rw [node, flight''] at found
    cases found
    refine ⟨pre, group, requests.mono matched, ?_⟩
    rw [awaits'', awaits', missing, matched.missing]

theorem Purposeful.of_node (purposeful : g.Purposeful rules good) (node : g'.node = g.node) :
    g'.Purposeful rules good := by
  have matched : g.Matched g' := .of_same fun d _ => node ▸ .refl _
  intro k f i flight parked
  rw [node] at flight
  obtain ⟨pre, group, requests, missing⟩ := purposeful k f i flight parked
  exact ⟨pre, group, requests.mono matched, Graph.missing_of_node node ▸ missing⟩

end Graph

variable {p : Pass S V} {good : S → Prop} {roots : List Key} {s s' : Progress S V}

theorem Graph.Justified.requests {rules : Rules S V} {g : Graph V}
    (justified : g.Justified rules good)
    (shape : g.WellFormed) (current : g.Current) {k : Key} {f : Flight V} {group : Group}
    (flight : (g.node k).flight = some f) (verifying : (g.node k).status = .verifying)
    (recorded : (g.node k).deps[f.verified]? = some group) :
    rules.Requests good g k ((g.node k).deps.take f.verified) group := by
  obtain ⟨suspect, -, v, cached⟩ := (shape k).verifying verifying
  have computed : (g.node k).injected = false := by
    by_contra given
    have done := ((shape k).injected (by simpa using given)).1
    simp [verifying] at done
  obtain ⟨look, gives, agrees⟩ := justified k _ cached computed (by simp [suspect])
    (by simp [Node.isCyclic, cached])
  rcases gives with ⟨-, impossible, -⟩ | ⟨rule, result, t, found, plays, -, -, groups⟩
  · cases impossible
  · refine ⟨rule, look, _, t, (g.node k).deps.drop (f.verified + 1), found, plays, ?_,
      fun d inside => ?_⟩
    · obtain ⟨inside, same⟩ := List.getElem?_eq_some_iff.mp recorded
      rw [← groups, ← same, ← List.drop_eq_getElem_cons inside, List.take_append_drop]
    · obtain ⟨finished, old⟩ := current.verified k f flight verifying d inside
      have among : d ∈ (g.node k).deps.flatten := by
        rw [← List.take_append_drop f.verified (g.node k).deps, List.flatten_append]
        exact List.mem_append_left _ inside
      rw [Graph.outcome?_eq, Node.outcome?, if_pos finished]
      exact ⟨finished, (agrees d among old).2⟩

theorem Attempt.requests {g : Graph V} {k : Key} {memo : Memo V}
    {result : Except Panic (Except Fault V)} {t : Trace V}
    (attempt : Attempt p good g k memo result t)
    (prompt : p.rules.Prompt good) (shape : g.WellFormed)
    (recalled : ∀ d o, memo.get? d = some o → (g.node d).outcome? = some o) (some : t.absent ≠ []) :
    ∃ pre group, p.rules.Requests good g k pre group ∧ t.absent = g.missing group := by
  have tidy := attempt.tidy
  obtain ⟨rule, found, plays⟩ := attempt.plays
  rw [Attempt.known_eq recalled] at plays tidy
  have missing (keys : List Key) :
      keys.filter (fun d => (g.outcome? d).isNone) = g.missing keys := by
    refine List.filter_congr fun d _ => ?_
    rw [Graph.outcome?_eq, ← (shape d).outcome?_isSome, Option.not_isSome]
  have absent : t.absent = g.missing t.groups.flatten := by
    have groups : t.groups.flatten = t.asked := tidy.groups
    rw [← missing, groups]
    exact tidy.absent
  obtain ⟨pre, group, split⟩ : ∃ pre group, t.groups = pre ++ [group] := by
    refine ⟨t.groups.dropLast, t.groups.getLast ?_, (List.dropLast_append_getLast _).symm⟩
    intro none
    simp [absent, none, Graph.missing] at some
  have answered : ∀ d ∈ pre.flatten, (g.node d).isFinished = true := by
    intro d inside
    obtain ⟨earlier, before, inside⟩ := List.mem_flatten.mp inside
    have known := prompt k rule found _ _ _ plays earlier
      (by simpa [Trace.reads, split] using before)
      d inside
    rwa [Graph.outcome?_eq, (shape d).outcome?_isSome] at known
  have none : g.missing pre.flatten = [] := Graph.missing_eq_nil.mpr answered
  refine ⟨pre, group, ⟨rule, _, result, t.reads, [], found, plays, split, fun d inside => ?_⟩, ?_⟩
  · exact ⟨answered d inside, .refl _⟩
  · rw [absent, split, List.flatten_append, List.flatten_singleton, Graph.missing,
      List.filter_append]
    simpa [Graph.missing] using none

theorem Step.purposeful (step : Step p good roots s s') (prompt : p.rules.Prompt good)
    (underway : s.GroundedRun p.version) (justified : s.graph.Justified p.rules good)
    (purposeful : s.graph.Purposeful p.rules good) : s'.graph.Purposeful p.rules good := by
  have signalled := underway.signalled
  have shape := underway.shape
  have matched := (step.results shape underway.dated).matched
  cases step with
  | enqueue k wanted unfinished idle node control =>
    exact purposeful.update matched node rfl (by simp)
  | claim k f flight queued node control =>
    exact purposeful.update matched node (Node.flight_claim flight queued) (by simp)
  | check k f group flight claimed verifying recorded checked node control =>
    have flight' : ((s.graph.node k).verifiedUpTo f.verified).flight =
        some { f with verified := f.verified + 1 } := by
      simp [Node.verifiedUpTo, flight]
    exact purposeful.update matched node flight' (by simp [claimed])
  | confirm k f flight claimed cause node control =>
    exact purposeful.settle signalled matched node
      ((shape k).renewed_confirm p.version cause.status).idle
  | postpone k f group flight claimed verifying recorded some node control =>
    exact purposeful.park matched node (.flight _ _) rfl rfl
      (justified.requests shape underway.current flight verifying recorded) rfl
  | lose k f flight claimed startable node stopped control =>
    exact purposeful.update matched node (Node.flight_resumed _ _) (by simp [claimed])
  | restart k f result t flight claimed startable attempt some node control =>
    obtain ⟨pre, group, requests, missing⟩ :=
      attempt.requests prompt shape (underway.current.recalled k f flight) some
    exact purposeful.park matched node (.resumed ((shape k).unfinished_of_flight flight) _)
      (Node.flight_resumed _ _) rfl requests missing
  | conclude k f o deps flight claimed startable cause node control =>
    exact purposeful.settle signalled matched node
      (Node.renewed_commit (s.graph.node k).begun o deps p.version).idle

end Recompute
