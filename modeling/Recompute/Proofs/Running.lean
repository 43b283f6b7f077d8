import Recompute.Proofs.Attempts

set_option autoImplicit false

namespace Recompute

variable {S V : Type}

def Node.isCyclic (n : Node V) : Bool :=
  match n.cached with
  | some (.error (.cycle _)) => true
  | _ => false

namespace Graph

-- Whatever has finished rests on results that have finished too and did not change since.
def Grounded (g : Graph V) : Prop :=
  ∀ k, (g.node k).isFinished = true → (g.node k).isCyclic = false →
    g.Checked (g.node k).verifiedAt (g.node k).deps.flatten

def Distinct (g : Graph V) : Prop :=
  ∀ k v, (g.node k).cached = some (.ok v) → (g.node k).deps.flatten.Nodup

structure Current (g : Graph V) : Prop where
  recalled : ∀ k f, (g.node k).flight = some f →
    ∀ d o, f.memo.get? d = some o → (g.node d).outcome? = some o
  verified : ∀ k f, (g.node k).flight = some f → (g.node k).status = .verifying →
    g.Checked (g.node k).verifiedAt ((g.node k).deps.take f.verified).flatten
  apart : ∀ k f i, (g.node k).flight = some f → f.stage = .parked i → (g.node k).status = .verifying →
    ∀ d ∈ ((g.node k).deps.take f.verified).flatten, d ∉ f.awaits
  awaited : ∀ k f, (g.node k).flight = some f → (g.node k).status = .verifying →
    ∀ d ∈ f.awaits, d ∈ ((g.node k).deps.take (f.verified + 1)).flatten

end Graph

-- What a pass keeps from any graph that it may begin on.
structure Progress.Running (version : Nat) (s : Progress S V) : Prop where
  stamp : s.graph.version = version
  shape : s.graph.WellFormed
  dated : s.graph.Dated version
  linked : s.graph.Linked
  signalled : s.graph.Signalled
  current : s.graph.Current
  distinct : s.graph.Distinct
  tracked : ∀ k, (s.graph.node k).isInFlight = true → k ∈ s.enqueued

structure Progress.GroundedRun (version : Nat) (s : Progress S V) : Prop
    extends Progress.Running version s where
  grounded : s.graph.Grounded

namespace Attempt

variable {p : Pass S V} {good : S → Prop}

variable {g : Graph V} {k : Key} {memo : Memo V} {result : Except Panic (Except Fault V)} {t : Trace V}

theorem tidy (attempt : Attempt p good g k memo result t) :
    t.reads.Tidy (({ memo } : Trace V).known g) := by
  obtain ⟨rule, -, plays⟩ := attempt.plays
  exact plays.tidy (Trace.tidy_nil _)

theorem known_eq {g : Graph V} (recalled : ∀ d o, memo.get? d = some o → (g.node d).outcome? = some o) :
    ({ memo } : Trace V).known g = g.outcome? := by
  funext d
  rw [Graph.outcome?_eq]
  cases found : memo.get? d with
  | none => simp [Trace.known, found, Graph.outcome?_eq]
  | some o => simp [Trace.known, found, recalled d o found]

theorem absent_unfinished (attempt : Attempt p good g k memo result t) (shape : g.WellFormed)
    {d : Key} (inside : d ∈ t.absent) : (g.node d).isFinished = false := by
  have absent : t.absent = t.asked.filter fun k => (({ memo } : Trace V).known g k).isNone :=
    attempt.tidy.absent
  rw [absent, List.mem_filter] at inside
  rw [← (shape d).outcome?_isSome, ← Graph.outcome?_eq]
  cases found : memo.get? d <;> simp_all [Trace.known]

theorem absent_once (attempt : Attempt p good g k memo result t) : t.absent.Nodup := by
  have absent : t.absent = t.asked.filter fun k => (({ memo } : Trace V).known g k).isNone :=
    attempt.tidy.absent
  exact absent ▸ attempt.tidy.once.filter _

theorem complete (attempt : Attempt p good g k memo result t) (complete : t.absent = []) :
    ∀ d ∈ t.asked, (({ memo } : Trace V).known g d).isSome := by
  intro d asked
  have absent : t.absent = t.asked.filter fun k => (({ memo } : Trace V).known g k).isNone :=
    attempt.tidy.absent
  rw [complete] at absent
  simpa [Option.isSome_iff_ne_none] using List.filter_eq_nil_iff.mp absent.symm d asked

end Attempt

namespace Graph

variable {g : Graph V}

theorem Distinct.group (distinct : g.Distinct) (shape : g.WellFormed) {k : Key}
    (verifying : (g.node k).status = .verifying) {i : Nat} {group : Group}
    (recorded : (g.node k).deps[i]? = some group) : group.Nodup := by
  obtain ⟨v, cached⟩ := ((shape k).verifying verifying).2.2
  exact (distinct k v cached).sublist (List.sublist_flatten_of_mem (List.mem_of_getElem? recorded))

structure Abreast (g : Graph V) (n : Node V) : Prop where
  recalled : ∀ f, n.flight = some f → ∀ d o, f.memo.get? d = some o → (g.node d).outcome? = some o
  verified : ∀ f, n.flight = some f → n.status = .verifying →
    g.Checked n.verifiedAt (n.deps.take f.verified).flatten
  apart : ∀ f i, n.flight = some f → f.stage = .parked i → n.status = .verifying →
    ∀ d ∈ (n.deps.take f.verified).flatten, d ∉ f.awaits
  awaited : ∀ f, n.flight = some f → n.status = .verifying →
    ∀ d ∈ f.awaits, d ∈ (n.deps.take (f.verified + 1)).flatten

theorem Current.abreast (current : g.Current) (k : Key) : g.Abreast (g.node k) :=
  ⟨current.recalled k, current.verified k, current.apart k, current.awaited k⟩

theorem Current.of_abreast (abreast : ∀ k, g.Abreast (g.node k)) : g.Current :=
  ⟨fun k => (abreast k).recalled, fun k => (abreast k).verified, fun k => (abreast k).apart,
    fun k => (abreast k).awaited⟩

namespace Abreast

variable {n m : Node V} {f : Flight V}

theorem of_idle (idle : n.flight = none) : g.Abreast n := by
  constructor <;> simp [idle]

theorem of_not_verifying (status : n.status ≠ .verifying)
    (recalled : ∀ f, n.flight = some f →
      ∀ d o, f.memo.get? d = some o → (g.node d).outcome? = some o) : g.Abreast n where
  recalled := recalled
  verified _ _ verifying := absurd verifying status
  apart _ _ _ _ verifying := absurd verifying status
  awaited _ _ verifying := absurd verifying status

theorem of_verifying (flight : n.flight = some f)
    (recalled : ∀ d o, f.memo.get? d = some o → (g.node d).outcome? = some o)
    (verified : g.Checked n.verifiedAt (n.deps.take f.verified).flatten)
    (apart : ∀ i, f.stage = .parked i → ∀ d ∈ (n.deps.take f.verified).flatten, d ∉ f.awaits)
    (awaited : ∀ d ∈ f.awaits, d ∈ (n.deps.take (f.verified + 1)).flatten) : g.Abreast n := by
  have only {f' : Flight V} (found : n.flight = some f') : f' = f :=
    Option.some.inj (found.symm.trans flight)
  constructor
  case recalled => exact fun _ found => only found ▸ recalled
  case verified => exact fun _ found _ => only found ▸ verified
  case apart => exact fun _ i found parked _ => only found ▸ apart i (only found ▸ parked)
  case awaited => exact fun _ found _ => only found ▸ awaited

theorem same (abreast : g.Abreast n) (attempt : Node.SameAttempt n m)
    (result : Node.SameResult n m) : g.Abreast m := by
  constructor
  case recalled =>
    intro f flight d o remembered
    rcases attempt.before flight with ⟨-, -, -, -, memo⟩ | ⟨f₀, before, -, -, memo, -⟩
    · simp [memo] at remembered
    · exact abreast.recalled f₀ before d o (memo ▸ remembered)
  case verified =>
    intro f flight status
    rcases attempt.before flight with ⟨-, -, -, none, -⟩ | ⟨f₀, before, -, groups, -, -⟩
    · simp [none, Checked]
    · rw [result.deps, result.verifiedAt, groups]
      exact abreast.verified f₀ before (attempt.status ▸ status)
  case apart =>
    intro f i flight parked status d inside
    rcases attempt.before flight with ⟨-, -, awaits, -, -⟩ | ⟨f₀, before, awaits, groups, -, stage⟩
    · simp [awaits]
    · obtain ⟨j, parked⟩ := stage i parked
      rw [result.deps, groups] at inside
      rw [awaits]
      exact abreast.apart f₀ j before parked (attempt.status ▸ status) d inside
  case awaited =>
    intro f flight status d inside
    rcases attempt.before flight with ⟨-, -, none, -⟩ | ⟨f₀, before, awaits, groups, -, -⟩
    · simp [none] at inside
    · rw [result.deps, groups]
      exact abreast.awaited f₀ before (attempt.status ▸ status) d (awaits ▸ inside)

end Abreast

theorem Current.abreast_check {k : Key} {f : Flight V} {group : Group} (current : g.Current)
    (flight : (g.node k).flight = some f) (claimed : f.stage = .claimed)
    (verifying : (g.node k).status = .verifying)
    (recorded : (g.node k).deps[f.verified]? = some group)
    (checked : g.Checked (g.node k).verifiedAt group) :
    g.Abreast ((g.node k).verifiedUpTo f.verified) := by
  have progressed : (g.node k).verifiedUpTo f.verified =
      { g.node k with flight := some { f with verified := f.verified + 1 } } := by
    simp [Node.verifiedUpTo, flight]
  rw [progressed]
  refine .of_verifying rfl (current.recalled k f flight) ?_ (by simp [claimed]) ?_
  · intro d inside
    simp only [List.take_add_one, recorded, Option.toList_some, List.flatten_append,
      List.flatten_singleton, List.mem_append] at inside
    rcases inside with inside | inside
    · exact current.verified k f flight verifying d inside
    · exact checked d inside
  · intro d inside
    rw [List.take_add_one, List.flatten_append]
    exact List.mem_append_left _ (current.awaited k f flight verifying d inside)

theorem Current.abreast_postpone {k : Key} {f : Flight V} {group : Group}
    (current : g.Current) (flight : (g.node k).flight = some f)
    (verifying : (g.node k).status = .verifying)
    (recorded : (g.node k).deps[f.verified]? = some group) :
    g.Abreast { g.node k with flight := some (f.parkedOn (g.missing group) []) } := by
  have upto := current.verified k f flight verifying
  refine .of_verifying rfl (by simp [Flight.parkedOn]) upto (fun _ _ d inside awaited => ?_)
    fun d awaited => ?_
  · have done := (upto d inside).1
    simp [(mem_missing.mp awaited).2] at done
  · have inside : d ∈ group := (mem_missing.mp awaited).1
    rw [show (f.parkedOn (g.missing group) []).verified = f.verified from rfl,
      List.take_add_one, recorded]
    simp [inside]

theorem Current.abreast_claim {k : Key} {f : Flight V} (current : g.Current) (shape : g.WellFormed)
    (flight : (g.node k).flight = some f) (queued : f.stage = .queued) :
    g.Abreast (g.node k).claim.2 := by
  have old := current.recalled k f flight
  rcases (shape k).claim_cases flight queued with
    ⟨claim, status, -⟩ | ⟨claim, -, -, -, -, started⟩ | ⟨claim, -⟩ <;> rw [claim]
  · exact .of_not_verifying (by simp [status]) (by simpa using old)
  · refine .of_verifying rfl old ?_ (by simp) ?_
    · rcases started with verifying | ⟨zero, -⟩
      · exact current.verified k f flight verifying
      · simp [zero, Checked]
    · rcases started with verifying | ⟨-, none⟩
      · exact current.awaited k f flight verifying
      · simp [none]
  · exact .of_not_verifying (by simp) (by simpa using old)

end Graph

variable [BEq V] {p : Pass S V} {good : S → Prop} {roots : List Key} {s s' : Progress S V}

namespace Graph

variable {g g' : Graph V} {version : Nat}

omit [BEq V] in
theorem Grounded.same (grounded : g.Grounded) (same : g.SameResults g') : g'.Grounded := by
  intro k finished plain
  have result := same.result k
  rw [result.deps, result.verifiedAt]
  refine same.checked (grounded k (result.finished ▸ finished) ?_)
  simpa [Node.isCyclic, result.cached] using plain

theorem Abreast.results {n : Node V} (abreast : g.Abreast n)
    (results : g.Results version g') : g'.Abreast n where
  recalled f flight d o remembered := by
    have found := abreast.recalled f flight d o remembered
    have finished : (g.node d).isFinished = true := by
      by_contra open'
      simp [Node.outcome?, open'] at found
    rw [(results.finished finished).outcome?, found]
  verified f flight status := results.checked (abreast.verified f flight status)
  apart := abreast.apart
  awaited := abreast.awaited

namespace Current

theorem proceed (current : g.Current) (results : g.Results version g') {k : Key}
    (others : ∀ l, l ≠ k → Node.SameAttempt (g.node l) (g'.node l) ∧
      Node.SameResult (g.node l) (g'.node l))
    (self : g.Abreast (g'.node k)) : g'.Current := by
  refine .of_abreast fun l => .results ?_ results
  by_cases same : l = k
  · exact same ▸ self
  · exact (current.abreast l).same (others l same).1 (others l same).2

theorem update (current : g.Current) (results : g.Results version g') {k : Key} {m : Node V}
    (node : g'.node = Function.update g.node k m) (self : g.Abreast m) : g'.Current := by
  refine current.proceed results (k := k) (fun l ne => ?_) ?_
  · rw [node, Function.update_of_ne ne]
    exact ⟨.refl _, .refl _⟩
  · rw [node, Function.update_self]
    exact self

theorem settle (current : g.Current) (signalled : g.Signalled)
    (results : g.Results version g') {k : Key} {m : Node V}
    (node : g'.node = (g.settled k m).node) (idle : m.flight = none) : g'.Current := by
  have idle := flight_settled_self (signalled.once _) (k := k) idle
  refine current.proceed results (k := k) (fun l ne => ?_) (.of_idle (node ▸ idle))
  have result := g.settled_sameResult k m l
  rw [Function.update_of_ne ne] at result
  exact node ▸ ⟨sameAttempt_settled (signalled.once _) m ne, result⟩

theorem park (current : g.Current) (results : g.Results version g') {k : Key} {n : Node V}
    {awaits : List Key} (node : g'.node = g.parked k n awaits)
    (result : Node.SameResult (g.node k) n) (unfinished : ∀ d ∈ awaits, (g.node d).isFinished = false)
    (self : g.Abreast n) : g'.Current := by
  have open' := unfinished_update result unfinished
  have kept (l : Key) : Node.SameResult (Function.update g.node k n l) (g.parked k n awaits l) := by
    unfold parked
    split
    · exact .register _ _
    · exact .refl _
  refine current.proceed results (k := k) (fun l ne => ⟨?_, ?_⟩) ?_
  · exact node ▸ sameAttempt_parked open' ne
  · exact node ▸ (sameResult_update result l).trans (kept l)
  · have here := kept k
    rw [Function.update_self] at here
    exact node ▸ self.same (sameAttempt_parked_self open') here

end Current

omit [BEq V] in
theorem Grounded.settle (grounded : g.Grounded) {k : Key} {m : Node V}
    (unfinished : (g.node k).isFinished = false) (node : g'.node = (g.settled k m).node)
    (new : m.isCyclic = false → g.Checked m.verifiedAt m.deps.flatten) :
    g'.Grounded := by
  -- Only unfinished keys get results, and nothing rests on those.
  have checked {verifiedAt : Nat} {deps : List Key} (checked : g.Checked verifiedAt deps) :
      g'.Checked verifiedAt deps := by
    intro d inside
    obtain ⟨done, dated⟩ := checked d inside
    have ne : d ≠ k := by
      rintro rfl
      simp [unfinished] at done
    have same := g.settled_sameResult k m d
    rw [Function.update_of_ne ne, ← node] at same
    rw [same.finished, same.version]
    exact ⟨done, dated⟩
  intro l done plain
  have same := g.settled_sameResult k m l
  rw [← node] at same
  rw [same.deps, same.verifiedAt]
  rw [same.finished] at done
  have plain : (Function.update g.node k m l).isCyclic = false := by
    simpa [Node.isCyclic, same.cached] using plain
  by_cases at_k : l = k
  · subst at_k
    rw [Function.update_self] at plain ⊢
    exact checked (new plain)
  · rw [Function.update_of_ne at_k] at plain done ⊢
    exact checked (grounded l done plain)

omit [BEq V] in
theorem Distinct.settle (distinct : g.Distinct) {k : Key} {m : Node V}
    (node : g'.node = (g.settled k m).node)
    (new : ∀ v, m.cached = some (.ok v) → m.deps.flatten.Nodup) : g'.Distinct := by
  intro l v cached
  have same := g.settled_sameResult k m l
  rw [← node] at same
  rw [same.cached] at cached
  rw [same.deps]
  by_cases at_k : l = k
  · subst at_k
    rw [Function.update_self] at cached ⊢
    exact new v cached
  · rw [Function.update_of_ne at_k] at cached ⊢
    exact distinct l v cached

end Graph

namespace Step

theorem version (step : Step p good roots s s') : s'.graph.version = s.graph.version := by
  cases step with
  | enqueue _ _ _ _ _ control | claim _ _ _ _ _ control | check _ _ _ _ _ _ _ _ _ control
  | confirm _ _ _ _ _ _ control | postpone _ _ _ _ _ _ _ _ _ control =>
    exact congrArg Control.version control
  | lose _ _ _ _ _ _ _ control =>
    obtain ⟨_, _, _, -, -, -, control⟩ := control
    exact congrArg Control.version control
  | restart _ _ _ _ _ _ _ _ _ _ control =>
    obtain ⟨_, _, -, -, control⟩ := control
    exact congrArg Control.version control
  | conclude _ _ o _ _ _ _ _ _ control =>
    obtain ⟨_, _, -, -, control⟩ := control
    exact (congrArg Control.version control).trans (Control.version_committed _ _ _ o)

theorem current (step : Step p good roots s s') (running : s.Running p.version) :
    s'.graph.Current := by
  have results := step.results running.shape running.dated
  have current := running.current
  have signalled := running.signalled
  have shape := running.shape
  cases step with
  | enqueue k wanted unfinished idle node control =>
    exact current.update results node (.of_not_verifying ((shape k).quiet idle).1 (by simp))
  | claim k f flight queued node control =>
    exact current.update results node (current.abreast_claim shape flight queued)
  | check k f group flight claimed verifying recorded checked node control =>
    exact current.update results node
      (current.abreast_check flight claimed verifying recorded checked)
  | confirm k f flight claimed cause node control =>
    have renewed := (shape k).renewed_confirm p.version cause.status
    exact current.settle signalled results node renewed.idle
  | postpone k f group flight claimed verifying recorded some node control =>
    exact current.park results node (.flight _ _)
      (fun d inside => (Graph.mem_missing.mp inside).2)
      (current.abreast_postpone flight verifying recorded)
  | lose k f flight claimed startable node stopped control =>
    exact current.update results node (.of_not_verifying (by simp [Node.resumed]) (by simp))
  | restart k f result t flight claimed startable attempt some node control =>
    have resumed := Node.SameResult.resumed ((shape k).unfinished_of_flight flight)
      (f.parkedOn t.absent t.memo)
    refine current.park results node resumed
      (fun d inside => attempt.absent_unfinished shape inside) (.of_not_verifying (by simp [Node.resumed]) ?_)
    rintro _ ⟨⟩ d o remembered
    rw [← Graph.outcome?_eq, ← Attempt.known_eq (current.recalled k f flight)]
    exact attempt.recalls d o remembered
  | conclude k f o deps flight claimed startable cause node control =>
    exact current.settle signalled results node
      (Node.renewed_commit (s.graph.node k).begun o deps p.version).idle

theorem Effect.grounded {g g' : Graph V} (effect : Effect p good g g') (grounded : g.Grounded)
    (shape : g.WellFormed) (dated : g.Dated p.version) (current : g.Current) : g'.Grounded := by
  cases effect with
  | same same => exact grounded.same same
  | confirmed k unfinished cause node =>
    have status := cause.status
    refine grounded.settle unfinished node fun _ => ?_
    rw [(shape k).confirm_eq status]
    rcases cause with ⟨-, injected⟩ | ⟨-, checked⟩
    · simp [((shape k).injected injected).2, Graph.Checked]
    · exact fun d inside => ⟨(checked d inside).1, Nat.le_trans (checked d inside).2 (dated.all k)⟩
  | concluded k f o deps unfinished computed flight cause node =>
    refine grounded.settle unfinished node fun _ => ?_
    rw [Node.deps_commit, Node.verifiedAt_commit]
    rcases cause with ⟨-, -, rfl⟩ | ⟨result, t, attempt, complete, -, rfl⟩
    · simp [Graph.Checked]
    · intro d inside
      refine ⟨?_, Nat.le_trans (shape d).dated (dated.all d)⟩
      rw [← (shape d).outcome?_isSome, ← Graph.outcome?_eq,
        ← Attempt.known_eq (current.recalled k f flight)]
      exact attempt.complete complete d (attempt.tidy.groups ▸ inside)

theorem Effect.distinct {g g' : Graph V} (effect : Effect p good g g') (distinct : g.Distinct)
    (shape : g.WellFormed) : g'.Distinct := by
  cases effect with
  | same same =>
    intro k v cached
    rw [(same.result k).cached] at cached
    rw [(same.result k).deps]
    exact distinct k v cached
  | confirmed k unfinished cause node =>
    have status := cause.status
    refine distinct.settle node ?_
    rw [(shape k).confirm_eq status]
    exact distinct k
  | concluded k f o deps unfinished computed flight cause node =>
    refine distinct.settle node fun v _ => ?_
    rw [Node.deps_commit]
    rcases cause with ⟨-, -, rfl⟩ | ⟨result, t, attempt, -, -, rfl⟩
    · simp
    · exact attempt.tidy.groups.symm ▸ attempt.tidy.once

theorem signalled (step : Step p good roots s s') (running : s.Running p.version) :
    s'.graph.Signalled := by
  have signalled := running.signalled
  have shape := running.shape
  have unfinished {k : Key} {f : Flight V} (flight : (s.graph.node k).flight = some f) :=
    (shape k).unfinished_of_flight flight
  have up {k : Key} {f : Flight V} (flight : (s.graph.node k).flight = some f)
      (resting : ∀ i, f.stage ≠ .parked i) :
      ∀ f' i, (s.graph.node k).flight = some f' → f'.stage ≠ .parked i := by
    rintro f' i found
    rw [flight] at found
    cases found
    exact resting i
  cases step with
  | enqueue k wanted unfinished idle node control =>
    exact signalled.update node unfinished unfinished (by simp [idle]) rfl (by simp)
      (by simp [Node.awaits, idle]) (by simp [Node.waiters, idle])
  | claim k f flight queued node control =>
    have flight' := Node.flight_claim flight queued
    have still := ((shape k).claim flight queued).unfinished_of_flight flight'
    exact signalled.update node (unfinished flight) still (up flight (by simp [queued])) flight'
      (by simp) (by simp [Node.awaits, flight]) (by simp [Node.waiters, flight])
  | check k f group flight claimed verifying recorded checked node control =>
    have flight' : ((s.graph.node k).verifiedUpTo f.verified).flight =
        some { f with verified := f.verified + 1 } := by
      simp [Node.verifiedUpTo, flight]
    exact signalled.update node (unfinished flight) (unfinished flight)
      (up flight (by simp [claimed])) flight' (by simp [claimed]) (by simp [Node.awaits, flight])
      (by simp [Node.waiters, flight])
  | confirm k f flight claimed cause node control =>
    have status := cause.status
    have renewed := (shape k).renewed_confirm p.version status
    exact signalled.settle shape node (unfinished flight) renewed.finished renewed.idle
  | postpone k f group flight claimed verifying recorded some node control =>
    have once := running.distinct.group shape verifying recorded
    exact signalled.park node flight (by simp [claimed]) (unfinished flight) (unfinished flight) rfl
      rfl rfl rfl (once.filter _) some fun d inside => (Graph.mem_missing.mp inside).2
  | lose k f flight claimed startable node stopped control =>
    exact signalled.update node (unfinished flight) rfl (up flight (by simp [claimed])) rfl
      (by simp [claimed]) (by simp [Node.awaits, flight]) (by simp [Node.waiters, flight])
  | restart k f result t flight claimed startable attempt some node control =>
    exact signalled.park node flight (by simp [claimed]) (unfinished flight) rfl rfl rfl rfl rfl
      attempt.absent_once some fun d inside => attempt.absent_unfinished shape inside
  | conclude k f o deps flight claimed startable cause node control =>
    have renewed := Node.renewed_commit (s.graph.node k).begun o deps p.version
    exact signalled.settle shape node (unfinished flight) renewed.finished renewed.idle

theorem tracked (step : Step p good roots s s') (running : s.Running p.version) :
    ∀ k, (s'.graph.node k).isInFlight = true → k ∈ s'.enqueued := by
  change ∀ k, (s'.graph.node k).isInFlight = true → k ∈ s'.control.enqueued
  have tracked := running.tracked
  have shape := running.shape
  have flying {k : Key} {f : Flight V} (flight : (s.graph.node k).flight = some f) :
      k ∈ s.enqueued :=
    tracked k (by simp [Node.isInFlight, flight])
  have updated {k l : Key} {m : Node V} (inside : k ∈ s.enqueued)
      (inFlight : (Function.update s.graph.node k m l).isInFlight = true) : l ∈ s.enqueued := by
    by_cases same : l = k
    · exact same ▸ inside
    · exact tracked l (by simpa [same] using inFlight)
  have parked {k l : Key} {n : Node V} {awaits : List Key} (inside : k ∈ s.enqueued)
      (unfinished : ∀ d ∈ awaits, (Function.update s.graph.node k n d).isFinished = false)
      (inFlight : (s.graph.parked k n awaits l).isInFlight = true) :
      l ∈ s.enqueued ++ s.graph.idleOf awaits := by
    rw [Graph.isInFlight_parked unfinished, Bool.or_eq_true, decide_eq_true_eq] at inFlight
    rcases inFlight with inFlight | awaited
    · exact List.mem_append_left _ (updated inside inFlight)
    · cases idle : (s.graph.node l).isInFlight with
      | true => exact List.mem_append_left _ (tracked l idle)
      | false => exact List.mem_append_right _ (List.mem_filter.mpr ⟨awaited, by simp [idle]⟩)
  cases step with
  | enqueue k wanted unfinished idle node control =>
    intro l inFlight
    rw [congrArg Control.enqueued control]
    rw [node] at inFlight
    by_cases same : l = k
    · simp [same]
    · exact List.mem_append_left _ (tracked l (by simpa [same] using inFlight))
  | claim k f flight queued node control
  | check k f group flight claimed verifying recorded checked node control =>
    intro l inFlight
    rw [congrArg Control.enqueued control]
    exact updated (flying flight) (node ▸ inFlight)
  | confirm k f flight claimed cause node control =>
    intro l inFlight
    rw [congrArg Control.enqueued control]
    rw [node, Graph.isInFlight_settled (running.signalled.once _)] at inFlight
    exact updated (flying flight) inFlight
  | postpone k f group flight claimed verifying recorded some node control =>
    intro l inFlight
    rw [congrArg Control.enqueued control]
    exact parked (flying flight) (Graph.unfinished_update (.flight _ _)
      fun d inside => (Graph.mem_missing.mp inside).2) (node ▸ inFlight)
  | lose k f flight claimed startable node stopped control =>
    obtain ⟨_, _, _, -, -, -, control⟩ := control
    intro l inFlight
    rw [congrArg Control.enqueued control]
    exact updated (flying flight) (node ▸ inFlight)
  | restart k f result t flight claimed startable attempt some node control =>
    obtain ⟨_, _, -, -, control⟩ := control
    intro l inFlight
    rw [congrArg Control.enqueued control]
    have unfinished := (shape k).unfinished_of_flight flight
    exact parked (flying flight) (Graph.unfinished_update (.resumed unfinished _)
      fun d inside => attempt.absent_unfinished shape inside) (node ▸ inFlight)
  | conclude k f o deps flight claimed startable cause node control =>
    obtain ⟨_, _, -, -, control⟩ := control
    intro l inFlight
    rw [congrArg Control.enqueued control, Control.enqueued_committed]
    rw [node, Graph.isInFlight_settled (running.signalled.once _)] at inFlight
    exact updated (flying flight) inFlight

theorem running (step : Step p good roots s s') (running : s.Running p.version) :
    s'.Running p.version where
  stamp := step.version.trans running.stamp
  shape := step.wellFormed running.shape running.dated
  dated := (step.results running.shape running.dated).dated running.dated
  linked := (step.results running.shape running.dated).linked running.linked
  signalled := step.signalled running
  current := step.current running
  distinct := (step.effect running.shape).distinct running.distinct running.shape
  tracked := step.tracked running

theorem underway (step : Step p good roots s s') (underway : s.GroundedRun p.version) :
    s'.GroundedRun p.version where
  toRunning := step.running underway.toRunning
  grounded := (step.effect underway.shape).grounded underway.grounded underway.shape underway.dated
    underway.current

end Step

namespace Break

variable {cycle : Cycle} {k : Key}

theorem results (broken : Break p cycle k s s') (running : s.Running p.version) :
    s.graph.Results p.version s'.graph :=
  .renewed k _ broken.unfinished
    ((running.shape k).commit (.error (.cycle cycle)) _ (running.dated.all k))
    (Node.renewed_commit (s.graph.node k) (.error (.cycle cycle)) _ p.version) broken.node

theorem running (broken : Break p cycle k s s') (running : s.Running p.version) :
    s'.Running p.version := by
  have results := broken.results running
  obtain ⟨unfinished, node, control⟩ := broken
  have shape := running.shape
  have dated := running.dated
  have renewed := Node.renewed_commit (s.graph.node k) (.error (.cycle cycle))
    (if (s.graph.node k).asked = [] then [] else [(s.graph.node k).asked]) p.version
  constructor
  case stamp =>
    have version := (congrArg Control.version control).trans (Control.version_committed _ _ _ _)
    exact version.trans running.stamp
  case shape =>
    have committed := (shape k).commit (.error (.cycle cycle))
      (if (s.graph.node k).asked = [] then [] else [(s.graph.node k).asked]) (dated.all k)
    intro l
    rw [node]
    exact Graph.wellFormed_settled shape committed l
  case dated => exact results.dated dated
  case linked => exact results.linked running.linked
  case signalled => exact running.signalled.settle shape node unfinished renewed.finished renewed.idle
  case current => exact running.current.settle running.signalled results node renewed.idle
  case distinct => exact running.distinct.settle node (by simp [Node.fail])
  case tracked =>
    intro l inFlight
    have enqueued : s'.enqueued = s.enqueued :=
      (congrArg Control.enqueued control).trans (Control.enqueued_committed _ _ _ _)
    rw [node, Graph.isInFlight_settled (running.signalled.once _)] at inFlight
    rw [enqueued]
    by_cases same : l = k
    · subst same
      rw [Function.update_self] at inFlight
      simp [Node.isInFlight, Node.fail, Node.settle] at inFlight
    · exact running.tracked l (by simpa [same] using inFlight)

theorem underway (broken : Break p cycle k s s') (underway : s.GroundedRun p.version) :
    s'.GroundedRun p.version where
  toRunning := broken.running underway.toRunning
  grounded := underway.grounded.settle broken.unfinished broken.node
    (by simp [Node.isCyclic, Node.fail])

end Break

end Recompute
