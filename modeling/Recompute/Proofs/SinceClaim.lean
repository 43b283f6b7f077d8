import Recompute.Proofs.WorkEffect
import Recompute.Proofs.Tasks

set_option autoImplicit false

namespace Recompute

variable {S V : Type}

open Progress

namespace Pass

variable {p : Pass S V}

-- `k` was claimed in `s₀`, and so far nothing has changed but its own node.
structure SinceClaim (p : Pass S V) (k : Key) (f : Flight V) (s₀ s : Progress S V)
    (log : List Event) : Prop where
  flight₀ : (s₀.graph.node k).flight = some f
  queued : f.stage = .queued
  shape₀ : s₀.graph.WellFormed
  dated₀ : ∀ l, (s₀.graph.node l).verifiedAt ≤ p.version
  others : ∀ l, l ≠ k → s.graph.node l = s₀.graph.node l
  carried : Node.Carried (s₀.graph.node k) (s.graph.node k)
  shape : (s.graph.node k).WellFormed
  flight : ∃ f', (s.graph.node k).flight = some f' ∧ f'.stage = .claimed ∧ f'.awaits = f.awaits ∧
    f'.waiters = f.waiters
  stamp : s.graph.version = s₀.graph.version
  enqueued : s.enqueued = s₀.enqueued
  logs : s₀.world.Logs s.world log

namespace SinceClaim

variable {k : Key} {f : Flight V} {s₀ s s' : Progress S V} {log : List Event}

theorem unfinished₀ (since : p.SinceClaim k f s₀ s log) : (s₀.graph.node k).isFinished = false :=
  (since.shape₀ k).unfinished_of_flight since.flight₀

theorem node (since : p.SinceClaim k f s₀ s log) :
    s.graph.node = Function.update s₀.graph.node k (s.graph.node k) := by
  funext l
  by_cases same : l = k
  · subst same
    simp
  · simp [since.others l same, same]

theorem finished (since : p.SinceClaim k f s₀ s log) (l : Key) :
    (s.graph.node l).isFinished = (s₀.graph.node l).isFinished := by
  by_cases same : l = k
  · subst same
    exact since.carried.result.finished
  · rw [since.others l same]

theorem wellFormed (since : p.SinceClaim k f s₀ s log) : s.graph.WellFormed := by
  rw [Graph.WellFormed, since.node]
  exact Graph.wellFormed_update since.shape₀ since.shape

theorem hang [BEq V] (since : p.SinceClaim k f s₀ s log)
    (source : log = [] ∨ ∃ absent, log = [.restarted k absent] ∧ absent ≠ [] ∧
      ∀ d ∈ absent, (s₀.graph.node d).isFinished = false)
    (missed : ∀ absent, log = [.restarted k absent] → p.Misses k absent) : p.WorkStep k s₀ s := by
  obtain ⟨f', flight', claimed, awaits, waiters⟩ := since.flight
  refine .intro (.hang f f' _ log since.flight₀ since.queued since.carried
    since.shape flight'
    claimed awaits waiters source since.node) since.stamp (by simp [since.enqueued])
    since.logs ?_ missed
  rintro ending rfl
  rcases source with none | ⟨absent, restarted, -⟩
  · simp at none
  · simp at restarted

theorem stay [BEq V] (since : p.SinceClaim k f s₀ s []) : p.WorkStep k s₀ s :=
  since.hang (.inl rfl) (by simp)

theorem publish [BEq V] (since : p.SinceClaim k f s₀ s []) {m : Node V} (shape : m.WellFormed)
    (renewed : Node.Renewed p.version (s.graph.node k) m)
    (starts : (s.graph.node k).starts ≤ m.starts) (publishes : p.Publishes k m s s') :
    p.WorkStep k s₀ s' := by
  obtain ⟨f', flight', -, -, waiters⟩ := since.flight
  obtain ⟨ending, w, quiet, told⟩ := publishes.told
  have settled : (s.graph.settled k m).node = (s₀.graph.settled k m).node := by
    refine Graph.settled_congr since.others since.carried.result.deps ?_ m
    simp [Node.waiters, flight', since.flight₀, waiters]
  have publishes₀ : p.Publishes k m s₀ s' := by
    constructor
    case stamp => exact publishes.stamp.trans since.stamp
    case enqueued => exact publishes.enqueued.trans since.enqueued
    case told => exact ⟨ending, w, since.logs.trans quiet, told⟩
    case node =>
      rw [publishes.node, settled, since.node, Function.update_idem]
  exact publishes₀.worked since.unfinished₀ shape (since.carried.renewed renewed)
    (Nat.le_trans since.carried.starts starts)

theorem onto (since : p.SinceClaim k f s₀ s log) (s' : Progress S V) {new : List Event}
    (node : s'.graph.node = s.graph.node) (stamp : s'.graph.version = s.graph.version)
    (enqueued : s'.enqueued = s.enqueued) (logs : s.world.Logs s'.world new) :
    p.SinceClaim k f s₀ s' (new ++ log) where
  flight₀ := since.flight₀
  queued := since.queued
  shape₀ := since.shape₀
  dated₀ := since.dated₀
  others := node ▸ since.others
  carried := node ▸ since.carried
  shape := node ▸ since.shape
  flight := node ▸ since.flight
  stamp := stamp.trans since.stamp
  enqueued := enqueued.trans since.enqueued
  logs := since.logs.trans logs

theorem told (since : p.SinceClaim k f s₀ s log) (stats : Stats) (e : Event) :
    p.SinceClaim k f s₀ { s with stats, world := s.world.record e }
      ((if e.isMilestone then [e] else []) ++ log) :=
  since.onto _ rfl rfl rfl (.record s.world e)

theorem dated (since : p.SinceClaim k f s₀ s log) : (s.graph.node k).verifiedAt ≤ p.version := by
  rw [since.carried.result.verifiedAt]
  exact since.dated₀ k

theorem commit [BEq V] (since : p.SinceClaim k f s₀ s []) (o : Outcome V) (deps : List Group) :
    After (match o with
      | .ok v => p.succeed k v deps
      | .error f => p.fail k f deps) s (fun _ => p.WorkStep k s₀) (p.WorkStep k s₀) := by
  have starts : ((s.graph.node k).commit o deps p.version).2.starts = (s.graph.node k).starts := by
    cases o <;> rfl
  have worked (s' : Progress S V)
      (publishes : p.Publishes k ((s.graph.node k).commit o deps p.version).2 s s') :
      p.WorkStep k s₀ s' :=
    since.publish (since.shape.commit o deps since.dated)
      (Node.renewed_commit _ o deps p.version)
      (Nat.le_of_eq starts.symm) publishes
  exact (commit_after k o deps s).mono (fun _ => worked) worked

theorem confirm [BEq V] (since : p.SinceClaim k f s₀ s [])
    (status : (s.graph.node k).status = .verifying ∨ (s.graph.node k).status = .done) :
    After (p.confirm k) s (fun _ => p.WorkStep k s₀) (p.WorkStep k s₀) := by
  have worked (s' : Progress S V)
      (publishes : p.Publishes k ((s.graph.node k).confirm p.version).2 s s') :
      p.WorkStep k s₀ s' :=
    since.publish (since.shape.confirm status since.dated)
      (since.shape.renewed_confirm p.version status) (Nat.le_refl _) publishes
  exact (confirm_after k s).mono (fun _ => worked) worked

theorem park [BEq V] (since : p.SinceClaim k f s₀ s log) {awaits : List Key} {memo : Memo V}
    (some : awaits ≠ []) (missing : ∀ d ∈ awaits, (s₀.graph.node d).isFinished = false)
    (source : log = [] ∧ awaits ⊆ (s₀.graph.node k).deps.flatten ∨ log = [.restarted k awaits])
    (missed : ∀ absent, log = [.restarted k absent] → p.Misses k absent)
    (status : (s.graph.node k).status = .computing ∨
      (s.graph.node k).status = .verifying ∧ memo = []) :
    After (p.park k awaits memo) s (fun _ => p.WorkStep k s₀) (p.WorkStep k s₀) := by
  obtain ⟨f', flight', claimed, awaits', waiters⟩ := since.flight
  have unfinished : ∀ d ∈ awaits, (s.graph.node d).isFinished = false := by
    intro d inside
    rw [since.finished]
    exact missing d inside
  have open' : (s.graph.node k).isFinished = false := since.carried.unfinished since.unfinished₀
  refine park_after memo s flight' some unfinished open' ?_
  intro s' reached entered pending within enough idle node stamp enqueued logs
  have shape : { s.graph.node k with
      flight := Option.some { f' with stage := .parked pending, awaits, memo } : Node V
        }.WellFormed := by
    rcases status with computing | ⟨verifying, none⟩
    · have started := since.shape.started (.inl computing) (s.graph.node k).starts
        { f' with stage := .parked pending, awaits, memo }
      rw [← computing] at started
      exact started
    · exact since.shape.verified verifying none
  have carried := since.carried.trans
    (.flight _ (Option.some { f' with stage := .parked pending, awaits, memo }))
  have busy : ∀ d, (s.graph.node d).isInFlight = (s₀.graph.node d).isInFlight := by
    intro d
    by_cases same : d = k
    · subst same
      simp [Node.isInFlight, flight', since.flight₀]
    · rw [since.others d same]
  refine .intro (.park f _ _ awaits reached entered pending log since.flight₀
    since.queued carried
    shape rfl rfl enough rfl waiters some missing within source ?_ ?_) (stamp.trans since.stamp)
    (by rw [enqueued, since.enqueued]) (since.logs.trans logs) ?_ missed
  · intro d
    rw [idle, busy]
  · rw [node, Graph.parked_congr since.others]
  · rintro ending rfl
    rcases source with none | restarted
    · simp at none
    · simp at restarted

theorem start (since : p.SinceClaim k f s₀ s [])
    (status : (s.graph.node k).status = .computing ∨ (s.graph.node k).status = .verifying)
    {f' : Flight V} (flight : (s.graph.node k).flight = some f')
    (ran : Started (fun _ => True) k f' s s') (logs : s.world.Logs s'.world []) :
    p.SinceClaim k f s₀ s' [] where
  flight₀ := since.flight₀
  queued := since.queued
  shape₀ := since.shape₀
  dated₀ := since.dated₀
  others l ne := (ran.others l ne).trans (since.others l ne)
  carried := by
    have unfinished := since.carried.unfinished since.unfinished₀
    rw [ran.self]
    exact since.carried.trans ⟨.resumed unfinished _, rfl, Nat.le_succ _⟩
  shape := by
    rw [ran.self]
    exact since.shape.started status _ _
  flight := by
    obtain ⟨f'', found, claimed, awaits, waiters⟩ := since.flight
    cases flight.symm.trans found
    exact ⟨_, congrArg Node.flight ran.self, claimed, awaits, waiters⟩
  stamp := (congrArg Control.version ran.control).trans since.stamp
  enqueued := (congrArg Control.enqueued ran.control).trans since.enqueued
  logs := since.logs.trans logs

end SinceClaim

end Pass

namespace Progress

structure SameHalt (s s' : Progress S V) : Prop where
  halted : s'.halted = s.halted
  culprit : s'.culprit = s.culprit
  abort : s'.abort = s.abort

theorem SameHalt.refl (s : Progress S V) : s.SameHalt s := ⟨rfl, rfl, rfl⟩

theorem SameHalt.trans {s s' s'' : Progress S V} (first : s.SameHalt s')
    (second : s'.SameHalt s'') :
    s.SameHalt s'' :=
  ⟨second.halted.trans first.halted, second.culprit.trans first.culprit,
    second.abort.trans first.abort⟩

theorem Yields.run_bind {α β : Type} {w : Work S V α} {f : α → Work S V β} {s s' : Progress S V}
    {a : α} (yields : Yields w s a s') : (w >>= f).run.run s = (f a).run.run s' := by
  unfold Yields at yields
  simp only [Process.run_bind, yields]

end Progress

namespace Pass

variable {p : Pass S V}

section

variable [BEq V] {k : Key} {f : Flight V} {s₀ s s' : Progress S V}

-- The work on `k`, which was claimed in `s₀`, has come to `s` without a commit, and `w` is all that
-- is left of it. Nobody commits anything once the pass is interrupted.
inductive WorkLeft (p : Pass S V) (k : Key) (f : Flight V) (s₀ s : Progress S V) :
    Work S V (List Key) → Prop
  | stay (since : p.SinceClaim k f s₀ s []) : WorkLeft p k f s₀ s (pure [])
  | lose {log : List Event} (since : p.SinceClaim k f s₀ s log)
      (source : log = [] ∨ ∃ absent, log = [.restarted k absent] ∧ absent ≠ [] ∧
        ∀ d ∈ absent, (s₀.graph.node d).isFinished = false)
      (missed : ∀ absent, log = [.restarted k absent] → p.Misses k absent) :
      WorkLeft p k f s₀ s .lost
  | giveUp (since : p.SinceClaim k f s₀ s []) (a : Abort) :
      WorkLeft p k f s₀ s (do giveUp a; return [])
  | park {log : List Event} (since : p.SinceClaim k f s₀ s log) {awaits : List Key} (memo : Memo V)
      (some : awaits ≠ []) (missing : ∀ d ∈ awaits, (s₀.graph.node d).isFinished = false)
      (source : log = [] ∧ awaits ⊆ (s₀.graph.node k).deps.flatten ∨ log = [.restarted k awaits])
      (missed : ∀ absent, log = [.restarted k absent] → p.Misses k absent)
      (status : (s.graph.node k).status = .computing ∨
        (s.graph.node k).status = .verifying ∧ memo = []) :
      WorkLeft p k f s₀ s (p.park k awaits memo)
  | confirm (since : p.SinceClaim k f s₀ s []) (live : s.world.isInterrupted p.handle = false)
      (status : (s.graph.node k).status = .verifying ∨ (s.graph.node k).status = .done) :
      WorkLeft p k f s₀ s (p.confirm k)
  | succeed (since : p.SinceClaim k f s₀ s []) (live : s.world.isInterrupted p.handle = false)
      (v : V) (deps : List Group) : WorkLeft p k f s₀ s (p.succeed k v deps)
  | fail (since : p.SinceClaim k f s₀ s []) (live : s.world.isInterrupted p.handle = false)
      (e : Failure) (cause : (∃ fault, e = .direct k fault) ∨ ∃ failures, e = .merge failures)
      (deps : List Group) : WorkLeft p k f s₀ s (p.fail k e deps)

theorem WorkLeft.after {w : Work S V (List Key)} (left : p.WorkLeft k f s₀ s w) :
    After w s (fun _ => p.WorkStep k s₀) (p.WorkStep k s₀) := by
  cases left with
  | stay since => exact (yields_pure [] s).after since.stay
  | lose since source missed => exact since.hang source missed
  | giveUp since a =>
    exact (yields_modify _ s).bind_after ((yields_pure [] _).after
      ((since.onto { s with halted := true, abort := s.abort <|> some a } rfl rfl rfl
        ((World.Logs.refl _).of_history rfl)).stay))
  | park since memo some missing source missed status =>
    exact since.park some missing source missed status
  | confirm since live status => exact since.confirm status
  | succeed since live v deps => exact since.commit (.ok v) deps
  | fail since live e cause deps => exact since.commit (.error e) deps

def ReachesWorkLeft (p : Pass S V) (k : Key) (f : Flight V) (s₀ : Progress S V)
    (w : Work S V (List Key))
    (s : Progress S V) : Prop :=
  ∃ s' w', p.WorkLeft k f s₀ s' w' ∧ s.SameHalt s' ∧ w.run.run s = w'.run.run s'

theorem WorkLeft.comes {w : Work S V (List Key)} (left : p.WorkLeft k f s₀ s w) :
    p.ReachesWorkLeft k f s₀ w s :=
  ⟨s, w, left, .refl s, rfl⟩

namespace ReachesWorkLeft

variable {α : Type} {v : Work S V α} {w : α → Work S V (List Key)}

theorem bind {a : α} (yields : Yields v s a s') (held : s.SameHalt s')
    (comes : p.ReachesWorkLeft k f s₀ (w a) s') :
    p.ReachesWorkLeft k f s₀ (v >>= w) s := by
  obtain ⟨s'', w', left, held', same⟩ := comes
  exact ⟨s'', w', left, held.trans held', yields.run_bind.trans same⟩

theorem report {w : Unit → Work S V (List Key)} (e : Event)
    (heard : p.ReachesWorkLeft k f s₀ (w ()) { s with world := s.world.record e })
    (gone : p.WorkLeft k f s₀ { s with world := s.world.record e } .lost) :
    p.ReachesWorkLeft k f s₀ (p.report e >>= w) s := by
  cases silent : p.listener (e :: s.world.history) with
  | false =>
    have told : Yields (p.report e) s () { s with world := s.world.record e } := by
      simp [Yields, run_report, silent]
    exact bind told ⟨rfl, rfl, rfl⟩ heard
  | true =>
    refine ⟨_, .lost, gone, ⟨rfl, rfl, rfl⟩, ?_⟩
    simp only [Process.run_bind, run_report, silent]
    rfl

theorem after {w : Work S V (List Key)} (comes : p.ReachesWorkLeft k f s₀ w s) :
    After w s (fun _ => p.WorkStep k s₀) (p.WorkStep k s₀) := by
  obtain ⟨s', w', left, -, same⟩ := comes
  unfold After
  rw [same]
  exact left.after

end ReachesWorkLeft

theorem conclude_comes (since : p.SinceClaim k f s₀ s []) (result : Except Fault V) (t : Trace V)
    (computing : (s.graph.node k).status = .computing)
    (absent : ∀ d ∈ t.absent, (s₀.graph.node d).isFinished = false)
    (missed : p.Misses k t.absent) : p.ReachesWorkLeft k f s₀ (p.conclude k result t) s := by
  refine .bind (yields_get s) (.refl s) ?_
  cases live : s.world.isInterrupted p.handle with
  | true =>
    rw [if_pos rfl]
    exact (WorkLeft.stay since).comes
  | false =>
    rw [if_neg (by simp)]
    by_cases complete : t.absent = []
    · rw [if_neg (by simp [complete])]
      by_cases failed : t.failures = []
      · rw [if_neg (by simp [failed])]
        cases result with
        | ok v => exact (WorkLeft.succeed since live v t.groups).comes
        | error fault =>
          exact (WorkLeft.fail since live (.direct k fault) (.inl ⟨fault, rfl⟩) t.groups).comes
      · rw [if_pos failed]
        exact (WorkLeft.fail since live (.merge t.failures) (.inr ⟨t.failures, rfl⟩) t.groups).comes
    · rw [if_pos complete]
      have told : p.SinceClaim k f s₀ { s with
          stats := { s.stats with restarts := s.stats.restarts + 1 }
          world := s.world.record (.restarted k t.absent) } [.restarted k t.absent] :=
        since.told _ (.restarted k t.absent)
      have missed' : ∀ absent, [Event.restarted k t.absent] = [.restarted k absent] →
          p.Misses k absent := by
        rintro _ ⟨⟩
        exact missed
      refine .bind (yields_count _ s) ⟨rfl, rfl, rfl⟩ (.report _ ?_ ?_)
      · exact (WorkLeft.park told t.memo complete absent (.inr rfl) missed' (.inl computing)).comes
      · exact .lose told (.inr ⟨t.absent, rfl, complete, absent⟩) missed'

theorem run_held {rule : Rule S V} {memo : Memo V}
    {a : Except Panic (Except Fault V) × Trace V} (ran : Yields (p.run k rule memo) s a s') :
    s.world.Logs s'.world [] ∧ s.SameHalt s' := by
  have logs := (rule k).run_logs ⟨k, p.version, p.handle⟩ { memo } s.world
  have same : s' = _ := congrArg Prod.snd (ran.symm.trans (p.yields_run k rule memo s))
  rw [same]
  exact ⟨logs, rfl, rfl, rfl⟩

theorem compute_comes (confined : p.rules.Confined fun _ => True) (since : p.SinceClaim k f s₀ s [])
    (live : s.world.isInterrupted p.handle = false)
    (status : (s.graph.node k).status = .computing ∨ (s.graph.node k).status = .verifying) :
    p.ReachesWorkLeft k f s₀ (p.compute k) s := by
  obtain ⟨f', flight, -⟩ := since.flight
  have unfinished := since.shape.unfinished_of_flight flight
  have first := yields_onNode k (fun n =>
    ((n.start.1, n.start.2.releaseMemo.1), n.start.2.releaseMemo.2)) s
  have started : (s.graph.node k).start.2.releaseMemo =
      (f'.memo, (s.graph.node k).resumed { f' with memo := [] }) := by
    simp [Node.releaseMemo, Node.start, Node.resumed, Node.begun, flight]
  rw [started] at first
  have ran : Started (fun _ => True) k f' s (s.withGraph
      (s.graph.put k ((s.graph.node k).resumed { f' with memo := [] }))) :=
    ⟨s.graph.node_put_self k _, fun l ne => s.graph.node_put_of_ne _ ne, trivial, fun _ h => h, rfl⟩
  have quiet : s.world.Logs (s.withGraph
      (s.graph.put k ((s.graph.node k).resumed { f' with memo := [] }))).world [] :=
    (World.Logs.refl _).of_history rfl
  have live : (s.withGraph (s.graph.put k
      ((s.graph.node k).resumed { f' with memo := [] }))).world.isInterrupted p.handle = false := live
  refine .bind first ⟨rfl, rfl, rfl⟩ ?_
  generalize s.withGraph (s.graph.put k ((s.graph.node k).resumed { f' with memo := [] })) = s₁
    at first ran quiet live
  cases found : p.rules.get? k.tag with
  | none =>
    exact (WorkLeft.fail (since.start status flight ran quiet) live (.direct k (.noRule k.tag))
      (.inl ⟨_, rfl⟩) []).comes
  | some rule =>
    have told : s.world.Logs (s₁.world.record (.computing k (s.graph.node k).start.1)) [] :=
      quiet.trans (.record s₁.world (.computing k (s.graph.node k).start.1))
    refine .bind (yields_count _ s₁) ⟨rfl, rfl, rfl⟩ (.report _ ?_ ?_)
    · have ran₁ : Started (fun _ => True) k f' s { s₁ with
          stats := { s₁.stats with invocations := s₁.stats.invocations + 1 }
          world := s₁.world.record (.computing k (s.graph.node k).start.1) } :=
        { ran with
          control := congrArg (fun c : Control S =>
            { c with told := (s₁.world.record (.computing k (s.graph.node k).start.1)).counted })
            ran.control }
      obtain ⟨result, t, s₂, ran₂, started₂, -, attempt⟩ :=
        run_yields ran₁ unfinished found (confined k rule found)
      obtain ⟨noted, held⟩ := run_held ran₂
      have since₂ := since.start status flight started₂ (told.trans noted)
      refine .bind ran₂ held ?_
      cases result with
      | error panic => exact (WorkLeft.giveUp since₂ (.panicked k panic.message)).comes
      | ok result =>
        obtain ⟨rule', found', plays⟩ := attempt.plays
        refine conclude_comes since₂ result t ?_ (fun d inside => ?_)
          ⟨rule', _, _, _, found', plays, rfl⟩
        · rw [started₂.self]
          rfl
        · rw [← since.finished]
          exact attempt.absent_unfinished since.wellFormed inside
    · have hung : p.SinceClaim k f s₀ { s₁ with
          stats := { s₁.stats with invocations := s₁.stats.invocations + 1 }
          world := s₁.world.record (.computing k (s.graph.node k).start.1) } [] :=
        (since.start status flight ran quiet).told _ (.computing k (s.graph.node k).start.1)
      exact .lose hung (.inl rfl) (by simp)

omit [BEq V] in
theorem SinceClaim.verify (since : p.SinceClaim k f s₀ s [])
    (verifying : (s.graph.node k).status = .verifying) (i : Nat) :
    ∃ m : Node V, (s.graph.node k).verifiedUpTo i = m ∧ m.status = .verifying ∧
      m.deps = (s.graph.node k).deps ∧
      p.SinceClaim k f s₀ (s.withGraph (s.graph.put k m)) [] := by
  obtain ⟨f', flight, claimed, awaits, waiters⟩ := since.flight
  have verified : (s.graph.node k).verifiedUpTo i =
      { s.graph.node k with flight := some { f' with verified := i + 1 } } := by
    simp [Node.verifiedUpTo, flight]
  have memo : f'.memo = [] := since.shape.memo f' flight (by simp [verifying])
  refine ⟨_, verified, verifying, rfl, ?_⟩
  have self := s.graph.node_put_self k
    { s.graph.node k with flight := some { f' with verified := i + 1 } }
  constructor
  case flight₀ => exact since.flight₀
  case queued => exact since.queued
  case shape₀ => exact since.shape₀
  case dated₀ => exact since.dated₀
  case others => exact fun l ne => (s.graph.node_put_of_ne _ ne).trans (since.others l ne)
  case carried => exact self.symm ▸ since.carried.trans (.flight _ _)
  case shape => exact self.symm ▸ since.shape.verified verifying memo
  case flight => exact ⟨_, congrArg Node.flight self, claimed, awaits, waiters⟩
  case stamp => exact since.stamp
  case enqueued => exact since.enqueued
  case logs => exact ⟨since.logs.later, since.logs.milestones⟩

theorem verifyGroups_comes (confined : p.rules.Confined fun _ => True) (verifiedAt i : Nat)
    {groups : List Group} (since : p.SinceClaim k f s₀ s [])
    (live : s.world.isInterrupted p.handle = false)
    (verifying : (s.graph.node k).status = .verifying)
    (recorded : groups ⊆ (s.graph.node k).deps) :
    p.ReachesWorkLeft k f s₀ (p.verifyGroups k verifiedAt i groups) s := by
  -- By recursion on the groups that are left, as in a pass without losses.
  induction groups generalizing i s with
  | nil => exact (WorkLeft.confirm since live (.inl verifying)).comes
  | cons group rest ih =>
    obtain ⟨answer, g, first, node, version, verdict⟩ := inspect_yields verifiedAt [] group s
    have inspected : p.SinceClaim k f s₀ (s.withGraph g) [] :=
      since.onto (s.withGraph g) node version rfl ((World.Logs.refl _).of_history rfl)
    refine .bind first ⟨rfl, rfl, rfl⟩ ?_
    have live₁ : (s.withGraph g).world.isInterrupted p.handle = false := live
    have node₁ : (s.withGraph g).graph.node k = s.graph.node k := congrFun node k
    generalize s.withGraph g = s₁ at first inspected live₁ node₁
    have verifying₁ : (s₁.graph.node k).status = .verifying := node₁ ▸ verifying
    have recorded₁ : group :: rest ⊆ (s₁.graph.node k).deps := node₁ ▸ recorded
    cases answer with
    | changed => exact compute_comes confined inspected live₁ (.inr verifying₁)
    | unfinished keys =>
      obtain ⟨rfl, some⟩ := verdict
      refine (WorkLeft.park inspected [] some (fun d inside => ?_) (.inl ⟨rfl, fun d inside => ?_⟩)
        (by simp) (.inr ⟨verifying₁, rfl⟩)).comes
      · rw [← since.finished]
        exact (Graph.mem_missing.mp inside).2
      · rw [← inspected.carried.result.deps]
        exact List.mem_flatten.mpr
          ⟨group, recorded₁ List.mem_cons_self, (Graph.mem_missing.mp inside).1⟩
    | unchanged =>
      obtain ⟨m, verified, still, deps, since₂⟩ := inspected.verify verifying₁ i
      refine .bind (yields_onNode k (fun n => ((), n.verifiedUpTo i)) s₁) ⟨rfl, rfl, rfl⟩ ?_
      rw [verified]
      have self₂ := s₁.graph.node_put_self k m
      refine ih (i + 1) since₂ live₁ ?_ ?_
      · exact (congrArg Node.status self₂).trans still
      · refine List.Subset.trans (List.subset_cons_self group rest) ?_
        rw [← deps] at recorded₁
        exact (congrArg Node.deps self₂).symm ▸ recorded₁

theorem work_comes (confined : p.rules.Confined fun _ => True) (k : Key) {s : Progress S V}
    (shape : s.graph.WellFormed) (dated : ∀ l, (s.graph.node l).verifiedAt ≤ p.version)
    {f : Flight V} (flight : (s.graph.node k).flight = some f) (queued : f.stage = .queued)
    (live : p.isStopped s = false) : p.ReachesWorkLeft k f s (p.work k) s := by
  have unfinished := (shape k).unfinished_of_flight flight
  have first := yields_onNode k Node.claim s
  have self := s.graph.node_put_self k (s.graph.node k).claim.2
  have since (carried : Node.Carried (s.graph.node k) (s.graph.node k).claim.2) :
      p.SinceClaim k f s (s.withGraph (s.graph.put k (s.graph.node k).claim.2)) [] := by
    constructor
    case flight₀ => exact flight
    case queued => exact queued
    case shape₀ => exact shape
    case dated₀ => exact dated
    case others => exact fun l ne => s.graph.node_put_of_ne _ ne
    case carried => exact self.symm ▸ carried
    case shape => exact self.symm ▸ (shape k).claim flight queued
    case flight =>
      exact ⟨_, (congrArg Node.flight self).trans (Node.flight_claim flight queued), rfl, rfl, rfl⟩
    case stamp => rfl
    case enqueued => rfl
    case logs => exact ⟨List.suffix_rfl, rfl⟩
  have uncut : s.world.isInterrupted p.handle = false := (Bool.or_eq_false_iff.mp live).2
  refine .bind (yields_get s) (.refl s) ?_
  rw [if_neg (by simp [live])]
  refine .bind first ⟨rfl, rfl, rfl⟩ ?_
  rcases (shape k).claim_cases flight queued with
    ⟨task, status, -⟩ | ⟨task, -⟩ | ⟨task, -⟩ <;> rw [task] at since self ⊢
  · have since := since (.flight _ _)
    refine (WorkLeft.confirm since uncut (.inr ?_)).comes
    exact (congrArg Node.status self).trans status
  · have since := since ⟨.unsettled unfinished rfl _ _, rfl, Nat.le_refl _⟩
    have verifying := congrArg Node.status self
    exact .bind (yields_get _) (.refl _) (verifyGroups_comes confined _ _ since uncut verifying
      (List.drop_subset _ _))
  · have since := since ⟨.unsettled unfinished rfl _ _, rfl, Nat.le_refl _⟩
    exact compute_comes confined since uncut (.inl (congrArg Node.status self))

end

end Pass

end Recompute
