import Recompute.Overlap
import Recompute.Proofs.Quiescent
import Recompute.Proofs.FailFast
import Recompute.Proofs.Halting
import Recompute.Proofs.Muting
import Recompute.Proofs.Rollback

set_option autoImplicit false

namespace Recompute

variable {S V : Type}

open Progress
open Relation (ReflTransGen)

theorem World.isInterrupted_mono {w w' : World S V} (grows : w.interrupted ⊆ w'.interrupted)
    {h : Handle} (interrupted : w.isInterrupted h = true) : w'.isInterrupted h = true :=
  decide_eq_true (grows (of_decide_eq_true interrupted))

theorem Computation.run_flags [BEq V] {α : Type} (c : Computation S V α) (scope : Scope)
    (t : Trace V) (w : World S V) :
    (c.run scope t w).2.2.handles = w.handles ∧
      w.interrupted ⊆ (c.run scope t w).2.2.interrupted := by
  induction c generalizing t w with
  | done | panic => exact ⟨rfl, List.Subset.refl _⟩
  | values keys next ih | outcomes keys next ih => exact ih _ _ { w with graph := _ }
  | blocked next ih | version next ih | interrupted next ih | outside next ih => exact ih _ t w
  | setOutside s next ih => exact ih t { w with outside := s }
  | note text next ih => exact ih t (w.record (.noted scope.key text))
  | interrupt h next ih =>
    obtain ⟨handles, grows⟩ := ih t (w.interrupt h)
    refine ⟨handles.trans ?_, fun h' inside => grows (w.interrupted_interrupt h h' inside)⟩
    unfold World.interrupt
    split <;> rfl
  | inject key v next ih | invalidate key next ih => exact ih t { w with graph := _ }

namespace Progress

structure KeepsFlags (s s' : Progress S V) : Prop where
  handles : s'.world.handles = s.world.handles
  grows : s.world.interrupted ⊆ s'.world.interrupted

instance : Frame (KeepsFlags (S := S) (V := V)) where
  trans first second :=
    ⟨second.handles.trans first.handles, fun _ inside => second.grows (first.grows inside)⟩
  graph _ _ := ⟨rfl, List.Subset.refl _⟩

structure SameFlags (s s' : Progress S V) : Prop where
  handles : s'.world.handles = s.world.handles
  interrupted : s'.world.interrupted = s.world.interrupted

instance : Frame (SameFlags (S := S) (V := V)) where
  trans first second :=
    ⟨second.handles.trans first.handles, second.interrupted.trans first.interrupted⟩
  graph _ _ := ⟨rfl, rfl⟩

theorem SameFlags.isInterrupted {s s' : Progress S V} (same : s.SameFlags s') (h : Handle) :
    s'.world.isInterrupted h = s.world.isInterrupted h := by
  rw [World.isInterrupted, same.interrupted, World.isInterrupted]

end Progress

namespace Pass

theorem sameFlags_halts (p : Pass S V) : p.Halts SameFlags where
  toReports := .of_record fun _ _ _ _ => ⟨rfl, rfl⟩
  halt _ _ := ⟨rfl, rfl⟩

variable [BEq V] {p : Pass S V} {k : Key} {s s' : Progress S V}

def Interrupts (p : Pass S V) (k : Key) : Prop :=
  ∃ rule memo w, p.rules.get? k.tag = some rule ∧ w.isInterrupted p.handle = false ∧
    ((rule k).run ⟨k, p.version, p.handle⟩ { memo } w).2.2.isInterrupted p.handle = true

def Raised (p : Pass S V) (k : Key) (s s' : Progress S V) : Prop :=
  s.world.isInterrupted p.handle = false → s'.world.isInterrupted p.handle = true → p.Interrupts k

theorem Raised.of_same
    (same : s'.world.isInterrupted p.handle = s.world.isInterrupted p.handle) : p.Raised k s s' :=
  fun live raised => absurd (live.symm.trans (same.symm.trans raised)) Bool.false_ne_true

instance : Frame (p.Raised k) where
  trans {_ s' _} first second := by
    intro live raised
    cases between : s'.world.isInterrupted p.handle with
    | false => exact second between raised
    | true => exact first live between
  graph _ _ := .of_same rfl

theorem raised_leads (p : Pass S V) (k : Key) : p.Leads (p.Raised k) k where
  toReports := .of_record fun _ _ _ _ => .of_same rfl
  halt _ _ := .of_same rfl
  giveUp _ _ := .of_same rfl
  run rule memo found s live raised := ⟨rule, memo, s.world, found, live, raised⟩

theorem keepsFlags_leads (p : Pass S V) (k : Key) : p.Leads KeepsFlags k where
  toReports := .of_record fun _ _ _ _ => ⟨rfl, List.Subset.refl _⟩
  halt _ _ := ⟨rfl, List.Subset.refl _⟩
  giveUp _ _ := ⟨rfl, List.Subset.refl _⟩
  run rule memo _ s := by
    have flags := (rule k).run_flags ⟨k, p.version, p.handle⟩ { memo } s.world
    exact ⟨flags.1, flags.2⟩

variable {roots queue : List Key} {turn turn' : List Key × Progress S V} {w : World S V}

theorem Turned.live (turned : p.Turned roots turn turn') : p.isStopped turn.2 = false := by
  cases turned with
  | dispatch k rest turn => exact (turn_dispatch turn).1
  | unblock cycles turn => exact (turn_unblock turn).1

theorem Turned.interrupts (turned : p.Turned roots turn turn')
    (interrupted : turn'.2.world.isInterrupted p.handle = true) :
    ∃ k rest, p.turn roots turn.1 turn.2 = .dispatch k rest ∧
      turn' = (rest ++ (p.dispatch k turn.2).1, (p.dispatch k turn.2).2) ∧ p.Interrupts k := by
  have live : turn.2.world.isInterrupted p.handle = false := (Bool.or_eq_false_iff.mp turned.live).2
  cases turned with
  | @dispatch queue s k rest turn =>
    exact ⟨k, rest, turn, rfl, (p.raised_leads k).dispatch s live interrupted⟩
  | @unblock queue s cycles turn =>
    have same := (p.sameFlags_halts.failCycles cycles s).isInterrupted p.handle
    exact absurd (same ▸ interrupted) (by simp [live])

theorem Reaches.keepsFlags (reaches : p.Reaches roots w queue s) :
    KeepsFlags { world := w } s :=
  Leads.reaches p.keepsFlags_leads reaches

end Pass

def Progress.Quiet (s s' : Progress S V) : Prop := s.world.Logs s'.world []

instance : Frame (Quiet (S := S) (V := V)) where
  trans := World.Logs.trans
  graph _ _ := ⟨List.suffix_rfl, rfl⟩

structure World.Stands (w w' : World S V) : Prop where
  result : ∀ k, Node.SameResult (w.graph.node k) (w'.graph.node k)
  events : ∀ k, Event.endings (w.since w') k = []

theorem World.Stands.abandon {w : World S V} {s : Progress S V} {version : Nat} {w₀ : World S V}
    {new : List Event} (stands : w.Stands s.world) (passInv : s.PassInvariant version w₀ new) :
    w.Stands s.abandon.2.world where
  result k := by
    have node : s.abandon.2.world.graph.node k = _ := passInv.node_abandon k
    rw [node]
    exact (stands.result k).trans (passInv.shape k).sameResult_abandon
  events := stands.events

namespace Pass

variable [BEq V] {p : Pass S V} {k : Key} {s s₀ : Progress S V} {w : World S V} {new : List Event}

omit [BEq V] in
theorem quiet_announces (p : Pass S V) : p.Announces Quiet where
  announce k s := by
    change s.Quiet ((p.report (.enqueued k)).run.run _).2
    rw [run_report]
    exact .record s.world (.enqueued k)

theorem WorkLeft.quiet {f : Flight V} {w : Work S V (List Key)} (left : p.WorkLeft k f s₀ s w)
    (interrupted : (w.run.run s).2.world.isInterrupted p.handle = true) :
    ∃ log, s₀.world.Logs (w.run.run s).2.world log ∧ ∀ l, Event.endings log l = [] := by
  have live_of {w : Work S V (List Key)} (same : Runs SameFlags w)
      (live : s.world.isInterrupted p.handle = false) :
      (w.run.run s).2.world.isInterrupted p.handle = false :=
    ((same s).isInterrupted p.handle).trans live
  cases left with
  | stay since => exact ⟨[], since.logs, fun _ => rfl⟩
  | lose since source =>
    refine ⟨_, since.logs, fun l => ?_⟩
    rcases source with rfl | ⟨absent, rfl, -⟩ <;> rfl
  | giveUp since a => exact ⟨[], since.logs, fun _ => rfl⟩
  | park since memo _ _ source =>
    refine ⟨_, since.logs.trans (p.quiet_announces.park k _ memo s), fun l => ?_⟩
    rcases source with ⟨rfl, -⟩ | rfl <;> rfl
  | confirm _ live =>
    exact absurd interrupted (by simp [live_of (p.sameFlags_halts.confirm k) live])
  | succeed _ live v deps =>
    exact absurd interrupted (by simp [live_of (p.sameFlags_halts.succeed k v deps) live])
  | fail _ live e _ deps =>
    exact absurd interrupted (by simp [live_of (p.sameFlags_halts.fail k e deps) live])

theorem dispatch_stands (confined : p.rules.Confined fun _ => True)
    (passInv : s.PassInvariant p.version w new) (live : p.isStopped s = false)
    (interrupted : (p.dispatch k s).2.world.isInterrupted p.handle = true) :
    s.world.Stands (p.dispatch k s).2.world := by
  by_cases queued : InQueue s k
  · obtain ⟨effect, -, -, logs, -, -⟩ := dispatch_workStep confined passInv queued live
    obtain ⟨f, flight, queued⟩ := queued
    obtain ⟨s₁, w', left, -, same⟩ :=
      work_comes confined k passInv.shape passInv.dated flight queued live
    have final : (p.dispatch k s).2 = (w'.run.run s₁).2 := congrArg Prod.snd same
    obtain ⟨log, quiet, none⟩ := left.quiet (final ▸ interrupted)
    rw [← final] at quiet
    have spares := effect.spares passInv.shape passInv.waiterInv passInv.dated
    have events (l : Key) : Event.endings (s.world.since (p.dispatch k s).2.world) l = [] :=
      (quiet.endings l).trans (none l)
    exact ⟨fun l => spares.result l ((logs.endings l).symm.trans (events l)), events⟩
  · have live : s.world.isInterrupted p.handle = false := (Bool.or_eq_false_iff.mp live).2
    have same : (p.dispatch k s).2.world.isInterrupted p.handle = s.world.isInterrupted p.handle := by
      rcases dispatch_of_not_queued (p := p) fun f flight stage => queued ⟨f, flight, stage⟩
        with same | ensured
      · rw [same]
      · rw [ensured]
        rfl
    exact absurd (live.symm.trans (same.symm.trans interrupted)) Bool.false_ne_true

omit [BEq V] in
theorem evaluation_keys {roots : List Key}
    (reported : ∀ root ∈ roots, (p.outcomeOf s root).isSome = true) :
    (p.evaluation roots s).roots.keys = roots := by
  change ((roots.filterMap fun root => (p.outcomeOf s root).map fun o => (root, o)).map Prod.fst) = _
  induction roots with
  | nil => rfl
  | cons root rest ih =>
    obtain ⟨o, outcome⟩ := Option.isSome_iff_exists.mp (reported root List.mem_cons_self)
    have others := ih fun other inside => reported other (List.mem_cons_of_mem root inside)
    simp only [List.filterMap_cons, outcome, Option.map_some, List.map_cons, others]

theorem enqueueAll_stands {roots : List Key}
    (passInv : ({ world := w } : Progress S V).PassInvariant p.version w []) :
    w.Stands (p.enqueueAll roots { world := w }).2.world := by
  have steps : p.PassSteps (· ∈ roots) _ _ := enqueueAll_passSteps (fun _ => id) { world := w }
  obtain ⟨log, entered⟩ := steps.passInv passInv
  have quiet := p.quiet_announces.enqueueAll roots { world := w }
  exact ⟨fun l => entered.kept l ((entered.logs.endings l).symm.trans (quiet.endings l)),
    quiet.endings⟩

end Pass

namespace Engine

variable [BEq V] {e : Engine S V} {budget : Nat} {roots : List Key} {keepGoing : Bool}

section

variable (e : Engine S V) (budget : Nat) (roots : List Key) (keepGoing : Bool)

theorem evaluate_grows :
    e.world.interrupted ⊆ (e.evaluate budget roots keepGoing).2.world.interrupted := by
  obtain ⟨queue, s, evaluated⟩ := e.evaluated budget roots keepGoing
  rw [evaluated.interrupted]
  exact evaluated.reaches.keepsFlags.grows

theorem complete_handles : ((e.pass keepGoing).complete budget (union [] roots) e.entry).2.handles =
    e.world.handles := by
  obtain ⟨queue, s, reaches, world, -, -⟩ :=
    (e.pass keepGoing).complete_reaches budget (union [] roots) e.entry
  rw [world]
  exact reaches.keepsFlags.handles

end

theorem evaluate_of_interrupted
    (interrupted : (e.evaluate budget roots keepGoing).2.world.isInterrupted e.current = true) :
    (e.evaluate budget roots keepGoing).2.current = e.world.handles ∧
      (e.evaluate budget roots keepGoing).2.world.handles = e.world.handles + 1 := by
  have handles := e.complete_handles budget roots keepGoing
  rw [evaluate_eq] at interrupted ⊢
  split
  next => exact ⟨handles, congrArg Nat.succ handles⟩
  next live =>
    rw [if_neg live] at interrupted
    exact absurd interrupted live

theorem evaluate_of_live
    (live : (e.evaluate budget roots keepGoing).2.world.isInterrupted e.current = false) :
    (e.evaluate budget roots keepGoing).2.current = e.current ∧
      (e.evaluate budget roots keepGoing).2.world.handles = e.world.handles := by
  have handles := e.complete_handles budget roots keepGoing
  rw [evaluate_eq] at live ⊢
  split
  next interrupted =>
    rw [if_pos interrupted] at live
    exact absurd (live.symm.trans interrupted) Bool.false_ne_true
  next => exact ⟨rfl, handles⟩

def Newest (e : Engine S V) : Prop := e.current + 1 = e.world.handles

theorem Newest.evaluate (newest : e.Newest) (budget : Nat) (roots : List Key) (keepGoing : Bool) :
    (e.evaluate budget roots keepGoing).2.Newest ∧
      e.current ≤ (e.evaluate budget roots keepGoing).2.current := by
  unfold Newest at newest ⊢
  cases interrupted : (e.evaluate budget roots keepGoing).2.world.isInterrupted e.current with
  | true =>
    obtain ⟨current, handles⟩ := evaluate_of_interrupted interrupted
    rw [current, handles, ← newest]
    exact ⟨rfl, Nat.le_succ _⟩
  | false =>
    obtain ⟨current, handles⟩ := evaluate_of_live interrupted
    rw [current, handles]
    exact ⟨newest, Nat.le_refl _⟩

theorem Newest.call (newest : e.Newest) (c : Call S V) :
    (e.call c).2.Newest ∧ e.current ≤ (e.call c).2.current := by
  cases c with
  | evaluate budget roots keepGoing => exact newest.evaluate budget roots keepGoing
  | handle | reset | outside | reorder => exact ⟨newest, Nat.le_refl _⟩
  | interrupt h =>
    refine ⟨Eq.trans newest ?_, Nat.le_refl _⟩
    change e.world.handles = (e.world.interrupt h).handles
    unfold World.interrupt
    split <;> rfl
  | inject values =>
    obtain ⟨history, recorded⟩ : ∃ history, (e.world.inject values).2 =
        { e.world with graph := (e.world.graph.inject values).2.2, history } :=
      World.recordMarks_eq _ _
    exact ⟨Eq.trans newest (congrArg World.handles recorded).symm, Nat.le_refl _⟩
  | invalidate keys =>
    obtain ⟨history, recorded⟩ : ∃ history, (e.world.invalidate keys).2 =
        { e.world with graph := (e.world.graph.invalidate keys).2.2, history } :=
      World.recordMarks_eq _ _
    exact ⟨Eq.trans newest (congrArg World.handles recorded).symm, Nat.le_refl _⟩

theorem Newest.calls (newest : e.Newest) (cs : List (Call S V)) :
    (e.calls cs).2.Newest ∧ e.current ≤ (e.calls cs).2.current := by
  induction cs generalizing e with
  | nil => exact ⟨newest, Nat.le_refl _⟩
  | cons c rest ih =>
    obtain ⟨next, later⟩ := newest.call c
    obtain ⟨last, latest⟩ := ih next
    exact ⟨last, later.trans latest⟩

theorem Reachable.newest {rules : Rules S V} {listener : Listener}
    (reachable : Reachable rules listener e) : e.Newest := by
  induction reachable with
  | new => rfl
  | evaluate budget roots keepGoing _ ih => exact (ih.call (.evaluate budget roots keepGoing)).1
  | interrupt h _ ih => exact (ih.call (.interrupt h)).1
  | inject values _ ih => exact (ih.call (.inject values)).1
  | invalidate keys _ ih => exact (ih.call (.invalidate keys)).1
  | reset _ ih => exact (ih.call .reset).1
  | outside outside _ ih => exact (ih.call (.outside outside)).1
  | reorder order _ ih => exact (ih.call (.reorder order)).1

theorem Newest.calls_congr {e' : Engine S V} {h : Handle} (newest : e.Newest) (older : h < e.current)
    (same : e'.mute h = e.mute h) (cs : List (Call S V)) :
    (e'.calls cs).1 = (e.calls cs).1 ∧ (e'.calls cs).2.mute h = (e.calls cs).2.mute h := by
  induction cs generalizing e e' with
  | nil => exact ⟨rfl, same⟩
  | cons c rest ih =>
    obtain ⟨reply, next⟩ := call_congr same (Nat.ne_of_gt older) c
    obtain ⟨newest', later⟩ := newest.call c
    obtain ⟨replies, last⟩ := ih newest' (Nat.lt_of_lt_of_le older later) next
    exact ⟨congrArg₂ List.cons reply replies, last⟩

structure Raises (e : Engine S V) (roots : List Key) (keepGoing : Bool)
    (result : Except Abort (Evaluation V)) (e' : Engine S V) (k : Key) (s : Progress S V) :
    Prop where
  interrupts : (e.pass keepGoing).Interrupts k
  live : s.world.isInterrupted e.current = false
  last : ∃ queue rest, (e.pass keepGoing).Reaches (union [] roots) e.entry queue s ∧
    (e.pass keepGoing).turn (union [] roots) queue s = .dispatch k rest ∧
    e.Evaluated roots keepGoing result e' (rest ++ ((e.pass keepGoing).dispatch k s).1)
      ((e.pass keepGoing).dispatch k s).2
  interrupted : ((e.pass keepGoing).dispatch k s).2.world.isInterrupted e.current = true

section

variable {result : Except Abort (Evaluation V)} {e' : Engine S V} {queue : List Key} {k : Key}
  {s : Progress S V} {w : World S V} {new : List Event}

theorem Evaluated.isInterrupted (evaluated : e.Evaluated roots keepGoing result e' queue s)
    (h : Handle) : e'.world.isInterrupted h = s.world.isInterrupted h := by
  rw [World.isInterrupted, evaluated.interrupted, World.isInterrupted]

theorem Evaluated.cases_interrupted (evaluated : e.Evaluated roots keepGoing result e' queue s)
    (interrupted : e'.world.isInterrupted e.current = true) :
    e.world.isInterrupted e.current = true ∧
        s = ((e.pass keepGoing).enqueueAll (union [] roots) { world := e.entry }).2 ∨
      ∃ k s, e.Raises roots keepGoing result e' k s := by
  have ended : s.world.isInterrupted e.current = true := by
    rwa [← evaluated.isInterrupted]
  rcases ReflTransGen.cases_tail evaluated.reaches with same | ⟨turn, reaches, turned⟩
  · have same : s = _ := congrArg Prod.snd same
    have entered := (e.pass keepGoing).sameFlags_halts.enqueueAll (union [] roots) { world := e.entry }
    rw [same, entered.isInterrupted] at ended
    exact .inl ⟨ended, same⟩
  · obtain ⟨k, rest, next, same, interrupts⟩ := turned.interrupts ended
    obtain ⟨rfl, rfl⟩ := Prod.mk.inj same
    exact .inr ⟨k, turn.2, interrupts, (Bool.or_eq_false_iff.mp turned.live).2,
      ⟨turn.1, rest, reaches, next, evaluated⟩, ended⟩

theorem Evaluated.ends (evaluated : e.Evaluated roots keepGoing result e' queue s)
    (inTime : result ≠ .error .exhausted) (turn : List Key × Progress S V) :
    ¬(e.pass keepGoing).Turned (union [] roots) (queue, s) turn := by
  intro turned
  cases result with
  | ok ev => exact turned.not_stop (evaluated.ok ev rfl).2.1
  | error a =>
    rcases evaluated.error a rfl with aborted | rfl | ⟨keys, -, stalled⟩
    · have halted : s.halted = true :=
        (Pass.Leads.reaches (Pass.staysHalted_leads _) evaluated.reaches).abort (by simp [aborted])
      exact turned.not_stop (Pass.turn_of_halted halted)
    · exact inTime rfl
    · cases turned with
      | dispatch k rest next => cases stalled.symm.trans next
      | unblock cycles next => cases stalled.symm.trans next

theorem Evaluated.raises (evaluated : e.Evaluated roots keepGoing result e' queue s)
    (inTime : result ≠ .error .exhausted) {queue₀ rest : List Key} {s₀ : Progress S V}
    (reaches : (e.pass keepGoing).Reaches (union [] roots) e.entry queue₀ s₀)
    (turn : (e.pass keepGoing).turn (union [] roots) queue₀ s₀ = .dispatch k rest)
    (interrupted : ((e.pass keepGoing).dispatch k s₀).2.world.isInterrupted e.current = true) :
    e.Raises roots keepGoing result e' k s₀ := by
  have next := reaches.dispatch k rest turn
  have stopped : ∀ turn, ¬(e.pass keepGoing).Turned (union [] roots)
      (rest ++ ((e.pass keepGoing).dispatch k s₀).1, ((e.pass keepGoing).dispatch k s₀).2) turn := by
    intro turn turned
    exact absurd ((Bool.or_eq_false_iff.mp turned.live).2.symm.trans interrupted) Bool.false_ne_true
  obtain ⟨rfl, rfl⟩ := evaluated.reaches.last (evaluated.ends inTime) next stopped
  have live : s₀.world.isInterrupted e.current = false :=
    (Bool.or_eq_false_iff.mp (Pass.turn_dispatch turn).1).2
  exact ⟨((e.pass keepGoing).raised_leads k).dispatch s₀ live interrupted, live,
    ⟨queue₀, rest, reaches, turn, evaluated⟩, interrupted⟩

theorem Evaluated.stands (evaluated : e.Evaluated roots keepGoing result e' queue s)
    (passInv : s.PassInvariant (e.pass keepGoing).version e.entry new) (stands : w.Stands s.world) :
    w.Stands e'.world where
  result k := by
    rw [evaluated.graph]
    exact (stands.abandon passInv).result k
  events k := by
    have same : w.since e'.world = w.since s.world := by simp only [World.since, evaluated.history]
    rw [same]
    exact stands.events k

theorem Raises.isInterrupted (raises : e.Raises roots keepGoing result e' k s) :
    e'.world.isInterrupted e.current = true := by
  obtain ⟨queue, rest, -, -, evaluated⟩ := raises.last
  rw [evaluated.isInterrupted]
  exact raises.interrupted

theorem Raises.stands (raises : e.Raises roots keepGoing result e' k s)
    (confined : (e.pass keepGoing).rules.Confined fun _ => True)
    (quiescent : e.world.graph.Quiescent e.world.graph.version) : s.world.Stands e'.world := by
  have start := Quiescent.passInv quiescent keepGoing
  obtain ⟨queue, rest, reaches, turn, evaluated⟩ := raises.last
  obtain ⟨new, passInv⟩ := (reaches.passSteps confined start).passInv start
  obtain ⟨new', ended⟩ := (evaluated.reaches.passSteps confined start).passInv start
  exact evaluated.stands ended
    (Pass.dispatch_stands confined passInv (Pass.turn_dispatch turn).1 raises.interrupted)

theorem Evaluated.stands_of_before (evaluated : e.Evaluated roots keepGoing result e' queue s)
    (confined : (e.pass keepGoing).rules.Confined fun _ => True)
    (quiescent : e.world.graph.Quiescent e.world.graph.version)
    (grows : e.world.interrupted ⊆ e'.world.interrupted)
    (before : e.world.isInterrupted e.current = true) : e.world.Stands e'.world := by
  have start := Quiescent.passInv quiescent keepGoing
  rcases evaluated.cases_interrupted (World.isInterrupted_mono grows before) with
    ⟨-, same⟩ | ⟨k, s, raises⟩
  · obtain ⟨new, ended⟩ := (evaluated.reaches.passSteps confined start).passInv start
    have entered : e.entry.Stands s.world := same ▸ Pass.enqueueAll_stands start
    have stands := evaluated.stands ended entered
    exact ⟨stands.result, stands.events⟩
  · obtain ⟨queue, rest, reaches, -, -⟩ := raises.last
    have still := World.isInterrupted_mono reaches.keepsFlags.grows before
    exact absurd (raises.live.symm.trans still) Bool.false_ne_true

theorem Evaluated.reported (evaluated : e.Evaluated roots keepGoing result e' queue s)
    (passInv : s.PassInvariant (e.pass keepGoing).version e.entry new)
    (interrupted : e'.world.isInterrupted e.current = true) {ev : Evaluation V}
    (ok : result = .ok ev) :
    ev.roots.keys = union [] roots ∧
      ∀ root ∈ roots,
        ev.get? root = some ((e'.world.graph.node root).outcome?.getD (.error .interrupted)) := by
  obtain ⟨-, -, rfl⟩ := evaluated.ok ev ok
  have ended : s.world.isInterrupted e.current = true := by
    rwa [← evaluated.isInterrupted]
  have outcome (root : Key) : (e.pass keepGoing).outcomeOf s root =
      some ((s.graph.node root).outcome?.getD (.error .interrupted)) := by
    unfold Pass.outcomeOf
    rw [Graph.outcome?_eq]
    cases (s.graph.node root).outcome? with
    | none => exact if_pos ended
    | some o => rfl
  constructor
  · exact Pass.evaluation_keys fun root _ => by simp [outcome]
  · intro root inside
    have kept : ((e'.world.graph.node root).outcome?) = (s.graph.node root).outcome? := by
      rw [evaluated.graph, passInv.node_abandon]
      exact (passInv.shape root).sameResult_abandon.outcome?
    rw [Pass.evaluation_get?, if_pos ((mem_union [] roots root).mpr (.inr inside)), outcome, kept]

end

theorem current_ne_iff (newest : e.Newest) (budget : Nat) (roots : List Key) (keepGoing : Bool) :
    (e.evaluate budget roots keepGoing).2.current ≠ e.current ↔
      (e.evaluate budget roots keepGoing).2.world.isInterrupted e.current = true := by
  cases interrupted : (e.evaluate budget roots keepGoing).2.world.isInterrupted e.current with
  | true =>
    rw [(evaluate_of_interrupted interrupted).1, ← newest]
    simp
  | false => simp [(evaluate_of_live interrupted).1]

-- What interrupts do to an evaluation of `e`, which comes to `result` and leaves `e'`, and what
-- they do not do. A pass was interrupted if its handle is not current any more.
structure Interruption (e : Engine S V) (roots : List Key) (keepGoing : Bool)
    (result : Except Abort (Evaluation V)) (e' : Engine S V) : Prop where
  interrupted_iff : e'.current ≠ e.current ↔
    e.world.isInterrupted e.current = true ∨ ∃ k s, e.Raises roots keepGoing result e' k s
  last : result ≠ .error .exhausted → ∀ queue s k rest,
    (e.pass keepGoing).Reaches (union [] roots) e.entry queue s →
    (e.pass keepGoing).turn (union [] roots) queue s = .dispatch k rest →
    ((e.pass keepGoing).dispatch k s).2.world.isInterrupted e.current = true →
      e.Raises roots keepGoing result e' k s
  fresh : e'.current ≠ e.current → e'.current = e.world.handles
  once : e'.current ≠ e.current → ∀ cs : List (Call S V), (e'.calls cs).2.current ≠ e.current
  ready : (∀ h ∈ e'.world.interrupted, h < e.world.handles) →
    e'.world.isInterrupted e'.current = false
  older : ∀ h < e.world.handles, h ≠ e.current → ∀ e₁ ∈ [e.interrupt h, e.mute h],
    ∀ cs : List (Call S V),
      (e₁.calls cs).1 = (e.calls cs).1 ∧ (e₁.calls cs).2.mute h = (e.calls cs).2.mute h
  before : e.world.isInterrupted e.current = true → e.world.Stands e'.world
  during : ∀ k s, e.Raises roots keepGoing result e' k s → s.world.Stands e'.world
  keys : ∀ ev, result = .ok ev → e'.current ≠ e.current → ev.roots.keys = union [] roots
  finished : ∀ ev, result = .ok ev → e'.current ≠ e.current → ∀ root ∈ roots,
    (e'.world.graph.node root).isFinished = true →
      ∃ o, (e'.world.graph.node root).outcome? = some o ∧ ev.get? root = some o
  unfinished : ∀ ev, result = .ok ev → e'.current ≠ e.current → ∀ root ∈ roots,
    (e'.world.graph.node root).isFinished = false → ev.get? root = some (.error .interrupted)

-- Whatever the engine went through, interrupting a handle stops the pass that has it, and no other
-- one.
theorem Reachable.interrupts_stop_one_pass {rules : Rules S V} {listener : Listener}
    (reachable : Reachable rules listener e) (confined : rules.Confined fun _ => True)
    (budget : Nat) (roots : List Key) (keepGoing : Bool) :
    e.Interruption roots keepGoing (e.evaluate budget roots keepGoing).1
      (e.evaluate budget roots keepGoing).2 := by
  have newest := reachable.newest
  have quiescent := reachable.quiescent confined
  have confined := reachable.confined_pass confined keepGoing
  have changed := current_ne_iff newest budget roots keepGoing
  have grows := e.evaluate_grows budget roots keepGoing
  have start := Quiescent.passInv quiescent keepGoing
  obtain ⟨queue, s, evaluated⟩ := e.evaluated budget roots keepGoing
  obtain ⟨new, passInv⟩ := (evaluated.reaches.passSteps confined start).passInv start
  constructor
  case interrupted_iff =>
    refine changed.trans ⟨fun interrupted => ?_, ?_⟩
    · exact (evaluated.cases_interrupted interrupted).imp_left And.left
    · rintro (before | ⟨k, s, raises⟩)
      · exact World.isInterrupted_mono grows before
      · exact raises.isInterrupted
  case last => exact fun inTime _ _ _ _ => evaluated.raises inTime
  case fresh => exact fun renewed => (evaluate_of_interrupted (changed.mp renewed)).1
  case once =>
    intro renewed cs same
    obtain ⟨newest', -⟩ := newest.evaluate budget roots keepGoing
    have later := (newest'.calls cs).2
    rw [same, (evaluate_of_interrupted (changed.mp renewed)).1, ← newest] at later
    exact Nat.not_succ_le_self _ later
  case ready =>
    intro issued
    cases interrupted : (e.evaluate budget roots keepGoing).2.world.isInterrupted e.current with
    | true =>
      rw [(evaluate_of_interrupted interrupted).1]
      exact decide_eq_false fun inside => Nat.lt_irrefl _ (issued _ inside)
    | false =>
      rw [(evaluate_of_live interrupted).1]
      exact interrupted
  case older =>
    intro h handed other e₁ among cs
    rw [← newest] at handed
    have older : h < e.current := Nat.lt_of_le_of_ne (Nat.le_of_lt_succ handed) other
    have same : e₁.mute h = e.mute h := by
      rcases List.mem_pair.mp among with rfl | rfl
      · exact e.interrupt_mute h
      · exact e.mute_mute h
    exact newest.calls_congr older same cs
  case before => exact evaluated.stands_of_before confined quiescent grows
  case during => exact fun k s raises => raises.stands confined quiescent
  case keys => exact fun ev ok renewed => (evaluated.reported passInv (changed.mp renewed) ok).1
  case finished =>
    intro ev ok renewed root inside finished
    have shape : ((e.evaluate budget roots keepGoing).2.world.graph.node root).WellFormed := by
      rw [evaluated.graph]
      exact passInv.abandon.shape root
    obtain ⟨o, outcome⟩ := Option.isSome_iff_exists.mp (shape.outcome?_isSome.trans finished)
    refine ⟨o, outcome, ?_⟩
    rw [(evaluated.reported passInv (changed.mp renewed) ok).2 root inside, outcome]
    rfl
  case unfinished =>
    intro ev ok renewed root inside unfinished
    rw [(evaluated.reported passInv (changed.mp renewed) ok).2 root inside,
      Node.outcome?_eq_none unfinished]
    rfl

end Engine

def Rules.tripping : Rules Unit Nat :=
  [("gather", fun _ => Computation.need (.only "trigger")),
    ("trigger", fun _ => .interrupt 0 (.done (.ok 0)))]

theorem Rules.confined_tripping (good : Unit → Prop) : Rules.tripping.Confined good :=
  forall_cons (fun _ _ => Computation.confined_need _)
    (forall_cons (fun _ _ => .silent trivial fun _ same => same ▸ .done _) forall_nil)

namespace Engine

def tripping : Engine Unit Nat := new Rules.tripping .steady ()

theorem interrupts_stop_one_pass_tripping :
    (tripping.evaluate 20 [.only "gather"] true).2.current ≠ tripping.current ∧
      (∃ k s, tripping.Raises [.only "gather"] true (tripping.evaluate 20 [.only "gather"] true).1
        (tripping.evaluate 20 [.only "gather"] true).2 k s ∧
        s.world.Stands (tripping.evaluate 20 [.only "gather"] true).2.world) ∧
      ∃ ev, (tripping.evaluate 20 [.only "gather"] true).1 = .ok ev ∧
        ev.get? (.only "gather") = some (.error .interrupted) := by
  have reachable : Reachable Rules.tripping .steady tripping := .new ()
  have interruption :=
    reachable.interrupts_stop_one_pass (Rules.confined_tripping _) 20 [.only "gather"] true
  have renewed : (tripping.evaluate 20 [.only "gather"] true).2.current ≠ tripping.current := by
    decide +kernel
  have live : tripping.world.isInterrupted tripping.current = false := by decide +kernel
  have unfinished : ((tripping.evaluate 20 [.only "gather"] true).2.world.graph.node
      (.only "gather")).isFinished = false := by
    decide +kernel
  obtain ⟨k, s, raises⟩ := (interruption.interrupted_iff.mp renewed).resolve_left (by simp [live])
  refine ⟨renewed, ⟨k, s, raises, interruption.during k s raises⟩, ?_⟩
  cases ok : (tripping.evaluate 20 [.only "gather"] true).1 with
  | error abort =>
    have succeeds : (tripping.evaluate 20 [.only "gather"] true).1.toOption.isSome = true := by
      decide +kernel
    rw [ok] at succeeds
    cases succeeds
  | ok ev =>
    exact ⟨ev, rfl, interruption.unfinished ev ok renewed _ List.mem_cons_self unfinished⟩

end Engine

def Rules.racing : Rules Unit Nat :=
  [("calm", fun _ => .done (.ok 1)), ("trigger", fun _ => .interrupt 0 (.done (.ok 0)))]

namespace Engine

def racing : Engine Unit Nat := new Rules.racing .steady ()

open Crew.Move in
-- With two workers, `calm` is past its last check when `trigger` interrupts the pass, and commits.
theorem commits_after_interrupt_racing :
    let calm : Key := .only "calm"
    let trigger : Key := .only "trigger"
    let overlaps := (racing.pass true).Overlaps { workers := some 2 } [calm, trigger]
    ∃ c c' ev, ReflTransGen overlaps (racing.crew [calm, trigger] true) c ∧
      ReflTransGen overlaps c c' ∧ c.state.world.isInterrupted racing.current = true ∧
      (c.state.graph.node calm).isFinished = false ∧ (c'.state.graph.node calm).isFinished = true ∧
      (racing.pass true).evaluation? [calm, trigger] c' = some ev ∧ ev.get? calm = some (.ok 1) ∧
      ev.get? trigger = some (.error .interrupted) := by
  intro calm trigger overlaps
  let before := [take 0, take 0] ++ List.replicate 6 (proceed 0) ++ List.replicate 6 (proceed 1)
  let after := List.replicate 6 (proceed 0)
  have played : ((racing.pass true).play { workers := some 2 } before
      (racing.crew [calm, trigger] true)).any (fun c =>
        c.state.world.isInterrupted racing.current && !(c.state.graph.node calm).isFinished &&
        ((racing.pass true).play { workers := some 2 } after c).any fun c' =>
          (c'.state.graph.node calm).isFinished &&
          ((racing.pass true).evaluation? [calm, trigger] c').any fun ev =>
            ev.get? calm = some (.ok 1) && ev.get? trigger = some (.error .interrupted)) = true := by
    decide +kernel
  simp only [Option.any_eq_true, Bool.and_eq_true, Bool.not_eq_true', decide_eq_true_eq] at played
  obtain ⟨c, first, ⟨interrupted, unfinished⟩, c', last, finished, ev, reported, committed, cut⟩ :=
    played
  exact ⟨c, c', ev, Pass.overlaps_of_play first, Pass.overlaps_of_play last, interrupted, unfinished,
    finished, reported, committed, cut⟩

end Engine

end Recompute
