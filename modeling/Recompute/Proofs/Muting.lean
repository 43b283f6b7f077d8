import Recompute.Proofs.Runs
import Recompute.Proofs.Work

set_option autoImplicit false

namespace Recompute

variable {S V α β : Type} {h : Handle}

def World.mute (h : Handle) (w : World S V) : World S V :=
  { w with interrupted := w.interrupted.filter (· ≠ h) }

def Computation.mute (h : Handle) : Computation S V α → Computation S V α
  | done a => done a
  | panic p => panic p
  | values keys next => values keys fun answers => (next answers).mute h
  | outcomes keys next => outcomes keys fun answers => (next answers).mute h
  | blocked next => blocked fun b => (next b).mute h
  | version next => version fun n => (next n).mute h
  | interrupted next => interrupted fun b => (next b).mute h
  | outside next => outside fun s => (next s).mute h
  | setOutside s next => setOutside s (next.mute h)
  | note text next => note text (next.mute h)
  | interrupt h' next => if h' = h then next.mute h else interrupt h' (next.mute h)
  | inject key v next => inject key v (next.mute h)
  | invalidate key next => invalidate key (next.mute h)

def Rules.mute (h : Handle) (rules : Rules S V) : Rules S V :=
  rules.map fun (tag, rule) => (tag, fun k => (rule k).mute h)

theorem Rules.get?_mute (rules : Rules S V) (tag : String) :
    Table.get? (rules.mute h) tag = (Table.get? rules tag).map fun rule k => (rule k).mute h := by
  induction rules with
  | nil => rfl
  | cons entry rest ih =>
    obtain ⟨tag', rule⟩ := entry
    simp only [mute, List.map_cons, Table.get?] at ih ⊢
    split
    · rfl
    · exact ih

theorem Computation.mute_mute (c : Computation S V α) : (c.mute h).mute h = c.mute h := by
  induction c with
  | done | panic => rfl
  | values keys next ih | outcomes keys next ih | blocked next ih | version next ih
  | interrupted next ih | outside next ih =>
    simp only [mute]
    congr 1
    exact funext ih
  | setOutside s next ih | note text next ih | inject key v next ih | invalidate key next ih =>
    simp only [mute]
    congr 1
  | interrupt h' next ih =>
    simp only [mute]
    split
    · exact ih
    · next ne => simp only [mute, if_neg ne, ih]

theorem Rules.mute_mute (rules : Rules S V) : (rules.mute h).mute h = rules.mute h := by
  unfold mute
  rw [List.map_map]
  refine List.map_congr_left fun (tag, rule) _ => ?_
  exact congrArg (Prod.mk tag) (funext fun k => (rule k).mute_mute)

namespace World

variable (w : World S V)

theorem mute_mute (h : Handle) : (w.mute h).mute h = w.mute h := by
  simp [mute, List.filter_filter]

theorem recordMarks_mute (marks : List Mark) :
    (w.mute h).recordMarks marks = (w.recordMarks marks).mute h := by
  induction marks generalizing w with
  | nil => rfl
  | cons mark rest ih => exact ih (w.record (.invalidated mark.1 mark.2))

theorem mute_interrupt_self (h : Handle) : (w.interrupt h).mute h = w.mute h := by
  unfold interrupt
  split
  · rfl
  · simp [mute]

theorem interrupt_mute {h' : Handle} (ne : h' ≠ h) :
    (w.mute h).interrupt h' = (w.interrupt h').mute h := by
  unfold interrupt mute
  by_cases inside : h' ∈ w.interrupted <;> simp [inside, ne]

theorem isInterrupted_mute {h' : Handle} (ne : h' ≠ h) :
    (w.mute h).isInterrupted h' = w.isInterrupted h' := by
  simp [isInterrupted, mute, ne]

end World

theorem Computation.run_mute [BEq V] (c : Computation S V α) (scope : Scope)
    (other : scope.handle ≠ h) (t : Trace V) (w : World S V) :
    (c.mute h).run scope t (w.mute h) =
      ((c.run scope t w).1, (c.run scope t w).2.1, (c.run scope t w).2.2.mute h) := by
  induction c generalizing t w with
  | done | panic => rfl
  | values keys next ih | outcomes keys next ih => exact ih _ _ { w with graph := _ }
  | blocked next ih | version next ih | outside next ih => exact ih _ t w
  | interrupted next ih =>
    simp only [mute, run, w.isInterrupted_mute other]
    exact ih _ t w
  | setOutside s next ih => exact ih t { w with outside := s }
  | note text next ih => exact ih t (w.record (.noted scope.key text))
  | interrupt h' next ih =>
    unfold mute
    split
    next same =>
      subst same
      rw [← w.mute_interrupt_self h']
      exact ih t (w.interrupt h')
    next ne =>
      simp only [run, w.interrupt_mute ne]
      exact ih t (w.interrupt h')
  | inject key v next ih | invalidate key next ih => exact ih t { w with graph := _ }

namespace Progress

def mute (h : Handle) (s : Progress S V) : Progress S V := { s with world := s.world.mute h }

def Mutes (h : Handle) (w w' : Work S V α) : Prop :=
  ∀ s : Progress S V, w'.run.run (s.mute h) = ((w.run.run s).1, (w.run.run s).2.mute h)

namespace Mutes

theorem pure (a : α) : Mutes h (Pure.pure a : Work S V α) (Pure.pure a) := fun _ => rfl

theorem modify {f : Progress S V → Progress S V} (same : ∀ s, f (s.mute h) = (f s).mute h) :
    Mutes h (modify f : Work S V Unit) (modify f) := by
  intro s
  exact congrArg (Prod.mk (some ())) (same s)

theorem onGraph (f : Graph V → α × Graph V) :
    Mutes h (Progress.onGraph f : Work S V α) (Progress.onGraph f) := fun _ => rfl

theorem onNode (k : Key) (t : Node V → α × Node V) :
    Mutes h (Progress.onNode k t : Work S V α) (Progress.onNode k t) := onGraph _

theorem count (f : Stats → Stats) : Mutes h (count f : Work S V Unit) (count f) := fun _ => rfl

theorem bind {w w' : Work S V α} {f f' : α → Work S V β} (first : Mutes h w w')
    (rest : ∀ a, Mutes h (f a) (f' a)) : Mutes h (w >>= f) (w' >>= f') := by
  intro s
  simp only [Process.run_bind]
  have here := first s
  rcases ran : w.run.run s with ⟨_ | a, s'⟩
  · rw [ran] at here
    rw [here]
  · rw [ran] at here
    rw [here]
    exact rest a s'

theorem get_bind {f f' : Progress S V → Work S V α} (rest : ∀ s, Mutes h (f s) (f' (s.mute h))) :
    Mutes h (get >>= f) (get >>= f') := fun s => rest s s

theorem ite {c : Prop} [Decidable c] {v v' w w' : Work S V α} (yes : Mutes h v v')
    (no : Mutes h w w') : Mutes h (if c then v else w) (if c then v' else w') := by
  split
  · exact yes
  · exact no

theorem forM {f : β → Work S V Unit} (each : ∀ b, Mutes h (f b) (f b)) (bs : List β) :
    Mutes h (bs.forM f) (bs.forM f) := by
  induction bs with
  | nil => exact .pure ()
  | cons b rest ih => exact .bind (each b) fun _ => ih

theorem signal (waiters : List Key) :
    Mutes h (Pass.signal waiters : Work S V (List Key)) (Pass.signal waiters) := by
  induction waiters with
  | nil => exact .pure []
  | cons waiter rest ih => exact .bind (.onGraph _) fun _ => .bind ih fun _ => .pure _

theorem publish (k : Key) (receipt : Receipt) (deps : List Group) :
    Mutes h (Pass.publish k receipt deps : Work S V (List Key)) (Pass.publish k receipt deps) :=
  .bind (.bind (.forM (fun _ => .onGraph _) _) fun _ => .forM (fun dep => .onNode dep _) _)
    fun _ => .signal _

theorem inspect (verifiedAt : Nat) (found : List Key) (group : Group) :
    Mutes h (Pass.inspect verifiedAt found group : Work S V Pass.Verdict)
      (Pass.inspect verifiedAt found group) := by
  induction group generalizing found with
  | nil => exact .pure _
  | cons dep rest ih => exact .bind (.onNode dep _) fun _ => .ite (ih _) (.ite (.pure _) (ih _))

theorem settle {w w' : Work S V α} (mutes : Mutes h w w') (lost : α) (s : Progress S V) :
    Progress.settle w' lost (s.mute h) =
      ((Progress.settle w lost s).1, (Progress.settle w lost s).2.mute h) := by
  simp only [Progress.settle, mutes s]
  rfl

end Mutes

end Progress

open Progress

namespace Pass

def mute (h : Handle) (p : Pass S V) : Pass S V := { p with rules := p.rules.mute h }

variable (p : Pass S V)

theorem mutes_report (e : Event) : Mutes h (p.report e) ((p.mute h).report e) := by
  intro s
  rw [run_report, run_report]
  rfl

theorem mutes_announce (k : Key) : Mutes h (p.announce k) ((p.mute h).announce k) :=
  .bind (.modify fun _ => rfl) fun _ => p.mutes_report _

theorem mutes_enqueue (k : Key) : Mutes h (p.enqueue k) ((p.mute h).enqueue k) := by
  refine .bind (.onNode k _) fun enqueued => ?_
  cases enqueued with
  | false => exact .pure _
  | true => exact .bind (p.mutes_announce k) fun _ => .pure _

theorem mutes_succeed [BEq V] (k : Key) (v : V) (deps : List Group) :
    Mutes h (p.succeed k v deps) ((p.mute h).succeed k v deps) :=
  .bind (.onNode k _) fun _ => .bind (.count _) fun _ => .bind (p.mutes_report _) fun _ =>
    .publish _ _ _

theorem mutes_fail (k : Key) (e : Failure) (deps : List Group) :
    Mutes h (p.fail k e deps) ((p.mute h).fail k e deps) :=
  .bind (.onNode k _) fun _ => .bind (.count _) fun _ => .bind (p.mutes_report _) fun _ =>
    .ite (.bind (.modify fun _ => rfl) fun _ => .publish _ _ _) (.publish _ _ _)

theorem mutes_confirm (k : Key) : Mutes h (p.confirm k) ((p.mute h).confirm k) :=
  .bind (.onNode k _) fun _ => .bind (.count _) fun _ => .bind (p.mutes_report _) fun _ => .signal _

theorem mutes_awaitOne (k dep : Key) : Mutes h (p.awaitOne k dep) ((p.mute h).awaitOne k dep) := by
  refine .bind (.onNode dep _) fun wait => ?_
  match wait with
  | .finished _ => exact .bind (.onNode k _) fun _ => .pure _
  | .waiting true => exact .bind (p.mutes_announce dep) fun _ => .pure _
  | .waiting false => exact .pure _

theorem mutes_awaitAll (k : Key) (awaits : List Key) :
    Mutes h (p.awaitAll k awaits) ((p.mute h).awaitAll k awaits) := by
  induction awaits with
  | nil => exact .pure _
  | cons dep rest ih => exact .bind (p.mutes_awaitOne k dep) fun _ => .bind ih fun _ => .pure _

theorem mutes_park (k : Key) (awaits : List Key) (memo : Memo V) :
    Mutes h (p.park k awaits memo) ((p.mute h).park k awaits memo) :=
  .bind (.onNode k _) fun _ => .bind (p.mutes_awaitAll k awaits) fun _ =>
    .bind (.onNode k _) fun _ => .ite (.pure _) (.pure _)

theorem mutes_failMembers (cycle : Cycle) (keys : List Key) :
    Mutes h (p.failMembers cycle keys) ((p.mute h).failMembers cycle keys) := by
  induction keys with
  | nil => exact .pure _
  | cons k rest ih =>
    have others (ready : List Key) : Mutes h (do return ready ++ (← p.failMembers cycle rest))
        (do return ready ++ (← (p.mute h).failMembers cycle rest)) := .bind ih fun _ => .pure _
    refine .get_bind fun s => ?_
    rw [show (s.mute h).graph = s.graph from rfl]
    dsimp only
    cases s.graph.get? k with
    | none => exact .bind (.pure _) others
    | some n => exact .ite (.bind (.pure _) others) (.bind (p.mutes_fail k _ _) others)

theorem mutes_failCycle (cycle : Cycle) : Mutes h (p.failCycle cycle) ((p.mute h).failCycle cycle) :=
  .bind (p.mutes_failMembers cycle cycle) fun _ => .pure _

theorem enqueueAll_mute (keys : List Key) (s : Progress S V) :
    (p.mute h).enqueueAll keys (s.mute h) =
      ((p.enqueueAll keys s).1, (p.enqueueAll keys s).2.mute h) := by
  induction keys generalizing s with
  | nil => rfl
  | cons root rest ih =>
    simp only [enqueueAll, (p.mutes_enqueue root).settle, ih]

theorem failCycles_mute (cycles : List Cycle) (s : Progress S V) :
    (p.mute h).failCycles cycles (s.mute h) =
      ((p.failCycles cycles s).1, (p.failCycles cycles s).2.mute h) := by
  induction cycles generalizing s with
  | nil => rfl
  | cons cycle rest ih =>
    simp only [failCycles, (p.mutes_failCycle cycle).settle, ih]

section

variable {p} (other : p.handle ≠ h)
include other

theorem isInterrupted_mute (s : Progress S V) :
    (s.mute h).world.isInterrupted (p.mute h).handle = s.world.isInterrupted p.handle :=
  s.world.isInterrupted_mute other

theorem isStopped_mute (s : Progress S V) : (p.mute h).isStopped (s.mute h) = p.isStopped s :=
  congrArg (s.halted || ·) (isInterrupted_mute other s)

theorem turn_mute (roots queue : List Key) (s : Progress S V) :
    (p.mute h).turn roots queue (s.mute h) = p.turn roots queue s := by
  unfold turn
  rw [isStopped_mute other]
  rfl

theorem evaluation_mute (roots : List Key) (s : Progress S V) :
    (p.mute h).evaluation roots (s.mute h) = p.evaluation roots s := by
  have outcome : (p.mute h).outcomeOf (s.mute h) = p.outcomeOf s := by
    funext root
    unfold outcomeOf
    rw [isInterrupted_mute other]
    rfl
  unfold evaluation
  rw [outcome]
  rfl

variable [BEq V]

theorem mutes_run (k : Key) (rule : Rule S V) (memo : Memo V) :
    Mutes h (p.run k rule memo) ((p.mute h).run k (fun k => (rule k).mute h) memo) := by
  intro s
  have same := (rule k).run_mute ⟨k, p.version, p.handle⟩ other { memo } s.world
  rw [p.yields_run, (p.mute h).yields_run]
  dsimp only [mute, Progress.mute]
  rw [same]

theorem mutes_conclude (k : Key) (result : Except Fault V) (t : Trace V) :
    Mutes h (p.conclude k result t) ((p.mute h).conclude k result t) := by
  refine .get_bind fun s => ?_
  rw [isInterrupted_mute other]
  refine .ite (.pure _) (.ite ?_ (.ite (p.mutes_fail k _ _) ?_))
  · exact .bind (.count _) fun _ => .bind (p.mutes_report _) fun _ => p.mutes_park k _ _
  · cases result with
    | ok v => exact p.mutes_succeed k v _
    | error fault => exact p.mutes_fail k _ _

theorem mutes_compute (k : Key) : Mutes h (p.compute k) ((p.mute h).compute k) := by
  refine .bind (.onNode k _) fun ⟨attempt, memo⟩ => ?_
  dsimp only
  rw [show Table.get? (p.mute h).rules k.tag = _ from p.rules.get?_mute k.tag]
  cases Table.get? p.rules k.tag with
  | none => exact p.mutes_fail k _ _
  | some rule =>
    refine .bind (.count _) fun _ => .bind (p.mutes_report _) fun _ =>
      .bind (mutes_run other k rule memo) fun (result, t) => ?_
    cases result with
    | error panic => exact .bind (.modify fun _ => rfl) fun _ => .pure _
    | ok result => exact mutes_conclude other k result t

theorem mutes_verifyGroups (k : Key) (verifiedAt i : Nat) (groups : List Group) :
    Mutes h (p.verifyGroups k verifiedAt i groups)
      ((p.mute h).verifyGroups k verifiedAt i groups) := by
  induction groups generalizing i with
  | nil => exact p.mutes_confirm k
  | cons group rest ih =>
    refine .bind (.inspect verifiedAt [] group) fun verdict => ?_
    cases verdict with
    | changed => exact mutes_compute other k
    | unfinished keys => exact p.mutes_park k keys []
    | unchanged => exact .bind (.onNode k _) fun _ => ih (i + 1)

theorem mutes_work (k : Key) : Mutes h (p.work k) ((p.mute h).work k) := by
  refine .get_bind fun s => ?_
  rw [isStopped_mute other]
  refine .ite (.pure _) (.bind (.onNode k _) fun claimed => ?_)
  match claimed with
  | some .compute => exact mutes_compute other k
  | some (.verify first) =>
    exact .get_bind fun s => mutes_verifyGroups other k _ first _
  | some .keep => exact p.mutes_confirm k
  | none => exact .pure _

theorem dispatch_mute (k : Key) (s : Progress S V) :
    (p.mute h).dispatch k (s.mute h) = ((p.dispatch k s).1, (p.dispatch k s).2.mute h) :=
  (mutes_work other k).settle [] s

theorem drain_mute (roots : List Key) (budget : Nat) (queue : List Key) (s : Progress S V) :
    (p.mute h).drain roots budget queue (s.mute h) =
      ((p.drain roots budget queue s).1, (p.drain roots budget queue s).2.mute h) := by
  induction budget generalizing queue s with
  | zero => rfl
  | succ budget ih =>
    simp only [drain, turn_mute other]
    split
    · rfl
    · rfl
    · simp only [dispatch_mute other, ih]
    · simp only [failCycles_mute, ih]

theorem complete_mute (budget : Nat) (roots : List Key) (w : World S V) :
    (p.mute h).complete budget roots (w.mute h) =
      ((p.complete budget roots w).1, (p.complete budget roots w).2.mute h) := by
  have start : (p.mute h).enqueueAll roots { world := w.mute h } = _ :=
    p.enqueueAll_mute roots { world := w }
  simp only [complete, start, drain_mute other, evaluation_mute other]
  rfl

end

end Pass

namespace Engine

inductive Call (S V : Type) where
  | evaluate (budget : Nat) (roots : List Key) (keepGoing : Bool)
  | handle
  | interrupt (h : Handle)
  | inject (values : List (Key × V))
  | invalidate (keys : List Key)
  | reset
  | outside (outside : S)
  | reorder (order : Order)

inductive Reply (V : Type) where
  | evaluated (result : Except Abort (Evaluation V))
  | handle (h : Handle)
  | marked (summary : Summary)
  | done

def call [BEq V] (e : Engine S V) : Call S V → Reply V × Engine S V
  | .evaluate budget roots keepGoing =>
    let (result, e) := e.evaluate budget roots keepGoing
    (.evaluated result, e)
  | .handle => (.handle e.current, e)
  | .interrupt h => (.done, e.interrupt h)
  | .inject values =>
    let (summary, e) := e.inject values
    (.marked summary, e)
  | .invalidate keys =>
    let (summary, e) := e.invalidate keys
    (.marked summary, e)
  | .reset => (.done, e.reset)
  | .outside outside => (.done, { e with world := { e.world with outside } })
  | .reorder order => (.done, { e with order })

def calls [BEq V] (e : Engine S V) : List (Call S V) → List (Reply V) × Engine S V
  | [] => ([], e)
  | c :: rest =>
    let (reply, e) := e.call c
    let (replies, e) := e.calls rest
    (reply :: replies, e)

def mute (h : Handle) (e : Engine S V) : Engine S V :=
  { e with rules := e.rules.mute h, world := e.world.mute h }

theorem evaluate_mute [BEq V] {e : Engine S V} (other : e.current ≠ h) (budget : Nat)
    (roots : List Key) (keepGoing : Bool) :
    (e.mute h).evaluate budget roots keepGoing =
      ((e.evaluate budget roots keepGoing).1, (e.evaluate budget roots keepGoing).2.mute h) := by
  have same : ((e.mute h).pass keepGoing).complete budget (union [] roots) (e.mute h).entry = _ :=
    Pass.complete_mute (p := e.pass keepGoing) other budget (union [] roots) e.entry
  have flag (w : World S V) : (w.mute h).isInterrupted (e.mute h).current = w.isInterrupted e.current :=
    w.isInterrupted_mute other
  rw [evaluate_eq, evaluate_eq, same, flag]
  split <;> rfl

theorem mute_mute (e : Engine S V) (h : Handle) : (e.mute h).mute h = e.mute h := by
  unfold mute
  rw [e.rules.mute_mute, e.world.mute_mute]

theorem interrupt_mute (e : Engine S V) (h : Handle) : (e.interrupt h).mute h = e.mute h := by
  unfold mute
  exact congrArg (Engine.mk _ _ _ _ · _) (e.world.mute_interrupt_self h)

-- Whether the engine or the rules interrupt through an older handle makes no difference to a call.
theorem call_mute [BEq V] {e : Engine S V} (other : e.current ≠ h) (c : Call S V) :
    ((e.mute h).call c).1 = (e.call c).1 ∧ ((e.mute h).call c).2.mute h = (e.call c).2.mute h := by
  cases c with
  | evaluate budget roots keepGoing =>
    simp only [call, evaluate_mute other, mute_mute, and_self]
  | handle => exact ⟨rfl, e.mute_mute h⟩
  | interrupt h' =>
    refine ⟨rfl, ?_⟩
    by_cases same : h' = h
    · subst same
      simp only [call, interrupt_mute, mute_mute]
    · have muted : (e.mute h).interrupt h' = (e.interrupt h').mute h :=
        congrArg (Engine.mk _ _ _ _ · _) (e.world.interrupt_mute same)
      simp only [call, muted, mute_mute]
  | inject values =>
    have muted : (e.mute h).inject values = ((e.inject values).1, (e.inject values).2.mute h) :=
      congrArg (fun w => ((e.inject values).1, Engine.mk _ _ _ _ w _))
        (World.recordMarks_mute { e.world with graph := _ } _)
    simp only [call, muted, mute_mute, and_self]
  | invalidate keys =>
    have muted : (e.mute h).invalidate keys =
        ((e.invalidate keys).1, (e.invalidate keys).2.mute h) :=
      congrArg (fun w => ((e.invalidate keys).1, Engine.mk _ _ _ _ w _))
        (World.recordMarks_mute { e.world with graph := _ } _)
    simp only [call, muted, mute_mute, and_self]
  | reset => exact ⟨rfl, mute_mute e.reset h⟩
  | outside outside => exact ⟨rfl, mute_mute { e with world := { e.world with outside } } h⟩
  | reorder order => exact ⟨rfl, mute_mute { e with order } h⟩

theorem call_congr [BEq V] {e e' : Engine S V} (same : e'.mute h = e.mute h) (other : e.current ≠ h)
    (c : Call S V) :
    (e'.call c).1 = (e.call c).1 ∧ (e'.call c).2.mute h = (e.call c).2.mute h := by
  have current : (e'.mute h).current = (e.mute h).current := congrArg Engine.current same
  have other' : e'.current ≠ h := fun at_h => other (current.symm.trans at_h)
  have muted := call_mute other c
  have muted' := call_mute other' c
  rw [same] at muted'
  exact ⟨muted'.1.symm.trans muted.1, muted'.2.symm.trans muted.2⟩

end Engine

end Recompute
