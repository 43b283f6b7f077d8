import Recompute.Evaluation
import Recompute.Proofs.After

set_option autoImplicit false

namespace Recompute

variable {S V α β : Type}

def Stats.tell (s : Stats) : Event → Stats
  | .computing .. => { s with invocations := s.invocations + 1 }
  | .restarted .. => { s with restarts := s.restarts + 1 }
  | .evaluated _ (.built changed) =>
    { s with built := s.built + 1
             unchanged := if changed then s.unchanged else s.unchanged + 1 }
  | .evaluated _ .verified => { s with verified := s.verified + 1 }
  | .evaluated _ (.failed _) => { s with errors := s.errors + 1 }
  | .enqueued .. | .invalidated .. | .noted .. => s

def Event.entered (events : List Event) : List Key :=
  events.filterMap fun
    | enqueued k => some k
    | _ => none

namespace Progress

-- A relation between the states before and after some work, kept by whatever does no more than
-- change the graph.
class Frame (r : Progress S V → Progress S V → Prop) : Prop where
  trans {s s' s'' : Progress S V} : r s s' → r s' s'' → r s s''
  graph (s : Progress S V) (g : Graph V) : r s (s.withGraph g)

def Runs (r : Progress S V → Progress S V → Prop) (w : Work S V α) : Prop :=
  ∀ s : Progress S V, r s (w.run.run s).2

namespace Runs

variable {r : Progress S V → Progress S V → Prop} {w : Work S V α}

theorem of_yields (runs : Runs r w) {s s' : Progress S V} {a : α} (yields : Yields w s a s') :
    r s s' := by
  have ran := runs s
  rw [show w.run.run s = (some a, s') from yields] at ran
  exact ran

theorem ite {c : Prop} [Decidable c] {w w' : Work S V α} (yes : Runs r w) (no : Runs r w') :
    Runs r (if c then w else w') := by
  split
  · exact yes
  · exact no

theorem after (runs : Runs r w) (s : Progress S V) : After w s (fun _ => r s) (r s) := by
  have here := runs s
  unfold After
  rcases ran : w.run.run s with ⟨_ | a, s'⟩
  · rw [ran] at here
    exact here
  · rw [ran] at here
    exact here

variable [Frame r]

theorem pure (a : α) : Runs r (Pure.pure a : Work S V α) := fun s => Frame.graph s s.graph

theorem get : Runs r (MonadState.get : Work S V (Progress S V)) := fun s => Frame.graph s s.graph

theorem onGraph (f : Graph V → α × Graph V) : Runs r (Progress.onGraph f : Work S V α) :=
  fun s => Frame.graph s (f s.graph).2

theorem onNode (k : Key) (t : Node V → α × Node V) : Runs r (Progress.onNode k t : Work S V α) :=
  onGraph _

theorem bind {f : α → Work S V β} (first : Runs r w) (rest : ∀ a, Runs r (f a)) :
    Runs r (w >>= f) := by
  intro s
  have here := first s
  simp only [Process.run_bind]
  rcases ran : w.run.run s with ⟨_ | a, s'⟩
  · rw [ran] at here
    exact here
  · rw [ran] at here
    exact Frame.trans here (rest a s')

theorem forM {f : β → Work S V Unit} (each : ∀ b, Runs r (f b)) (bs : List β) :
    Runs r (bs.forM f) := by
  induction bs with
  | nil => exact .pure ()
  | cons b rest ih => exact .bind (each b) fun _ => ih

theorem signal (waiters : List Key) : Runs r (Pass.signal waiters : Work S V (List Key)) := by
  induction waiters with
  | nil => exact .pure []
  | cons waiter rest ih => exact .bind (.onGraph _) fun _ => .bind ih fun _ => .pure _

theorem publish (k : Key) (receipt : Receipt) (deps : List Group) :
    Runs r (Pass.publish k receipt deps : Work S V (List Key)) :=
  .bind (.bind (.forM (fun _ => .onGraph _) _) fun _ => .forM (fun dep => .onNode dep _) _)
    fun _ => .signal _

theorem inspect (verifiedAt : Nat) (found : List Key) (group : Group) :
    Runs r (Pass.inspect verifiedAt found group : Work S V Pass.Verdict) := by
  induction group generalizing found with
  | nil => exact .pure _
  | cons dep rest ih => exact .bind (.onNode dep _) fun _ => .ite (ih _) (.ite (.pure _) (ih _))

end Runs

end Progress

open Progress

namespace Pass

variable (p : Pass S V) (r : Progress S V → Progress S V → Prop)

structure Announces : Prop where
  announce : ∀ k, Runs r (p.announce k)

structure Reports : Prop extends p.Announces r where
  counted : ∀ f e, (∀ s : Stats, f s = s.tell e) → Event.entered [e] = [] →
    Runs r (do count f; p.report e)

structure Halts : Prop extends p.Reports r where
  halt : ∀ k, Runs r (haltAt k : Work S V Unit)

structure Leads [BEq V] (k : Key) : Prop extends p.Halts r where
  giveUp : ∀ a, Runs r (giveUp a : Work S V Unit)
  run : ∀ rule memo, p.rules.get? k.tag = some rule → ∀ s : Progress S V,
    r s { s with world := ((rule k).run ⟨k, p.version, p.handle⟩ { memo } s.world).2.2 }

variable {p r} [Frame r]

namespace Announces

theorem enqueue (announces : p.Announces r) (k : Key) : Runs r (p.enqueue k) := by
  refine .bind (.onNode k _) fun enqueued => ?_
  cases enqueued with
  | false => exact .pure _
  | true => exact .bind (announces.announce k) fun _ => .pure _

theorem awaitOne (announces : p.Announces r) (k dep : Key) : Runs r (p.awaitOne k dep) := by
  refine .bind (.onNode dep _) fun wait => ?_
  match wait with
  | .finished _ => exact .bind (.onNode k _) fun _ => .pure _
  | .waiting true => exact .bind (announces.announce dep) fun _ => .pure _
  | .waiting false => exact .pure _

theorem awaitAll (announces : p.Announces r) (k : Key) (awaits : List Key) :
    Runs r (p.awaitAll k awaits) := by
  induction awaits with
  | nil => exact .pure _
  | cons dep rest ih => exact .bind (announces.awaitOne k dep) fun _ => .bind ih fun _ => .pure _

theorem park (announces : p.Announces r) (k : Key) (awaits : List Key) (memo : Memo V) :
    Runs r (p.park k awaits memo) :=
  .bind (.onNode k _) fun _ => .bind (announces.awaitAll k awaits) fun _ =>
    .bind (.onNode k _) fun _ => .ite (.pure _) (.pure _)

theorem enqueueAll (announces : p.Announces r) (keys : List Key) (s : Progress S V) :
    r s (p.enqueueAll keys s).2 := by
  induction keys generalizing s with
  | nil => exact Frame.graph s s.graph
  | cons k rest ih => exact Frame.trans (announces.enqueue k s) (ih _)

end Announces

namespace Reports

omit [Frame r] in
theorem of_record (record : ∀ (s : Progress S V) (e : Event) (stats : Stats) (enqueued : List Key),
    r s { s with stats, enqueued, world := s.world.record e }) : p.Reports r where
  announce k s := by
    change r s ((p.report (.enqueued k)).run.run _).2
    rw [run_report]
    exact record s (.enqueued k) s.stats (s.enqueued ++ [k])
  counted f e _ _ s := by
    change r s ((p.report e).run.run _).2
    rw [run_report]
    exact record s e (f s.stats) s.enqueued

theorem counted_bind (reports : p.Reports r) {f : Stats → Stats} {e : Event}
    (tells : ∀ s : Stats, f s = s.tell e) (quiet : Event.entered [e] = [])
    {w : Unit → Work S V α} (rest : ∀ u, Runs r (w u)) :
    Runs r (count f >>= fun _ => p.report e >>= w) := by
  have assoc : (count f >>= fun _ => p.report e >>= w) = (count f >>= fun _ => p.report e) >>= w :=
    (bind_assoc ..).symm
  rw [assoc]
  exact (reports.counted f e tells quiet).bind rest

theorem succeed [BEq V] (reports : p.Reports r) (k : Key) (v : V) (deps : List Group) :
    Runs r (p.succeed k v deps) :=
  .bind (.onNode k _) fun _ => reports.counted_bind (fun _ => rfl) rfl fun _ => .publish _ _ _

theorem confirm (reports : p.Reports r) (k : Key) : Runs r (p.confirm k) :=
  .bind (.onNode k _) fun _ => reports.counted_bind (fun _ => rfl) rfl fun _ => .signal _

end Reports

namespace Halts

theorem fail (halts : p.Halts r) (k : Key) (e : Failure) (deps : List Group) :
    Runs r (p.fail k e deps) :=
  .bind (.onNode k _) fun _ => halts.counted_bind (fun _ => rfl) rfl fun _ =>
    .ite (.bind (halts.halt k) fun _ => .publish _ _ _) (.publish _ _ _)

theorem failMembers (halts : p.Halts r) (cycle : Cycle) (keys : List Key) :
    Runs r (p.failMembers cycle keys) := by
  induction keys with
  | nil => exact .pure _
  | cons k rest ih =>
    have others (ready : List Key) : Runs r (do return ready ++ (← p.failMembers cycle rest)) :=
      .bind ih fun _ => .pure _
    refine .bind .get fun s => ?_
    dsimp only
    cases s.graph.get? k with
    | none => exact .bind (.pure _) others
    | some n => exact .ite (.bind (.pure _) others) (.bind (halts.fail k _ _) others)

theorem failCycle (halts : p.Halts r) (cycle : Cycle) : Runs r (p.failCycle cycle) :=
  .bind (halts.failMembers cycle cycle) fun _ => .pure _

theorem failCycles (halts : p.Halts r) (cycles : List Cycle) (s : Progress S V) :
    r s (p.failCycles cycles s).2 := by
  induction cycles generalizing s with
  | nil => exact Frame.graph s s.graph
  | cons cycle rest ih => exact Frame.trans (halts.failCycle cycle s) (ih _)

end Halts

namespace Leads

variable [BEq V] {k : Key}

theorem conclude (leads : p.Leads r k) (result : Except Fault V) (t : Trace V) :
    Runs r (p.conclude k result t) := by
  refine .bind .get fun s => .ite (.pure _) (.ite ?_ (.ite (leads.fail k _ _) ?_))
  · exact leads.counted_bind (fun _ => rfl) rfl fun _ => leads.park k _ _
  · cases result with
    | ok v => exact leads.succeed k v _
    | error fault => exact leads.fail k _ _

theorem compute (leads : p.Leads r k) : Runs r (p.compute k) := by
  refine .bind (.onNode k _) fun (attempt, memo) => ?_
  dsimp only
  cases found : p.rules.get? k.tag with
  | none => exact leads.fail k _ _
  | some rule =>
    have runs : Runs r (p.run k rule memo) := by
      intro s
      rw [p.yields_run]
      exact leads.run rule memo found s
    refine leads.counted_bind (fun _ => rfl) rfl fun _ => .bind runs fun ran => ?_
    match ran with
    | (.error panic, _) => exact .bind (leads.giveUp _) fun _ => .pure _
    | (.ok result, t) => exact leads.conclude result t

theorem verifyGroups (leads : p.Leads r k) (verifiedAt i : Nat) (groups : List Group) :
    Runs r (p.verifyGroups k verifiedAt i groups) := by
  induction groups generalizing i with
  | nil => exact leads.confirm k
  | cons group rest ih =>
    refine .bind (.inspect verifiedAt [] group) fun verdict => ?_
    match verdict with
    | .changed => exact leads.compute
    | .unfinished keys => exact leads.park k keys []
    | .unchanged => exact .bind (.onNode k _) fun _ => ih (i + 1)

theorem work (leads : p.Leads r k) : Runs r (p.work k) := by
  refine .bind .get fun s => .ite (.pure _) (.bind (.onNode k _) fun task => ?_)
  match task with
  | some .compute => exact leads.compute
  | some (.verify first) => exact .bind .get fun _ => leads.verifyGroups _ _ _
  | some .keep => exact leads.confirm k
  | none => exact .pure _

theorem dispatch (leads : p.Leads r k) (s : Progress S V) : r s (p.dispatch k s).2 :=
  leads.work s

end Leads

end Pass

end Recompute
