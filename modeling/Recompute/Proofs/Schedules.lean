import Recompute.Proofs.Attained
import Recompute.Proofs.FailFast
import Recompute.Proofs.Incremental
import Recompute.Proofs.Pruning
import Recompute.Proofs.Pursuit
import Mathlib.Algebra.GroupWithZero.Nat

set_option autoImplicit false

namespace Recompute

variable {S V : Type} [BEq V]

open Progress

def Graph.Level (g g' : Graph V) : Prop := g.Behind g' ∧ g'.Behind g

variable {p : Pass S V} {good : S → Prop} {given : Key → Option V} {s s' t t' : Progress S V}

namespace Graph.Level

variable {g g' : Graph V}

theorem symm (level : g.Level g') : g'.Level g := ⟨level.2, level.1⟩

theorem isFinished (level : g.Level g') (k : Key) :
    (g'.node k).isFinished = (g.node k).isFinished :=
  Bool.eq_iff_iff.mpr
    ⟨fun finished => (level.2.matched k finished).1, fun finished => (level.1.matched k finished).1⟩

theorem begun (level : g.Level g') (shape : g.WellFormed) {k : Key}
    (flying : (g.node k).isInFlight = true) : (g'.node k).isInFlight = true := by
  refine (level.1.begun k flying).resolve_left fun finished => ?_
  obtain ⟨f, flight⟩ := Option.isSome_iff_exists.mp flying
  simp [level.isFinished, (shape k).unfinished_of_flight flight] at finished

theorem outcomes (level : g.Level g') (shape : g.WellFormed) {k : Key}
    (finished : (g.node k).isFinished = true) :
    ∃ o o', g.outcome? k = some o ∧ g'.outcome? k = some o' ∧ Alike o o' := by
  obtain ⟨-, alike⟩ := level.1.matched k finished
  have outcome := (shape k).outcome?_isSome
  rw [finished, ← Graph.outcome?_eq] at outcome
  generalize g.outcome? k = o at alike outcome
  generalize g'.outcome? k = o' at alike
  cases alike with
  | none => simp at outcome
  | @some o o' alike => exact ⟨o, o', rfl, rfl, alike⟩

end Graph.Level

theorem Graph.Level.blockers (level : s.graph.Level t.graph) (pure : p.rules.Pure good)
    (some : ∃ s, good s) (orderly : s.Orderly p good given) (orderly' : t.Orderly p good given)
    (drained : s.graph.Drained) (drained' : t.graph.Drained) :
    t.graph.blockers = s.graph.blockers := by
  have missing (keys : List Key) : t.graph.missing keys = s.graph.missing keys :=
    missing_congr fun d _ => level.isFinished d
  have awaits {g : Graph V} {k : Key} {f : Flight V} (flight : (g.node k).flight = Option.some f) :
      (g.node k).awaits = f.awaits := by simp [Node.awaits, flight]
  have idle {g : Graph V} {k : Key} (idle : (g.node k).isInFlight = false) :
      (g.node k).awaits = [] := by
    simp only [Node.isInFlight, Option.isSome_eq_false_iff, Option.isNone_iff_eq_none] at idle
    simp [Node.awaits, idle]
  funext k
  rw [Graph.blockers, Graph.blockers, level.isFinished]
  congr 2
  cases flying : (s.graph.node k).isInFlight with
  | false =>
    have flying' : (t.graph.node k).isInFlight = false := by
      by_contra busy
      simp [level.symm.begun orderly'.underway.shape (by simpa using busy)] at flying
    rw [idle flying, idle flying']
    rfl
  | true =>
    obtain ⟨f, i, flight, parked⟩ := drained.parked flying
    obtain ⟨f', i', flight', parked'⟩ := drained'.parked (level.begun orderly.underway.shape flying)
    obtain ⟨pre, group, requests, waited, waits⟩ := orderly.requests flight parked
    obtain ⟨pre', group', requests', waited', waits'⟩ := orderly'.requests flight' parked'
    rw [awaits flight, awaits flight', waited, waited', missing]
    have requests := requests.mono level.1.matched
    rcases requests.compare pure some requests' with earlier | same | later
    · exact absurd (requests'.passed earlier) (missing group ▸ waits)
    · rw [same]
    · exact absurd (requests.passed later) waits'

theorem Break.isInFlight {cycle : Cycle} {k l : Key} (broken : Break p cycle k s s')
    (running : s.Running p.version)
    (other : l ≠ k) : (s'.graph.node l).isInFlight = (s.graph.node l).isInFlight := by
  rw [broken.node, Graph.isInFlight_settled (running.signalled.once _), Function.update_of_ne other]

namespace Pass

variable {roots : List Key}

theorem Change.purposeful (change : p.Change good roots s s') (prompt : p.rules.Prompt good)
    (underway : s.GroundedRun p.version) (justified : s.graph.Justified p.rules good)
    (purposeful : s.graph.Purposeful p.rules good) : s'.graph.Purposeful p.rules good := by
  cases change with
  | move move =>
    cases move with
    | rest same => exact purposeful.of_node same.node
    | step live step => exact step.purposeful prompt underway justified purposeful
  | fail cycle k broken =>
    exact purposeful.settle underway.signalled (broken.results underway.toRunning).matched
      broken.node
      (Node.renewed_commit _ (.error (.cycle cycle)) _ _).idle

theorem Changes.purposeful (changes : p.Changes good roots s s') (prompt : p.rules.Prompt good)
    (underway : s.GroundedRun p.version) (justified : s.graph.Justified p.rules good)
    (purposeful : s.graph.Purposeful p.rules good) : s'.graph.Purposeful p.rules good := by
  induction changes with
  | refl => exact purposeful
  | tail earlier change ih =>
    exact change.purposeful prompt (Changes.underway earlier underway)
      (Changes.justified earlier underway justified) ih

variable {cycle : Cycle} {keys : List Key} {cycles : List Cycle} {l : Key}

theorem Breaks.isInFlight (breaks : p.Breaks cycle keys s s') (running : s.Running p.version)
    (outside : l ∉ keys) : (s'.graph.node l).isInFlight = (s.graph.node l).isInFlight := by
  induction breaks with
  | nil => rfl
  | skip _ _ ih => exact ih running (List.not_mem_of_not_mem_cons outside)
  | fail first _ ih =>
    rw [ih (first.running running) (List.not_mem_of_not_mem_cons outside)]
    exact first.isInFlight running (List.ne_of_not_mem_cons outside)

theorem BreaksAll.isInFlight (breaks : p.BreaksAll cycles s s') (running : s.Running p.version)
    (outside : l ∉ cycles.flatten) :
    (s'.graph.node l).isInFlight = (s.graph.node l).isInFlight := by
  induction breaks with
  | nil => rfl
  | cons first _ ih =>
    rw [List.flatten_cons, List.mem_append, not_or] at outside
    rw [ih (first.running running) outside.2, first.isInFlight running outside.1]

theorem BreaksAll.live (breaks : p.BreaksAll cycles s s') (live : p.isStopped s' = false) :
    p.isStopped s = false := by
  induction breaks with
  | nil => exact live
  | cons first _ ih => exact first.live (ih live)

variable (once : cycles.flatten.Nodup)

include once

theorem BreaksAll.orderly (breaks : p.BreaksAll cycles s s')
    (stuck : ∀ k ∈ cycles.flatten, Stuck s k)
    (prompt : p.rules.Prompt good) (orderly : s.Orderly p good given) :
    s'.Orderly p good given := by
  have underway := orderly.underway
  have changes : p.Changes good [] s s' := breaks.changes
  obtain ⟨members, others⟩ := breaks.spared underway.toRunning once stuck
  have spared {k : Key} (kept : (s.graph.node k).injected = true) :
      Node.SameResult (s.graph.node k) (s'.graph.node k) := by
    refine (others k fun inside => ?_).result
    obtain ⟨-, waits⟩ := stuck k inside
    simp [(underway.shape k).computed_of_awaits waits] at kept
  constructor
  case underway => exact breaks.underway underway
  case justified => exact changes.justified underway orderly.justified
  case purposeful => exact changes.purposeful prompt underway orderly.justified orderly.purposeful
  case holds =>
    constructor
    · intro k none
      have computed := orderly.holds.computed k none
      by_cases inside : k ∈ cycles.flatten
      · obtain ⟨cycle, found, member⟩ := List.mem_flatten.mp inside
        exact (members cycle found k member).injected
      · exact (others k inside).result.injected.trans computed
    · intro k v known
      obtain ⟨injected, w, cached, equal⟩ := orderly.holds.given k v known
      have same := spared injected
      exact ⟨same.injected.trans injected, w, same.cached.trans cached, equal⟩

theorem BreaksAll.behind (breaks : p.BreaksAll cycles s s') (breaks' : p.BreaksAll cycles t t')
    (stuck : ∀ k ∈ cycles.flatten, Stuck s k) (stuck' : ∀ k ∈ cycles.flatten, Stuck t k)
    (running : s.Running p.version) (running' : t.Running p.version)
    (behind : s.graph.Behind t.graph) : s'.graph.Behind t'.graph := by
  obtain ⟨members, others⟩ := breaks.spared running once stuck
  obtain ⟨members', others'⟩ := breaks'.spared running' once stuck'
  have failed {k : Key} (inside : k ∈ cycles.flatten) :
      (s'.graph.node k).isFinished = true ∧ (t'.graph.node k).isFinished = true ∧
        s'.graph.outcome? k = t'.graph.outcome? k := by
    obtain ⟨cycle, found, member⟩ := List.mem_flatten.mp inside
    have here := members cycle found k member
    have there := members' cycle found k member
    refine ⟨here.finished, there.finished, ?_⟩
    rw [Graph.outcome?_eq, Graph.outcome?_eq, here.outcome?, there.outcome?]
    rfl
  have result {k : Key} (outside : k ∉ cycles.flatten) := (others k outside).result
  have result' {k : Key} (outside : k ∉ cycles.flatten) := (others' k outside).result
  constructor
  case matched =>
    intro k finished
    by_cases inside : k ∈ cycles.flatten
    · obtain ⟨-, finished', same⟩ := failed inside
      exact ⟨finished', same ▸ .refl _⟩
    · rw [(result inside).finished] at finished
      rw [Graph.outcome?_eq, Graph.outcome?_eq, (result inside).outcome?, (result' inside).outcome?,
        (result' inside).finished, ← Graph.outcome?_eq, ← Graph.outcome?_eq]
      exact behind.matched k finished
  case begun =>
    intro k flying
    by_cases inside : k ∈ cycles.flatten
    · exact .inl (failed inside).2.1
    · rw [breaks.isInFlight running inside] at flying
      rw [breaks'.isInFlight running' inside, (result' inside).finished]
      exact behind.begun k flying
  case cyclic =>
    intro k finished cyclic
    by_cases inside : k ∈ cycles.flatten
    · exact (failed inside).1
    · rw [(result' inside).finished] at finished
      rw [Node.isCyclic, (result' inside).cached] at cyclic
      exact (result inside).finished.trans (behind.cyclic k finished cyclic)

end Pass

def Progress.unfinished (s : Progress S V) (roots : List Key) : List Key :=
  roots.filter fun root => !s.graph.isFinished root

theorem Graph.Level.unfinished (level : s.graph.Level t.graph) (roots : List Key) :
    t.unfinished roots = s.unfinished roots := by
  refine List.filter_congr fun root _ => ?_
  rw [Graph.isFinished_eq, Graph.isFinished_eq, level.isFinished]

namespace Pass

-- From `s`, where all of `ready` can be dispatched, the pass comes to `s'` when ready keys are
-- dispatched, whichever it is each time, until none is left.
inductive Drains (p : Pass S V) : List Key → Progress S V → Progress S V → Prop
  | nil (s : Progress S V) : Drains p [] s s
  | dispatch {ready rest : List Key} {s s' : Progress S V} (k : Key)
      (pick : ready.Perm (k :: rest)) :
      Drains p (rest ++ (p.dispatch k s).1) (p.dispatch k s).2 s' → Drains p ready s s'

-- A pass that is carried on like this, and by breaking the cycles that keep roots from finishing
-- whenever no key is ready, until all roots are finished.
inductive Completes (p : Pass S V) (roots : List Key) :
    List Key → Progress S V → Progress S V → Prop
  | done {ready : List Key} {s s' : Progress S V} (drains : p.Drains ready s s')
      (finished : s'.unfinished roots = []) : Completes p roots ready s s'
  | unblock {ready : List Key} {s s₁ s' : Progress S V} (drains : p.Drains ready s s₁)
      (some : s₁.unfinished roots ≠ []) :
      Completes p roots (p.failCycles (s₁.graph.cyclesFrom (s₁.unfinished roots)) s₁).1
        (p.failCycles (s₁.graph.cyclesFrom (s₁.unfinished roots)) s₁).2 s' →
      Completes p roots ready s s'

variable {roots ready : List Key}

theorem Drains.stay (none : ready = []) (s : Progress S V) : p.Drains ready s s := none ▸ .nil s

theorem Drains.live (drains : p.Drains ready s s') (live : p.isStopped s' = false) :
    p.isStopped s = false := by
  induction drains with
  | nil => exact live
  | @dispatch ready rest s s' k _ _ ih =>
    by_contra stopped
    have stopped : p.isStopped s = true := by simpa using stopped
    simp [dispatch_of_stopped k stopped, stopped] at ih
    exact absurd live (by simp [ih])

theorem Completes.live (completes : p.Completes roots ready s s') (steady : p.listener.Steady)
    (live : p.isStopped s' = false) : p.isStopped s = false := by
  induction completes with
  | done drains => exact drains.live live
  | unblock drains _ _ ih => exact drains.live ((failCycles_breaks steady _ _).live (ih live))

theorem Completes.dispatch {rest : List Key} {k : Key} (pick : ready.Perm (k :: rest))
    (completes : p.Completes roots (rest ++ (p.dispatch k s).1) (p.dispatch k s).2 s') :
    p.Completes roots ready s s' := by
  cases completes with
  | done drains finished => exact .done (.dispatch k pick drains) finished
  | unblock drains some completes => exact .unblock (.dispatch k pick drains) some completes

theorem Turned.completes {turn turn' : List Key × Progress S V} (turned : p.Turned roots turn turn')
    (completes : p.Completes roots turn'.1 turn'.2 s) : p.Completes roots turn.1 turn.2 s := by
  cases turned with
  | @dispatch queue s k rest turn =>
    have spec := p.turn_spec roots queue s
    rw [turn] at spec
    exact completes.dispatch spec.2
  | unblock cycles turn =>
    obtain ⟨-, rfl, some, -, rfl⟩ := turn_unblock turn
    exact .unblock (.nil _) some completes

theorem Reaches.completes {w : World S V} {queue : List Key} (reaches : p.Reaches roots w queue s)
    (stop : p.turn roots queue s = .stop) (live : p.isStopped s = false) :
    p.Completes roots (p.enqueueAll roots { world := w }).1
      (p.enqueueAll roots { world := w }).2 s := by
  have last : p.Completes roots queue s s := by
    have spec := p.turn_spec roots queue s
    rw [stop] at spec
    obtain ⟨rfl, none⟩ := spec live
    exact .done (.nil s) none
  have all {turn : List Key × Progress S V}
      (turns : Relation.ReflTransGen (p.Turned roots) turn (queue, s)) :
      p.Completes roots turn.1 turn.2 s := by
    induction turns using Relation.ReflTransGen.head_induction_on with
    | refl => exact last
    | head turned _ ih => exact turned.completes ih
  exact all reaches

section

variable (order : Order)

omit [BEq V] in
theorem awaitAll_reorder (k : Key) (awaits : List Key) :
    ({ p with order } : Pass S V).awaitAll k awaits = p.awaitAll k awaits := by
  induction awaits with
  | nil => rfl
  | cons dep rest ih =>
    simp only [awaitAll, ih]
    rfl

theorem compute_reorder (k : Key) : ({ p with order } : Pass S V).compute k = p.compute k := by
  have conclude (result : Except Fault V) (t : Trace V) :
      ({ p with order } : Pass S V).conclude k result t = p.conclude k result t := by
    simp only [Pass.conclude, park, awaitAll_reorder]
    rfl
  simp only [compute, conclude]
  rfl

theorem dispatch_reorder (k : Key) (s : Progress S V) :
    ({ p with order } : Pass S V).dispatch k s = p.dispatch k s := by
  have verifyGroups (verifiedAt i : Nat) (groups : List Group) :
      ({ p with order } : Pass S V).verifyGroups k verifiedAt i groups =
        p.verifyGroups k verifiedAt i groups := by
    induction groups generalizing i with
    | nil => rfl
    | cons group rest ih => simp only [Pass.verifyGroups, ih, park, awaitAll_reorder, compute_reorder]
  simp only [dispatch, work, verify, verifyGroups, compute_reorder]
  rfl

omit [BEq V] in
theorem failMembers_reorder (cycle : Cycle) (keys : List Key) :
    ({ p with order } : Pass S V).failMembers cycle keys = p.failMembers cycle keys := by
  induction keys with
  | nil => rfl
  | cons k rest ih =>
    simp only [failMembers, ih]
    rfl

omit [BEq V] in
theorem failCycles_reorder (cycles : List Cycle) (s : Progress S V) :
    ({ p with order } : Pass S V).failCycles cycles s = p.failCycles cycles s := by
  induction cycles generalizing s with
  | nil => rfl
  | cons cycle rest ih => simp only [failCycles, failCycle, failMembers_reorder, ih]

theorem Drains.reorder (drains : p.Drains ready s s') :
    ({ p with order } : Pass S V).Drains ready s s' := by
  induction drains with
  | nil s => exact .nil s
  | dispatch k pick _ ih =>
    rw [← dispatch_reorder order] at ih
    exact .dispatch k pick ih

theorem Completes.reorder (completes : p.Completes roots ready s s') :
    ({ p with order } : Pass S V).Completes roots ready s s' := by
  induction completes with
  | done drains finished => exact .done (drains.reorder order) finished
  | unblock drains some _ ih =>
    rw [← failCycles_reorder order] at ih
    exact .unblock (drains.reorder order) some ih

omit [BEq V] in
theorem enqueueAll_reorder (keys : List Key) (s : Progress S V) :
    ({ p with order } : Pass S V).enqueueAll keys s = p.enqueueAll keys s := by
  induction keys generalizing s with
  | nil => rfl
  | cons k rest ih =>
    simp only [enqueueAll, ih]
    rfl

end

variable {l₀ : Ledger S V} {g₀ : Graph V} {asked : List Key}

theorem Drives.drained (drives : p.Drives l₀ asked [] s) (sound : l₀.Sound p g₀)
    (confined : p.rules.Confined fun _ => True) (live : p.isStopped s = false) :
    s.graph.Drained := by
  obtain ⟨l, calls, rfl, -, count⟩ := drives
  intro k f flight
  exact (sound.all confined calls).parked live count flight

section

variable (steady : p.listener.Steady) (confined : p.rules.Confined fun _ => True)
  (sound : l₀.Sound p g₀)

include steady confined sound

theorem Drains.drives (drains : p.Drains ready s s') (drives : p.Drives l₀ asked ready s)
    (live : p.isStopped s' = false) : p.Drives l₀ asked [] s' := by
  induction drains with
  | nil => exact drives
  | dispatch k pick drains ih =>
    have live' := (Drains.dispatch k pick drains).live live
    exact ih ((drives.perm pick).dispatch steady confined sound live') live

omit sound in
theorem Drains.moves (drains : p.Drains ready s s') (underway : s.GroundedRun p.version) :
    p.Moves (fun _ => True) [] s s' := by
  induction drains with
  | nil => exact .refl
  | @dispatch ready rest s s' k _ _ ih =>
    have moves : p.Moves _ [] s (p.dispatch k s).2 :=
      dispatch_moves steady confined k underway trivial
    exact moves.trans (ih (moves.underway underway))

end

structure Carried (p : Pass S V) (given : Key → Option V) (l₀ : Ledger S V) (asked ready : List Key)
    (s : Progress S V) : Prop where
  drives : p.Drives l₀ asked ready s
  orderly : s.Orderly p (fun _ => True) given

variable (steady : p.listener.Steady) (pure : p.rules.Pure fun _ => True)
  (some : ∃ _ : S, True) (prompt : p.rules.Prompt fun _ => True) (sound : l₀.Sound p g₀)

include steady pure some prompt sound

theorem Drains.carried (drains : p.Drains ready s s') (carried : p.Carried given l₀ asked ready s)
    (live : p.isStopped s' = false) :
    p.Carried given l₀ asked [] s' ∧ s'.graph.Drained ∧ p.Moves (fun _ => True) [] s s' := by
  have confined := pure.confined some
  have moves := drains.moves steady confined carried.orderly.underway
  have drives := drains.drives steady confined sound carried.drives live
  exact ⟨⟨drives, carried.orderly.moves prompt moves⟩, drives.drained sound confined live, moves⟩

variable {ready' : List Key}

theorem Drains.level (drains : p.Drains ready s s') (drains' : p.Drains ready' t t')
    (carried : p.Carried given l₀ asked ready s) (carried' : p.Carried given l₀ asked ready' t)
    (live : p.isStopped s' = false) (live' : p.isStopped t' = false)
    (level : s.graph.Level t.graph) : s'.graph.Level t'.graph := by
  obtain ⟨⟨-, orderly⟩, drained, moves⟩ := drains.carried steady pure some prompt sound carried live
  obtain ⟨⟨-, orderly'⟩, drained', moves'⟩ :=
    drains'.carried steady pure some prompt sound carried' live'
  constructor
  · have behind := level.1.lead prompt carried'.orderly moves'
    exact behind.follow prompt pure some carried.orderly orderly' drained' moves
  · have behind := level.2.lead prompt carried.orderly moves
    exact behind.follow prompt pure some carried'.orderly orderly drained moves'

omit pure some sound in
theorem Carried.unblock (carried : p.Carried given l₀ asked [] s) (roots : List Key) :
    p.Carried given l₀ asked (p.failCycles (s.graph.cyclesFrom roots) s).1
      (p.failCycles (s.graph.cyclesFrom roots) s).2 := by
  obtain ⟨once, stuck, -⟩ := stuck_of_cyclesFrom s roots
  have breaks := failCycles_breaks steady (s.graph.cyclesFrom roots) s
  exact ⟨carried.drives.unblock steady roots, breaks.orderly once stuck prompt carried.orderly⟩

omit prompt sound in
theorem Carried.unblock_level (carried : p.Carried given l₀ asked [] s)
    (carried' : p.Carried given l₀ asked [] t) (drained : s.graph.Drained)
    (drained' : t.graph.Drained) (level : s.graph.Level t.graph) (roots : List Key) :
    (p.failCycles (s.graph.cyclesFrom (s.unfinished roots)) s).2.graph.Level
      (p.failCycles (t.graph.cyclesFrom (t.unfinished roots)) t).2.graph := by
  have blockers := level.blockers pure some carried.orderly carried'.orderly drained drained'
  have same : t.graph.cyclesFrom (t.unfinished roots) = s.graph.cyclesFrom (s.unfinished roots) := by
    rw [level.unfinished, Graph.cyclesFrom_congr blockers]
  obtain ⟨once, stuck, -⟩ := stuck_of_cyclesFrom s (s.unfinished roots)
  obtain ⟨-, stuck', -⟩ := stuck_of_cyclesFrom t (t.unfinished roots)
  have running := carried.orderly.underway.toRunning
  have running' := carried'.orderly.underway.toRunning
  rw [same] at stuck' ⊢
  generalize s.graph.cyclesFrom (s.unfinished roots) = cycles at once stuck stuck' ⊢
  have breaks := failCycles_breaks (p := p) steady cycles s
  have breaks' := failCycles_breaks (p := p) steady cycles t
  exact ⟨breaks.behind once breaks' stuck stuck' running running' level.1,
    breaks'.behind once breaks stuck' stuck running' running level.2⟩

theorem Completes.level (first : p.Completes roots ready s s')
    (second : p.Completes roots ready' t t')
    (carried : p.Carried given l₀ asked ready s) (carried' : p.Carried given l₀ asked ready' t)
    (live : p.isStopped s' = false) (live' : p.isStopped t' = false)
    (level : s.graph.Level t.graph) : s'.graph.Level t'.graph := by
  -- Both come to the same cycles each time that nothing is ready.
  induction first generalizing ready' t with
  | done drains finished =>
    cases second with
    | done drains' _ =>
      exact drains.level steady pure some prompt sound drains' carried carried' live live' level
    | unblock drains' unfinished completes' =>
      have early := (failCycles_breaks steady _ _).live (completes'.live steady live')
      have level :=
        drains.level steady pure some prompt sound drains' carried carried' live early level
      exact absurd (level.unfinished roots ▸ finished) unfinished
  | @unblock ready s s₁ s' drains unfinished completes ih =>
    have early := (failCycles_breaks steady _ _).live (completes.live steady live)
    obtain ⟨carried₁, drained, -⟩ := drains.carried steady pure some prompt sound carried early
    cases second with
    | done drains' finished =>
      have level :=
        drains.level steady pure some prompt sound drains' carried carried' early live' level
      exact absurd (level.unfinished roots ▸ finished) unfinished
    | @unblock _ _ t₁ _ drains' _ completes' =>
      have early' := (failCycles_breaks steady _ _).live (completes'.live steady live')
      obtain ⟨carried₁', drained', -⟩ :=
        drains'.carried steady pure some prompt sound carried' early'
      have level :=
        drains.level steady pure some prompt sound drains' carried carried' early early' level
      have broken := carried₁.unblock_level steady pure some carried₁' drained drained' level
      exact ih completes' (carried₁.unblock steady prompt _) (carried₁'.unblock steady prompt _)
        live (broken roots)

end Pass

theorem Graph.WellFormed.exists_holds {g : Graph V} (shape : g.WellFormed) :
    ∃ given, g.Holds given := by
  have value {k : Key} (injected : (g.node k).injected = true) :
      ∃ v, (g.node k).cached = some (.ok v) ∧ (g.node k).value? = some v := by
    have done := ((shape k).injected injected).1
    obtain ⟨v, cached⟩ := (shape k).done done
    exact ⟨v, cached, by simp [Node.value?, done, cached]⟩
  refine ⟨fun k => if (g.node k).injected then (g.node k).value? else none, fun k none => ?_,
    fun k v known => ?_⟩
  · by_contra injected
    obtain ⟨v, -, known⟩ := value (by simpa using injected)
    simp [injected, known] at none
  · by_cases injected : (g.node k).injected = true
    · obtain ⟨w, cached, known'⟩ := value injected
      simp only [injected, if_true, known', Option.some.injEq] at known
      exact ⟨injected, w, cached, known ▸ Relation.EqvGen.refl w⟩
    · simp [injected] at known

namespace Pass

variable {roots ready : List Key}

theorem Change.abort_of_halted (change : p.Change good roots s s') (keepGoing : p.keepGoing = true)
    (before : s.halted = true → s.abort ≠ none) (halted : s'.halted = true) : s'.abort ≠ none := by
  have still (abort : s'.abort = s.abort) (same : s'.halted = s.halted) : s'.abort ≠ none :=
    abort ▸ before (same ▸ halted)
  cases change with
  | move move =>
    cases move with
    | rest same =>
      exact still (congrArg Control.abort same.control) (congrArg Control.halted same.control)
    | step live step => exact step.abort_of_halted keepGoing live halted
  | fail cycle k broken =>
    have control := broken.control
    rw [keepGoing] at control
    exact still (congrArg Control.abort control) (congrArg Control.halted control)

theorem Changes.abort_of_halted (changes : p.Changes good roots s s')
    (keepGoing : p.keepGoing = true) (before : s.halted = true → s.abort ≠ none) :
    s'.halted = true → s'.abort ≠ none := by
  induction changes with
  | refl => exact before
  | tail _ change ih => exact change.abort_of_halted keepGoing ih

section

variable (steady : p.listener.Steady) (confined : p.rules.Confined fun _ => True)

include steady confined

theorem Completes.changes (completes : p.Completes roots ready s s')
    (underway : s.GroundedRun p.version) : p.Changes (fun _ => True) [] s s' := by
  induction completes with
  | done drains => exact (drains.moves steady confined underway).changes
  | @unblock _ _ s₁ _ drains _ _ ih =>
    have changes := (drains.moves steady confined underway).changes
    have breaks := failCycles_breaks steady (s₁.graph.cyclesFrom (s₁.unfinished roots)) s₁
    have underway₁ := changes.underway underway
    exact (changes.trans breaks.changes).trans (ih (breaks.underway underway₁))

end

end Pass

namespace Engine

theorem level_of_completes (e : Engine S V) (attained : e.world.graph.Attained e.rules)
    (steady : e.listener.Steady) (pure : e.rules.Pure fun _ => True)
    (prompt : e.rules.Prompt fun _ => True) (roots : List Key) :
    let p := e.pass true
    let wanted := union [] roots
    let start := p.enqueueAll wanted { world := e.entry }
    ∀ s t, p.Completes wanted start.1 start.2 s → p.Completes wanted start.1 start.2 t →
      s.world.isInterrupted e.current = false → s.abort = none →
      t.world.isInterrupted e.current = false → t.abort = none →
      s.graph.WellFormed ∧ s.graph.Level t.graph := by
  intro p wanted start s t first second uninterrupted calm uninterrupted' calm'
  have some : ∃ _ : S, True := ⟨e.world.outside, trivial⟩
  have confined := pure.confined some
  obtain ⟨resting, justified⟩ := attained.rests confined
  obtain ⟨underway₀, justified₀⟩ := resting.reasoned justified (p := p) rfl
  have sound : ({ state := { world := e.entry } } : Ledger S V).Sound p e.world.graph :=
    resting.toIdle.sound rfl
  obtain ⟨given, holds⟩ := underway₀.shape.exists_holds
  have orderly₀ : Progress.Orderly p (fun _ => True) given
      ({ world := e.entry } : Progress S V) := by
    constructor
    case underway => exact underway₀
    case justified => exact justified₀
    case holds => exact holds
    case purposeful =>
      intro l f i flight
      simp [Progress.graph, Engine.entry, resting.idle] at flight
  obtain ⟨moves, unhalted⟩ :
      p.Moves (fun _ => True) wanted { world := e.entry } start.2 ∧ start.2.halted = false :=
    Pass.enqueueAll_moves steady (List.Subset.refl wanted) rfl
  have orderly : start.2.Orderly p (fun _ => True) given := orderly₀.moves prompt moves
  have carried : p.Carried given { state := { world := e.entry } } wanted start.1 start.2 :=
    ⟨(Pass.Reaches.start p wanted e.entry).drives steady confined sound, orderly⟩
  have live {s : Progress S V} (completes : p.Completes wanted start.1 start.2 s)
      (uninterrupted : s.world.isInterrupted e.current = false) (calm : s.abort = none) :
      p.isStopped s = false := by
    have changes := completes.changes steady confined orderly.underway
    have halted : s.halted = false := by
      by_contra halted
      exact changes.abort_of_halted rfl (fun before => absurd before (by simp [start, unhalted]))
        (by simpa using halted) calm
    simp [Pass.isStopped, halted, uninterrupted, p, Engine.pass]
  exact ⟨((first.changes steady confined orderly.underway).underway orderly.underway).shape,
    first.level steady pure some prompt sound second carried carried
      (live first uninterrupted calm) (live second uninterrupted' calm') ⟨.refl _, .refl _⟩⟩

-- Whatever ready key is dispatched each time, a pass that is carried on to its end without an
-- interrupt or a panic finishes the same keys, with equal values and the same failures. Values are
-- alike if equality does not tell them apart; that they are equal follows where it is an
-- equivalence.
theorem outcomes_independent_of_order (e : Engine S V) (attained : e.world.graph.Attained e.rules)
    (steady : e.listener.Steady) (pure : e.rules.Pure fun _ => True)
    (prompt : e.rules.Prompt fun _ => True) (roots : List Key) :
    let p := e.pass true
    let wanted := union [] roots
    let start := p.enqueueAll wanted { world := e.entry }
    ∀ s t, p.Completes wanted start.1 start.2 s → p.Completes wanted start.1 start.2 t →
      s.world.isInterrupted e.current = false → s.abort = none →
      t.world.isInterrupted e.current = false → t.abort = none →
      ∀ k, (s.graph.node k).isFinished = true → (t.graph.node k).isFinished = true ∧
        ∃ o o', s.graph.outcome? k = some o ∧ t.graph.outcome? k = some o' ∧ Alike o o' ∧
          (EquivBEq V → Outcome.equal o o' = true) := by
  intro p wanted start s t first second uninterrupted calm uninterrupted' calm' k finished
  obtain ⟨shape, level⟩ := e.level_of_completes attained steady pure prompt roots s t first second
    uninterrupted calm uninterrupted' calm'
  obtain ⟨o, o', here, there, alike⟩ := level.outcomes shape finished
  exact ⟨(level.1.matched k finished).1, o, o', here, there, alike,
    fun _ => Outcome.equal_of_alike alike⟩

section

variable {e : Engine S V} {roots : List Key} {order order' : Order} {budget budget' : Nat}
  {ev ev' : Evaluation V}

theorem evaluate_completes (attained : e.world.graph.Attained e.rules) (steady : e.listener.Steady)
    (confined : e.rules.Confined fun _ => True)
    (ok : (evaluate { e with order } budget roots true).1 = .ok ev)
    (uninterrupted : (evaluate { e with order } budget roots true).2.world.isInterrupted
      e.current = false) :
    ∃ s, (e.pass true).Completes (union [] roots)
        ((e.pass true).enqueueAll (union [] roots) { world := e.entry }).1
        ((e.pass true).enqueueAll (union [] roots) { world := e.entry }).2 s ∧
      s.world.isInterrupted e.current = false ∧ s.abort = none ∧
      s.unfinished (union [] roots) = [] ∧ ev = (e.pass true).evaluation (union [] roots) s := by
  obtain ⟨queue, s, evaluated⟩ := evaluated { e with order } budget roots true
  obtain ⟨calm, stop, rfl⟩ := evaluated.ok ev ok
  have interrupted : s.world.isInterrupted e.current = false := by
    simpa only [World.isInterrupted, evaluated.interrupted] using uninterrupted
  obtain ⟨-, changes⟩ := evaluated.changes steady confined (attained.rests confined).1 trivial
  have live : (pass { e with order } true).isStopped s = false := by
    have halted : s.halted = false := by
      by_contra halted
      exact changes.abort_of_halted rfl (fun before => by cases before) (by simpa using halted) calm
    simp [Pass.isStopped, halted, interrupted, Engine.pass]
  have spec := (pass { e with order } true).turn_spec (union [] roots) queue s
  rw [stop] at spec
  have completes := (evaluated.reaches.completes stop live).reorder e.order
  refine ⟨s, ?_, interrupted, calm, (spec live).2, rfl⟩
  rw [← Pass.enqueueAll_reorder order]
  exact completes

-- Engines that differ only in how they order the ready keys report the same outcomes.
theorem evaluations_agree (attained : e.world.graph.Attained e.rules) (steady : e.listener.Steady)
    (pure : e.rules.Pure fun _ => True) (prompt : e.rules.Prompt fun _ => True)
    (ok : (evaluate { e with order } budget roots true).1 = .ok ev)
    (ok' : (evaluate { e with order := order' } budget' roots true).1 = .ok ev')
    (uninterrupted : (evaluate { e with order } budget roots true).2.world.isInterrupted
      e.current = false)
    (uninterrupted' : (evaluate { e with order := order' } budget' roots true).2.world.isInterrupted
      e.current = false) {root : Key} (asked : root ∈ roots) :
    ∃ o o', ev.get? root = some o ∧ ev'.get? root = some o' ∧ Alike o o' := by
  have confined := pure.confined ⟨e.world.outside, trivial⟩
  obtain ⟨s, first, interrupted, calm, finished, rfl⟩ :=
    evaluate_completes attained steady confined ok uninterrupted
  obtain ⟨t, second, interrupted', calm', -, rfl⟩ :=
    evaluate_completes attained steady confined ok' uninterrupted'
  obtain ⟨shape, level⟩ := e.level_of_completes attained steady pure prompt roots s t first second
    interrupted calm interrupted' calm'
  have wanted : root ∈ union [] roots := (mem_union [] roots root).mpr (.inr asked)
  have done : (s.graph.node root).isFinished = true := by
    by_contra unfinished
    have stuck : root ∈ s.unfinished (union [] roots) := by
      simpa [Progress.unfinished, wanted, Graph.isFinished_eq] using unfinished
    simp [finished] at stuck
  obtain ⟨o, o', here, there, alike⟩ := level.outcomes shape done
  rw [Graph.outcome?_eq] at here there
  refine ⟨o, o', ?_, ?_, alike⟩
  · rw [Pass.evaluation_get?, if_pos wanted, Pass.outcomeOf_of_outcome here]
  · rw [Pass.evaluation_get?, if_pos wanted, Pass.outcomeOf_of_outcome there]

end

end Engine

theorem Rule.pure_either (good : Unit → Prop) (first second k : Key) :
    Computation.Alike good good (Rule.either first second k) (Rule.either first second k) := by
  refine .need_bind first fun a b alike => ?_
  have same : a = b := by
    cases a <;> cases b <;> simp only [Alike] at alike
    · rw [alike]
    · rw [eq_of_beq (indistinct_iff.mp alike)]
  subst same
  split
  · exact .need _ _ second
  · exact .done (.refl _)

omit [BEq V] in
theorem Computation.Plays.need_bind {look : Oracle V} {k : Key}
    {next : Except Fault V → Computation S V (Except Fault V)} {t u : Trace V}
    {r : Except Panic (Except Fault V)} (plays : Plays look good (need k >>= next) t r u) :
    ∃ answer, (∀ v, answer = .ok v → (look k).isSome) ∧
      Plays look good (next answer) (t.heard look false [k]) r u := by
  cases plays with
  | silent quiet => exact quiet.elim
  | values plays =>
    simp only [bind] at plays
    generalize found : (Table.get? (answersOf look [k]).withoutFailures k).join = answer at plays
    cases answer with
    | none => exact ⟨_, by simp, plays⟩
    | some v =>
      refine ⟨_, fun _ _ => ?_, plays⟩
      cases known : look k with
      | none => simp [answersOf, union, Answers.withoutFailures, Table.get?, known] at found
      | some o => rfl

omit [BEq V] in
theorem Trace.dropLast_groups_heard (look : Oracle V) (tolerant : Bool) (keys : List Key) :
    (({} : Trace V).heard look tolerant keys).groups.dropLast = [] := by
  simp only [Trace.heard]
  split <;> rfl

theorem Rule.prompt_either {good : Unit → Prop} {first second k : Key} {look : Oracle Nat}
    {result : Except Panic (Except Fault Nat)} {t : Trace Nat}
    (plays : (Rule.either first second k).Plays look good {} result t) {group : Group}
    (inside : group ∈ t.groups.dropLast) {d : Key} (member : d ∈ group) : (look d).isSome := by
  obtain ⟨answer, known, plays⟩ := plays.need_bind
  have once : (({} : Trace Nat).heard look false [first]).groups = [[first]] := by
    simp [Trace.heard, Trace.fresh, union]
  split at plays
  ·
    rw [← bind_pure (Computation.need second)] at plays
    obtain ⟨answer', -, plays⟩ := plays.need_bind
    cases plays with
    | silent quiet => exact quiet.elim
    | done =>
      generalize ({} : Trace Nat).heard look false [first] = t at once inside
      have lone : group ∈ [[first]] := by
        by_cases none : t.fresh [second] = []
        · simp [Trace.heard, once, none] at inside
        · simpa [Trace.heard, once, none] using inside
      rw [List.mem_singleton.mp lone] at member
      rw [List.mem_singleton.mp member]
      exact known 0 rfl
  · cases plays with
    | silent quiet => exact quiet.elim
    | done => simp [Trace.dropLast_groups_heard] at inside

def Rule.both (first second : Key) : Rule Unit Nat := fun _ => do
  match ← Computation.needAll [first, second] with
  | .ok values => return .ok values.sum
  | .error fault => return .error fault

theorem Rule.pure_both (good : Unit → Prop) (first second k : Key) :
    Computation.Alike good good (Rule.both first second k) (Rule.both first second k) := by
  refine .values fun a b alike => ?_
  have same : a = b := by
    refine List.forall₂_eq_eq_eq ▸ alike.imp ?_
    rintro ⟨l, v⟩ ⟨l', w⟩ ⟨rfl, values⟩
    cases values with
    | none => rfl
    | some equal => rw [eq_of_beq (indistinct_iff.mp equal)]
  subst same
  simp only [Computation.bind]
  split <;> exact .done (.refl _)

theorem Rule.prompt_both {good : Unit → Prop} {first second k : Key} {look : Oracle Nat}
    {result : Except Panic (Except Fault Nat)} {t : Trace Nat}
    (plays : (Rule.both first second k).Plays look good {} result t) : t.groups.dropLast = [] := by
  cases plays with
  | silent quiet => exact quiet.elim
  | values plays =>
    simp only [Computation.bind] at plays
    split at plays <;> cases plays with
    | silent quiet => exact quiet.elim
    | done => exact Trace.dropLast_groups_heard look false _

def Rules.fork : Rules Unit Nat :=
  [("a", Rule.both (.only "c") (.only "b")), ("b", Rule.either (.only "d") (.only "a")),
    ("c", fun _ => Computation.need (.only "e"))]

theorem Rules.pure_fork (good : Unit → Prop) : Rules.fork.Pure good :=
  forall_cons (fun k _ => Rule.pure_both good _ _ k)
    (forall_cons (fun k _ => Rule.pure_either good _ _ k)
      (forall_cons (fun _ _ => .need good good _) forall_nil))

theorem Rules.prompt_fork (good : Unit → Prop) : Rules.fork.Prompt good := by
  refine forall_cons (fun k _ look result t plays group inside d member => ?_)
    (forall_cons (fun k _ look result t plays group inside d member => ?_)
      (forall_cons (fun k _ look result t plays group inside d member => ?_) forall_nil))
  · simp [Rule.prompt_both plays] at inside
  · exact Rule.prompt_either plays inside member
  · rw [← bind_pure (Computation.need _)] at plays
    obtain ⟨answer, -, plays⟩ := plays.need_bind
    cases plays with
    | silent quiet => exact quiet.elim
    | done => simp [Trace.dropLast_groups_heard] at inside

namespace Engine

def fork : Engine Unit Nat :=
  let given := ((new Rules.fork .steady ()).inject [(.only "d", 7), (.only "e", 1)]).2
  ((given.evaluate 20 [.only "a"] true).2.inject [(.only "d", 0), (.only "e", 2)]).2

theorem reachable_fork : Reachable Rules.fork .steady fork :=
  .inject _ (.evaluate _ _ _ (.inject _ (.new ())))

theorem outcomes_independent_of_order_fork :
    let a : Key := .only "a"
    let b : Key := .only "b"
    let c : Key := .only "c"
    let p := fork.pass true
    let wanted := union [] [a, c]
    let start := p.enqueueAll wanted { world := fork.entry }
    ∃ s t, p.Completes wanted start.1 start.2 s ∧ p.Completes wanted start.1 start.2 t ∧
      s.stats.invocations = 2 ∧ t.stats.invocations = 3 ∧
      s.graph.outcome? a = some (.error (.cycle [a, b])) ∧
      t.graph.outcome? a = some (.error (.cycle [a, b])) := by
  intro a b c p wanted start
  let failed (s : Progress Unit Nat) := p.failCycles (s.graph.cyclesFrom (s.unfinished wanted)) s
  let s₁ := (p.dispatch a start.2).2
  let s₂ := (p.dispatch c s₁).2
  let s := (p.dispatch b s₂).2
  have drains : p.Drains start.1 start.2 s :=
    .dispatch a (by decide +kernel : start.1.Perm [a, c]) <|
      .dispatch c (by decide +kernel : ([c] ++ (p.dispatch a start.2).1).Perm [c, b]) <|
        .dispatch b (by decide +kernel : ([b] ++ (p.dispatch c s₁).1).Perm [b]) <|
          .stay (by decide +kernel) s
  let t₁ := (p.dispatch c start.2).2
  let t₂ := (p.dispatch a t₁).2
  let t := (p.dispatch b t₂).2
  have drains' : p.Drains start.1 start.2 t :=
    .dispatch c (by decide +kernel : start.1.Perm [c, a]) <|
      .dispatch a (by decide +kernel : ([a] ++ (p.dispatch c start.2).1).Perm [a]) <|
        .dispatch b (by decide +kernel : ([] ++ (p.dispatch a t₁).1).Perm [b]) <|
          .stay (by decide +kernel) t
  have completes : p.Completes wanted start.1 start.2 (failed s).2 :=
    .unblock drains (by decide +kernel) (.done (.stay (by decide +kernel) _) (by decide +kernel))
  have completes' : p.Completes wanted start.1 start.2 (failed t).2 :=
    .unblock drains' (by decide +kernel) (.done (.stay (by decide +kernel) _) (by decide +kernel))
  have confined := (Rules.pure_fork fun _ => True).confined ⟨(), trivial⟩
  have attained := reachable_fork.attained (fun _ => rfl) confined
  obtain ⟨rules, listener⟩ := reachable_fork.unchanged
  rw [← rules] at attained
  obtain ⟨-, o, o', outcome, outcome', alike, -⟩ :=
    fork.outcomes_independent_of_order attained (listener ▸ fun _ => rfl)
      (rules ▸ Rules.pure_fork _) (rules ▸ Rules.prompt_fork _) [a, c] (failed s).2 (failed t).2
      completes completes' (by decide +kernel) (by decide +kernel) (by decide +kernel)
      (by decide +kernel) a (by decide +kernel)
  have known : (failed s).2.graph.outcome? a = some (.error (.cycle [a, b])) := by decide +kernel
  refine ⟨(failed s).2, (failed t).2, completes, completes', by decide +kernel, by decide +kernel,
    known, ?_⟩
  cases outcome.symm.trans known
  cases o' with
  | ok => exact alike.elim
  | error f => rw [outcome', show _ = f from alike]

end Engine

end Recompute
