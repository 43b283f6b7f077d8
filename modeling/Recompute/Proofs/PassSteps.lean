import Recompute.Proofs.PassInvariant
import Recompute.Proofs.Wakeups

set_option autoImplicit false

namespace Recompute

variable {S V : Type} [BEq V]

open Progress
open Relation (ReflTransGen)

namespace Pass

variable {p : Pass S V} {asked : Key → Prop} {w : World S V} {new : List Event}
  {s s' : Progress S V} {k : Key}

def InQueue (s : Progress S V) (k : Key) : Prop :=
  ∃ f, (s.graph.node k).flight = some f ∧ f.stage = .queued

omit [BEq V] in
theorem inQueue_iff : InQueue s k ↔ (s.graph.node k).queued = 1 := by
  cases flight : (s.graph.node k).flight with
  | none => simp [InQueue, Node.queued_of_idle, flight]
  | some f => simp [InQueue, Node.queued_of_flight flight, flight]

theorem dispatch_workStep (confined : p.rules.Confined fun _ => True)
    (passInv : s.PassInvariant p.version w new) (queued : InQueue s k)
    (live : p.isStopped s = false) :
    p.WorkStep k s (p.dispatch k s).2 := by
  obtain ⟨f, flight, queued⟩ := queued
  exact (work_comes confined k passInv.shape passInv.dated flight queued live).after.settle []

theorem dispatch_rests (out : ¬InQueue s k) :
    (p.dispatch k s).1 = [] ∧ (p.dispatch k s).2.graph.node = s.graph.node ∧
      p.PassStep asked s (p.dispatch k s).2 := by
  have busy : ∀ f, (s.graph.node k).flight = some f → f.stage ≠ .queued :=
    fun f flight queued => out ⟨f, flight, queued⟩
  rcases dispatch_of_not_queued (p := p) busy with same | ensured
  · rw [same]
    exact ⟨rfl, rfl, .rest rfl rfl rfl (.refl _)⟩
  · have node : (s.withGraph (s.graph.ensure k)).graph.node = s.graph.node :=
      funext fun l => s.graph.node_ensure k l
    rw [ensured]
    exact ⟨rfl, node, .rest node rfl rfl ((World.Logs.refl _).of_history rfl)⟩

theorem dispatch_passStep (confined : p.rules.Confined fun _ => True)
    (passInv : s.PassInvariant p.version w new) (k : Key) :
    p.PassStep asked s (p.dispatch k s).2 := by
  cases stopped : p.isStopped s with
  | true =>
    rw [dispatch_of_stopped k stopped]
    exact .rest rfl rfl rfl (.refl _)
  | false =>
    by_cases queued : InQueue s k
    · exact .worked k (dispatch_workStep confined passInv queued stopped)
    · exact (dispatch_rests queued).2.2

omit [BEq V] in
theorem Publishes.finished {m : Node V} (publishes : p.Publishes k m s s')
    (finished : m.isFinished = true) : (s'.graph.node k).isFinished = true := by
  rw [publishes.node]
  split
  · rw [Function.update_self]
    exact finished
  · rw [(s.graph.settled_sameResult k m k).finished, Function.update_self]
    exact finished

theorem fail_after (cycle : Cycle) (passInv : s.PassInvariant p.version w new)
    (unfinished : (s.graph.node k).isFinished = false) (deps : List Group) :
    After (p.fail k (.cycle cycle) deps) s
      (fun _ s' => p.WorkStep k s s' ∧ (s'.graph.node k).isFinished = true)
      (fun s' => p.WorkStep k s s' ∧ (s'.graph.node k).isFinished = true) := by
  have worked (s' : Progress S V) (publishes : p.Publishes k
      ((s.graph.node k).commit (.error (.cycle cycle)) deps p.version).2 s s') :
      p.WorkStep k s s' ∧ (s'.graph.node k).isFinished = true :=
    ⟨publishes.worked unfinished ((passInv.shape k).commit _ deps (passInv.dated k))
      (Node.renewed_commit _ _ deps p.version) (Nat.le_refl _), publishes.finished rfl⟩
  exact (commit_after k (.error (.cycle cycle)) deps s).mono (fun _ => worked) worked

structure Fails (p : Pass S V) (asked : Key → Prop) (keys : List Key) (s s' : Progress S V) :
    Prop where
  steps : p.PassSteps asked s s'
  first : ∀ k ∈ keys.head?, (s.graph.get? k).isSome = true → (s'.graph.node k).isFinished = true

theorem failMembers_after (cycle : Cycle) (keys : List Key)
    (passInv : s.PassInvariant p.version w new) :
    After (p.failMembers cycle keys) s (fun _ => p.Fails asked keys s) (p.Fails asked keys s) := by
  induction keys generalizing s new with
  | nil => exact (yields_pure [] s).after ⟨.refl, by simp⟩
  | cons k rest ih =>
    have others {s₁ : Progress S V} (ready : List Key) (steps : p.PassSteps asked s s₁)
        (first : (s.graph.get? k).isSome = true → (s₁.graph.node k).isFinished = true) :
        After (do return ready ++ (← p.failMembers cycle rest)) s₁
          (fun _ => p.Fails asked (k :: rest) s)
          (p.Fails asked (k :: rest) s) := by
      obtain ⟨log, passInv₁⟩ := steps.passInv passInv
      have fails (s₂ : Progress S V) (later : p.Fails asked rest s₁ s₂) :
          p.Fails asked (k :: rest) s s₂ := by
        refine ⟨steps.trans later.steps, ?_⟩
        rintro _ ⟨⟩ known
        exact later.steps.still passInv₁ (first known)
      refine .bind ((ih passInv₁).mono (fun more s₂ later => ?_) fails)
      exact (yields_pure _ s₂).after (fails s₂ later)
    refine (yields_get s).bind_after ?_
    cases found : s.graph.get? k with
    | none => exact (yields_pure [] s).bind_after (others [] .refl (by simp [found]))
    | some n =>
      have node := Graph.node_of_get? found
      cases finished : n.isFinished with
      | true =>
        simp only [finished, if_true]
        exact (yields_pure [] s).bind_after (others [] .refl fun _ => node ▸ finished)
      | false =>
        simp only [finished, Bool.false_eq_true, if_false]
        refine .bind ((fail_after cycle passInv (node ▸ finished) _).mono (fun ready s₁ done => ?_)
          fun s₁ done => ?_)
        · exact others ready (.single (.worked k done.1)) fun _ => done.2
        · refine ⟨.single (.worked k done.1), ?_⟩
          rintro _ ⟨⟩ -
          exact done.2

theorem failCycle_fails (cycle : Cycle) (passInv : s.PassInvariant p.version w new) :
    p.Fails asked cycle s (settle (p.failCycle cycle) [] s).2 := by
  refine After.settle (.bind ((failMembers_after cycle cycle passInv).mono
    (fun ready s' fails => ?_)
    fun _ => id)) []
  exact (yields_pure _ s').after fails

theorem failCycles_passSteps (cycles : List Cycle) (passInv : s.PassInvariant p.version w new) :
    p.PassSteps asked s (p.failCycles cycles s).2 := by
  induction cycles generalizing s new with
  | nil => exact .refl
  | cons cycle rest ih =>
    have first : p.PassSteps asked s _ := (failCycle_fails cycle passInv).steps
    obtain ⟨log, passInv₁⟩ := first.passInv passInv
    exact first.trans (ih passInv₁)

theorem unblock_finishes {roots queue : List Key} {cycles : List Cycle}
    (turn : p.turn roots queue s = .unblock cycles) (passInv : s.PassInvariant p.version w new) :
    ∃ k, (s.graph.node k).isFinished = false ∧ (s.graph.node k).isInFlight = true ∧
      ((p.failCycles cycles s).2.graph.node k).isFinished = true := by
  obtain ⟨-, stuck, -⟩ := stuck_of_unblock turn
  obtain ⟨-, -, -, some, found⟩ := turn_unblock turn
  have sound := (s.graph.cyclesFrom_sound (roots.filter fun root => !s.graph.isFinished root)).1
  rw [← found] at sound
  obtain ⟨cycle, rest, rfl⟩ := List.exists_cons_of_ne_nil some
  have isCycle := (sound cycle List.mem_cons_self).1
  obtain ⟨k, others, rfl⟩ := List.exists_cons_of_ne_nil isCycle.ne_nil
  obtain ⟨d, next⟩ := Cycle.exists_next (List.mem_cons_self (a := k) (l := others))
  obtain ⟨known, unfinished, awaited⟩ := s.graph.follows_waitEdges (isCycle.next next)
  have fails : p.Fails (fun _ => False) (k :: others) s _ := failCycle_fails (k :: others) passInv
  obtain ⟨log, passInv₁⟩ := fails.steps.passInv passInv
  refine ⟨k, unfinished, ?_, ?_⟩
  · obtain ⟨f, flight, -⟩ := Node.exists_flight_of_awaited awaited
    simp [Node.isInFlight, flight]
  · have others : p.PassSteps (fun _ => False) _ _ := failCycles_passSteps rest passInv₁
    exact others.still passInv₁ (fails.first k rfl known)

omit [BEq V] in
theorem turn_dispatch {roots queue rest : List Key}
    (turn : p.turn roots queue s = .dispatch k rest) :
    p.isStopped s = false ∧ queue.Perm (k :: rest) := by
  have spec := p.turn_spec roots queue s
  rwa [turn] at spec

variable {roots : List Key} {turn turn' : List Key × Progress S V}

theorem Turned.passSteps (confined : p.rules.Confined fun _ => True)
    (turned : p.Turned roots turn turn')
    (passInv : turn.2.PassInvariant p.version w new) : p.PassSteps asked turn.2 turn'.2 := by
  cases turned with
  | @dispatch queue s k rest turn => exact .single (dispatch_passStep confined passInv k)
  | @unblock queue s cycles turn => exact failCycles_passSteps cycles passInv

theorem turns_passSteps (confined : p.rules.Confined fun _ => True)
    (turns : ReflTransGen (p.Turned roots) turn turn')
    (passInv : turn.2.PassInvariant p.version w new) :
    p.PassSteps asked turn.2 turn'.2 := by
  induction turns with
  | refl => exact .refl
  | tail _ turned ih =>
    obtain ⟨log, later⟩ := ih.passInv passInv
    exact ih.trans (turned.passSteps confined later)

theorem Reaches.passSteps {queue : List Key} (confined : p.rules.Confined fun _ => True)
    (reaches : p.Reaches roots w queue s)
    (passInv : ({ world := w } : Progress S V).PassInvariant p.version w []) :
    p.PassSteps (· ∈ roots) { world := w } s := by
  have first : p.PassSteps (· ∈ roots) { world := w } _ :=
    enqueueAll_passSteps (fun _ => id) { world := w }
  obtain ⟨log, entered⟩ := first.passInv passInv
  exact first.trans (turns_passSteps confined reaches entered)

theorem Calls.passSteps {l l' : Ledger S V} (confined : p.rules.Confined fun _ => True)
    (calls : p.Calls l l') (passInv : l.state.PassInvariant p.version w new) :
    p.PassSteps (fun _ => True) l.state l'.state := by
  cases calls with
  | root k returns => exact .single ((enqueue_after trivial l.state).of_yields returns)
  | run k returns =>
    have dispatched : p.dispatch k l.state = (_, _) := settle_of_yields returns []
    have act : p.PassStep (fun _ => True) l.state _ := dispatch_passStep confined passInv k
    rw [dispatched] at act
    exact .single act
  | find roots => exact .refl
  | fail cycle found returns =>
    have fails : p.Fails (fun _ => True) cycle l.state _ := failCycle_fails cycle passInv
    rw [settle_of_yields returns []] at fails
    exact fails.steps
  | interrupt h =>
    have history : (l.state.world.interrupt h).history = l.state.world.history := by
      unfold World.interrupt
      split <;> rfl
    have graph : (l.state.world.interrupt h).graph = l.state.world.graph :=
      l.state.world.graph_interrupt h
    refine .single (.rest ?_ ?_ rfl ((World.Logs.refl _).of_history history))
    · exact congrArg Graph.node graph
    · exact congrArg Graph.version graph
  | outside outside => exact .single (.rest rfl rfl rfl ((World.Logs.refl _).of_history rfl))

theorem calls_passSteps {l l' : Ledger S V} (confined : p.rules.Confined fun _ => True)
    (calls : ReflTransGen p.Calls l l') (passInv : l.state.PassInvariant p.version w new) :
    p.PassSteps (fun _ => True) l.state l'.state := by
  induction calls with
  | refl => exact .refl
  | tail _ call ih =>
    obtain ⟨log, later⟩ := ih.passInv passInv
    exact ih.trans (call.passSteps confined later)

end Pass

end Recompute
