import Recompute.Proofs.Quiescent

set_option autoImplicit false

namespace Recompute

variable {S V : Type}

open Progress
open Relation (ReflTransGen)

def Listener.losses (listener : Listener) (old : List Event) : List Event → List Key
  | [] => []
  | .evaluated k ending :: rest =>
    if listener (.evaluated k ending :: rest ++ old) then k :: listener.losses old rest
    else listener.losses old rest
  | _ :: rest => listener.losses old rest

namespace Listener

variable (listener : Listener) (old : List Event)

theorem losses_append (new before : List Event) : listener.losses old (new ++ before) =
    listener.losses (before ++ old) new ++ listener.losses old before := by
  induction new with
  | nil => rfl
  | cons e rest ih =>
    cases e with
    | evaluated k ending =>
      simp only [List.cons_append, losses, ih, List.append_assoc]
      split <;> rfl
    | _ => exact ih

theorem endings_of_mem_losses {new : List Event} {k : Key} (lost : k ∈ listener.losses old new) :
    Event.endings new k ≠ [] := by
  induction new with
  | nil => simp [losses] at lost
  | cons e rest ih =>
    cases e with
    | evaluated l ending =>
      by_cases same : l = k
      · simp [Event.endings, same]
      · have later : k ∈ listener.losses old rest := by
          unfold losses at lost
          split at lost
          · exact (List.mem_cons.mp lost).resolve_left (Ne.symm same)
          · exact lost
        simpa [Event.endings, same] using ih later
    | _ => exact ih lost

theorem losses_of_quiet {new : List Event} (quiet : new.filter Event.isMilestone = []) :
    listener.losses old new = [] := by
  refine List.eq_nil_iff_forall_not_mem.mpr fun k lost => ?_
  refine listener.endings_of_mem_losses old lost ?_
  rw [← Event.endings_milestones, quiet]
  rfl

end Listener

namespace Progress

def lost (listener : Listener) (w : World S V) (s : Progress S V) : List Key :=
  listener.losses w.history (w.since s.world)

def Edged (listener : Listener) (w : World S V) (s : Progress S V) : Prop :=
  ∀ k d, k ∈ (s.graph.node d).dependents ↔
    d ∈ ((if k ∈ s.lost listener w then w else s.world).graph.node k).deps.flatten

variable {listener : Listener} {w : World S V} {s s' : Progress S V} {log : List Event}

theorem lost_of_logs (logs : w.Logs s.world log) {log' : List Event}
    (later : s.world.Logs s'.world log') : s'.lost listener w =
      listener.losses s.world.history (s.world.since s'.world) ++ s.lost listener w := by
  rw [lost, logs.since_trans later, Listener.losses_append, ← logs.history]
  rfl

theorem losses_of_logs (listener : Listener) (old : List Event) {w w' : World S V}
    {log : List Event}
    (logs : w.Logs w' log) (quiet : ∀ k, Event.endings log k = []) :
    listener.losses old (w.since w') = [] := by
  refine List.eq_nil_iff_forall_not_mem.mpr fun k lost => ?_
  refine listener.endings_of_mem_losses old lost ?_
  rw [logs.endings]
  exact quiet k

theorem losses_of_commit (listener : Listener) {w w' : World S V} {k : Key} {ending : Ending}
    (logs : w.Logs w' [.evaluated k ending]) {h : List Event} (before : w.history <:+ h)
    (told : w'.history = .evaluated k ending :: h) :
    listener.losses w.history (w.since w') = if listener w'.history then [k] else [] := by
  obtain ⟨added, rfl⟩ := before
  have since : w.since w' = .evaluated k ending :: added := by
    have history := logs.history
    rw [told, ← List.cons_append] at history
    exact (List.append_cancel_right history).symm
  have quiet : added.filter Event.isMilestone = [] := by
    have milestones := logs.since
    rw [since] at milestones
    exact (List.cons.inj milestones).2
  rw [since, Listener.losses, listener.losses_of_quiet _ quiet, told]
  rfl

theorem Edged.same (edged : Edged listener w s) (same : s.graph.SameResults s'.graph)
    (lost : s'.lost listener w = s.lost listener w) : Edged listener w s' := by
  intro k d
  rw [same.dependents, lost, edged k d]
  split
  · exact .rfl
  · exact (congrArg (d ∈ ·.flatten) (same.result k).deps.symm).to_iff

end Progress

namespace Pass

variable [BEq V] {p : Pass S V} {asked : Key → Prop} {w : World S V} {new : List Event}
  {s s' : Progress S V}

theorem WorkStep.edged {k : Key} (worked : p.WorkStep k s s')
    (passInv : s.PassInvariant p.version w new)
    (edged : Edged p.listener w s) : Edged p.listener w s' := by
  obtain ⟨effect, stamp, enqueued, logs, heard, -⟩ := worked
  have added : s'.lost p.listener w = _ := lost_of_logs passInv.logs logs
  have fresh (unfinished : (s.graph.node k).isFinished = false) :
      Event.endings new k = [] ∧ k ∉ s.lost p.listener w := by
    have none : Event.endings new k = [] := by
      by_contra some
      simp [passInv.told k some] at unfinished
    refine ⟨none, fun lost => p.listener.endings_of_mem_losses _ lost ?_⟩
    rw [passInv.logs.endings, none]
  have open' (out : k ∉ s.lost p.listener w) (d : Key) :
      k ∈ (s.graph.node d).dependents ↔ d ∈ (s.graph.node k).deps.flatten := by
    have here := edged k d
    rwa [if_neg out] at here
  cases effect with
  | publish m ending unfinished good renewed starts node =>
    obtain ⟨h, before, told, kept⟩ := heard ending rfl
    rw [losses_of_commit p.listener logs before told, kept, if_neg (by simp), List.nil_append]
      at added
    obtain ⟨-, out⟩ := fresh unfinished
    intro x d
    have result := (s.graph.settled_sameResult k m x).deps
    rw [node, Graph.mem_dependents_settled (open' out) renewed.dependents, added]
    by_cases same : x = k
    · subst same
      rw [Function.update_self] at result
      rw [if_pos rfl, if_neg out, ← result, ← node]
      rfl
    · rw [Function.update_of_ne same, ← node] at result
      rw [if_neg same, edged x d]
      split
      · exact .rfl
      · exact (congrArg (d ∈ ·.flatten) result.symm).to_iff
  | drop m ending unfinished good renewed starts node =>
    obtain ⟨h, before, told, kept⟩ := heard ending rfl
    rw [losses_of_commit p.listener logs before told, kept, if_pos rfl, List.singleton_append]
      at added
    obtain ⟨none, out⟩ := fresh unfinished
    intro x d
    rw [node, Graph.update_congr Node.dependents renewed.dependents, added]
    by_cases same : x = k
    · subst same
      rw [if_pos List.mem_cons_self, open' out, (passInv.kept x none).deps]
    · have others : s'.graph.node x = s.graph.node x := by
        rw [node, Function.update_of_ne same]
      rw [edged x d]
      simp only [List.mem_cons, same, false_or]
      split
      · exact .rfl
      · exact (congrArg (d ∈ ·.deps.flatten) others.symm).to_iff
  | park f f' n awaits reached entered pending log flight queued carried good flight' stage enough
      awaits' waiters some missing within source entered' node =>
    refine edged.same (Graph.sameResults_parked node carried.result carried.dependents) ?_
    rw [added, losses_of_logs _ _ logs ?_, List.nil_append]
    rcases source with ⟨rfl, -⟩ | rfl <;> simp [Event.endings]
  | hang f f' n log flight queued carried good flight' stage awaits' waiters source node =>
    refine edged.same (Graph.sameResults_update node carried.result carried.dependents) ?_
    rw [added, losses_of_logs _ _ logs ?_, List.nil_append]
    rcases source with rfl | ⟨absent, rfl, -⟩ <;> simp [Event.endings]

theorem PassStep.edged (act : p.PassStep asked s s') (passInv : s.PassInvariant p.version w new)
    (edged : Edged p.listener w s) : Edged p.listener w s' := by
  have quiet (logs : s.world.Logs s'.world []) : s'.lost p.listener w = s.lost p.listener w := by
    rw [lost_of_logs passInv.logs logs, losses_of_logs _ _ logs fun _ => rfl, List.nil_append]
  cases act with
  | rest node stamp enqueued logs =>
    exact edged.same ⟨fun l => node ▸ .refl _, fun l => node ▸ rfl⟩ (quiet logs)
  | enter k wanted unfinished idle node stamp enqueued logs =>
    exact edged.same (Graph.sameResults_update node (.flight _ _) rfl) (quiet logs)
  | worked k worked => exact worked.edged passInv edged

theorem PassSteps.edged (steps : p.PassSteps asked s s') (passInv : s.PassInvariant p.version w new)
    (edged : Edged p.listener w s) : Edged p.listener w s' := by
  induction steps with
  | refl => exact edged
  | tail before act ih =>
    obtain ⟨log, later⟩ := PassSteps.passInv before passInv
    exact act.edged later ih

end Pass

namespace Engine

variable [BEq V] {rules : Rules S V} {listener : Listener} {e : Engine S V}

-- A pass that starts with the right edges keeps those of every key but the ones whose commit was
-- lost: their edges are still those of what they had read before. So the edges are right after it
-- unless such a key has read something else this time.
theorem Reachable.edges_right_iff (reachable : Reachable rules listener e)
    (confined : rules.Confined fun _ => True) (linked : e.world.graph.Linked) (budget : Nat)
    (roots : List Key) (keepGoing : Bool) :
    let e' := (e.evaluate budget roots keepGoing).2
    let lost := listener.losses e.world.history (e.world.since e'.world)
    (∀ k d, k ∈ (e'.world.graph.node d).dependents ↔
        d ∈ ((if k ∈ lost then e else e').world.graph.node k).deps.flatten) ∧
      (e'.world.graph.Linked ↔ ∀ k ∈ lost, ∀ d,
        d ∈ (e'.world.graph.node k).deps.flatten ↔ d ∈ (e.world.graph.node k).deps.flatten) := by
  intro e' lost
  obtain ⟨s, new, steps, passInv, graph, history⟩ :=
    reachable.evaluate_passInv confined budget roots keepGoing
  have begun := Quiescent.passInv (reachable.quiescent confined) keepGoing
  have start : Edged (e.pass keepGoing).listener e.entry { world := e.entry } := by
    have none :
        ({ world := e.entry } : Progress S V).lost (e.pass keepGoing).listener e.entry = [] := by
      simp [Progress.lost, World.since, Listener.losses]
    intro k d
    rw [none, if_neg List.not_mem_nil]
    exact linked k d
  have edged := steps.edged begun start
  have same : s.lost (e.pass keepGoing).listener e.entry = lost := by
    have silent : (e.pass keepGoing).listener = listener := reachable.unchanged.2
    simp only [lost, e', Progress.lost, World.since, silent, history]
    rfl
  have node (k : Key) : e'.world.graph.node k = (s.graph.node k).abandon := by
    simp only [e', graph]
    exact passInv.node_abandon k
  have facts (k : Key) := (passInv.shape k).abandon_facts
  have edges (k d : Key) : k ∈ (e'.world.graph.node d).dependents ↔
      d ∈ ((if k ∈ lost then e else e').world.graph.node k).deps.flatten := by
    rw [node d, (facts d).2.2.1, edged k d, same]
    split
    · exact .rfl
    · rw [node k, (facts k).2.1]
      rfl
  refine ⟨edges, fun right k gone d => ?_, fun kept k d => ?_⟩
  · rw [← right k d, edges k d, if_pos gone]
  · rw [edges k d]
    split
    · next gone => exact (kept k gone d).symm
    · exact .rfl

end Engine

def Rules.copy : Rules Unit Nat := [("a", fun _ => Computation.need (.only "c"))]

theorem Rules.confined_copy (good : Unit → Prop) : Rules.copy.Confined good :=
  forall_cons (fun _ _ => Computation.confined_need _) forall_nil

def Listener.grudging : Listener
  | .evaluated k _ :: _ => k = .only "a"
  | _ => false

namespace Engine

def grudged : Engine Unit Nat := ((new Rules.copy .grudging ()).inject [(.only "c", 0)]).2

theorem reachable_grudged : Reachable Rules.copy .grudging grudged := .inject _ (.new ())

theorem edges_right_iff_grudged :
    let a : Key := .only "a"
    let e' := (grudged.evaluate 20 [a] true).2
    Listener.grudging.losses grudged.world.history (grudged.world.since e'.world) = [a] ∧
      ¬ e'.world.graph.Linked := by
  intro a e'
  have linked : grudged.world.graph.Linked := (Graph.idle_nil.inject [(.only "c", 0)]).linked
  obtain ⟨-, right⟩ :=
    reachable_grudged.edges_right_iff (Rules.confined_copy _) linked 20 [a] true
  refine ⟨by decide +kernel, ?_⟩
  rw [right]
  intro kept
  exact absurd (kept a (by decide +kernel) (.only "c")) (by decide +kernel)

theorem lost_commit_goes_stale :
    let a : Key := .only "a"
    let c : Key := .only "c"
    let e' := (grudged.evaluate 20 [a] true).2
    let told := (e'.inject [(c, 1)]).2
    (e'.world.graph.node a).deps = [[c]] ∧ a ∉ (e'.world.graph.node c).dependents ∧
      (told.world.graph.node c).value? = some 1 ∧ (told.world.graph.node a).isDirty = false ∧
      (told.evaluate 20 [a] true).1.toOption.bind (·.value? a) = some 0 := by
  decide +kernel

end Engine

end Recompute
