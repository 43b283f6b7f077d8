import Recompute.Proofs.Origins
import Recompute.Proofs.Stamps

set_option autoImplicit false

namespace Recompute

variable {S V : Type} [BEq V]

theorem Failure.message_of_fault {k : Key} {f : Failure} {fault : Fault}
    (attributed : f.Attributed k) (carried : f.fault? = some fault) :
    ∃ first origin rest, f.causes.head? = some first ∧
      f.message = origin ++ (" at " ++ first.render) ++ (": " ++ fault.text) ++ rest := by
  cases attributed with
  | direct =>
    cases carried
    exact ⟨k, _, _, rfl, rfl⟩
  | cycle => cases carried
  | @transitive causes _ cycles some =>
    cases carried
    obtain ⟨first, others, rfl⟩ := List.exists_cons_of_ne_nil some
    exact ⟨first, _, _, rfl, rfl⟩

theorem Graph.cached_inject {g : Graph V} {values : List (Key × V)} {k : Key} {f : Failure}
    (cached : ((g.inject values).2.2.node k).cached = some (.error f)) :
    (g.node k).cached = some (.error f) := by
  refine inject_records (P := fun h => (h.node k).cached = some (.error f) →
    (g.node k).cached = some (.error f)) (fun g₁ g₂ same before after => ?_) g id
    (fun g₁ l v before after => ?_) values cached
  · exact before ((same k).cached.symm.trans after)
  · rw [(sameResult_given g₁ l v _ k).cached] at after
    by_cases at_l : k = l
    · subst at_l
      obtain ⟨w, value, -⟩ := (g₁.node k).inject_value v (g.version + 1)
      rw [Function.update_self, value] at after
      cases after
    · rw [Function.update_of_ne at_l] at after
      exact before after

namespace Engine

variable {rules : Rules S V} {listener : Listener} {e : Engine S V}

theorem calls_concat (e : Engine S V) (cs : List (Call S V)) (c : Call S V) :
    (e.calls (cs ++ [c])).2 = ((e.calls cs).2.call c).2 := by
  induction cs generalizing e with
  | nil => rfl
  | cons first rest ih => exact ih (e.call first).2

theorem Reachable.cached_call (reachable : Reachable rules listener e)
    (confined : rules.Confined fun _ => True) (c : Call S V) {k : Key} {f : Failure}
    (cached : ((e.call c).2.world.graph.node k).cached = some (.error f)) :
    (e.world.graph.node k).cached = some (.error f) ∨ (e.call c).2.world.graph.Failed k f := by
  cases c with
  | evaluate budget roots keepGoing =>
    obtain ⟨s, new, steps, passInv, graph, -⟩ :=
      reachable.evaluate_passInv confined budget roots keepGoing
    have dated := Pass.PassSteps.dated (w := e.entry) steps (fun l => .inl (.refl _)) k
    change ((e.evaluate budget roots keepGoing).2.world.graph.node k).cached = _ at cached
    have given := (passInv.shape k).sameResult_abandon
    have last : (e.evaluate budget roots keepGoing).2.world.graph.node k =
        (s.graph.node k).abandon := by
      rw [graph, passInv.node_abandon]
    rw [last, given.cached] at cached
    rcases dated with same | ⟨finished, -⟩
    · exact .inl (same.cached.symm.trans cached)
    · right
      change ((e.evaluate budget roots keepGoing).2.world.graph.node k).outcome? = _
      rw [last, given.outcome?]
      exact Node.outcome?_eq_some.mpr ⟨finished, cached⟩
  | handle => exact .inl cached
  | interrupt h =>
    have graph : (e.call (.interrupt h)).2.world.graph = e.world.graph :=
      World.graph_interrupt e.world h
    exact .inl (graph ▸ cached)
  | inject values =>
    have graph : (e.call (.inject values)).2.world.graph = (e.world.graph.inject values).2.2 :=
      World.graph_inject e.world values
    rw [graph] at cached
    exact .inl (Graph.cached_inject cached)
  | invalidate keys =>
    have graph : (e.call (.invalidate keys)).2.world.graph = (e.world.graph.invalidate keys).2.2 :=
      World.graph_invalidate e.world keys
    rw [graph, (e.world.graph.sameRecords_invalidate keys k).cached] at cached
    exact .inl cached
  | reset => cases cached
  | outside | reorder => exact .inl cached

theorem Reachable.failed_once (reachable : Reachable rules listener e)
    (confined : rules.Confined fun _ => True) {k : Key} {f : Failure}
    (cached : (e.world.graph.node k).cached = some (.error f)) :
    ∃ e₀ cs, Reachable rules listener e₀ ∧ e = (e₀.calls cs).2 ∧
      (e.world.graph.Failed k f → cs = []) ∧ e₀.world.graph.Failed k f := by
  have step {e : Engine S V} (c : Call S V) (before : Reachable rules listener e)
      (ih : (e.world.graph.node k).cached = some (.error f) →
        ∃ e₀ cs, Reachable rules listener e₀ ∧ e = (e₀.calls cs).2 ∧
          (e.world.graph.Failed k f → cs = []) ∧ e₀.world.graph.Failed k f)
      (cached : ((e.call c).2.world.graph.node k).cached = some (.error f)) :
      ∃ e₀ cs, Reachable rules listener e₀ ∧ (e.call c).2 = (e₀.calls cs).2 ∧
        ((e.call c).2.world.graph.Failed k f → cs = []) ∧ e₀.world.graph.Failed k f := by
    by_cases now : (e.call c).2.world.graph.Failed k f
    · exact ⟨(e.call c).2, [], before.call c, rfl, fun _ => rfl, now⟩
    · have former := (before.cached_call confined c cached).resolve_right now
      obtain ⟨e₀, cs, reachable, rfl, -, failed⟩ := ih former
      exact ⟨e₀, cs ++ [c], reachable, (calls_concat e₀ cs c).symm, fun failed => absurd failed now,
        failed⟩
  induction reachable with
  | new => cases cached
  | evaluate budget roots keepGoing before ih =>
    exact step (.evaluate budget roots keepGoing) before ih cached
  | interrupt h before ih => exact step (.interrupt h) before ih cached
  | inject values before ih => exact step (.inject values) before ih cached
  | invalidate keys before ih => exact step (.invalidate keys) before ih cached
  | reset before ih => exact step .reset before ih cached
  | outside outside before ih => exact step (.outside outside) before ih cached
  | reorder order before ih => exact step (.reorder order) before ih cached

-- A failure on record carries the fault of the first of its causes whose own rule has failed, as
-- they stood when it was committed. Its message names the first cause of all, whose fault this is
-- unless that one sits on a cycle.
theorem Reachable.fault_of_first_own (reachable : Reachable rules listener e)
    (steady : listener.Steady) (confined : rules.Confined fun _ => True) {k : Key} {f : Failure}
    (failure : (e.world.graph.node k).failure? = some f) :
    ∃ (e₀ : Engine S V) (cs : List (Call S V)), Reachable rules listener e₀ ∧
      e = (e₀.calls cs).2 ∧ ((e.world.graph.node k).isDirty = false → cs = []) ∧
      let g := e₀.world.graph
      (g.node k).isDirty = false ∧ (g.node k).failure? = some f ∧
      f.fault? = f.causes.findSome? g.ownFault ∧
      ∀ fault, f.fault? = some fault → ∃ first origin rest, f.causes.head? = some first ∧
        f.message = origin ++ (" at " ++ first.render) ++ (": " ++ fault.text) ++ rest ∧
        ((g.node first).failure? = some (.direct first fault) ↔
          ∀ c, (g.node first).failure? ≠ some (.cycle c)) := by
  obtain ⟨e₀, cs, reachable₀, last, now, failed⟩ :=
    reachable.failed_once confined (Node.failure?_eq_some.mp failure).2
  have shape := (reachable.resting steady confined).shape
  have shape₀ := (reachable₀.resting steady confined).shape
  have accounted := reachable₀.accounted steady confined
  have explained := accounted.explained failed
  obtain ⟨clean, failure₀⟩ := (Graph.failed_iff (shape₀ k)).mp failed
  refine ⟨e₀, cs, reachable₀, last, fun clean => now ?_, clean, failure₀, explained.fault,
    fun fault carried => ?_⟩
  · exact (Graph.failed_iff (shape k)).mpr ⟨clean, failure⟩
  obtain ⟨first, origin, rest, head, message⟩ :=
    Failure.message_of_fault explained.attributed carried
  refine ⟨first, origin, rest, head, message, ?_⟩
  obtain ⟨others, causes⟩ : ∃ others, f.causes = first :: others := by
    cases causes : f.causes with
    | nil => simp [causes] at head
    | cons cause others => simp_all
  have cause : first ∈ f.causes := causes ▸ List.mem_cons_self
  obtain ⟨-, f', failed', kind⟩ := explained.causes first cause
  have failure' := ((Graph.failed_iff (shape₀ first)).mp failed').2
  rw [failure']
  cases f' with
  | direct key own =>
    cases (accounted.explained failed').attributed
    have found := explained.fault
    rw [causes, List.findSome?_cons, Graph.ownFault_of_failed failed', carried] at found
    cases found
    simp
  | cycle members => simp
  | transitive | interrupted => simp [Failure.kind] at kind

theorem fault_of_first_own_tangle :
    let a : Key := .only "a"
    let c : Key := .only "c"
    let e := (tangle.invalidate [c]).2
    (e.world.graph.node (.only "y")).isDirty = true ∧
      ∃ (e₀ : Engine Unit Nat) (cs : List (Call Unit Nat)), Reachable Rules.tangle .steady e₀ ∧
        e = (e₀.calls cs).2 ∧ (e₀.world.graph.node (.only "y")).isDirty = false ∧
        [a, c].findSome? e₀.world.graph.ownFault = some (.message "boom") ∧
        ((e₀.world.graph.node a).failure? = some (.direct a (.message "boom")) ↔
          ∀ members, (e₀.world.graph.node a).failure? ≠ some (.cycle members)) := by
  intro a c e
  have reachable : Reachable Rules.tangle .steady e := .invalidate _ reachable_tangle
  have failure : (e.world.graph.node (.only "y")).failure? =
      some (.transitive [a, c] (some (.message "boom")) [[a]]) := by
    decide +kernel
  obtain ⟨e₀, cs, reachable₀, last, -, clean, -, found, blamed⟩ :=
    reachable.fault_of_first_own (fun _ => rfl) (Rules.confined_tangle _) failure
  obtain ⟨first, -, -, head, -, own⟩ := blamed _ rfl
  cases head
  exact ⟨by decide +kernel, e₀, cs, reachable₀, last, clean, found.symm, own⟩

theorem fault_of_another_tangle :
    let a : Key := .only "a"
    let g := tangle.world.graph
    Reachable Rules.tangle .steady tangle ∧
      ∃ f, (g.node (.only "x")).failure? = some f ∧ f.causes.head? = some a ∧
        f.fault? = some (.message "boom") ∧ (g.node a).failure? = some (.cycle [a]) ∧
        g.ownFault (.only "c") = some (.message "boom") ∧
        f.message = "dependency failed at a(()): boom (cycle: a(()) -> a(()))" := by
  intro a g
  refine ⟨reachable_tangle, .transitive [a, .only "c"] (some (.message "boom")) [[a]], ?_⟩
  decide +kernel

end Engine

end Recompute
