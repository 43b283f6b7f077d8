import Recompute.Proofs.SinceClaim

set_option autoImplicit false

namespace Recompute

variable {S V : Type}

namespace Graph

theorem carried_parked (g : Graph V) (k : Key) (n : Node V) (reached : List Key) (l : Key) :
    Node.Carried (Function.update g.node k n l) (g.parked k n reached l) := by
  unfold parked
  split
  · obtain ⟨f, registered⟩ := (Function.update g.node k n l).register_eq k
    rw [registered]
    exact .flight _ f
  · exact .refl _

theorem settled_dependents (g : Graph V) (k : Key) (m : Node V) (l : Key) :
    ((g.settled k m).node l).dependents.filter (· ≠ k) =
      (Function.update g.node k m l).dependents.filter (· ≠ k) := by
  obtain ⟨f, woken⟩ := countDown_wake ((g.put k m).relink k (g.node k).deps m.deps)
    (g.node k).waiters l
  have linked (n : Node V) : (n.addDependent k).dependents.filter (· ≠ k) =
      n.dependents.filter (· ≠ k) := by
    unfold Node.addDependent
    split <;> simp
  have unlinked (n : Node V) : (n.removeDependent k).dependents.filter (· ≠ k) =
      n.dependents.filter (· ≠ k) := by
    simp [Node.removeDependent]
  rw [settled, woken, ← put_node]
  simp only [node_relink]
  split
  · exact linked _
  · split
    · exact unlinked _
    · rfl

structure Spares (version : Nat) (k : Key) (log : List Event) (entered : List Key)
    (g g' : Graph V) : Prop where
  shape : g'.WellFormed
  waiterInv : g'.WaiterInvariant
  dated : ∀ l, (g'.node l).verifiedAt ≤ version
  attempt : ∀ l, l ≠ k → Node.SameAttempt (g.node l) (g'.node l)
  result : ∀ l, Event.endings log l = [] → Node.SameResult (g.node l) (g'.node l)
  told : ∀ l, Event.endings log l ≠ [] → l = k ∧ (g'.node k).isFinished = true
  starts : ∀ l, (g.node l).starts ≤ (g'.node l).starts
  dependents : ∀ l, (g'.node l).dependents.filter (Event.endings log · = []) =
    (g.node l).dependents.filter (Event.endings log · = [])
  tracked : ∀ l, (g'.node l).isInFlight = true → (g.node l).isInFlight = true ∨ l ∈ entered

namespace WorkEffect

variable [BEq V] {version : Nat} {k : Key} {g g' : Graph V} {entered : List Key} {log : List Event}
  {lost : Bool}

theorem endings_evaluated (k l : Key) (ending : Ending) :
    Event.endings [.evaluated k ending] l = [] ↔ l ≠ k := by
  by_cases same : k = l <;> simp [Event.endings, same, eq_comm]

omit [BEq V] in
theorem spares_parked {n : Node V} {reached : List Key} (shape : g.WellFormed)
    (dated : ∀ l, (g.node l).verifiedAt ≤ version) (waiterInv : g'.WaiterInvariant)
    (tracked : (g.node k).isInFlight = true ∨ k ∈ entered) (carried : Node.Carried (g.node k) n)
    (good : n.WellFormed)
    (quiet : ∀ l, Event.endings log l = [])
    (missing : ∀ d ∈ reached, (g.node d).isFinished = false)
    (entered' : ∀ d ∈ reached, (g.node d).isInFlight = false → d ∈ entered)
    (node : g'.node = g.parked k n reached) : g.Spares version k log entered g' where
  shape l := node ▸ wellFormed_parked shape good reached l
  waiterInv := waiterInv
  dated l := by
    rw [((sameResults_parked node carried.result carried.dependents).result l).verifiedAt]
    exact dated l
  attempt l ne := by
    rw [node]
    exact sameAttempt_parked (unfinished_update carried.result missing) ne
  result l _ := (sameResults_parked node carried.result carried.dependents).result l
  told l some := absurd (quiet l) some
  starts l := by
    have parked := (g.carried_parked k n reached l).starts
    rw [node]
    exact Nat.le_trans (update_rel (R := fun n n' => n.starts ≤ n'.starts) (fun _ => Nat.le_refl _)
      carried.starts l) parked
  dependents l := by
    rw [(sameResults_parked node carried.result carried.dependents).dependents l]
  tracked l flying := by
    rw [node, isInFlight_parked (unfinished_update carried.result missing)] at flying
    by_cases same : l = k
    · exact same ▸ tracked
    · rw [Function.update_of_ne same, Bool.or_eq_true, decide_eq_true_eq] at flying
      by_cases before : (g.node l).isInFlight = true
      · exact .inl before
      · refine .inr (entered' l (flying.resolve_left before) ?_)
        simpa using before

theorem spares_finished {m : Node V} {ending : Ending} (shape : g'.WellFormed)
    (waiterInv : g'.WaiterInvariant)
    (dated : ∀ l, (g.node l).verifiedAt ≤ version) (renewed : Node.Renewed version (g.node k) m)
    (later : (g.node k).starts ≤ m.starts)
    (attempt : ∀ l, l ≠ k → Node.SameAttempt (g.node l) (g'.node l))
    (result : ∀ l, Node.SameResult (Function.update g.node k m l) (g'.node l))
    (starts : ∀ l, (g'.node l).starts = (Function.update g.node k m l).starts)
    (dependents : ∀ l, (g'.node l).dependents.filter (· ≠ k) =
      (Function.update g.node k m l).dependents.filter (· ≠ k))
    (flying : ∀ l, (g'.node l).isInFlight = (Function.update g.node k m l).isInFlight) :
    g.Spares version k [.evaluated k ending] [] g' where
  shape := shape
  waiterInv := waiterInv
  dated l := by
    rw [(result l).verifiedAt]
    exact update_all (P := (·.verifiedAt ≤ version)) dated (Nat.le_of_eq renewed.verifiedAt) l
  attempt := attempt
  result l none := by
    have same := result l
    rw [Function.update_of_ne ((endings_evaluated k l ending).mp none)] at same
    exact same
  told l some := by
    have same : l = k := by
      by_contra other
      exact some ((endings_evaluated k l ending).mpr other)
    refine ⟨same, ?_⟩
    rw [(result k).finished, Function.update_self]
    exact renewed.finished
  starts l := by
    rw [starts]
    exact update_rel (R := fun n n' => n.starts ≤ n'.starts) (fun _ => Nat.le_refl _) later l
  dependents l := by
    have others : (fun x => decide (Event.endings [.evaluated k ending] x = [])) =
        fun x => decide (x ≠ k) := by
      funext x
      simp [endings_evaluated]
    rw [others, dependents]
    by_cases same : l = k
    · subst same
      simp [renewed.dependents]
    · simp [same]
  tracked l inFlight := by
    rw [flying] at inFlight
    by_cases same : l = k
    · subst same
      simp [Node.isInFlight, renewed.idle] at inFlight
    · rw [Function.update_of_ne same] at inFlight
      exact .inl inFlight

theorem spares (effect : g.WorkEffect version k g' entered log lost) (shape : g.WellFormed)
    (waiterInv : g.WaiterInvariant) (dated : ∀ l, (g.node l).verifiedAt ≤ version) :
    g.Spares version k log entered g' := by
  cases effect with
  | publish m ending unfinished good renewed starts node =>
    have once := waiterInv.once k
    refine spares_finished (m := m) (fun l => ?_) ?_ dated renewed starts (fun l ne => ?_)
      (fun l => ?_)
      (fun l => ?_) (fun l => ?_) fun l => ?_
    · rw [node]
      exact wellFormed_settled shape good l
    · exact waiterInv.settle shape node unfinished renewed.finished renewed.idle
    · rw [node]
      exact sameAttempt_settled once m ne
    · rw [node]
      exact g.settled_sameResult k m l
    · rw [node, settled_starts]
    · rw [node, settled_dependents]
    · rw [node, isInFlight_settled once]
  | drop m ending unfinished good renewed starts node =>
    refine spares_finished (m := m) (fun l => ?_) ?_ dated renewed starts (fun l ne => ?_)
      (fun l => ?_)
      (fun l => ?_) (fun l => ?_) fun l => ?_
    · rw [node]
      exact wellFormed_update shape good l
    · exact waiterInv.drop shape node unfinished renewed.finished renewed.idle
    · rw [node, Function.update_of_ne ne]
      exact .refl _
    all_goals rw [node]
    exact .refl _
  | park f f' n awaits reached entered pending log flight queued carried good flight' stage enough
      awaits' waiters some missing within source entered' node =>
    have unfinished := (shape k).unfinished_of_flight flight
    have flying : (g.node k).isInFlight = true := by simp [Node.isInFlight, flight]
    have open' : ∀ d ∈ reached, (g.node d).isFinished = false :=
      fun d inside => missing d (within inside)
    refine spares_parked shape dated ?_ (.inl flying) carried good (fun l => ?_) open'
      (fun d inside idle => (entered' d).mpr ⟨inside, idle⟩) node
    · refine waiterInv.park node ?_ unfinished (carried.unfinished unfinished) flight'
        ?_ open' ?_ ?_
      · intro f₀ m found parked
        cases flight.symm.trans found
        simp [queued] at parked
      · simp [waiters, Node.waiters, flight]
      · rw [awaits']
        exact within
      · rw [awaits', stage]
        exact Nat.le_trans (List.length_filter_le _ _) enough
    · rcases source with ⟨rfl, -⟩ | rfl <;> simp [Event.endings]
  | hang f f' n log flight queued carried good flight' stage awaits' waiters source node =>
    have unfinished := (shape k).unfinished_of_flight flight
    have flying : (g.node k).isInFlight = true := by simp [Node.isInFlight, flight]
    refine spares_parked shape dated ?_ (.inl flying) carried good (fun l => ?_) (by simp) (by simp)
      (node.trans (parked_nil g k n).symm)
    · refine waiterInv.renew node ?_ unfinished (carried.unfinished unfinished) flight' ?_ ?_
      · intro f₀ m found parked
        cases flight.symm.trans found
        simp [queued] at parked
      · simp [waiters, Node.waiters, flight]
      · simp [awaits', Node.awaits, flight]
    · rcases source with rfl | ⟨absent, rfl, -⟩ <;> simp [Event.endings]

end WorkEffect

variable {version : Nat} {g g' : Graph V}

theorem WaiterInvariant.of_node (waiterInv : g.WaiterInvariant) (node : g'.node = g.node) :
    g'.WaiterInvariant where
  once := node ▸ waiterInv.once
  waiting := node ▸ waiterInv.waiting
  counted := by
    rw [node, missing_of_node node]
    exact waiterInv.counted
  ready := node ▸ waiterInv.ready

theorem spares_rest (shape : g.WellFormed) (waiterInv : g.WaiterInvariant)
    (dated : ∀ l, (g.node l).verifiedAt ≤ version) (node : g'.node = g.node) (k : Key) :
    g.Spares version k [] [] g' where
  shape := by
    rw [WellFormed, node]
    exact shape
  waiterInv := waiterInv.of_node node
  dated := node ▸ dated
  attempt _ _ := node ▸ .refl _
  result _ _ := node ▸ .refl _
  told _ some := absurd rfl some
  starts _ := node ▸ Nat.le_refl _
  dependents _ := node ▸ rfl
  tracked _ inFlight := .inl (node ▸ inFlight)

theorem spares_enter (shape : g.WellFormed) (waiterInv : g.WaiterInvariant)
    (dated : ∀ l, (g.node l).verifiedAt ≤ version) {k : Key}
    (unfinished : (g.node k).isFinished = false) (idle : (g.node k).flight = none)
    (node : g'.node = Function.update g.node k { g.node k with flight := some {} }) :
    g.Spares version k [] [k] g' := by
  refine WorkEffect.spares_parked shape dated ?_ (.inr (by simp)) (.flight _ _)
    ((shape k).enqueued unfinished idle []) (fun _ => rfl) (by simp) (by simp)
    (node.trans (parked_nil g k _).symm)
  exact waiterInv.renew node (by simp [idle]) unfinished unfinished rfl
    (by simp [Node.waiters, idle]) (by simp [Node.awaits, idle])

end Graph

namespace Progress

-- What a pass of `version` that began in `w` has kept, with these milestones, whatever became of
-- the events that it reported.
structure PassInvariant (version : Nat) (w : World S V) (new : List Event)
    (s : Progress S V) : Prop where
  stamp : s.graph.version = version
  shape : s.graph.WellFormed
  waiterInv : s.graph.WaiterInvariant
  dated : ∀ l, (s.graph.node l).verifiedAt ≤ version
  tracked : ∀ l, (s.graph.node l).isInFlight = true → l ∈ s.enqueued
  logs : w.Logs s.world new
  kept : ∀ l, Event.endings new l = [] → Node.SameResult (w.graph.node l) (s.graph.node l)
  told : ∀ l, Event.endings new l ≠ [] → (s.graph.node l).isFinished = true
  starts : ∀ l, (w.graph.node l).starts ≤ (s.graph.node l).starts
  dependents : ∀ l, (s.graph.node l).dependents.filter (Event.endings new · = []) =
    (w.graph.node l).dependents.filter (Event.endings new · = [])

variable {version : Nat} {w : World S V} {new log : List Event} {s s' : Progress S V} {k : Key}
  {entered : List Key}

theorem PassInvariant.proceed (passInv : s.PassInvariant version w new)
    (spares : s.graph.Spares version k log entered s'.graph)
    (stamp : s'.graph.version = s.graph.version) (enqueued : s'.enqueued = s.enqueued ++ entered)
    (logs : s.world.Logs s'.world log) : s'.PassInvariant version w (log ++ new) where
  stamp := stamp.trans passInv.stamp
  shape := spares.shape
  waiterInv := spares.waiterInv
  dated := spares.dated
  tracked l inFlight := by
    rw [enqueued, List.mem_append]
    exact (spares.tracked l inFlight).imp_left (passInv.tracked l)
  logs := passInv.logs.trans logs
  kept l none := by
    rw [Event.endings_append, List.append_eq_nil_iff] at none
    exact (passInv.kept l none.2).trans (spares.result l none.1)
  told l some := by
    rw [Event.endings_append] at some
    by_cases quiet : Event.endings log l = []
    · rw [(spares.result l quiet).finished]
      refine passInv.told l ?_
      simpa [quiet] using some
    · obtain ⟨rfl, finished⟩ := spares.told l quiet
      exact finished
  starts l := Nat.le_trans (passInv.starts l) (spares.starts l)
  dependents l := by
    have split : (fun x => decide (Event.endings (log ++ new) x = [])) = fun x =>
        decide (Event.endings log x = []) && decide (Event.endings new x = []) := by
      funext x
      simp
    rw [split, ← List.filter_filter, ← List.filter_filter]
    calc
      _ = ((s'.graph.node l).dependents.filter (Event.endings log · = [])).filter
          (Event.endings new · = []) := List.filter_comm _ _ _
      _ = ((s.graph.node l).dependents.filter (Event.endings log · = [])).filter
          (Event.endings new · = []) := by rw [spares.dependents]
      _ = ((s.graph.node l).dependents.filter (Event.endings new · = [])).filter
          (Event.endings log · = []) := List.filter_comm _ _ _
      _ = _ := by rw [passInv.dependents]

end Progress

theorem Graph.Spares.still {version : Nat} {k : Key} {log : List Event} {entered : List Key}
    {g g' : Graph V} (spares : g.Spares version k log entered g') {d : Key}
    (finished : (g.node d).isFinished = true) : (g'.node d).isFinished = true := by
  by_cases quiet : Event.endings log d = []
  · rw [(spares.result d quiet).finished]
    exact finished
  · obtain ⟨rfl, now⟩ := spares.told d quiet
    exact now

namespace Progress

theorem PassInvariant.start {w : World S V} (shape : w.graph.WellFormed)
    (idle : ∀ k, (w.graph.node k).flight = none)
    (dated : ∀ k, (w.graph.node k).verifiedAt ≤ w.graph.version) :
    ({ world := { w with graph := w.graph.advance } } : Progress S V).PassInvariant
      (w.graph.version + 1)
      { w with graph := w.graph.advance } [] where
  stamp := rfl
  shape := shape
  waiterInv := Graph.waiterInv_of_idle idle
  dated l := Nat.le_succ_of_le (dated l)
  tracked l inFlight := by
    have none : ((w.graph.node l).isInFlight) = true := inFlight
    simp [Node.isInFlight, idle] at none
  logs := .refl _
  kept _ _ := .refl _
  told _ some := absurd rfl some
  starts _ := Nat.le_refl _
  dependents _ := rfl

end Progress

namespace Pass

variable [BEq V] {p : Pass S V} {asked : Key → Prop} {w : World S V} {new : List Event}
  {s s' : Progress S V}

theorem PassStep.spares (act : p.PassStep asked s s') (passInv : s.PassInvariant p.version w new) :
    ∃ k log entered, s.graph.Spares p.version k log entered s'.graph ∧
      s'.PassInvariant p.version w (log ++ new) := by
  cases act with
  | rest node stamp enqueued logs =>
    have spares := Graph.spares_rest passInv.shape passInv.waiterInv passInv.dated node default
    exact ⟨_, _, _, spares, passInv.proceed spares stamp (by simp [enqueued]) logs⟩
  | enter k wanted unfinished idle node stamp enqueued logs =>
    have spares :=
      Graph.spares_enter passInv.shape passInv.waiterInv passInv.dated unfinished idle node
    exact ⟨_, _, _, spares, passInv.proceed spares stamp enqueued logs⟩
  | worked k worked =>
    obtain ⟨effect, stamp, enqueued, logs, -, -⟩ := worked
    have spares := effect.spares passInv.shape passInv.waiterInv passInv.dated
    exact ⟨_, _, _, spares, passInv.proceed spares stamp enqueued logs⟩

theorem PassSteps.passInv (steps : p.PassSteps asked s s')
    (passInv : s.PassInvariant p.version w new) :
    ∃ log, s'.PassInvariant p.version w (log ++ new) := by
  induction steps with
  | refl => exact ⟨[], passInv⟩
  | tail _ act ih =>
    obtain ⟨log, passInv⟩ := ih
    obtain ⟨-, log', -, -, passInv⟩ := act.spares passInv
    exact ⟨log' ++ log, List.append_assoc _ _ _ ▸ passInv⟩

theorem PassSteps.still (steps : p.PassSteps asked s s') (passInv : s.PassInvariant p.version w new)
    {d : Key}
    (finished : (s.graph.node d).isFinished = true) : (s'.graph.node d).isFinished = true := by
  induction steps with
  | refl => exact finished
  | tail before act ih =>
    obtain ⟨log, passInv⟩ := PassSteps.passInv before passInv
    obtain ⟨_, _, _, spares, -⟩ := act.spares passInv
    exact spares.still ih

end Pass

end Recompute
