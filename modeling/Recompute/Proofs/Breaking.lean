import Recompute.Proofs.Dependents
import Recompute.Proofs.Runs
import Recompute.Proofs.Waits

set_option autoImplicit false

namespace Recompute

variable {S V : Type}

namespace Node

def found (n : Node V) : List Key :=
  match n.flight with
  | none => []
  | some f => if n.status = .verifying then (n.deps.take f.verified).flatten else f.memo.keys

structure Spared (n m : Node V) : Prop where
  asked : m.asked = n.asked
  awaits : m.awaits = n.awaits
  result : SameResult n m

theorem Spared.refl (n : Node V) : Spared n n := ⟨rfl, rfl, .refl n⟩

theorem Spared.trans {n m l : Node V} (first : Spared n m) (second : Spared m l) : Spared n l :=
  ⟨second.asked.trans first.asked, second.awaits.trans first.awaits, first.result.trans second.result⟩

theorem SameAttempt.spared {n m : Node V} (same : SameAttempt n m) (result : SameResult n m) :
    Spared n m := ⟨same.asked, same.awaits, result⟩

theorem awaits_subset_asked (n : Node V) : n.awaits ⊆ n.asked := by
  intro d inside
  obtain ⟨f, flight, awaited⟩ := exists_flight_of_awaited inside
  simp [Node.asked, flight, awaited]

def broken (n : Node V) (cycle : Cycle) (version : Nat) : Node V :=
  (n.fail (.cycle cycle) (if n.asked = [] then [] else [n.asked]) version).2

theorem deps_broken (n : Node V) (cycle : Cycle) (version : Nat) :
    (n.broken cycle version).deps.flatten = n.asked := by
  change (if n.asked = [] then [] else [n.asked]).flatten = n.asked
  by_cases none : n.asked = [] <;> simp [none]

theorem broken_congr {n m : Node V} (spared : Spared n m) (cycle : Cycle) (version : Nat) :
    SameResult (n.broken cycle version) (m.broken cycle version) := by
  have deps : (m.broken cycle version).deps = (n.broken cycle version).deps := by
    change (if m.asked = [] then [] else [m.asked]) = if n.asked = [] then [] else [n.asked]
    rw [spared.asked]
  exact ⟨rfl, rfl, deps, rfl, rfl, rfl, rfl⟩

theorem WellFormed.found_subset_asked_iff {n : Node V} (shape : n.WellFormed)
    (apart : n.status = .verifying → ∀ d ∈ n.found, d ∉ n.awaits) :
    n.found ⊆ n.asked ↔ (n.status = .verifying → n.found = []) := by
  -- A node that is verified parks with an empty memo, so what its groups have read is left out.
  cases flight : n.flight with
  | none => simp [found, flight]
  | some f =>
    have asked : n.asked = f.memo.keys.filter (· ∉ f.awaits) ++ f.awaits := by simp [Node.asked, flight]
    have awaits : n.awaits = f.awaits := by simp [Node.awaits, flight]
    rw [asked]
    by_cases verifying : n.status = .verifying
    · have memo := shape.memo f flight (by simp [verifying])
      have apart := awaits ▸ apart verifying
      simp only [verifying, forall_const, memo, Table.keys, List.map_nil, List.filter_nil,
        List.nil_append]
      refine ⟨fun all => List.eq_nil_iff_forall_not_mem.mpr fun d inside => ?_, fun none => ?_⟩
      · exact apart d inside (all inside)
      · rw [none]
        exact List.nil_subset _
    · have found : n.found = f.memo.keys := by simp [found, flight, verifying]
      simp only [verifying, false_implies, iff_true, found]
      intro d inside
      by_cases awaited : d ∈ f.awaits <;> simp [awaited, inside]

end Node

variable [BEq V] {p : Pass S V} {s s' : Progress S V}

namespace Pass

theorem Break.spared {cycle : Cycle} {k : Key} (broken : Break p cycle k s s')
    (running : s.Running p.version) :
    Node.SameResult ((s.graph.node k).broken cycle p.version) (s'.graph.node k) ∧
      ∀ l, l ≠ k → Node.Spared (s.graph.node l) (s'.graph.node l) := by
  have same := s.graph.settled_sameResult k ((s.graph.node k).broken cycle p.version)
  rw [broken.node]
  refine ⟨?_, fun l ne => ?_⟩
  · have here := same k
    rw [Function.update_self] at here
    exact here
  · have there := same l
    rw [Function.update_of_ne ne] at there
    exact (Graph.sameAttempt_settled (running.signalled.once _) _ ne).spared there

def Stuck (s : Progress S V) (k : Key) : Prop :=
  (s.graph.node k).isFinished = false ∧ (s.graph.node k).awaits ≠ []

omit [BEq V] in
theorem Stuck.spared {k : Key} (stuck : Stuck s k)
    (spared : Node.Spared (s.graph.node k) (s'.graph.node k)) : Stuck s' k :=
  ⟨spared.result.finished.trans stuck.1, spared.awaits ▸ stuck.2⟩

theorem Breaks.spared {cycle : Cycle} {keys : List Key} (breaks : Breaks p cycle keys s s')
    (running : s.Running p.version) (once : keys.Nodup) (stuck : ∀ k ∈ keys, Stuck s k) :
    (∀ k ∈ keys, Node.SameResult ((s.graph.node k).broken cycle p.version) (s'.graph.node k)) ∧
      ∀ l, l ∉ keys → Node.Spared (s.graph.node l) (s'.graph.node l) := by
  induction breaks with
  | nil => simp [Node.Spared.refl]
  | @skip k rest s s' gone _ _ =>
    obtain ⟨unfinished, waits⟩ := stuck k List.mem_cons_self
    rcases gone with none | finished
    · simp [Graph.node, none, Node.awaits] at waits
    · simp [unfinished] at finished
  | @fail k rest s s₁ s' first _ ih =>
    obtain ⟨out, once⟩ := List.nodup_cons.mp once
    obtain ⟨here, others⟩ := Break.spared first running
    have ne {l : Key} (inside : l ∈ rest) : l ≠ k := fun same => out (same ▸ inside)
    obtain ⟨members, rest'⟩ := ih (first.running running) once fun l inside =>
      (stuck l (List.mem_cons_of_mem k inside)).spared (others l (ne inside))
    refine ⟨fun l inside => ?_, fun l outside => ?_⟩
    · rcases List.mem_cons.mp inside with rfl | inside
      · exact here.trans (rest' l out).result
      · exact (Node.broken_congr (others l (ne inside)) cycle p.version).trans (members l inside)
    · simp only [List.mem_cons, not_or] at outside
      exact (others l outside.1).trans (rest' l outside.2)

theorem BreaksAll.spared {cycles : List Cycle} (breaks : BreaksAll p cycles s s')
    (running : s.Running p.version) (once : cycles.flatten.Nodup)
    (stuck : ∀ k ∈ cycles.flatten, Stuck s k) :
    (∀ cycle ∈ cycles, ∀ k ∈ cycle,
        Node.SameResult ((s.graph.node k).broken cycle p.version) (s'.graph.node k)) ∧
      ∀ l, l ∉ cycles.flatten → Node.Spared (s.graph.node l) (s'.graph.node l) := by
  -- A member of a later cycle is spared until its turn comes, since no two cycles share a key.
  induction breaks with
  | nil => simp [Node.Spared.refl]
  | @cons cycle rest s s₁ s' first _ ih =>
    rw [List.flatten_cons] at once stuck
    obtain ⟨once, onceRest, apart⟩ := List.nodup_append.mp once
    obtain ⟨members, others⟩ := first.spared running once fun k inside =>
      stuck k (List.mem_append_left _ inside)
    have out {k : Key} (inside : k ∈ rest.flatten) : k ∉ cycle :=
      fun member => apart k member k inside rfl
    obtain ⟨later, spared⟩ := ih (first.running running) onceRest fun k inside =>
      (stuck k (List.mem_append_right _ inside)).spared (others k (out inside))
    refine ⟨fun cycle' found k member => ?_, fun l outside => ?_⟩
    · rcases List.mem_cons.mp found with rfl | found
      · have outside : k ∉ rest.flatten := fun inside => out inside member
        exact (members k member).trans (spared k outside).result
      · have inside : k ∈ rest.flatten := List.mem_flatten_of_mem found member
        exact (Node.broken_congr (others k (out inside)) cycle' p.version).trans
          (later cycle' found k member)
    · rw [List.flatten_cons, List.mem_append, not_or] at outside
      exact (others l outside.1).trans (spared l outside.2)

omit [BEq V] in
theorem turn_spec (p : Pass S V) (roots queue : List Key) (s : Progress S V) :
    let unfinished := roots.filter fun root => !s.graph.isFinished root
    match p.turn roots queue s with
    | .stop => p.isStopped s = false → queue = [] ∧ unfinished = []
    | .dispatch k rest => p.isStopped s = false ∧ queue.Perm (k :: rest)
    | .unblock cycles => p.isStopped s = false ∧ queue = [] ∧ unfinished ≠ [] ∧ cycles ≠ [] ∧
        cycles = s.graph.cyclesFrom unfinished
    | .stall keys => p.isStopped s = false ∧ queue = [] ∧ unfinished ≠ [] ∧ keys = unfinished ∧
        s.graph.cyclesFrom unfinished = [] := by
  intro unfinished
  have perm := p.order.perm s.world.history queue
  unfold Pass.turn
  cases live : p.isStopped s with
  | true => exact fun live => absurd live (by simp)
  | false =>
    cases arranged : p.order.arrange s.world.history queue with
    | cons k rest =>
      rw [arranged] at perm
      exact ⟨rfl, perm.symm⟩
    | nil =>
      rw [arranged] at perm
      have none : queue = [] := perm.symm.eq_nil
      by_cases some : unfinished = []
      · simp [unfinished, some, none]
      · rw [if_neg (by simp)]
        dsimp only
        rw [if_neg some]
        cases found : s.graph.cyclesFrom unfinished with
        | nil => simp [unfinished, some, none]
        | cons cycle rest => simp [unfinished, some, none]

omit [BEq V] in
theorem turn_unblock {roots queue : List Key} {cycles : List Cycle}
    (turn : p.turn roots queue s = .unblock cycles) :
    p.isStopped s = false ∧ queue = [] ∧
      (roots.filter fun root => !s.graph.isFinished root) ≠ [] ∧ cycles ≠ [] ∧
      cycles = s.graph.cyclesFrom (roots.filter fun root => !s.graph.isFinished root) := by
  have spec := p.turn_spec roots queue s
  rwa [turn] at spec

omit [BEq V] in
theorem stuck_of_cyclesFrom (s : Progress S V) (roots : List Key) :
    let cycles := s.graph.cyclesFrom roots
    cycles.flatten.Nodup ∧ (∀ k ∈ cycles.flatten, Stuck s k) ∧
      ∀ cycle ∈ cycles, ∀ k ∈ cycle, ∃ d ∈ cycle, d ∈ (s.graph.node k).awaits := by
  intro cycles
  obtain ⟨once, locked⟩ := s.graph.cyclesFrom_locked roots
  refine ⟨once, fun k inside => ?_,
    fun cycle found k member => ((locked cycle found).2.waits member).2⟩
  obtain ⟨cycle, found, member⟩ := List.mem_flatten.mp inside
  obtain ⟨unfinished, d, -, awaited⟩ := (locked cycle found).2.waits member
  exact ⟨unfinished, List.ne_nil_of_mem awaited⟩

omit [BEq V] in
theorem stuck_of_unblock {roots queue : List Key} {cycles : List Cycle}
    (turn : p.turn roots queue s = .unblock cycles) :
    cycles.flatten.Nodup ∧ (∀ k ∈ cycles.flatten, Stuck s k) ∧
      ∀ cycle ∈ cycles, ∀ k ∈ cycle, ∃ d ∈ cycle, d ∈ (s.graph.node k).awaits := by
  obtain ⟨-, -, -, -, rfl⟩ := turn_unblock turn
  exact stuck_of_cyclesFrom s _

end Pass

namespace Engine

variable {rules : Rules S V} {listener : Listener} {e : Engine S V}

-- The failure of a member of a cycle is recorded with all that its place rests on, unless it was
-- parked while groups of an older result were verified: what those have read is lost. Whatever is
-- on record puts the failure in doubt when it changes.
theorem Reachable.cycle_failure_recorded_iff (reachable : Reachable rules listener e)
    (steady : listener.Steady) (confined : rules.Confined fun _ => True) {keepGoing : Bool}
    {roots queue : List Key} {s : Progress S V} {cycles : List Cycle}
    (reaches : (e.pass keepGoing).Reaches (union [] roots) e.entry queue s)
    (turn : (e.pass keepGoing).turn (union [] roots) queue s = .unblock cycles)
    {cycle : Cycle} (found : cycle ∈ cycles) {k : Key} (member : k ∈ cycle) :
    let n := s.graph.node k
    let g := ((e.pass keepGoing).failCycles cycles s).2.graph
    (g.node k).isFinished = true ∧ (g.node k).failure? = some (.cycle cycle) ∧
      (∀ d, k ∈ (g.node d).dependents ↔ d ∈ (g.node k).deps.flatten) ∧
      n.awaits ⊆ (g.node k).deps.flatten ∧
      (n.found ⊆ (g.node k).deps.flatten ↔ (n.status = .verifying → n.found = [])) ∧
      ∀ e', Reachable rules listener e' →
        (e'.world.graph.node k).deps = (g.node k).deps → ∀ d ∈ (g.node k).deps.flatten,
          (∀ values, (e'.world.graph.node d).version <
              ((e'.inject values).2.world.graph.node d).version →
            ((e'.inject values).2.world.graph.node k).isDirty = true ∨
              ((e'.inject values).2.world.graph.node k).injected = true) ∧
          (∀ keys, d ∈ keys → (e'.world.graph.node d).isFinished = true →
            ((e'.invalidate keys).2.world.graph.node k).isDirty = true) := by
  obtain ⟨rfl, rfl⟩ := reachable.unchanged
  have resting := reachable.resting steady confined
  have underway₀ : Progress.GroundedRun (e.pass keepGoing).version
      ({ world := e.entry } : Progress S V) := Graph.Resting.underway resting
  have underway := (reaches.changes steady confined underway₀ trivial).underway underway₀
  have breaks := Pass.failCycles_breaks (p := e.pass keepGoing) steady cycles s
  have underway' := breaks.underway underway
  obtain ⟨once, stuck, next⟩ := Pass.stuck_of_unblock turn
  generalize ((e.pass keepGoing).failCycles cycles s).2 = s' at breaks underway' ⊢
  intro n g
  have same := (breaks.spared underway.toRunning once stuck).1 cycle found k member
  have deps : (g.node k).deps.flatten = n.asked := by
    rw [same.deps, Node.deps_broken]
  have finished : (g.node k).isFinished = true := same.finished
  refine ⟨finished, ?_, fun d => underway'.linked k d, ?_, ?_, ?_⟩
  · refine (underway'.shape k).failure?_of_outcome? ?_
    rw [Node.outcome?, if_pos finished]
    exact same.cached
  · rw [deps]
    exact n.awaits_subset_asked
  · rw [deps]
    refine (underway.shape k).found_subset_asked_iff fun verifying d inside => ?_
    cases flight : (s.graph.node k).flight with
    | none => simp [Node.awaits, flight]
    | some f =>
      have awaits : (s.graph.node k).awaits = f.awaits := by simp [Node.awaits, flight]
      have groups : (s.graph.node k).found = ((s.graph.node k).deps.take f.verified).flatten := by
        simp [Node.found, flight, verifying]
      rw [groups] at inside
      rw [awaits]
      obtain ⟨l, inCycle, awaited⟩ := next cycle found k member
      have open' := (stuck l (List.mem_flatten_of_mem found inCycle)).1
      obtain ⟨m, parked⟩ : ∃ m, f.stage = .parked m := by
        by_contra up
        have gone := underway.signalled.ready k f flight (fun m parked => up ⟨m, parked⟩) l
          (awaits ▸ awaited)
        simp [open'] at gone
      exact underway.current.apart k f m flight parked verifying d inside
  · intro e' later kept d inside
    have read : d ∈ (e'.world.graph.node k).deps.flatten := kept ▸ inside
    have rests := later.resting steady confined
    constructor
    · intro values newer
      have graph : (e'.inject values).2.world.graph = (e'.world.graph.inject values).2.2 :=
        World.graph_inject e'.world values
      rw [graph] at newer ⊢
      exact rests.inject_dirty newer read
    · intro keys told finished
      have graph : (e'.invalidate keys).2.world.graph = (e'.world.graph.invalidate keys).2.2 :=
        World.graph_invalidate e'.world keys
      rw [graph]
      exact rests.invalidate_dirty told finished read

end Engine

def Rule.either (first second : Key) : Rule Unit Nat := fun _ => do
  match ← Computation.need first with
  | .ok 0 => Computation.need second
  | answer => return answer

theorem Rule.confined_either (good : Unit → Prop) (first second k : Key) :
    (Rule.either first second k).Confined good := by
  refine Computation.confined_need_bind first fun answer => ?_
  split
  · exact Computation.confined_need second
  · exact .done answer

def Key.only (tag : String) : Key := ⟨tag, .datum .unit⟩

def Rules.detour : Rules Unit Nat :=
  [("a", Rule.either (.only "c") (.only "b")), ("b", Rule.either (.only "d") (.only "a"))]

theorem Rules.confined_detour (good : Unit → Prop) : Rules.detour.Confined good :=
  forall_cons (fun k _ => Rule.confined_either good _ _ k)
    (forall_cons (fun k _ => Rule.confined_either good _ _ k) forall_nil)

namespace Engine

def detour : Engine Unit Nat :=
  let given := ((new Rules.detour .steady ()).inject [(.only "c", 0), (.only "d", 7)]).2
  ((given.evaluate 20 [.only "a"] true).2.inject [(.only "d", 0)]).2

theorem reachable_detour : Reachable Rules.detour .steady detour :=
  .inject _ (.evaluate _ _ _ (.inject _ (.new ())))

theorem cycle_failure_recorded_iff_detour :
    let a : Key := .only "a"
    let b : Key := .only "b"
    ∃ queue s, (detour.pass true).Reaches (union [] [a]) detour.entry queue s ∧
      (detour.pass true).turn (union [] [a]) queue s = .unblock [[a, b]] ∧
      ¬ (s.graph.node a).found ⊆
        (((detour.pass true).failCycles [[a, b]] s).2.graph.node a).deps.flatten := by
  intro a b
  have reaches := ((Pass.Reaches.start (detour.pass true) (union [] [a]) detour.entry).dispatch
    a [] (by decide +kernel)).dispatch b [] (by decide +kernel)
  have member : a ∈ [a, b] := List.mem_cons_self
  have lost := reachable_detour.cycle_failure_recorded_iff (fun _ => rfl)
    (Rules.confined_detour _) reaches (by decide +kernel) (List.mem_singleton.mpr rfl) member
  refine ⟨_, _, reaches, by decide +kernel, ?_⟩
  rw [lost.2.2.2.2.1]
  decide +kernel

theorem cycle_failure_outlives_detour :
    let a : Key := .only "a"
    let failed := (detour.evaluate 20 [a] true).2
    let saved := (failed.inject [(.only "c", 9)]).2
    let fresh := ((new Rules.detour .steady ()).inject [(.only "c", 9), (.only "d", 0)]).2
    (failed.world.graph.node a).deps = [[.only "b"]] ∧
      (saved.world.graph.node a).isDirty = false ∧
      (saved.evaluate 20 [a] true).1.toOption.bind (·.failure? a) =
        some (.cycle [a, .only "b"]) ∧
      (fresh.evaluate 20 [a] true).1.toOption.bind (·.value? a) = some 9 := by
  decide +kernel

end Engine

end Recompute
