import Recompute.Proofs.Breaking

set_option autoImplicit false

namespace Recompute

variable {S V : Type}

open Relation (ReflTransGen)

namespace Graph

def Downstream (g : Graph V) (keys : List Key) (k : Key) : Prop :=
  ∃ d ∈ keys, (g.node d).status.isSettled = true ∧
    ReflTransGen (fun x y => y ∈ (g.node x).dependents) d k

-- A failure on a cycle that is finished, though not all it has read is.
def Stranded (g : Graph V) (k : Key) : Prop :=
  (g.node k).isFinished = true ∧ (g.node k).isCyclic = true ∧
    ∃ d ∈ (g.node k).deps.flatten, (g.node d).isFinished = false

variable {g : Graph V} {keys : List Key} {k : Key}

theorem Swept.downstream (swept : g.Swept keys k) : g.Downstream keys k := by
  obtain ⟨d, inside, finished, path⟩ := swept
  exact ⟨d, inside, ((isFinished_iff _).mp finished).1,
    ReflTransGen.mono (fun _ _ passes => passes.1) _ _ path⟩

theorem dirty_invalidate_of_apart (apart : ¬ g.Downstream keys k) :
    ((g.invalidate keys).2.2.node k).dirty = (g.node k).dirty := by
  rw [invalidate_apart]
  · exact fun told => Bool.eq_false_iff.mpr fun settled => apart ⟨k, told, settled, .refl⟩
  · exact fun swept => apart swept.downstream

theorem node_invalidate_frame (g : Graph V) (keys : List Key) (k : Key) :
    (g.invalidate keys).2.2.node k =
      { g.node k with dirty := ((g.invalidate keys).2.2.node k).dirty } := by
  rw [node_invalidate]
  split
  next => rfl
  next => split <;> rfl

theorem Resting.dirty_of_downstream (resting : g.Resting)
    (reached : ∀ k, g.Downstream keys k → g.Stranded k → k ∈ keys ∨ g.Swept keys k)
    (downstream : g.Downstream keys k) :
    (g.node k).status.isSettled = true ∧ ((g.invalidate keys).2.2.node k).isDirty = true := by
  obtain ⟨d, inside, settled, path⟩ := downstream
  induction path with
  | refl => exact ⟨settled, (isDirty_invalidate g keys d).mpr (.inl ⟨inside, settled⟩)⟩
  | @tail x y path reads ih =>
    obtain ⟨settled_x, dirty_x⟩ := ih
    have read : x ∈ (g.node y).deps.flatten := (resting.linked y x).mp reads
    have settled_y := resting.settled_of_read read
    refine ⟨settled_y, (isDirty_invalidate g keys y).mpr ?_⟩
    cases dirty_y : (g.node y).isDirty with
    | true => exact .inr (.inr rfl)
    | false =>
      have finished_y : (g.node y).isFinished = true := by simp [Node.isFinished, settled_y, dirty_y]
      -- If `x` was finished, its mark is new and has been passed on.
      by_cases finished_x : (g.node x).isFinished = true
      · have clean_x : (g.node x).isDirty = false := by simpa [Node.isFinished, settled_x] using finished_x
        have swept_x : g.Swept keys x := by
          rcases (isDirty_invalidate g keys x).mp dirty_x with ⟨told, -⟩ | swept | dirty
          · exact ⟨x, told, finished_x, .refl⟩
          · exact swept
          · simp [clean_x] at dirty
        exact .inr (.inl (swept_x.next ⟨reads, finished_y⟩))
      · have unfinished_x : (g.node x).isFinished = false := by simpa using finished_x
        have cyclic : (g.node y).isCyclic = true := by
          by_contra plain
          have checked := (resting.grounded y finished_y (by simpa using plain)).resolve_left (by simp)
          exact finished_x (checked x read).1
        have stranded : g.Stranded y := ⟨finished_y, cyclic, x, read, unfinished_x⟩
        rcases reached y ⟨d, inside, settled, path.tail reads⟩ stranded with told | swept
        · exact .inl ⟨told, settled_y⟩
        · exact .inr (.inl swept)

theorem Resting.all_dirty_iff (resting : g.Resting) (keys : List Key) :
    (∀ k, g.Downstream keys k → ((g.invalidate keys).2.2.node k).isDirty = true) ↔
      ∀ k, g.Downstream keys k → g.Stranded k → k ∈ keys ∨ g.Swept keys k := by
  constructor
  · intro all k downstream stranded
    have clean := ((isFinished_iff _).mp stranded.1).2
    rcases (isDirty_invalidate g keys k).mp (all k downstream) with ⟨told, -⟩ | swept | dirty
    · exact .inl told
    · exact .inr swept
    · simp [Node.isDirty, clean] at dirty
  · exact fun reached k downstream => (resting.dirty_of_downstream reached downstream).2

end Graph

namespace Engine

theorem invalidate_frame (e : Engine S V) (keys : List Key) :
    (e.invalidate keys).2 = { e with world :=
      { e.world with
        graph := (e.invalidate keys).2.world.graph
        history := (e.invalidate keys).2.world.history } } := by
  obtain ⟨history, world⟩ : ∃ history, (e.world.invalidate keys).2 =
      { e.world with graph := (e.world.graph.invalidate keys).2.2, history } :=
    World.recordMarks_eq _ _
  have invalidated : (e.invalidate keys).2 = { e with world := (e.world.invalidate keys).2 } := rfl
  rw [invalidated, world]

-- What `invalidate` does to any engine. When it can be reached, every key downstream of what was
-- told is put in doubt unless a cycle's failure was left finished on top of unfinished keys, and no
-- mark gets there.
theorem invalidate_reaches_iff [BEq V] (e : Engine S V) (keys : List Key) :
    let g := e.world.graph
    let e' := (e.invalidate keys).2
    let g' := e'.world.graph
    let told := Graph.markChanged keys ⟨g, [], []⟩
    (∀ k ∈ keys, (g.node k).status.isSettled = true → (g'.node k).dirty = .changed) ∧
      (∀ k, (g'.node k).isDirty = true ↔
        k ∈ keys ∧ (g.node k).status.isSettled = true ∨ g.Swept keys k ∨ (g.node k).isDirty = true) ∧
      (∀ rules listener, Reachable rules listener e → listener.Steady →
        rules.Confined (fun _ => True) →
        ((∀ k, g.Downstream keys k → (g'.node k).isDirty = true) ↔
          ∀ k, g.Downstream keys k → g.Stranded k → k ∈ keys ∨ g.Swept keys k)) ∧
      (∀ k, ¬ g.Downstream keys k → (g'.node k).dirty = (g.node k).dirty) ∧
      (∀ k, g'.node k = { g.node k with dirty := (g'.node k).dirty }) ∧
      g'.keys = g.keys ∧ g'.version = g.version ∧
      e' = { e with world := { e.world with graph := g', history := e'.world.history } } ∧
      (told.graph.spread told.frontier).frontier = [] := by
  intro g e' g' told
  have graph : g' = (g.invalidate keys).2.2 := World.graph_invalidate e.world keys
  rw [graph]
  refine ⟨fun k inside settled => Graph.invalidate_changed inside settled,
    fun k => g.isDirty_invalidate keys k, ?_, fun k apart => Graph.dirty_invalidate_of_apart apart,
    fun k => g.node_invalidate_frame keys k, (g.invalidate_frame keys).1, (g.invalidate_frame keys).2,
    ?_, told.graph.spread_exhausts told.frontier⟩
  · intro rules listener reachable steady confined
    exact (reachable.resting steady confined).all_dirty_iff keys
  · exact graph ▸ e.invalidate_frame keys

end Engine

def Rules.snare : Rules Unit Nat :=
  [("a", fun _ => do
      match ← Computation.needAll [.only "b", .only "c"] with
      | .ok _ => return .ok 0
      | .error fault => return .error fault),
    ("b", fun _ => Computation.need (.only "a")),
    ("c", Rule.either (.only "d") (.only "a"))]

theorem Rules.confined_snare (good : Unit → Prop) : Rules.snare.Confined good := by
  refine forall_cons (fun _ _ => ?_) (forall_cons (fun _ _ => Computation.confined_need _)
    (forall_cons (fun k _ => Rule.confined_either _ _ _ k) forall_nil))
  refine .values fun answers => ?_
  simp only [Computation.bind]
  cases Computation.allPresent answers <;> exact .done _

namespace Engine

def snare : Engine Unit Nat :=
  let given := ((new Rules.snare .steady ()).inject [(.only "d", 7)]).2
  let told := ((given.evaluate 20 [.only "c"] true).2.inject [(.only "d", 0)]).2
  (told.evaluate 20 [.only "a"] false).2

theorem invalidation_stops_snare :
    let a : Key := .only "a"
    let c : Key := .only "c"
    (snare.world.graph.node c).status.isSettled = true ∧
      a ∈ (snare.world.graph.node c).dependents ∧
      ((snare.invalidate [c]).2.world.graph.node a).isDirty = false ∧
      (snare.invalidate [c]).1 = ⟨1, 0⟩ := by
  decide +kernel

theorem invalidate_reaches_iff_snare :
    let g := snare.world.graph
    ∃ k, g.Downstream [.only "c"] k ∧ g.Stranded k ∧ k ∉ [Key.only "c"] ∧ ¬ g.Swept [.only "c"] k := by
  intro g
  have reachable : Reachable Rules.snare .steady snare :=
    .evaluate _ _ _ (.inject _ (.evaluate _ _ _ (.inject _ (.new ()))))
  have reaches := (invalidate_reaches_iff snare [.only "c"]).2.2.1 Rules.snare .steady reachable
    (fun _ => rfl) (Rules.confined_snare _)
  by_contra none
  push Not at none
  have settled : (g.node (.only "c")).status.isSettled = true := by decide +kernel
  have depends : Key.only "a" ∈ (g.node (.only "c")).dependents := by decide +kernel
  have downstream : g.Downstream [.only "c"] (.only "a") :=
    ⟨.only "c", List.mem_cons_self, settled, .single depends⟩
  have dirty := reaches.mpr (fun k downstream stranded => or_iff_not_imp_left.mpr
    (none k downstream stranded)) _ downstream
  have clean : ((snare.invalidate [.only "c"]).2.world.graph.node (.only "a")).isDirty = false := by
    decide +kernel
  simp [clean] at dirty

end Engine

end Recompute
