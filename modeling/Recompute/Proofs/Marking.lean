import Recompute.Proofs.Edges
import Recompute.Invalidation

set_option autoImplicit false

namespace Recompute

variable {V : Type}

def Node.suspected (n : Node V) : Node V := { n with dirty := .suspect }

def Node.reported (n : Node V) : Node V := { n with dirty := .changed }

namespace Graph

theorem isFinished_iff (n : Node V) :
    n.isFinished = true ↔ n.status.isSettled = true ∧ n.dirty = .clean := by
  simp [Node.isFinished, Node.isDirty]

namespace Spread

theorem visit_cases (s : Spread V) (k : Key) :
    ((s.graph.node k).isFinished = false ∧ s.visit k = s) ∨
    ((s.graph.node k).isFinished = true ∧ ∃ n, s.graph.get? k = some n ∧
      s.visit k = ⟨s.graph.put k n.suspected, s.marked ++ [k], s.frontier ++ n.dependents⟩) := by
  cases found : s.graph.get? k with
  | none =>
    left
    simp [visit, found, node, Node.isFinished, Status.isSettled]
  | some n =>
    rw [node_of_get? found]
    cases finished : n.isFinished with
    | true =>
      right
      obtain ⟨settled, clean⟩ := (isFinished_iff n).mp finished
      exact ⟨rfl, n, rfl, by simp [visit, found, Node.mark, settled, clean, Dirty.join, Node.suspected]⟩
    | false =>
      left
      refine ⟨rfl, ?_⟩
      cases settled : n.status.isSettled with
      | false => simp [visit, found, Node.mark, settled]
      | true =>
        have dirty : n.dirty ≠ .clean := by
          intro clean
          simp [(isFinished_iff n).mpr ⟨settled, clean⟩] at finished
        simp [visit, found, Node.mark, settled, dirty]

structure Kept (I : Graph V → List Key → Prop) : Prop where
  skip : ∀ g k todo, (g.node k).isFinished = false → I g (k :: todo) → I g todo
  mark : ∀ g k todo, (g.node k).isFinished = true → I g (k :: todo) →
    I (g.put k (g.node k).suspected) (todo ++ (g.node k).dependents)

variable {I : Graph V → List Key → Prop}

theorem Kept.visits (kept : Kept I) (todo : List Key) (s : Spread V)
    (holds : I s.graph (todo ++ s.frontier)) :
    I (todo.foldl visit s).graph (todo.foldl visit s).frontier := by
  induction todo generalizing s with
  | nil => exact holds
  | cons k rest ih =>
    refine ih (s.visit k) ?_
    rcases s.visit_cases k with ⟨unfinished, same⟩ | ⟨finished, n, found, marked⟩
    · rw [same]
      exact kept.skip _ k _ unfinished holds
    · have next := kept.mark _ k _ finished holds
      rw [node_of_get? found] at next
      rw [marked]
      simpa using next

theorem Kept.round (kept : Kept I) (s : Spread V) (holds : I s.graph s.frontier) :
    I s.round.graph s.round.frontier :=
  kept.visits s.frontier { s with frontier := [] } (by simpa using holds)

theorem Kept.rounds (kept : Kept I) (n : Nat) (s : Spread V) (holds : I s.graph s.frontier) :
    I (rounds n s).graph (rounds n s).frontier := by
  induction n generalizing s with
  | zero => exact holds
  | succ n ih =>
    rw [Spread.rounds]
    split
    · exact holds
    · exact ih s.round (kept.round s holds)

def finished (s : Spread V) : Nat := s.graph.nodes.countP fun e => e.2.isFinished

theorem countP_put {nodes : Table Key (Node V)} {k : Key} {n : Node V} (found : nodes.get? k = some n)
    (finished : n.isFinished = true) {m : Node V} (unfinished : m.isFinished = false) :
    (nodes.set k m).countP (fun e => e.2.isFinished) + 1 = nodes.countP fun e => e.2.isFinished := by
  induction nodes with
  | nil => simp at found
  | cons e rest ih =>
    obtain ⟨l, n'⟩ := e
    by_cases same : l = k
    · simp only [Table.get?, same, if_true, Option.some.injEq] at found
      subst found
      simp [Table.set, same, finished, unfinished]
    · simp only [Table.get?, same, if_false] at found
      simp only [Table.set, same, if_false, List.countP_cons]
      have := ih found
      omega

theorem visits_finished (todo : List Key) (s : Spread V) :
    todo.foldl visit s = s ∨ (todo.foldl visit s).finished < s.finished := by
  induction todo generalizing s with
  | nil => exact .inl rfl
  | cons k rest ih =>
    rw [List.foldl_cons]
    rcases s.visit_cases k with ⟨-, same⟩ | ⟨finished, n, found, marked⟩
    · rw [same]
      exact ih s
    · have fewer : (s.visit k).finished + 1 = s.finished := by
        rw [node_of_get? found] at finished
        rw [marked]
        exact countP_put found finished (by simp [Node.suspected, Node.isFinished, Node.isDirty])
      right
      rcases ih (s.visit k) with same | less
      · rw [same]
        omega
      · omega

theorem rounds_exhaust (n : Nat) (s : Spread V) (enough : s.finished < n ∨ s.frontier = []) :
    (rounds n s).frontier = [] := by
  induction n generalizing s with
  | zero => exact enough.resolve_left (by omega)
  | succ n ih =>
    rw [Spread.rounds]
    split
    next done => exact done
    next more =>
      refine ih s.round ?_
      rcases visits_finished s.frontier { s with frontier := [] } with same | less
      · right
        unfold round
        rw [same]
      · left
        have bound := enough.resolve_right more
        have start : ({ s with frontier := [] } : Spread V).finished = s.finished := rfl
        change (s.frontier.foldl visit { s with frontier := [] }).finished < n
        omega

end Spread

theorem spread_kept {I : Graph V → List Key → Prop} (kept : Spread.Kept I) (g : Graph V)
    (frontier : List Key) (holds : I g frontier) : I (g.spread frontier).graph [] := by
  -- Each round but the last leaves fewer finished nodes, so there are enough rounds.
  have enough : (⟨g, [], frontier⟩ : Spread V).finished < g.size + 1 :=
    Nat.lt_succ_of_le List.countP_le_length
  have exhausted := Spread.rounds_exhaust (g.size + 1) ⟨g, [], frontier⟩ (.inl enough)
  have marked := kept.rounds (g.size + 1) ⟨g, [], frontier⟩ holds
  rw [exhausted] at marked
  exact marked

theorem put_of_get? {g : Graph V} {k : Key} {n : Node V} (found : g.get? k = some n) :
    g.put k n = g := by
  have set (t : Table Key (Node V)) (found : t.get? k = some n) : t.set k n = t := by
    induction t with
    | nil => simp at found
    | cons e rest ih =>
      obtain ⟨l, m⟩ := e
      by_cases same : l = k
      · simp only [Table.get?, same, if_true, Option.some.injEq] at found
        simp [Table.set, same, found]
      · simp only [Table.get?, same, if_false] at found
        simp [Table.set, same, ih found]
  simp only [put, set g.nodes found]

def Reportable (I : Graph V → List Key → Prop) : Prop :=
  ∀ g k todo, (g.node k).status.isSettled = true → I g todo →
    I (g.put k (g.node k).reported)
      (if (g.node k).isFinished then todo ++ (g.node k).dependents else todo)

theorem markChanged_kept {I : Graph V → List Key → Prop} (reportable : Reportable I)
    (keys : List Key) (s : Spread V) (holds : I s.graph s.frontier) :
    I (markChanged keys s).graph (markChanged keys s).frontier := by
  induction keys generalizing s with
  | nil => exact holds
  | cons k rest ih =>
    cases found : s.graph.get? k with
    | none =>
      simp only [markChanged, found]
      exact ih s holds
    | some n =>
      simp only [markChanged, found]
      refine ih _ ?_
      have node := node_of_get? found
      cases settled : n.status.isSettled with
      | false => simpa [Node.mark, settled, put_of_get? found] using holds
      | true =>
        have next := reportable s.graph k s.frontier (node ▸ settled) holds
        have join : n.dirty.join .changed = .changed := by cases n.dirty <;> rfl
        have first : n.isFinished = decide (n.dirty = .clean) := by
          simp [Node.isFinished, Node.isDirty, settled]
        rw [node, first] at next
        simpa [Node.mark, settled, join, Node.reported] using next

theorem invalidate_kept {I : Graph V → List Key → Prop} (kept : Spread.Kept I)
    (reportable : Reportable I) (g : Graph V) (keys : List Key) (holds : I g []) :
    I (g.invalidate keys).2.2 [] :=
  spread_kept kept _ _ (markChanged_kept reportable keys ⟨g, [], []⟩ holds)

def given [BEq V] (g : Graph V) (k : Key) (v : V) (version : Nat) : Graph V :=
  (g.put k ((g.node k).inject v version).2).unlink k (g.node k).deps.flatten

def Givable [BEq V] (version : Nat) (I : Graph V → List Key → Prop) : Prop :=
  ∀ g k v todo, I g todo → I (g.given k v version)
    (if ((g.node k).inject v version).1.changed then todo ++ (g.node k).dependents else todo)

theorem injectEach_kept [BEq V] {I : Graph V → List Key → Prop} {version : Nat}
    (givable : Givable version I) (values : List (Key × V)) (s : Spread V)
    (holds : I s.graph s.frontier) :
    I (injectEach version values s).graph (injectEach version values s).frontier := by
  induction values generalizing s with
  | nil => exact holds
  | cons entry rest ih =>
    obtain ⟨k, v⟩ := entry
    refine ih _ ?_
    have next := givable s.graph k v s.frontier holds
    have dependents : ((s.graph.node k).inject v version).2.dependents =
        (s.graph.node k).dependents := by
      unfold Node.inject
      dsimp only
      split <;> rfl
    rw [← dependents] at next
    exact next

end Graph

end Recompute
