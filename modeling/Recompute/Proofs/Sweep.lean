import Recompute.Proofs.Marking
import Mathlib.Logic.Relation

set_option autoImplicit false

namespace Recompute

variable {V : Type}

namespace Graph

open Relation (ReflTransGen)

def Passes (g : Graph V) (d k : Key) : Prop :=
  k ∈ (g.node d).dependents ∧ (g.node k).isFinished = true

def Swept (g : Graph V) (keys : List Key) (k : Key) : Prop :=
  ∃ d ∈ keys, (g.node d).isFinished = true ∧ ReflTransGen g.Passes d k

variable {g h : Graph V} {keys frontier todo : List Key} {k : Key}

theorem Swept.finished (swept : g.Swept keys k) : (g.node k).isFinished = true := by
  obtain ⟨d, -, finished, path⟩ := swept
  cases path with
  | refl => exact finished
  | tail _ passes => exact passes.2

theorem Swept.next (swept : g.Swept keys k) {l : Key} (passes : g.Passes k l) : g.Swept keys l := by
  obtain ⟨d, inside, finished, path⟩ := swept
  exact ⟨d, inside, finished, path.tail passes⟩

theorem isFinished_suspected (n : Node V) : n.suspected.isFinished = false := by
  simp [Node.suspected, Node.isFinished, Node.isDirty]

theorem keys_put_of_get? {n m : Node V} (found : g.get? k = some n) : (g.put k m).keys = g.keys := by
  have set (t : Table Key (Node V)) (found : t.get? k = some n) : (t.set k m).keys = t.keys := by
    induction t with
    | nil => simp at found
    | cons e rest ih =>
      obtain ⟨l, v⟩ := e
      by_cases same : l = k
      · simp [Table.set, Table.keys, same]
      · simp only [Table.get?, same, if_false] at found
        have rest' := ih found
        simp only [Table.keys] at rest'
        simp [Table.set, Table.keys, same, rest']
  exact set g.nodes found

theorem get?_of_isFinished (finished : (g.node k).isFinished = true) : (g.get? k).isSome = true := by
  cases found : g.get? k with
  | some n => rfl
  | none => simp [node, found, Node.isFinished, Status.isSettled] at finished

-- What holds of a graph `h` on the way from `g`, with the keys that are still to be visited.
structure Sweeping (g : Graph V) (frontier : List Key) (h : Graph V) (todo : List Key) : Prop where
  keys : h.keys = g.keys
  version : h.version = g.version
  node : ∀ k, h.node k = g.node k ∨ g.Swept frontier k ∧ h.node k = (g.node k).suspected
  sound : ∀ k ∈ todo, (g.node k).isFinished = true → g.Swept frontier k
  start : ∀ k ∈ frontier, k ∈ todo ∨ (h.node k).isFinished = false
  next : ∀ d k, (g.node d).isFinished = true → (h.node d).isFinished = false → g.Passes d k →
    k ∈ todo ∨ (h.node k).isFinished = false

theorem Sweeping.same (sweeping : g.Sweeping frontier h todo)
    (finished : (h.node k).isFinished = true) : h.node k = g.node k := by
  rcases sweeping.node k with same | ⟨-, marked⟩
  · exact same
  · simp [marked, isFinished_suspected] at finished

theorem sweeping_kept (g : Graph V) (frontier : List Key) : Spread.Kept (g.Sweeping frontier) where
  skip h k todo unfinished sweeping := by
    have drop {x : Key} (cause : x ∈ k :: todo ∨ (h.node x).isFinished = false) :
        x ∈ todo ∨ (h.node x).isFinished = false := by
      rcases cause with inside | done
      · rcases List.mem_cons.mp inside with rfl | inside
        · exact .inr unfinished
        · exact .inl inside
      · exact .inr done
    exact { sweeping with
      sound := fun x inside => sweeping.sound x (List.mem_cons_of_mem k inside)
      start := fun x inside => drop (sweeping.start x inside)
      next := fun d x finished marked passes => drop (sweeping.next d x finished marked passes) }
  mark h k todo finished sweeping := by
    have same := sweeping.same finished
    have old : (g.node k).isFinished = true := same ▸ finished
    have swept : g.Swept frontier k := sweeping.sound k List.mem_cons_self old
    obtain ⟨n, found⟩ := Option.isSome_iff_exists.mp (get?_of_isFinished finished)
    have node := h.put_node k (h.node k).suspected
    have marked : ((h.put k (h.node k).suspected).node k).isFinished = false := by
      rw [node_put_self]
      exact isFinished_suspected _
    have shift {x : Key} (cause : x ∈ k :: todo ∨ (h.node x).isFinished = false) :
        x ∈ todo ++ (h.node k).dependents ∨
          ((h.put k (h.node k).suspected).node x).isFinished = false := by
      by_cases at_k : x = k
      · exact .inr (at_k ▸ marked)
      · rw [node_put_of_ne _ _ at_k]
        refine cause.imp_left fun inside => ?_
        exact List.mem_append_left _ ((List.mem_cons.mp inside).resolve_left at_k)
    constructor
    case keys => exact (keys_put_of_get? found).trans sweeping.keys
    case version => exact sweeping.version
    case node =>
      intro x
      by_cases at_k : x = k
      · subst at_k
        rw [node_put_self, same]
        exact .inr ⟨swept, rfl⟩
      · rw [node_put_of_ne _ _ at_k]
        exact sweeping.node x
    case sound =>
      intro x inside finished
      rcases List.mem_append.mp inside with inside | depends
      · exact sweeping.sound x (List.mem_cons_of_mem k inside) finished
      · exact swept.next ⟨same ▸ depends, finished⟩
    case start => exact fun x inside => shift (sweeping.start x inside)
    case next =>
      intro d x finished' gone passes
      by_cases at_k : d = k
      · subst at_k
        exact .inl (List.mem_append_right _ (same ▸ passes.1))
      · rw [node_put_of_ne _ _ at_k] at gone
        exact shift (sweeping.next d x finished' gone passes)

open Classical in
theorem node_spread (g : Graph V) (frontier : List Key) (k : Key) :
    (g.spread frontier).graph.node k =
      if g.Swept frontier k then (g.node k).suspected else g.node k := by
  have start : g.Sweeping frontier g frontier := by
    constructor
    case keys | version => rfl
    case node => exact fun _ => .inl rfl
    case sound => exact fun k inside finished => ⟨k, inside, finished, .refl⟩
    case start => exact fun k inside => .inl inside
    case next =>
      intro d _ finished unfinished
      simp [finished] at unfinished
  have ended := spread_kept (sweeping_kept g frontier) g frontier start
  have reached (swept : g.Swept frontier k) :
      ((g.spread frontier).graph.node k).isFinished = false := by
    obtain ⟨d, inside, finished, path⟩ := swept
    induction path with
    | refl => exact (ended.start d inside).resolve_left (by simp)
    | @tail x y path passes ih =>
      have before : (g.node x).isFinished = true := Swept.finished ⟨d, inside, finished, path⟩
      exact (ended.next x y before ih passes).resolve_left (by simp)
  split
  next swept =>
    refine ((ended.node k).resolve_left fun same => ?_).2
    have done := swept.finished
    rw [← same, reached swept] at done
    simp at done
  next apart => exact (ended.node k).resolve_right fun marked => apart marked.1

theorem spread_frame (g : Graph V) (frontier : List Key) :
    (g.spread frontier).graph.keys = g.keys ∧ (g.spread frontier).graph.version = g.version := by
  have kept : Spread.Kept fun (h : Graph V) _ => h.keys = g.keys ∧ h.version = g.version := by
    constructor
    case skip => exact fun _ _ _ _ same => same
    case mark =>
      intro h k _ finished same
      obtain ⟨n, found⟩ := Option.isSome_iff_exists.mp (get?_of_isFinished finished)
      exact ⟨(keys_put_of_get? found).trans same.1, same.2⟩
  exact spread_kept kept g frontier ⟨rfl, rfl⟩

theorem spread_exhausts (g : Graph V) (frontier : List Key) : (g.spread frontier).frontier = [] :=
  Spread.rounds_exhaust _ _ (.inl (Nat.lt_succ_of_le List.countP_le_length))

structure Reporting (keys : List Key) (s s' : Spread V) : Prop where
  node : ∀ k, s'.graph.node k =
    if k ∈ keys ∧ (s.graph.node k).status.isSettled = true then (s.graph.node k).reported
    else s.graph.node k
  frontier : ∀ x, x ∈ s'.frontier ↔
    x ∈ s.frontier ∨ ∃ d ∈ keys, (s.graph.node d).isFinished = true ∧ x ∈ (s.graph.node d).dependents
  keys : s'.graph.keys = s.graph.keys
  version : s'.graph.version = s.graph.version

theorem isFinished_reported (n : Node V) : n.reported.isFinished = false := by
  simp [Node.reported, Node.isFinished, Node.isDirty]

theorem markChanged_cons (k : Key) (rest : List Key) (s : Spread V) :
    ∃ s', markChanged (k :: rest) s = markChanged rest s' ∧ Reporting [k] s s' := by
  cases found : s.graph.get? k with
  | none =>
    have fresh : s.graph.node k = {} := by simp [node, found]
    refine ⟨s, by simp only [markChanged, found], fun x => ?_, fun x => ?_, rfl, rfl⟩
    · rw [if_neg]
      rintro ⟨inside, settled⟩
      simp [List.mem_singleton.mp inside, fresh, Status.isSettled] at settled
    · simp [fresh]
  | some n =>
    have node := node_of_get? found
    have put := s.graph.put_node k (n.mark .changed).2
    refine ⟨⟨s.graph.put k (n.mark .changed).2, _, _⟩, by simp only [markChanged, found]; rfl, ?_⟩
    constructor
    case keys => exact keys_put_of_get? found
    case version => rfl
    case node =>
      intro x
      by_cases same : x = k
      · subst same
        rw [put, Function.update_self, node]
        cases settled : n.status.isSettled with
        | false => simp [Node.mark, settled]
        | true =>
          have join : n.dirty.join .changed = .changed := by cases n.dirty <;> rfl
          simp [Node.mark, settled, join, Node.reported]
      · simp [same]
    case frontier =>
      have first : (n.mark .changed).1 = n.isFinished := by
        cases settled : n.status.isSettled <;>
          simp [Node.mark, settled, Node.isFinished, Node.isDirty]
      intro x
      simp only [first, List.mem_singleton, exists_eq_left, node]
      cases n.isFinished <;> simp

theorem markChanged_told (keys : List Key) (s : Spread V) : Reporting keys s (markChanged keys s) := by
  induction keys generalizing s with
  | nil => exact ⟨by simp [markChanged], by simp [markChanged], rfl, rfl⟩
  | cons k rest ih =>
    obtain ⟨s', next, here⟩ := markChanged_cons k rest s
    have there := ih s'
    rw [next]
    have node (x : Key) : s'.graph.node x = (s.graph.node x).reported ∧ x = k ∧
        (s.graph.node x).status.isSettled = true ∨
        s'.graph.node x = s.graph.node x ∧ (x = k → (s.graph.node x).status.isSettled = false) := by
      have same := here.node x
      split at same
      next told => exact .inl ⟨same, List.mem_singleton.mp told.1, told.2⟩
      next out =>
        refine .inr ⟨same, fun at_k => ?_⟩
        simpa [at_k] using out
    constructor
    case keys => exact there.keys.trans here.keys
    case version => exact there.version.trans here.version
    case node =>
      intro x
      rw [there.node]
      rcases node x with ⟨told, rfl, settled⟩ | ⟨same, out⟩
      · have twice : (s.graph.node x).reported.reported = (s.graph.node x).reported := rfl
        simp [told, settled, twice]
      · rw [same]
        by_cases at_k : x = k
        · simp [out at_k]
        · simp [at_k]
    case frontier =>
      intro x
      rw [there.frontier, here.frontier, or_assoc]
      refine or_congr_right ⟨?_, ?_⟩
      · rintro (⟨d, inside, depends⟩ | ⟨d, inside, finished, depends⟩)
        · exact ⟨d, List.mem_singleton.mp inside ▸ List.mem_cons_self, depends⟩
        · rcases node d with ⟨told, -⟩ | ⟨same, -⟩
          · simp [told, isFinished_reported] at finished
          · exact ⟨d, List.mem_cons_of_mem k inside, same ▸ finished, same ▸ depends⟩
      · rintro ⟨d, inside, finished, depends⟩
        by_cases at_k : d = k
        · exact .inl ⟨d, List.mem_singleton.mpr at_k, finished, depends⟩
        · rcases node d with ⟨-, same, -⟩ | ⟨same, -⟩
          · exact absurd same at_k
          · have inside := (List.mem_cons.mp inside).resolve_left at_k
            exact .inr ⟨d, inside, same.symm ▸ finished, same.symm ▸ depends⟩

theorem Reporting.swept_iff {s s' : Spread V} (told : Reporting keys s s') (start : s.frontier = []) :
    s'.graph.Swept s'.frontier k ↔ s.graph.Swept keys k ∧ k ∉ keys := by
  have same {x : Key} (finished : (s'.graph.node x).isFinished = true) :
      s'.graph.node x = s.graph.node x ∧ x ∉ keys := by
    have node := told.node x
    split at node
    next => simp [node, isFinished_reported] at finished
    next out =>
      refine ⟨node, fun inside => out ⟨inside, ?_⟩⟩
      exact ((isFinished_iff _).mp (node ▸ finished)).1
  have kept {x : Key} (finished : (s.graph.node x).isFinished = true) (out : x ∉ keys) :
      s'.graph.node x = s.graph.node x := by
    rw [told.node, if_neg fun inside => out inside.1]
  constructor
  · rintro swept
    refine ⟨?_, (same swept.finished).2⟩
    obtain ⟨x, inside, finished, path⟩ := swept
    obtain ⟨d, inKeys, done, depends⟩ := ((told.frontier x).mp inside).resolve_left (by simp [start])
    have first : s.graph.Passes d x := ⟨depends, (same finished).1 ▸ finished⟩
    refine ⟨d, inKeys, done, .head first ?_⟩
    clear depends first
    induction path with
    | refl => exact .refl
    | @tail y z path passes ih =>
      have before : (s'.graph.node y).isFinished = true := Swept.finished ⟨x, inside, finished, path⟩
      exact ih.tail ⟨(same before).1 ▸ passes.1, (same passes.2).1 ▸ passes.2⟩
  · rintro ⟨⟨d, inKeys, done, path⟩, out⟩
    induction path with
    | refl => exact absurd inKeys out
    | @tail y z path passes ih =>
      have before : (s.graph.node y).isFinished = true := Swept.finished ⟨d, inKeys, done, path⟩
      have finished : (s'.graph.node z).isFinished = true := by
        rw [kept passes.2 out]
        exact passes.2
      by_cases reported : y ∈ keys
      · exact ⟨z, (told.frontier z).mpr (.inr ⟨y, reported, before, passes.1⟩), finished, .refl⟩
      · exact (ih reported).next ⟨kept before reported ▸ passes.1, finished⟩

open Classical in
theorem node_invalidate (g : Graph V) (keys : List Key) (k : Key) :
    (g.invalidate keys).2.2.node k =
      if k ∈ keys ∧ (g.node k).status.isSettled = true then (g.node k).reported
      else if g.Swept keys k then (g.node k).suspected
      else g.node k := by
  have told := markChanged_told keys ⟨g, [], []⟩
  have swept := told.swept_iff (k := k) rfl
  have node := told.node k
  change ((markChanged keys ⟨g, [], []⟩).graph.spread _).graph.node k = _
  rw [node_spread, if_congr swept rfl rfl, node]
  change (if g.Swept keys k ∧ k ∉ keys then _ else _) = _
  by_cases inside : k ∈ keys
  · have settled : g.Swept keys k → (g.node k).status.isSettled = true :=
      fun swept => ((isFinished_iff _).mp swept.finished).1
    by_cases reported : (g.node k).status.isSettled = true
    · simp [inside, reported]
    · simp [inside, reported, mt settled reported]
  · simp [inside]

theorem invalidate_told (inside : k ∈ keys) (settled : (g.node k).status.isSettled = true) :
    (g.invalidate keys).2.2.node k = (g.node k).reported := by
  rw [node_invalidate, if_pos ⟨inside, settled⟩]

theorem invalidate_swept (out : k ∉ keys) (swept : g.Swept keys k) :
    (g.invalidate keys).2.2.node k = (g.node k).suspected := by
  rw [node_invalidate, if_neg fun inside => out inside.1, if_pos swept]

theorem invalidate_apart (out : k ∈ keys → (g.node k).status.isSettled = false)
    (apart : ¬ g.Swept keys k) : (g.invalidate keys).2.2.node k = g.node k := by
  rw [node_invalidate, if_neg, if_neg apart]
  rintro ⟨inside, settled⟩
  simp [out inside] at settled

theorem isDirty_invalidate (g : Graph V) (keys : List Key) (k : Key) :
    ((g.invalidate keys).2.2.node k).isDirty = true ↔
      k ∈ keys ∧ (g.node k).status.isSettled = true ∨ g.Swept keys k ∨ (g.node k).isDirty = true := by
  rw [node_invalidate]
  split
  next told => simp [told, Node.reported, Node.isDirty]
  next out =>
    split
    next swept => simp [swept, Node.suspected, Node.isDirty]
    next apart => simp [out, apart]

theorem isFinished_invalidate (g : Graph V) (keys : List Key) (k : Key) :
    ((g.invalidate keys).2.2.node k).isFinished = true ↔
      (g.node k).isFinished = true ∧ ¬ g.Swept keys k := by
  rw [node_invalidate]
  split
  next told =>
    simp only [isFinished_reported, Bool.false_eq_true, false_iff, not_and, not_not]
    exact fun finished => ⟨k, told.1, finished, .refl⟩
  next =>
    split
    next swept => simp [isFinished_suspected, swept]
    next apart => simp [apart]

theorem invalidate_frame (g : Graph V) (keys : List Key) :
    (g.invalidate keys).2.2.keys = g.keys ∧ (g.invalidate keys).2.2.version = g.version := by
  have told := markChanged_told keys ⟨g, [], []⟩
  obtain ⟨keys', version⟩ := spread_frame (markChanged keys ⟨g, [], []⟩).graph
    (markChanged keys ⟨g, [], []⟩).frontier
  exact ⟨keys'.trans told.keys, version.trans told.version⟩

end Graph

end Recompute
