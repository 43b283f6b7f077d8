import Recompute.Proofs.Waits

set_option autoImplicit false

namespace Recompute

namespace Graph

open Relation (ReflTransGen TransGen)

section

variable (edges : Key → Option (List Key))

inductive Search.Walks : List Key → List Key → Search → Search → Prop
  | done (path : List Key) (s : Search) : Walks path [] s s
  | close {path rest : List Key} {k : Key} {s s' : Search} (met : k ∈ path) :
      Walks path rest (s.close path k) s' → Walks path (k :: rest) s s'
  | skip {path rest : List Key} {k : Key} {s s' : Search} (new : k ∉ path)
      (explored : k ∈ s.explored) : Walks path rest s s' → Walks path (k :: rest) s s'
  | enter {path rest : List Key} {k : Key} {s s' s'' : Search} (new : k ∉ path)
      (unexplored : k ∉ s.explored) : Walks (k :: path) ((edges k).getD []) s s' →
      Walks path rest { s' with explored := s'.explored ++ [k] } s'' → Walks path (k :: rest) s s''

-- A depth-first walk that has come to `seen` comes by `keys`. The last index lists what it has come
-- to in the end, in the order of discovery.
inductive Discovers : List Key → List Key → List Key → Prop
  | done (seen : List Key) : Discovers seen [] seen
  | skip {seen rest seen' : List Key} {k : Key} (old : k ∈ seen) :
      Discovers seen rest seen' → Discovers seen (k :: rest) seen'
  | enter {seen rest seen' seen'' : List Key} {k : Key} (new : k ∉ seen) :
      Discovers (seen ++ [k]) ((edges k).getD []) seen' →
      Discovers seen' rest seen'' → Discovers seen (k :: rest) seen''

structure Search.Recorded (path seen : List Key) (s : Search) : Prop where
  met : ∀ k, k ∈ seen ↔ k ∈ path ∨ k ∈ s.explored
  ordered : path.reverse.Sublist seen
  once : seen.Nodup
  found : ∀ c ∈ s.found, c.Sublist seen

end

variable {edges : Key → Option (List Key)} {roots path keys seen : List Key} {k : Key}
  {s s' s'' : Search}

namespace Search.Walks

theorem append {keys' : List Key} (first : Walks edges path keys s s')
    (second : Walks edges path keys' s' s'') : Walks edges path (keys ++ keys') s s'' := by
  induction first with
  | done => exact second
  | close met _ ih => exact .close met (ih second)
  | skip new explored _ ih => exact .skip new explored (ih second)
  | enter new unexplored below _ _ ih => exact .enter new unexplored below (ih second)

theorem foldl {f : Search → Key → Search}
    (step : ∀ d ∈ keys, ∀ s, Walks edges path [d] s (f s d)) (s : Search) :
    Walks edges path keys s (keys.foldl f s) := by
  induction keys generalizing s with
  | nil => exact .done path s
  | cons d rest ih =>
    have later := ih (fun l inside => step l (List.mem_cons_of_mem d inside)) (f s d)
    exact (step d List.mem_cons_self s).append later

theorem walk {nodes : List Key} (known : ∀ k d, Follows edges k d → k ∈ nodes)
    (trail : Trail edges roots path k) {fuel : Nat} (enough : nodes.length < fuel + path.length)
    (s : Search) : Walks edges path [k] s (Search.walk edges fuel path k s) := by
  induction fuel generalizing path k s with
  | zero =>
    have := trail.length_le known
    omega
  | succ fuel ih =>
    unfold Search.walk
    by_cases met : k ∈ path
    · rw [if_pos met]
      exact .close met (.done path _)
    · rw [if_neg met]
      by_cases explored : k ∈ s.explored
      · rw [if_pos explored]
        exact .skip met explored (.done path s)
      · rw [if_neg explored]
        refine .enter met explored ?_ (.done path _)
        cases found : edges k with
        | none => exact .done _ s
        | some targets =>
          refine foldl (fun d inside s => ?_) s
          refine ih (trail.extend met ⟨targets, found, inside⟩) ?_ s
          rw [List.length_cons]
          omega

end Search.Walks

namespace Search.Recorded

theorem nil : ({} : Search).Recorded [] [] := by
  constructor <;> simp

theorem close (recorded : s.Recorded path seen) (met : k ∈ path) :
    (s.close path k).Recorded path seen := by
  obtain ⟨rest, split⟩ := exists_before met
  have last : (k :: (path.takeWhile (· ≠ k)).reverse).Sublist path.reverse := by
    have turned : path.reverse = rest.reverse ++ k :: (path.takeWhile (· ≠ k)).reverse := by
      conv_lhs => rw [← split]
      simp
    rw [turned]
    exact List.sublist_append_right _ _
  unfold Search.close
  generalize k :: (path.takeWhile (· ≠ k)).reverse = cycle at last ⊢
  dsimp only
  split
  next => exact recorded
  next =>
    refine ⟨recorded.met, recorded.ordered, recorded.once, fun c found => ?_⟩
    rcases List.mem_append.mp found with old | new
    · exact recorded.found c old
    · exact List.mem_singleton.mp new ▸ last.trans recorded.ordered

theorem enter (recorded : s.Recorded path seen) (new : k ∉ path) (unexplored : k ∉ s.explored) :
    s.Recorded (k :: path) (seen ++ [k]) where
  met l := by simp [recorded.met, or_assoc, or_comm]
  ordered := by
    rw [List.reverse_cons]
    exact recorded.ordered.append (.refl [k])
  once := by
    refine List.nodup_append.mpr ⟨recorded.once, by simp, ?_⟩
    rintro l inside _ (- | ⟨_, ⟨⟩⟩) rfl
    exact ((recorded.met _).mp inside).elim new unexplored
  found c inside := (recorded.found c inside).trans (List.sublist_append_left seen [k])

theorem leave (recorded : s.Recorded (k :: path) seen) :
    ({ s with explored := s.explored ++ [k] } : Search).Recorded path seen where
  met l := by simp [recorded.met, or_assoc, or_comm, or_left_comm]
  ordered := by
    have ordered := recorded.ordered
    rw [List.reverse_cons] at ordered
    exact (List.sublist_append_left path.reverse [k]).trans ordered
  once := recorded.once
  found := recorded.found

end Search.Recorded

theorem Search.Walks.discovers (walks : Search.Walks edges path keys s s')
    (recorded : s.Recorded path seen) :
    ∃ seen', Discovers edges seen keys seen' ∧ s'.Recorded path seen' := by
  induction walks generalizing seen with
  | done => exact ⟨seen, .done seen, recorded⟩
  | close met _ ih =>
    obtain ⟨seen', discovers, recorded'⟩ := ih (recorded.close met)
    exact ⟨seen', .skip ((recorded.met _).mpr (.inl met)) discovers, recorded'⟩
  | skip new explored _ ih =>
    obtain ⟨seen', discovers, recorded'⟩ := ih recorded
    exact ⟨seen', .skip ((recorded.met _).mpr (.inr explored)) discovers, recorded'⟩
  | @enter path rest k s s' s'' new unexplored _ _ below after =>
    obtain ⟨seen', first, recorded'⟩ := below (recorded.enter new unexplored)
    obtain ⟨seen'', second, recorded''⟩ := after recorded'.leave
    have unseen : k ∉ seen := fun inside => ((recorded.met k).mp inside).elim new unexplored
    exact ⟨seen'', .enter unseen first second, recorded''⟩

theorem Discovers.unique {seen' seen'' : List Key} (first : Discovers edges seen keys seen')
    (second : Discovers edges seen keys seen'') : seen' = seen'' := by
  induction first generalizing seen'' with
  | done =>
    cases second
    rfl
  | skip old _ ih =>
    cases second with
    | skip _ rest => exact ih rest
    | enter new _ _ => exact absurd old new
  | enter new _ _ below after =>
    cases second with
    | skip old _ => exact absurd old new
    | enter _ first rest =>
      cases below first
      exact after rest

theorem not_transGen_of_ends {k : Key} (ends : Ends edges k) : ¬ TransGen (Follows edges) k k := by
  induction ends with
  | intro k _ ih =>
    intro loop
    obtain ⟨d, follows, back⟩ := TransGen.head'_iff.mp loop
    exact ih d follows (TransGen.tail' back follows)

theorem Ends.reach {k d : Key} (ends : Ends edges k) (reach : ReflTransGen (Follows edges) k d) :
    Ends edges d := by
  induction reach with
  | refl => exact ends
  | tail _ follows ih => exact ih.inv follows

theorem IsCycle.transGen {k : Key} {rest : List Key} (cycle : IsCycle edges (k :: rest)) :
    TransGen (Follows edges) k k := by
  cases rest with
  | nil => exact .single (List.isChain_pair.mp cycle)
  | cons d rest =>
    obtain ⟨first, chain⟩ := List.isChain_cons_cons.mp cycle
    exact .head' first (List.relationReflTransGen_of_exists_isChain_cons _ chain (by simp))

variable {V : Type}

def Waits (g : Graph V) (k d : Key) : Prop :=
  (g.node k).isFinished = false ∧ d ∈ (g.node k).awaits

theorem follows_waitEdges_eq (g : Graph V) : Follows g.waitEdges = g.Waits := by
  funext k d
  refine propext ⟨fun follows => (g.follows_waitEdges follows).2, ?_⟩
  rintro ⟨unfinished, awaited⟩
  cases found : g.get? k with
  | none => simp [node, found, Node.awaits] at awaited
  | some n =>
    rw [node_of_get? found] at unfinished awaited
    exact ⟨n.awaits, by simp [waitEdges, found, unfinished], awaited⟩

theorem cyclesFrom_walks (g : Graph V) (roots : List Key) :
    ∃ s, Search.Walks g.waitEdges [] roots {} s ∧ s.found = g.cyclesFrom roots := by
  refine ⟨_, Search.Walks.foldl (fun root inside s => ?_) {}, rfl⟩
  refine Search.Walks.walk g.mem_keys_of_follows (.start inside) ?_ s
  simp only [keys, Table.keys, size, List.length_map, List.length_nil]
  omega

-- The search of a graph is the one that no bound cuts short, and it visits the keys in the order of
-- a depth-first walk. It finds only cycles of unfinished nodes that wait for each other, no two of
-- which share a key, each from the member that the walk discovered first on; and it finds one if
-- the roots lead to any.
theorem cyclesFrom_exact (g : Graph V) (roots : List Key) :
    (∃ s, Search.Walks g.waitEdges [] roots {} s ∧ s.found = g.cyclesFrom roots) ∧
      (∃ order, Discovers g.waitEdges [] roots order ∧ order.Nodup ∧
        (∀ order', Discovers g.waitEdges [] roots order' → order' = order) ∧
        ∀ c ∈ g.cyclesFrom roots, c.Sublist order) ∧
      (∀ c ∈ g.cyclesFrom roots, c ≠ [] ∧ c.Nodup ∧
        (∀ k d, Cycle.Next c k d → d ∈ (g.node k).awaits) ∧
        ∀ k ∈ c, (g.get? k).isSome ∧ (g.node k).isFinished = false ∧
          ∃ root ∈ roots, ReflTransGen g.Waits root k) ∧
      (g.cyclesFrom roots).Pairwise List.Disjoint ∧
      (g.cyclesFrom roots = [] ↔
        ¬ ∃ root ∈ roots, ∃ k, ReflTransGen g.Waits root k ∧ TransGen g.Waits k k) := by
  obtain ⟨sound, once⟩ := g.cyclesFrom_sound roots
  obtain ⟨apart, disjoint⟩ := List.nodup_flatten.mp once
  simp only [LedTo, follows_waitEdges_eq] at sound
  refine ⟨g.cyclesFrom_walks roots, ?_, fun c found => ?_, disjoint, fun none => ?_, fun none => ?_⟩
  · obtain ⟨s, walks, found⟩ := g.cyclesFrom_walks roots
    obtain ⟨order, discovers, recorded⟩ := walks.discovers .nil
    refine ⟨order, discovers, recorded.once, fun order' other => other.unique discovers, ?_⟩
    exact fun c inside => recorded.found c (found ▸ inside)
  · obtain ⟨cycle, led⟩ := sound c found
    refine ⟨cycle.ne_nil, apart c found, fun k d next => ?_, fun k member => ?_⟩
    · exact (g.follows_waitEdges (cycle.next next)).2.2
    · obtain ⟨d, next⟩ := Cycle.exists_next member
      obtain ⟨known, unfinished, -⟩ := g.follows_waitEdges (cycle.next next)
      exact ⟨known, unfinished, led k member⟩
  · rintro ⟨root, wanted, k, reach, loop⟩
    rw [← follows_waitEdges_eq] at reach loop
    exact not_transGen_of_ends ((g.ends_of_cyclesFrom_eq_nil none wanted).reach reach) loop
  · by_contra some
    obtain ⟨c, found⟩ := List.exists_mem_of_ne_nil _ some
    obtain ⟨cycle, led⟩ := sound c found
    cases c with
    | nil => exact cycle.ne_nil rfl
    | cons k rest =>
      obtain ⟨root, wanted, reach⟩ := led k List.mem_cons_self
      exact none ⟨root, wanted, k, reach, g.follows_waitEdges_eq ▸ cycle.transGen⟩

end Graph

end Recompute
