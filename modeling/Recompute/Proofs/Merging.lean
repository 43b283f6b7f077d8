import Recompute.Proofs.Causes

set_option autoImplicit false

namespace Recompute

section Union

variable {α : Type} [DecidableEq α]

theorem union_of_subset {old new : List α} (known : new ⊆ old) : union old new = old := by
  induction new with
  | nil => rfl
  | cons x rest ih =>
    obtain ⟨first, rest'⟩ := List.cons_subset.mp known
    rw [union_cons, if_pos first, ih rest']

theorem union_union_nil (old xs : List α) : union old (union [] xs) = union old xs := by
  induction xs using List.reverseRecOn with
  | nil => rfl
  | append_singleton xs x ih =>
    have known : x ∈ union [] xs ↔ x ∈ xs := by simp [mem_union]
    rw [union_concat, union_concat]
    by_cases again : x ∈ xs
    · rw [if_pos (known.mpr again), if_pos ((mem_union old xs x).mpr (.inr again)), ih]
    · rw [if_neg (mt known.mp again), union_concat, ih]

end Union

namespace Failure

theorem merge_congr {xs ys : List Failure}
    (causes : union [] (xs.flatMap causes) = union [] (ys.flatMap causes))
    (fault : xs.findSome? fault? = ys.findSome? fault?)
    (cycles : union [] (xs.flatMap cycles) = union [] (ys.flatMap cycles)) :
    merge xs = merge ys := by
  simp only [merge, foldl_union_eq, causes, fault, cycles]

theorem merge_again {xs : List Failure} {f : Failure} (met : f ∈ xs) (ys : List Failure) :
    merge (xs ++ f :: ys) = merge (xs ++ ys) := by
  have once {α : Type} [DecidableEq α] (part : Failure → List α) :
      union [] ((xs ++ f :: ys).flatMap part) = union [] ((xs ++ ys).flatMap part) := by
    have known : part f ⊆ union [] (xs.flatMap part) := fun a inside =>
      (mem_union _ _ _).mpr (.inr (List.mem_flatMap.mpr ⟨f, met, inside⟩))
    simp only [List.flatMap_append, List.flatMap_cons, union_append, union_of_subset known]
  refine merge_congr (once causes) ?_ (once cycles)
  rw [List.findSome?_append, List.findSome?_append, List.findSome?_cons]
  cases first : xs.findSome? fault? with
  | some e => rfl
  | none => rw [List.findSome?_eq_none_iff.mp first f met]

-- Whoever meets the failures `xs` among others might as well meet `ys` in their place.
def Exchangeable (xs ys : List Failure) : Prop :=
  ∀ before after, merge (before ++ xs ++ after) = merge (before ++ ys ++ after)

namespace Exchangeable

variable {xs ys us vs : List Failure}

theorem merge_eq (same : Exchangeable xs ys) : merge xs = merge ys := by
  simpa using same [] []

theorem trans (first : Exchangeable xs ys) (second : Exchangeable ys us) : Exchangeable xs us :=
  fun before after => (first before after).trans (second before after)

theorem append (first : Exchangeable xs us) (second : Exchangeable ys vs) :
    Exchangeable (xs ++ ys) (us ++ vs) := by
  intro before after
  calc merge (before ++ (xs ++ ys) ++ after)
      = merge (before ++ xs ++ (ys ++ after)) := by simp only [List.append_assoc]
    _ = merge (before ++ us ++ (ys ++ after)) := first before (ys ++ after)
    _ = merge (before ++ us ++ ys ++ after) := by simp only [List.append_assoc]
    _ = merge (before ++ us ++ vs ++ after) := second (before ++ us) after
    _ = merge (before ++ (us ++ vs) ++ after) := by simp only [List.append_assoc]

theorem merged (xs : List Failure) : Exchangeable [merge xs] xs := by
  intro before after
  have split {α : Type} [DecidableEq α] (part : Failure → List α)
      (whole : part (merge xs) = union [] (xs.flatMap part)) :
      union [] ((before ++ [merge xs] ++ after).flatMap part) =
        union [] ((before ++ xs ++ after).flatMap part) := by
    simp only [List.flatMap_append, List.flatMap_singleton, whole, union_append, union_union_nil]
  refine merge_congr (split causes (causes_merge xs)) ?_ (split cycles (cycles_merge xs))
  have whole : [merge xs].findSome? fault? = xs.findSome? fault? := List.findSome?_singleton
  simp only [List.findSome?_append, whole]

theorem once (xs : List Failure) : Exchangeable (union [] xs) xs := by
  induction xs using List.reverseRecOn with
  | nil => exact fun _ _ => rfl
  | append_singleton xs f ih =>
    rw [union_concat]
    split
    next known =>
      intro before after
      have met : f ∈ before ++ xs := List.mem_append_right _ (by simpa [mem_union] using known)
      calc merge (before ++ union [] xs ++ after)
          = merge (before ++ xs ++ after) := ih before after
        _ = merge (before ++ xs ++ f :: after) := (merge_again met after).symm
        _ = merge (before ++ (xs ++ [f]) ++ after) := by simp
    next => exact ih.append fun _ _ => rfl

end Exchangeable

end Failure

inductive Relay where
  | leaf (f : Failure)
  | through (met : List Relay)

namespace Relay

def failure : Relay → Failure
  | leaf f => f
  | through met => .merge (met.map failure)

def leaves : Relay → List Failure
  | leaf f => [f]
  | through met => met.flatMap leaves

theorem exchangeable_flatMap {met : List Relay}
    (each : ∀ r ∈ met, Failure.Exchangeable [r.failure] r.leaves) :
    Failure.Exchangeable (met.map failure) (met.flatMap leaves) := by
  induction met with
  | nil => exact fun _ _ => rfl
  | cons r rest ih =>
    have first := each r List.mem_cons_self
    exact first.append (ih fun r inside => each r (List.mem_cons_of_mem _ inside))

-- By recursion on the nodes in between, each of which stands for what it has met.
theorem exchangeable_leaves (r : Relay) : Failure.Exchangeable [r.failure] r.leaves := by
  induction r using leaves.induct with
  | case1 f =>
    rw [failure, leaves]
    exact fun _ _ => rfl
  | case2 met ih =>
    rw [failure, leaves]
    exact (Failure.Exchangeable.merged _).trans (exchangeable_flatMap ih)

theorem merge_relayed (met : List Relay) :
    Failure.merge (met.map failure) = Failure.merge (met.flatMap leaves) :=
  (exchangeable_flatMap fun r _ => r.exchangeable_leaves).merge_eq

end Relay

namespace Failure

-- Merging flattens: what was merged before counts as all that it was merged from, each cause and
-- each cycle is kept once, and a failure that was met before adds nothing. So what a node makes of
-- the failures that reach it has the causes, the first fault and the cycles of those at the ends,
-- and only the order in which these are first met counts, not how many nodes they came through nor
-- how often.
theorem merge_flattens :
    (∀ xs ys zs, merge (xs ++ [merge ys] ++ zs) = merge (xs ++ ys ++ zs)) ∧
      (∀ xs, (merge xs).causes.Nodup ∧ (merge xs).cycles.Nodup) ∧
      (∀ xs f ys, f ∈ xs → merge (xs ++ f :: ys) = merge (xs ++ ys)) ∧
      (∀ met : List Relay, let ends := met.flatMap Relay.leaves
        merge (met.map Relay.failure) =
          .transitive (union [] (ends.flatMap causes)) (ends.findSome? fault?)
            (union [] (ends.flatMap cycles))) ∧
      ∀ met met' : List Relay,
        union [] (met.flatMap Relay.leaves) = union [] (met'.flatMap Relay.leaves) →
        merge (met.map Relay.failure) = merge (met'.map Relay.failure) := by
  refine ⟨fun xs ys zs => Exchangeable.merged ys xs zs, fun xs => ?_,
    fun xs f ys met => merge_again met ys, fun met => ?_, fun met met' same => ?_⟩
  · exact ⟨nodup_causes_merge xs, nodup_cycles_merge xs⟩
  · rw [Relay.merge_relayed, merge, foldl_union_eq, foldl_union_eq]
  · have once (met : List Relay) :
        merge (met.map Relay.failure) = merge (union [] (met.flatMap Relay.leaves)) :=
      (Relay.merge_relayed met).trans (Exchangeable.once _).merge_eq.symm
    rw [once, once, same]

theorem merge_flattens_detour :
    let a : Failure := .direct ⟨"a", .datum .unit⟩ (.message "no such file")
    let b : Failure := .direct ⟨"b", .datum .unit⟩ (.message "bad flag")
    let c : Failure := .cycle [⟨"c", .datum .unit⟩, ⟨"b", .datum .unit⟩]
    merge [merge [c, a], b, a] = merge [c, a, b] ∧
      a ∈ [c, a, b] ∧ merge [c, a, b, a] = merge [c, a, b] ∧
      union [] ([.through [.leaf c, .leaf a], .leaf b, .leaf a].flatMap Relay.leaves) = [c, a, b] ∧
      merge [c, a, b] = .transitive
        [⟨"c", .datum .unit⟩, ⟨"b", .datum .unit⟩, ⟨"a", .datum .unit⟩]
        (some (.message "no such file")) [[⟨"c", .datum .unit⟩, ⟨"b", .datum .unit⟩]] := by
  intro a b c
  obtain ⟨-, -, again, -, order⟩ := merge_flattens
  have met : a ∈ [c, a, b] := by decide
  have first : union [] ([.through [.leaf c, .leaf a], .leaf b, .leaf a].flatMap Relay.leaves) =
      [c, a, b] := by
    simp only [Relay.leaves, List.flatMap_cons, List.flatMap_nil]
    decide
  have straight : [Relay.leaf c, .leaf a, .leaf b].flatMap Relay.leaves = [c, a, b] := by
    simp [Relay.leaves]
  have passed := order [.through [.leaf c, .leaf a], .leaf b, .leaf a]
    [.leaf c, .leaf a, .leaf b] (by rw [first, straight]; decide)
  simp only [List.map_cons, List.map_nil, Relay.failure] at passed
  exact ⟨passed, met, again [c, a, b] a [] met, first, by decide⟩

end Failure

end Recompute
