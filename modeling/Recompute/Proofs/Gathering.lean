import Recompute.Proofs.Request
import Mathlib.Data.List.Forall2

set_option autoImplicit false

namespace Recompute

variable {S V : Type}

section

variable {α β : Type}

theorem mapM_eq_some_iff {f : α → Option β} {xs : List α} {ys : List β} :
    xs.mapM f = some ys ↔ List.Forall₂ (fun x y => f x = some y) xs ys := by
  induction xs generalizing ys with
  | nil => cases ys <;> simp
  | cons x rest ih =>
    rw [List.mapM_cons]
    cases here : f x with
    | none => cases ys <;> simp [here]
    | some y => cases there : rest.mapM f <;> cases ys <;> simp [here, ← ih, there]

theorem mapM_eq_none_iff {f : α → Option β} {xs : List α} :
    xs.mapM f = none ↔ ∃ x ∈ xs, f x = none := by
  induction xs with
  | nil => simp
  | cons x rest ih =>
    rw [List.mapM_cons]
    cases here : f x with
    | none => simp [here]
    | some y => cases there : rest.mapM f <;> simp [here, ← ih, there]

variable [DecidableEq α]

theorem union_sublist (old new : List α) : (union old new).Sublist (old ++ new) := by
  induction new generalizing old with
  | nil => simp [union]
  | cons x rest ih =>
    have step := ih (if x ∈ old then old else old ++ [x])
    rw [union_cons]
    by_cases known : x ∈ old
    · rw [if_pos known] at step ⊢
      exact step.trans (List.Sublist.append_left (List.sublist_cons_self x rest) old)
    · simpa [known] using step

theorem length_union_nil {xs : List α} : (union [] xs).length = xs.length ↔ xs.Nodup := by
  have within : (union [] xs).Sublist xs := union_sublist [] xs
  constructor
  · intro same
    exact within.eq_of_length same ▸ nodup_union .nil xs
  · intro once
    rw [union_nil_of_nodup once]

end

def Trace.Readable (t : Trace V) (g : Graph V) (k : Key) (v : V) : Prop :=
  t.known g k = some (.ok v)

def Trace.Unavailable (t : Trace V) (g : Graph V) (k : Key) : Prop :=
  t.known g k = none ∨ ∃ f, t.known g k = some (.error f)

namespace Computation

variable {t : Trace V} {g : Graph V} {k : Key}

theorem value_eq_some_iff {v : V} :
    (t.known g k).bind Except.toOption = some v ↔ t.Readable g k v := by
  unfold Trace.Readable
  rcases t.known g k with _ | _ | _ <;> simp [Except.toOption]

theorem value_eq_none_iff : (t.known g k).bind Except.toOption = none ↔ t.Unavailable g k := by
  unfold Trace.Unavailable
  rcases t.known g k with _ | _ | _ <;> simp [Except.toOption]

theorem run_needAll [BEq V] (scope : Scope) (keys : List Key) (t : Trace V) (w : World S V) :
    ((needAll keys : Computation S V (Except Fault (List V))).run scope t w).1 =
      .ok (match (union [] keys).mapM fun k => (t.known w.graph k).bind Except.toOption with
        | some vs => .ok vs
        | none => .error .notReady) := by
  have values : (answersOf (t.known w.graph) keys).withoutFailures.values =
      (union [] keys).map fun k => (t.known w.graph k).bind Except.toOption := by
    simp [answersOf, Answers.withoutFailures, Table.values]
  have answered : allPresent (t.request false keys w.graph).1.withoutFailures =
      match (union [] keys).mapM fun k => (t.known w.graph k).bind Except.toOption with
      | some vs => .ok vs
      | none => .error .notReady := by
    rw [t.request_answers w.graph false keys, allPresent, values, List.mapM_map]
    rfl
  exact congrArg Except.ok answered

-- Asking for all of `keys` answers with a value for each distinct one, in the order of first
-- mention, and with `notReady` just if one of them is unavailable. So there is one for each of
-- `keys`, at its place, just if none of them is asked for twice.
theorem needAll_lists_distinct [BEq V] (scope : Scope) (keys : List Key) (t : Trace V)
    (w : World S V) :
    ∃ answer, ((needAll keys : Computation S V (Except Fault (List V))).run scope t w).1 =
        .ok answer ∧
      (answer = .error .notReady ↔ ∃ k ∈ keys, t.Unavailable w.graph k) ∧
      (∀ fault, answer = .error fault → fault = .notReady) ∧
      ∀ vs, answer = .ok vs →
        List.Forall₂ (t.Readable w.graph) (union [] keys) vs ∧
        (vs.length = keys.length ↔ keys.Nodup) ∧
        (List.Forall₂ (t.Readable w.graph) keys vs ↔ keys.Nodup) := by
  refine ⟨_, run_needAll scope keys t w, ?_⟩
  have absent : (union [] keys).mapM (fun k => (t.known w.graph k).bind Except.toOption) = none ↔
      ∃ k ∈ keys, t.Unavailable w.graph k := by
    simp only [mapM_eq_none_iff, value_eq_none_iff, mem_union, List.not_mem_nil, false_or]
  have present (vs : List V) :
      (union [] keys).mapM (fun k => (t.known w.graph k).bind Except.toOption) = some vs ↔
        List.Forall₂ (t.Readable w.graph) (union [] keys) vs := by
    simp only [mapM_eq_some_iff, value_eq_some_iff]
  cases read : (union [] keys).mapM fun k => (t.known w.graph k).bind Except.toOption with
  | none => exact ⟨by simpa using absent.mp read, by simp, by simp⟩
  | some vs =>
    have listed := (present vs).mp read
    refine ⟨?_, by simp, ?_⟩
    · rw [← absent, read]
      simp
    · rintro _ ⟨⟩
      have length : vs.length = keys.length ↔ keys.Nodup := by
        rw [← listed.length_eq, length_union_nil]
      refine ⟨listed, length, fun placed => length.mp placed.length_eq.symm, fun once => ?_⟩
      rwa [union_nil_of_nodup once] at listed

end Computation

def World.pair : World Unit Nat :=
  (World.inject { outside := () } [(⟨"a", .datum .unit⟩, 1), (⟨"b", .datum .unit⟩, 2)]).2

namespace Computation

theorem needAll_lists_distinct_pair :
    let a : Key := ⟨"a", .datum .unit⟩
    let b : Key := ⟨"b", .datum .unit⟩
    ((needAll [a, a, b] : Computation Unit Nat _).run ⟨a, 2, 0⟩ {} .pair).1 = .ok (.ok [1, 2]) ∧
      List.Forall₂ (Trace.Readable {} World.pair.graph) [a, b] [1, 2] ∧
      ¬ List.Forall₂ (Trace.Readable {} World.pair.graph) [a, a, b] [1, 2] := by
  intro a b
  have ran : ((needAll [a, a, b] : Computation Unit Nat _).run ⟨a, 2, 0⟩ {} .pair).1 =
      .ok (.ok [1, 2]) := by decide +kernel
  obtain ⟨answer, run, -, -, lists⟩ :=
    needAll_lists_distinct (S := Unit) ⟨a, 2, 0⟩ [a, a, b] {} .pair
  cases Except.ok.inj (run.symm.trans ran)
  obtain ⟨listed, -, placed⟩ := lists [1, 2] rfl
  exact ⟨ran, listed, fun all => absurd (placed.mp all) (by decide)⟩

theorem needAll_shifts_pair :
    let a : Key := ⟨"a", .datum .unit⟩
    let b : Key := ⟨"b", .datum .unit⟩
    ∃ vs, ((needAll [a, a, b] : Computation Unit Nat _).run ⟨a, 2, 0⟩ {} .pair).1 = .ok (.ok vs) ∧
      vs.length ≠ [a, a, b].length ∧ ([a, a, b] : List Key)[1]? = some a ∧
      ∃ v, Trace.Readable {} World.pair.graph a v ∧ vs[1]? ≠ some v := by
  refine ⟨[1, 2], by decide +kernel, by decide, rfl, 1, ?_, by decide⟩
  unfold Trace.Readable
  decide +kernel

end Computation

end Recompute
