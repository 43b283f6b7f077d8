import Recompute.Key

set_option autoImplicit false

namespace Recompute

inductive Fault where
  | notReady
  | noRule (tag : String)
  | message (text : String)
  | wrapped (cause : Fault)
  deriving DecidableEq, Repr

def Fault.text : Fault → String
  | notReady => "dependencies are not ready"
  | noRule tag => "no function registered for `" ++ tag ++ "`"
  | message text => text
  | wrapped cause => cause.text

inductive FailureKind where
  | direct
  | transitive
  | cycle
  | interrupted
  deriving DecidableEq, Repr

def FailureKind.name : FailureKind → String
  | direct => "Direct"
  | transitive => "Transitive"
  | cycle => "Cycle"
  | interrupted => "Interrupted"

abbrev Cycle := List Key

def Cycle.render (c : Cycle) : String :=
  match c with
  | [] => ""
  | first :: _ => String.join (c.map fun k => k.render ++ " -> ") ++ first.render

-- The failure that a node ends with: its own rule failed, it sits on a cycle, it read dependencies
-- that had failed and did not declare that it can cope, or the pass was interrupted.
inductive Failure where
  | direct (key : Key) (fault : Fault)
  | cycle (members : Cycle)
  | transitive (causes : List Key) (fault : Option Fault) (cycles : List Cycle)
  | interrupted
  deriving DecidableEq, Repr

def union {α : Type} [DecidableEq α] (old new : List α) : List α :=
  new.foldl (fun acc x => if x ∈ acc then acc else acc ++ [x]) old

theorem union_cons {α : Type} [DecidableEq α] (old new : List α) (x : α) :
    union old (x :: new) = union (if x ∈ old then old else old ++ [x]) new := rfl

theorem union_append {α : Type} [DecidableEq α] (old xs ys : List α) :
    union old (xs ++ ys) = union (union old xs) ys :=
  List.foldl_append

theorem union_concat {α : Type} [DecidableEq α] (old new : List α) (x : α) :
    union old (new ++ [x]) = if x ∈ union old new then union old new else union old new ++ [x] := by
  rw [union_append]
  rfl

theorem mem_union {α : Type} [DecidableEq α] (old new : List α) (x : α) :
    x ∈ union old new ↔ x ∈ old ∨ x ∈ new := by
  induction new generalizing old with
  | nil => simp [union]
  | cons y rest ih =>
    have step := ih (if y ∈ old then old else old ++ [y])
    rw [union_cons, step]
    by_cases known : y ∈ old
    · by_cases same : x = y <;> simp_all
    · simp [known, or_assoc]

theorem nodup_union {α : Type} [DecidableEq α] {old : List α} (once : old.Nodup) (new : List α) :
    (union old new).Nodup := by
  induction new generalizing old with
  | nil => exact once
  | cons y rest ih =>
    refine ih ?_
    by_cases known : y ∈ old
    · simpa [known] using once
    · simp only [known, if_false, List.nodup_append]
      refine ⟨once, by simp, ?_⟩
      rintro x inside _ (- | ⟨_, ⟨⟩⟩) rfl
      exact known inside

theorem union_of_nodup {α : Type} [DecidableEq α] {old new : List α} (once : new.Nodup)
    (apart : ∀ x ∈ new, x ∉ old) : union old new = old ++ new := by
  induction new generalizing old with
  | nil => simp [union]
  | cons x rest ih =>
    obtain ⟨out, once⟩ := List.nodup_cons.mp once
    have first := apart x List.mem_cons_self
    have later : ∀ y ∈ rest, y ∉ old ++ [x] := by
      intro y inside
      have ne : y ≠ x := fun same => out (same ▸ inside)
      simp [apart y (List.mem_cons_of_mem x inside), ne]
    rw [union_cons, if_neg first, ih once later, List.append_assoc]
    rfl

theorem union_nil_of_nodup {α : Type} [DecidableEq α] {xs : List α} (once : xs.Nodup) :
    union [] xs = xs := by
  simp [union_of_nodup once]

namespace Failure

def kind : Failure → FailureKind
  | direct .. => .direct
  | cycle _ => .cycle
  | transitive .. => .transitive
  | interrupted => .interrupted

def causes : Failure → List Key
  | direct key _ => [key]
  | cycle members => members
  | transitive causes _ _ => causes
  | interrupted => []

def fault? : Failure → Option Fault
  | direct _ fault => some fault
  | transitive _ fault _ => fault
  | cycle _ | interrupted => none

def cycles : Failure → List Cycle
  | cycle members => [members]
  | transitive _ _ cycles => cycles
  | direct .. | interrupted => []

-- The failure of a node that depends on all of `failures`: their causes and cycles in the order in
-- which they are met first, and the first fault among them.
def merge (failures : List Failure) : Failure :=
  .transitive (failures.foldl (fun acc f => union acc f.causes) [])
    (failures.findSome? fault?) (failures.foldl (fun acc f => union acc f.cycles) [])

private def details (origin : String) (f : Failure) : String :=
  origin
    ++ (match f.causes with | [] => "" | k :: _ => " at " ++ k.render)
    ++ (match f.fault? with | none => "" | some e => ": " ++ e.text)
    ++ String.join (f.cycles.map fun c => " (cycle: " ++ Cycle.render c ++ ")")

def message : Failure → String
  | f@(direct ..) => details "failed" f
  | f@(transitive ..) => details "dependency failed" f
  | cycle members => "dependency cycle: " ++ Cycle.render members
  | interrupted => "evaluation interrupted"

end Failure

abbrev Outcome (V : Type) := Except Failure V

end Recompute
