import Recompute.World
import Mathlib.Data.List.Induction

set_option autoImplicit false

namespace Recompute

variable {V : Type}

abbrev Oracle (V : Type) := Key → Option (Outcome V)

def Outcome.failure? : Outcome V → Option Failure
  | .error f => some f
  | .ok _ => none

def answersOf (look : Oracle V) (keys : List Key) : Answers V :=
  (union [] keys).map fun k => (k, look k)

theorem set_answers (look : Oracle V) (keys : List Key) (k : Key) :
    Table.set (keys.map fun k => (k, look k)) k (look k) =
      (if k ∈ keys then keys else keys ++ [k]).map fun k => (k, look k) := by
  induction keys with
  | nil => rfl
  | cons l rest ih =>
    by_cases same : l = k
    · subst same
      simp [Table.set]
    · have ne : k ≠ l := fun e => same e.symm
      by_cases known : k ∈ rest <;> simp [Table.set, same, ne, ih, known]

theorem answersOf_concat (look : Oracle V) (keys : List Key) (k : Key) :
    answersOf look (keys ++ [k]) = Table.set (answersOf look keys) k (look k) := by
  rw [answersOf, answersOf, set_answers, union_concat]

namespace Trace

def known (t : Trace V) (g : Graph V) : Oracle V := fun k =>
  match t.memo.get? k with
  | some o => some o
  | none => g.outcome? k

def fresh (t : Trace V) (keys : List Key) : Group := union [] (keys.filter (· ∉ t.asked))

def heard (t : Trace V) (look : Oracle V) (tolerant : Bool) (keys : List Key) : Trace V :=
  { t with
    asked := t.asked ++ t.fresh keys
    groups := if t.fresh keys = [] then t.groups else t.groups ++ [t.fresh keys]
    absent := t.absent ++ (t.fresh keys).filter fun k => (look k).isNone
    failures := t.failures ++
      if tolerant then [] else keys.filterMap fun k => (look k).bind Outcome.failure? }

def reads (t : Trace V) : Trace V := { t with memo := [] }

@[simp] theorem mem_fresh (t : Trace V) (keys : List Key) (k : Key) :
    k ∈ t.fresh keys ↔ k ∈ keys ∧ k ∉ t.asked := by
  simp [fresh, mem_union]

theorem fresh_concat (t : Trace V) (keys : List Key) (k : Key) :
    t.fresh (keys ++ [k]) =
      if k ∈ t.asked ++ t.fresh keys then t.fresh keys else t.fresh keys ++ [k] := by
  by_cases asked : k ∈ t.asked
  · simp [fresh, asked]
  · have step : t.fresh (keys ++ [k]) =
        if k ∈ t.fresh keys then t.fresh keys else t.fresh keys ++ [k] := by
      simp only [fresh, List.filter_append, List.filter_cons, asked, not_false_eq_true,
        decide_true, if_true, List.filter_nil, union_concat]
      rfl
    by_cases known : k ∈ t.fresh keys <;> simp [step, asked, known]

theorem known_look (t : Trace V) (g : Graph V) (k : Key) :
    (t.look g k).2.1.known (t.look g k).2.2 = t.known g := by
  funext l
  cases remembered : t.memo.get? k with
  | some o => simp [look, remembered]
  | none =>
    cases found : (g.ensure k).outcome? k with
    | none => simp [look, remembered, found, known, Graph.outcome?_eq]
    | some o =>
      rw [Graph.outcome?_eq, Graph.node_ensure] at found
      by_cases same : l = k
      · subst same
        simp [look, remembered, known, Graph.outcome?_eq, found]
      · simp [look, remembered, known, Graph.outcome?_eq, found, same]

theorem look_answer (t : Trace V) (g : Graph V) (k : Key) : (t.look g k).1 = t.known g k := by
  cases remembered : t.memo.get? k with
  | some o => simp [look, known, remembered]
  | none =>
    cases found : g.outcome? k <;>
      simp_all [look, known, Graph.outcome?_eq]

theorem look_reads (t : Trace V) (g : Graph V) (k : Key) : (t.look g k).2.1.reads = t.reads := by
  cases remembered : t.memo.get? k with
  | some o => simp [look, remembered]
  | none => cases found : (g.ensure k).outcome? k <;> simp [look, remembered, found, reads]

theorem look_memo (t : Trace V) (g : Graph V) (k l : Key) :
    (t.look g k).2.1.memo.get? l = if l = k then t.known g k else t.memo.get? l := by
  cases remembered : t.memo.get? k with
  | some o =>
    by_cases same : l = k
    · subst same
      simp [look, known, remembered]
    · simp [look, remembered, same]
  | none =>
    have graph : (g.ensure k).outcome? k = g.outcome? k := by simp [Graph.outcome?_eq]
    cases found : g.outcome? k with
    | none =>
      by_cases same : l = k
      · subst same
        simp [look, known, remembered, graph, found]
      · simp [look, remembered, graph, found, same]
    | some o =>
      by_cases same : l = k
      · subst same
        simp [look, known, remembered, graph, found]
      · simp [look, remembered, graph, found, same]

@[simp] theorem look_node (t : Trace V) (g : Graph V) (k l : Key) :
    (t.look g k).2.2.node l = g.node l := by
  cases remembered : t.memo.get? k with
  | some o => simp [look, remembered]
  | none => cases found : (g.ensure k).outcome? k <;> simp [look, remembered, found]

@[simp] theorem look_version (t : Trace V) (g : Graph V) (k : Key) :
    (t.look g k).2.2.version = g.version := by
  cases remembered : t.memo.get? k with
  | some o => simp [look, remembered]
  | none => cases found : (g.ensure k).outcome? k <;> simp [look, remembered, found]

theorem look_fields (t : Trace V) (g : Graph V) (k : Key) :
    (t.look g k).2.1.asked = t.asked ∧ (t.look g k).2.1.groups = t.groups ∧
      (t.look g k).2.1.absent = t.absent ∧ (t.look g k).2.1.failures = t.failures := by
  have same := look_reads t g k
  simp only [reads, Trace.mk.injEq] at same
  exact ⟨same.2.1, same.2.2.1, same.2.2.2.1, same.2.2.2.2⟩

structure Heard (t : Trace V) (g : Graph V) (tolerant : Bool) (keys : List Key) (r : Request V) :
    Prop where
  asked : r.trace.asked = t.asked ++ t.fresh keys
  groups : r.trace.groups = t.groups
  absent : r.trace.absent = t.absent ++ (t.fresh keys).filter fun k => (t.known g k).isNone
  failures : r.trace.failures = t.failures ++
    if tolerant then [] else keys.filterMap fun k => (t.known g k).bind Outcome.failure?
  group : r.group = t.fresh keys
  answers : r.answers = answersOf (t.known g) keys
  known : r.trace.known r.graph = t.known g
  memo : ∀ l, r.trace.memo.get? l = if l ∈ keys then t.known g l else t.memo.get? l
  node : ∀ l, r.graph.node l = g.node l
  version : r.graph.version = g.version

theorem ask_heard {t : Trace V} {g : Graph V} {tolerant : Bool} {keys : List Key} {r : Request V}
    (heard : Heard t g tolerant keys r) (k : Key) :
    Heard t g tolerant (keys ++ [k]) (r.ask tolerant k) := by
  obtain ⟨asked, groups, absent, failures⟩ := look_fields r.trace r.graph k
  have answer : (r.trace.look r.graph k).1 = t.known g k := by rw [look_answer, heard.known]
  have remembered (l : Key) : (r.trace.look r.graph k).2.1.memo.get? l =
      if l ∈ keys ++ [k] then t.known g l else t.memo.get? l := by
    rw [look_memo, heard.known, heard.memo]
    by_cases same : l = k <;> simp [same]
  have known := known_look r.trace r.graph k
  rw [heard.known] at known
  have asks : r.ask tolerant k =
      { trace :=
          { memo := (r.trace.look r.graph k).2.1.memo
            asked := t.asked ++ t.fresh (keys ++ [k])
            groups := t.groups
            absent := t.absent ++ (t.fresh (keys ++ [k])).filter fun k => (t.known g k).isNone
            failures := t.failures ++ if tolerant then [] else
              (keys ++ [k]).filterMap fun k => (t.known g k).bind Outcome.failure? }
        graph := (r.trace.look r.graph k).2.2
        group := t.fresh (keys ++ [k])
        answers := answersOf (t.known g) (keys ++ [k]) } := by
    have grow := fresh_concat t keys k
    rw [heard.asked] at asked
    rw [heard.groups] at groups
    rw [heard.absent] at absent
    rw [heard.failures] at failures
    unfold Request.ask
    rw [heard.asked, heard.group, heard.answers, answersOf_concat]
    generalize r.trace.look r.graph k = found at *
    obtain ⟨answered, ⟨memo, _, _, _, _⟩, graph⟩ := found
    simp only at asked groups absent failures answer
    subst asked groups absent failures answer
    by_cases first : k ∈ t.asked ++ t.fresh keys
    · rw [if_pos first] at grow
      rcases outcome : t.known g k with _ | _ | _ <;> cases tolerant <;>
        simp [first, grow, outcome, Outcome.failure?]
    · rw [if_neg first] at grow
      rcases outcome : t.known g k with _ | _ | _ <;> cases tolerant <;>
        simp [first, grow, outcome, Outcome.failure?]
  rw [asks]
  exact ⟨rfl, rfl, rfl, rfl, rfl, rfl, known, remembered, by simp [heard.node], by simp [heard.version]⟩

theorem heard_all (t : Trace V) (g : Graph V) (tolerant : Bool) (keys : List Key) :
    Heard t g tolerant keys (keys.foldl (Request.ask tolerant) ⟨t, g, [], []⟩) := by
  induction keys using List.reverseRecOn with
  | nil => constructor <;> simp [fresh, answersOf, union]
  | append_singleton keys k ih =>
    rw [List.foldl_append]
    exact ask_heard ih k

section

variable (t : Trace V) (g : Graph V) (tolerant : Bool) (keys : List Key)

theorem request_answers : (t.request tolerant keys g).1 = answersOf (t.known g) keys :=
  (heard_all t g tolerant keys).answers

theorem request_reads :
    (t.request tolerant keys g).2.1.reads = t.reads.heard (t.known g) tolerant keys := by
  have all := heard_all t g tolerant keys
  change _ = (t.heard (t.known g) tolerant keys).reads
  by_cases none : t.fresh keys = [] <;>
    simp [request, Request.close, reads, heard, all.group, all.asked, all.groups, all.absent, all.failures, none]

theorem request_known :
    (t.request tolerant keys g).2.1.known (t.request tolerant keys g).2.2 = t.known g := by
  have all := (heard_all t g tolerant keys).known
  simp only [request, Request.close]
  split <;> exact all

theorem request_memo (l : Key) :
    (t.request tolerant keys g).2.1.memo.get? l =
      if l ∈ keys then t.known g l else t.memo.get? l := by
  have all := (heard_all t g tolerant keys).memo l
  simp only [request, Request.close]
  split <;> exact all

@[simp] theorem request_node (l : Key) : (t.request tolerant keys g).2.2.node l = g.node l :=
  (heard_all t g tolerant keys).node l

@[simp] theorem request_version : (t.request tolerant keys g).2.2.version = g.version :=
  (heard_all t g tolerant keys).version

end

end Trace

end Recompute
