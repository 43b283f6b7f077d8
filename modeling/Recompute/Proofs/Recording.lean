import Recompute.Proofs.Gathering

set_option autoImplicit false

namespace Recompute

variable {S V α β : Type}

theorem union_eq_append {γ : Type} [DecidableEq γ] (old new : List γ) :
    union old new = old ++ union [] (new.filter (· ∉ old)) := by
  induction new using List.reverseRecOn with
  | nil => simp [union]
  | append_singleton new x ih =>
    rw [union_concat, List.filter_append]
    by_cases known : x ∈ old
    · rw [if_pos ((mem_union old new x).mpr (.inl known)), ih]
      simp [known]
    · have last : [x].filter (· ∉ old) = [x] := by simp [known]
      rw [last, union_concat, ih]
      simp only [List.mem_append, known, false_or]
      split
      next => rfl
      next => rw [List.append_assoc]

inductive Query where
  | value (k : Key)
  | values (keys : List Key)
  | outcome (k : Key)
  | outcomes (keys : List Key)
  | need (k : Key)
  | needAll (keys : List Key)
  deriving DecidableEq, Repr

namespace Query

def keys : Query → List Key
  | value k | outcome k | need k => [k]
  | values keys | outcomes keys | needAll keys => keys

def tolerant : Query → Bool
  | outcome _ | outcomes _ => true
  | value _ | values _ | need _ | needAll _ => false

inductive Reply (V : Type) where
  | value (v : Option V)
  | values (vs : Table Key (Option V))
  | outcome (o : Option (Outcome V))
  | outcomes (os : Answers V)
  | need (r : Except Fault V)
  | needAll (r : Except Fault (List V))

def ask : Query → Computation S V (Reply V)
  | value k => return .value (← .read k)
  | values keys => return .values (← .readAll keys)
  | outcome k => return .outcome (← .readOutcome k)
  | outcomes keys => return .outcomes (← .readOutcomes keys)
  | need k => return .need (← .need k)
  | needAll keys => return .needAll (← .needAll keys)

def reply (look : Oracle V) : Query → Reply V
  | value k => .value ((look k).bind Except.toOption)
  | values keys => .values (answersOf look keys).withoutFailures
  | outcome k => .outcome (look k)
  | outcomes keys => .outcomes (answersOf look keys)
  | need k =>
    .need (match (look k).bind Except.toOption with
      | some v => .ok v
      | none => .error .notReady)
  | needAll keys => .needAll (Computation.allPresent (answersOf look keys).withoutFailures)

end Query

def Computation.askAll : List Query → Computation S V (List (Query.Reply V) × Bool)
  | [] => .blocked fun b => return ([], b)
  | q :: rest => do
    let reply ← q.ask
    let (replies, b) ← askAll rest
    return (reply :: replies, b)

namespace Computation

theorem run_bind [BEq V] (c : Computation S V α) (f : α → Computation S V β) (scope : Scope)
    (t : Trace V) (w : World S V) :
    (c >>= f).run scope t w =
      match c.run scope t w with
      | (.ok a, t, w) => (f a).run scope t w
      | (.error p, t, w) => (.error p, t, w) := by
  change (c.bind f).run scope t w = _
  induction c generalizing t w with
  | blocked next ih => exact ih t.blocked t w
  | interrupted next ih => exact ih (w.isInterrupted scope.handle) t w
  | _ => simp_all [bind, run]

theorem run_ask [BEq V] (q : Query) (scope : Scope) (t : Trace V) (w : World S V) :
    (q.ask : Computation S V (Query.Reply V)).run scope t w =
      (.ok (q.reply (t.known w.graph)), (t.request q.tolerant q.keys w.graph).2.1,
        { w with graph := (t.request q.tolerant q.keys w.graph).2.2 }) := by
  have answers (tolerant : Bool) (keys : List Key) := t.request_answers w.graph tolerant keys
  have outcome (look : Oracle V) (k : Key) : (Table.get? (answersOf look [k]) k).join = look k := by
    simp [answersOf, union, Table.get?]
  have value (look : Oracle V) (k : Key) :
      (Table.get? (answersOf look [k]).withoutFailures k).join = (look k).bind Except.toOption := by
    simp [answersOf, union, Answers.withoutFailures, Table.get?]
  cases q with
  | value k | values keys | outcome k | outcomes keys | needAll keys =>
    simp only [Query.ask, run_bind, read, readAll, readOutcome, readOutcomes, needAll, run,
      Query.reply, Query.tolerant, Query.keys, answers, outcome, value]
    rfl
  | need k =>
    simp only [Query.ask, run_bind, need, read, run, Query.reply, Query.tolerant, Query.keys, answers,
      value]
    cases (t.known w.graph k).bind Except.toOption <;> rfl

end Computation

namespace Trace

variable {t : Trace V} {g : Graph V} {look : Oracle V} {queries : List Query}

def serve (queries : List Query) (t : Trace V) (g : Graph V) : Trace V × Graph V :=
  queries.foldl (fun (t, g) q => (t.request q.tolerant q.keys g).2) (t, g)

theorem serve_concat (queries : List Query) (q : Query) (t : Trace V) (g : Graph V) :
    t.serve (queries ++ [q]) g =
      ((t.serve queries g).1.request q.tolerant q.keys (t.serve queries g).2).2 :=
  List.foldl_append

theorem known_serve (queries : List Query) (t : Trace V) (g : Graph V) :
    (t.serve queries g).1.known (t.serve queries g).2 = t.known g := by
  induction queries using List.reverseRecOn with
  | nil => rfl
  | append_singleton queries q ih => rw [serve_concat, request_known, ih]

theorem node_serve (queries : List Query) (t : Trace V) (g : Graph V) (k : Key) :
    (t.serve queries g).2.node k = g.node k := by
  induction queries using List.reverseRecOn with
  | nil => rfl
  | append_singleton queries q ih => rw [serve_concat, request_node, ih]

theorem memo_serve (queries : List Query) (t : Trace V) (g : Graph V) (k : Key) :
    (t.serve queries g).1.memo.get? k =
      if k ∈ queries.flatMap Query.keys then t.known g k else t.memo.get? k := by
  induction queries using List.reverseRecOn with
  | nil => rfl
  | append_singleton queries q ih =>
    rw [serve_concat, request_memo, known_serve, ih]
    by_cases asked : k ∈ q.keys <;> simp [asked]

end Trace

namespace Query

def requested (queries : List Query) : List Key := union [] (queries.flatMap keys)

def fresh (earlier : List Query) (q : Query) : Group :=
  union [] (q.keys.filter (· ∉ earlier.flatMap keys))

def groups (queries : List Query) : List Group :=
  (queries.mapIdx fun i q => q.fresh (queries.take i)).filter (· ≠ [])

theorem mem_requested {queries : List Query} {k : Key} :
    k ∈ requested queries ↔ k ∈ queries.flatMap keys := by
  simp [requested, mem_union]

theorem requested_concat (queries : List Query) (q : Query) :
    requested (queries ++ [q]) = requested queries ++ q.fresh queries := by
  have whole : requested (queries ++ [q]) = union (requested queries) q.keys := by
    rw [requested, requested, List.flatMap_append, List.flatMap_singleton, union_append]
  rw [whole, union_eq_append, fresh]
  simp only [mem_requested]

theorem groups_concat (queries : List Query) (q : Query) :
    groups (queries ++ [q]) = groups queries ++ if q.fresh queries = [] then [] else [q.fresh queries] := by
  have earlier : (queries.mapIdx fun i q' => q'.fresh ((queries ++ [q]).take i)) =
      queries.mapIdx fun i q' => q'.fresh (queries.take i) := by
    refine List.ext_getElem (by simp) fun i inside _ => ?_
    have within : i ≤ queries.length := by
      rw [List.length_mapIdx] at inside
      exact Nat.le_of_lt inside
    simp [List.take_append_of_le_length within]
  rw [groups, List.mapIdx_concat, earlier, List.filter_append, ← groups]
  by_cases none : q.fresh queries = [] <;> simp [none]

theorem flatten_groups (queries : List Query) : (groups queries).flatten = requested queries := by
  induction queries using List.reverseRecOn with
  | nil => rfl
  | append_singleton queries q ih =>
    rw [groups_concat, List.flatten_append, ih, requested_concat]
    by_cases none : q.fresh queries = [] <;> simp [none]

end Query

structure Trace.Recorded (look : Oracle V) (queries : List Query) (t : Trace V) : Prop where
  asked : t.asked = Query.requested queries
  groups : t.groups = Query.groups queries
  absent : t.absent = (Query.requested queries).filter fun k => (look k).isNone
  failures : t.failures = queries.flatMap fun q =>
    if q.tolerant then [] else q.keys.filterMap fun k => (look k).bind Outcome.failure?

theorem Query.strict_ne_nil {look : Oracle V} {q : Query} :
    ¬ (if q.tolerant then [] else q.keys.filterMap fun k => (look k).bind Outcome.failure?) = [] ↔
      q.tolerant = false ∧ ∃ k ∈ q.keys, ∃ f, look k = some (.error f) := by
  cases q.tolerant with
  | true => simp
  | false =>
    have failed (o : Option (Outcome V)) :
        o.bind Outcome.failure? ≠ none ↔ ∃ f, o = some (.error f) := by
      rcases o with _ | _ | _ <;> simp [Outcome.failure?]
    simp only [Bool.false_eq_true, if_false, List.filterMap_eq_nil_iff, not_forall, exists_prop,
      true_and, failed]

namespace Trace

variable {t : Trace V} {look : Oracle V} {queries : List Query}

theorem Recorded.heard (recorded : t.Recorded look queries) (q : Query) :
    (t.heard look q.tolerant q.keys).Recorded look (queries ++ [q]) := by
  have fresh : t.fresh q.keys = q.fresh queries := by
    simp only [Trace.fresh, Query.fresh, recorded.asked, Query.mem_requested]
  have asked : t.asked ++ t.fresh q.keys = Query.requested (queries ++ [q]) := by
    rw [Query.requested_concat, fresh, recorded.asked]
  constructor
  case asked => exact asked
  case groups =>
    rw [Query.groups_concat, ← fresh, ← recorded.groups]
    by_cases none : t.fresh q.keys = [] <;> simp [Trace.heard, none]
  case absent => rw [← asked, List.filter_append, recorded.asked, ← recorded.absent]; rfl
  case failures => simp [Trace.heard, recorded.failures]

theorem recorded_serve (queries : List Query) (memo : Memo V) (g : Graph V) :
    (({ memo } : Trace V).serve queries g).1.reads.Recorded (({ memo } : Trace V).known g) queries := by
  induction queries using List.reverseRecOn with
  | nil => constructor <;> simp [serve, reads, Query.requested, Query.groups, union]
  | append_singleton queries q ih =>
    rw [serve_concat, request_reads, known_serve]
    exact ih.heard q

end Trace

structure Trace.Exact (g : Graph V) (memo : Memo V) (queries : List Query) (t : Trace V) : Prop where
  groups : t.groups = Query.groups queries
  filled : ∀ group ∈ t.groups, group ≠ []
  order : t.groups.flatten = Query.requested queries
  once : t.groups.flatten.Nodup
  absent : t.absent = (Query.requested queries).filter fun k =>
    (memo.get? k).isNone && (g.outcome? k).isNone
  unfinished : (∀ k, g.isFinished k = true → (g.outcome? k).isSome = true) →
    t.absent = (Query.requested queries).filter fun k => (memo.get? k).isNone && !g.isFinished k
  absentOnce : t.absent.Nodup
  failures : t.failures ≠ [] ↔ ∃ q ∈ queries, q.tolerant = false ∧
    ∃ k ∈ q.keys, ∃ f, (memo.get? k).or (g.outcome? k) = some (.error f)
  blocked : t.blocked = true ↔ t.absent ≠ [] ∨ t.failures ≠ []
  memo : ∀ k, t.memo.get? k =
    (memo.get? k).or (if k ∈ Query.requested queries then g.outcome? k else none)

theorem Trace.known_memo (memo : Memo V) (g : Graph V) (k : Key) :
    ({ memo } : Trace V).known g k = (memo.get? k).or (g.outcome? k) := by
  cases found : memo.get? k <;> simp [known, found]

theorem Graph.isFinished_of_outcome? {g : Graph V} {k : Key} (some : (g.outcome? k).isSome = true) :
    g.isFinished k = true := by
  rw [g.outcome?_eq] at some
  rw [g.isFinished_eq]
  by_contra unfinished
  simp [Node.outcome?, unfinished] at some

theorem Trace.exact_serve (queries : List Query) (memo : Memo V) (g : Graph V) :
    (({ memo } : Trace V).serve queries g).1.Exact g memo queries := by
  have recorded := recorded_serve queries memo g
  have remembers := memo_serve queries ({ memo } : Trace V) g
  generalize (({ memo } : Trace V).serve queries g).1 = t at *
  have groups : t.groups = Query.groups queries := recorded.groups
  have order : t.groups.flatten = Query.requested queries := groups ▸ Query.flatten_groups queries
  have absent : t.absent = (Query.requested queries).filter fun k =>
      (memo.get? k).isNone && (g.outcome? k).isNone := by
    have absent : t.absent = _ := recorded.absent
    simpa only [known_memo, Option.isNone_or] using absent
  constructor
  case groups => exact groups
  case filled =>
    intro group inside
    rw [groups, Query.groups, List.mem_filter] at inside
    simpa using inside.2
  case order => exact order
  case once => exact order ▸ nodup_union .nil _
  case absent => exact absent
  case unfinished =>
    intro results
    rw [absent]
    refine List.filter_congr fun k _ => ?_
    congr 1
    cases finished : g.isFinished k with
    | true => simpa using results k finished
    | false =>
      rw [Bool.not_false, Option.isNone_iff_eq_none, ← Option.not_isSome_iff_eq_none]
      exact fun some => by simp [Graph.isFinished_of_outcome? some] at finished
  case absentOnce => exact absent ▸ (nodup_union .nil _).filter _
  case failures =>
    have failures : t.failures = _ := recorded.failures
    simp only [failures, ← known_memo, ne_eq, List.flatMap_eq_nil_iff, not_forall, exists_prop,
      Query.strict_ne_nil]
  case blocked => simp [Trace.blocked]
  case memo =>
    intro k
    rw [remembers, known_memo]
    simp only [Query.mem_requested]
    split
    next => rfl
    next => rw [Option.or_none]

namespace Computation

variable [BEq V]

theorem run_askAll (queries : List Query) (scope : Scope) (t : Trace V) (w : World S V) :
    (askAll queries : Computation S V _).run scope t w =
      (.ok (queries.map (Query.reply (t.known w.graph)), (t.serve queries w.graph).1.blocked),
        (t.serve queries w.graph).1, { w with graph := (t.serve queries w.graph).2 }) := by
  induction queries generalizing t w with
  | nil => rfl
  | cons q rest ih =>
    have known := t.request_known w.graph q.tolerant q.keys
    rw [askAll, run_bind, run_ask]
    simp only [run_bind, ih, known]
    rfl

-- An attempt records exactly what it has read, whatever it asks for and in which order. All replies
-- come from one outcome per key: that of the memo, or else that of the graph. What was asked for is
-- on record once, in the group of the query that asked for it first; what of it is missing, and in
-- what order; whether one of the failures was not coped with; and all that is finished, for later
-- attempts.
theorem attempt_records (scope : Scope) (queries : List Query) (memo : Memo V) (w : World S V) :
    ∃ t w', (askAll queries : Computation S V _).run scope { memo } w =
        (.ok (queries.map (Query.reply fun k => (memo.get? k).or (w.graph.outcome? k)), t.blocked),
          t, w') ∧
      (∀ k, w'.graph.node k = w.graph.node k) ∧ t.Exact w.graph memo queries := by
  have look : ({ memo } : Trace V).known w.graph = fun k => (memo.get? k).or (w.graph.outcome? k) :=
    funext (Trace.known_memo memo w.graph)
  exact ⟨_, _, look ▸ run_askAll queries scope { memo } w, Trace.node_serve queries _ _,
    Trace.exact_serve queries memo w.graph⟩

theorem attempt_records_strict :
    let a : Key := ⟨"a", .datum .unit⟩
    let b : Key := ⟨"b", .datum .unit⟩
    let x : Key := ⟨"x", .datum .unit⟩
    let p : Key := ⟨"p", .datum .unit⟩
    let f : Failure := .direct x (.message "boom")
    let queries : List Query := [.outcome x, .values [a, x, p, a], .needAll [b, a], .value p]
    (∀ k, World.pair.graph.isFinished k = true → (World.pair.graph.outcome? k).isSome = true) ∧
      ∃ t w', (askAll queries : Computation Unit Nat _).run ⟨a, 2, 0⟩ { memo := [(x, .error f)] }
          World.pair = (.ok (queries.map (Query.reply fun k =>
            (Table.get? [(x, .error f)] k).or (World.pair.graph.outcome? k)), true), t, w') ∧
        t.groups = [[x], [a, p], [b]] ∧ t.absent = [p] ∧ t.failures ≠ [] ∧
        t.memo.get? x = some (.error f) ∧ t.memo.get? b = some (.ok 2) ∧ t.memo.get? p = none := by
  intro a b x p f queries
  have finished (k : Key) (finished : World.pair.graph.isFinished k = true) :
      (World.pair.graph.outcome? k).isSome = true := by
    have stored : k ∈ World.pair.graph.nodes.keys :=
      (Table.mem_keys_iff _ k).mpr (Option.isSome_of_any finished)
    rw [show World.pair.graph.nodes.keys = [a, b] by decide +kernel] at stored
    rcases List.mem_pair.mp stored with rfl | rfl <;> decide +kernel
  obtain ⟨t, w', run, -, exact⟩ :=
    attempt_records (S := Unit) ⟨a, 2, 0⟩ queries [(x, .error f)] World.pair
  have strict : t.failures ≠ [] := exact.failures.mpr
    ⟨.values [a, x, p, a], by decide, rfl, x, by decide, f, by decide +kernel⟩
  have blocked : t.blocked = true := exact.blocked.mpr (.inr strict)
  rw [blocked] at run
  refine ⟨finished, t, w', run, exact.groups.trans (by decide), (exact.unfinished finished).trans ?_,
    strict, (exact.memo x).trans ?_, (exact.memo b).trans ?_, (exact.memo p).trans ?_⟩ <;>
    decide +kernel

end Computation

end Recompute
