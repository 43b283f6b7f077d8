import Recompute.Proofs.Coherence
import Recompute.Proofs.SinceClaim

set_option autoImplicit false

namespace Recompute

variable {S V : Type}

open Progress
open Relation (ReflTransGen)

@[simp] theorem Table.set_set {α β : Type} [DecidableEq α] (t : Table α β) (a : α) (b c : β) :
    (t.set a b).set a c = t.set a c := by
  induction t with
  | nil => simp [set]
  | cons e rest ih =>
    obtain ⟨k, v⟩ := e
    by_cases same : k = a <;> simp [set, same, ih]

namespace Node

@[simp] theorem verifiedUpTo_verifiedUpTo (n : Node V) (i j : Nat) :
    (n.verifiedUpTo i).verifiedUpTo j = n.verifiedUpTo j := by
  cases flight : n.flight <;> simp [verifiedUpTo, flight]

theorem verifiedUpTo_self {n : Node V} {f : Flight V} {group : Nat} (flight : n.flight = some f)
    (verified : f.verified = group + 1) : n.verifiedUpTo group = n := by
  obtain ⟨_, _, _, _, _, _, _, _, _, _⟩ := n
  simp only at flight
  simp [verifiedUpTo, flight, ← verified]

@[simp] theorem confirm_verifiedUpTo (n : Node V) (group version : Nat) :
    (n.verifiedUpTo group).confirm version = n.confirm version := by
  cases flight : n.flight <;> simp [confirm, settle, verifiedUpTo, waiters, flight]

end Node

namespace Graph

@[simp] theorem put_put (g : Graph V) (k : Key) (m n : Node V) : (g.put k m).put k n = g.put k n := by
  simp [put]

theorem ensure_of_isFinished {g : Graph V} {k : Key} (finished : (g.node k).isFinished = true) :
    g.ensure k = g := by
  obtain ⟨n, found⟩ := Option.isSome_iff_exists.mp (get?_of_isFinished finished)
  rw [ensure, node_of_get? found, put_of_get? found]

end Graph

def Progress.passed (s : Progress S V) (k : Key) : (count : Nat) → Progress S V
  | 0 => s
  | group + 1 => s.withGraph (s.graph.put k ((s.graph.node k).verifiedUpTo group))

namespace Progress

variable {s : Progress S V} {k : Key} {f : Flight V}

theorem passed_succ (s : Progress S V) (k : Key) (count : Nat) :
    (s.passed k count).withGraph ((s.passed k count).graph.put k
      (((s.passed k count).graph.node k).verifiedUpTo count)) = s.passed k (count + 1) := by
  cases count with
  | zero => rfl
  | succ group => simp [passed, withGraph, graph]

theorem sameResults_passed (s : Progress S V) (k : Key) (count : Nat) :
    s.graph.SameResults (s.passed k count).graph := by
  cases count with
  | zero => exact ⟨fun _ => .refl _, fun _ => rfl⟩
  | succ group => exact Graph.sameResults_update (s.graph.put_node k _) (.flight _ _) rfl

theorem passed_verified (flight : (s.graph.node k).flight = some f) :
    s.passed k f.verified = s := by
  cases count : f.verified with
  | zero => rfl
  | succ group =>
    cases found : s.graph.get? k with
    | none => simp [Graph.node, found] at flight
    | some n =>
      rw [passed, Node.verifiedUpTo_self flight count, Graph.node_of_get? found,
        Graph.put_of_get? found]
      rfl

end Progress

namespace Pass

variable {k : Key} {f : Flight V} {s : Progress S V} {verifiedAt : Nat}

theorem yields_inspect_checked {group : Group} (checked : s.graph.Checked verifiedAt group) :
    Yields (inspect verifiedAt [] group) s .unchanged s := by
  induction group with
  | nil => exact yields_pure _ s
  | cons dep rest ih =>
    obtain ⟨⟨finished, dated⟩, later⟩ := List.forall_mem_cons.mp checked
    have first : Yields (onNode dep fun n => (n, n)) s (s.graph.node dep)
        (s.withGraph (s.graph.ensure dep)) := yields_onNode dep (fun n => (n, n)) s
    rw [Graph.ensure_of_isFinished finished] at first
    change Yields _ s _ s at first
    refine yields_bind first ?_
    simpa only [finished, Bool.not_true, Bool.false_eq_true, if_false,
      if_neg (Nat.not_lt.mpr dated)] using ih later

def survey (k : Key) (verifiedAt : Nat) : Nat → List Group → Work S V Verdict
  | _, [] => return .unchanged
  | i, group :: rest => do
    match ← inspect verifiedAt [] group with
    | .changed => return .changed
    | .unfinished keys => return .unfinished keys
    | .unchanged =>
      onNode k fun n => ((), n.verifiedUpTo i)
      survey k verifiedAt (i + 1) rest

def judge (k : Key) (first : Nat) : Work S V Verdict := do
  let n := (← get).graph.node k
  survey k n.verifiedAt first (n.deps.drop first)

def pursue [BEq V] (p : Pass S V) (k : Key) : Verdict → Work S V (List Key)
  | .changed => p.compute k
  | .unfinished keys => p.park k keys []
  | .unchanged => p.confirm k

theorem verifyGroups_eq [BEq V] (p : Pass S V) (k : Key) (verifiedAt i : Nat) (groups : List Group) :
    p.verifyGroups k verifiedAt i groups = survey k verifiedAt i groups >>= p.pursue k := by
  induction groups generalizing i with
  | nil => simp [verifyGroups, survey, pursue]
  | cons group rest ih =>
    simp only [verifyGroups, survey, bind_assoc]
    congr 1
    funext verdict
    cases verdict <;> simp [pursue, ih]

theorem verify_eq [BEq V] (p : Pass S V) (k : Key) (first : Nat) :
    p.verify k first = judge k first >>= p.pursue k := by
  simp [verify, judge, verifyGroups_eq]

theorem survey_yields (k : Key) (verifiedAt i : Nat) (groups : List Group) (s : Progress S V) :
    ∃ verdict t, Yields (survey k verifiedAt i groups) s verdict t := by
  induction groups generalizing i s with
  | nil => exact ⟨_, _, yields_pure _ s⟩
  | cons group rest ih =>
    obtain ⟨answer, g, first, -⟩ := inspect_yields verifiedAt [] group s
    generalize s.withGraph g = s₁ at first
    cases answer with
    | changed => exact ⟨_, _, yields_bind first (yields_pure _ s₁)⟩
    | unfinished keys => exact ⟨_, _, yields_bind first (yields_pure _ s₁)⟩
    | unchanged =>
      have second := yields_onNode k (fun n => ((), n.verifiedUpTo i)) s₁
      obtain ⟨verdict, t, last⟩ := ih (i + 1) _
      exact ⟨verdict, t, yields_bind first (yields_bind second last)⟩

theorem survey_passes {group : Group} (checked : s.graph.Checked verifiedAt group) (rest : List Group)
    (i : Nat) :
    (survey k verifiedAt i (group :: rest)).run.run (s.passed k i) =
      (survey k verifiedAt (i + 1) rest).run.run (s.passed k (i + 1)) := by
  have still := (s.sameResults_passed k i).checked checked
  have first := yields_inspect_checked still
  have second := yields_onNode k (fun n => ((), n.verifiedUpTo i)) (s.passed k i)
  rw [passed_succ] at second
  exact first.run_bind.trans second.run_bind

-- By induction from the right, as the survey goes through the groups from the left.
theorem survey_append {done : List Group} (checked : s.graph.Checked verifiedAt done.flatten)
    (rest : List Group) :
    (survey k verifiedAt 0 (done ++ rest)).run.run s =
      (survey k verifiedAt done.length rest).run.run (s.passed k done.length) := by
  induction done using List.reverseRecOn generalizing rest with
  | nil => rfl
  | append_singleton done group ih =>
    rw [List.flatten_concat] at checked
    obtain ⟨before, last⟩ := List.forall_mem_append.mp checked
    rw [List.append_assoc, List.singleton_append, ih before, survey_passes last, List.length_append,
      List.length_singleton]

theorem confirm_passed [BEq V] (p : Pass S V) (k : Key) (s : Progress S V) (count : Nat) :
    (p.confirm k).run.run (s.passed k count) = (p.confirm k).run.run s := by
  cases count with
  | zero => rfl
  | succ group =>
    have kept := yields_onNode k (·.confirm p.version) (s.passed k (group + 1))
    have node : (s.passed k (group + 1)).graph.node k = (s.graph.node k).verifiedUpTo group :=
      s.graph.node_put_self k _
    have put (n : Node V) : (s.passed k (group + 1)).withGraph ((s.passed k (group + 1)).graph.put k n) =
        s.withGraph (s.graph.put k n) := by
      simp [passed, withGraph, graph]
    rw [node, Node.confirm_verifiedUpTo, put] at kept
    have plain := yields_onNode k (·.confirm p.version) s
    rw [confirm, kept.run_bind, plain.run_bind]

theorem judge_resumed [BEq V] (p : Pass S V) (flight : (s.graph.node k).flight = some f)
    (checked : s.graph.Checked (s.graph.node k).verifiedAt
      ((s.graph.node k).deps.take f.verified).flatten) :
    ∃ verdict t t', Yields (judge k f.verified) s verdict t ∧ Yields (judge k 0) s verdict t' ∧
      (p.pursue k verdict).run.run t = (p.pursue k verdict).run.run t' := by
  generalize deps : (s.graph.node k).deps = groups at checked
  have judged (first : Nat) : (judge k first).run.run s =
      (survey k (s.graph.node k).verifiedAt first (groups.drop first)).run.run s := by
    rw [← deps]
    exact (yields_get s).run_bind
  have skipped := survey_append (k := k) checked (groups.drop f.verified)
  have full := judged 0
  rw [List.drop_zero] at full
  rw [List.take_append_drop, List.length_take, ← full] at skipped
  by_cases short : f.verified ≤ groups.length
  · obtain ⟨verdict, t, yields⟩ :=
      survey_yields k (s.graph.node k).verifiedAt f.verified (groups.drop f.verified) s
    rw [Nat.min_eq_left short, passed_verified flight] at skipped
    exact ⟨verdict, t, t, (judged _).trans yields, skipped.trans yields, rfl⟩
  ·
    have none : groups.drop f.verified = [] := List.drop_eq_nil_of_le (by omega)
    rw [none] at skipped
    refine ⟨.unchanged, s, _, (judged _).trans ?_, skipped, (confirm_passed p k s _).symm⟩
    rw [none]
    exact yields_pure _ s

theorem verify_of_judge [BEq V] (p : Pass S V) {first : Nat} {verdict : Verdict} {t : Progress S V}
    (judged : Yields (judge k first) s verdict t) :
    (p.verify k first).run.run s = (p.pursue k verdict).run.run t := by
  rw [verify_eq, judged.run_bind]

theorem claim_yields_verify (flight : (s.graph.node k).flight = some f) (queued : f.stage = .queued)
    (verifying : (s.graph.node k).status = .verifying) :
    ∃ s', Yields (onNode k Node.claim) s (some (.verify f.verified)) s' ∧
      s'.graph.node = Function.update s.graph.node k
        { s.graph.node k with flight := some { f with stage := .claimed } } := by
  have claim : (s.graph.node k).claim = (some (.verify f.verified),
      { s.graph.node k with flight := some { f with stage := .claimed } }) := by
    simp [Node.claim, flight, queued, Node.task, verifying]
  have claimed := yields_onNode k Node.claim s
  rw [claim] at claimed
  exact ⟨_, claimed, s.graph.put_node k _⟩

theorem work_of_claim [BEq V] (p : Pass S V) {s' : Progress S V} {first : Nat}
    (stopped : p.isStopped s = false)
    (claimed : Yields (onNode k Node.claim) s (some (.verify first)) s') :
    (p.work k).run.run s = (p.verify k first).run.run s' := by
  refine (yields_get s).run_bind.trans ?_
  rw [if_neg (by simp [stopped])]
  exact claimed.run_bind

end Pass

namespace Engine

variable [BEq V] {rules : Rules S V} {listener : Listener} {e : Engine S V}

-- Wherever the verification of a queued node goes on, what it leaves out is still unchanged. So it
-- comes to the verdict that it would come to from the first group on, and to the same end.
theorem Reachable.verification_resumes (reachable : Reachable rules listener e)
    (steady : listener.Steady) (confined : rules.Confined fun _ => True) {keepGoing : Bool}
    {l : Ledger S V} (calls : ReflTransGen (e.pass keepGoing).Calls { state := { world := e.entry } } l)
    {roots : List Key} {s : Progress S V}
    (changes : (e.pass keepGoing).Changes (fun _ => True) roots l.state s) {k : Key} {f : Flight V}
    (flight : (s.graph.node k).flight = some f) (queued : f.stage = .queued)
    (verifying : (s.graph.node k).status = .verifying) :
    (∀ group ∈ (s.graph.node k).deps.take f.verified, ∀ d ∈ group,
        (s.graph.node d).isFinished = true ∧
          (s.graph.node d).version ≤ (s.graph.node k).verifiedAt) ∧
      ∃ s', Yields (onNode k Node.claim) s (some (.verify f.verified)) s' ∧
        (∃ verdict, ∀ first ∈ [f.verified, 0], ∃ t, Yields (Pass.judge k first) s' verdict t ∧
          ((e.pass keepGoing).verify k first).run.run s' =
            ((e.pass keepGoing).pursue k verdict).run.run t) ∧
        ((e.pass keepGoing).verify k f.verified).run.run s' =
          ((e.pass keepGoing).verify k 0).run.run s' ∧
        ((e.pass keepGoing).isStopped s = false →
          ((e.pass keepGoing).work k).run.run s = ((e.pass keepGoing).verify k 0).run.run s') := by
  obtain ⟨rfl, rfl⟩ := reachable.unchanged
  obtain ⟨running, -⟩ := changes.kept (reachable.led steady confined calls).sound.running
  have unchanged := running.current.verified k f flight verifying
  obtain ⟨s', claimed, node⟩ := Pass.claim_yields_verify flight queued verifying
  have same := Graph.sameResults_update node (.flight _ _) rfl
  have still := same.checked unchanged
  rw [← (same.result k).verifiedAt, ← (same.result k).deps] at still
  have flight' : (s'.graph.node k).flight = some { f with stage := .claimed } := by
    rw [node, Function.update_self]
  obtain ⟨verdict, t, t', resumed, full, agree⟩ :=
    Pass.judge_resumed (e.pass keepGoing) flight' still
  have whole : ((e.pass keepGoing).verify k f.verified).run.run s' =
      ((e.pass keepGoing).verify k 0).run.run s' := by
    rw [Pass.verify_of_judge _ resumed, Pass.verify_of_judge _ full, agree]
  refine ⟨fun group inside d member => unchanged d (List.mem_flatten.mpr ⟨group, inside, member⟩),
    s', claimed, ⟨verdict, ?_⟩, whole, fun going => ?_⟩
  · simp only [List.forall_mem_cons]
    exact ⟨⟨t, resumed, Pass.verify_of_judge _ resumed⟩, ⟨t', full, Pass.verify_of_judge _ full⟩,
      by simp⟩
  · rw [← whole]
    exact Pass.work_of_claim _ going claimed

theorem verification_resumes_detour :
    let a : Key := .only "a"
    let e := (detour.inject [(.only "d", 7)]).2
    let p := e.pass true
    ∃ l s', ReflTransGen p.Calls { state := { world := e.entry } } l ∧
      (l.state.graph.node a).deps = [[.only "c"], [.only "b"]] ∧
      l.state.graph.isFinished (.only "b") = true ∧
      Yields (onNode a Node.claim) l.state (some (.verify 1)) s' ∧
      (p.work a).run.run l.state = (p.verify a 0).run.run s' := by
  intro a e p
  have known : Reachable Rules.detour .steady e := .inject _ reachable_detour
  obtain ⟨l, calls, waited, verifying, deps, finished, going⟩ : ∃ l,
      ReflTransGen p.Calls { state := { world := e.entry } } l ∧
        (l.state.graph.node a).flight.map (fun f => (f.stage, f.verified)) = some (.queued, 1) ∧
        (l.state.graph.node a).status = .verifying ∧
        (l.state.graph.node a).deps = [[.only "c"], [.only "b"]] ∧
        l.state.graph.isFinished (.only "b") = true ∧ p.isStopped l.state = false :=
    ⟨_, ((ReflTransGen.single (.root _ a (yields_settle (by decide +kernel) false))).tail
      (.run _ a (yields_settle (by decide +kernel) []))).tail
      (.run _ (.only "b") (yields_settle (by decide +kernel) [])),
      by decide +kernel, by decide +kernel, by decide +kernel, by decide +kernel, by decide +kernel⟩
  obtain ⟨f, flight, stage⟩ := Option.map_eq_some_iff.mp waited
  obtain ⟨queued, verified⟩ := Prod.mk.inj stage
  have unmoved : p.Changes (fun _ => True) [] l.state l.state := .refl
  obtain ⟨-, s', claimed, -, -, dispatched⟩ := known.verification_resumes (fun _ => rfl)
    (Rules.confined_detour _) calls unmoved flight queued verifying
  rw [verified] at claimed
  exact ⟨l, s', calls, deps, finished, claimed, dispatched going⟩

end Engine

end Recompute
