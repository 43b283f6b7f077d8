import Recompute.Proofs.Balance
import Recompute.Proofs.Guards
import Recompute.Proofs.Ledger

set_option autoImplicit false

namespace Recompute

variable {S V α β : Type}

open Duties Progress

-- What a rule has asked for so far, also in the request that is under way, was asked for once.
structure Trace.Listed (t : Trace V) (group : Group) : Prop where
  once : t.asked.Nodup
  groups : t.groups.flatten ++ group = t.asked
  absent : t.absent.Sublist t.asked

theorem Trace.Listed.ask {r : Trace.Request V} (listed : r.trace.Listed r.group) (tolerant : Bool)
    (k : Key) : (r.ask tolerant k).trace.Listed (r.ask tolerant k).group := by
  obtain ⟨t, g, group, answers⟩ := r
  obtain ⟨once, groups, absent⟩ := listed
  have reads := t.look_reads g k
  unfold Trace.Request.ask
  dsimp only at *
  generalize t.look g k = looked at reads
  obtain ⟨answer, u, g'⟩ := looked
  have asked : u.asked = t.asked := (congrArg Trace.asked reads :)
  have groups' : u.groups = t.groups := (congrArg Trace.groups reads :)
  have absent' : u.absent = t.absent := (congrArg Trace.absent reads :)
  by_cases known : k ∈ t.asked
  · constructor <;> rcases answer with _ | _ | _ <;> cases tolerant <;>
      simpa [known, asked, groups', absent']
  · have once' : (t.asked ++ [k]).Nodup := by
      simpa [List.nodup_append, once] using fun l inside (same : l = k) => known (same ▸ inside)
    have more := absent.append (List.Sublist.refl [k])
    have less := absent.trans (List.sublist_append_left t.asked [k])
    constructor <;> rcases answer with _ | _ | _ <;> cases tolerant <;>
      simp_all [← List.append_assoc]

theorem Trace.Listed.close {r : Trace.Request V} (listed : r.trace.Listed r.group) :
    r.close.Listed [] := by
  unfold Trace.Request.close
  split
  next none => exact none ▸ listed
  next => exact ⟨listed.once, by simpa using listed.groups, listed.absent⟩

def Pass.Balances (p : Pass S V) (doomed : Cycle) (later : List Cycle) (roots : List Key)
    (owed : Duties) (s : Progress S V) : Prop :=
  Balanced (p.isStopped s = false) doomed later roots s.graph.node owed

abbrev Pass.Maintains (p : Pass S V) (doomed : Cycle) (later : List Cycle) (roots : List Key)
    (w : Work S V α) (left : α → Duties → Prop) (owed : Duties) : Prop :=
  w.Guards (p.Balances doomed later roots) left owed

namespace Pass

variable {p : Pass S V} {doomed : Cycle} {later : List Cycle} {roots : List Key}
  {left : α → Duties → Prop} {owed : Duties} {k : Key}

theorem maintains_quiet {update : Progress S V → Progress S V} {next : Progress S V → Work S V α}
    (node : ∀ s, (update s).graph.node = s.graph.node)
    (stopped : ∀ s, p.isStopped s = true → p.isStopped (update s) = true)
    (rest : ∀ s, p.Maintains doomed later roots (next s) left owed) :
    p.Maintains doomed later roots (.act update next) left owed := by
  intro others s balanced
  refine ⟨owed, ?_, rest s⟩
  unfold Balances
  rw [node]
  refine balanced.weaken fun live => ?_
  have := stopped s
  cases going : p.isStopped s <;> simp_all

theorem maintains_report (steady : p.listener.Steady) (e : Event) :
    p.Maintains doomed later roots (p.report e) (fun _ d => d = owed) owed := by
  refine maintains_quiet (fun _ => rfl) (fun _ => id) fun s => ?_
  rw [if_neg (by simp [steady _])]
  rfl

theorem maintains_count (f : Stats → Stats) :
    p.Maintains doomed later roots (count f) (fun _ d => d = owed) owed :=
  maintains_quiet (fun _ => rfl) (fun _ => id) fun _ => rfl

theorem maintains_announce (steady : p.listener.Steady) (k : Key) :
    p.Maintains doomed later roots (p.announce k) (fun _ d => d = owed) owed :=
  maintains_quiet (fun _ => rfl) (fun _ => id) fun _ => maintains_report steady _

theorem maintains_haltAt (k : Key) :
    p.Maintains doomed later roots (haltAt k) (fun _ d => d = owed) owed :=
  maintains_quiet (fun _ => rfl) (fun s _ => by simp [isStopped]) fun _ => rfl

theorem maintains_onNode {t : Node V → β × Node V} {f : β → Work S V α} (k : Key)
    (step : ∀ others live nodes, Balanced live doomed later roots nodes (owed + others) →
      ∃ owed', Balanced live doomed later roots (Function.update nodes k (t (nodes k)).2)
        (owed' + others) ∧ p.Maintains doomed later roots (f (t (nodes k)).1) left owed') :
    p.Maintains doomed later roots (onNode k t >>= f) left owed := by
  intro others s balanced
  obtain ⟨owed', balanced', rest⟩ := step others _ _ balanced
  refine ⟨owed', ?_, rest⟩
  unfold Balances
  change Balanced _ _ _ _ (s.graph.put k (t (s.graph.node k)).2).node _
  rw [Graph.put_node]
  exact balanced'

theorem maintains_signal (waiters : List Key) :
    p.Maintains doomed later roots (signal waiters)
      (fun ready owed => owed = hands (ready.filter (· ∉ doomed))) (signals waiters) := by
  induction waiters with
  | nil =>
    change signals [] = hands []
    rw [signals_nil, hands_nil]
  | cons w rest ih =>
    intro others s balanced
    rw [signals_cons, add_assoc] at balanced
    have balanced := balanced.countDown
    have answer := Graph.transition?_countDown s.graph w
    have node : (s.graph.transition? w Node.countDown).2.node =
        Function.update s.graph.node w (s.graph.node w).countDown.2 := by
      funext l
      rw [Graph.node_transition?_countDown, Function.update_apply]
    refine ⟨signals rest + hands (if (s.graph.node w).countDown.1 ∧ w ∉ doomed then [w] else []),
      ?_, ih.bind_frame fun ready => ?_⟩
    · unfold Balances
      change Balanced _ _ _ _ (s.graph.transition? w Node.countDown).2.node _
      rw [node, add_comm (signals rest), add_assoc]
      exact balanced
    · change _ = hands ((if _ then w :: ready else ready).filter _)
      by_cases roused : (s.graph.node w).countDown.1 = true
      · rw [if_pos (answer.mpr roused)]
        by_cases out : w ∈ doomed
        · simp [roused, out, hands_nil]
        · simp [roused, out, hands_cons, hands_nil, add_comm]
      · rw [if_neg (mt answer.mp roused)]
        simp [roused, hands_nil]

theorem maintains_forM {f : β → Work S V Unit}
    (each : ∀ x, p.Maintains doomed later roots (f x) (fun _ d => d = owed) owed) (xs : List β) :
    p.Maintains doomed later roots (xs.forM f) (fun _ d => d = owed) owed := by
  induction xs with
  | nil => rfl
  | cons x rest ih =>
    exact (each x).andThen fun _ => ih

theorem maintains_rewire (k : Key) (old new : List Group) :
    p.Maintains doomed later roots (rewire k old new) (fun _ d => d = owed) owed := by
  refine (maintains_forM (fun dep => ?_) _).bind fun _ d same => ?_
  · intro others s balanced
    refine ⟨owed, ?_, rfl⟩
    have node : (s.graph.modify dep (·.removeDependent k)).node =
        Function.update s.graph.node dep ((s.graph.node dep).removeDependent k) := by
      funext l
      rw [Graph.node_modify _ _ _ _ (by simp [Node.removeDependent]), Function.update_apply]
    unfold Balances
    change Balanced _ _ _ _ (s.graph.modify dep (·.removeDependent k)).node _
    rw [node]
    exact balanced.still rfl rfl rfl rfl rfl rfl
  · subst same
    refine maintains_forM (fun dep => ?_) _
    intro others s balanced
    refine ⟨_, ?_, rfl⟩
    unfold Balances
    change Balanced _ _ _ _ (s.graph.put dep ((s.graph.node dep).addDependent k)).node _
    rw [Graph.put_node]
    apply balanced.still <;> unfold Node.addDependent <;> split <;> rfl

theorem maintains_publish (k : Key) (receipt : Receipt) (deps : List Group) :
    p.Maintains doomed later roots (publish k receipt deps)
      (fun ready owed => owed = hands (ready.filter (· ∉ doomed))) (signals receipt.waiters) := by
  exact (maintains_rewire k _ _).andThen fun _ => maintains_signal _

theorem maintains_commit (commits : Commits doomed later k owed) {t : Node V → Receipt × Node V}
    {f : Receipt → Work S V α} (waiters : ∀ n, (t n).1.waiters = n.waiters)
    (finished : ∀ n, (t n).2.isFinished = true) (idle : ∀ n, (t n).2.flight = none)
    (distinct : ∀ n, (owed = one (.check k) → n.deps.flatten.Nodup) →
      (t n).2.status = .done ∨ (t n).2.status = .verifying → (t n).2.deps.flatten.Nodup)
    (rest : ∀ receipt, p.Maintains doomed later roots (f receipt) left (signals receipt.waiters)) :
    p.Maintains doomed later roots (onNode k t >>= f) left owed := by
  refine maintains_onNode k fun others live nodes balanced => ?_
  refine ⟨signals (nodes k).waiters, balanced.commit commits (finished _) (idle _) ?_, ?_⟩
  · refine distinct _ fun check => ?_
    have assigned := balanced.assigned k
    subst check
    exact assigned.distinct (assigned.verified (by simp [one]))
  · rw [← waiters (nodes k)]
    exact rest _

theorem maintains_fail (steady : p.listener.Steady) (commits : Commits doomed later k owed)
    (f : Failure) (deps : List Group) :
    p.Maintains doomed later roots (p.fail k f deps)
      (fun ready owed => owed = hands (ready.filter (· ∉ doomed))) owed := by
  refine maintains_commit commits (fun _ => rfl) (fun _ => rfl) (fun _ => rfl)
    (by simp [Node.fail]) fun receipt => ?_
  refine (maintains_count _).andThen fun _ => ?_
  refine (maintains_report steady _).andThen fun _ => ?_
  cases p.keepGoing with
  | true => exact maintains_publish _ _ _
  | false =>
    exact (maintains_haltAt k).andThen fun _ => maintains_publish _ _ _

theorem maintains_succeed [BEq V] (steady : p.listener.Steady)
    (commits : Commits doomed later k owed) (v : V) {deps : List Group} (once : deps.flatten.Nodup) :
    p.Maintains doomed later roots (p.succeed k v deps)
      (fun ready owed => owed = hands (ready.filter (· ∉ doomed))) owed := by
  refine maintains_commit commits (fun _ => rfl) (fun _ => rfl) (fun _ => rfl)
    (fun _ _ _ => once) fun receipt => ?_
  refine (maintains_count _).andThen fun _ => ?_
  exact (maintains_report steady _).andThen fun _ => maintains_publish _ _ _

theorem maintains_confirm (steady : p.listener.Steady) (k : Key) :
    p.Maintains doomed later roots (p.confirm k)
      (fun ready owed => owed = hands (ready.filter (· ∉ doomed))) (one (.check k)) := by
  have finished (n : Node V) : (n.confirm p.version).2.isFinished = true := by
    unfold Node.confirm
    dsimp only
    split <;> rfl
  refine maintains_commit .check (fun _ => rfl) finished (fun _ => rfl)
    (fun n once _ => once rfl) fun receipt => ?_
  refine (maintains_count _).andThen fun _ => ?_
  exact (maintains_report steady _).andThen fun _ => maintains_signal _

-- The signal that ends the registration is still to come, so that `k` does not get ready meanwhile.
theorem maintains_awaitOne (steady : p.listener.Steady) (k dep : Key) :
    p.Maintains doomed later roots (p.awaitOne k dep)
      (fun ready d => d = one (.signal k) + hands ready)
      (one (.signal k) + one (.register k dep)) := by
  refine maintains_onNode dep fun others live nodes balanced => ?_
  rw [add_comm (one (.signal k)), add_assoc] at balanced
  cases finished : (nodes dep).isFinished with
  | true =>
    rw [Node.register_of_finished finished]
    refine ⟨one (.signal k) + one (.signal k), ?_, ?_⟩
    · rw [Function.update_eq_self, add_assoc]
      exact balanced.late finished
    · refine maintains_onNode k fun others live nodes balanced => ?_
      rw [add_assoc] at balanced
      have more : (nodes k).countDown.1 = false := by
        by_contra roused
        simpa [one] using (balanced.roused (by simpa using roused)).2.1
      have balanced := balanced.countDown
      rw [more] at balanced
      refine ⟨one (.signal k), ?_, ?_⟩
      · simpa [hands_nil] using balanced
      · change _ = one (.signal k) + hands []
        rw [hands_nil, add_zero]
  | false =>
    rw [Node.register_of_unfinished finished]
    cases flight : (nodes dep).flight with
    | none =>
      refine ⟨one (.signal k) + hands [dep], ?_, ?_⟩
      · have enqueued := balanced.enqueue finished flight
        rw [add_left_comm] at enqueued
        have registered := enqueued.wait (f := {})
          (n := { nodes dep with flight := some { waiters := [k] } }) (by simp) (by simp)
        rw [Function.update_idem, add_left_comm, ← add_assoc] at registered
        simpa [Node.waiters, flight, hands_cons, hands_nil] using registered
      · simp only [Node.isInFlight, flight]
        exact (maintains_announce steady dep).andThen fun _ => rfl
    | some f =>
      refine ⟨one (.signal k) + hands [], ?_, ?_⟩
      · rw [hands_nil, add_zero]
        refine balanced.wait flight ?_
        simp [Node.waiters, flight]
      · simp only [Node.isInFlight, flight]
        rfl

theorem maintains_awaitAll (steady : p.listener.Steady) (k : Key) (awaits : List Key) :
    p.Maintains doomed later roots (p.awaitAll k awaits)
      (fun ready d => d = one (.signal k) + hands ready)
      (one (.signal k) + registers k awaits) := by
  induction awaits with
  | nil =>
    change _ = one (.signal k) + hands []
    rw [registers_nil, hands_nil]
  | cons dep rest ih =>
    rw [registers_cons, ← add_assoc]
    refine (maintains_awaitOne steady k dep).bind_frame fun ready => ?_
    rw [add_right_comm]
    refine ih.bind_frame fun others => ?_
    change _ = one (.signal k) + hands (ready ++ others)
    rw [hands_append, add_assoc, add_comm (hands ready)]

theorem maintains_park (steady : p.listener.Steady)
    (has : owed = one (.claim k) ∨ owed = one (.check k)) {awaits : List Key} (once : awaits.Nodup)
    (memo : Memo V) :
    p.Maintains [] later roots (p.park k awaits memo) (fun ready d => d = hands ready) owed := by
  refine maintains_onNode k fun others live nodes balanced => ⟨_, balanced.park has once memo, ?_⟩
  refine (maintains_awaitAll steady k awaits).bind fun ready _ same => ?_
  subst same
  refine maintains_onNode k fun others live nodes balanced => ?_
  rw [add_assoc] at balanced
  have balanced := balanced.countDown
  generalize (nodes k).countDown = counted at balanced
  obtain ⟨roused, n⟩ := counted
  cases roused with
  | true =>
    refine ⟨hands (ready ++ [k]), ?_, rfl⟩
    rw [hands_append, add_comm (hands ready), add_assoc]
    simpa using balanced
  | false =>
    refine ⟨hands ready, ?_, rfl⟩
    simpa [hands_nil] using balanced

theorem maintains_inspect (verifiedAt : Nat) {unfinished : List Key} {group : Group}
    (once : (unfinished ++ group).Nodup) :
    p.Maintains doomed later roots (inspect verifiedAt unfinished group)
      (fun verdict d => (∀ keys, verdict = .unfinished keys → keys.Nodup) ∧ d = owed) owed := by
  induction group generalizing unfinished with
  | nil =>
    refine ⟨fun keys verdict => ?_, rfl⟩
    split at verdict <;> cases verdict
    simpa using once
  | cons dep rest ih =>
    refine maintains_onNode dep fun others live nodes balanced => ⟨owed, ?_, ?_⟩
    · rwa [Function.update_eq_self]
    · dsimp only
      split
      · exact ih (by simpa using once)
      · split
        · exact ⟨by simp, rfl⟩
        · exact ih (once.sublist (by simp))

theorem maintains_start (has : owed = one (.claim k) ∨ owed = one (.check k))
    {f : Nat × Memo V → Work S V α}
    (rest : ∀ started, p.Maintains doomed later roots (f started) left (one (.claim k))) :
    p.Maintains doomed later roots ((onNode k fun n =>
      let (attempt, n) := n.start
      let (memo, n) := n.releaseMemo
      ((attempt, memo), n)) >>= f) left owed := by
  refine maintains_onNode k fun others live nodes balanced => ⟨_, balanced.start has, rest _⟩

theorem maintains_ask (tolerant : Bool) (keys : List Key) {r : Trace.Request V}
    (listed : r.trace.Listed r.group) :
    p.Maintains doomed later roots (ask tolerant keys r)
      (fun r d => r.trace.Listed r.group ∧ d = owed) owed := by
  induction keys generalizing r with
  | nil => exact ⟨listed, rfl⟩
  | cons k rest ih =>
    refine maintains_quiet (fun s => ?_) (fun _ => id) fun s =>
      ih (Trace.Listed.ask (r := { r with graph := s.graph }) listed tolerant k)
    funext l
    exact Trace.look_node r.trace s.graph k l

theorem maintains_request (tolerant : Bool) (keys : List Key) {t : Trace V} (listed : t.Listed []) :
    p.Maintains doomed later roots (request tolerant keys t)
      (fun (_, t) d => t.Listed [] ∧ d = owed) owed := by
  refine maintains_quiet (fun _ => rfl) (fun _ => id) fun s => ?_
  refine (maintains_ask tolerant keys listed).bind fun r _ => ?_
  rintro ⟨listed, rfl⟩
  exact ⟨listed.close, rfl⟩

theorem maintains_carryOut [BEq V] (scope : Scope) {c : Computation S V α}
    (confined : c.Confined fun _ => True) {t : Trace V} (listed : t.Listed []) :
    p.Maintains doomed later roots (carryOut scope c t)
      (fun (_, t) d => t.Listed [] ∧ d = owed) owed := by
  induction confined generalizing t with
  | done | panic => exact ⟨listed, rfl⟩
  | values _ ih =>
    refine (maintains_request false _ listed).bind fun (answers, t) _ => ?_
    rintro ⟨listed, rfl⟩
    exact ih _ listed
  | outcomes _ ih =>
    refine (maintains_request true _ listed).bind fun (answers, t) _ => ?_
    rintro ⟨listed, rfl⟩
    exact ih _ listed
  | blocked _ ih => exact ih _ listed
  | @silent c quiet _ ih =>
    cases c with
    | version next => exact ih _ ⟨_, rfl⟩ listed
    | interrupted next =>
      exact maintains_quiet (fun _ => rfl) (fun _ => id) fun s => ih _ ⟨_, rfl⟩ listed
    | outside next =>
      exact maintains_quiet (fun _ => rfl) (fun _ => id) fun s => ih _ ⟨_, trivial, rfl⟩ listed
    | setOutside | note =>
      exact maintains_quiet (fun _ => rfl) (fun _ => id) fun s => ih _ rfl listed
    | interrupt h next =>
      refine maintains_quiet (fun s => ?_) (fun s stopped => ?_) fun s => ih _ rfl listed
      · exact congrArg Graph.node (World.graph_interrupt s.world h)
      · simp only [isStopped, Bool.or_eq_true] at stopped ⊢
        exact stopped.imp_right fun inside =>
          decide_eq_true (World.interrupted_interrupt _ _ _ (of_decide_eq_true inside))
    | _ => cases quiet

theorem maintains_of_spared {w : Work S V (List Key)}
    (keeps : p.Maintains [] later roots w
      (fun ready d => d = hands (ready.filter (· ∉ ([] : List Key)))) owed) :
    p.Maintains [] later roots w (fun ready d => d = hands ready) owed :=
  keeps.mono fun ready d same => by simpa using same

theorem maintains_failMembers (steady : p.listener.Steady) {cycle : Cycle} {keys : List Key}
    (within : keys ⊆ cycle) (apart : ∀ k ∈ keys, k ∉ later.flatten) :
    p.Maintains cycle later roots (p.failMembers cycle keys)
      (fun ready d => d = hands (ready.filter (· ∉ cycle))) (fails keys) := by
  induction keys with
  | nil =>
    change fails [] = hands []
    rw [hands_nil]
    funext duty
    cases duty <;> rfl
  | cons k rest ih =>
    obtain ⟨member, within⟩ := List.cons_subset.mp within
    have commits : Commits cycle later k (one (.fail k)) :=
      .fail member (apart k List.mem_cons_self)
    have others := ih within fun l inside => apart l (List.mem_cons_of_mem k inside)
    rw [fails_cons]
    intro owed s balanced
    have assigned := balanced.assigned k
    obtain ⟨f, flight⟩ : ∃ f, (s.graph.node k).flight = some f := by
      obtain ⟨-, -, ⟨none, -⟩ | ⟨-, flying⟩⟩ := assigned.broken member
      · simp [one] at none
      · exact Option.isSome_iff_exists.mp flying
    have unfinished := assigned.busy (by simp [Node.isInFlight, flight])
    refine ⟨_, balanced, ?_⟩
    obtain ⟨n, found⟩ : ∃ n, s.graph.get? k = some n := by
      cases found : s.graph.get? k with
      | none => simp [Graph.node, found] at flight
      | some n => exact ⟨n, rfl⟩
    rw [Graph.node_of_get? found] at unfinished
    simp only [Process.bind, found, unfinished, Bool.false_eq_true, if_false]
    refine (maintains_fail steady commits _ _).bind_frame fun ready => ?_
    rw [add_comm]
    refine others.bind_frame fun more => ?_
    change _ = hands ((ready ++ more).filter (· ∉ cycle))
    rw [List.filter_append, hands_append, add_comm]

variable [BEq V]

theorem maintains_conclude (steady : p.listener.Steady) (result : Except Fault V) {t : Trace V}
    (listed : t.Listed []) :
    p.Maintains [] later roots (p.conclude k result t) (fun ready d => d = hands ready)
      (one (.claim k)) := by
  intro others s balanced
  cases interrupted : s.world.isInterrupted p.handle with
  | true =>
    refine ⟨0, ?_, ?_⟩
    · rw [zero_add]
      exact balanced.drop (by simp [isStopped, interrupted]) (.inr (.inl rfl))
    · change Process.Guards _ (if s.world.isInterrupted p.handle then _ else _) _ _
      rw [if_pos interrupted]
      exact hands_nil.symm
  | false =>
    refine ⟨one (.claim k), balanced, ?_⟩
    change Process.Guards _ (if s.world.isInterrupted p.handle then _ else _) _ _
    rw [if_neg (by simp [interrupted])]
    split
    · refine (maintains_count _).andThen fun _ => ?_
      refine (maintains_report steady _).andThen fun _ => ?_
      exact maintains_park steady (.inl rfl) (listed.once.sublist listed.absent) t.memo
    · split
      · exact maintains_of_spared (maintains_fail steady .claim _ _)
      · have once : t.groups.flatten.Nodup := by
          rw [← List.append_nil t.groups.flatten, listed.groups]
          exact listed.once
        cases result with
        | ok v => exact maintains_of_spared (maintains_succeed steady .claim v once)
        | error fault => exact maintains_of_spared (maintains_fail steady .claim _ _)

theorem maintains_compute (steady : p.listener.Steady) (confined : p.rules.Confined fun _ => True)
    (has : owed = one (.claim k) ∨ owed = one (.check k)) :
    p.Maintains [] later roots (p.compute k) (fun ready d => d = hands ready) owed := by
  refine maintains_start has fun (attempt, memo) => ?_
  dsimp only
  cases found : p.rules.get? k.tag with
  | none => exact maintains_of_spared (maintains_fail steady .claim _ _)
  | some rule =>
    refine (maintains_count _).andThen fun _ => ?_
    refine (maintains_report steady _).andThen fun _ => ?_
    have listed : Trace.Listed ({ memo } : Trace V) [] := ⟨.nil, rfl, .slnil⟩
    refine (maintains_carryOut _ (confined k rule found) listed).bind fun (result, t) d => ?_
    rintro ⟨listed, rfl⟩
    cases result with
    | error panic =>
      intro others s balanced
      refine ⟨0, ?_, hands_nil.symm⟩
      rw [zero_add]
      exact (balanced.weaken (by simp [isStopped])).drop (by simp [isStopped]) (.inr (.inl rfl))
    | ok result => exact maintains_conclude steady result listed

theorem maintains_verifyGroups (steady : p.listener.Steady)
    (confined : p.rules.Confined fun _ => True) (verifiedAt i : Nat) {groups : List Group} (once : ∀ group ∈ groups, group.Nodup) :
    p.Maintains [] later roots (p.verifyGroups k verifiedAt i groups)
      (fun ready d => d = hands ready) (one (.check k)) := by
  induction groups generalizing i with
  | nil => exact maintains_of_spared (maintains_confirm steady k)
  | cons group rest ih =>
    have first : ([] ++ group).Nodup := once group List.mem_cons_self
    refine (maintains_inspect verifiedAt first).bind fun verdict d => ?_
    rintro ⟨distinct, rfl⟩
    cases verdict with
    | changed => exact maintains_compute steady confined (.inr rfl)
    | unfinished keys => exact maintains_park steady (.inr rfl) (distinct keys rfl) []
    | unchanged =>
      refine maintains_onNode k fun others live nodes balanced => ⟨one (.check k), ?_, ?_⟩
      · apply balanced.still <;> cases flight : (nodes k).flight <;>
          simp [Node.verifiedUpTo, Node.awaits, Node.waiters, flight]
      · exact ih (i + 1) fun group inside => once group (List.mem_cons_of_mem _ inside)

theorem maintains_verify (steady : p.listener.Steady) (confined : p.rules.Confined fun _ => True)
    (first : Nat) :
    p.Maintains [] later roots (p.verify k first) (fun ready d => d = hands ready)
      (one (.check k)) := by
  intro others s balanced
  have assigned := balanced.assigned k
  have once := assigned.distinct (assigned.verified (by simp [one]))
  refine ⟨one (.check k), balanced, ?_⟩
  refine maintains_verifyGroups steady confined _ _ fun group inside => ?_
  exact once.sublist (List.sublist_flatten_of_mem (List.mem_of_mem_drop inside))

theorem maintains_work (steady : p.listener.Steady) (confined : p.rules.Confined fun _ => True)
    (k : Key) :
    p.Maintains [] later roots (p.work k) (fun ready d => d = hands ready) (one (.hand k)) := by
  intro others s balanced
  cases stopped : p.isStopped s with
  | true =>
    refine ⟨0, ?_, ?_⟩
    · rw [zero_add]
      exact balanced.drop (by simp [stopped]) (.inl rfl)
    · change Process.Guards _ (if p.isStopped s then _ else _) _ _
      rw [if_pos stopped]
      exact hands_nil.symm
  | false =>
    refine ⟨one (.hand k), balanced, ?_⟩
    change Process.Guards _ (if p.isStopped s then _ else _) _ _
    rw [if_neg (by simp [stopped])]
    refine maintains_onNode k fun others live nodes balanced => ?_
    obtain ⟨task, claimed, balanced⟩ := balanced.claim
    refine ⟨_, balanced, ?_⟩
    rw [claimed]
    cases task with
    | compute => exact maintains_compute steady confined (.inl rfl)
    | verify first => exact maintains_verify steady confined first
    | keep => exact maintains_of_spared (maintains_confirm steady k)

end Pass

end Recompute
