import Recompute.Proofs.PassSteps
import Mathlib.Data.Finset.Card

set_option autoImplicit false

namespace Recompute

variable {S V : Type}

open Progress
open Pass (InQueue)

namespace Graph

def Served (g : Graph V) (k d : Key) : Prop :=
  (g.node d).isFinished = true ∨ (g.node k).isFinished = true ∨
    ∃ f, (g.node k).flight = some f ∧ (f.stage = .claimed ∨ ∃ m, f.stage = .parked m ∧ d ∈ f.awaits)

variable {version : Nat} {j k d : Key} {log : List Event} {entered : List Key} {lost : Bool}
  {g g' : Graph V}

theorem Spares.served (spares : g.Spares version j log entered g') (ne : k ≠ j)
    (served : g.Served k d) : g'.Served k d := by
  rcases served with done | done | ⟨f, flight, busy⟩
  · exact .inl (spares.still done)
  · exact .inr (.inl (spares.still done))
  · obtain ⟨f', flight', awaits, -, -, -, claimed⟩ := (spares.attempt k ne).flight f flight
    rcases busy with busy | ⟨m, parked, awaited⟩
    · exact .inr (.inr ⟨f', flight', .inl (claimed.mpr busy)⟩)
    · cases stage : f'.stage with
      | claimed => exact .inr (.inr ⟨f', flight', .inl stage⟩)
      | parked m' => exact .inr (.inr ⟨f', flight', .inr ⟨m', stage, awaits ▸ awaited⟩⟩)
      | queued =>
        refine .inl (spares.waiterInv.ready k f' flight' (by simp [stage]) d ?_)
        rw [awaits]
        exact awaited

theorem Served.finished {s : Progress S V} (served : s.graph.Served k d)
    (shape : s.graph.WellFormed)
    (queued : InQueue s k) : (s.graph.node d).isFinished = true := by
  obtain ⟨f, flight, stage⟩ := queued
  rcases served with done | done | ⟨f', flight', busy⟩
  · exact done
  · simp [((shape k).finished done).1] at flight
  · cases flight.symm.trans flight'
    simp [stage] at busy

theorem WorkEffect.served [BEq V] (effect : g.WorkEffect version k g' entered log lost)
    (shape : g.WellFormed)
    (waiterInv : g.WaiterInvariant) (dated : ∀ l, (g.node l).verifiedAt ≤ version)
    (served : g.Served k d) :
    g'.Served k d := by
  have spares := effect.spares shape waiterInv dated
  have committed (ending : Ending) (told : log = [.evaluated k ending]) : g'.Served k d := by
    refine .inr (.inl (spares.told k ?_).2)
    simp [told, Event.endings]
  have waiting {f : Flight V} (flight : (g.node k).flight = some f) (queued : f.stage = .queued) :
      g'.Served k d := by
    rcases served with done | done | ⟨f', flight', busy⟩
    · exact .inl (spares.still done)
    · exact .inr (.inl (spares.still done))
    · cases flight.symm.trans flight'
      simp [queued] at busy
  cases effect with
  | publish m ending => exact committed ending rfl
  | drop m ending => exact committed ending rfl
  | park f f' n awaits reached entered pending log flight queued => exact waiting flight queued
  | hang f f' n log flight queued => exact waiting flight queued

end Graph

namespace Pass

variable [BEq V] {p : Pass S V} {asked : Key → Prop} {w : World S V} {new : List Event} {k d : Key}
  {absent : List Key} {s s' : Progress S V}

theorem PassStep.served (act : p.PassStep asked s s') (passInv : s.PassInvariant p.version w new)
    (served : s.graph.Served k d) : s'.graph.Served k d := by
  cases act with
  | rest node =>
    unfold Graph.Served at served ⊢
    rw [node]
    exact served
  | enter j wanted unfinished idle node =>
    have spares :=
      Graph.spares_enter passInv.shape passInv.waiterInv passInv.dated unfinished idle node
    by_cases same : k = j
    · subst same
      rcases served with done | done | ⟨f, flight, -⟩
      · exact .inl (spares.still done)
      · exact .inr (.inl (spares.still done))
      · simp [idle] at flight
    · exact spares.served same served
  | worked j worked =>
    obtain ⟨effect, -⟩ := worked
    by_cases same : k = j
    · subst same
      exact effect.served passInv.shape passInv.waiterInv passInv.dated served
    · exact (effect.spares passInv.shape passInv.waiterInv passInv.dated).served same served

theorem PassSteps.served (steps : p.PassSteps asked s s')
    (passInv : s.PassInvariant p.version w new)
    (served : s.graph.Served k d) : s'.graph.Served k d := by
  induction steps with
  | refl => exact served
  | tail before act ih =>
    obtain ⟨log, later⟩ := PassSteps.passInv before passInv
    exact act.served later ih

structure Restarted (p : Pass S V) (k : Key) (absent : List Key) (s s' : Progress S V) : Prop where
  queued : InQueue s k
  some : absent ≠ []
  missing : ∀ d ∈ absent, (s.graph.node d).isFinished = false
  served : ∀ d ∈ absent, s'.graph.Served k d
  missed : p.Misses k absent

theorem WorkStep.restarts (worked : p.WorkStep k s s') (l : Key) :
    Event.restarts (s.world.since s'.world) l = [] ∨
      ∃ absent, Event.restarts (s.world.since s'.world) l = [absent] ∧
        p.Restarted l absent s s' := by
  obtain ⟨effect, -, -, logs, -, missed⟩ := worked
  rw [logs.restarts]
  have others (absent : List Key) (ne : l ≠ k) :
      Event.restarts [.restarted k absent] l = [] := by
    simp [Event.restarts, Ne.symm ne]
  cases effect with
  | publish m ending => exact .inl rfl
  | drop m ending => exact .inl rfl
  | park f f' n awaits reached entered pending log flight queued carried good flight' stage enough
      awaits' waiters some missing within source entered' node =>
    rcases source with ⟨rfl, -⟩ | rfl
    · exact .inl rfl
    · by_cases same : l = k
      · subst same
        have open' :=
          Graph.unfinished_update carried.result fun d inside => missing d (within inside)
        obtain ⟨-, f₁, flight₁, stage₁, awaits₁, -⟩ := Graph.parked_self open' flight'
        refine .inr ⟨awaits, by simp [Event.restarts], ⟨f, flight, queued⟩, some, missing,
          fun d inside => ?_, missed awaits rfl⟩
        refine .inr (.inr ⟨f₁, ?_, .inr ⟨pending, stage₁.trans stage, ?_⟩⟩)
        · rw [node]
          exact flight₁
        · rw [awaits₁, awaits']
          exact inside
      · exact .inl (others awaits same)
  | hang f f' n log flight queued carried good flight' stage awaits' waiters source node =>
    rcases source with rfl | ⟨absent, rfl, some, missing⟩
    · exact .inl rfl
    · by_cases same : l = k
      · subst same
        refine .inr ⟨absent, by simp [Event.restarts], ⟨f, flight, queued⟩, some, missing,
          fun d inside => ?_, missed absent rfl⟩
        refine .inr (.inr ⟨f', ?_, .inl stage⟩)
        rw [node, Function.update_self]
        exact flight'
      · exact .inl (others absent same)

theorem PassStep.restarts (act : p.PassStep asked s s') (k : Key) :
    Event.restarts (s.world.since s'.world) k = [] ∨
      ∃ absent, Event.restarts (s.world.since s'.world) k = [absent] ∧
        p.Restarted k absent s s' := by
  cases act with
  | rest node stamp enqueued logs => exact .inl (logs.restarts k)
  | enter j wanted unfinished idle node stamp enqueued logs => exact .inl (logs.restarts k)
  | worked j worked => exact worked.restarts k

theorem PassStep.logs (act : p.PassStep asked s s') : ∃ log, s.world.Logs s'.world log := by
  cases act with
  | rest node stamp enqueued logs => exact ⟨_, logs⟩
  | enter j wanted unfinished idle node stamp enqueued logs => exact ⟨_, logs⟩
  | worked j worked =>
    obtain ⟨-, -, -, logs, -, -⟩ := worked
    exact ⟨_, logs⟩

theorem PassSteps.logs (steps : p.PassSteps asked s s') : ∃ log, s.world.Logs s'.world log := by
  induction steps with
  | refl => exact ⟨[], .refl _⟩
  | tail _ act ih =>
    obtain ⟨log, logs⟩ := ih
    obtain ⟨log', logs'⟩ := act.logs
    exact ⟨log' ++ log, logs.trans logs'⟩

theorem PassSteps.restarts_append {s'' : Progress S V} (steps : p.PassSteps asked s s')
    (act : p.PassStep asked s' s'')
    (k : Key) : Event.restarts (s.world.since s''.world) k =
      Event.restarts (s'.world.since s''.world) k ++ Event.restarts (s.world.since s'.world) k := by
  obtain ⟨log, logs⟩ := steps.logs
  obtain ⟨log', logs'⟩ := act.logs
  rw [logs.since_trans logs', Event.restarts_append]

theorem PassSteps.restarts_served (steps : p.PassSteps asked s s')
    (passInv : s.PassInvariant p.version w new)
    (k : Key) : ∃ F : Finset Key, (Event.restarts (s.world.since s'.world) k).length ≤ F.card ∧
      ∀ d ∈ F, s'.graph.Served k d ∧ d ∈ (Event.restarts (s.world.since s'.world) k).flatten := by
  induction steps with
  | refl => exact ⟨∅, by simp [World.since, Event.restarts], by simp⟩
  | @tail s₁ s₂ before act ih =>
    obtain ⟨F, bound, served⟩ := ih
    obtain ⟨log, later⟩ := PassSteps.passInv before passInv
    rw [PassSteps.restarts_append before act]
    rcases act.restarts k with none | ⟨absent, told, restarted⟩
    · rw [none, List.nil_append]
      exact ⟨F, bound, fun d inside => ⟨act.served later (served d inside).1, (served d inside).2⟩⟩
    · rw [told]
      have apart : Disjoint F absent.toFinset := by
        refine Finset.disjoint_left.mpr fun d inside new => ?_
        have done := (served d inside).1.finished later.shape restarted.queued
        simp [restarted.missing d (List.mem_toFinset.mp new)] at done
      have positive : 0 < absent.toFinset.card := by
        rw [Finset.card_pos, List.toFinset_nonempty_iff]
        exact restarted.some
      refine ⟨F ∪ absent.toFinset, ?_, fun d inside => ?_⟩
      · rw [Finset.card_union_of_disjoint apart, List.length_append, List.length_singleton]
        omega
      · rw [List.flatten_append, List.mem_append]
        rcases Finset.mem_union.mp inside with old | new
        · exact ⟨act.served later (served d old).1, .inr (served d old).2⟩
        · have missed := List.mem_toFinset.mp new
          exact ⟨restarted.served d missed, .inl (by simpa using missed)⟩

theorem PassStep.entered (act : p.PassStep asked s s') (passInv : s.PassInvariant p.version w new)
    {l : Key}
    (flying : (s'.graph.node l).isInFlight = true) :
    (s.graph.node l).isInFlight = true ∨ asked l ∨ (∃ k, l ∈ (w.graph.node k).deps.flatten) ∨
      ∃ k, l ∈ (Event.restarts (s.world.since s'.world) k).flatten := by
  cases act with
  | rest node =>
    rw [node] at flying
    exact .inl flying
  | enter k wanted unfinished idle node =>
    by_cases same : l = k
    · exact .inr (.inl (same ▸ wanted))
    · rw [node, Function.update_of_ne same] at flying
      exact .inl flying
  | worked k worked =>
    obtain ⟨effect, -, -, logs, -, -⟩ := worked
    rcases (effect.spares passInv.shape passInv.waiterInv passInv.dated).tracked l flying with
      old | inside
    · exact .inl old
    · refine .inr (.inr ?_)
      cases effect with
      | publish | drop | hang => simp at inside
      | park f f' n awaits reached entered pending log flight queued carried good flight' stage
        enough
          awaits' waiters some missing within source entered' node =>
        have awaited := within ((entered' l).mp inside).1
        rcases source with ⟨-, recorded⟩ | rfl
        · refine .inl ⟨k, ?_⟩
          have open' := (passInv.shape k).unfinished_of_flight flight
          have none : Event.endings new k = [] := by
            by_contra some
            simp [passInv.told k some] at open'
          rw [← (passInv.kept k none).deps]
          exact recorded awaited
        · refine .inr ⟨k, ?_⟩
          rw [logs.restarts]
          simpa [Event.restarts] using awaited

theorem PassSteps.within (steps : p.PassSteps asked s s')
    (passInv : s.PassInvariant p.version w new)
    (inside : Key → Prop) (start : ∀ l, (s.graph.node l).isInFlight = true → inside l)
    (wanted : ∀ l, asked l → inside l)
    (recorded : ∀ k, ∀ l ∈ (w.graph.node k).deps.flatten, inside l)
    (missed : ∀ k, ∀ l ∈ (Event.restarts (s.world.since s'.world) k).flatten, inside l) {l : Key}
    (flying : (s'.graph.node l).isInFlight = true) : inside l := by
  induction steps generalizing l with
  | refl => exact start l flying
  | tail before act ih =>
    obtain ⟨log, later⟩ := PassSteps.passInv before passInv
    have split (k : Key) := PassSteps.restarts_append before act k
    have earlier (k l : Key) (old : l ∈ (Event.restarts (s.world.since _) k).flatten) :=
      missed k l (by rw [split k, List.flatten_append]; exact List.mem_append_right _ old)
    rcases act.entered later flying with old | new | ⟨k, new⟩ | ⟨k, new⟩
    · exact ih earlier old
    · exact wanted l new
    · exact recorded k l new
    · refine missed k l ?_
      rw [split k, List.flatten_append]
      exact List.mem_append_left _ new

end Pass

end Recompute
