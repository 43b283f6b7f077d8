import Recompute.Proofs.Work

set_option autoImplicit false

namespace Recompute

variable {S V α β : Type}

def Event.isMilestone : Event → Bool
  | evaluated .. | restarted .. => true
  | enqueued .. | computing .. | invalidated .. | noted .. => false

def Event.restarts (events : List Event) (k : Key) : List (List Key) :=
  events.filterMap fun
    | restarted key absent => if key = k then some absent else none
    | _ => none

section

variable (old new : List Event) (k : Key)

@[simp] theorem Event.endings_append :
    Event.endings (new ++ old) k = Event.endings new k ++ Event.endings old k :=
  List.filterMap_append

@[simp] theorem Event.restarts_append :
    Event.restarts (new ++ old) k = Event.restarts new k ++ Event.restarts old k :=
  List.filterMap_append

omit old k in
theorem Event.filterMap_kept {f : Event → Option α} {keep : Event → Bool}
    (quiet : ∀ e, keep e = false → f e = none) :
    (new.filter keep).filterMap f = new.filterMap f := by
  rw [List.filterMap_filter]
  congr
  funext e
  cases kept : keep e with
  | true => simp
  | false => simp [quiet e kept]

theorem Event.endings_milestones :
    Event.endings (new.filter Event.isMilestone) k = Event.endings new k := by
  refine filterMap_kept new fun e quiet => ?_
  cases e <;> first | rfl | simp [Event.isMilestone] at quiet

theorem Event.restarts_milestones :
    Event.restarts (new.filter Event.isMilestone) k = Event.restarts new k := by
  refine filterMap_kept new fun e quiet => ?_
  cases e <;> first | rfl | simp [Event.isMilestone] at quiet

end

def World.since (w w' : World S V) : List Event :=
  w'.history.take (w'.history.length - w.history.length)

def World.milestones (w : World S V) : List Event := w.history.filter Event.isMilestone

-- From `w` on the history went on, with these milestones, the newest one first.
structure World.Logs (w w' : World S V) (new : List Event) : Prop where
  later : w.history <:+ w'.history
  milestones : w'.milestones = new ++ w.milestones

namespace World.Logs

variable {w w' w'' : World S V} {new new' : List Event}

theorem refl (w : World S V) : w.Logs w [] := ⟨List.suffix_rfl, rfl⟩

theorem trans (first : w.Logs w' new) (second : w'.Logs w'' new') : w.Logs w'' (new' ++ new) where
  later := first.later.trans second.later
  milestones := by rw [second.milestones, first.milestones, List.append_assoc]

theorem of_history (logs : w'.Logs w'' new) (same : w'.history = w.history) : w.Logs w'' new where
  later := same ▸ logs.later
  milestones := by
    have milestones : w'.milestones = w.milestones := by simp only [World.milestones, same]
    exact milestones ▸ logs.milestones

theorem record (w : World S V) (e : Event) :
    w.Logs (w.record e) (if e.isMilestone then [e] else []) where
  later := List.suffix_cons e w.history
  milestones := by
    simp only [World.milestones, World.record, List.filter_cons]
    split <;> rfl

theorem history (logs : w.Logs w' new) : w'.history = w.since w' ++ w.history := by
  obtain ⟨added, appended⟩ := logs.later
  simp [World.since, ← appended]

theorem since (logs : w.Logs w' new) : (w.since w').filter Event.isMilestone = new := by
  have milestones := logs.milestones
  rw [World.milestones, logs.history, List.filter_append] at milestones
  exact List.append_cancel_right milestones

theorem since_trans (first : w.Logs w' new) (second : w'.Logs w'' new') :
    w.since w'' = w'.since w'' ++ w.since w' := by
  have both := (first.trans second).history
  rw [second.history, first.history, ← List.append_assoc] at both
  exact (List.append_cancel_right both).symm

theorem endings (logs : w.Logs w' new) (k : Key) :
    Event.endings (w.since w') k = Event.endings new k := by
  rw [← logs.since, Event.endings_milestones]

theorem restarts (logs : w.Logs w' new) (k : Key) :
    Event.restarts (w.since w') k = Event.restarts new k := by
  rw [← logs.since, Event.restarts_milestones]

end World.Logs

namespace Computation

theorem run_logs [BEq V] (c : Computation S V α) (scope : Scope) (t : Trace V) (w : World S V) :
    w.Logs (c.run scope t w).2.2 [] := by
  induction c generalizing t w with
  | done | panic => exact .refl w
  | values keys next ih | outcomes keys next ih => exact (ih _ _ _).of_history rfl
  | blocked next ih | version next ih | interrupted next ih | outside next ih => exact ih _ t w
  | setOutside s next ih => exact (ih t _).of_history rfl
  | note text next ih => exact World.Logs.trans (.record w (.noted scope.key text)) (ih t _)
  | interrupt h next ih =>
    refine (ih t (w.interrupt h)).of_history ?_
    unfold World.interrupt
    split <;> rfl
  | inject key v next ih | invalidate key next ih => exact (ih t _).of_history rfl

end Computation

namespace Progress

-- From `s` on `w` answers as `done` says, or is lost where `lost` says.
def After (w : Work S V α) (s : Progress S V) (done : α → Progress S V → Prop)
    (lost : Progress S V → Prop) : Prop :=
  match w.run.run s with
  | (some a, s') => done a s'
  | (none, s') => lost s'

variable {w : Work S V α} {s s' : Progress S V} {done : α → Progress S V → Prop}
  {lost : Progress S V → Prop}

theorem Yields.after {a : α} (yields : Yields w s a s') (holds : done a s') :
    After w s done lost := by
  unfold Yields at yields
  simpa only [After, yields] using holds

theorem After.of_yields {a : α} (after : After w s done lost) (yields : Yields w s a s') :
    done a s' := by
  unfold Yields at yields
  simpa only [After, yields] using after

theorem After.bind {f : α → Work S V β} {done : β → Progress S V → Prop}
    (first : After w s (fun a s' => After (f a) s' done lost) lost) :
    After (w >>= f) s done lost := by
  unfold After at first ⊢
  simp only [Process.run_bind]
  rcases ran : w.run.run s with ⟨_ | a, s'⟩
  · rw [ran] at first
    exact first
  · rw [ran] at first
    exact first

theorem Yields.bind_after {f : α → Work S V β} {done : β → Progress S V → Prop} {a : α}
    (yields : Yields w s a s') (next : After (f a) s' done lost) : After (w >>= f) s done lost :=
  .bind (yields.after next)

theorem After.mono {done' : α → Progress S V → Prop} {lost' : Progress S V → Prop}
    (after : After w s done lost) (returns : ∀ a s', done a s' → done' a s')
    (gone : ∀ s', lost s' → lost' s') : After w s done' lost' := by
  unfold After at after ⊢
  rcases ran : w.run.run s with ⟨_ | a, s'⟩
  · rw [ran] at after
    exact gone s' after
  · rw [ran] at after
    exact returns a s' after

theorem After.settle (after : After w s (fun _ => lost) lost) (a : α) : lost (settle w a s).2 := by
  unfold After at after
  simp only [Progress.settle]
  rcases ran : w.run.run s with ⟨_ | b, s'⟩
  · rw [ran] at after
    exact after
  · rw [ran] at after
    exact after

theorem After.and {done' : α → Progress S V → Prop} {lost' : Progress S V → Prop}
    (after : After w s done lost) (after' : After w s done' lost') :
    After w s (fun a s' => done a s' ∧ done' a s') fun s' => lost s' ∧ lost' s' := by
  unfold After at after after' ⊢
  rcases ran : w.run.run s with ⟨_ | a, s'⟩
  · rw [ran] at after after'
    exact ⟨after, after'⟩
  · rw [ran] at after after'
    exact ⟨after, after'⟩

end Progress

open Progress

namespace Pass

variable {p : Pass S V} {s : Progress S V} {lost : Progress S V → Prop}

theorem after_report {done : Unit → Progress S V → Prop} (e : Event)
    (heard : p.listener (e :: s.world.history) = false →
      done () { s with world := s.world.record e })
    (gone : p.listener (e :: s.world.history) = true → lost { s with world := s.world.record e }) :
    After (p.report e) s done lost := by
  simp only [After, run_report]
  cases panics : p.listener (e :: s.world.history) with
  | false => exact heard panics
  | true => exact gone panics

end Pass

end Recompute
