import Recompute.Proofs.Attained
import Recompute.Proofs.Framing

set_option autoImplicit false

namespace Recompute

variable {S V α β : Type}

open Relation (ReflTransGen)

def Stats.tellAll (events : List Event) (s : Stats) : Stats := events.foldr (fun e s => s.tell e) s

namespace Progress

def Told (s s' : Progress S V) : Prop :=
  ∃ new, s'.world.history = new ++ s.world.history ∧ s'.stats = s.stats.tellAll new ∧
    s'.enqueued = s.enqueued ++ (Event.entered new).reverse

theorem Told.of_same {s s' : Progress S V} (history : s'.world.history = s.world.history)
    (stats : s'.stats = s.stats) (enqueued : s'.enqueued = s.enqueued) : s.Told s' :=
  ⟨[], history, stats, by simpa [Event.entered] using enqueued⟩

theorem Told.trans {s s' s'' : Progress S V} (first : s.Told s') (second : s'.Told s'') :
    s.Told s'' := by
  obtain ⟨new, history, stats, enqueued⟩ := first
  obtain ⟨new', history', stats', enqueued'⟩ := second
  refine ⟨new' ++ new, ?_, ?_, ?_⟩
  · rw [history', history, List.append_assoc]
  · rw [stats', stats, Stats.tellAll, Stats.tellAll, Stats.tellAll, List.foldr_append]
  · rw [enqueued', enqueued, List.append_assoc, ← List.reverse_append]
    simp [Event.entered]

instance : Frame (Told (S := S) (V := V)) where
  trans := Told.trans
  graph _ _ := .of_same rfl rfl rfl

end Progress

open Progress

namespace Pass

variable {p : Pass S V}

theorem told_report {f : Progress S V → Progress S V} {e : Event}
    (told : ∀ s : Progress S V, s.Told { f s with world := (f s).world.record e }) :
    Runs Told (do modify f; p.report e) := by
  intro s
  have same : ((do modify f; p.report e : Work S V Unit).run.run s) = (p.report e).run.run (f s) :=
    rfl
  rw [same, run_report]
  exact told s

theorem told_run [BEq V] (c : Computation S V α) (scope : Scope) (t : Trace V) (w : World S V) :
    ∃ new, (c.run scope t w).2.2.history = new ++ w.history ∧
      (∀ s : Stats, s.tellAll new = s) ∧ Event.entered new = [] := by
  induction c generalizing t w with
  | done | panic => exact ⟨[], rfl, fun _ => rfl, rfl⟩
  | values keys next ih | outcomes keys next ih => exact ih _ _ _
  | blocked next ih | version next ih | interrupted next ih | outside next ih => exact ih _ t w
  | setOutside s next ih => exact ih t _
  | note text next ih =>
    obtain ⟨new, history, stats, entered⟩ := ih t (w.record (.noted scope.key text))
    refine ⟨new ++ [.noted scope.key text], ?_, fun s => ?_, ?_⟩
    · rw [List.append_assoc]
      exact history
    · rw [Stats.tellAll, List.foldr_append]
      exact stats s
    · simpa [Event.entered] using entered
  | interrupt h next ih =>
    rw [← w.history_interrupt h]
    exact ih t (w.interrupt h)
  | inject key v next ih | invalidate key next ih => exact ih t _

theorem told_halts (p : Pass S V) : p.Halts Told where
  announce k := told_report fun _ => ⟨[.enqueued k], rfl, rfl, rfl⟩
  counted f e tells quiet := told_report fun s =>
    ⟨[e], rfl, tells s.stats, by rw [quiet]; exact (List.append_nil _).symm⟩
  halt _ _ := .of_same rfl rfl rfl

theorem told_leads [BEq V] (p : Pass S V) (k : Key) : p.Leads Told k where
  toHalts := p.told_halts
  giveUp _ _ := .of_same rfl rfl rfl
  run rule memo _ s := by
    obtain ⟨new, history, stats, entered⟩ :=
      told_run (rule k) ⟨k, p.version, p.handle⟩ { memo } s.world
    exact ⟨new, history, (stats s.stats).symm, by rw [entered]; exact (List.append_nil _).symm⟩

theorem Calls.told [BEq V] {l l' : Ledger S V} (calls : p.Calls l l') : l.state.Told l'.state := by
  cases calls with
  | root k returns => exact (p.told_halts.enqueue k).of_yields returns
  | run k returns => exact (p.told_leads k).work.of_yields returns
  | find roots | outside o => exact .of_same rfl rfl rfl
  | fail cycle found returns => exact (p.told_halts.failCycle cycle).of_yields returns
  | interrupt h => exact .of_same (World.history_interrupt _ h) rfl rfl

theorem told_calls [BEq V] {l l' : Ledger S V} (calls : ReflTransGen p.Calls l l') :
    l.state.Told l'.state := by
  induction calls with
  | refl => exact .of_same rfl rfl rfl
  | tail _ call ih => exact ih.trans call.told

end Pass

end Recompute
