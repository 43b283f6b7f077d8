import Recompute.Overlap
import Recompute.Proofs.Stall

set_option autoImplicit false

namespace Recompute

variable {S V : Type} [BEq V]

open Progress
open Relation (ReflTransGen)

namespace Pass

variable {p : Pass S V} {config : Config} {roots : List Key} {g₀ : Graph V} {l₀ : Ledger S V}
  {c c' : Crew S V}

-- Nobody works, or one run goes on as it would if it began only now. What was taken up after the
-- pass stopped is among what is `left`.
inductive Sequential (p : Pass S V) (l₀ : Ledger S V) (roots : List Key) : Crew S V → Prop
  | idle {s : Progress S V} {ready : List Key} (left : List Key)
      (drives : p.Drives l₀ roots (ready ++ left) s) (kept : p.isStopped s = false → left = []) :
      Sequential p l₀ roots ⟨s, ready, []⟩
  | busy {s s₀ : Progress S V} {ready : List Key} {w : Work S V (List Key)} (k : Key)
      (left : List Key) (drives : p.Drives l₀ roots (k :: (ready ++ left)) s₀)
      (kept : p.isStopped s₀ = false → left = [])
      (same : w.run.run s = (p.work k).run.run s₀) : Sequential p l₀ roots ⟨s, ready, [w]⟩

namespace Sequential

theorem only {α : Type} {before after : List α} {w v : α} (same : before ++ w :: after = [v]) :
    before = [] ∧ w = v ∧ after = [] := by
  cases before with
  | nil => simpa using same
  | cons => simp at same

theorem done (steady : p.listener.Steady) (confined : p.rules.Confined fun _ => True)
    (sound : l₀.Sound p g₀) {s s₀ : Progress S V} {ready more left : List Key} {k : Key}
    (drives : p.Drives l₀ roots (k :: (ready ++ left)) s₀)
    (kept : p.isStopped s₀ = false → left = []) (yields : Yields (p.work k) s₀ more s) :
    p.Sequential l₀ roots ⟨s, ready ++ more, []⟩ := by
  have dispatched : p.dispatch k s₀ = (more, s) := settle_of_yields yields []
  cases stopped : p.isStopped s₀ with
  | true =>
    rw [dispatch_of_stopped k stopped] at dispatched
    cases dispatched
    rw [List.append_nil]
    exact .idle (k :: left) (drives.perm List.perm_middle.symm) fun live =>
      absurd live (by simp [stopped])
  | false =>
    obtain rfl := kept stopped
    have next := drives.dispatch steady confined sound stopped
    rw [dispatched, List.append_nil] at next
    exact .idle [] (by rwa [List.append_nil]) fun _ => rfl

theorem step (one : config.poolSize = some 1) (steady : p.listener.Steady)
    (confined : p.rules.Confined fun _ => True) (sound : l₀.Sound p g₀)
    (sequential : p.Sequential l₀ roots c) (overlaps : p.Overlaps config roots c c') :
    p.Sequential l₀ roots c' := by
  have yields (k : Key) (s₀ : Progress S V) (running : s₀.Running p.version) :
      ∃ ready s', Yields (p.work k) s₀ ready s' := by
    obtain ⟨ready, s', yields, -⟩ : ∃ ready s', Yields (p.work k) s₀ ready s' ∧
        p.Moves (fun _ => True) [] s₀ s' ∧ p.Dispatches k ready s₀ s' :=
      work_moves steady confined k running trivial
    exact ⟨ready, s', yields⟩
  cases overlaps with
  | take k pick free =>
    cases sequential with
    | idle left drives kept => exact .busy k left (drives.perm (pick.append_right left)) kept rfl
    | busy => simp [Config.admits, one] at free
  | @act s ready before after update next =>
    generalize runs : before ++ .act update next :: after = ws at sequential
    cases sequential with
    | idle => simp at runs
    | busy k left drives kept same =>
      obtain ⟨rfl, rfl, rfl⟩ := only runs
      exact .busy k left drives kept same
  | @finish s ready before after more =>
    generalize runs : before ++ .done more :: after = ws at sequential
    cases sequential with
    | idle => simp at runs
    | busy k left drives kept same =>
      obtain ⟨rfl, rfl, rfl⟩ := only runs
      exact done steady confined sound drives kept same.symm
  | @lose s ready before after =>
    generalize runs : before ++ .lost :: after = ws at sequential
    cases sequential with
    | idle => simp at runs
    | @busy _ s₀ _ _ k left drives kept same =>
      obtain ⟨rfl, rfl, rfl⟩ := only runs
      obtain ⟨l, calls, rfl, -⟩ := drives
      obtain ⟨more, s', returns⟩ := yields k l.state (sound.all confined calls).running
      cases same.trans returns
  | unblock cycles turn =>
    cases sequential with
    | idle left drives kept =>
      obtain ⟨live, rfl, -, -, rfl⟩ := turn_unblock turn
      obtain rfl := kept live
      refine .idle [] ?_ fun _ => rfl
      rw [List.append_nil]
      exact drives.unblock steady _

end Sequential

end Pass

-- With one worker the runs of a pass never overlap: whenever nobody works, the pass is where calls
-- on it that return one after another lead to.
theorem Engine.Reachable.drives_of_one_worker {rules : Rules S V} {listener : Listener} {e : Engine S V}
    (reachable : Reachable rules listener e) (steady : listener.Steady)
    (confined : rules.Confined fun _ => True) (one : e.config.poolSize = some 1)
    {roots : List Key} {keepGoing : Bool} {c : Crew S V}
    (overlaps : ReflTransGen ((e.pass keepGoing).Overlaps e.config (union [] roots))
      (e.crew roots keepGoing) c) (idle : c.runs = [])
    (live : (e.pass keepGoing).isStopped c.state = false) :
    (e.pass keepGoing).Drives { state := { world := e.entry } } (union [] roots) c.ready
      c.state := by
  obtain ⟨rfl, rfl⟩ := reachable.unchanged
  have resting := reachable.resting steady confined
  have sound := resting.toIdle.sound (p := e.pass keepGoing) rfl
  have sequential : (e.pass keepGoing).Sequential { state := { world := e.entry } } (union [] roots) c := by
    clear idle live
    induction overlaps with
    | refl =>
      have start := (Pass.Reaches.start (e.pass keepGoing) (union [] roots) e.entry).drives steady
        confined sound
      exact .idle [] (by rwa [List.append_nil]) fun _ => rfl
    | tail _ next ih => exact ih.step one steady confined sound next
  cases sequential with
  | idle left drives kept => simpa [kept live] using drives
  | busy => cases idle

end Recompute
