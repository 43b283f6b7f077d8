import Recompute.Proofs.Work

set_option autoImplicit false

namespace Recompute

variable {S V α β : Type}

namespace Progress

theorem Yields.unique {w : Work S V α} {s s' s'' : Progress S V} {a b : α} (yields : Yields w s a s')
    (yields' : Yields w s b s'') : a = b ∧ s' = s'' := by
  obtain ⟨same, state⟩ := Prod.mk.inj (yields.symm.trans yields')
  exact ⟨Option.some.inj same, state⟩

theorem yields_settle {w : Work S V α} {s : Progress S V} (some : (w.run.run s).1.isSome = true)
    (lost : α) : Yields w s (settle w lost s).1 (settle w lost s).2 := by
  obtain ⟨a, answer⟩ := Option.isSome_iff_exists.mp some
  have yields : Yields w s a (w.run.run s).2 := Prod.ext answer rfl
  rw [settle_of_yields yields lost]
  exact yields

theorem Yields.of_bind {w : Work S V α} {f : α → Work S V β} {s s'' : Progress S V} {b : β}
    (yields : Yields (w >>= f) s b s'') :
    ∃ a s', Yields w s a s' ∧ Yields (f a) s' b s'' := by
  unfold Yields at *
  simp only [Process.run_bind] at yields
  rcases first : w.run.run s with ⟨_ | a, s'⟩
  · simp only [first] at yields
    cases (Prod.mk.inj yields).1
  · rw [first] at yields
    exact ⟨a, s', rfl, yields⟩

def Within (w w' : Work S V α) : Prop := ∀ s a s', Yields w s a s' → Yields w' s a s'

theorem Within.refl (w : Work S V α) : Within w w := fun _ _ _ => id

theorem Within.bind {w w' : Work S V α} {f f' : α → Work S V β} (first : Within w w')
    (rest : ∀ a, Within (f a) (f' a)) : Within (w >>= f) (w' >>= f') := by
  intro s b s'' yields
  obtain ⟨a, s', yields, yields'⟩ := yields.of_bind
  exact yields_bind (first s a s' yields) (rest a s' b s'' yields')

theorem Within.ite {c : Prop} [Decidable c] {v v' w w' : Work S V α} (yes : Within v v')
    (no : Within w w') : Within (if c then v else w) (if c then v' else w') := by
  split
  · exact yes
  · exact no

end Progress

open Progress

namespace Pass

def silent (p : Pass S V) : Pass S V := { p with listener := .steady }

variable (p : Pass S V)

theorem silent_steady : p.silent.listener.Steady := fun _ => rfl

theorem within_report (e : Event) : Within (p.report e) (p.silent.report e) := by
  intro s a s' yields
  simp only [Yields, run_report, silent] at yields ⊢
  split at yields
  · cases (Prod.mk.inj yields).1
  · exact yields

theorem within_announce (k : Key) : Within (p.announce k) (p.silent.announce k) :=
  .bind (.refl _) fun _ => p.within_report _

theorem within_enqueue (k : Key) : Within (p.enqueue k) (p.silent.enqueue k) := by
  refine .bind (.refl _) fun enqueued => ?_
  cases enqueued with
  | false => exact .refl _
  | true => exact .bind (p.within_announce k) fun _ => .refl _

theorem within_succeed [BEq V] (k : Key) (v : V) (deps : List Group) :
    Within (p.succeed k v deps) (p.silent.succeed k v deps) :=
  .bind (.refl _) fun _ => .bind (.refl _) fun _ => .bind (p.within_report _) fun _ => .refl _

theorem within_fail (k : Key) (f : Failure) (deps : List Group) :
    Within (p.fail k f deps) (p.silent.fail k f deps) :=
  .bind (.refl _) fun _ => .bind (.refl _) fun _ => .bind (p.within_report _) fun _ => .refl _

theorem within_confirm (k : Key) : Within (p.confirm k) (p.silent.confirm k) :=
  .bind (.refl _) fun _ => .bind (.refl _) fun _ => .bind (p.within_report _) fun _ => .refl _

theorem within_awaitOne (k dep : Key) : Within (p.awaitOne k dep) (p.silent.awaitOne k dep) := by
  refine .bind (.refl _) fun wait => ?_
  match wait with
  | .finished _ => exact .refl _
  | .waiting true => exact .bind (p.within_announce dep) fun _ => .refl _
  | .waiting false => exact .refl _

theorem within_awaitAll (k : Key) (awaits : List Key) :
    Within (p.awaitAll k awaits) (p.silent.awaitAll k awaits) := by
  induction awaits with
  | nil => exact .refl _
  | cons dep rest ih => exact .bind (p.within_awaitOne k dep) fun _ => .bind ih fun _ => .refl _

theorem within_park (k : Key) (awaits : List Key) (memo : Memo V) :
    Within (p.park k awaits memo) (p.silent.park k awaits memo) :=
  .bind (.refl _) fun _ => .bind (p.within_awaitAll k awaits) fun _ => .refl _

theorem within_conclude [BEq V] (k : Key) (result : Except Fault V) (t : Trace V) :
    Within (p.conclude k result t) (p.silent.conclude k result t) := by
  refine .bind (.refl _) fun s => .ite (.refl _) (.ite ?_ (.ite (p.within_fail k _ _) ?_))
  · exact .bind (.refl _) fun _ => .bind (p.within_report _) fun _ => p.within_park k _ _
  · cases result with
    | ok v => exact p.within_succeed k v _
    | error fault => exact p.within_fail k _ _

theorem within_compute [BEq V] (k : Key) : Within (p.compute k) (p.silent.compute k) := by
  refine .bind (.refl _) fun (attempt, memo) => ?_
  have rules : p.silent.rules = p.rules := rfl
  dsimp only
  rw [rules]
  cases p.rules.get? k.tag with
  | none => exact p.within_fail k _ _
  | some rule =>
    refine .bind (.refl _) fun _ => .bind (p.within_report _) fun _ => .bind (.refl _) fun ran => ?_
    match ran with
    | (.error panic, _) => exact .refl _
    | (.ok result, t) => exact p.within_conclude k result t

theorem within_verifyGroups [BEq V] (k : Key) (verifiedAt i : Nat) (groups : List Group) :
    Within (p.verifyGroups k verifiedAt i groups) (p.silent.verifyGroups k verifiedAt i groups) := by
  induction groups generalizing i with
  | nil => exact p.within_confirm k
  | cons group rest ih =>
    refine .bind (.refl _) fun verdict => ?_
    match verdict with
    | .changed => exact p.within_compute k
    | .unfinished keys => exact p.within_park k keys []
    | .unchanged => exact .bind (.refl _) fun _ => ih (i + 1)

theorem within_work [BEq V] (k : Key) : Within (p.work k) (p.silent.work k) := by
  refine .bind (.refl _) fun s => .ite (.refl _) (.bind (.refl _) fun task => ?_)
  match task with
  | some .compute => exact p.within_compute k
  | some (.verify first) => exact .bind (.refl _) fun _ => p.within_verifyGroups k _ _ _
  | some .keep => exact p.within_confirm k
  | none => exact .refl _

theorem within_failMembers (cycle : Cycle) (keys : List Key) :
    Within (p.failMembers cycle keys) (p.silent.failMembers cycle keys) := by
  induction keys with
  | nil => exact .refl _
  | cons k rest ih =>
    have others (ready : List Key) : Within
        (do return ready ++ (← p.failMembers cycle rest))
        (do return ready ++ (← p.silent.failMembers cycle rest)) := .bind ih fun _ => .refl _
    refine .bind (.refl _) fun s => ?_
    dsimp only
    cases s.graph.get? k with
    | none => exact .bind (.refl _) others
    | some n => exact .ite (.bind (.refl _) others) (.bind (p.within_fail k _ _) others)

theorem within_failCycle (cycle : Cycle) : Within (p.failCycle cycle) (p.silent.failCycle cycle) :=
  .bind (p.within_failMembers cycle cycle) fun _ => .refl _

end Pass

end Recompute
