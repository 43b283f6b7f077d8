import Recompute.Proofs.PassSteps
import Recompute.Proofs.Framing

set_option autoImplicit false

namespace Recompute

variable {S V : Type}

open Progress

namespace Progress

structure Undisturbed (s s' : Progress S V) : Prop extends s.SameHalt s' where
  interrupted : s'.world.interrupted = s.world.interrupted

instance : Frame (Undisturbed (S := S) (V := V)) where
  trans first second :=
    ⟨first.toSameHalt.trans second.toSameHalt, second.interrupted.trans first.interrupted⟩
  graph _ _ := ⟨⟨rfl, rfl, rfl⟩, rfl⟩

theorem Undisturbed.refl (s : Progress S V) : s.Undisturbed s := ⟨.refl s, rfl⟩

structure StaysHalted (s s' : Progress S V) : Prop where
  halted : s.halted = true → s'.halted = true
  abort : s'.abort ≠ s.abort → s'.halted = true

theorem StaysHalted.of_same {s s' : Progress S V} (halted : s'.halted = s.halted)
    (abort : s'.abort = s.abort) : s.StaysHalted s' :=
  ⟨halted.trans, fun changed => absurd abort changed⟩

instance : Frame (StaysHalted (S := S) (V := V)) where
  trans {s s' _} first second :=
    { halted := fun halted => second.halted (first.halted halted)
      abort := by
        intro changed
        by_cases same : s'.abort = s.abort
        · exact second.abort (same ▸ changed)
        · exact second.halted (first.abort same) }
  graph _ _ := .of_same rfl rfl

end Progress

namespace Pass

variable {p : Pass S V} {k : Key} {e : Failure} {deps : List Group} {s s' : Progress S V}

theorem undisturbed_reports (p : Pass S V) : p.Reports Undisturbed :=
  .of_record fun _ _ _ _ => ⟨⟨rfl, rfl, rfl⟩, rfl⟩

theorem staysHalted_halts (p : Pass S V) : p.Halts StaysHalted where
  toReports := .of_record fun _ _ _ _ => .of_same rfl rfl
  halt _ _ := ⟨fun _ => rfl, fun changed => absurd rfl changed⟩

theorem staysHalted_leads [BEq V] (p : Pass S V) (k : Key) : p.Leads StaysHalted k where
  toHalts := p.staysHalted_halts
  giveUp _ _ := ⟨fun _ => rfl, fun _ => rfl⟩
  run _ _ _ _ := .of_same rfl rfl

theorem Leads.reaches [BEq V] {r : Progress S V → Progress S V → Prop} [Frame r]
    (leads : ∀ k, p.Leads r k) {roots queue : List Key} {w : World S V}
    (reaches : p.Reaches roots w queue s) : r { world := w } s := by
  suffices all : ∀ turn, Relation.ReflTransGen (p.Turned roots)
      (p.enqueueAll roots { world := w }) turn → r { world := w } turn.2 from all (queue, s) reaches
  intro turn reaches
  induction reaches with
  | refl => exact (leads default).enqueueAll roots { world := w }
  | tail _ turned ih =>
    cases turned with
    | @dispatch queue s k rest turn => exact Frame.trans ih ((leads k).dispatch s)
    | @unblock queue s cycles turn => exact Frame.trans ih ((leads default).failCycles cycles s)

structure Blames (p : Pass S V) (k : Key) (e : Failure) (s s' : Progress S V) : Prop where
  history : s'.world.history = .evaluated k (.failed e.kind) :: s.world.history
  heard : p.listener s'.world.history = false
  halted : s'.halted = (s.halted || !p.keepGoing)
  culprit : s'.culprit = if p.keepGoing then s.culprit else s.culprit <|> some k
  abort : s'.abort = s.abort
  interrupted : s'.world.interrupted = s.world.interrupted

theorem fail_blames (k : Key) (e : Failure) (deps : List Group) (s : Progress S V) :
    After (p.fail k e deps) s (fun _ => p.Blames k e s) s.Undisturbed := by
  refine (yields_onNode k (·.fail e deps p.version) s).bind_after ((yields_count _ _).bind_after
    (.bind (after_report _ (fun heard => ?_) fun _ => ⟨⟨rfl, rfl, rfl⟩, rfl⟩)))
  have published (receipt : Receipt) (s : Progress S V) :
      ∃ ready g, Yields (publish k receipt deps) s ready (s.withGraph g) :=
    ⟨_, _, yields_bind (yields_rewire k receipt.formerDeps deps s) (yields_signal _ _)⟩
  obtain ⟨ready, g, yields⟩ := published _ _
  refine (yields_halt k _ yields).after ?_
  cases keep : p.keepGoing <;> constructor <;>
    first | exact heard | simp [keep, Progress.withGraph, World.record]

theorem WorkLeft.outcome [BEq V] {f : Flight V} {s₀ : Progress S V} {w : Work S V (List Key)}
    (left : p.WorkLeft k f s₀ s w) :
    s.Undisturbed (w.run.run s).2 ∨
      (w.run.run s).2.halted = true ∧ (w.run.run s).2.abort ≠ none ∨
      ∃ e deps, p.SinceClaim k f s₀ s [] ∧
        ((∃ fault, e = .direct k fault) ∨ ∃ failures, e = .merge failures) ∧
        w = p.fail k e deps ∧ p.Blames k e s (w.run.run s).2 := by
  cases left with
  | stay | lose => exact .inl (.refl s)
  | giveUp since a =>
    refine .inr (.inl ⟨rfl, ?_⟩)
    change (s.abort <|> some a) ≠ none
    cases s.abort <;> simp
  | park _ memo => exact .inl (p.undisturbed_reports.park k _ memo s)
  | confirm => exact .inl (p.undisturbed_reports.confirm k s)
  | succeed _ _ v deps => exact .inl (p.undisturbed_reports.succeed k v deps s)
  | fail since live e cause deps =>
    have fails : After (p.fail k e deps) s (fun _ s' => s.Undisturbed s' ∨ p.Blames k e s s')
        (fun s' => s.Undisturbed s' ∨ p.Blames k e s s') :=
      (fail_blames k e deps s).mono (fun _ _ => .inr) fun _ => .inl
    rcases fails.settle [] with undisturbed | blames
    · exact .inl undisturbed
    · exact .inr (.inr ⟨e, deps, since, cause, rfl, blames⟩)

structure Condemns [BEq V] (p : Pass S V) (k : Key) (e : Failure) (deps : List Group)
    (s s₁ : Progress S V) : Prop where
  since : ∃ f, p.SinceClaim k f s s₁ []
  held : s.SameHalt s₁
  cause : (∃ fault, e = .direct k fault) ∨ ∃ failures, e = .merge failures
  last : (p.work k).run.run s = (p.fail k e deps).run.run s₁
  blames : p.Blames k e s₁ (p.dispatch k s).2

theorem Condemns.node [BEq V] {s₁ : Progress S V} (condemns : p.Condemns k e deps s s₁) :
    (p.dispatch k s).2.graph.node =
      (s₁.graph.settled k ((s₁.graph.node k).commit (.error e) deps p.version).2).node := by
  have fails : After (p.fail k e deps) s₁ _ _ := commit_after k (.error e) deps s₁
  have same : (p.dispatch k s).2 = (settle (p.fail k e deps) [] s₁).2 := by
    change ((p.work k).run.run s).2 = ((p.fail k e deps).run.run s₁).2
    rw [condemns.last]
  have node := (fails.settle []).node
  rw [← same, if_neg (by simp [condemns.blames.heard])] at node
  exact node

theorem dispatch_condemns [BEq V] (confined : p.rules.Confined fun _ => True) {w : World S V}
    {new : List Event} (passInv : s.PassInvariant p.version w new) (queued : InQueue s k)
    (live : p.isStopped s = false) :
    s.SameHalt (p.dispatch k s).2 ∨
      (p.dispatch k s).2.halted = true ∧ (p.dispatch k s).2.abort ≠ none ∨
      ∃ e deps s₁, p.Condemns k e deps s s₁ := by
  obtain ⟨f, flight, queued⟩ := queued
  obtain ⟨s₁, w', left, held, same⟩ :=
    work_comes confined k passInv.shape passInv.dated flight queued live
  have final : (p.dispatch k s).2 = (w'.run.run s₁).2 := congrArg Prod.snd same
  rcases left.outcome with undisturbed | aborted | ⟨e, deps, since, cause, fails, blames⟩
  · rw [final]
    exact .inl (held.trans undisturbed.toSameHalt)
  · rw [final]
    exact .inr (.inl aborted)
  · exact .inr (.inr ⟨e, deps, s₁, ⟨f, since⟩, held, cause, fails ▸ same, final ▸ blames⟩)

theorem dispatch_sameHalt_of_not_queued [BEq V] (out : ¬InQueue s k) :
    s.SameHalt (p.dispatch k s).2 := by
  rcases dispatch_of_not_queued (p := p) fun f flight queued => out ⟨f, flight, queued⟩
    with same | ensured
  · rw [same]
    exact .refl s
  · rw [ensured]
    exact ⟨rfl, rfl, rfl⟩

theorem failMembers_halts (failFast : p.keepGoing = false) (cycle : Cycle) (keys : List Key)
    (s : Progress S V) : After (p.failMembers cycle keys) s
      (fun ready s' => s'.halted = true ∨ ready = []) (fun _ => True) := by
  induction keys generalizing s with
  | nil => exact (yields_pure [] s).after (.inr rfl)
  | cons k rest ih =>
    have others (ready : List Key) (s₁ : Progress S V) (first : s₁.halted = true ∨ ready = []) :
        After (do return ready ++ (← p.failMembers cycle rest)) s₁
          (fun ready s' => s'.halted = true ∨ ready = []) (fun _ => True) := by
      refine .bind (((ih s₁).and ((p.staysHalted_halts.failMembers cycle rest).after s₁)).mono ?_
        fun _ _ => trivial)
      rintro more s₂ ⟨second, stays⟩
      refine (yields_pure _ s₂).after ?_
      rcases first with halted | rfl
      · exact .inl (stays.halted halted)
      · exact second
    refine (yields_get s).bind_after ?_
    dsimp only
    cases s.graph.get? k with
    | none => exact (yields_pure [] s).bind_after (others [] s (.inr rfl))
    | some n =>
      cases finished : n.isFinished with
      | true =>
        simp only [finished, if_true]
        exact (yields_pure [] s).bind_after (others [] s (.inr rfl))
      | false =>
        simp only [finished, Bool.false_eq_true, if_false]
        refine .bind ((fail_blames k _ _ s).mono (fun ready s₁ blames => ?_) fun _ _ => trivial)
        refine others ready s₁ (.inl ?_)
        rw [blames.halted, failFast]
        exact Bool.or_true _

theorem failCycles_halts (failFast : p.keepGoing = false) (cycles : List Cycle) (s : Progress S V) :
    (p.failCycles cycles s).2.halted = true ∨ (p.failCycles cycles s).1 = [] := by
  induction cycles generalizing s with
  | nil => exact .inr rfl
  | cons cycle rest ih =>
    have later := p.staysHalted_halts.failCycles rest (settle (p.failCycle cycle) [] s).2
    have first : (settle (p.failCycle cycle) [] s).2.halted = true ∨
        (settle (p.failCycle cycle) [] s).1 = [] := by
      have after : After (p.failCycle cycle) s (fun ready s' => s'.halted = true ∨ ready = [])
          (fun _ => True) := by
        refine .bind ((failMembers_halts failFast cycle cycle s).mono (fun ready s' halts => ?_)
          fun _ => id)
        refine (yields_pure _ s').after (halts.imp_right fun none => ?_)
        rw [none]
        rfl
      unfold After at after
      unfold settle
      rcases ran : (p.failCycle cycle).run.run s with ⟨_ | ready, s'⟩
      · exact .inr rfl
      · rw [ran] at after
        exact after
    rcases first with halted | none
    · exact .inl (later.halted halted)
    · refine (ih (settle (p.failCycle cycle) [] s).2).imp_right fun none' => ?_
      change (settle (p.failCycle cycle) [] s).1 ++
        (p.failCycles rest (settle (p.failCycle cycle) [] s).2).1 = []
      rw [none, none']
      rfl

end Pass

end Recompute
