import Recompute.Proofs.Ranked

set_option autoImplicit false

namespace Recompute

variable {S V : Type} [BEq V] {rules : Rules S V} {lower : Key → Key → Prop}

def Rules.Affected (rules : Rules S V) (s s' : S) (k : Key) : Prop :=
  ∃ rule, rules.get? k.tag = some rule ∧
    ¬ Computation.Alike (· = s) (· = s') (rule k) (rule k)

def giveAll {V : Type} (given : Key → Option V) (values : List (Key × V)) : Key → Option V :=
  values.foldl (fun given entry => Function.update given entry.1 (some entry.2)) given

namespace Graph

variable {given : Key → Option V} {g g' : Graph V} {k : Key}

theorem Holds.of_sameRecords (holds : g.Holds given) (same : g.SameRecords g') : g'.Holds given where
  computed l none := (same l).injected.trans (holds.computed l none)
  given l v known := by
    rw [(same l).injected, (same l).cached]
    exact holds.given l v known

theorem Holds.settle (holds : g.Holds given) {m : Node V} (node : g'.node = (g.settled k m).node)
    (injected : m.injected = (g.node k).injected)
    (kept : (g.node k).injected = true → m.cached = (g.node k).cached) : g'.Holds given := by
  have same (l : Key) := node ▸ g.settled_sameResult k m l
  have injected (l : Key) : (g'.node l).injected = (g.node l).injected := by
    rw [(same l).injected]
    exact update_congr Node.injected injected l
  constructor
  · intro l none
    exact (injected l).trans (holds.computed l none)
  · intro l v known
    obtain ⟨there, w, cached, equal⟩ := holds.given l v known
    refine ⟨(injected l).trans there, w, ?_, equal⟩
    rw [(same l).cached]
    by_cases at_k : l = k
    · subst at_k
      rw [Function.update_self, kept there, cached]
    · rw [Function.update_of_ne at_k, cached]

theorem Holds.give (holds : g.Holds given) (k : Key) (v : V) (version : Nat) :
    (g.given k v version).Holds (Function.update given k (some v)) := by
  obtain ⟨-, -, -, -, injected, changed⟩ := (g.node k).inject_facts v version
  have same := sameResult_given g k v version
  constructor
  · intro l none
    rw [(same l).injected]
    by_cases at_k : l = k
    · simp [at_k] at none
    · rw [Function.update_of_ne at_k] at none ⊢
      exact holds.computed l none
  · intro l w known
    rw [(same l).injected, (same l).cached]
    by_cases at_k : l = k
    · subst at_k
      rw [Function.update_self] at known ⊢
      cases known
      refine ⟨injected, ?_⟩
      rcases changed with ⟨-, cached, -⟩ | ⟨-, -, held, cached, -⟩
      · exact ⟨v, cached, Relation.EqvGen.refl v⟩
      ·
        unfold Node.holds at held
        split at held
        next old before => exact ⟨old, cached.trans before, Relation.EqvGen.rel _ _ held⟩
        next => simp at held
    · rw [Function.update_of_ne at_k] at known ⊢
      exact holds.given l w known

theorem injectEach_holds (version : Nat) (values : List (Key × V)) (s : Spread V)
    (holds : s.graph.Holds given) :
    (injectEach version values s).graph.Holds (giveAll given values) := by
  induction values generalizing s given with
  | nil => exact holds
  | cons entry rest ih => exact ih _ (holds.give entry.1 entry.2 version)

theorem Holds.inject (holds : g.Holds given) (values : List (Key × V)) :
    (g.inject values).2.2.Holds (giveAll given values) := by
  cases values with
  | nil => exact holds
  | cons entry rest =>
    have advanced : g.advance.Holds given := holds.of_sameRecords fun _ => .refl _
    have held := injectEach_holds (g.version + 1) (entry :: rest) ⟨g.advance, [], []⟩ advanced
    exact held.of_sameRecords (sameRecords_spread _ _)

def Told (told : List Key) (g : Graph V) : Prop :=
  ∀ k ∈ told, (g.node k).cached = none ∨ (g.node k).injected = true ∨ (g.node k).dirty = .changed

variable {told : List Key}

omit [BEq V] in
theorem Told.of_sameRecords (reported : g.Told told) (same : g.SameRecords g') : g'.Told told := by
  intro k inside
  rw [(same k).cached, (same k).injected]
  exact (reported k inside).imp_right (Or.imp_right (same k).changed)

theorem Told.give (reported : g.Told told) (k : Key) (v : V) (version : Nat) :
    (g.given k v version).Told told := by
  obtain ⟨-, -, -, -, injected, -⟩ := (g.node k).inject_facts v version
  have same := sameResult_given g k v version
  intro l inside
  rw [(same l).cached, (same l).injected, (same l).dirty]
  by_cases at_k : l = k
  · subst at_k
    rw [Function.update_self]
    exact .inr (.inl injected)
  · rw [Function.update_of_ne at_k]
    exact reported l inside

omit [BEq V] in
theorem Told.invalidate (reported : g.Told told) (resting : g.Resting) (keys : List Key) :
    (g.invalidate keys).2.2.Told (told ++ keys) := by
  intro k inside
  have same := g.sameRecords_invalidate keys
  rcases List.mem_append.mp inside with old | new
  · exact reported.of_sameRecords same k old
  · rw [(same k).cached]
    by_cases built : (g.node k).cached = none
    · exact .inl built
    · exact .inr (.inr (invalidate_changed new (resting.settled_of_built built)))

theorem Justified.transfer {s s' : S} (justified : g.Justified rules (· = s))
    (reported : g.Told told) (informed : ∀ k ∈ g.keys, rules.Affected s s' k → k ∈ told)
    (confined : rules.Confined (· = s')) : g.Justified rules (· = s') := by
  intro k o found computed unchanged plain
  obtain ⟨look, gives, agrees⟩ := justified k o found computed unchanged plain
  refine ⟨look, ?_, agrees⟩
  rcases gives with missing | ⟨rule, result, t, known, plays, complete, alike, groups⟩
  · exact .inl missing
  · have alike' : Computation.Alike (· = s) (· = s') (rule k) (rule k) := by
      by_contra affected
      have inside : k ∈ g.keys := by
        by_contra out
        have none : g.get? k = none := by
          simpa [get?] using mt (Table.mem_keys_iff g.nodes k).mpr out
        simp [node, none] at found
      rcases reported k (informed k inside ⟨rule, known, affected⟩) with none | given | changed
      · simp [none] at found
      · simp [given] at computed
      · exact unchanged changed
    have plays' := Computation.trial_plays (confined k rule known) look rfl {}
    obtain ⟨same, ends⟩ := alike'.plays plays plays' fun d _ => .refl _
    generalize (rule k).trial look s' {} = tried at plays' same ends
    obtain ⟨result', t'⟩ := tried
    subst same
    rcases ends with ⟨a, b, first, second, ends⟩ | ⟨panic, first, -⟩
    · cases first
      cases second
      exact .inr ⟨rule, b, t, known, plays', complete,
        (t.outcome_alike k ends).symm.trans alike, groups⟩
    · simp at first

-- Every result on record is given, or what its rule makes of lower keys with `outside` outside.
structure Faithful (rules : Rules S V) (lower : Key → Key → Prop) (outside : S)
    (given : Key → Option V) (g : Graph V) : Prop where
  justified : g.Justified rules (· = outside)
  layered : g.Layered lower
  holds : g.Holds given

variable {outside : S}

theorem Faithful.of_sameRecords (faithful : g.Faithful rules lower outside given)
    (same : g.SameRecords g') : g'.Faithful rules lower outside given :=
  ⟨faithful.justified.of_sameRecords same, faithful.layered.of_sameRecords same,
    faithful.holds.of_sameRecords same⟩

theorem faithful_nil : ({} : Graph V).Faithful rules lower outside fun _ => none := by
  have fresh (k : Key) : ({} : Graph V).node k = {} := rfl
  refine ⟨fun k o found => ?_, ⟨fun k d read => ?_, fun k => rfl⟩, ⟨fun _ _ => rfl, fun k v known => ?_⟩⟩
  · simp [fresh] at found
  · simp [fresh] at read
  · simp at known

theorem Faithful.inject (faithful : g.Faithful rules lower outside given) (resting : g.Resting)
    (values : List (Key × V)) :
    (g.inject values).2.2.Faithful rules lower outside (giveAll given values) where
  justified := faithful.justified.inject resting values
  layered := inject_records (fun _ _ same layered => layered.of_sameRecords same) g
    faithful.layered (fun _ k v layered => layered.give k v _) values
  holds := faithful.holds.inject values

end Graph

variable {p : Pass S V} {good : S → Prop} {roots : List Key} {s s' : Progress S V}
  {given : Key → Option V} {outside : S}

theorem Step.Effect.holds {g g' : Graph V} (effect : Step.Effect p good g g')
    (shape : g.WellFormed) (holds : g.Holds given) : g'.Holds given := by
  cases effect with
  | same same => exact holds.of_sameRecords fun k => (same.result k).record
  | confirmed k unfinished cause node =>
    have status := cause.status
    refine holds.settle node ?_ fun _ => ?_ <;> rw [(shape k).confirm_eq status]
  | concluded k f o deps unfinished computed flight cause node =>
    refine holds.settle node ?_ fun given => by simp [computed] at given
    rw [computed]
    cases o <;> rfl

theorem Step.abort_of_halted (step : Step p good roots s s') (keepGoing : p.keepGoing = true)
    (live : s.halted = false) (halted : s'.halted = true) : s'.abort ≠ none := by
  have still (same : s'.halted = s.halted) : s'.abort ≠ none := by simp [same, live] at halted
  cases step with
  | enqueue _ _ _ _ _ control | claim _ _ _ _ _ control | check _ _ _ _ _ _ _ _ _ control
  | confirm _ _ _ _ _ _ control | postpone _ _ _ _ _ _ _ _ _ control =>
    exact still (congrArg Control.halted control)
  | lose _ _ _ _ _ _ _ control =>
    obtain ⟨_, _, abort, -, -, given, control⟩ := control
    rw [show s'.abort = abort from congrArg Control.abort control]
    rcases given with ⟨same, -⟩ | ⟨message, rfl⟩
    · simp [same, live] at halted
    · cases s.abort <;> simp
  | restart _ _ _ _ _ _ _ _ _ _ control =>
    obtain ⟨_, _, -, -, control⟩ := control
    exact still (congrArg Control.halted control)
  | conclude _ _ o _ _ _ _ _ _ control =>
    obtain ⟨_, _, -, -, control⟩ := control
    rw [keepGoing] at control
    cases o <;> exact still (congrArg Control.halted control)

namespace Pass

theorem Moves.faithful (moves : p.Moves (· = outside) roots s s')
    (underway : s.GroundedRun p.version)
    (ranked : p.rules.Ranked (· = outside) lower)
    (faithful : s.graph.Faithful p.rules lower outside given) :
    s'.graph.Faithful p.rules lower outside given := by
  induction moves with
  | refl => exact faithful
  | tail earlier move ih =>
    have underway := Moves.underway earlier underway
    cases move with
    | rest same => exact ih.of_sameRecords fun k => same.node ▸ .refl _
    | step live step =>
      have effect := step.effect underway.shape
      exact ⟨effect.justified ih.justified underway.shape underway.dated underway.grounded
        underway.current, effect.layered underway.shape ranked ih.layered,
        effect.holds underway.shape ih.holds⟩

theorem Moves.abort_of_halted (moves : p.Moves good roots s s') (keepGoing : p.keepGoing = true)
    (live : s.halted = false) : s'.halted = true → s'.abort ≠ none := by
  induction moves with
  | refl => simp [live]
  | tail _ move ih =>
    cases move with
    | rest same =>
      intro halted
      have before : _ = _ := congrArg Control.halted same.control
      have abort : _ = _ := congrArg Control.abort same.control
      exact abort.trans_ne (ih (before.symm.trans halted))
    | step live step => exact step.abort_of_halted keepGoing live

end Pass

end Recompute
