import Recompute.Proofs.Consistency

set_option autoImplicit false

namespace Recompute

variable {S V α : Type}

namespace Computation

def trial (look : Oracle V) : Computation S V α → S → Trace V → Except Panic α × Trace V
  | done a, _, t => (.ok a, t)
  | panic p, _, t => (.error p, t)
  | values keys next, s, t =>
    (next (answersOf look keys).withoutFailures).trial look s (t.heard look false keys)
  | outcomes keys next, s, t => (next (answersOf look keys)).trial look s (t.heard look true keys)
  | blocked next, s, t => (next t.blocked).trial look s t
  | version next, s, t => (next 0).trial look s t
  | interrupted next, s, t => (next false).trial look s t
  | outside next, s, t => (next s).trial look s t
  | setOutside s next, _, t => next.trial look s t
  | note _ next, s, t | interrupt _ next, s, t | inject _ _ next, s, t | invalidate _ next, s, t =>
    next.trial look s t

theorem trial_plays {good : S → Prop} {c : Computation S V α} (confined : Confined good c)
    (look : Oracle V) {s : S} (outside : good s) (t : Trace V) :
    Plays look good c t (c.trial look s t).1 (c.trial look s t).2 := by
  induction confined generalizing s t with
  | done a => exact .done a t
  | panic p => exact .panic p t
  | values _ ih => exact .values (ih _ outside _)
  | outcomes _ ih => exact .outcomes (ih _ outside _)
  | blocked _ ih => exact .blocked (ih _ outside t)
  | @silent c quiet _ ih =>
    cases c <;> simp only [Silent] at quiet
    case version next => exact .silent trivial ⟨0, rfl⟩ (ih _ ⟨0, rfl⟩ outside t)
    case interrupted next => exact .silent trivial ⟨false, rfl⟩ (ih _ ⟨false, rfl⟩ outside t)
    case outside next =>
      exact .silent trivial ⟨s, outside, rfl⟩ (ih _ ⟨s, outside, rfl⟩ outside t)
    case setOutside s' next => exact .silent quiet rfl (ih _ rfl quiet t)
    case note text next => exact .silent trivial rfl (ih _ rfl outside t)
    case interrupt h next => exact .silent trivial rfl (ih _ rfl outside t)

theorem trial_asked (look : Oracle V) (c : Computation S V α) (s : S) (t : Trace V) {k : Key}
    (inside : k ∈ t.asked) : k ∈ (c.trial look s t).2.asked := by
  induction c generalizing s t with
  | done | panic => exact inside
  | values _ _ ih | outcomes _ _ ih => exact ih _ s _ (Trace.mem_asked_heard.mpr (.inl inside))
  | blocked _ ih | version _ ih | interrupted _ ih | outside _ ih => exact ih _ s t inside
  | setOutside s' _ ih => exact ih s' t inside
  | note _ _ ih | interrupt _ _ ih | inject _ _ _ ih | invalidate _ _ ih => exact ih s t inside

theorem trial_congr [BEq V] {look look' : Oracle V} (c : Computation S V α) (s : S) (t : Trace V)
    (agree : ∀ k ∈ (c.trial look s t).2.asked, look k = look' k) :
    c.trial look s t = c.trial look' s t := by
  induction c generalizing s t with
  | done | panic => rfl
  | blocked _ ih | version _ ih | interrupted _ ih | outside _ ih => exact ih _ s t agree
  | setOutside s' _ ih => exact ih s' t agree
  | note _ _ ih | interrupt _ _ ih | inject _ _ _ ih | invalidate _ _ ih => exact ih s t agree
  | values keys next ih | outcomes keys next ih =>
    have same : ∀ k ∈ keys, look k = look' k := by
      intro k inside
      refine agree k ?_
      rw [trial]
      exact trial_asked look _ s _ (Trace.mem_asked_heard.mpr (.inr inside))
    have answers : answersOf look keys = answersOf look' keys := by
      refine List.map_congr_left fun k inside => ?_
      rw [same k (by simpa [mem_union] using inside)]
    have heard (tolerant : Bool) : t.heard look tolerant keys = t.heard look' tolerant keys :=
      t.heard_congr tolerant fun k inside => same k inside ▸ .refl _
    simp only [trial, ← heard, ← answers]
    exact ih _ s _ agree

end Computation

namespace Rules

variable (rules : Rules S V) {lower : Key → Key → Prop}

def outcomeFrom (given : Key → Option V) (outside : S) (look : Oracle V) (k : Key) :
    Option (Outcome V) :=
  match given k with
  | some v => some (.ok v)
  | none =>
    match rules.get? k.tag with
    | none => some (.error (.direct k (.noRule k.tag)))
    | some rule =>
      match (rule k).trial look outside {} with
      | (.ok result, t) => if t.absent = [] then some (t.outcome k result) else none
      | (.error _, _) => none

open Classical in
-- What every key comes to from scratch, by recursion on the keys that are lower.
noncomputable def reference (founded : WellFounded lower) (given : Key → Option V) (outside : S) :
    Oracle V :=
  founded.fix fun k recur =>
    rules.outcomeFrom given outside (fun d => if below : lower d k then recur d below else none) k

def Ranked (good : S → Prop) (lower : Key → Key → Prop) : Prop :=
  ∀ k rule, rules.get? k.tag = some rule → ∀ look result t,
    (rule k).Plays look good {} result t → ∀ d ∈ t.asked, lower d k

variable {rules} [BEq V] {given : Key → Option V} {outside : S}

theorem outcomeFrom_congr (ranked : rules.Ranked (· = outside) lower)
    (confined : rules.Confined (· = outside)) {look look' : Oracle V} {k : Key}
    (agree : ∀ d, lower d k → look d = look' d) :
    rules.outcomeFrom given outside look k = rules.outcomeFrom given outside look' k := by
  unfold outcomeFrom
  cases given k with
  | some v => rfl
  | none =>
    cases found : rules.get? k.tag with
    | none => rfl
    | some rule =>
      have plays := Computation.trial_plays (confined k rule found) look rfl {}
      have same : (rule k).trial look outside {} = (rule k).trial look' outside {} :=
        (rule k).trial_congr outside {} fun d asked =>
          agree d (ranked k rule found look _ _ plays d asked)
      simp only [same]

theorem reference_eq (founded : WellFounded lower) (ranked : rules.Ranked (· = outside) lower)
    (confined : rules.Confined (· = outside)) (k : Key) :
    rules.reference founded given outside k =
      rules.outcomeFrom given outside (rules.reference founded given outside) k := by
  rw [reference, WellFounded.fix_eq]
  refine outcomeFrom_congr ranked confined fun d below => ?_
  rw [dif_pos below]

end Rules

theorem Trace.outcome_alike [BEq V] (t : Trace V) (k : Key) {a b : Except Fault V}
    (alike : Alike a b) : Alike (t.outcome k a) (t.outcome k b) := by
  unfold Trace.outcome
  split
  · exact .refl _
  · cases a <;> cases b <;> simp only [Alike] at alike ⊢
    · rw [alike]
    · exact alike

namespace Graph

variable [BEq V]

structure Holds (given : Key → Option V) (g : Graph V) : Prop where
  computed : ∀ k, given k = none → (g.node k).injected = false
  given : ∀ k v, given k = some v →
    (g.node k).injected = true ∧ ∃ w, (g.node k).cached = some (.ok w) ∧ Indistinct w v

variable {rules : Rules S V} {lower : Key → Key → Prop} {outside : S} {given : Key → Option V}
  {g : Graph V}

theorem Justified.alike_reference (justified : g.Justified rules (· = outside))
    (grounded : g.Grounded) (shape : g.WellFormed) (holds : g.Holds given)
    (plain : ∀ k, (g.node k).isCyclic = false) (pure : rules.Pure (· = outside))
    (founded : WellFounded lower) (ranked : rules.Ranked (· = outside) lower) (k : Key)
    (finished : (g.node k).isFinished = true) :
    ∃ o o', (g.node k).cached = some o ∧ rules.reference founded given outside k = some o' ∧
      Alike o o' := by
  -- What the rule has read is lower and finished, so by induction it is what the reference says.
  have confined := pure.confined ⟨outside, rfl⟩
  induction k using founded.induction with
  | _ k ih =>
    rw [Rules.reference_eq founded ranked confined, Rules.outcomeFrom]
    cases known : given k with
    | some v =>
      obtain ⟨-, w, cached, equal⟩ := holds.given k v known
      exact ⟨.ok w, .ok v, cached, rfl, equal⟩
    | none =>
      obtain ⟨o, cached⟩ : ∃ o, (g.node k).cached = some o := by
        have outcome := (shape k).outcome?_isSome
        rw [finished, Node.outcome?, if_pos finished] at outcome
        exact Option.isSome_iff_exists.mp outcome
      have clean := ((isFinished_iff _).mp finished).2
      obtain ⟨look, gives, agrees⟩ :=
        justified k o cached (holds.computed k known) (by simp [clean]) (plain k)
      rcases gives with ⟨missing, rfl, -⟩ | ⟨rule, result, t, found, plays, complete, alike, groups⟩
      · simp only [missing]
        exact ⟨_, _, cached, rfl, .refl _⟩
      · simp only [found]
        have checked := grounded k finished (plain k)
        have agree : ∀ d ∈ t.asked, AlikeAnswer (look d) (rules.reference founded given outside d) := by
          intro d asked
          have read : d ∈ (g.node k).deps.flatten := by
            rw [groups, (plays.tidy (Trace.tidy_nil look)).groups]
            exact asked
          have below := ranked k rule found look _ _ plays d asked
          obtain ⟨o, o', cached, reference, alike⟩ := ih d below (checked d read).1
          have answer := (agrees d read (checked d read).2).2
          rw [cached] at answer
          exact answer.trans (reference ▸ .some alike)
        have plays' := Computation.trial_plays (confined k rule found)
          (rules.reference founded given outside) rfl {}
        obtain ⟨same, ends⟩ := (pure k rule found).plays plays plays' agree
        generalize (rule k).trial (rules.reference founded given outside) outside {} = tried
          at same ends
        obtain ⟨result', t'⟩ := tried
        subst same
        rcases ends with ⟨a, b, first, second, ends⟩ | ⟨panic, first, -⟩
        · cases first
          cases second
          simp only [complete, if_true]
          exact ⟨o, _, cached, rfl, alike.symm.trans (t.outcome_alike k ends)⟩
        · simp at first

end Graph

end Recompute
