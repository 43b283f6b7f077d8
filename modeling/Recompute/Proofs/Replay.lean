import Recompute.Proofs.Reference

set_option autoImplicit false

namespace Recompute

variable {S V : Type}

namespace Computation

theorem Plays.groups {α : Type} {look : Oracle V} {good : S → Prop} {c : Computation S V α}
    {t u : Trace V} {r : Except Panic α} (plays : Plays look good c t r u) :
    ∃ later, u.groups = t.groups ++ later := by
  have heard (t : Trace V) (tolerant : Bool) (keys : List Key) :
      ∃ new, (t.heard look tolerant keys).groups = t.groups ++ new := by
    by_cases none : t.fresh keys = []
    · exact ⟨[], by simp [Trace.heard, none]⟩
    · exact ⟨[t.fresh keys], by simp [Trace.heard, none]⟩
  induction plays with
  | done | panic => exact ⟨[], (List.append_nil _).symm⟩
  | @values keys _ t _ _ _ ih =>
    obtain ⟨later, after⟩ := ih
    obtain ⟨new, first⟩ := heard t false keys
    exact ⟨new ++ later, by rw [after, first, List.append_assoc]⟩
  | @outcomes keys _ t _ _ _ ih =>
    obtain ⟨later, after⟩ := ih
    obtain ⟨new, first⟩ := heard t true keys
    exact ⟨new ++ later, by rw [after, first, List.append_assoc]⟩
  | blocked _ ih | silent _ _ _ ih => exact ih

end Computation

variable [BEq V]

theorem Trace.heard_before {t u : Trace V} {look look' : Oracle V} {tolerant : Bool}
    {keys : List Key}
    {pre later rest : List Group} {group : Group}
    (heard : u.groups = (t.heard look tolerant keys).groups ++ later)
    (groups : u.groups = t.groups ++ pre ++ group :: rest)
    (agree : ∀ d ∈ t.asked ++ pre.flatten, AlikeAnswer (look d) (look' d)) :
    (pre = [] ∧ ∀ look', (t.heard look' tolerant keys).groups = t.groups ++ [group]) ∨
      ∃ pre', (t.heard look tolerant keys).groups ++ pre' = t.groups ++ pre ∧
        (∀ k ∈ keys, AlikeAnswer (look k) (look' k)) ∧
        ∀ d ∈ (t.heard look tolerant keys).asked ++ pre'.flatten,
          AlikeAnswer (look d) (look' d) := by
  by_cases none : t.fresh keys = []
  · have known : ∀ k ∈ keys, k ∈ t.asked := by
      intro k inside
      by_contra new
      have fresh : k ∈ t.fresh keys := (t.mem_fresh keys k).mpr ⟨inside, new⟩
      simp [none] at fresh
    refine .inr ⟨pre, by simp [Trace.heard, none], fun k inside => ?_, ?_⟩
    · exact agree k (List.mem_append_left _ (known k inside))
    · simpa [Trace.heard, none] using agree
  · have asked (look : Oracle V) :
        (t.heard look tolerant keys).groups = t.groups ++ [t.fresh keys] := by
      simp [Trace.heard, none]
    rw [asked, groups, List.append_assoc, List.append_assoc] at heard
    cases pre with
    | nil =>
      obtain ⟨rfl, -⟩ := List.cons.inj (List.append_cancel_left heard)
      exact .inl ⟨rfl, asked⟩
    | cons first pre =>
      obtain ⟨rfl, -⟩ := List.cons.inj (List.append_cancel_left heard)
      have agree : ∀ d ∈ (t.asked ++ t.fresh keys) ++ pre.flatten,
          AlikeAnswer (look d) (look' d) := by
        simpa using agree
      refine .inr ⟨pre, by simp [asked], fun k inside => ?_, agree⟩
      refine agree k (List.mem_append_left _ ?_)
      by_cases known : k ∈ t.asked
      · exact List.mem_append_left _ known
      · exact List.mem_append_right _ ((t.mem_fresh keys k).mpr ⟨inside, known⟩)

theorem Computation.Alike.plays_next {good good' : S → Prop}
    {c c' : Computation S V (Except Fault V)} (alike : Alike good good' c c')
    {look look' : Oracle V} {t u u' : Trace V} {r r' : Except Panic (Except Fault V)}
    (plays : Plays look good c t r u) (plays' : Plays look' good' c' t r' u')
    {pre rest : List Group} {group : Group} (groups : u.groups = t.groups ++ pre ++ group :: rest)
    (agree : ∀ d ∈ t.asked ++ pre.flatten, AlikeAnswer (look d) (look' d)) :
    ∃ rest', u'.groups = t.groups ++ pre ++ group :: rest' := by
  induction alike generalizing t u u' r r' pre with
  | done =>
    cases plays with
    | silent quiet => exact quiet.elim
    | done => simp at groups
  | panic =>
    cases plays with
    | silent quiet => exact quiet.elim
    | panic => simp at groups
  | @values keys next next' _ ih =>
    cases plays with
    | silent quiet => exact quiet.elim
    | values plays =>
      cases plays' with
      | silent quiet => exact quiet.elim
      | values plays' =>
        obtain ⟨later, after⟩ := plays.groups
        obtain ⟨later', after'⟩ := plays'.groups
        rcases Trace.heard_before after groups agree with ⟨rfl, here⟩ | ⟨pre', same, heard, agree'⟩
        · exact ⟨later', by rw [after', here]; simp⟩
        · rw [← Trace.heard_congr t false heard] at plays'
          rw [← same] at groups ⊢
          exact ih _ _ (alikeAnswers_answersOf heard).withoutFailures plays plays' groups agree'
  | @outcomes keys next next' _ ih =>
    cases plays with
    | silent quiet => exact quiet.elim
    | outcomes plays =>
      cases plays' with
      | silent quiet => exact quiet.elim
      | outcomes plays' =>
        obtain ⟨later, after⟩ := plays.groups
        obtain ⟨later', after'⟩ := plays'.groups
        rcases Trace.heard_before after groups agree with ⟨rfl, here⟩ | ⟨pre', same, heard, agree'⟩
        · exact ⟨later', by rw [after', here]; simp⟩
        · rw [← Trace.heard_congr t true heard] at plays'
          rw [← same] at groups ⊢
          exact ih _ _ (alikeAnswers_answersOf heard) plays plays' groups agree'
  | blocked _ ih =>
    cases plays with
    | silent quiet => exact quiet.elim
    | blocked plays =>
      cases plays' with
      | silent quiet => exact quiet.elim
      | blocked plays' => exact ih _ plays plays' groups agree
  | left quiet _ ih =>
    obtain ⟨d, next, plays⟩ := plays.next quiet
    exact ih d next plays plays' groups agree
  | right quiet _ ih =>
    obtain ⟨d, next, plays'⟩ := plays'.next quiet
    exact ih d next plays plays' groups agree

namespace Graph

def Matched (g g' : Graph V) : Prop :=
  ∀ d, (g.node d).isFinished = true →
    (g'.node d).isFinished = true ∧ AlikeAnswer (g.outcome? d) (g'.outcome? d)

def Echoes (g : Graph V) (look : Oracle V) (keys : List Key) : Prop :=
  ∀ d ∈ keys, (g.node d).isFinished = true ∧ AlikeAnswer (look d) (g.outcome? d)

variable {g g' g'' : Graph V} {version : Nat} {look : Oracle V} {keys : List Key}

theorem Matched.refl (g : Graph V) : g.Matched g := fun _ finished => ⟨finished, .refl _⟩

theorem Matched.trans (first : g.Matched g') (second : g'.Matched g'') : g.Matched g'' := by
  intro d finished
  obtain ⟨finished, alike⟩ := first d finished
  obtain ⟨finished, alike'⟩ := second d finished
  exact ⟨finished, alike.trans alike'⟩

theorem Matched.of_same (same : ∀ d, (g.node d).isFinished = true →
    Node.SameResult (g.node d) (g'.node d)) :
    g.Matched g' := by
  intro d finished
  have result := same d finished
  rw [outcome?_eq, outcome?_eq, result.outcome?, result.finished]
  exact ⟨finished, .refl _⟩

theorem Results.matched (results : g.Results version g') : g.Matched g' :=
  .of_same fun _ => results.finished

theorem Matched.echoes (matched : g.Matched g') (echoes : g.Echoes look keys) :
    g'.Echoes look keys := by
  intro d inside
  obtain ⟨finished, alike⟩ := echoes d inside
  obtain ⟨finished, alike'⟩ := matched d finished
  exact ⟨finished, alike.trans alike'⟩

theorem Matched.isCyclic (matched : g.Matched g') {k : Key}
    (finished : (g.node k).isFinished = true) :
    (g'.node k).isCyclic = (g.node k).isCyclic := by
  obtain ⟨finished', alike⟩ := matched k finished
  rw [outcome?_eq, outcome?_eq, Node.outcome?, Node.outcome?, if_pos finished, if_pos finished']
    at alike
  unfold Node.isCyclic
  generalize (g.node k).cached = o at alike
  generalize (g'.node k).cached = o' at alike
  cases alike with
  | none => rfl
  | @some o o' alike =>
    cases o <;> cases o' <;> simp only [Alike] at alike
    · rw [alike]
    · rfl

theorem Matched.missing (matched : g.Matched g') (keys : List Key) :
    g'.missing (g.missing keys) = g'.missing keys := by
  unfold Graph.missing
  rw [List.filter_filter]
  refine List.filter_congr fun d _ => ?_
  cases finished : (g.node d).isFinished with
  | false => simp
  | true => simp [(matched d finished).1]

end Graph

namespace Rules

variable (rules : Rules S V) (good : S → Prop)

def Requests (g : Graph V) (k : Key) (pre : List Group) (group : Group) : Prop :=
  ∃ rule look result t rest, rules.get? k.tag = some rule ∧
    (rule k).Plays look good {} result t ∧ t.groups = pre ++ group :: rest ∧
    g.Echoes look pre.flatten

def Settles (g : Graph V) (k : Key) (o : Outcome V) : Prop :=
  ∃ look deps, rules.Gives good look k o deps ∧ g.Echoes look deps.flatten

variable {rules good} {g g' : Graph V} {k : Key} {pre pre' : List Group} {group group' : Group}
  {o o' : Outcome V} {rule : Rule S V} {result : Except Panic (Except Fault V)} {t : Trace V}

theorem Requests.mono (requests : rules.Requests good g k pre group) (matched : g.Matched g') :
    rules.Requests good g' k pre group := by
  obtain ⟨rule, look, result, t, rest, found, plays, groups, echoes⟩ := requests
  exact ⟨rule, look, result, t, rest, found, plays, groups, matched.echoes echoes⟩

theorem Requests.found (requests : rules.Requests good g k pre group) :
    ∃ rule, rules.get? k.tag = some rule := by
  obtain ⟨rule, -, -, -, -, found, -⟩ := requests
  exact ⟨rule, found⟩

theorem Requests.finished (requests : rules.Requests good g k pre group) :
    ∀ d ∈ pre.flatten, (g.node d).isFinished = true := by
  obtain ⟨-, look, -, -, -, -, -, -, echoes⟩ := requests
  exact fun d inside => (echoes d inside).1

theorem Requests.passed (requests : rules.Requests good g k pre group) (earlier : group' ∈ pre) :
    g.missing group' = [] :=
  Graph.missing_eq_nil.mpr fun d inside =>
    requests.finished d (List.mem_flatten_of_mem earlier inside)

theorem Settles.mono (settles : rules.Settles good g k o) (matched : g.Matched g') :
    rules.Settles good g' k o := by
  obtain ⟨look, deps, gives, echoes⟩ := settles
  exact ⟨look, deps, gives, matched.echoes echoes⟩

section

variable (pure : rules.Pure good) (found : rules.get? k.tag = some rule)
  (plays : (rule k).Plays g.outcome? good {} result t)

include pure found plays

theorem Requests.played (requests : rules.Requests good g k pre group) :
    ∃ rest, t.groups = pre ++ group :: rest := by
  obtain ⟨rule', look, result', t', rest, found', plays', groups, echoes⟩ := requests
  cases found.symm.trans found'
  have next := (pure k rule found).plays_next plays' plays (by simpa using groups)
    (by simpa using fun d inside => (echoes d inside).2)
  simpa using next

theorem Settles.played (settles : rules.Settles good g k o) :
    ∃ a, result = .ok a ∧ Recompute.Alike (t.outcome k a) o ∧
      ∀ d ∈ t.groups.flatten, (g.node d).isFinished = true := by
  obtain ⟨look, deps, gives, echoes⟩ := settles
  rcases gives with ⟨none, -⟩ | ⟨rule', a, t', found', plays', complete, alike, rfl⟩
  · simp [none] at found
  · cases found.symm.trans found'
    have asked := (plays'.tidy (Trace.tidy_nil look)).groups
    obtain ⟨rfl, ends⟩ := (pure k rule found).plays plays' plays fun d inside =>
      (echoes d (asked ▸ inside)).2
    rcases ends with ⟨a', b, first, rfl, ends⟩ | ⟨panic, first, -⟩
    · cases first
      exact ⟨b, rfl, ((t'.outcome_alike k ends).symm).trans alike,
        fun d inside => (echoes d inside).1⟩
    · cases first

end

variable (pure : rules.Pure good) (some : ∃ s, good s)

include pure some

theorem Settles.unique (first : rules.Settles good g k o) (second : rules.Settles good g k o') :
    Recompute.Alike o o' := by
  cases found : rules.get? k.tag with
  | none =>
    have failed {o : Outcome V} (settles : rules.Settles good g k o) :
        o = .error (.direct k (.noRule k.tag)) := by
      obtain ⟨look, deps, ⟨-, same, -⟩ | ⟨rule, a, t, known, -⟩, -⟩ := settles
      · exact same
      · simp [found] at known
    rw [failed first, failed second]
    exact .refl _
  | some rule =>
    obtain ⟨s, outside⟩ := some
    have plays :=
      Computation.trial_plays (pure.confined ⟨s, outside⟩ k rule found) g.outcome? outside {}
    obtain ⟨a, same, alike, -⟩ := first.played pure found plays
    obtain ⟨b, same', alike', -⟩ := second.played pure found plays
    cases same.symm.trans same'
    exact alike.symm.trans alike'

theorem Settles.requested (settles : rules.Settles good g k o)
    (requests : rules.Requests good g k pre group) : ∀ d ∈ group, (g.node d).isFinished = true := by
  obtain ⟨rule, found⟩ := requests.found
  obtain ⟨s, outside⟩ := some
  have plays :=
    Computation.trial_plays (pure.confined ⟨s, outside⟩ k rule found) g.outcome? outside {}
  obtain ⟨-, -, -, finished⟩ := settles.played pure found plays
  obtain ⟨rest, groups⟩ := requests.played pure found plays
  intro d inside
  refine finished d (List.mem_flatten_of_mem ?_ inside)
  rw [groups]
  exact List.mem_append_right _ List.mem_cons_self

theorem Requests.compare (first : rules.Requests good g k pre group)
    (second : rules.Requests good g k pre' group') :
    group ∈ pre' ∨ group = group' ∨ group' ∈ pre := by
  obtain ⟨rule, found⟩ := first.found
  obtain ⟨s, outside⟩ := some
  have plays :=
    Computation.trial_plays (pure.confined ⟨s, outside⟩ k rule found) g.outcome? outside {}
  obtain ⟨rest, groups⟩ := first.played pure found plays
  obtain ⟨rest', groups'⟩ := second.played pure found plays
  rcases List.append_eq_append_iff.mp (groups.symm.trans groups') with
    ⟨between, rfl, same⟩ | ⟨between, rfl, same⟩
  · cases between with
    | nil => exact .inr (.inl (List.cons.inj same).1)
    | cons next between =>
      obtain ⟨rfl, -⟩ := List.cons.inj same
      exact .inl (by simp)
  · cases between with
    | nil => exact .inr (.inl (List.cons.inj same).1.symm)
    | cons next between =>
      obtain ⟨rfl, -⟩ := List.cons.inj same
      exact .inr (.inr (by simp))

end Rules

end Recompute
