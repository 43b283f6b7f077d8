import Recompute.Proofs.Attempt
import Mathlib.Data.List.Forall2
import Mathlib.Logic.Relation

set_option autoImplicit false

namespace Recompute

variable {S V : Type} [BEq V]

-- Values that no reader tells apart: equal ones, and those that a chain of equal ones links.
def Indistinct : V → V → Prop := Relation.EqvGen fun v w => (v == w) = true

theorem indistinct_iff [EquivBEq V] {v w : V} : Indistinct v w ↔ (v == w) = true := by
  constructor
  · intro indistinct
    induction indistinct with
    | rel _ _ equal => exact equal
    | refl => exact BEq.rfl
    | symm _ _ _ ih => exact BEq.symm ih
    | trans _ _ _ _ _ first second => exact BEq.trans first second
  · exact fun equal => Relation.EqvGen.rel v w equal

def Alike {ε : Type} : Except ε V → Except ε V → Prop
  | .ok v, .ok w => Indistinct v w
  | .error e, .error f => e = f
  | _, _ => False

namespace Alike

variable {ε : Type}

theorem refl (a : Except ε V) : Alike a a := by
  cases a with
  | error => rfl
  | ok v => exact Relation.EqvGen.refl v

theorem symm {a b : Except ε V} (alike : Alike a b) : Alike b a := by
  cases a <;> cases b <;> simp only [Alike] at alike ⊢
  · exact alike.symm
  · exact Relation.EqvGen.symm _ _ alike

theorem trans {a b c : Except ε V} (first : Alike a b) (second : Alike b c) : Alike a c := by
  cases a <;> cases b <;> cases c <;> simp only [Alike] at first second ⊢
  · exact first.trans second
  · exact Relation.EqvGen.trans _ _ _ first second

end Alike

abbrev AlikeAnswer : Option (Outcome V) → Option (Outcome V) → Prop := Option.Rel Alike

theorem AlikeAnswer.refl (o : Option (Outcome V)) : AlikeAnswer o o := by
  cases o with
  | none => exact .none
  | some o => exact .some (Alike.refl o)

theorem AlikeAnswer.symm {a b : Option (Outcome V)} (alike : AlikeAnswer a b) :
    AlikeAnswer b a := by
  cases alike with
  | none => exact .none
  | some alike => exact .some alike.symm

theorem AlikeAnswer.trans {a b c : Option (Outcome V)} (first : AlikeAnswer a b)
    (second : AlikeAnswer b c) : AlikeAnswer a c := by
  cases first with
  | none => exact second
  | some first =>
    cases second with
    | some second => exact .some (first.trans second)

abbrev AlikeAnswers : Answers V → Answers V → Prop :=
  List.Forall₂ fun a b => a.1 = b.1 ∧ AlikeAnswer a.2 b.2

abbrev AlikeValues : Table Key (Option V) → Table Key (Option V) → Prop :=
  List.Forall₂ fun a b => a.1 = b.1 ∧ Option.Rel Indistinct a.2 b.2

theorem AlikeAnswers.withoutFailures {a b : Answers V} (alike : AlikeAnswers a b) :
    AlikeValues a.withoutFailures b.withoutFailures := by
  induction alike with
  | nil => exact .nil
  | @cons x y xs ys head _ ih =>
    obtain ⟨k, o⟩ := x
    obtain ⟨l, o'⟩ := y
    obtain ⟨same, outcomes⟩ := head
    refine .cons ⟨same, ?_⟩ ih
    cases outcomes with
    | none => exact .none
    | @some a b alike =>
      cases a <;> cases b
      case ok.ok => exact .some alike
      case error.error => exact .none
      all_goals exact alike.elim

theorem alikeAnswers_answersOf {look look' : Oracle V} {keys : List Key}
    (agree : ∀ k ∈ keys, AlikeAnswer (look k) (look' k)) :
    AlikeAnswers (answersOf look keys) (answersOf look' keys) := by
  unfold answersOf AlikeAnswers
  rw [List.forall₂_map_left_iff, List.forall₂_map_right_iff, List.forall₂_same]
  intro k inside
  exact ⟨rfl, agree k (by simpa [mem_union] using inside)⟩

theorem AlikeAnswer.isNone {o o' : Option (Outcome V)} (alike : AlikeAnswer o o') :
    o.isNone = o'.isNone := by
  cases alike <;> rfl

theorem AlikeAnswer.failure {o o' : Option (Outcome V)} (alike : AlikeAnswer o o') :
    o.bind Outcome.failure? = o'.bind Outcome.failure? := by
  cases alike with
  | none => rfl
  | @some o o' alike => cases o <;> cases o' <;> simp_all [Alike, Outcome.failure?]

theorem AlikeValues.get? {a b : Table Key (Option V)} (alike : AlikeValues a b) (k : Key) :
    Option.Rel Indistinct (Table.get? a k).join (Table.get? b k).join := by
  induction alike with
  | nil => exact .none
  | @cons x y _ _ head _ ih =>
    obtain ⟨l, v⟩ := x
    obtain ⟨l', w⟩ := y
    obtain ⟨rfl, values⟩ := head
    by_cases here : l = k
    · simpa [Table.get?, here] using values
    · simpa [Table.get?, here] using ih

namespace Trace

omit [BEq V] in
theorem mem_asked_heard {t : Trace V} {look : Oracle V} {tolerant : Bool} {keys : List Key}
    {k : Key} : k ∈ (t.heard look tolerant keys).asked ↔ k ∈ t.asked ∨ k ∈ keys := by
  by_cases asked : k ∈ t.asked <;> simp [heard, asked]

theorem heard_congr (t : Trace V) {look look' : Oracle V} (tolerant : Bool) {keys : List Key}
    (agree : ∀ k ∈ keys, AlikeAnswer (look k) (look' k)) :
    t.heard look tolerant keys = t.heard look' tolerant keys := by
  have absent : ((t.fresh keys).filter fun k => (look k).isNone) =
      (t.fresh keys).filter fun k => (look' k).isNone := by
    apply List.filter_congr
    intro k inside
    exact (agree k ((t.mem_fresh keys k).mp inside).1).isNone
  have failures : (keys.filterMap fun k => (look k).bind Outcome.failure?) =
      keys.filterMap fun k => (look' k).bind Outcome.failure? := by
    apply List.filterMap_congr
    intro k inside
    exact (agree k inside).failure
  simp only [heard, absent, failures]

end Trace

namespace Computation

-- Two computations that go alike as long as they are answered alike, the first one with `good` and
-- the second one with `good'` outside. Silent steps need not match.
inductive Alike (good good' : S → Prop) :
    Computation S V (Except Fault V) → Computation S V (Except Fault V) → Prop
  | done {a b : Except Fault V} : Recompute.Alike a b → Alike good good' (.done a) (.done b)
  | panic (p : Panic) : Alike good good' (.panic p) (.panic p)
  | values {keys : List Key}
      {next next' : Table Key (Option V) → Computation S V (Except Fault V)} :
      (∀ a b, AlikeValues a b → Alike good good' (next a) (next' b)) →
      Alike good good' (.values keys next) (.values keys next')
  | outcomes {keys : List Key} {next next' : Answers V → Computation S V (Except Fault V)} :
      (∀ a b, AlikeAnswers a b → Alike good good' (next a) (next' b)) →
      Alike good good' (.outcomes keys next) (.outcomes keys next')
  | blocked {next next' : Bool → Computation S V (Except Fault V)} :
      (∀ b, Alike good good' (next b) (next' b)) →
      Alike good good' (.blocked next) (.blocked next')
  | left {c c' : Computation S V (Except Fault V)} : Silent good c →
      (∀ d, Next good c d → Alike good good' d c') → Alike good good' c c'
  | right {c c' : Computation S V (Except Fault V)} : Silent good' c' →
      (∀ d, Next good' c' d → Alike good good' c d) → Alike good good' c c'

omit [BEq V] in
theorem Silent.next {α : Type} {good : S → Prop} {c : Computation S V α} (some : ∃ s, good s)
    (silent : Silent good c) : ∃ d, Next good c d := by
  obtain ⟨s, outside⟩ := some
  cases c <;> simp only [Silent] at silent
  case version next => exact ⟨next 0, 0, rfl⟩
  case interrupted next => exact ⟨next false, false, rfl⟩
  case outside next => exact ⟨next s, s, outside, rfl⟩
  case setOutside next => exact ⟨next, rfl⟩
  case note next => exact ⟨next, rfl⟩
  case interrupt next => exact ⟨next, rfl⟩

theorem Alike.confined {good good' : S → Prop} (some : ∃ s, good' s)
    {c c' : Computation S V (Except Fault V)} (alike : Alike good good' c c') :
    Confined good c := by
  induction alike with
  | done => exact .done _
  | panic p => exact .panic p
  | values _ ih =>
    refine .values fun a => ih a a (List.forall₂_same.mpr fun entry _ => ⟨rfl, ?_⟩)
    cases entry.2 with
    | none => exact .none
    | some v => exact .some (Relation.EqvGen.refl v)
  | outcomes _ ih =>
    exact .outcomes fun a => ih a a (List.forall₂_same.mpr fun entry _ => ⟨rfl, .refl entry.2⟩)
  | blocked _ ih => exact .blocked ih
  | left silent _ ih => exact .silent silent ih
  | right silent _ ih =>
    obtain ⟨d, next⟩ := silent.next some
    exact ih d next

omit [BEq V] in
theorem Plays.next {α : Type} {look : Oracle V} {good : S → Prop} {c : Computation S V α}
    {t u : Trace V} {r : Except Panic α} (plays : Plays look good c t r u)
    (silent : Silent good c) : ∃ d, Next good c d ∧ Plays look good d t r u := by
  cases plays with
  | silent _ next plays => exact ⟨_, next, plays⟩
  | _ => exact silent.elim

omit [BEq V] in
theorem Plays.asked {α : Type} {look : Oracle V} {good : S → Prop} {c : Computation S V α}
    {t u : Trace V} {r : Except Panic α} (plays : Plays look good c t r u) {k : Key}
    (inside : k ∈ t.asked) : k ∈ u.asked := by
  induction plays with
  | done | panic => exact inside
  | values _ ih | outcomes _ ih => exact ih (Trace.mem_asked_heard.mpr (.inl inside))
  | blocked _ ih | silent _ _ _ ih => exact ih inside

theorem Alike.plays {good good' : S → Prop} {c c' : Computation S V (Except Fault V)}
    (alike : Alike good good' c c') {look look' : Oracle V} {t u u' : Trace V}
    {r r' : Except Panic (Except Fault V)} (plays : Plays look good c t r u)
    (plays' : Plays look' good' c' t r' u')
    (agree : ∀ k ∈ u.asked, AlikeAnswer (look k) (look' k)) :
    u = u' ∧ ((∃ a b, r = .ok a ∧ r' = .ok b ∧ Recompute.Alike a b) ∨
      ∃ p, r = .error p ∧ r' = .error p) := by
  induction alike generalizing t u u' r r' with
  | @done a b alike =>
    cases plays with
    | silent quiet => exact quiet.elim
    | done =>
      cases plays' with
      | silent quiet => exact quiet.elim
      | done => exact ⟨rfl, .inl ⟨a, b, rfl, rfl, alike⟩⟩
  | panic p =>
    cases plays with
    | silent quiet => exact quiet.elim
    | panic =>
      cases plays' with
      | silent quiet => exact quiet.elim
      | panic => exact ⟨rfl, .inr ⟨p, rfl, rfl⟩⟩
  | @values keys next next' _ ih =>
    cases plays with
    | silent quiet => exact quiet.elim
    | values plays =>
      cases plays' with
      | silent quiet => exact quiet.elim
      | values plays' =>
        have heard : ∀ k ∈ keys, AlikeAnswer (look k) (look' k) := fun k inside =>
          agree k (plays.asked (Trace.mem_asked_heard.mpr (.inr inside)))
        rw [← Trace.heard_congr t false heard] at plays'
        exact ih _ _ (alikeAnswers_answersOf heard).withoutFailures plays plays' agree
  | @outcomes keys next next' _ ih =>
    cases plays with
    | silent quiet => exact quiet.elim
    | outcomes plays =>
      cases plays' with
      | silent quiet => exact quiet.elim
      | outcomes plays' =>
        have heard : ∀ k ∈ keys, AlikeAnswer (look k) (look' k) := fun k inside =>
          agree k (plays.asked (Trace.mem_asked_heard.mpr (.inr inside)))
        rw [← Trace.heard_congr t true heard] at plays'
        exact ih _ _ (alikeAnswers_answersOf heard) plays plays' agree
  | blocked _ ih =>
    cases plays with
    | silent quiet => exact quiet.elim
    | blocked plays =>
      cases plays' with
      | silent quiet => exact quiet.elim
      | blocked plays' => exact ih _ plays plays' agree
  | left quiet _ ih =>
    obtain ⟨d, next, plays⟩ := plays.next quiet
    exact ih d next plays plays' agree
  | right quiet _ ih =>
    obtain ⟨d, next, plays'⟩ := plays'.next quiet
    exact ih d next plays plays' agree

theorem Alike.need_bind {good good' : S → Prop} (k : Key)
    {next : Except Fault V → Computation S V (Except Fault V)}
    (alike : ∀ a b, Recompute.Alike a b → Alike good good' (next a) (next b)) :
    Alike good good' (Computation.need k >>= next) (Computation.need k >>= next) := by
  refine .values fun a b values => ?_
  have answers := values.get? k
  simp only [Computation.bind]
  generalize (Table.get? a k).join = answer at answers ⊢
  generalize (Table.get? b k).join = answer' at answers ⊢
  cases answers with
  | none => exact alike _ _ rfl
  | some values => exact alike _ _ values

theorem Alike.need (good good' : S → Prop) (k : Key) :
    Alike (V := V) good good' (Computation.need k) (Computation.need k) := by
  rw [← bind_pure (Computation.need k)]
  exact .need_bind k fun _ _ alike => .done alike

end Computation

-- What the rules do depends on the answers to their requests only, as long as they find `good`
-- outside, and equal answers are not told apart.
def Rules.Pure (rules : Rules S V) (good : S → Prop) : Prop :=
  ∀ k rule, rules.get? k.tag = some rule → Computation.Alike good good (rule k) (rule k)

end Recompute
