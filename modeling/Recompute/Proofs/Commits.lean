import Recompute.Proofs.Entries
import Recompute.Proofs.Tally

set_option autoImplicit false

namespace Recompute

variable {S V : Type}

open Progress
open Relation (ReflTransGen)

namespace Event

def committed (events : List Event) : List Key :=
  events.filterMap fun
    | evaluated k _ => some k
    | _ => none

def isStart : Event → Bool
  | computing .. => true
  | _ => false

def isRestart : Event → Bool
  | restarted .. => true
  | _ => false

def isFailure : Event → Bool
  | evaluated _ (.failed _) => true
  | _ => false

theorem committed_append (new old : List Event) :
    committed (new ++ old) = committed new ++ committed old := List.filterMap_append

theorem mem_committed {events : List Event} {k : Key} :
    k ∈ committed events ↔ ∃ ending, evaluated k ending ∈ events := by
  simp only [committed, List.mem_filterMap]
  constructor
  · rintro ⟨e, inside, same⟩
    split at same
    · cases same
      exact ⟨_, inside⟩
    · cases same
  · rintro ⟨ending, inside⟩
    exact ⟨_, inside, rfl⟩

theorem length_endings (events : List Event) (k : Key) :
    (endings events k).length = (committed events).count k := by
  induction events with
  | nil => rfl
  | cons e rest ih =>
    cases e with
    | evaluated l ending =>
      by_cases same : l = k <;> simp_all [endings, committed]
    | _ => simpa [endings, committed] using ih

theorem attempts_counted (events : List Event) (k : Key) :
    attempts (events.filter isCounted) k = attempts events k := by
  rw [attempts, List.countP_filter]
  refine List.countP_congr fun e _ => ?_
  cases e <;> simp [isCounted]

theorem endings_counted (events : List Event) (k : Key) :
    endings (events.filter isCounted) k = endings events k :=
  filterMap_kept events fun e quiet => by cases e <;> simp_all [isCounted]

theorem mem_endings {events : List Event} {k : Key} {ending : Ending} :
    ending ∈ endings events k ↔ evaluated k ending ∈ events := by
  simp only [endings, List.mem_filterMap]
  constructor
  · rintro ⟨e, inside, same⟩
    split at same
    · split at same
      next here =>
        cases same
        exact here ▸ inside
      next => cases same
    · cases same
  · exact fun inside => ⟨_, inside, by simp⟩

end Event

namespace Pass

def concludes (p : Pass S V) : Event → Bool
  | .evaluated _ (.built _) => true
  | .evaluated k (.failed kind) => kind ≠ .cycle && (p.rules.get? k.tag).isSome
  | _ => false

def Fits (p : Pass S V) (k : Key) (n : Node V) : Ending → Prop
  | .built _ | .verified => ∃ v, n.outcome? = some (.ok v)
  | .failed kind => ∃ f, n.outcome? = some (.error f) ∧ f.kind = kind ∧
      (kind ≠ .cycle → p.rules.get? k.tag = none → f = .direct k (.noRule k.tag))

theorem Fits.mono {p : Pass S V} {k : Key} {n m : Node V} {ending : Ending}
    (fits : p.Fits k n ending) (same : m.outcome? = n.outcome?) : p.Fits k m ending := by
  cases ending <;> simpa only [Fits, same] using fits

theorem Fits.finished {p : Pass S V} {k : Key} {n : Node V} {ending : Ending}
    (fits : p.Fits k n ending) : n.isFinished = true := by
  by_contra unfinished
  have none : n.outcome? = none := Node.outcome?_eq_none (by simpa using unfinished)
  cases ending <;> simp [Fits, none] at fits

variable [BEq V] {p : Pass S V} {k : Key} {s s' : Progress S V} {log new : List Event}
  {g₀ : Graph V}

namespace Account

variable (account : p.Account k s s' log) (shape : s.graph.WellFormed)

include account

omit shape in
theorem balance (whole : ¬ p.Cut s') :
    log.countP Event.isStart = log.countP Event.isRestart + log.countP p.concludes := by
  cases account with
  | silent | restart | confirm | fail => rfl
  | lose _ _ _ cut => exact absurd cut whole
  | conclude o deps startable unregistered plain node =>
    unfold Pass.began
    cases found : p.rules.get? k.tag with
    | none =>
      cases unregistered found
      simp [Ending.of, found, concludes, Event.isStart, Event.isRestart]
    | some rule =>
      cases o with
      | ok v => rfl
      | error f =>
        cases f with
        | cycle c => exact absurd rfl (plain c)
        | _ => simp [Ending.of, found, concludes, Event.isStart, Event.isRestart, Failure.kind]

omit shape in
theorem attempts {l : Key} (ne : l ≠ k) : Event.attempts log l = 0 := by
  cases account with
  | silent | confirm | fail => rfl
  | lose | restart => simp [Event.attempts, Ne.symm ne]
  | conclude o deps startable unregistered plain node =>
    unfold Pass.began
    split <;> simp [Event.attempts, Ne.symm ne]

include shape

theorem told (unfinished : (s.graph.node k).isFinished = false) :
    Event.committed log = if (s'.graph.node k).isFinished then [k] else [] := by
  cases account with
  | silent same | lose same | restart _ same =>
    simp [same.finished, unfinished, Event.committed]
  | confirm cause node =>
    have finished := ((shape k).renewed_confirm p.version cause.status).finished
    simp [node.result.finished, finished, Event.committed]
  | conclude o deps startable unregistered plain node =>
    have finished := (Node.renewed_commit (s.graph.node k).begun o deps p.version).finished
    unfold Pass.began
    split <;> simp [node.result.finished, finished, Event.committed]
  | fail cycle node =>
    have finished : ((s.graph.node k).broken cycle p.version).isFinished = true := rfl
    simp [node.result.finished, finished, Event.committed]

theorem fits {l : Key} {ending : Ending} (inside : .evaluated l ending ∈ log) :
    p.Fits l (s'.graph.node l) ending := by
  cases account with
  | silent => simp at inside
  | lose | restart => simp at inside
  | confirm cause node =>
    obtain ⟨rfl, rfl⟩ : l = k ∧ ending = .verified := by simpa using inside
    obtain ⟨v, cached⟩ : ∃ v, (s.graph.node l).cached = some (.ok v) := by
      rcases cause.status with status | status
      · exact ((shape l).verifying status).2.2
      · exact (shape l).done status
    refine ⟨v, node.result.outcome?.trans ?_⟩
    rw [(shape l).confirm_eq cause.status]
    simp [Node.outcome?, Node.isFinished, Node.isDirty, Status.isSettled, cached]
  | conclude o deps startable unregistered plain node =>
    have started : Event.evaluated l ending ∉ p.began k (s.graph.node k) := by
      unfold Pass.began
      split <;> simp
    obtain ⟨rfl, rfl⟩ : l = k ∧ ending = _ := by simpa [started] using inside
    have outcome : (s'.graph.node l).outcome? = some o := by
      rw [node.result.outcome?, Node.outcome?, if_pos (Node.renewed_commit _ o deps _).finished,
        Node.cached_commit]
    cases o with
    | ok v => exact ⟨v, outcome⟩
    | error f =>
      refine ⟨f, outcome, rfl, fun _ none => ?_⟩
      cases unregistered none
      rfl
  | fail cycle node =>
    obtain ⟨rfl, rfl⟩ : l = k ∧ ending = .failed .cycle := by simpa using inside
    exact ⟨.cycle cycle, node.result.outcome?, rfl, fun plain => absurd rfl plain⟩

end Account

-- What a pass that began on `g₀` has told, with `new` events: who has committed is finished and was
-- not before, and has committed once.
structure Booked (p : Pass S V) (g₀ : Graph V) (s : Progress S V) (new : List Event) : Prop where
  once : (Event.committed new).Nodup
  stays : ∀ k, (g₀.node k).isFinished = true → (s.graph.node k).isFinished = true
  committed : ∀ k, (g₀.node k).isFinished = false → (s.graph.node k).isFinished = true →
    k ∈ Event.committed new
  before : ∀ k ∈ Event.committed new, (g₀.node k).isFinished = false
  fits : ∀ k ending, .evaluated k ending ∈ new → p.Fits k (s.graph.node k) ending
  balance : ¬ p.Cut s →
    new.countP Event.isStart = new.countP Event.isRestart + new.countP p.concludes

namespace Booked

omit [BEq V] in
theorem nil (s : Progress S V) : p.Booked s.graph s [] where
  once := .nil
  stays _ finished := finished
  committed k unfinished finished := by simp [unfinished] at finished
  before := by simp [Event.committed]
  fits := by simp
  balance _ := rfl

omit [BEq V] in
theorem of_node (booked : p.Booked g₀ s new) (node : s'.graph.node = s.graph.node)
    (cut : p.Cut s → p.Cut s') : p.Booked g₀ s' new where
  once := booked.once
  stays := node ▸ booked.stays
  committed := node ▸ booked.committed
  before := booked.before
  fits := node ▸ booked.fits
  balance whole := booked.balance fun gone => whole (cut gone)

theorem entry (booked : p.Booked g₀ s new) (entry : p.Entry k s s' log)
    (shape : s.graph.WellFormed) (cut : p.Cut s → p.Cut s') : p.Booked g₀ s' (log ++ new) := by
  obtain ⟨unfinished, others, -, -, account⟩ := entry
  have told := account.told shape unfinished
  have others' {l : Key} (ne : l ≠ k) : (s'.graph.node l).isFinished = (s.graph.node l).isFinished :=
    (others l ne).result.finished
  have open₀ : (g₀.node k).isFinished = false := by
    by_contra finished
    simp [booked.stays k (by simpa using finished)] at unfinished
  have fresh : k ∉ Event.committed new := by
    intro inside
    obtain ⟨ending, inside⟩ := Event.mem_committed.mp inside
    simp [(booked.fits k ending inside).finished] at unfinished
  have mem (l : Key) : l ∈ Event.committed (log ++ new) ↔
      l = k ∧ (s'.graph.node k).isFinished = true ∨ l ∈ Event.committed new := by
    rw [Event.committed_append, told, List.mem_append]
    split <;> simp_all
  constructor
  case once =>
    rw [Event.committed_append, told]
    split
    · exact List.nodup_cons.mpr ⟨fresh, booked.once⟩
    · exact booked.once
  case stays =>
    intro l finished
    have ne : l ≠ k := by
      rintro rfl
      simp [finished] at open₀
    exact (others' ne).trans (booked.stays l finished)
  case committed =>
    intro l before finished
    refine (mem l).mpr ?_
    by_cases ne : l = k
    · exact .inl ⟨ne, ne ▸ finished⟩
    · exact .inr (booked.committed l before (others' ne ▸ finished))
  case before =>
    intro l inside
    rcases (mem l).mp inside with ⟨rfl, -⟩ | old
    · exact open₀
    · exact booked.before l old
  case fits =>
    intro l ending inside
    rcases List.mem_append.mp inside with now | old
    · exact account.fits shape now
    · have ne : l ≠ k := fun same => fresh (same ▸ Event.mem_committed.mpr ⟨ending, old⟩)
      exact (booked.fits l ending old).mono (others l ne).result.outcome?
  case balance =>
    intro whole
    have now := account.balance whole
    have old := booked.balance fun gone => whole (cut gone)
    simp only [List.countP_append]
    omega

theorem all (goes : ReflTransGen p.Goes s s') (underway : s.GroundedRun p.version) :
    ∃ new, s'.world.counted = new ++ s.world.counted ∧ p.Booked s.graph s' new := by
  induction goes with
  | refl => exact ⟨[], rfl, .nil s⟩
  | tail before next ih =>
    obtain ⟨new, told, booked⟩ := ih
    have shape := (underway_of_goes before underway).shape
    rcases next.entry shape with ⟨node, same, -⟩ | ⟨k, log, entry⟩
    · exact ⟨new, same.trans told, booked.of_node node next.cut⟩
    · refine ⟨log ++ new, ?_, booked.entry entry shape next.cut⟩
      rw [entry.told, told, List.append_assoc]

omit [BEq V] in
theorem ending (booked : p.Booked g₀ s new) (unfinished : (g₀.node k).isFinished = false)
    (finished : (s.graph.node k).isFinished = true) : ∃ ending, Event.endings new k = [ending] := by
  have once := List.count_eq_one_of_mem booked.once (booked.committed k unfinished finished)
  exact List.length_eq_one_iff.mp ((Event.length_endings new k).trans once)

end Booked

theorem counted_of_calls {w : World S V} {l : Ledger S V}
    (calls : ReflTransGen p.Calls { state := { world := w } } l) :
    l.state.stats = Stats.tellAll (w.since l.state.world) {} ∧
      l.state.world.counted = (w.since l.state.world).filter Event.isCounted ++ w.counted := by
  obtain ⟨events, history, stats, -⟩ := told_calls calls
  have history : l.state.world.history = events ++ w.history := history
  have since : w.since l.state.world = events := by simp [World.since, history]
  rw [since]
  exact ⟨stats, by rw [World.counted, history, List.filter_append]; rfl⟩

theorem Booked.of_calls {w : World S V} {l : Ledger S V}
    (calls : ReflTransGen p.Calls { state := { world := w } } l)
    (goes : ReflTransGen p.Goes { world := w } l.state)
    (underway : Progress.GroundedRun p.version { world := w }) :
    p.Booked w.graph l.state ((w.since l.state.world).filter Event.isCounted) := by
  obtain ⟨new, counted, booked⟩ := all goes underway
  obtain ⟨-, counted'⟩ := counted_of_calls calls
  exact List.append_cancel_right (counted'.symm.trans counted) ▸ booked

theorem Goes.final (goes : p.Goes s s') (underway : s.GroundedRun p.version) {k : Key}
    (finished : (s.graph.node k).isFinished = true) :
    (∃ dependents, s'.graph.node k = { s.graph.node k with dependents }) ∧
      Event.attempts s'.world.counted k = Event.attempts s.world.counted k := by
  have shape := underway.shape
  have shape' := (goes.underway underway).shape
  rcases goes.entry shape with ⟨node, same, -⟩ | ⟨l, log, unfinished, others, told, -, account⟩
  · rw [node, same]
    exact ⟨⟨_, rfl⟩, rfl⟩
  · have ne : k ≠ l := by
      rintro rfl
      simp [unfinished] at finished
    refine ⟨(others k ne).finished (shape k) (shape' k) finished, ?_⟩
    have none : log.countP _ = 0 := account.attempts ne
    rw [told, Event.attempts, List.countP_append, none, Nat.zero_add]
    rfl

theorem final_of_goes (goes : ReflTransGen p.Goes s s') (underway : s.GroundedRun p.version)
    {k : Key}
    (finished : (s.graph.node k).isFinished = true) :
    (∃ dependents, s'.graph.node k = { s.graph.node k with dependents }) ∧
      Event.attempts s'.world.counted k = Event.attempts s.world.counted k := by
  induction goes with
  | refl => exact ⟨⟨_, rfl⟩, rfl⟩
  | tail before next ih =>
    obtain ⟨⟨dependents, node⟩, attempts⟩ := ih
    have still : (Node.isFinished { s.graph.node k with dependents }) = true := finished
    obtain ⟨⟨dependents', node'⟩, attempts'⟩ :=
      next.final (underway_of_goes before underway) (node ▸ still)
    exact ⟨⟨dependents', by rw [node', node]⟩, attempts'.trans attempts⟩

end Pass

namespace Engine

variable [BEq V] {rules : Rules S V} {listener : Listener} {e : Engine S V}

end Engine

end Recompute
