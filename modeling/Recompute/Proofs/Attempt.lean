import Recompute.Proofs.Request
import Mathlib.Data.List.Forall2

set_option autoImplicit false

namespace Recompute

variable {S V α : Type}

namespace Computation

def Silent (good : S → Prop) : Computation S V α → Prop
  | .version _ | .interrupted _ | .outside _ | .note _ _ | .interrupt _ _ => True
  | .setOutside s _ => good s
  | _ => False

def Next (good : S → Prop) : Computation S V α → Computation S V α → Prop
  | .version next, c => ∃ n, c = next n
  | .interrupted next, c => ∃ b, c = next b
  | .outside next, c => ∃ s, good s ∧ c = next s
  | .setOutside _ next, c | .note _ next, c | .interrupt _ next, c => c = next
  | _, _ => False

-- Reaches the graph through requests only, as long as it finds `good` outside.
inductive Confined (good : S → Prop) : Computation S V α → Prop
  | done (a : α) : Confined good (.done a)
  | panic (p : Panic) : Confined good (.panic p)
  | values {keys : List Key} {next : Table Key (Option V) → Computation S V α} :
      (∀ answers, Confined good (next answers)) → Confined good (.values keys next)
  | outcomes {keys : List Key} {next : Answers V → Computation S V α} :
      (∀ answers, Confined good (next answers)) → Confined good (.outcomes keys next)
  | blocked {next : Bool → Computation S V α} :
      (∀ b, Confined good (next b)) → Confined good (.blocked next)
  | silent {c : Computation S V α} :
      Silent good c → (∀ c', Next good c c' → Confined good c') → Confined good c

theorem confined_need_bind {V β : Type} {good : S → Prop} (k : Key)
    {next : Except Fault V → Computation S V β} (confined : ∀ answer, (next answer).Confined good) :
    Confined good (need k >>= next) := by
  refine .values fun answers => ?_
  simp only [bind]
  cases (Table.get? answers k).join <;> exact confined _

theorem confined_need {V : Type} {good : S → Prop} (k : Key) :
    Confined good (need k : Computation S V (Except Fault V)) := by
  rw [← bind_pure (need k)]
  exact confined_need_bind k .done

-- A way in which a computation may go whose requests are answered by `look`, with the trace that it
-- leaves.
inductive Plays (look : Oracle V) (good : S → Prop) :
    Computation S V α → Trace V → Except Panic α → Trace V → Prop
  | done (a : α) (t : Trace V) : Plays look good (.done a) t (.ok a) t
  | panic (p : Panic) (t : Trace V) : Plays look good (.panic p) t (.error p) t
  | values {keys : List Key} {next : Table Key (Option V) → Computation S V α} {t u : Trace V}
      {r : Except Panic α} :
      Plays look good (next (answersOf look keys).withoutFailures) (t.heard look false keys) r u →
      Plays look good (.values keys next) t r u
  | outcomes {keys : List Key} {next : Answers V → Computation S V α} {t u : Trace V}
      {r : Except Panic α} :
      Plays look good (next (answersOf look keys)) (t.heard look true keys) r u →
      Plays look good (.outcomes keys next) t r u
  | blocked {next : Bool → Computation S V α} {t u : Trace V} {r : Except Panic α} :
      Plays look good (next t.blocked) t r u → Plays look good (.blocked next) t r u
  | silent {c c' : Computation S V α} {t u : Trace V} {r : Except Panic α} :
      Silent good c → Next good c c' → Plays look good c' t r u → Plays look good c t r u

end Computation

structure Trace.Tidy (look : Oracle V) (t : Trace V) : Prop where
  once : t.asked.Nodup
  groups : t.groups.flatten = t.asked
  absent : t.absent = t.asked.filter fun k => (look k).isNone
  failures : ∀ f ∈ t.failures, ∃ k ∈ t.asked, look k = some (.error f)

theorem Trace.tidy_nil (look : Oracle V) : ({} : Trace V).Tidy look := by
  constructor <;> simp

theorem Trace.Tidy.heard {look : Oracle V} {t : Trace V} (tidy : t.Tidy look) (tolerant : Bool)
    (keys : List Key) : (t.heard look tolerant keys).Tidy look where
  once := by
    refine List.nodup_append.mpr ⟨tidy.once, nodup_union .nil _, ?_⟩
    rintro k old _ new rfl
    exact ((t.mem_fresh keys k).mp new).2 old
  groups := by
    by_cases none : t.fresh keys = [] <;> simp [Trace.heard, none, tidy.groups]
  absent := by simp [Trace.heard, tidy.absent]
  failures := by
    intro f inside
    rcases List.mem_append.mp inside with old | new
    · obtain ⟨k, asked, found⟩ := tidy.failures f old
      exact ⟨k, List.mem_append_left _ asked, found⟩
    · cases tolerant with
      | true => simp at new
      | false =>
        obtain ⟨k, inside, found⟩ := List.mem_filterMap.mp (by simpa using new)
        have asked : k ∈ t.asked ++ t.fresh keys := by
          by_cases known : k ∈ t.asked <;> simp [known, inside]
        refine ⟨k, asked, ?_⟩
        rcases answer : look k with _ | _ | _ <;> simp_all [Outcome.failure?]

def Event.isCounted : Event → Bool
  | computing .. | restarted .. | evaluated .. => true
  | enqueued .. | invalidated .. | noted .. => false

def World.counted (w : World S V) : List Event := w.history.filter Event.isCounted

namespace Computation

theorem Plays.tidy {look : Oracle V} {good : S → Prop} {c : Computation S V α} {t u : Trace V}
    {r : Except Panic α} (plays : Plays look good c t r u) (tidy : t.Tidy look) : u.Tidy look := by
  induction plays with
  | done | panic => exact tidy
  | values _ ih => exact ih (tidy.heard false _)
  | outcomes _ ih => exact ih (tidy.heard true _)
  | blocked _ ih | silent _ _ _ ih => exact ih tidy

structure Ran (good : S → Prop) (t : Trace V) (w : World S V) (u : Trace V) (w' : World S V) :
    Prop where
  node : ∀ k, w'.graph.node k = w.graph.node k
  version : w'.graph.version = w.graph.version
  known : u.known w'.graph = t.known w.graph
  remembers : ∀ k o, t.memo.get? k = some o → u.memo.get? k = some o
  memo : ∀ k o, u.memo.get? k = some o → t.known w.graph k = some o
  asked : ∃ later, u.asked = t.asked ++ later ∧ ∀ k ∈ later, u.memo.get? k = t.known w.graph k
  outside : good w'.outside
  handles : w'.handles = w.handles
  interrupted : ∀ h ∈ w.interrupted, h ∈ w'.interrupted
  counted : w'.counted = w.counted

theorem Ran.refl {good : S → Prop} (t : Trace V) {w : World S V} (outside : good w.outside) :
    Ran good t w t w := by
  refine ⟨fun _ => rfl, rfl, rfl, fun _ _ h => h, ?_, ⟨[], by simp⟩, outside, rfl, fun _ h => h,
    rfl⟩
  intro k o remembered
  simp [Trace.known, remembered]

theorem Ran.trans {good : S → Prop} {t t' t'' : Trace V} {w w' w'' : World S V}
    (first : Ran good t w t' w') (second : Ran good t' w' t'' w'') : Ran good t w t'' w'' where
  node k := (second.node k).trans (first.node k)
  version := second.version.trans first.version
  known := second.known.trans first.known
  remembers k o remembered := second.remembers k o (first.remembers k o remembered)
  memo k o remembered := first.known ▸ second.memo k o remembered
  asked := by
    obtain ⟨later, asked, memo⟩ := first.asked
    obtain ⟨latest, asked', memo'⟩ := second.asked
    refine ⟨later ++ latest, by simp [asked, asked'], ?_⟩
    intro k inside
    rcases List.mem_append.mp inside with inside | inside
    · cases found : t'.memo.get? k with
      | none =>
        have unknown := (memo k inside).symm.trans found
        cases found' : t''.memo.get? k with
        | none => exact unknown.symm
        | some o =>
          have recalled := first.known ▸ second.memo k o found'
          exact recalled.symm
      | some o => rw [second.remembers k o found, ← memo k inside, found]
    · rw [memo' k inside, first.known]
  outside := second.outside
  handles := second.handles.trans first.handles
  interrupted h inside := second.interrupted h (first.interrupted h inside)
  counted := second.counted.trans first.counted

theorem ran_request {good : S → Prop} (t : Trace V) {w : World S V} (outside : good w.outside)
    (tolerant : Bool) (keys : List Key) :
    Ran good t w (t.request tolerant keys w.graph).2.1
      { w with graph := (t.request tolerant keys w.graph).2.2 } := by
  have memo := t.request_memo w.graph tolerant keys
  constructor
  case node => simp
  case version => simp
  case known => exact t.request_known w.graph tolerant keys
  case remembers =>
    intro k o remembered
    rw [memo]
    split <;> simp [Trace.known, remembered]
  case memo =>
    intro k o remembered
    rw [memo] at remembered
    split at remembered
    · exact remembered
    · simp [Trace.known, remembered]
  case asked =>
    have reads := t.request_reads w.graph tolerant keys
    refine ⟨t.fresh keys, congrArg Trace.asked reads, ?_⟩
    intro k inside
    rw [memo, if_pos (t.mem_fresh keys k |>.mp inside).1]
  case outside => exact outside
  case handles => rfl
  case interrupted => exact fun _ h => h
  case counted => rfl

theorem run_silent [BEq V] {good : S → Prop} {c : Computation S V α} (silent : Silent good c)
    (scope : Scope) (t : Trace V) {w : World S V} (outside : good w.outside) :
    ∃ c' w', Next good c c' ∧ c.run scope t w = c'.run scope t w' ∧ Ran good t w t w' := by
  cases c <;> simp only [Silent] at silent
  case version next => exact ⟨_, w, ⟨_, rfl⟩, rfl, .refl t outside⟩
  case interrupted next => exact ⟨_, w, ⟨_, rfl⟩, rfl, .refl t outside⟩
  case outside next => exact ⟨_, w, ⟨_, outside, rfl⟩, rfl, .refl t outside⟩
  case setOutside s next =>
    exact ⟨_, { w with outside := s }, rfl, rfl, { Ran.refl t outside with outside := silent }⟩
  case note text next => exact ⟨_, _, rfl, rfl, { Ran.refl t outside with outside := outside }⟩
  case interrupt h next =>
    refine ⟨_, w.interrupt h, rfl, rfl, ?_⟩
    unfold World.interrupt
    split
    · exact .refl t outside
    · exact { Ran.refl t outside with interrupted := fun _ inside => List.mem_cons_of_mem _ inside }

theorem run_plays [BEq V] {good : S → Prop} {c : Computation S V α} (confined : Confined good c)
    (scope : Scope) (t : Trace V) (w : World S V) (outside : good w.outside) :
    Plays (t.known w.graph) good c t.reads (c.run scope t w).1 (c.run scope t w).2.1.reads ∧
      Ran good t w (c.run scope t w).2.1 (c.run scope t w).2.2 := by
  induction confined generalizing t w with
  | done a => exact ⟨.done a _, .refl t outside⟩
  | panic p => exact ⟨.panic p _, .refl t outside⟩
  | @values keys next _ ih =>
    have asked : Ran good t w _ _ := ran_request t outside false keys
    obtain ⟨plays, ran⟩ := ih (answersOf (t.known w.graph) keys).withoutFailures
      (t.request false keys w.graph).2.1 { w with graph := (t.request false keys w.graph).2.2 } outside
    rw [asked.known, t.request_reads w.graph] at plays
    have run : (Computation.values keys next).run scope t w =
        (next (answersOf (t.known w.graph) keys).withoutFailures).run scope
          (t.request false keys w.graph).2.1
          { w with graph := (t.request false keys w.graph).2.2 } := by
      rw [← t.request_answers w.graph false keys]
      rfl
    rw [run]
    exact ⟨.values plays, asked.trans ran⟩
  | @outcomes keys next _ ih =>
    have asked : Ran good t w _ _ := ran_request t outside true keys
    obtain ⟨plays, ran⟩ := ih (answersOf (t.known w.graph) keys)
      (t.request true keys w.graph).2.1 { w with graph := (t.request true keys w.graph).2.2 } outside
    rw [asked.known, t.request_reads w.graph] at plays
    have run : (Computation.outcomes keys next).run scope t w =
        (next (answersOf (t.known w.graph) keys)).run scope (t.request true keys w.graph).2.1
          { w with graph := (t.request true keys w.graph).2.2 } := by
      rw [← t.request_answers w.graph true keys]
      rfl
    rw [run]
    exact ⟨.outcomes plays, asked.trans ran⟩
  | @blocked next _ ih =>
    obtain ⟨plays, ran⟩ := ih t.blocked t w outside
    exact ⟨.blocked plays, ran⟩
  | @silent c quiet _ ih =>
    obtain ⟨c', w', next, run, ran⟩ := run_silent quiet scope t outside
    obtain ⟨plays, ran'⟩ := ih c' next t w' ran.outside
    rw [ran.known] at plays
    rw [run]
    exact ⟨.silent quiet next plays, ran.trans ran'⟩

end Computation

end Recompute
