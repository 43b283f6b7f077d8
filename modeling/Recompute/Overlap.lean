import Recompute.Engine
import Mathlib.Data.List.Perm.Basic
import Mathlib.Logic.Relation

set_option autoImplicit false

namespace Recompute

open Relation (ReflTransGen)

variable {S V : Type}

-- A pass whose runs overlap. Of each run that is under way it has what is left of the work.
structure Crew (S V : Type) where
  state : Progress S V
  ready : List Key
  runs : List (Work S V (List Key)) := []

def Config.admits (c : Config) (running : Nat) : Bool := c.poolSize.all (running < ·)

namespace Pass

variable [BEq V] (p : Pass S V) (config : Config) (roots : List Key)

def crew (w : World S V) : Crew S V :=
  let (ready, state) := p.enqueueAll roots { world := w }
  { state, ready }

-- What happens next: a worker that is free takes up a ready key, whichever it is, one of the runs
-- goes on or ends, or cycles are broken once nobody works and nothing is ready.
inductive Overlaps : Crew S V → Crew S V → Prop
  | take {s : Progress S V} {ready rest : List Key} {runs : List (Work S V (List Key))} (k : Key)
      (pick : ready.Perm (k :: rest)) (free : config.admits runs.length = true) :
      Overlaps ⟨s, ready, runs⟩ ⟨s, rest, runs ++ [p.work k]⟩
  | act {s : Progress S V} {ready : List Key} {before after : List (Work S V (List Key))}
      (update : Progress S V → Progress S V) (next : Progress S V → Work S V (List Key)) :
      Overlaps ⟨s, ready, before ++ .act update next :: after⟩
        ⟨update s, ready, before ++ next s :: after⟩
  | finish {s : Progress S V} {ready : List Key} {before after : List (Work S V (List Key))}
      (more : List Key) :
      Overlaps ⟨s, ready, before ++ .done more :: after⟩ ⟨s, ready ++ more, before ++ after⟩
  | lose {s : Progress S V} {ready : List Key} {before after : List (Work S V (List Key))} :
      Overlaps ⟨s, ready, before ++ .lost :: after⟩ ⟨s, ready, before ++ after⟩
  | unblock {s : Progress S V} {ready : List Key} (cycles : List Cycle)
      (turn : p.turn roots ready s = .unblock cycles) :
      Overlaps ⟨s, ready, []⟩ ⟨(p.failCycles cycles s).2, (p.failCycles cycles s).1, []⟩

def evaluation? (c : Crew S V) : Option (Evaluation V) :=
  match c.runs, p.turn roots c.ready c.state, c.state.abort with
  | [], .stop, none => some (p.evaluation roots c.state)
  | _, _, _ => none

end Pass

inductive Crew.Move where
  | take (i : Nat)
  | proceed (i : Nat)
  deriving DecidableEq, Repr

namespace Pass

variable [BEq V] {p : Pass S V} {config : Config} {roots : List Key} {c c' : Crew S V}

def move (p : Pass S V) (config : Config) (c : Crew S V) : Crew.Move → Option (Crew S V)
  | .take i =>
    match c.ready[i]? with
    | some k =>
      if config.admits c.runs.length then
        some { c with ready := c.ready.eraseIdx i, runs := c.runs ++ [p.work k] }
      else none
    | none => none
  | .proceed i =>
    match c.runs[i]? with
    | some (.act update next) =>
      some { c with state := update c.state, runs := c.runs.set i (next c.state) }
    | some (.done more) => some { c with ready := c.ready ++ more, runs := c.runs.eraseIdx i }
    | some .lost => some { c with runs := c.runs.eraseIdx i }
    | none => none

def play (p : Pass S V) (config : Config) : List Crew.Move → Crew S V → Option (Crew S V)
  | [], c => some c
  | m :: rest, c => (p.move config c m).bind (p.play config rest)

theorem overlaps_of_move {m : Crew.Move} (moved : p.move config c m = some c') :
    p.Overlaps config roots c c' := by
  obtain ⟨s, ready, runs⟩ := c
  cases m with
  | take i =>
    simp only [move] at moved
    split at moved
    next k found =>
      split at moved
      next free =>
        cases moved
        obtain ⟨inside, rfl⟩ := List.getElem?_eq_some_iff.mp found
        have pick := List.set_perm_cons_eraseIdx inside ready[i]
        rw [List.set_getElem_self] at pick
        exact .take _ pick free
      next => cases moved
    next => cases moved
  | proceed i =>
    cases found : runs[i]? with
    | none => simp [move, found] at moved
    | some run =>
      obtain ⟨inside, rfl⟩ := List.getElem?_eq_some_iff.mp found
      obtain ⟨before, after, split, rfl, -⟩ := @List.exists_of_set _ i runs[i] runs inside
      generalize runs[before.length] = run at split found
      subst split
      cases run with
      | act update next =>
        obtain rfl : _ = c' := by simpa [move] using moved
        exact .act update next
      | done more =>
        obtain rfl : _ = c' := by simpa [move, List.eraseIdx_append_of_length_le] using moved
        exact .finish more
      | lost =>
        obtain rfl : _ = c' := by simpa [move, List.eraseIdx_append_of_length_le] using moved
        exact .lose

theorem overlaps_of_play {moves : List Crew.Move} (played : p.play config moves c = some c') :
    ReflTransGen (p.Overlaps config roots) c c' := by
  induction moves generalizing c with
  | nil =>
    cases played
    exact .refl
  | cons m rest ih =>
    obtain ⟨c₁, moved, played⟩ := Option.bind_eq_some_iff.mp played
    exact .head (overlaps_of_move moved) (ih played)

end Pass

def Engine.crew [BEq V] (e : Engine S V) (roots : List Key) (keepGoing : Bool) : Crew S V :=
  (e.pass keepGoing).crew (union [] roots) e.entry

end Recompute
