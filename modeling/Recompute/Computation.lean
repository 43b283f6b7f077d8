import Recompute.Trace

set_option autoImplicit false

namespace Recompute

abbrev Handle := Nat

inductive Panic where
  | text (s : String)
  | other
  deriving DecidableEq, Repr

def Panic.message : Panic → String
  | text s => s
  | other => "non-string panic payload"

-- A computation as a tree of requests, with `S` as the state outside the graph. What it asks for
-- and is not available is answered by `none`, and then it is `blocked`. It reads `values`, where a
-- failed one counts as not available and fails the reader, or `outcomes`.
inductive Computation (S V α : Type) where
  | done (a : α)
  | panic (p : Panic)
  | values (keys : List Key) (next : Table Key (Option V) → Computation S V α)
  | outcomes (keys : List Key) (next : Answers V → Computation S V α)
  | blocked (next : Bool → Computation S V α)
  | version (next : Nat → Computation S V α)
  | interrupted (next : Bool → Computation S V α)
  | outside (next : S → Computation S V α)
  | setOutside (s : S) (next : Computation S V α)
  | note (text : String) (next : Computation S V α)
  | interrupt (h : Handle) (next : Computation S V α)
  -- Changes the graph behind the back of the running pass.
  | inject (key : Key) (v : V) (next : Computation S V α)
  | invalidate (key : Key) (next : Computation S V α)

namespace Computation

variable {S V α β : Type}

def bind (c : Computation S V α) (f : α → Computation S V β) : Computation S V β :=
  match c with
  | done a => f a
  | panic p => panic p
  | values keys next => values keys fun answers => (next answers).bind f
  | outcomes keys next => outcomes keys fun answers => (next answers).bind f
  | blocked next => blocked fun b => (next b).bind f
  | version next => version fun n => (next n).bind f
  | interrupted next => interrupted fun b => (next b).bind f
  | outside next => outside fun s => (next s).bind f
  | setOutside s next => setOutside s (next.bind f)
  | note text next => note text (next.bind f)
  | interrupt h next => interrupt h (next.bind f)
  | inject key v next => inject key v (next.bind f)
  | invalidate key next => invalidate key (next.bind f)

instance : Monad (Computation S V) where
  pure := done
  bind := bind

theorem bind_done (c : Computation S V α) : c.bind done = c := by
  induction c with
  | blocked next ih => exact congrArg blocked (funext ih)
  | interrupted next ih => exact congrArg interrupted (funext ih)
  | _ => simp_all [bind]

theorem bind_assoc {γ : Type} (c : Computation S V α) (f : α → Computation S V β)
    (g : β → Computation S V γ) : (c.bind f).bind g = c.bind fun a => (f a).bind g := by
  induction c with
  | blocked next ih => exact congrArg blocked (funext ih)
  | interrupted next ih => exact congrArg interrupted (funext ih)
  | _ => simp_all [bind]

instance : LawfulMonad (Computation S V) :=
  LawfulMonad.mk' (Computation S V) bind_done (fun _ _ => rfl) bind_assoc

def read (k : Key) : Computation S V (Option V) :=
  values [k] fun answers => done (answers.get? k).join

def readAll (keys : List Key) : Computation S V (Table Key (Option V)) := values keys done

def readOutcome (k : Key) : Computation S V (Option (Outcome V)) :=
  outcomes [k] fun answers => done (Table.get? answers k).join

def readOutcomes (keys : List Key) : Computation S V (Answers V) := outcomes keys done

def need (k : Key) : Computation S V (Except Fault V) := do
  match ← read k with
  | some v => return .ok v
  | none => return .error .notReady

def allPresent (answers : Table Key (Option V)) : Except Fault (List V) :=
  match answers.values.mapM id with
  | some vs => .ok vs
  | none => .error .notReady

def needAll (keys : List Key) : Computation S V (Except Fault (List V)) :=
  values keys fun answers => done (allPresent answers)

end Computation

abbrev Rule (S V : Type) := Key → Computation S V (Except Fault V)

abbrev Rules (S V : Type) := Table String (Rule S V)

inductive RuleError where
  | taken (tag : String)
  deriving DecidableEq, Repr

def RuleError.message : RuleError → String
  | taken tag => "a function is already registered for `" ++ tag ++ "`"

def Rules.add {S V : Type} (rules : Rules S V) (tag : String) (rule : Rule S V) :
    Except RuleError (Rules S V) :=
  if rules.contains tag then .error (.taken tag) else .ok (rules.set tag rule)

end Recompute
