import Recompute.Graph

set_option autoImplicit false

namespace Recompute

-- What one attempt to compute a key has read so far. The memo also has what earlier attempts of the
-- same pass have read; `absent` is what was asked for and is not finished; `failures` are those
-- that the rule did not declare that it can cope with.
structure Trace (V : Type) where
  memo : Memo V := []
  asked : List Key := []
  groups : List Group := []
  absent : List Key := []
  failures : List Failure := []

abbrev Answers (V : Type) := Table Key (Option (Outcome V))

def Answers.withoutFailures {V : Type} (answers : Answers V) : Table Key (Option V) :=
  answers.map fun (k, o) => (k, o.bind Except.toOption)

namespace Trace

variable {V : Type}

def blocked (t : Trace V) : Bool := !t.absent.isEmpty || !t.failures.isEmpty

def look (t : Trace V) (g : Graph V) (k : Key) : Option (Outcome V) × Trace V × Graph V :=
  match t.memo.get? k with
  | some o => (some o, t, g)
  | none =>
    let g := g.ensure k
    match g.outcome? k with
    | some o => (some o, { t with memo := t.memo.set k o }, g)
    | none => (none, t, g)

structure Request (V : Type) where
  trace : Trace V
  graph : Graph V
  group : Group
  answers : Answers V

def Request.ask (tolerant : Bool) (r : Request V) (k : Key) : Request V :=
  let first := k ∉ r.trace.asked
  let (answer, t, g) := r.trace.look r.graph k
  let t := if first then { t with asked := t.asked ++ [k] } else t
  let t :=
    match answer with
    | none => if first then { t with absent := t.absent ++ [k] } else t
    | some (.error f) => if tolerant then t else { t with failures := t.failures ++ [f] }
    | some (.ok _) => t
  { trace := t, graph := g
    group := if first then r.group ++ [k] else r.group
    answers := Table.set r.answers k answer }

def Request.close (r : Request V) : Trace V :=
  if r.group = [] then r.trace else { r.trace with groups := r.trace.groups ++ [r.group] }

def request (tolerant : Bool) (keys : List Key) (t : Trace V) (g : Graph V) :
    Answers V × Trace V × Graph V :=
  let r := keys.foldl (Request.ask tolerant) ⟨t, g, [], []⟩
  (r.answers, r.close, r.graph)

end Trace

end Recompute
