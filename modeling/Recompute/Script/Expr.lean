import Recompute.Computation
import Recompute.Value

set_option autoImplicit false

namespace Recompute.Script

structure Outside where
  bindings : Table String Value := []
  slots : Table String Handle := []
  made : Nat := 0

inductive Sight where
  | absent
  | value (v : Value)
  | failure (f : Failure)

inductive Observation where
  | one (s : Sight)
  | many (ss : List Sight)

namespace Sight

def describe : Sight → String
  | absent => "none"
  | value v => v.render
  | failure f => "error[" ++ f.message ++ "]"

def ofValue : Option Value → Sight
  | none => absent
  | some v => value v

def ofOutcome : Option (Outcome Value) → Sight
  | none => absent
  | some (.ok v) => value v
  | some (.error f) => failure f

end Sight

namespace Observation

def describe : Observation → String
  | one s => s.describe
  | many ss => Datum.bracketed (ss.map Sight.describe)

def sights : Observation → List Sight
  | one s => [s]
  | many ss => ss

end Observation

abbrev Variables := Table String Observation

def Variables.look (vars : Variables) (x : String) : Observation :=
  (Table.get? vars x).getD (.one .absent)

abbrev Exec := StateT Variables (ExceptT (Except Fault Value) (Computation Outside Value))

namespace Exec

def lift {α : Type} (c : Computation Outside Value α) : Exec α := StateT.lift (ExceptT.lift c)

def finish {α : Type} (result : Except Fault Value) : Exec α := throw result

def request {α : Type} (c : (α → Computation Outside Value α) → Computation Outside Value α) :
    Exec α := lift (c .done)

def outside : Exec Outside := request .outside

def setOutside (o : Outside) : Exec Unit := lift (.setOutside o (.done ()))

def make (p : Payload) : Exec Value := do
  let o ← outside
  setOutside { o with made := o.made + 1 }
  return ⟨p, o.made⟩

def makeDatum (d : Datum) : Exec Value := make (.datum d)

def look (x : String) : Exec Observation := return (← get).look x

def store (x : String) (o : Observation) : Exec Unit := modify fun vars => Table.set vars x o

end Exec

open Exec

inductive Arith where
  | add
  | sub
  | mul
  | mod
  deriving DecidableEq, Repr

def Arith.apply : Arith → Int64 → Int64 → Int64
  | add, a, b => a + b
  | sub, a, b => a - b
  | mul, a, b => a * b
  | mod, a, b => if b ≤ 0 then 0 else Int64.ofInt (a.toInt % b.toInt)

inductive Expr where
  | literal (p : Payload)
  | variable (x : String)
  | describe (x : String)
  | isValue (x : String)
  | isFailure (x : String)
  | failureKind (x : String)
  | length (x : String)
  | sum (x : String)
  | item (x : String) (index : Expr)
  | external (name : String)
  | argument
  | self
  | version
  | interrupted
  | blocked
  | not (e : Expr)
  | equal (a b : Expr)
  | append (a b : Expr)
  | arith (op : Arith) (a b : Expr)
  | less (a b : Expr)

def Sight.int : Sight → Int64
  | .value v => v.int
  | .absent | .failure _ => 0

def Sight.toValue : Sight → Exec Value
  | .value v => return v
  | s => makeDatum (.text s.describe)

def Observation.toValue : Observation → Exec Value
  | .one s => s.toValue
  | o => makeDatum (.text o.describe)

def Expr.eval (key : Key) : Expr → Exec Value
  | .literal p => make p
  | .variable x => do (← look x).toValue
  | .describe x => do makeDatum (.text (← look x).describe)
  | .isValue x => do
    match ← look x with
    | .one (.value _) => makeDatum (.bool true)
    | _ => makeDatum (.bool false)
  | .isFailure x => do
    match ← look x with
    | .one (.failure _) => makeDatum (.bool true)
    | _ => makeDatum (.bool false)
  | .failureKind x => do
    match ← look x with
    | .one (.failure f) => makeDatum (.text f.kind.name)
    | _ => makeDatum (.text "-")
  | .length x => do
    match ← look x with
    | .many ss => makeDatum (.int64 (Int64.ofNat ss.length))
    | _ => makeDatum (.int64 (-1))
  | .sum x => do
    makeDatum (.int64 ((← look x).sights.foldl (fun n s => n + s.int) 0))
  | .item x index => do
    let i := (← index.eval key).int
    match ← look x with
    | .many ss =>
      match if 0 ≤ i then ss[i.toNatClampNeg]? else none with
      | some s => s.toValue
      | none => makeDatum .unit
    | .one _ => makeDatum .unit
  | .external name => do
    match (← outside).bindings.get? name with
    | some v => return v
    | none => makeDatum .unit
  | .argument =>
    match key.argument with
    | .datum (.text s) => makeDatum (.text s)
    | .datum (.int64 n) => makeDatum (.int64 n)
    | a => makeDatum (.text a.render)
  | .self => makeDatum (.text key.render)
  | .version => do makeDatum (.int64 (Int64.ofNat (← request .version)))
  | .interrupted => do makeDatum (.bool (← request .interrupted))
  | .blocked => do makeDatum (.bool (← request .blocked))
  | .not e => do makeDatum (.bool (!(← e.eval key).isTrue))
  | .equal a b => do
    let v ← a.eval key
    let w ← b.eval key
    makeDatum (.bool (v == w))
  | .append a b => do
    let v ← a.eval key
    let w ← b.eval key
    makeDatum (.text (v.text ++ w.text))
  | .arith op a b => do
    let v ← a.eval key
    let w ← b.eval key
    makeDatum (.int64 (op.apply v.int w.int))
  | .less a b => do
    let v ← a.eval key
    let w ← b.eval key
    makeDatum (.bool (v.int < w.int))

end Recompute.Script
