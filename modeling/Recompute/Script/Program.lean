import Recompute.Script.Expr

set_option autoImplicit false

namespace Recompute.Script

open Exec

inductive KeyExpr where
  | key (k : Key)
  | computed (tag : String) (e : Expr)
  | self
  | argument

inductive KeysExpr where
  | list (keys : List KeyExpr)
  | range (tag : String) (low high : Expr)

def KeyExpr.eval (key : Key) : KeyExpr → Exec Key
  | .key k => return k
  | .computed tag e => do
    let v ← e.eval key
    match v.int? with
    | some n => return ⟨tag, .datum (.int64 n)⟩
    | none => return ⟨tag, .datum (.text v.text)⟩
  | .self => return key
  | .argument =>
    match Key.ofArgument? key.argument with
    | some k => return k
    | none => finish (.error (.message "bad key"))

def KeysExpr.eval (key : Key) : KeysExpr → Exec (List Key)
  | .list keys => keys.mapM (KeyExpr.eval key)
  | .range tag low high => do
    let lo := (← low.eval key).int.toInt
    let hi := (← high.eval key).int.toInt
    return (List.range (hi - lo).toNat).map fun (i : Nat) =>
      ⟨tag, .datum (.int64 (Int64.ofInt (lo + (i : Int))))⟩

inductive Step where
  | read (x : String) (k : KeyExpr)
  | readAll (x : String) (ks : KeysExpr)
  | readOutcome (x : String) (k : KeyExpr)
  | readOutcomes (x : String) (ks : KeysExpr)
  | need (x : String) (k : KeyExpr)
  | needAll (x : String) (ks : KeysExpr)
  | bail
  | set (x : String) (e : Expr)
  | log (e : Expr)
  | ret (e : Expr)
  | fail (e : Expr)
  | notReady
  | noRule (tag : String)
  | panic (p : Panic)
  | setExternal (name : String) (e : Expr)
  | interrupt (slot : String)
  | inject (k : KeyExpr) (e : Expr)
  | invalidate (k : KeyExpr)

def Step.exec (key : Key) : Step → Exec Unit
  | .read x k => do
    let k ← k.eval key
    store x (.one (.ofValue (← lift (Computation.read k))))
  | .readAll x ks => do
    let ks ← ks.eval key
    store x (.many ((← lift (Computation.readAll ks)).values.map .ofValue))
  | .readOutcome x k => do
    let k ← k.eval key
    store x (.one (.ofOutcome (← lift (Computation.readOutcome k))))
  | .readOutcomes x ks => do
    let ks ← ks.eval key
    store x (.many ((← lift (Computation.readOutcomes ks)).values.map .ofOutcome))
  | .need x k => do
    let k ← k.eval key
    match ← lift (Computation.need k) with
    | .ok v => store x (.one (.value v))
    | .error fault => finish (.error fault)
  | .needAll x ks => do
    let ks ← ks.eval key
    match ← lift (Computation.needAll ks) with
    | .ok vs => store x (.many (vs.map .value))
    | .error fault => finish (.error fault)
  | .bail => do
    if ← request .blocked then finish (.error .notReady)
  | .set x e => do store x (.one (.value (← e.eval key)))
  | .log e => do
    let v ← e.eval key
    lift (.note v.text (.done ()))
  | .ret e => do finish (.ok (← e.eval key))
  | .fail e => do finish (.error (.message (← e.eval key).text))
  | .notReady => finish (.error .notReady)
  | .noRule tag => finish (.error (.noRule tag))
  | .panic p => lift (.panic p)
  | .setExternal name e => do
    let v ← e.eval key
    let o ← outside
    setOutside { o with bindings := o.bindings.set name v }
  | .interrupt slot => do
    match (← outside).slots.get? slot with
    | some h => lift (.interrupt h (.done ()))
    | none => return ()
  | .inject k e => do
    let k ← k.eval key
    let v ← e.eval key
    lift (.inject k v (.done ()))
  | .invalidate k => do
    let k ← k.eval key
    lift (.invalidate k (.done ()))

inductive Program where
  | stop
  | step (s : Step) (rest : Program)
  | branch (e : Expr) (yes no rest : Program)

def Program.exec (key : Key) : Program → Exec Unit
  | .stop => return ()
  | .step s rest => do
    s.exec key
    rest.exec key
  | .branch e yes no rest => do
    if (← e.eval key).isTrue then yes.exec key else no.exec key
    rest.exec key

def Program.run (p : Program) (key : Key) : Computation Outside Value (Except Fault Value) := do
  match ← ((p.exec key).run []).run with
  | .error result => return result
  | .ok _ => return .error (.message "no result")

structure Programs where
  byArgument : Table String Program := []
  otherwise : Option Program := none

def argumentName : Argument → String
  | .datum (.text s) => s
  | a => a.render

def Programs.toRule (s : Programs) : Rule Outside Value := fun key =>
  match (s.byArgument.get? (argumentName key.argument)).or s.otherwise with
  | some p => p.run key
  | none => return .error (.message "no program")

end Recompute.Script
