import Recompute.Datum
import Recompute.Decimal.Double

set_option autoImplicit false

namespace Recompute

inductive Payload where
  | datum (d : Datum)
  | double (x : Decimal.Double)
  deriving DecidableEq, Repr

namespace Payload

def render : Payload → String
  | datum d => d.render
  | double x => x.render

def equal : Payload → Payload → Bool
  | datum d, datum e => d = e
  | double x, double y => x.equal y
  | _, _ => false

end Payload

-- The result of a computation. The handle tells apart values with one payload that were made
-- separately.
structure Value where
  payload : Payload
  handle : Nat
  deriving DecidableEq, Repr

namespace Value

def render (v : Value) : String := v.payload.render

-- A value equals itself, whatever it holds; other values are compared by payload.
def equal (v w : Value) : Bool := v = w || v.payload.equal w.payload

instance : BEq Value := ⟨equal⟩

def text (v : Value) : String :=
  match v.payload with
  | .datum (.text s) => s
  | p => p.render

def int? (v : Value) : Option Int64 :=
  match v.payload with
  | .datum (.int64 n) => some n
  | _ => none

def int (v : Value) : Int64 := v.int?.getD 0

def isTrue (v : Value) : Bool :=
  match v.payload with
  | .datum (.bool b) => b
  | .datum (.int64 n) => n ≠ 0
  | _ => false

end Value

theorem Payload.equal_comm (p q : Payload) : p.equal q = q.equal p := by
  cases p <;> cases q <;> simp [equal, eq_comm, Decimal.Double.equal_comm]

theorem Payload.equal_trans {p q r : Payload} (first : p.equal q = true)
    (second : q.equal r = true) : p.equal r = true := by
  cases p <;> cases q <;> cases r <;> simp [equal] at first second ⊢
  case datum => exact first.trans second
  case double => exact Decimal.Double.equal_trans first second

instance : EquivBEq Value where
  rfl {v} := by
    change v.equal v = true
    simp [Value.equal]
  symm {v w} same := by
    change v.equal w = true at same
    change w.equal v = true
    rw [← same]
    simp [Value.equal, Payload.equal_comm, eq_comm]
  trans {u v w} first second := by
    change u.equal v = true at first
    change v.equal w = true at second
    change u.equal w = true
    simp only [Value.equal, Bool.or_eq_true, decide_eq_true_eq] at first second ⊢
    rcases first with rfl | first
    · exact second
    · rcases second with rfl | second
      · exact .inr first
      · exact .inr (Payload.equal_trans first second)

end Recompute
