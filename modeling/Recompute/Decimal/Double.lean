import Recompute.Decimal.Shortest

set_option autoImplicit false

namespace Recompute.Decimal

structure Double where
  bits : UInt64
  deriving DecidableEq, Repr

namespace Double

def fractionBits (x : Double) : Nat := x.bits.toNat % Nat.pow 2 52

def exponentBits (x : Double) : Nat := x.bits.toNat / Nat.pow 2 52 % Nat.pow 2 11

def isNegative (x : Double) : Bool := Nat.pow 2 63 ≤ x.bits.toNat

def isNaN (x : Double) : Bool := x.exponentBits = 2047 && x.fractionBits ≠ 0

def isInfinite (x : Double) : Bool := x.exponentBits = 2047 && x.fractionBits = 0

def isZero (x : Double) : Bool := x.exponentBits = 0 && x.fractionBits = 0

-- Numeric equality: the two zeros are equal, and a NaN equals nothing.
def equal (x y : Double) : Bool :=
  !x.isNaN && !y.isNaN && (x.bits = y.bits || (x.isZero && y.isZero))

theorem equal_comm (x y : Double) : x.equal y = y.equal x := by
  simp only [equal, eq_comm (a := x.bits)]
  cases x.isNaN <;> cases y.isNaN <;> cases x.isZero <;> cases y.isZero <;> simp

theorem equal_trans {x y z : Double} (first : x.equal y = true) (second : y.equal z = true) :
    x.equal z = true := by
  have same {x y : Double} (bits : x.bits = y.bits) : x = y := by
    cases x
    cases y
    exact congrArg _ bits
  simp only [equal, Bool.and_eq_true, Bool.or_eq_true, decide_eq_true_eq] at first second ⊢
  refine ⟨⟨first.1.1, second.1.2⟩, ?_⟩
  rcases first.2 with bits | zeros
  · rw [same bits]
    exact second.2
  · rcases second.2 with bits | zeros'
    · exact .inr ⟨zeros.1, same bits ▸ zeros.2⟩
    · exact .inr ⟨zeros.1, zeros'.2⟩

def significand (x : Double) : Nat :=
  if x.exponentBits = 0 then x.fractionBits else Nat.pow 2 52 + x.fractionBits

def exponent (x : Double) : Int := (max x.exponentBits 1 : Nat) - 1075

def positional (digits : List Char) (point : Int) : List Char :=
  if point ≤ 0 then ['0', '.'] ++ List.replicate (-point).toNat '0' ++ digits
  else
    let whole := point.toNat
    if digits.length ≤ whole then
      digits ++ List.replicate (whole - digits.length) '0' ++ ['.', '0']
    else digits.take whole ++ '.' :: digits.drop whole

def scientific (digits : List Char) (point : Int) : List Char :=
  let mantissa :=
    match digits with
    | [] => []
    | [d] => [d]
    | d :: rest => d :: '.' :: rest
  mantissa ++ 'e' :: (toString (point - 1)).toList

def magnitude (d : Scaled) : List Char :=
  let digits := Nat.toDigits 10 d.digits
  let point := digits.length + d.exponent
  if -4 < point ∧ point ≤ 16 then positional digits point else scientific digits point

def render (x : Double) : String :=
  if x.isNaN then "NaN"
  else
    let sign := if x.isNegative then ['-'] else []
    let body :=
      if x.isInfinite then ['i', 'n', 'f']
      else if x.isZero then ['0', '.', '0']
      else magnitude (shortest x.significand x.exponent
        (x.fractionBits = 0 && 1 < x.exponentBits))
    String.ofList (sign ++ body)

def ofFloat (x : Float) : Double := ⟨x.toBits⟩

private def digitsValue (cs : List Char) : Nat :=
  cs.foldl (fun n c => n * 10 + (c.toNat - '0'.toNat)) 0

private def exponentPart : List Char → Option Int
  | [] => some 0
  | c :: rest =>
    if c ≠ 'e' ∧ c ≠ 'E' then none
    else
      let (negative, digits) :=
        match rest with
        | '-' :: r => (true, r)
        | '+' :: r => (false, r)
        | r => (false, r)
      if digits.isEmpty || !digits.all Char.isDigit then none
      else if negative then some (-(digitsValue digits : Int)) else some (digitsValue digits)

private def unsigned (cs : List Char) : Option Float :=
  let word := cs.map Char.toLower
  if word = "inf".toList ∨ word = "infinity".toList then some (1 / 0)
  else if word = "nan".toList then some (0 / 0)
  else
    let whole := cs.takeWhile Char.isDigit
    let rest := cs.dropWhile Char.isDigit
    let (fraction, tail) :=
      match rest with
      | '.' :: r => (r.takeWhile Char.isDigit, r.dropWhile Char.isDigit)
      | r => ([], r)
    if whole.isEmpty ∧ fraction.isEmpty then none
    else
      (exponentPart tail).map fun (e : Int) =>
        let shift : Int := e - (fraction.length : Int)
        Float.ofScientific (digitsValue (whole ++ fraction)) (shift < 0) shift.natAbs

def ofText? (s : String) : Option Double :=
  match s.toList with
  | '-' :: cs => (unsigned cs).map fun x => ofFloat (-x)
  | '+' :: cs => (unsigned cs).map ofFloat
  | cs => (unsigned cs).map ofFloat

end Double

end Recompute.Decimal
