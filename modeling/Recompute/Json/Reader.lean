set_option autoImplicit false

namespace Recompute.Json

inductive ReadError where
  | truncated
  | malformed
  | mismatch
  deriving DecidableEq, Repr

abbrev Reader (α : Type) := StateT (List Char) (Except ReadError) α

namespace Reader

def isBlank (c : Char) : Bool := c = ' ' || c = '\n' || c = '\t' || c = '\r'

def peek : Reader (Option Char) := do
  modify (·.dropWhile isBlank)
  return (← get).head?

def peekChar : Reader Char := do
  match ← peek with
  | some c => return c
  | none => throw .truncated

def skip : Reader Unit := modify List.tail

def next : Reader Char := do
  match ← get with
  | [] => throw .truncated
  | c :: rest =>
    set rest
    return c

def expect (c : Char) : Reader Unit := do
  if (← next) ≠ c then throw .malformed

def word (cs : List Char) : Reader Unit := cs.forM expect

def hexValue (c : Char) : Option Nat :=
  if c.isDigit then some (c.toNat - '0'.toNat)
  else if 'a' ≤ c ∧ c ≤ 'f' then some (c.toNat - 'a'.toNat + 10)
  else if 'A' ≤ c ∧ c ≤ 'F' then some (c.toNat - 'A'.toNat + 10)
  else none

def hex4 : Reader Nat := do
  let cs := (← get).take 4
  if (String.ofList cs).utf8ByteSize < 4 then throw .truncated
  match cs.mapM hexValue with
  | none => throw .malformed
  | some ds =>
    modify (·.drop 4)
    return ds.foldl (fun n d => n * 16 + d) 0

def codePoint : Reader Char := do
  let n ← hex4
  if 0xDC00 ≤ n ∧ n ≤ 0xDFFF then throw .malformed
  if n < 0xD800 ∨ 0xDFFF < n then return Char.ofNat n
  expect '\\'
  expect 'u'
  let m ← hex4
  if m < 0xDC00 ∨ 0xDFFF < m then throw .malformed
  return Char.ofNat (0x10000 + (n - 0xD800) * 0x400 + (m - 0xDC00))

def simpleEscape (c : Char) : Option Char :=
  match c with
  | '"' => some '"'
  | '\\' => some '\\'
  | '/' => some '/'
  | 'b' => some '\x08'
  | 'f' => some '\x0c'
  | 'n' => some '\n'
  | 'r' => some '\r'
  | 't' => some '\t'
  | _ => none

def stringChar (decode : Reader Char) : Reader (Option Char) := do
  let c ← next
  if c = '"' then return none
  if c.toNat < 32 then throw .malformed
  if c ≠ '\\' then return some c
  let e ← next
  if e = 'u' then return some (← decode)
  match simpleEscape e with
  | some c => return some c
  | none => throw .malformed

def stringRest (decode : Reader Char) : Nat → List Char → Reader String
  | 0, _ => throw .truncated
  | n + 1, acc => do
    match ← stringChar decode with
    | none => return String.ofList acc.reverse
    | some c => stringRest decode n (c :: acc)

def string : Reader String := do stringRest codePoint ((← get).length + 1) []

def anyString : Reader Unit := do
  let decode : Reader Char := do
    let _ ← hex4
    return ' '
  let _ ← stringRest decode ((← get).length + 1) []

inductive Numeral where
  | natural (n : Nat)
  | other
  deriving DecidableEq, Repr

def wordLimit : Nat := Nat.pow 2 64

def digit (c : Char) : Nat := c.toNat - '0'.toNat

def appendDigits : Nat → List Char → Nat × Nat
  | n, [] => (n, 0)
  | n, c :: rest =>
    let n' := n * 10 + digit c
    if n' < wordLimit then
      let (m, count) := appendDigits n' rest
      (m, count + 1)
    else (n, 0)

def round53 (n : Nat) : Nat :=
  let unit := Nat.pow 2 (n.log2 + 1 - 53)
  let q := n / unit
  let twice := 2 * (n % unit)
  (if twice > unit ∨ (twice = unit ∧ q % 2 = 1) then q + 1 else q) * unit

def outOfRange (n : Nat) (e : Int) : Bool :=
  if n = 0 ∨ e < 0 then false
  else if 308 < e then true
  else Nat.pow 2 1024 - Nat.pow 2 970 ≤ round53 n * round53 (Nat.pow 10 e.toNat)

def takeDigits : Reader (List Char) := do
  let cs ← get
  set (cs.dropWhile Char.isDigit)
  return cs.takeWhile Char.isDigit

def float (n : Nat) (e : Int) : Reader Numeral := do
  if outOfRange n e then throw .malformed
  return .other

def exponentRest (n : Nat) (e : Int) : Reader Numeral := do
  skip
  let negative := (← get).head? = some '-'
  if negative ∨ (← get).head? = some '+' then skip
  let c ← next
  if !c.isDigit then throw .malformed
  let value := ((c :: (← takeDigits)).foldl (fun n c => n * 10 + digit c) 0 : Nat)
  float n (if negative then e - value else e + value)

def isExponentMark (c : Option Char) : Bool := c = some 'e' || c = some 'E'

def fractionRest (n : Nat) (e : Int) : Reader Numeral := do
  skip
  let digits ← takeDigits
  if digits = [] then
    if (← get) = [] then throw .truncated else throw .malformed
  let (n, count) := appendDigits n digits
  if isExponentMark (← get).head? then exponentRest n (e - count) else float n (e - count)

def numeral (negative : Bool) : Reader Numeral := do
  if (← get) = [] then throw .truncated
  let digits ← takeDigits
  if digits = [] ∨ (digits.head? = some '0' ∧ digits ≠ ['0']) then throw .malformed
  let (n, count) := appendDigits 0 digits
  let dropped := digits.length - count
  let mark := (← get).head?
  if mark = some '.' then fractionRest n dropped
  else if isExponentMark mark then exponentRest n dropped
  else if dropped ≠ 0 then float n dropped
  else if negative then return .other
  else return .natural n

def anyNumeral : Reader Unit := do
  let digits ← takeDigits
  if digits = [] ∨ (digits.head? = some '0' ∧ digits ≠ ['0']) then throw .malformed
  if (← get).head? = some '.' then
    skip
    if (← takeDigits) = [] then throw .malformed
  if isExponentMark (← get).head? then
    skip
    if (← get).head? = some '-' ∨ (← get).head? = some '+' then skip
    if (← takeDigits) = [] then throw .malformed

def colon : Reader Unit := do
  if (← peekChar) ≠ ':' then throw .malformed
  skip

mutual

def anyValue : Nat → Reader Unit
  | 0 => throw .truncated
  | n + 1 => do
    let c ← peekChar
    if c.isDigit then anyNumeral
    else
      skip
      match c with
      | 'n' => word ['u', 'l', 'l']
      | 't' => word ['r', 'u', 'e']
      | 'f' => word ['a', 'l', 's', 'e']
      | '-' => anyNumeral
      | '"' => anyString
      | '[' => if (← peek) = some ']' then skip else anyItems n
      | '\x7b' => if (← peek) = some '\x7d' then skip else anyMembers n
      | _ => throw .malformed

def anyItems : Nat → Reader Unit
  | 0 => throw .truncated
  | n + 1 => do
    anyValue n
    let c ← peekChar
    skip
    match c with
    | ',' => anyItems n
    | ']' => return ()
    | _ => throw .malformed

def anyMembers : Nat → Reader Unit
  | 0 => throw .truncated
  | n + 1 => do
    if (← peekChar) ≠ '"' then throw .malformed
    skip
    anyString
    colon
    anyValue n
    let c ← peekChar
    skip
    match c with
    | ',' => anyMembers n
    | '\x7d' => return ()
    | _ => throw .malformed

end

def any : Reader Unit := do anyValue (2 * (← get).length + 2)

def wrongKind {α : Type} : Reader α := do
  let c ← peekChar
  if c.isDigit then
    let _ ← numeral false
  else
    skip
    match c with
    | 'n' => word ['u', 'l', 'l']
    | 't' => word ['r', 'u', 'e']
    | 'f' => word ['a', 'l', 's', 'e']
    | '-' =>
      let _ ← numeral true
    | '"' =>
      let _ ← string
    | '[' | '\x7b' => return ← throw .mismatch
    | _ => throw .malformed
  throw .mismatch

def natural : Reader Nat := do
  let c ← peekChar
  if c.isDigit then
    match ← numeral false with
    | .natural n => return n
    | .other => throw .mismatch
  else wrongKind

def text : Reader String := do
  if (← peekChar) = '"' then
    skip
    string
  else wrongKind

def finish : Reader Unit := do
  if (← peek).isSome then throw .malformed

end Reader

end Recompute.Json
