import Recompute.Text.Quoted

set_option autoImplicit false

namespace Recompute

inductive Datum where
  | unit
  | bool (b : Bool)
  | text (s : String)
  | symbol (s : String)
  | int64 (n : Int64)
  | uint8 (n : UInt8)
  | uint32 (n : UInt32)
  | int32 (n : Int32)
  | uint64 (n : UInt64)
  | char (c : Char)
  | ints (ns : List Int64)
  | texts (ss : List String)
  | labelled (s : String) (n : Int64)
  | optional (n : Option Int64)
  deriving DecidableEq, Repr, Inhabited

namespace Datum

def bracketed (items : List String) : String := "[" ++ ", ".intercalate items ++ "]"

def render : Datum → String
  | unit => "()"
  | bool b => if b then "true" else "false"
  | text s | symbol s => Text.quoted s
  | int64 n => toString n.toInt
  | uint8 n => toString n.toNat
  | uint32 n => toString n.toNat
  | int32 n => toString n.toInt
  | uint64 n => toString n.toNat
  | char c => Text.quotedChar c
  | ints ns => bracketed (ns.map fun n => toString n.toInt)
  | texts ss => bracketed (ss.map Text.quoted)
  | labelled s n => "(" ++ Text.quoted s ++ ", " ++ toString n.toInt ++ ")"
  | optional none => "None"
  | optional (some n) => "Some(" ++ toString n.toInt ++ ")"

end Datum

end Recompute
