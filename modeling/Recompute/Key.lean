import Recompute.Datum

set_option autoImplicit false

namespace Recompute

inductive Argument where
  | datum (d : Datum)
  | key (tag : String) (argument : Argument)
  deriving DecidableEq, Repr, Inhabited

structure Key where
  tag : String
  argument : Argument
  deriving DecidableEq, Repr, Inhabited

def Argument.render : Argument → String
  | datum d => d.render
  | key tag argument => tag ++ "(" ++ argument.render ++ ")"

namespace Key

def render (k : Key) : String := k.tag ++ "(" ++ k.argument.render ++ ")"

def toArgument (k : Key) : Argument := .key k.tag k.argument

def ofArgument? : Argument → Option Key
  | .key tag argument => some ⟨tag, argument⟩
  | .datum _ => none

def wrap (tag : String) (k : Key) : Nat → Key
  | 0 => k
  | n + 1 => ⟨tag, (wrap tag k n).toArgument⟩

end Key

end Recompute
