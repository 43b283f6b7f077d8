import Recompute.Text.Invisible
import Recompute.Text.Combining

set_option autoImplicit false

namespace Recompute.Text

def inRanges (ranges : List (Nat × Nat)) (c : Char) : Bool :=
  ranges.any fun (lo, hi) => lo ≤ c.toNat && c.toNat ≤ hi

-- Characters that are shown as they are: visible, and not combining with what stands before.
def isShown (c : Char) : Bool :=
  if c.toNat < 127 then 32 ≤ c.toNat
  else !inRanges combiningRanges c && !inRanges invisibleRanges c

-- How `c` is written between two `mark`s. A mark other than the enclosing one stands for itself.
def escape (mark c : Char) : List Char :=
  if c = '\x00' then ['\\', '0']
  else if c = '\t' then ['\\', 't']
  else if c = '\r' then ['\\', 'r']
  else if c = '\n' then ['\\', 'n']
  else if c = '\\' ∨ c = mark then ['\\', c]
  else if isShown c then [c]
  else ['\\', 'u', '{'] ++ Nat.toDigits 16 c.toNat ++ ['}']

def enclose (mark : Char) (cs : List Char) : String :=
  String.ofList (mark :: cs.flatMap (escape mark) ++ [mark])

def quoted (s : String) : String := enclose '"' s.toList

def quotedChar (c : Char) : String := enclose '\'' [c]

end Recompute.Text
