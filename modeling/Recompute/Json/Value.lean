set_option autoImplicit false

namespace Recompute

inductive Json where
  | null
  | bool (b : Bool)
  | number (n : Int)
  | text (s : String)
  | array (items : List Json)
  | object (members : List (String × Json))

namespace Json

def escape (c : Char) : List Char :=
  if c = '"' ∨ c = '\\' then ['\\', c]
  else if c = '\n' then ['\\', 'n']
  else if c = '\r' then ['\\', 'r']
  else if c = '\t' then ['\\', 't']
  else if c = '\x08' then ['\\', 'b']
  else if c = '\x0c' then ['\\', 'f']
  else if c.toNat < 32 then
    ['\\', 'u', '0', '0', Nat.digitChar (c.toNat / 16), Nat.digitChar (c.toNat % 16)]
  else [c]

def quoted (s : String) : String := String.ofList ('"' :: s.toList.flatMap escape ++ ['"'])

structure Layout where
  next : Nat → String
  last : Nat → String
  colon : String

def Layout.compact : Layout := ⟨fun _ => "", fun _ => "", ":"⟩

def Layout.pretty : Layout :=
  let line (depth : Nat) : String := "\n" ++ String.ofList (List.replicate (2 * depth) ' ')
  ⟨line, line, ": "⟩

def Layout.compound (l : Layout) (left right : String) (depth : Nat) (parts : List String) :
    String :=
  if parts.isEmpty then left ++ right
  else
    left ++ l.next (depth + 1) ++ ("," ++ l.next (depth + 1)).intercalate parts
      ++ l.last depth ++ right

mutual

def write (l : Layout) (depth : Nat) : Json → String
  | null => "null"
  | bool b => if b then "true" else "false"
  | number n => toString n
  | text s => quoted s
  | array items => l.compound "[" "]" depth (writeItems l (depth + 1) items)
  | object members => l.compound "\x7b" "\x7d" depth (writeMembers l (depth + 1) members)

def writeItems (l : Layout) (depth : Nat) : List Json → List String
  | [] => []
  | item :: rest => write l depth item :: writeItems l depth rest

def writeMembers (l : Layout) (depth : Nat) : List (String × Json) → List String
  | [] => []
  | (name, v) :: rest => (quoted name ++ l.colon ++ write l depth v) :: writeMembers l depth rest

end

def compact (j : Json) : String := write .compact 0 j

def pretty (j : Json) : String := write .pretty 0 j

def ofOption {α : Type} (f : α → Json) : Option α → Json
  | none => null
  | some a => f a

def texts (ss : List String) : Json := array (ss.map text)

end Json

end Recompute
