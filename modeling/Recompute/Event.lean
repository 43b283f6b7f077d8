import Recompute.Node

set_option autoImplicit false

namespace Recompute

inductive Ending where
  | built (changed : Bool)
  | verified
  | failed (kind : FailureKind)
  deriving DecidableEq, Repr

inductive Event where
  | enqueued (key : Key)
  | computing (key : Key) (attempt : Nat)
  | restarted (key : Key) (absent : List Key)
  | evaluated (key : Key) (ending : Ending)
  | invalidated (key : Key) (dirty : Dirty)
  | noted (key : Key) (text : String)
  deriving DecidableEq, Repr

def Ending.render : Ending → String
  | built changed => "built changed=" ++ (if changed then "true" else "false")
  | verified => "verified"
  | failed kind => "failed " ++ kind.name

namespace Event

def render : Event → String
  | enqueued k => "enqueued " ++ k.render
  | computing k attempt => "computing " ++ k.render ++ " #" ++ toString attempt
  | restarted k absent =>
    "restarted " ++ k.render ++ " missing " ++ Datum.bracketed (absent.map Key.render)
  | evaluated k ending => "evaluated " ++ k.render ++ " " ++ ending.render
  | invalidated k dirty => "invalidated " ++ k.render ++ " " ++ dirty.name
  | noted k text => "log " ++ k.render ++ ": " ++ text

def isNote : Event → Bool
  | noted .. => true
  | _ => false

def attempts (events : List Event) (k : Key) : Nat :=
  events.countP fun
    | computing key _ => key = k
    | _ => false

def endings (events : List Event) (k : Key) : List Ending :=
  events.filterMap fun
    | evaluated key ending => if key = k then some ending else none
    | _ => none

end Event

-- Watches what happens. It is given all events so far, the newest first, and tells whether it gives
-- up on the newest one.
abbrev Listener := List Event → Bool

def Listener.steady : Listener := fun _ => false

end Recompute
