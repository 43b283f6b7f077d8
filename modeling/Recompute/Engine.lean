import Recompute.Config
import Recompute.Evaluation

set_option autoImplicit false

namespace Recompute

structure Engine (S V : Type) where
  rules : Rules S V
  listener : Listener
  config : Config := {}
  order : Order := .fifo
  world : World S V
  current : Handle

namespace Engine

variable {S V : Type}

def new (rules : Rules S V) (listener : Listener) (outside : S) (config : Config := {}) :
    Engine S V :=
  let (current, world) := World.newHandle { outside }
  { rules, listener, config, world, current }

def pass (e : Engine S V) (keepGoing : Bool) : Pass S V :=
  { rules := e.rules, listener := e.listener, order := e.order, version := e.world.graph.version + 1
    keepGoing, handle := e.current }

def entry (e : Engine S V) : World S V := { e.world with graph := e.world.graph.advance }

-- Evaluates `roots`, reusing every result that is still valid. With `keepGoing` every root gets an
-- outcome; without it the first failure ends the pass, and roots that it does not concern may be
-- missing. Once a pass was interrupted, the next one has a fresh handle.
def evaluate [BEq V] (e : Engine S V) (budget : Nat) (roots : List Key) (keepGoing : Bool) :
    Except Abort (Evaluation V) × Engine S V :=
  let (result, world) := (e.pass keepGoing).complete budget (union [] roots) e.entry
  if world.isInterrupted e.current then
    let (current, world) := world.newHandle
    (result, { e with world, current })
  else (result, { e with world })

def interrupt (e : Engine S V) (h : Handle) : Engine S V := { e with world := e.world.interrupt h }

def invalidate (e : Engine S V) (keys : List Key) : Summary × Engine S V :=
  let (summary, world) := e.world.invalidate keys
  (summary, { e with world })

def inject [BEq V] (e : Engine S V) (values : List (Key × V)) : Summary × Engine S V :=
  let (summary, world) := e.world.inject values
  (summary, { e with world })

def reset (e : Engine S V) : Engine S V := { e with world := { e.world with graph := {} } }

end Engine

end Recompute
