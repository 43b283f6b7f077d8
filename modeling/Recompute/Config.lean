import Recompute.Json.Reader
import Recompute.Json.Value

set_option autoImplicit false

namespace Recompute

structure Config where
  workers : Option Nat := none
  workerName : String := "skygraph-worker"
  deriving DecidableEq, Repr

namespace Config

def poolSize (c : Config) : Option Nat := c.workers.map (max 1)

def withWorkers (c : Config) (n : Nat) : Config := { c with workers := some (max 1 n) }

def toJson (c : Config) : Json :=
  .object [("worker_threads", .ofOption (fun n => .number n) c.workers),
    ("thread_name", .text c.workerName)]

open Json Json.Reader

structure Members where
  workers : Option Nat := none
  workerName : Option String := none

def Members.toConfig (m : Members) : Config :=
  { workers := m.workers, workerName := m.workerName.getD ({} : Config).workerName }

def member (m : Members) (name : String) : Reader Members := do
  if name = "worker_threads" then
    if m.workers.isSome then throw .mismatch
    colon
    return { m with workers := some (← natural) }
  else if name = "thread_name" then
    if m.workerName.isSome then throw .mismatch
    colon
    return { m with workerName := some (← text) }
  else
    colon
    any
    return m

def members : Nat → Members → Reader Members
  | 0, _ => throw .truncated
  | n + 1, m => do
    if (← peekChar) ≠ '"' then throw .malformed
    skip
    let m ← member m (← string)
    let c ← peekChar
    skip
    match c with
    | ',' => members n m
    | '\x7d' => return m
    | _ => throw .malformed

def items : Reader Members := do
  if (← peekChar) = ']' then
    skip
    return {}
  let workers ← natural
  if (← peekChar) = ']' then
    skip
    return { workers := some workers }
  if (← peekChar) ≠ ',' then throw .malformed
  skip
  if (← peekChar) = ']' then throw .malformed
  let name ← text
  if (← peekChar) ≠ ']' then throw .malformed
  skip
  return { workers := some workers, workerName := some name }

def config : Reader Config := do
  match ← peekChar with
  | '\x7b' =>
    skip
    if (← peekChar) = '\x7d' then
      skip
      return {}
    return (← members (← get).length {}).toConfig
  | '[' =>
    skip
    return (← items).toConfig
  | _ => wrongKind

def ofJson (s : String) : Except ReadError Config :=
  (do
    let c ← config
    finish
    return c : Reader Config).run' s.toList

end Config

end Recompute
