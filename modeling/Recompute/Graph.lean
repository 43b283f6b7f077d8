import Recompute.Node

set_option autoImplicit false

namespace Recompute

structure Graph (V : Type) where
  nodes : Table Key (Node V) := []
  version : Nat := 0

namespace Graph

variable {V : Type}

def get? (g : Graph V) (k : Key) : Option (Node V) := g.nodes.get? k

def node (g : Graph V) (k : Key) : Node V := (g.get? k).getD {}

def put (g : Graph V) (k : Key) (n : Node V) : Graph V := { g with nodes := g.nodes.set k n }

def ensure (g : Graph V) (k : Key) : Graph V := g.put k (g.node k)

def modify (g : Graph V) (k : Key) (f : Node V → Node V) : Graph V :=
  { g with nodes := g.nodes.modify k f }

def transition {α : Type} (g : Graph V) (k : Key) (t : Node V → α × Node V) : α × Graph V :=
  let (a, n) := t (g.node k)
  (a, g.put k n)

def transition? {α : Type} (g : Graph V) (k : Key) (t : Node V → α × Node V) :
    Option α × Graph V :=
  match g.get? k with
  | none => (none, g)
  | some n =>
    let (a, n) := t n
    (some a, g.put k n)

def keys (g : Graph V) : List Key := g.nodes.keys

def size (g : Graph V) : Nat := g.nodes.length

def advance (g : Graph V) : Graph V := { g with version := g.version + 1 }

def isFinished (g : Graph V) (k : Key) : Bool := (g.get? k).any Node.isFinished

def outcome? (g : Graph V) (k : Key) : Option (Outcome V) := (g.get? k).bind Node.outcome?

def awaits (g : Graph V) (k : Key) : List Key := ((g.get? k).map Node.awaits).getD []

@[simp] theorem get?_put_self (g : Graph V) (k : Key) (n : Node V) : (g.put k n).get? k = some n := by
  simp [get?, put]

@[simp] theorem get?_put_of_ne (g : Graph V) {k l : Key} (n : Node V) (ne : l ≠ k) :
    (g.put k n).get? l = g.get? l := by
  simp [get?, put, ne]

@[simp] theorem get?_modify_self (g : Graph V) (k : Key) (f : Node V → Node V) :
    (g.modify k f).get? k = (g.get? k).map f := by
  simp [get?, modify]

@[simp] theorem get?_modify_of_ne (g : Graph V) {k l : Key} (f : Node V → Node V) (ne : l ≠ k) :
    (g.modify k f).get? l = g.get? l := by
  simp [get?, modify, ne]

theorem node_of_get? {g : Graph V} {k : Key} {n : Node V} (found : g.get? k = some n) :
    g.node k = n := by
  simp [node, found]

@[simp] theorem version_put (g : Graph V) (k : Key) (n : Node V) : (g.put k n).version = g.version :=
  rfl

@[simp] theorem version_modify (g : Graph V) (k : Key) (f : Node V → Node V) :
    (g.modify k f).version = g.version := rfl

def unlink (g : Graph V) (k : Key) (deps : List Key) : Graph V :=
  deps.foldl (fun g dep => g.modify dep (·.removeDependent k)) g

def link (g : Graph V) (k : Key) (deps : List Key) : Graph V :=
  deps.foldl (fun g dep => g.put dep ((g.node dep).addDependent k)) g

def relink (g : Graph V) (k : Key) (old new : List Group) : Graph V :=
  let g := g.unlink k (old.flatten.filter (· ∉ new.flatten))
  g.link k (new.flatten.filter (· ∉ old.flatten))

def wake : Graph V → List Key → List Key × Graph V
  | g, [] => ([], g)
  | g, waiter :: rest =>
    let (ready, g) := g.transition? waiter Node.countDown
    let (others, g) := wake g rest
    (if ready = some true then waiter :: others else others, g)

def abandon : Graph V → List Key → Nat × Graph V
  | g, [] => (0, g)
  | g, k :: rest =>
    let inFlight := (g.get? k).any Node.isInFlight
    let (n, g) := abandon (g.modify k Node.abandon) rest
    (if inFlight then n + 1 else n, g)

theorem node_put (g : Graph V) (k l : Key) (n : Node V) :
    (g.put k n).node l = if l = k then n else g.node l := by
  by_cases same : l = k
  · subst same
    simp [node]
  · simp [node, same]

@[simp] theorem node_put_self (g : Graph V) (k : Key) (n : Node V) : (g.put k n).node k = n := by
  simp [node_put]

@[simp] theorem node_put_of_ne (g : Graph V) {k l : Key} (n : Node V) (ne : l ≠ k) :
    (g.put k n).node l = g.node l := by
  simp [node_put, ne]

@[simp] theorem node_ensure (g : Graph V) (k l : Key) : (g.ensure k).node l = g.node l := by
  by_cases same : l = k
  · subst same
    simp [ensure]
  · simp [ensure, same]

@[simp] theorem version_ensure (g : Graph V) (k : Key) : (g.ensure k).version = g.version := rfl

@[simp] theorem node_advance (g : Graph V) (k : Key) : g.advance.node k = g.node k := rfl

theorem node_modify (g : Graph V) (k l : Key) (f : Node V → Node V) (fresh : f {} = {}) :
    (g.modify k f).node l = if l = k then f (g.node k) else g.node l := by
  by_cases same : l = k
  · subst same
    cases found : g.get? l <;> simp [node, found, fresh]
  · simp [node, same]

theorem isFinished_eq (g : Graph V) (k : Key) : g.isFinished k = (g.node k).isFinished := by
  cases found : g.get? k <;> simp [isFinished, node, found, Node.isFinished, Status.isSettled]

theorem outcome?_eq (g : Graph V) (k : Key) : g.outcome? k = (g.node k).outcome? := by
  cases found : g.get? k <;>
    simp [outcome?, node, found, Node.outcome?, Node.isFinished, Status.isSettled]

theorem awaits_eq (g : Graph V) (k : Key) : g.awaits k = (g.node k).awaits := by
  cases found : g.get? k <;> simp [awaits, node, found, Node.awaits]

theorem node_unlink (g : Graph V) (k l : Key) (deps : List Key) :
    (g.unlink k deps).node l = if l ∈ deps then (g.node l).removeDependent k else g.node l := by
  induction deps generalizing g with
  | nil => simp [unlink]
  | cons dep rest ih =>
    have step := ih (g.modify dep (·.removeDependent k))
    rw [node_modify g dep l _ (by simp [Node.removeDependent])] at step
    rw [show g.unlink k (dep :: rest) = (g.modify dep (·.removeDependent k)).unlink k rest from rfl,
      step]
    by_cases same : l = dep
    · subst same
      simp [Node.removeDependent]
    · simp [same]

theorem node_link (g : Graph V) (k l : Key) (deps : List Key) :
    (g.link k deps).node l = if l ∈ deps then (g.node l).addDependent k else g.node l := by
  induction deps generalizing g with
  | nil => simp [link]
  | cons dep rest ih =>
    have step := ih (g.put dep ((g.node dep).addDependent k))
    rw [node_put] at step
    rw [show g.link k (dep :: rest) = (g.put dep ((g.node dep).addDependent k)).link k rest from rfl,
      step]
    by_cases same : l = dep
    · subst same
      by_cases known : k ∈ (g.node l).dependents <;> simp [Node.addDependent, known]
    · simp [same]

@[simp] theorem version_unlink (g : Graph V) (k : Key) (deps : List Key) :
    (g.unlink k deps).version = g.version := by
  induction deps generalizing g with
  | nil => rfl
  | cons dep rest ih => exact ih _

@[simp] theorem version_link (g : Graph V) (k : Key) (deps : List Key) :
    (g.link k deps).version = g.version := by
  induction deps generalizing g with
  | nil => rfl
  | cons dep rest ih => exact ih _

@[simp] theorem version_relink (g : Graph V) (k : Key) (old new : List Group) :
    (g.relink k old new).version = g.version := by
  simp [relink]

theorem transition?_countDown (g : Graph V) (k : Key) :
    (g.transition? k Node.countDown).1 = some true ↔ (g.node k).countDown.1 = true := by
  cases found : g.get? k <;> simp [transition?, node, found, Node.countDown]

theorem node_transition?_countDown (g : Graph V) (k l : Key) :
    (g.transition? k Node.countDown).2.node l =
      if l = k then (g.node k).countDown.2 else g.node l := by
  cases found : g.get? k with
  | none =>
    by_cases same : l = k
    · subst same
      simp [transition?, found, node, Node.countDown]
    · simp [transition?, found, same]
  | some n => simp [transition?, found, node_put, node_of_get? found]

@[simp] theorem version_transition?_countDown (g : Graph V) (k : Key) :
    (g.transition? k Node.countDown).2.version = g.version := by
  cases found : g.get? k <;> simp [transition?, found]

@[simp] theorem version_wake (g : Graph V) (waiters : List Key) :
    (g.wake waiters).2.version = g.version := by
  induction waiters generalizing g with
  | nil => rfl
  | cons waiter rest ih => simp [wake, ih]

theorem node_wake_of_notMem (g : Graph V) (l : Key) {waiters : List Key} (out : l ∉ waiters) :
    (g.wake waiters).2.node l = g.node l := by
  induction waiters generalizing g with
  | nil => rfl
  | cons waiter rest ih =>
    simp only [List.mem_cons, not_or] at out
    simp [wake, ih _ out.2, node_transition?_countDown, out.1]

theorem node_wake_of_mem (g : Graph V) (l : Key) {waiters : List Key} (once : waiters.Nodup)
    (inside : l ∈ waiters) : (g.wake waiters).2.node l = (g.node l).countDown.2 := by
  induction waiters generalizing g with
  | nil => simp at inside
  | cons waiter rest ih =>
    obtain ⟨out, once⟩ := List.nodup_cons.mp once
    rcases List.mem_cons.mp inside with rfl | inside
    · simp [wake, node_wake_of_notMem _ _ out, node_transition?_countDown]
    · have ne : l ≠ waiter := fun same => out (same ▸ inside)
      simp [wake, ih _ once inside, node_transition?_countDown, ne]

theorem node_abandon (g : Graph V) (l : Key) (keys : List Key) :
    (g.abandon keys).2.node l = if l ∈ keys then (g.node l).abandon else g.node l := by
  induction keys generalizing g with
  | nil => rfl
  | cons k rest ih =>
    have fresh : ({} : Node V).abandon = {} := rfl
    simp only [abandon, ih, node_modify g k l Node.abandon fresh]
    by_cases same : l = k
    · subst same
      have twice : (g.node l).abandon.abandon = (g.node l).abandon := by
        rw [Node.abandon.eq_def (g.node l).abandon, Node.flight_abandon]
      simp [twice]
    · simp [same]

theorem node_abandon_of_tracked (g : Graph V) {keys : List Key}
    (tracked : ∀ l, (g.node l).isInFlight = true → l ∈ keys) (l : Key) :
    (g.abandon keys).2.node l = (g.node l).abandon := by
  rw [node_abandon]
  split
  next => rfl
  next out =>
    have idle : (g.node l).flight = none := by
      simpa [Node.isInFlight] using mt (tracked l) out
    rw [Node.abandon, idle]

@[simp] theorem version_abandon (g : Graph V) (keys : List Key) :
    (g.abandon keys).2.version = g.version := by
  induction keys generalizing g with
  | nil => rfl
  | cons k rest ih => simp [abandon, ih]

end Graph

end Recompute
