import Recompute.Key
import Mathlib.Algebra.BigOperators.Group.List.Basic
import Mathlib.Algebra.Group.Pi.Basic
import Mathlib.Algebra.GroupWithZero.Nat
import Mathlib.Data.List.Nodup

set_option autoImplicit false

namespace Recompute

-- What runs owe to each other: to work on a key that was handed out or claimed (for `check`, to be
-- verified), to signal a key, to register it with one that it awaits, to fail a member of a cycle.
inductive Duty where
  | hand (k : Key)
  | claim (k : Key)
  | check (k : Key)
  | signal (k : Key)
  | register (k d : Key)
  | fail (k : Key)
  deriving DecidableEq

abbrev Duties := Duty → Nat

namespace Duties

def one (duty : Duty) : Duties := fun d => if duty = d then 1 else 0

def hands (keys : List Key) : Duties
  | .hand k => keys.count k
  | _ => 0

def signals (keys : List Key) : Duties
  | .signal k => keys.count k
  | _ => 0

def registers (k : Key) (deps : List Key) : Duties
  | .register l d => if k = l then deps.count d else 0
  | _ => 0

def fails (keys : List Key) : Duties
  | .fail k => keys.count k
  | _ => 0

theorem hands_append (keys keys' : List Key) :
    hands (keys ++ keys') = hands keys + hands keys' := by
  funext d
  cases d <;> simp [hands]

theorem hands_cons (k : Key) (keys : List Key) :
    hands (k :: keys) = one (.hand k) + hands keys := by
  funext d
  cases d <;> simp [hands, one, List.count_cons, Nat.add_comm]

theorem hands_nil : hands [] = 0 := by
  funext d
  cases d <;> rfl

theorem signals_nil : signals [] = 0 := by
  funext d
  cases d <;> rfl

theorem signals_cons (k : Key) (keys : List Key) :
    signals (k :: keys) = one (.signal k) + signals keys := by
  funext d
  cases d <;> simp [signals, one, List.count_cons, Nat.add_comm]

theorem registers_nil (k : Key) : registers k [] = 0 := by
  funext d
  cases d <;> simp [registers]

theorem registers_cons (k d : Key) (deps : List Key) :
    registers k (d :: deps) = one (.register k d) + registers k deps := by
  funext duty
  cases duty with
  | register l e => by_cases k = l <;> simp_all [registers, one, List.count_cons, Nat.add_comm]
  | _ => rfl

theorem fails_cons (k : Key) (keys : List Key) :
    fails (k :: keys) = one (.fail k) + fails keys := by
  funext d
  cases d <;> simp [fails, one, List.count_cons, Nat.add_comm]

end Duties

-- Who waits for `waits` takes `pending` signals: those that are on their way, and one from each key
-- that still owes one. A key that has not finished owes one.
structure Due (waits : List Key) (pending signals : Nat) (dues : Key → Nat)
    (finished : Key → Bool) : Prop where
  once : waits.Nodup
  counted : pending = signals + (waits.map dues).sum
  bounded : ∀ d, dues d ≤ if d ∈ waits then 1 else 0
  owed : ∀ d ∈ waits, finished d = false → dues d = 1

namespace Due

variable {waits : List Key} {pending signals : Nat} {dues dues' : Key → Nat}
  {finished finished' : Key → Bool}

theorem move (due : Due waits pending signals dues finished) {d : Key} {n : Nat}
    (here : dues' d + n = dues d) (others : ∀ l, l ≠ d → dues' l = dues l)
    (grows : ∀ l, finished l = true → finished' l = true) (done : n ≠ 0 → finished' d = true) :
    Due waits pending (signals + n) dues' finished' := by
  have rest (keys : List Key) (out : d ∉ keys) : keys.map dues' = keys.map dues :=
    List.map_congr_left fun l inside => others l fun same => out (same ▸ inside)
  have bound := due.bounded d
  constructor
  case once => exact due.once
  case counted =>
    by_cases awaited : d ∈ waits
    · have sum := List.sum_map_erase dues awaited
      have sum' := List.sum_map_erase dues' awaited
      rw [rest _ due.once.not_mem_erase] at sum'
      have counted := due.counted
      omega
    · rw [if_neg awaited] at bound
      rw [rest waits awaited, due.counted]
      omega
  case bounded =>
    intro l
    by_cases same : l = d
    · subst same
      omega
    · rw [others l same]
      exact due.bounded l
  case owed =>
    intro l awaited unfinished
    have before : finished l = false := by
      cases gone : finished l with
      | false => rfl
      | true => simp [grows l gone] at unfinished
    have whole := due.owed l awaited before
    by_cases same : l = d
    · subst same
      by_cases none : n = 0
      · omega
      · simp [done none] at unfinished
    · rw [others l same, whole]

theorem signal (due : Due waits (pending + 1) (signals + 1) dues finished) :
    Due waits pending signals dues finished where
  once := due.once
  counted := by
    have counted := due.counted
    omega
  bounded := due.bounded
  owed := due.owed

theorem nothing (due : Due waits pending signals dues finished) (last : pending ≤ signals)
    (d : Key) :
    dues d = 0 := by
  have bound := due.bounded d
  have counted := due.counted
  by_cases awaited : d ∈ waits
  · have sum := List.sum_map_erase dues awaited
    omega
  · simpa [awaited] using bound

theorem rouse (due : Due waits pending (signals + 1) dues finished) (last : pending ≤ 1) :
    Due [] 0 signals dues finished where
  once := .nil
  counted := by
    have counted := due.counted
    simp only [List.map_nil, List.sum_nil]
    omega
  bounded d := by simp [due.nothing (by omega) d]
  owed := by simp

theorem park (due : Due [] 0 signals dues finished) {awaits : List Key} (once : awaits.Nodup) :
    Due awaits (awaits.length + 1) (signals + 1) (fun d => awaits.count d + dues d) finished := by
  have none (d : Key) : dues d = 0 := due.nothing (Nat.zero_le _) d
  have counted := due.counted
  have each (d : Key) (inside : d ∈ awaits) : awaits.count d = 1 :=
    List.count_eq_one_of_mem once inside
  constructor
  case once => exact once
  case counted =>
    have sum : (awaits.map fun d => awaits.count d + dues d).sum = awaits.length := by
      rw [List.map_congr_left (g := fun _ => 1) fun d inside => by simp [none, each d inside]]
      simp
    simp only [List.map_nil, List.sum_nil] at counted
    omega
  case bounded =>
    intro d
    by_cases inside : d ∈ awaits
    · simp [none, each d inside, inside]
    · simp [none, List.count_eq_zero_of_not_mem inside]
  case owed =>
    intro d inside _
    simp [none, each d inside]

theorem outstanding (due : Due waits pending 0 dues finished)
    (settled : ∀ d, finished d = true → dues d = 0) :
    pending = (waits.filter fun d => !finished d).length := by
  have sum (keys : List Key) (among : keys ⊆ waits) :
      (keys.map dues).sum = (keys.filter fun d => !finished d).length := by
    induction keys with
    | nil => rfl
    | cons d rest ih =>
      obtain ⟨inside, among⟩ := List.cons_subset.mp among
      cases done : finished d with
      | true => simp [done, settled d done, ih among]
      | false => simp [done, due.owed d inside done, ih among, Nat.add_comm]
  have counted := due.counted
  rw [sum waits (List.Subset.refl waits)] at counted
  omega

end Due

end Recompute
