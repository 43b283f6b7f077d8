set_option autoImplicit false

namespace Recompute

abbrev Table (α β : Type) := List (α × β)

namespace Table

variable {α β : Type} [DecidableEq α]

def get? : Table α β → α → Option β
  | [], _ => none
  | (k, v) :: rest, a => if k = a then some v else get? rest a

def contains (t : Table α β) (a : α) : Bool := (t.get? a).isSome

def set : Table α β → α → β → Table α β
  | [], a, b => [(a, b)]
  | (k, v) :: rest, a, b => if k = a then (k, b) :: rest else (k, v) :: set rest a b

def modify : Table α β → α → (β → β) → Table α β
  | [], _, _ => []
  | (k, v) :: rest, a, f => if k = a then (k, f v) :: rest else (k, v) :: modify rest a f

omit [DecidableEq α] in
def keys (t : Table α β) : List α := t.map Prod.fst

omit [DecidableEq α] in
def values (t : Table α β) : List β := t.map Prod.snd

@[simp] theorem get?_nil (a : α) : get? ([] : Table α β) a = none := rfl

@[simp] theorem get?_set_self (t : Table α β) (a : α) (b : β) : (t.set a b).get? a = some b := by
  induction t with
  | nil => simp [set, get?]
  | cons e rest ih =>
    obtain ⟨k, v⟩ := e
    by_cases h : k = a <;> simp [set, get?, h, ih]

@[simp] theorem get?_set_of_ne (t : Table α β) {a c : α} (b : β) (ne : c ≠ a) :
    (t.set a b).get? c = t.get? c := by
  induction t with
  | nil => simp [set, get?, ne.symm]
  | cons e rest ih =>
    obtain ⟨k, v⟩ := e
    by_cases h : k = a
    · simp [set, get?, h, ne.symm]
    · by_cases hc : k = c
      · subst hc
        simp [set, get?, h]
      · simp [set, get?, h, hc, ih]

@[simp] theorem get?_modify_self (t : Table α β) (a : α) (f : β → β) :
    (t.modify a f).get? a = (t.get? a).map f := by
  induction t with
  | nil => rfl
  | cons e rest ih =>
    obtain ⟨k, v⟩ := e
    by_cases h : k = a <;> simp [modify, get?, h, ih]

@[simp] theorem get?_modify_of_ne (t : Table α β) {a c : α} (f : β → β) (ne : c ≠ a) :
    (t.modify a f).get? c = t.get? c := by
  induction t with
  | nil => rfl
  | cons e rest ih =>
    obtain ⟨k, v⟩ := e
    by_cases h : k = a
    · simp [modify, get?, h, ne.symm]
    · by_cases hc : k = c
      · subst hc
        simp [modify, get?, h]
      · simp [modify, get?, h, hc, ih]

theorem mem_keys_iff (t : Table α β) (a : α) : a ∈ t.keys ↔ (t.get? a).isSome := by
  induction t with
  | nil => simp [keys]
  | cons e rest ih =>
    obtain ⟨k, v⟩ := e
    by_cases h : k = a
    · simp [keys, get?, h]
    · have h' : a ≠ k := fun e => h e.symm
      simpa [keys, get?, h, h'] using ih

end Table

end Recompute
