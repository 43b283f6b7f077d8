set_option autoImplicit false

namespace Recompute

-- What is to be done to a state that is shared with others. Each action is done at once, and sees
-- the state as it was then; others may act between any two.
inductive Process (σ α : Type) where
  | done (x : α)
  | lost
  | act (update : σ → σ) (next : σ → Process σ α)

namespace Process

variable {σ α β γ : Type}

def bind : Process σ α → (α → Process σ β) → Process σ β
  | done x, f => f x
  | lost, _ => lost
  | act update next, f => act update fun s => (next s).bind f

instance : Monad (Process σ) where
  pure := done
  bind := bind

instance : MonadStateOf σ (Process σ) where
  get := act id done
  set s := act (fun _ => s) fun _ => done ⟨⟩
  modifyGet f := act (fun s => (f s).2) fun s => done (f s).1

theorem bind_done (w : Process σ α) : w.bind done = w := by
  induction w with
  | act update next ih => simp only [bind, ih]
  | _ => rfl

theorem bind_assoc (w : Process σ α) (f : α → Process σ β) (g : β → Process σ γ) :
    (w.bind f).bind g = w.bind fun x => (f x).bind g := by
  induction w with
  | act update next ih => simp only [bind, ih]
  | _ => rfl

instance : LawfulMonad (Process σ) :=
  LawfulMonad.mk' (Process σ) bind_done (fun _ _ => rfl) bind_assoc

-- All of it with nobody else in between; what it has done stays when it is lost.
def run : Process σ α → StateM σ (Option α)
  | done x => Pure.pure (some x)
  | lost => Pure.pure none
  | act update next => fun s => (next s).run (update s)

theorem run_bind (w : Process σ α) (f : α → Process σ β) (s : σ) :
    (w >>= f).run.run s =
      match w.run.run s with
      | (some x, s') => (f x).run.run s'
      | (none, s') => (none, s') := by
  induction w generalizing s with
  | act update next ih => exact ih s (update s)
  | _ => rfl

end Process

end Recompute
