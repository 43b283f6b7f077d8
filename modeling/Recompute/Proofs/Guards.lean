import Recompute.Process
import Mathlib.Algebra.Group.Defs

set_option autoImplicit false

namespace Recompute.Process

variable {σ α β D : Type} [AddCommMonoid D] {inv : D → σ → Prop} {w : Process σ α}
  {left : α → D → Prop} {owed : D}

-- Each action of `w` keeps what holds of the state and of all that is owed, whatever the others owe
-- by then. First `w` owes `owed` itself, and what it still owes at its end is `left`.
def Guards (inv : D → σ → Prop) : Process σ α → (α → D → Prop) → D → Prop
  | done x, left, owed => left x owed
  | lost, _, _ => False
  | act update next, left, owed => ∀ others s, inv (owed + others) s →
      ∃ owed', inv (owed' + others) (update s) ∧ Guards inv (next s) left owed'

namespace Guards

theorem mono {left' : α → D → Prop} (guards : Guards inv w left owed)
    (weaker : ∀ x d, left x d → left' x d) : Guards inv w left' owed := by
  induction w generalizing owed with
  | done x => exact weaker x owed guards
  | lost => cases guards
  | act update next ih =>
    intro others s holds
    obtain ⟨owed', holds', rest⟩ := guards others s holds
    exact ⟨owed', holds', ih s rest⟩

theorem bind {f : α → Process σ β} {left' : β → D → Prop} (first : Guards inv w left owed)
    (rest : ∀ x d, left x d → Guards inv (f x) left' d) : Guards inv (w >>= f) left' owed := by
  induction w generalizing owed with
  | done x => exact rest x owed first
  | lost => cases first
  | act update next ih =>
    intro others s holds
    obtain ⟨owed', holds', later⟩ := first others s holds
    exact ⟨owed', holds', ih s later⟩

theorem frame (guards : Guards inv w left owed) (more : D) :
    Guards inv w (fun x d => ∃ d', left x d' ∧ d = d' + more) (owed + more) := by
  induction w generalizing owed with
  | done x => exact ⟨owed, guards, rfl⟩
  | lost => cases guards
  | act update next ih =>
    intro others s holds
    rw [add_assoc] at holds
    obtain ⟨owed', holds', rest⟩ := guards (more + others) s holds
    refine ⟨owed' + more, ?_, ih s rest⟩
    rwa [add_assoc]

theorem andThen {f : α → Process σ β} {left' : β → D → Prop}
    (first : Guards inv w (fun _ d => d = owed) owed) (rest : ∀ x, Guards inv (f x) left' owed) :
    Guards inv (w >>= f) left' owed :=
  first.bind fun x _ same => same ▸ rest x

theorem bind_frame {f : α → Process σ β} {left' : β → D → Prop} {ends : α → D}
    (first : Guards inv w (fun x d => d = ends x) owed) {more : D}
    (rest : ∀ x, Guards inv (f x) left' (ends x + more)) :
    Guards inv (w >>= f) left' (owed + more) := by
  refine (first.frame more).bind fun x d owes => ?_
  obtain ⟨_, rfl, rfl⟩ := owes
  exact rest x

theorem run (guards : Guards inv w left owed) {others : D} {s : σ} (holds : inv (owed + others) s) :
    ∃ x d s', w.run.run s = (some x, s') ∧ left x d ∧ inv (d + others) s' := by
  induction w generalizing owed s with
  | done x => exact ⟨x, owed, s, rfl, guards, holds⟩
  | lost => cases guards
  | act update next ih =>
    obtain ⟨owed', holds', rest⟩ := guards others s holds
    exact ih s rest holds'

end Guards

end Recompute.Process
