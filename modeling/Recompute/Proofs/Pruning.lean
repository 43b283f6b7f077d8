import Recompute.Proofs.Step
import Recompute.Proofs.Waits

set_option autoImplicit false

namespace Recompute

namespace Graph

structure Prunes (alive : Key → Bool) (edges pruned : Key → Option (List Key)) : Prop where
  dead : ∀ k, alive k = false → edges k = none
  kept : ∀ k, alive k = true → (pruned k).getD [] = ((edges k).getD []).filter alive

structure Search.Like (alive : Key → Bool) (s s' : Search) : Prop where
  found : s'.found = s.found
  claimed : s'.claimed = s.claimed
  explored : ∀ k, alive k = true → (k ∈ s'.explored ↔ k ∈ s.explored)

variable {edges pruned : Key → Option (List Key)} {alive : Key → Bool} {path roots : List Key}
  {k : Key} {s s' : Search}

theorem Search.walk_of_new (new : k ∉ path) (unexplored : k ∉ s.explored) (fuel : Nat) :
    Search.walk edges (fuel + 1) path k s =
      let s := ((edges k).getD []).foldl (fun s d => Search.walk edges fuel (k :: path) d s) s
      { s with explored := s.explored ++ [k] } := by
  rw [Search.walk, if_neg new, if_neg unexplored]
  cases edges k <;> rfl

namespace Search.Like

theorem refl (s : Search) : s.Like alive s := ⟨rfl, rfl, fun _ _ => Iff.rfl⟩

theorem close (like : s.Like alive s') (path : List Key) (k : Key) :
    (s.close path k).Like alive (s'.close path k) := by
  unfold Search.close
  dsimp only
  rw [like.claimed]
  split
  · exact like
  · exact ⟨by rw [like.found], rfl, like.explored⟩

theorem foldl {f f' : Search → Key → Search}
    (skip : ∀ d s s', alive d = false → s.Like alive s' → (f s d).Like alive s')
    (step : ∀ d s s', alive d = true → s.Like alive s' → (f s d).Like alive (f' s' d))
    (like : s.Like alive s') (targets : List Key) :
    (targets.foldl f s).Like alive ((targets.filter alive).foldl f' s') := by
  induction targets generalizing s s' with
  | nil => exact like
  | cons d rest ih =>
    cases lives : alive d with
    | false =>
      rw [List.filter_cons_of_neg (by simp [lives])]
      exact ih (skip d s s' lives like)
    | true =>
      rw [List.filter_cons_of_pos lives]
      exact ih (step d s s' lives like)

theorem skip (like : s.Like alive s') (none : edges k = none) (dead : alive k = false)
    (path_alive : ∀ l ∈ path, alive l = true) (fuel : Nat) :
    (Search.walk edges fuel path k s).Like alive s' := by
  cases fuel with
  | zero => exact like
  | succ fuel =>
    have new : k ∉ path := fun inside => by simp [path_alive k inside] at dead
    by_cases explored : k ∈ s.explored
    · rw [Search.walk, if_neg new, if_pos explored]
      exact like
    · rw [Search.walk_of_new new explored, none]
      refine ⟨like.found, like.claimed, fun l lives => ?_⟩
      have other : l ≠ k := by
        rintro rfl
        simp [dead] at lives
      simp [like.explored l lives, other]

theorem walk (prunes : Prunes alive edges pruned) (like : s.Like alive s') (lives : alive k = true)
    (path_alive : ∀ l ∈ path, alive l = true) (fuel : Nat) :
    (Search.walk edges fuel path k s).Like alive (Search.walk pruned fuel path k s') := by
  induction fuel generalizing path k s s' with
  | zero => exact like
  | succ fuel ih =>
    by_cases met : k ∈ path
    · rw [Search.walk, Search.walk, if_pos met, if_pos met]
      exact like.close path k
    · by_cases explored : k ∈ s.explored
      · have explored' := (like.explored k lives).mpr explored
        rw [Search.walk, Search.walk, if_neg met, if_neg met, if_pos explored, if_pos explored']
        exact like
      · have unexplored' := mt (like.explored k lives).mp explored
        have longer : ∀ l ∈ k :: path, alive l = true :=
          List.forall_mem_cons.mpr ⟨lives, path_alive⟩
        have below := foldl (fun d _ _ dead like => like.skip (prunes.dead d dead) dead longer fuel)
          (fun d _ _ lives like => ih like lives longer) like ((edges k).getD [])
        rw [Search.walk_of_new met explored, Search.walk_of_new met unexplored',
          prunes.kept k lives]
        refine ⟨below.found, below.claimed, fun l lives => ?_⟩
        simp [below.explored l lives]

end Search.Like

theorem Search.walk_fuel {nodes nodes' : List Key} (known : ∀ k d, Follows edges k d → k ∈ nodes)
    (known' : ∀ k d, Follows edges k d → k ∈ nodes') (trail : Trail edges roots path k)
    {fuel fuel' : Nat} (enough : nodes.length < fuel + path.length)
    (enough' : nodes'.length < fuel' + path.length) (s : Search) :
    Search.walk edges fuel path k s = Search.walk edges fuel' path k s := by
  have short := trail.length_le known
  have short' := trail.length_le known'
  induction fuel generalizing fuel' path k s with
  | zero => omega
  | succ fuel ih =>
    cases fuel' with
    | zero => omega
    | succ fuel' =>
      by_cases met : k ∈ path
      · rw [Search.walk, Search.walk, if_pos met, if_pos met]
      · by_cases explored : k ∈ s.explored
        · rw [Search.walk, Search.walk, if_neg met, if_neg met, if_pos explored, if_pos explored]
        · rw [Search.walk_of_new met explored, Search.walk_of_new met explored]
          cases found : edges k with
          | none => rfl
          | some targets =>
            have same : targets.foldl (fun s d => Search.walk edges fuel (k :: path) d s) s =
                targets.foldl (fun s d => Search.walk edges fuel' (k :: path) d s) s := by
              refine List.foldl_ext _ _ _ fun s d inside => ?_
              have further := trail.extend met ⟨targets, found, inside⟩
              refine ih further ?_ ?_ s (further.length_le known) (further.length_le known') <;>
                rw [List.length_cons] <;> omega
            simp only [Option.getD_some, same]

variable {V : Type} {g g' : Graph V}

def blockers (g : Graph V) (k : Key) : Option (List Key) :=
  if (g.node k).isFinished then none else some (g.missing (g.node k).awaits)

theorem isSome_blockers (g : Graph V) (k : Key) :
    (g.blockers k).isSome = !(g.node k).isFinished := by
  unfold blockers
  cases (g.node k).isFinished <;> rfl

theorem prunes_blockers (g : Graph V) :
    Prunes (fun k => (g.blockers k).isSome) g.waitEdges g.blockers := by
  constructor
  case dead =>
    intro k dead
    rw [isSome_blockers, Bool.not_eq_false'] at dead
    unfold waitEdges
    split
    next => rfl
    next n found =>
      rw [node_of_get? found] at dead
      rw [if_pos dead]
  case kept =>
    intro k lives
    rw [isSome_blockers, Bool.not_eq_true'] at lives
    have edges : (g.waitEdges k).getD [] = (g.node k).awaits := by
      unfold waitEdges
      split
      next none => simp [node, none, Node.awaits]
      next n found =>
        rw [node_of_get? found] at lives ⊢
        rw [lives]
        rfl
    rw [edges, blockers, lives]
    exact List.filter_congr fun d _ => (g.isSome_blockers d).symm

theorem mem_keys_of_follows_blockers {d : Key} (follows : Follows g.blockers k d) : k ∈ g.keys := by
  obtain ⟨targets, found, inside⟩ := follows
  by_contra out
  have none : g.get? k = .none := by
    simpa [get?] using mt (Table.mem_keys_iff g.nodes k).mpr out
  rw [blockers, node, none] at found
  simp only [Option.getD_none] at found
  cases found
  simp [missing, Node.awaits] at inside

-- Which cycles are found is settled by who is not finished and waits for whom of those.
theorem cyclesFrom_congr (same : g'.blockers = g.blockers) (roots : List Key) :
    g'.cyclesFrom roots = g.cyclesFrom roots := by
  have search (g : Graph V) : g.cyclesFrom roots =
      ((roots.filter fun k => (g.blockers k).isSome).foldl
        (fun s root => Search.walk g.blockers (g.size + 2) [] root s) {}).found := by
    have prunes := g.prunes_blockers
    have start : ∀ l ∈ ([] : List Key), (g.blockers l).isSome = true := by simp
    have like := Search.Like.foldl
      (fun d s s' dead like => like.skip (prunes.dead d dead) dead start (g.size + 2))
      (fun d s s' lives like => like.walk prunes lives start (g.size + 2))
      (.refl {}) roots
    exact like.found.symm
  have length (g : Graph V) : g.keys.length < g.size + 2 := by
    simp only [keys, Table.keys, size, List.length_map]
    omega
  rw [search g, search g', same]
  congr 1
  refine List.foldl_ext _ _ _ fun s root inside => ?_
  exact Search.walk_fuel (fun _ _ follows => mem_keys_of_follows_blockers (same.symm ▸ follows))
    (fun _ _ => mem_keys_of_follows_blockers) (.start inside) (length g') (length g) s

end Graph

end Recompute
