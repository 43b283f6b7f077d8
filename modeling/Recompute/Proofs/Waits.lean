import Recompute.Waiting
import Mathlib.Data.List.Chain
import Mathlib.Data.List.Nodup
import Mathlib.Data.List.Perm.Subperm
import Mathlib.Data.List.TakeWhile
import Mathlib.Logic.Relation

set_option autoImplicit false

namespace Recompute

def Cycle.Next (cycle : Cycle) (k d : Key) : Prop :=
  ∃ i : Nat, cycle[i]? = some k ∧ cycle[(i + 1) % cycle.length]? = some d

theorem Cycle.Next.mem {cycle : Cycle} {k d : Key} (next : Cycle.Next cycle k d) :
    k ∈ cycle ∧ d ∈ cycle := by
  obtain ⟨i, here, there⟩ := next
  exact ⟨List.mem_of_getElem? here, List.mem_of_getElem? there⟩

theorem Cycle.exists_next {cycle : Cycle} {k : Key} (member : k ∈ cycle) :
    ∃ d, Cycle.Next cycle k d := by
  obtain ⟨i, inside, here⟩ := List.getElem_of_mem member
  have wrapped : (i + 1) % cycle.length < cycle.length := Nat.mod_lt _ (Nat.zero_lt_of_lt inside)
  exact ⟨cycle[(i + 1) % cycle.length], i, by simp [inside, here], List.getElem?_eq_getElem wrapped⟩

theorem Cycle.leads {R : Key → Key → Prop} {cycle : Cycle}
    (step : ∀ k d, Cycle.Next cycle k d → R k d) {k m : Key} (here : k ∈ cycle)
    (there : m ∈ cycle) : Relation.ReflTransGen R k m := by
  obtain ⟨i, inside, rfl⟩ := List.getElem_of_mem here
  obtain ⟨j, inside', rfl⟩ := List.getElem_of_mem there
  have walk (n : Nat) : ∀ d, cycle[(i + n) % cycle.length]? = some d →
      Relation.ReflTransGen R cycle[i] d := by
    induction n with
    | zero =>
      intro d found
      rw [Nat.add_zero, Nat.mod_eq_of_lt inside, List.getElem?_eq_getElem inside] at found
      cases found
      exact .refl
    | succ n ih =>
      intro d found
      have wrapped : (i + n) % cycle.length < cycle.length := Nat.mod_lt _ (by omega)
      have before := List.getElem?_eq_getElem wrapped
      apply (ih _ before).tail
      apply step
      refine ⟨(i + n) % cycle.length, before, ?_⟩
      rw [Nat.mod_add_mod, Nat.add_assoc]
      exact found
  apply walk (j + cycle.length - i)
  have around : i + (j + cycle.length - i) = j + cycle.length := by omega
  rw [around, Nat.add_mod_right, Nat.mod_eq_of_lt inside', List.getElem?_eq_getElem inside']

namespace Graph

open Relation (ReflTransGen)

section

variable (edges : Key → Option (List Key))

def Follows (k d : Key) : Prop := ∃ targets, edges k = some targets ∧ d ∈ targets

def IsCycle : Cycle → Prop
  | [] => False
  | k :: rest => (k :: (rest ++ [k])).IsChain (Follows edges)

def LedTo (roots : List Key) (k : Key) : Prop := ∃ root ∈ roots, ReflTransGen (Follows edges) root k

structure Trail (roots path : List Key) (k : Key) : Prop where
  chain : (k :: path).IsChain fun a b => Follows edges b a
  once : path.Nodup
  led : ∀ l ∈ k :: path, LedTo edges roots l

structure Search.Sound (roots : List Key) (s : Search) : Prop where
  cycle : ∀ c ∈ s.found, IsCycle edges c
  led : ∀ c ∈ s.found, ∀ k ∈ c, LedTo edges roots k
  claimed : s.claimed = s.found.flatten
  apart : s.claimed.Nodup

end

variable {edges : Key → Option (List Key)} {roots path : List Key} {k : Key} {s : Search}

theorem IsCycle.next {c : Cycle} (cycle : IsCycle edges c) {k d : Key} (next : Cycle.Next c k d) :
    Follows edges k d := by
  cases c with
  | nil => exact cycle.elim
  | cons first rest =>
    obtain ⟨i, here, there⟩ := next
    obtain ⟨inside, rfl⟩ := List.getElem?_eq_some_iff.mp here
    have chain : ((first :: rest) ++ [first]).IsChain (Follows edges) := cycle
    have follows := List.isChain_iff_getElem.mp chain i (by simpa using inside)
    rw [List.getElem_append_left inside] at follows
    by_cases last : i + 1 = (first :: rest).length
    · simp only [last, Nat.mod_self, List.getElem?_cons_zero, Option.some.injEq] at there
      simpa [last, there] using follows
    · have further : i + 1 < (first :: rest).length := by omega
      rw [Nat.mod_eq_of_lt further, List.getElem?_eq_getElem further] at there
      rw [List.getElem_append_left further] at follows
      exact Option.some.inj there ▸ follows

theorem IsCycle.ne_nil {c : Cycle} (cycle : IsCycle edges c) : c ≠ [] := by
  rintro rfl
  exact cycle

theorem Trail.start (inside : k ∈ roots) : Trail edges roots [] k where
  chain := .singleton k
  once := .nil
  led l here := ⟨k, inside, by simp_all [ReflTransGen.refl]⟩

theorem Trail.extend (trail : Trail edges roots path k) (new : k ∉ path) {d : Key}
    (follows : Follows edges k d) : Trail edges roots (k :: path) d where
  chain := List.isChain_cons_cons.mpr ⟨follows, trail.chain⟩
  once := List.nodup_cons.mpr ⟨new, trail.once⟩
  led l inside := by
    rcases List.mem_cons.mp inside with rfl | inside
    · obtain ⟨root, wanted, leads⟩ := trail.led k List.mem_cons_self
      exact ⟨root, wanted, leads.tail follows⟩
    · exact trail.led l inside

theorem exists_before (inside : k ∈ path) : ∃ rest, path.takeWhile (· ≠ k) ++ k :: rest = path := by
  have split := path.takeWhile_append_dropWhile (p := (· ≠ k))
  cases back : path.dropWhile (· ≠ k) with
  | nil =>
    rw [back, List.append_nil] at split
    rw [← split] at inside
    simpa using List.mem_takeWhile_imp inside
  | cons l rest =>
    have stop := List.head?_dropWhile_not (· ≠ k) path
    rw [back] at stop
    have same : l = k := by simpa using stop
    exact ⟨rest, by rw [← same, ← back, same, split]⟩

theorem Trail.close (trail : Trail edges roots path k) (inside : k ∈ path) :
    IsCycle edges (k :: (path.takeWhile (· ≠ k)).reverse) ∧
      (k :: (path.takeWhile (· ≠ k)).reverse).Nodup ∧
      ∀ l ∈ k :: (path.takeWhile (· ≠ k)).reverse, l ∈ path := by
  obtain ⟨rest, split⟩ := exists_before inside
  have later : ∀ l ∈ path.takeWhile (· ≠ k), l ≠ k := fun l inside => by
    simpa using List.mem_takeWhile_imp inside
  generalize path.takeWhile (· ≠ k) = since at split later ⊢
  have chain := trail.chain
  rw [← split, ← List.cons_append] at chain
  have loop := (List.isChain_split.mp chain).1
  refine ⟨?_, ?_, ?_⟩
  · have turned := List.isChain_reverse.mpr loop
    simpa [IsCycle] using turned
  · have once := split ▸ trail.once
    refine List.nodup_cons.mpr ⟨fun again => later k (List.mem_reverse.mp again) rfl, ?_⟩
    exact List.nodup_reverse.mpr (List.nodup_append.mp once).1
  · intro l here
    rw [← split]
    rcases List.mem_cons.mp here with rfl | here
    · simp
    · exact List.mem_append_left _ (List.mem_reverse.mp here)

namespace Search.Sound

theorem nil : ({} : Search).Sound edges roots := by
  constructor <;> simp

theorem explored (sound : s.Sound edges roots) (explored : List Key) :
    ({ s with explored } : Search).Sound edges roots :=
  { sound with }

theorem close (sound : s.Sound edges roots) (trail : Trail edges roots path k) (inside : k ∈ path) :
    (s.close path k).Sound edges roots := by
  obtain ⟨cycle, once, among⟩ := trail.close inside
  unfold Search.close
  generalize k :: (path.takeWhile (· ≠ k)).reverse = c at cycle once among ⊢
  dsimp only
  split
  next => exact sound
  next free =>
    constructor
    case cycle =>
      intro c' found
      rcases List.mem_append.mp found with old | new
      · exact sound.cycle c' old
      · exact List.mem_singleton.mp new ▸ cycle
    case led =>
      intro c' found l member
      rcases List.mem_append.mp found with old | new
      · exact sound.led c' old l member
      · rw [List.mem_singleton.mp new] at member
        exact trail.led l (List.mem_cons_of_mem k (among l member))
    case claimed => simp [sound.claimed]
    case apart =>
      refine List.nodup_append.mpr ⟨sound.apart, once, ?_⟩
      rintro l old _ new rfl
      exact free (List.any_eq_true.mpr ⟨l, new, by simpa using old⟩)

theorem walk (sound : s.Sound edges roots) (trail : Trail edges roots path k) (fuel : Nat) :
    (Search.walk edges fuel path k s).Sound edges roots := by
  induction fuel generalizing path k s with
  | zero => exact sound
  | succ fuel ih =>
    unfold Search.walk
    split
    next inside => exact sound.close trail inside
    next new =>
      split
      next => exact sound
      next =>
        refine explored ?_ _
        split
        next => exact sound
        next targets found =>
          exact List.foldlRecOn targets _ sound fun s sound d inside =>
            ih sound (trail.extend new ⟨targets, found, inside⟩)

end Search.Sound

variable {V : Type} (g : Graph V)

theorem cyclesFrom_sound (roots : List Key) :
    (∀ c ∈ g.cyclesFrom roots, IsCycle g.waitEdges c ∧ ∀ k ∈ c, LedTo g.waitEdges roots k) ∧
      (g.cyclesFrom roots).flatten.Nodup := by
  have sound : Search.Sound g.waitEdges roots
      (roots.foldl (fun s root => Search.walk g.waitEdges (g.size + 2) [] root s) {}) :=
    List.foldlRecOn roots _ .nil fun s sound root inside => sound.walk (.start inside) _
  exact ⟨fun c found => ⟨sound.cycle c found, sound.led c found⟩, sound.claimed ▸ sound.apart⟩

theorem follows_waitEdges {k d : Key} (follows : Follows g.waitEdges k d) :
    (g.get? k).isSome ∧ (g.node k).isFinished = false ∧ d ∈ (g.node k).awaits := by
  obtain ⟨targets, edges, inside⟩ := follows
  unfold waitEdges at edges
  cases found : g.get? k with
  | none => simp [found] at edges
  | some n =>
    rw [found] at edges
    dsimp only at edges
    split at edges
    · simp at edges
    next unfinished =>
      cases edges
      simpa [node_of_get? found, unfinished] using inside

def Locked (cycle : Cycle) : Prop :=
  ∀ k d, Cycle.Next cycle k d → (g.node k).isFinished = false ∧ d ∈ (g.node k).awaits

variable {g} in
theorem Locked.waits {cycle : Cycle} (locked : g.Locked cycle) {k : Key} (member : k ∈ cycle) :
    (g.node k).isFinished = false ∧ ∃ d ∈ cycle, d ∈ (g.node k).awaits := by
  obtain ⟨d, next⟩ := Cycle.exists_next member
  obtain ⟨unfinished, awaited⟩ := locked k d next
  exact ⟨unfinished, d, next.mem.2, awaited⟩

theorem cyclesFrom_locked (roots : List Key) :
    (g.cyclesFrom roots).flatten.Nodup ∧ ∀ c ∈ g.cyclesFrom roots, c ≠ [] ∧ g.Locked c := by
  obtain ⟨sound, once⟩ := g.cyclesFrom_sound roots
  refine ⟨once, fun c found => ⟨(sound c found).1.ne_nil, fun k d next => ?_⟩⟩
  obtain ⟨-, unfinished, awaited⟩ := g.follows_waitEdges ((sound c found).1.next next)
  exact ⟨unfinished, awaited⟩

section

variable (edges)

abbrev Ends (k : Key) : Prop := Acc (flip (Follows edges)) k

-- Coming by `keys`, the search went on from `s` to `s'`. Unless it has found a cycle, it came only
-- where every walk ends.
structure Search.Covers (keys : List Key) (s s' : Search) : Prop where
  found : s'.found = [] → s.found = []
  ends : s'.found = [] → (∀ k ∈ s.explored, Ends edges k) → ∀ k ∈ keys ++ s'.explored, Ends edges k

end

theorem Trail.follows (trail : Trail edges roots path k) {l : Key} (inside : l ∈ path) :
    ∃ d, Follows edges l d := by
  have chain := trail.chain
  clear trail
  induction path generalizing k with
  | nil => simp at inside
  | cons a rest ih =>
    obtain ⟨next, chain⟩ := List.isChain_cons_cons.mp chain
    rcases List.mem_cons.mp inside with rfl | inside
    · exact ⟨k, next⟩
    · exact ih inside chain

theorem Trail.length_le (trail : Trail edges roots path k) {nodes : List Key}
    (known : ∀ k d, Follows edges k d → k ∈ nodes) : path.length ≤ nodes.length := by
  refine (trail.once.subperm fun l inside => ?_).length_le
  obtain ⟨d, follows⟩ := trail.follows inside
  exact known l d follows

theorem Search.Sound.found_close (sound : s.Sound edges roots) (path : List Key) (k : Key) :
    (s.close path k).found ≠ [] := by
  unfold Search.close
  dsimp only
  split
  next taken =>
    obtain ⟨l, -, before⟩ := List.any_eq_true.mp taken
    rw [sound.claimed] at before
    obtain ⟨c, found, -⟩ := List.mem_flatten.mp (of_decide_eq_true before)
    exact List.ne_nil_of_mem found
  next => simp

namespace Search.Covers

variable {s' s'' : Search} {keys keys' : List Key}

theorem refl (s : Search) : s.Covers edges [] s := ⟨id, fun _ => id⟩

theorem trans (first : s.Covers edges keys s') (second : s'.Covers edges keys' s'') :
    s.Covers edges (keys ++ keys') s'' where
  found none := first.found (second.found none)
  ends none before := by
    have earlier := first.ends (second.found none) before
    have later := second.ends none fun l inside => earlier l (List.mem_append_right _ inside)
    intro l inside
    rw [List.append_assoc] at inside
    rcases List.mem_append.mp inside with here | inside
    · exact earlier l (List.mem_append_left _ here)
    · exact later l inside

theorem foldl {f : Search → Key → Search}
    (step : ∀ d ∈ keys, ∀ s : Search, s.Sound edges roots →
      (f s d).Sound edges roots ∧ s.Covers edges [d] (f s d))
    (sound : s.Sound edges roots) : s.Covers edges keys (keys.foldl f s) := by
  induction keys generalizing s with
  | nil => exact .refl s
  | cons d rest ih =>
    obtain ⟨sound', covers⟩ := step d List.mem_cons_self s sound
    exact covers.trans (ih (fun d inside => step d (List.mem_cons_of_mem _ inside)) sound')

theorem leave (covers : s.Covers edges keys s') (all : ∀ d, Follows edges k d → d ∈ keys) :
    s.Covers edges [k] { s' with explored := s'.explored ++ [k] } where
  found := covers.found
  ends none before := by
    have known := covers.ends none before
    have here : Ends edges k :=
      .intro k fun d follows => known d (List.mem_append_left _ (all d follows))
    intro l inside
    simp only [List.singleton_append, List.mem_cons, List.mem_append, List.not_mem_nil,
      or_false] at inside
    rcases inside with rfl | inside | rfl
    · exact here
    · exact known l (List.mem_append_right _ inside)
    · exact here

end Search.Covers

theorem Search.Sound.covers {nodes : List Key} (known : ∀ k d, Follows edges k d → k ∈ nodes)
    (sound : s.Sound edges roots) (trail : Trail edges roots path k) {fuel : Nat}
    (enough : nodes.length < fuel + path.length) :
    s.Covers edges [k] (Search.walk edges fuel path k s) := by
  induction fuel generalizing path k s with
  | zero =>
    have := trail.length_le known
    omega
  | succ fuel ih =>
    unfold Search.walk
    split
    next inside =>
      have some := sound.found_close path k
      exact ⟨fun none => absurd none some, fun none => absurd none some⟩
    next new =>
      split
      next explored =>
        refine ⟨id, fun _ before l inside => before l ?_⟩
        rcases List.mem_cons.mp inside with rfl | inside
        · exact explored
        · exact inside
      next =>
        split
        next none =>
          refine (Search.Covers.refl s).leave fun d follows => ?_
          obtain ⟨targets, some, -⟩ := follows
          simp [none] at some
        next targets found =>
          refine Search.Covers.leave (Search.Covers.foldl (fun d inside s sound => ?_) sound)
            fun d follows => ?_
          · have further := trail.extend new ⟨targets, found, inside⟩
            refine ⟨sound.walk further fuel, ih sound further ?_⟩
            rw [List.length_cons]
            omega
          · obtain ⟨targets', found', inside⟩ := follows
            cases found.symm.trans found'
            exact inside

theorem mem_keys_of_follows (k d : Key) (follows : Follows g.waitEdges k d) : k ∈ g.keys := by
  have found := (g.follows_waitEdges follows).1
  rw [get?, ← Table.mem_keys_iff] at found
  exact found

theorem ends_of_cyclesFrom_eq_nil {roots : List Key} (none : g.cyclesFrom roots = []) {k : Key}
    (inside : k ∈ roots) : Ends g.waitEdges k := by
  have covers : ({} : Search).Covers g.waitEdges roots
      (roots.foldl (fun s root => Search.walk g.waitEdges (g.size + 2) [] root s) {}) := by
    have fresh : ({} : Search).Sound g.waitEdges roots := .nil
    refine .foldl (fun root inside s sound => ?_) fresh
    refine ⟨sound.walk (.start inside) _, sound.covers g.mem_keys_of_follows (.start inside) ?_⟩
    simp only [keys, Table.keys, size, List.length_map, List.length_nil]
    omega
  exact covers.ends none (by simp) k (List.mem_append_left _ inside)

abbrev Awaits (k d : Key) : Prop := ReflTransGen (fun k d => d ∈ g.awaits k) k d

def ClosedUpTo (frontier seen : List Key) : Prop :=
  ∀ k ∈ seen, k ∈ frontier ∨ ∀ d ∈ g.awaits k, d ∈ seen

theorem awaits_of_not_mem_keys {k : Key} (out : k ∉ g.keys) : g.awaits k = [] := by
  have none : g.get? k = .none := by
    simpa [get?] using mt (Table.mem_keys_iff g.nodes k).mpr out
  simp [awaits, none]

theorem mem_waitClosure_of_mem {n : Nat} {frontier seen : List Key} {k : Key} (inside : k ∈ seen) :
    k ∈ g.waitClosure n frontier seen := by
  induction n generalizing frontier seen with
  | zero => exact inside
  | succ n ih =>
    unfold waitClosure
    dsimp only
    split
    · exact inside
    · exact ih ((mem_union seen _ k).mpr (.inl inside))

theorem awaits_of_mem_waitClosure {root : Key} {n : Nat} {frontier seen : List Key}
    (known : ∀ k ∈ seen, g.Awaits root k) (latest : ∀ k ∈ frontier, g.Awaits root k) :
    ∀ k ∈ g.waitClosure n frontier seen, g.Awaits root k := by
  induction n generalizing frontier seen with
  | zero => exact known
  | succ n ih =>
    unfold waitClosure
    dsimp only
    have new : ∀ d ∈ (frontier.flatMap g.awaits).filter (· ∉ seen), g.Awaits root d := by
      intro d inside
      obtain ⟨k, before, awaited⟩ := List.mem_flatMap.mp (List.mem_filter.mp inside).1
      exact (latest k before).tail awaited
    split
    · exact known
    · refine ih (fun d inside => ?_) new
      exact ((mem_union seen _ d).mp inside).elim (known d) (new d)

theorem closedUpTo_waitClosure {n : Nat} {frontier seen : List Key}
    (closed : g.ClosedUpTo frontier seen)
    (enough : (g.keys.countP fun k => decide (k ∉ seen)) < n ∨ ∀ k ∈ frontier, g.awaits k = []) :
    g.ClosedUpTo [] (g.waitClosure n frontier seen) := by
  -- A round that finds keys with nodes leaves fewer of those unseen; one that finds none is the last.
  induction n generalizing frontier seen with
  | zero =>
    intro k inside
    rcases closed k inside with latest | all
    · exact .inr (by simp [enough.resolve_left (by omega) k latest])
    · exact .inr all
  | succ n ih =>
    unfold waitClosure
    dsimp only
    generalize found : (frontier.flatMap g.awaits).filter (· ∉ seen) = new
    have mem_new (d : Key) : d ∈ new ↔ (∃ k ∈ frontier, d ∈ g.awaits k) ∧ d ∉ seen := by
      simp [← found]
    split
    next none =>
      intro k inside
      refine .inr ((closed k inside).elim (fun latest d awaited => ?_) id)
      by_contra out
      have : d ∈ new := (mem_new d).mpr ⟨⟨k, latest, awaited⟩, out⟩
      simp [none] at this
    next some =>
      refine ih (fun k inside => ?_) ?_
      · rcases (mem_union seen new k).mp inside with old | inside
        · refine .inr fun d awaited => (mem_union seen new d).mpr ?_
          rcases closed k old with latest | all
          · by_cases out : d ∈ seen
            · exact .inl out
            · exact .inr ((mem_new d).mpr ⟨⟨k, latest, awaited⟩, out⟩)
          · exact .inl (all d awaited)
        · exact .inl inside
      · by_cases nodes : ∃ k ∈ new, k ∈ g.keys
        · obtain ⟨k, inside, kept⟩ := nodes
          left
          have fresh : k ∉ seen := ((mem_new k).mp inside).2
          have fewer : (g.keys.countP fun k => decide (k ∉ union seen new)) <
              g.keys.countP fun k => decide (k ∉ seen) := by
            have split := List.countP_eq_countP_filter_add g.keys
              (fun k => decide (k ∉ seen)) (fun k => decide (k ∈ new))
            have rest : ((g.keys.filter fun k => !decide (k ∈ new)).countP
                fun k => decide (k ∉ seen)) =
                g.keys.countP fun k => decide (k ∉ union seen new) := by
              rw [List.countP_filter]
              refine List.countP_congr fun l _ => ?_
              simp [mem_union]
            have some : 0 < (g.keys.filter fun k => decide (k ∈ new)).countP
                fun k => decide (k ∉ seen) :=
              List.countP_pos_iff.mpr ⟨k, by simp [kept, inside], by simpa using fresh⟩
            omega
          rcases enough with enough | idle
          · omega
          · obtain ⟨⟨l, latest, awaited⟩, -⟩ := (mem_new k).mp inside
            simp [idle l latest] at awaited
        · right
          intro k inside
          exact g.awaits_of_not_mem_keys fun kept => nodes ⟨k, inside, kept⟩

theorem dependsOn_iff (root target : Key) : g.dependsOn root target = true ↔ g.Awaits root target := by
  unfold dependsOn
  rw [decide_eq_true_iff]
  constructor
  · refine g.awaits_of_mem_waitClosure ?_ ?_ target <;> simp [ReflTransGen.refl]
  · have bound : (g.keys.countP fun k => decide (k ∉ [root])) < g.size + 1 := by
      have := List.countP_le_length (p := fun k => decide (k ∉ [root])) (l := g.keys)
      simp only [keys, Table.keys, List.length_map] at this
      exact Nat.lt_succ_of_le this
    have closed : g.ClosedUpTo [] (g.waitClosure (g.size + 1) [root] [root]) :=
      g.closedUpTo_waitClosure (fun k inside => .inl inside) (.inl bound)
    intro awaits
    induction awaits with
    | refl => exact g.mem_waitClosure_of_mem (by simp)
    | tail _ awaited ih =>
      exact (closed _ ih).elim (fun none => absurd none (by simp)) fun all => all _ awaited

end Graph

end Recompute
