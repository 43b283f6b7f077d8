import Recompute.Proofs.Records

set_option autoImplicit false

namespace Recompute

variable {V : Type}

open Relation (ReflTransGen)

section Union

variable {α β : Type} [DecidableEq α]

theorem foldl_union_eq (part : β → List α) (xs : List β) (acc : List α) :
    xs.foldl (fun acc x => union acc (part x)) acc = union acc (xs.flatMap part) := by
  induction xs generalizing acc with
  | nil => rfl
  | cons x rest ih => rw [List.foldl_cons, ih, List.flatMap_cons, union_append]

theorem findSome?_union (find : α → Option β) (old new : List α) :
    (union old new).findSome? find = (old.findSome? find).or (new.findSome? find) := by
  induction new using List.reverseRecOn with
  | nil => simp [union]
  | append_singleton new a ih =>
    rw [union_concat, List.findSome?_append, ← Option.or_assoc, ← ih]
    split
    next known =>
      cases found : (union old new).findSome? find with
      | some b => rfl
      | none =>
        rw [List.findSome?_eq_none_iff] at found
        simp [found a known]
    next => rw [List.findSome?_append]

omit [DecidableEq α] in
theorem findSome?_flatMap {γ : Type} (find : α → Option β) (part : γ → List α) (xs : List γ) :
    (xs.flatMap part).findSome? find = xs.findSome? fun x => (part x).findSome? find := by
  induction xs with
  | nil => rfl
  | cons x rest ih =>
    rw [List.flatMap_cons, List.findSome?_append, ih, List.findSome?_cons]
    cases (part x).findSome? find <;> rfl

omit [DecidableEq α] in
theorem findSome?_congr {find find' : α → Option β} {xs : List α}
    (agree : ∀ x ∈ xs, find x = find' x) : xs.findSome? find = xs.findSome? find' := by
  induction xs with
  | nil => rfl
  | cons x rest ih =>
    have later := ih fun y inside => agree y (List.mem_cons_of_mem x inside)
    rw [List.findSome?_cons, List.findSome?_cons, agree x List.mem_cons_self, later]

end Union

namespace Failure

variable {failures : List Failure}

theorem causes_merge (failures : List Failure) :
    (merge failures).causes = union [] (failures.flatMap causes) :=
  foldl_union_eq causes failures []

theorem cycles_merge (failures : List Failure) :
    (merge failures).cycles = union [] (failures.flatMap cycles) :=
  foldl_union_eq cycles failures []

theorem mem_causes_merge {r : Key} :
    r ∈ (merge failures).causes ↔ ∃ f ∈ failures, r ∈ f.causes := by
  simp [causes_merge, mem_union]

theorem mem_cycles_merge {c : Cycle} :
    c ∈ (merge failures).cycles ↔ ∃ f ∈ failures, c ∈ f.cycles := by
  simp [cycles_merge, mem_union]

theorem nodup_causes_merge (failures : List Failure) : (merge failures).causes.Nodup :=
  causes_merge failures ▸ nodup_union .nil _

theorem nodup_cycles_merge (failures : List Failure) : (merge failures).cycles.Nodup :=
  cycles_merge failures ▸ nodup_union .nil _

theorem fault?_merge {own : Key → Option Fault}
    (first : ∀ f ∈ failures, f.fault? = f.causes.findSome? own) :
    (merge failures).fault? = (merge failures).causes.findSome? own := by
  rw [causes_merge, findSome?_union, List.findSome?_nil, Option.none_or, findSome?_flatMap]
  exact findSome?_congr first

inductive Attributed (k : Key) : Failure → Prop
  | direct (fault : Fault) : Attributed k (.direct k fault)
  | cycle {members : Cycle} (member : k ∈ members) : Attributed k (.cycle members)
  | transitive {causes : List Key} {fault : Option Fault} {cycles : List Cycle} (some : causes ≠ [])
      (once : causes.Nodup) : Attributed k (.transitive causes fault cycles)

theorem Attributed.causes {k : Key} {f : Failure} (attributed : Attributed k f) : f.causes ≠ [] := by
  cases attributed with
  | direct => exact List.cons_ne_nil _ _
  | cycle member => exact List.ne_nil_of_mem member
  | transitive some => exact some

end Failure

theorem Node.failure?_eq_some {n : Node V} {f : Failure} :
    n.failure? = some f ↔ n.status = .failed ∧ n.cached = some (.error f) := by
  unfold failure?
  split <;> simp_all

theorem Node.inject_value [BEq V] (n : Node V) (v : V) (version : Nat) :
    ∃ w, (n.inject v version).2.cached = some (.ok w) ∧
      ((n.inject v version).1.changed = false → ∃ w, n.cached = some (.ok w)) := by
  obtain ⟨-, -, -, -, -, ⟨changed, cached, -⟩ | ⟨-, -, held, cached, -⟩⟩ := n.inject_facts v version
  · exact ⟨v, cached, by simp [changed]⟩
  · unfold holds at held
    split at held
    next old before => exact ⟨old, cached.trans before, fun _ => ⟨old, before⟩⟩
    next => simp at held

namespace Graph

def Failed (g : Graph V) (k : Key) (f : Failure) : Prop :=
  (g.node k).outcome? = some (.error f)

def Failing (g : Graph V) (k : Key) : Prop := ∃ f, g.Failed k f

def Conveys (g : Graph V) (d k : Key) : Prop := k ∈ (g.node d).dependents ∧ g.Failing k

def Dooms (g : Graph V) (r k : Key) : Prop := g.Failing r ∧ ReflTransGen g.Conveys r k

def ownFault (g : Graph V) (r : Key) : Option Fault :=
  match (g.node r).outcome? with
  | some (.error (.direct _ fault)) => some fault
  | _ => none

-- What the failure `f` of `k` tells holds still: its causes and the members of its cycles have
-- failed like that, and it is from them that `k` has it.
structure Explained (g : Graph V) (k : Key) (f : Failure) : Prop where
  attributed : f.Attributed k
  causes : ∀ r ∈ f.causes, g.Dooms r k ∧ ∃ f', g.Failed r f' ∧ (f'.kind = .direct ∨ f'.kind = .cycle)
  cycles : ∀ c ∈ f.cycles, ∀ m ∈ c, g.Dooms m k ∧ g.Failed m (.cycle c)
  fault : f.fault? = f.causes.findSome? g.ownFault

def Pending (g : Graph V) (todo : List Key) (k : Key) : Prop := ∃ d ∈ todo, g.Dooms d k

def Accounted (g : Graph V) (todo : List Key) : Prop :=
  ∀ k f, g.Failed k f → g.Pending todo k ∨ g.Explained k f

variable {g g' : Graph V} {todo todo' : List Key} {r d k : Key} {f : Failure}

theorem Failed.finished (failed : g.Failed k f) :
    (g.node k).isFinished = true ∧ (g.node k).cached = some (.error f) :=
  Node.outcome?_eq_some.mp failed

theorem failed_iff (shape : (g.node k).WellFormed) :
    g.Failed k f ↔ (g.node k).isDirty = false ∧ (g.node k).failure? = some f := by
  constructor
  · intro failed
    have finished := failed.finished.1
    simp only [Node.isFinished, Bool.and_eq_true, Bool.not_eq_true'] at finished
    exact ⟨finished.2, shape.failure?_of_outcome? failed⟩
  · rintro ⟨clean, failure⟩
    obtain ⟨status, cached⟩ := Node.failure?_eq_some.mp failure
    apply Node.outcome?_eq_some.mpr
    simp [Node.isFinished, status, Status.isSettled, clean, cached]

theorem Failed.unique {f' : Failure} (failed : g.Failed k f) (failed' : g.Failed k f') : f = f' :=
  Except.error.inj (Option.some.inj (failed.symm.trans failed'))

theorem failed_congr (same : Node.SameResult (g.node k) (g'.node k)) :
    g'.Failed k f ↔ g.Failed k f := by
  rw [Failed, Failed, same.outcome?]

theorem Failed.dooms (failed : g.Failed k f) : g.Dooms k k := ⟨⟨f, failed⟩, .refl⟩

theorem Dooms.tail (dooms : g.Dooms r d) (conveys : g.Conveys d k) : g.Dooms r k :=
  ⟨dooms.1, dooms.2.tail conveys⟩

theorem not_pending_nil : ¬ g.Pending [] k := by
  rintro ⟨d, inside, -⟩
  exact List.not_mem_nil inside

theorem ownFault_of_failed (failed : g.Failed r f) :
    g.ownFault r = if f.kind = .direct then f.fault? else none := by
  rw [ownFault, failed]
  cases f <;> rfl

-- From `g` to `g'` failures are kept or gone, and whatever loses its connection to where it comes
-- from is in the way of what is still to be visited.
structure Conserves (g g' : Graph V) (todo todo' : List Key) : Prop where
  same : ∀ x f, g.Failing x → g'.Failed x f → g.Failed x f
  edge : ∀ y z, g.Failing y → g.Conveys y z → g'.Failing z →
    g'.Failing y ∧ z ∈ (g'.node y).dependents ∨ g'.Pending todo' z
  start : ∀ x ∈ todo, g'.Failing x → g'.Pending todo' x

namespace Conserves

theorem dooms (conserves : g.Conserves g' todo todo') (dooms : g.Dooms r k)
    (failing : g'.Failing k) : g'.Dooms r k ∨ g'.Pending todo' k := by
  obtain ⟨start, path⟩ := dooms
  have failing₀ {y : Key} (path : ReflTransGen g.Conveys r y) : g.Failing y := by
    cases path with
    | refl => exact start
    | tail _ conveys => exact conveys.2
  induction path with
  | refl => exact .inl ⟨failing, .refl⟩
  | @tail y z path conveys ih =>
    rcases conserves.edge y z (failing₀ path) conveys failing with ⟨here, depends⟩ | pending
    · rcases ih here with dooms | ⟨d, inside, dooms⟩
      · exact .inl (dooms.tail ⟨depends, failing⟩)
      · exact .inr ⟨d, inside, dooms.tail ⟨depends, failing⟩⟩
    · exact .inr pending

theorem pending (conserves : g.Conserves g' todo todo') (pending : g.Pending todo k)
    (failing : g'.Failing k) : g'.Pending todo' k := by
  obtain ⟨d, inside, dooms⟩ := pending
  rcases conserves.dooms dooms failing with ⟨still, path⟩ | pending
  · obtain ⟨d', inside', dooms'⟩ := conserves.start d inside still
    exact ⟨d', inside', dooms'.1, dooms'.2.trans path⟩
  · exact pending

theorem explained (conserves : g.Conserves g' todo todo') (explained : g.Explained k f)
    (failed : g'.Failed k f) : g'.Pending todo' k ∨ g'.Explained k f := by
  by_cases pending : g'.Pending todo' k
  · exact .inl pending
  have carry {r : Key} {f' : Failure} (dooms : g.Dooms r k) (was : g.Failed r f') :
      g'.Dooms r k ∧ g'.Failed r f' := by
    have dooms' := (conserves.dooms dooms ⟨f, failed⟩).resolve_right pending
    obtain ⟨f'', now⟩ := dooms'.1
    have same := (conserves.same r f'' ⟨f', was⟩ now).unique was
    exact ⟨dooms', same ▸ now⟩
  right
  constructor
  case attributed => exact explained.attributed
  case causes =>
    intro r inside
    obtain ⟨dooms, f', was, kind⟩ := explained.causes r inside
    obtain ⟨dooms', now⟩ := carry dooms was
    exact ⟨dooms', f', now, kind⟩
  case cycles =>
    intro c inside m member
    obtain ⟨dooms, was⟩ := explained.cycles c inside m member
    exact carry dooms was
  case fault =>
    rw [explained.fault]
    apply findSome?_congr
    intro r inside
    obtain ⟨dooms, f', was, -⟩ := explained.causes r inside
    rw [ownFault_of_failed was, ownFault_of_failed (carry dooms was).2]

theorem accounted (conserves : g.Conserves g' todo todo') (accounted : g.Accounted todo)
    (new : ∀ k f, g'.Failed k f → g.Failing k ∨ g'.Explained k f) : g'.Accounted todo' := by
  intro k f failed
  rcases new k f failed with before | explained
  · rcases accounted k f (conserves.same k f before failed) with pending | explained
    · exact .inl (conserves.pending pending ⟨f, failed⟩)
    · exact conserves.explained explained failed
  · exact .inr explained

end Conserves

theorem Accounted.doubt (accounted : g.Accounted todo) {m : Node V} (unfinished : m.isFinished = false)
    (rest : ∀ x ∈ todo, x ≠ k → x ∈ todo')
    (next : (g.node k).isFinished = true → ∀ x ∈ (g.node k).dependents, x ∈ todo') :
    (g.put k m).Accounted todo' := by
  have other {x : Key} (failing : (g.put k m).Failing x) : x ≠ k := by
    rintro rfl
    obtain ⟨f, failed⟩ := failing
    have finished := failed.finished.1
    rw [node_put_self] at finished
    simp [unfinished] at finished
  have same {x : Key} {f : Failure} (failed : (g.put k m).Failed x f) : g.Failed x f := by
    have ne := other ⟨f, failed⟩
    rw [Failed, node_put_of_ne _ _ ne] at failed
    exact failed
  have visited {x : Key} (inside : x ∈ todo') (failing : (g.put k m).Failing x) :
      (g.put k m).Pending todo' x := by
    obtain ⟨f, failed⟩ := failing
    exact ⟨x, inside, failed.dooms⟩
  have conserves : g.Conserves (g.put k m) todo todo' := by
    constructor
    case same => exact fun x f _ failed => same failed
    case edge =>
      rintro y z ⟨f, failed⟩ ⟨depends, -⟩ later
      by_cases at_k : y = k
      · subst at_k
        exact .inr (visited (next failed.finished.1 z depends) later)
      · have kept : (g.put k m).node y = g.node y := node_put_of_ne _ _ at_k
        left
        simp only [Failing, Failed, kept]
        exact ⟨⟨f, failed⟩, depends⟩
    case start => exact fun x inside failing => visited (rest x inside (other failing)) failing
  exact conserves.accounted accounted fun x f failed => .inl ⟨f, same failed⟩

theorem accounted_kept : Spread.Kept (Accounted (V := V)) where
  skip g k todo unfinished accounted := by
    intro x f failed
    apply (accounted x f failed).imp_left
    rintro ⟨d, inside, dooms⟩
    rcases List.mem_cons.mp inside with rfl | inside
    · obtain ⟨f', failed'⟩ := dooms.1
      have finished := failed'.finished.1
      simp [unfinished] at finished
    · exact ⟨d, inside, dooms⟩
  mark g k todo finished accounted := by
    apply accounted.doubt (isFinished_suspected _)
    · intro x inside ne
      exact List.mem_append_left _ ((List.mem_cons.mp inside).resolve_left ne)
    · exact fun _ x inside => List.mem_append_right _ inside

theorem accounted_reportable : Reportable (Accounted (V := V)) := by
  intro g k todo settled accounted
  apply accounted.doubt (isFinished_reported _)
  · intro x inside _
    split
    · exact List.mem_append_left _ inside
    · exact inside
  · intro finished x inside
    rw [if_pos finished]
    exact List.mem_append_right _ inside

theorem accounted_givable [BEq V] (version : Nat) : Givable version (Accounted (V := V)) := by
  intro g k v todo accounted
  have node := node_given g k v version
  have result := sameResult_given g k v version
  obtain ⟨v', value, unchanged⟩ := (g.node k).inject_value v version
  have same {x : Key} (ne : x ≠ k) : Node.SameResult (g.node x) ((g.given k v version).node x) := by
    have same := result x
    rw [Function.update_of_ne ne] at same
    exact same
  have other {x : Key} (failing : (g.given k v version).Failing x) : x ≠ k := by
    rintro rfl
    obtain ⟨f, failed⟩ := failing
    have cached := failed.finished.2
    rw [(result x).cached, Function.update_self, value] at cached
    cases cached
  have visited {todo' : List Key} {x : Key} (inside : x ∈ todo')
      (failing : (g.given k v version).Failing x) : (g.given k v version).Pending todo' x := by
    obtain ⟨f, failed⟩ := failing
    exact ⟨x, inside, failed.dooms⟩
  have before {x : Key} {f : Failure} (failed : (g.given k v version).Failed x f) : g.Failed x f :=
    (failed_congr (same (other ⟨f, failed⟩))).mp failed
  refine Conserves.accounted ?_ accounted fun x f failed => .inl ⟨f, before failed⟩
  constructor
  case same => exact fun x f _ failed => before failed
  case edge =>
    rintro y z ⟨f, failed⟩ ⟨depends, -⟩ later
    by_cases at_k : y = k
    · subst at_k
      have changed : ((g.node y).inject v version).1.changed = true := by
        by_contra kept
        obtain ⟨w, cached⟩ := unchanged (by simpa using kept)
        rw [failed.finished.2] at cached
        cases cached
      rw [if_pos changed]
      exact .inr (visited (List.mem_append_right _ depends) later)
    · apply Or.inl
      apply And.intro ⟨f, (failed_congr (same at_k)).mpr failed⟩
      rw [node, Function.update_of_ne at_k]
      split
      · exact (Node.mem_dependents_removeDependent _ _ _).mpr ⟨depends, other later⟩
      · exact depends
  case start =>
    intro x inside failing
    apply visited _ failing
    split
    · exact List.mem_append_left _ inside
    · exact inside

theorem accounted_nil : ({} : Graph V).Accounted [] := by
  intro k f failed
  cases failed

theorem Accounted.invalidate (accounted : g.Accounted []) (keys : List Key) :
    (g.invalidate keys).2.2.Accounted [] :=
  invalidate_kept accounted_kept accounted_reportable g keys accounted

theorem Accounted.same (accounted : g.Accounted []) (same : g.SameResults g') : g'.Accounted [] := by
  have failed {x : Key} {f : Failure} : g'.Failed x f ↔ g.Failed x f := failed_congr (same.result x)
  refine Conserves.accounted ?_ accounted fun x f now => .inl ⟨f, failed.mp now⟩
  constructor
  case same => exact fun x f _ now => failed.mp now
  case edge =>
    rintro y z ⟨f, before⟩ ⟨depends, -⟩ -
    exact .inl ⟨⟨f, failed.mpr before⟩, (same.dependents y).symm ▸ depends⟩
  case start => simp

theorem Accounted.advance (accounted : g.Accounted []) : g.advance.Accounted [] :=
  accounted.same ⟨fun _ => .refl _, fun _ => rfl⟩

theorem Accounted.inject [BEq V] (accounted : g.Accounted []) (values : List (Key × V)) :
    (g.inject values).2.2.Accounted [] := by
  cases values with
  | nil => exact accounted
  | cons entry rest =>
    exact spread_kept accounted_kept _ _
      (injectEach_kept (accounted_givable (g.version + 1)) (entry :: rest) ⟨g.advance, [], []⟩
        accounted.advance)

theorem Conserves.of_finished (linked : g.Linked) (linked' : g'.Linked)
    (same : ∀ k, (g.node k).isFinished = true → Node.SameResult (g.node k) (g'.node k)) :
    g.Conserves g' [] [] where
  same := by
    rintro x f ⟨f', before⟩ after
    exact (failed_congr (same x before.finished.1)).mp after
  edge := by
    rintro y z ⟨f, failed⟩ ⟨depends, f', before⟩ later
    apply Or.inl
    apply And.intro ⟨f, (failed_congr (same y failed.finished.1)).mpr failed⟩
    rw [linked', (same z before.finished.1).deps, ← linked]
    exact depends
  start := by simp

end Graph

end Recompute
