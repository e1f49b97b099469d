/-!
Breadth-first search. A node that is taken from the queue is expanded unless it has been expanded
before, and what it leads to goes to the end of the queue.
-/

set_option autoImplicit false

namespace StepTrace

section

variable {α : Type}

-- The nodes that some number of steps leads to.
inductive Steps (next : α → List α) (root : α) : Nat → α → Prop
  | here : Steps next root 0 root
  | step {k : Nat} {a b : α} (before : Steps next root k a) (last : b ∈ next a) :
    Steps next root (k + 1) b

def IsDistance (next : α → List α) (root : α) (d : Nat) (n : α) : Prop :=
  Steps next root d n ∧ ∀ k, Steps next root k n → d ≤ k

variable [DecidableEq α]

/-- The nodes that can be reached from a root, in breadth-first order. -/
structure BreadthFirst (next : α → List α) (root : α) (order : List α) : Prop where
  distinct : order.Nodup
  reached : ∀ n, n ∈ order ↔ ∃ k, Steps next root k n
  levels : order.Pairwise fun a b =>
    ∀ i j, IsDistance next root i a → IsDistance next root j b → i ≤ j
  -- The nodes come in the order in which one meets them first in the lists of those before.
  met : order = (root :: order.flatMap next).eraseDups

theorem eraseDups_concat (as : List α) (a : α) :
    (as ++ [a]).eraseDups = if a ∈ as then as.eraseDups else as.eraseDups ++ [a] := by
  rw [List.eraseDups_append]
  by_cases old : a ∈ as <;> simp [List.removeAll, old, List.eraseDups_cons]

/--
What holds all along a search. The nodes in `done` have been expanded and those in `queue` wait,
each with its level: the number of steps in which the search has come to it.
-/
structure Searching (next : α → List α) (root : α) (done queue : List (α × Nat)) : Prop where
  distinct : (done.map Prod.fst).Nodup
  steps : ∀ p ∈ done ++ queue, Steps next root p.2 p.1
  least : ∀ p ∈ done, ∀ k, Steps next root k p.1 → p.2 ≤ k
  sorted : (done ++ queue).Pairwise fun p q => p.2 ≤ q.2
  -- Two levels wait at most.
  near : ∀ p ∈ queue, ∀ q ∈ queue, q.2 ≤ p.2 + 1
  start : (root, 0) ∈ done ++ queue
  closed : ∀ p ∈ done, ∀ m ∈ next p.1, ∃ l ≤ p.2 + 1, (m, l) ∈ done ++ queue
  -- Of the nodes met so far, `taken` have been in front of the queue.
  met : ∃ taken, root :: done.flatMap (fun p => next p.1) = taken ++ queue.map Prod.fst ∧
    taken.eraseDups = done.map Prod.fst

namespace Searching

variable {next : α → List α} {root : α} {done queue : List (α × Nat)} {n : α} {d : Nat}

theorem initial (next : α → List α) (root : α) : Searching next root [] [(root, 0)] where
  distinct := .nil
  steps := by simp [Steps.here]
  least := by simp
  sorted := by simp
  near := by simp
  start := by simp
  closed := by simp
  met := ⟨[], by simp⟩

-- The search has come to every node, or a node waits on the way to it.
theorem frontier (s : Searching next root done queue) {k : Nat} (way : Steps next root k n) :
    (∃ l ≤ k, (n, l) ∈ done) ∨ ∃ q ∈ queue, q.2 ≤ k := by
  induction way with
  | here =>
    rcases List.mem_append.1 s.start with past | ahead
    · exact .inl ⟨0, Nat.le_refl 0, past⟩
    · exact .inr ⟨_, ahead, Nat.le_refl 0⟩
  | @step k a b _ last ih =>
    rcases ih with ⟨l, le, past⟩ | ⟨q, ahead, le⟩
    · obtain ⟨l', le', there⟩ := s.closed _ past b last
      have bound : l' ≤ k + 1 := Nat.le_trans le' (Nat.succ_le_succ le)
      rcases List.mem_append.1 there with past | ahead
      · exact .inl ⟨l', bound, past⟩
      · exact .inr ⟨_, ahead, bound⟩
    · exact .inr ⟨q, ahead, by omega⟩

section

variable (s : Searching next root done ((n, d) :: queue))
include s

theorem done_le : ∀ p ∈ done, p.2 ≤ d := by
  intro p past
  exact (List.pairwise_append.1 s.sorted).2.2 p past _ List.mem_cons_self

theorem le_queue : ∀ q ∈ queue, d ≤ q.2 :=
  (List.pairwise_cons.1 (List.pairwise_append.1 s.sorted).2.1).1

theorem all_le : ∀ p ∈ done ++ (n, d) :: queue, p.2 ≤ d + 1 := by
  intro p here
  rcases List.mem_append.1 here with past | ahead
  · exact Nat.le_succ_of_le (s.done_le p past)
  · exact s.near (n, d) List.mem_cons_self p ahead

-- A node that is next and has not been expanded is as near as it can be: on a shorter way there
-- would be a node that has to come before it in the queue.
theorem distance (new : n ∉ done.map Prod.fst) : IsDistance next root d n := by
  refine ⟨s.steps (n, d) (by simp), fun k way => ?_⟩
  rcases s.frontier way with ⟨l, -, past⟩ | ⟨q, ahead, le⟩
  · exact absurd (List.mem_map_of_mem past) new
  · rcases List.mem_cons.1 ahead with rfl | ahead
    · exact le
    · exact Nat.le_trans (s.le_queue q ahead) le

theorem skip (old : n ∈ done.map Prod.fst) : Searching next root done queue := by
  obtain ⟨⟨m, l⟩, past, rfl⟩ := List.mem_map.1 old
  have inside : ∀ p ∈ done ++ queue, p ∈ done ++ (m, d) :: queue := by grind
  -- what was at the front is also there as it was expanded
  have still : ∀ a k, (a, k) ∈ done ++ (m, d) :: queue → ∃ k' ≤ k, (a, k') ∈ done ++ queue := by
    intro a k here
    by_cases front : (a, k) = (m, d)
    · cases front
      exact ⟨l, s.done_le _ past, List.mem_append_left _ past⟩
    · exact ⟨k, Nat.le_refl k, by grind⟩
  obtain ⟨taken, split, once⟩ := s.met
  refine
    { distinct := s.distinct
      steps := fun p here => s.steps p (inside p here)
      least := s.least
      sorted := s.sorted.sublist (by simp)
      near := fun p hp q hq => s.near p (.tail _ hp) q (.tail _ hq)
      start := ?start
      closed := ?closed
      met := ⟨taken ++ [m], by simp [split], ?met⟩ }
  case start =>
    obtain ⟨k, le, here⟩ := still root 0 s.start
    exact Nat.le_zero.1 le ▸ here
  case closed =>
    intro p hp b last
    obtain ⟨k, le, there⟩ := s.closed p hp b last
    obtain ⟨k', le', here⟩ := still b k there
    exact ⟨k', Nat.le_trans le' le, here⟩
  case met =>
    have known : m ∈ taken := by
      rw [← List.mem_eraseDups, once]
      exact old
    rw [eraseDups_concat, if_pos known, once]

theorem expand (new : n ∉ done.map Prod.fst) :
    Searching next root (done ++ [(n, d)]) (queue ++ (next n).map fun m => (m, d + 1)) := by
  let added : List (α × Nat) := (next n).map fun m => (m, d + 1)
  have level : ∀ p ∈ added, p.2 = d + 1 := by simp [added]
  -- what is known already stays in its order, with what is new behind it
  have moved : done ++ [(n, d)] ++ (queue ++ added) = (done ++ (n, d) :: queue) ++ added := by simp
  have front := s.distance new
  obtain ⟨taken, split, once⟩ := s.met
  refine
    { distinct := ?distinct
      steps := ?steps
      least := ?least
      sorted := ?sorted
      near := ?near
      start := moved ▸ List.mem_append_left added s.start
      closed := ?closed
      met := ⟨taken ++ [n], ?split, ?met⟩ }
  case distinct =>
    rw [List.map_append, List.nodup_append]
    refine ⟨s.distinct, by simp, ?_⟩
    rintro a past b last rfl
    simp only [List.map_cons, List.map_nil, List.mem_singleton] at last
    exact new (last ▸ past)
  case steps =>
    intro p here
    rcases List.mem_append.1 (moved ▸ here) with old | here
    · exact s.steps p old
    · obtain ⟨m, last, rfl⟩ := List.mem_map.1 here
      exact .step front.1 last
  case least =>
    intro p past k way
    rcases List.mem_append.1 past with past | same
    · exact s.least p past k way
    · obtain rfl := List.mem_singleton.1 same
      exact front.2 k way
  case sorted =>
    change (done ++ [(n, d)] ++ (queue ++ added)).Pairwise _
    rw [moved, List.pairwise_append]
    refine ⟨s.sorted, ?_, fun p old q here => ?_⟩
    · exact List.pairwise_map.2 (List.pairwise_of_forall fun _ _ => Nat.le_refl _)
    · rw [level q here]
      exact s.all_le p old
  case near =>
    have bounds : ∀ p ∈ queue ++ added, d ≤ p.2 ∧ p.2 ≤ d + 1 := by
      intro p here
      rcases List.mem_append.1 here with ahead | here
      · exact ⟨s.le_queue p ahead, s.all_le p (by simp [ahead])⟩
      · have := level p here
        omega
    intro p hp q hq
    have := bounds p hp
    have := bounds q hq
    omega
  case closed =>
    intro p past m last
    change ∃ l ≤ p.2 + 1, (m, l) ∈ done ++ [(n, d)] ++ (queue ++ added)
    rw [moved]
    rcases List.mem_append.1 past with past | same
    · obtain ⟨l, le, there⟩ := s.closed p past m last
      exact ⟨l, le, List.mem_append_left added there⟩
    · obtain rfl := List.mem_singleton.1 same
      exact ⟨d + 1, Nat.le_refl _, List.mem_append_right _ (List.mem_map_of_mem last)⟩
  case split =>
    calc
      root :: (done ++ [(n, d)]).flatMap (fun p => next p.1)
      _ = (root :: done.flatMap fun p => next p.1) ++ next n := by simp
      _ = taken ++ [n] ++ (queue ++ added).map Prod.fst := by
        simp [added, split, Function.comp_def]
  case met =>
    have unknown : n ∉ taken := by
      rw [← List.mem_eraseDups, once]
      exact new
    rw [eraseDups_concat, if_neg unknown, once, List.map_append]
    rfl

end

theorem finished (s : Searching next root done []) :
    BreadthFirst next root (done.map Prod.fst) := by
  have level : ∀ p ∈ done, ∀ d, IsDistance next root d p.1 → p.2 = d := by
    intro p here d distance
    have le := s.least p here d distance.1
    have ge := distance.2 _ (s.steps p (List.mem_append_left _ here))
    omega
  obtain ⟨taken, split, once⟩ := s.met
  have sorted := s.sorted
  rw [List.append_nil] at sorted
  refine
    { distinct := s.distinct
      reached := fun n => ⟨fun here => ?_, fun ⟨k, way⟩ => ?_⟩
      levels := ?levels
      met := ?met }
  · obtain ⟨p, past, rfl⟩ := List.mem_map.1 here
    exact ⟨p.2, s.steps p (List.mem_append_left _ past)⟩
  · rcases s.frontier way with ⟨l, -, here⟩ | ⟨q, ahead, -⟩
    · exact List.mem_map_of_mem here
    · cases ahead
  case levels =>
    rw [List.pairwise_map]
    refine sorted.imp_of_mem fun {p q} hp hq le i j hi hj => ?_
    rw [← level p hp i hi, ← level q hq j hj]
    exact le
  case met =>
    rw [List.flatMap_map, split, ← once]
    simp

end Searching

end

end StepTrace
