import StepTrace.Proofs.Runs
import StepTrace.Proofs.Sorting.Merging

/-!
Sorting by keys. The keys are asked for first, one for each item, and then in what order they are.
-/

set_option autoImplicit false

namespace StepTrace

section

variable {α ι β : Type} {less : α → α → Run Bool} {ask : ι → Run β} {P : ι → Prop}
  {told : List (ι × β) → α → α → Bool → Prop} {all : List α}

-- `less` is answered by questions of `P`, and what they tell stays told.
structure Answers (ask : ι → Run β) (P : ι → Prop) (less : α → α → Run Bool)
    (told : List (ι × β) → α → α → Bool → Prop) (all : List α) : Prop where
  less : ∀ a ∈ all, ∀ b ∈ all, Run.Inquires ask P (fun s t => told s a b t) (less a b)
  stays : ∀ {s u}, s ⊆ u → ∀ a b t, told s a b t → told u a b t

theorem mergeBy_inquires (answers : Answers ask P less told all) (xs ys out : List α)
    (hxs : xs ⊆ all) (hys : ys ⊆ all) :
    Run.Inquires ask P (fun s zs => ∃ merged, zs = out.reverse ++ merged ∧
      Merges (told s) xs ys merged) (mergeBy less xs ys out) := by
  induction xs, ys, out using mergeBy.induct with
  | case1 ys out =>
    simp only [mergeBy]
    exact .ret ⟨ys, List.reverseAux_eq, .noneLeft ys⟩
  | case2 xs out nonempty =>
    cases xs with
    | nil => exact absurd rfl nonempty
    | cons x xs =>
      simp only [mergeBy]
      exact .ret ⟨x :: xs, List.reverseAux_eq, .noneRight (x :: xs)⟩
  | case3 x xs y ys out right left =>
    rw [mergeBy]
    refine (answers.less y (hys (by simp)) x (hxs (by simp))).bind fun s t told => ?_
    cases t with
    | true =>
      refine (right hxs (List.subset_of_cons_subset hys)).weaken fun u zs => ?_
      rintro ⟨merged, rfl, rest⟩
      have before := answers.stays (List.subset_append_left s u) _ _ _ told
      have after := rest.mono (answers.stays (List.subset_append_right s u))
      exact ⟨y :: merged, by simp, .takeRight before after⟩
    | false =>
      refine (left (List.subset_of_cons_subset hxs) hys).weaken fun u zs => ?_
      rintro ⟨merged, rfl, rest⟩
      have notBefore := answers.stays (List.subset_append_left s u) _ _ _ told
      have after := rest.mono (answers.stays (List.subset_append_right s u))
      exact ⟨x :: merged, by simp, .takeLeft notBefore after⟩

theorem sortBy_inquires (answers : Answers ask P less told all) (xs : List α) (hxs : xs ⊆ all) :
    Run.Inquires ask P (fun s zs => Sorts (told s) xs zs) (sortBy less xs) := by
  induction xs using sortBy.induct with
  | case1 xs short =>
    unfold sortBy
    rw [dif_pos short]
    exact .ret (.short short)
  | case2 xs long left right =>
    unfold sortBy
    rw [dif_neg long]
    refine (left fun a ha => hxs (List.mem_of_mem_take ha)).bind fun s front hfront => ?_
    refine (right fun a ha => hxs (List.mem_of_mem_drop ha)).bind fun u back hback => ?_
    have inside : front ⊆ all ∧ back ⊆ all :=
      ⟨fun a ha => hxs (List.mem_of_mem_take (hfront.perm.subset ha)),
        fun a ha => hxs (List.mem_of_mem_drop (hback.perm.subset ha))⟩
    refine (mergeBy_inquires answers front back [] inside.1 inside.2).weaken fun v zs => ?_
    rintro ⟨merged, rfl, merges⟩
    exact .halves (xs.length / 2) (hfront.mono (answers.stays (by simp)))
      (hback.mono (answers.stays (by simp))) (merges.mono (answers.stays (by simp)))

end

namespace Interp

variable (r : Interp)

/-! ### Keys -/

-- Items with their keys in front. A key function is called once for each item, in their order;
-- without one the items are their own keys.
inductive Keyed (key : Option Value) (m : Machine) : List (Value × Value) → Machine → Prop
  | themselves (items : List Value) (none : keyFunction key = none) :
    Keyed key m (items.map fun v => (v, v)) m
  | called {f : Value} {pairs : List (Value × Value)} {m₁ : Machine}
    (function : keyFunction key = some f)
    (asked : Asked (fun v => r.call f [v] []) m (pairs.map Prod.swap) m₁) : Keyed key m pairs m₁

-- How it ends to call a function for one value after the other.
inductive MapCall (f : Value) (vs : List Value) (m : Machine) (out : Array Value) :
    EStateM.Result Stop Machine (Array Value) → Prop
  | done {keys : Array Value} {m₁ : Machine} (pairs : List (Value × Value))
    (all : pairs.map Prod.snd = vs) (results : keys.toList = out.toList ++ pairs.map Prod.fst)
    (asked : Asked (fun v => r.call f [v] []) m (pairs.map Prod.swap) m₁) :
    MapCall f vs m out (.ok keys m₁)
  | stopped {e : Stop} {m₁ m' : Machine} (s : List (Value × Value)) (v : Value) (rest : List Value)
    (upTo : vs = s.map Prod.fst ++ v :: rest) (asked : Asked (fun v => r.call f [v] []) m s m₁)
    (failed : r.call f [v] [] m₁ = .error e m') : MapCall f vs m out (.error e m')

theorem mapCall_run (f : Value) (out : Array Value) (vs : List Value) (m : Machine) :
    MapCall r f vs m out (r.mapCall f out vs m) := by
  induction vs generalizing out m with
  | nil => exact .done [] rfl (by simp) (.nil m)
  | cons v rest ih =>
    rw [mapCall]
    cases answer : r.call f [v] [] m with
    | error e m' =>
      rw [Run.bind_error answer]
      exact .stopped [] v rest rfl (.nil m) answer
    | ok k m₁ =>
      rw [Run.bind_ok answer]
      have after := ih (out.push k) m₁
      generalize r.mapCall f (out.push k) rest m₁ = result at after
      cases after with
      | done pairs all results asked =>
        exact .done ((k, v) :: pairs) (by simp [all]) (by simp [results]) (.cons answer asked)
      | stopped s w rest upTo asked failed =>
        exact .stopped ((v, k) :: s) w rest (by simp [upTo]) (.cons answer asked) failed

/-! ### Orders -/

-- A total preorder of keys.
structure Preorders (f : Value → Value → Ordering) (keys : List Value) : Prop where
  swap : ∀ a ∈ keys, ∀ b ∈ keys, f b a = (f a b).swap
  trans : ∀ a ∈ keys, ∀ b ∈ keys, ∀ c ∈ keys, f a b ≠ .gt → f b c ≠ .gt → f a c ≠ .gt

-- Whether a value comes strictly before another one.
def comesBefore (f : Value → Value → Ordering) (a b : Value) : Bool := f a b == .lt

-- An order, or the reverse of it.
def directed (f : Value → Value → Ordering) (reverse : Bool) (a b : Value) : Ordering :=
  if reverse then (f a b).swap else f a b

section

variable {f : Value → Value → Ordering} {all : List Value}

theorem Preorders.directed (preorders : Preorders f all) (reverse : Bool) :
    Preorders (directed f reverse) all where
  swap a ha b hb := by
    unfold Interp.directed
    rw [preorders.swap a ha b hb]
    cases reverse <;> rfl
  trans a ha b hb c hc hab hbc := by
    cases reverse with
    | false => exact preorders.trans a ha b hb c hc hab hbc
    | true =>
      unfold Interp.directed at hab hbc ⊢
      rw [if_pos rfl, ← preorders.swap _ ‹_› _ ‹_›] at hab hbc ⊢
      exact preorders.trans c hc b hb a ha hbc hab

theorem comesBefore_eq_false (preorders : Preorders f all) {a b : Value} (ha : a ∈ all)
    (hb : b ∈ all) : comesBefore f a b = false ↔ f b a ≠ .gt := by
  rw [comesBefore, preorders.swap a ha b hb]
  cases f a b <;> decide

theorem Preorders.strict (preorders : Preorders f all) : WeakOrder (comesBefore f) all where
  asymm a ha b hb before := by
    revert before
    rw [comesBefore, comesBefore, preorders.swap a ha b hb]
    cases f a b <;> decide
  trans a ha b hb c hc hba hcb := by
    rw [comesBefore_eq_false preorders hb ha] at hba
    rw [comesBefore_eq_false preorders hc hb] at hcb
    rw [comesBefore_eq_false preorders hc ha]
    exact preorders.trans a ha b hb c hc hba hcb

end

-- Pairs of a key and an item are sorted by the keys, those with equivalent keys in the order in
-- which they were.
structure StablySorted (f : Value → Value → Ordering) (reverse : Bool)
    (pairs sorted : List (Value × Value)) : Prop where
  perm : sorted.Perm pairs
  inOrder : sorted.Pairwise fun a b => if reverse then f b.1 a.1 ≠ .gt else f a.1 b.1 ≠ .gt
  stable : ∀ k ∈ pairs.map Prod.fst,
    sorted.filter (fun p => f p.1 k == .eq) = pairs.filter fun p => f p.1 k == .eq

-- Whether a pair comes strictly before another one.
def comesFirst (f : Value → Value → Ordering) (reverse : Bool) (a b : Value × Value) : Bool :=
  (if reverse then (f a.1 b.1).swap else f a.1 b.1) == .lt

section

variable {f : Value → Value → Ordering} {pairs : List (Value × Value)}

theorem comesFirst_eq_false (preorders : Preorders f (pairs.map Prod.fst)) (reverse : Bool)
    {a b : Value × Value} (ha : a ∈ pairs) (hb : b ∈ pairs) :
    comesFirst f reverse b a = false ↔
      if reverse then f b.1 a.1 ≠ .gt else f a.1 b.1 ≠ .gt := by
  have back := preorders.swap a.1 (List.mem_map_of_mem ha) b.1 (List.mem_map_of_mem hb)
  unfold comesFirst
  cases reverse
  · rw [if_neg Bool.false_ne_true, if_neg Bool.false_ne_true, back]
    cases f a.1 b.1 <;> decide
  · rw [if_pos rfl, if_pos rfl]
    cases f b.1 a.1 <;> decide

theorem Preorders.weakOrder (preorders : Preorders f (pairs.map Prod.fst)) (reverse : Bool) :
    WeakOrder (comesFirst f reverse) pairs :=
  (preorders.directed reverse).strict.comap

theorem Preorders.alike (preorders : Preorders f (pairs.map Prod.fst)) (reverse : Bool) {k : Value}
    (hk : k ∈ pairs.map Prod.fst) : ∀ a ∈ pairs, ∀ b ∈ pairs,
      (f a.1 k == .eq) = true → (f b.1 k == .eq) = true → comesFirst f reverse a b = false := by
  intro a ha b hb hak hbk
  have hak : f a.1 k = .eq := by simpa using hak
  have hbk : f b.1 k = .eq := by simpa using hbk
  have key : ∀ {p : Value × Value}, p ∈ pairs → p.1 ∈ pairs.map Prod.fst := fun hp =>
    List.mem_map_of_mem hp
  have hka : f k a.1 = .eq := by rw [preorders.swap a.1 (key ha) k hk, hak]; rfl
  have hkb : f k b.1 = .eq := by rw [preorders.swap b.1 (key hb) k hk, hbk]; rfl
  rw [comesFirst_eq_false preorders reverse hb ha]
  cases reverse
  · exact preorders.trans b.1 (key hb) k hk a.1 (key ha) (by simp [hbk]) (by simp [hka])
  · exact preorders.trans a.1 (key ha) k hk b.1 (key hb) (by simp [hak]) (by simp [hkb])

end

/-! ### Sorting -/

-- The question in what order two keys are.
def orderOf (keys : Value × Value) : Run Ordering := r.order keys.1 keys.2

-- Two of the keys.
def AreKeys (pairs : List (Value × Value)) (keys : Value × Value) : Prop :=
  keys.1 ∈ pairs.map Prod.fst ∧ keys.2 ∈ pairs.map Prod.fst

-- The answers tell whether one pair comes before another one.
def Compared (reverse : Bool) (s : List ((Value × Value) × Ordering)) (a b : Value × Value)
    (t : Bool) : Prop :=
  ∃ o, ((a.1, b.1), o) ∈ s ∧ ((if reverse then o.swap else o) == .lt) = t

theorem keyLess_answers (reverse : Bool) (pairs : List (Value × Value)) :
    Answers r.orderOf (AreKeys pairs) (r.keyLess reverse) (Compared reverse) pairs where
  less a ha b hb := by
    have hka : a.1 ∈ pairs.map Prod.fst := List.mem_map_of_mem ha
    have hkb : b.1 ∈ pairs.map Prod.fst := List.mem_map_of_mem hb
    have here : AreKeys pairs (a.1, b.1) := ⟨hka, hkb⟩
    have asked : Run.Inquires r.orderOf (AreKeys pairs) (fun s o => s = [((a.1, b.1), o)])
        (r.orderOf (a.1, b.1)) := .question here fun _ => rfl
    exact asked.bind fun s o same => .ret ⟨o, by simp [same], rfl⟩
  stays more _ _ _ h := by
    obtain ⟨o, asked, same⟩ := h
    exact ⟨o, more asked, same⟩

-- How it ends to sort items: stopped by the key function for one of them, after it was called for
-- all before it; stopped by a comparison of keys; or with the items in another order. If what the
-- comparisons say is a preorder of the keys, the items are stably sorted by it.
inductive SortRun (key : Option Value) (reverse : Bool) (items : Array Value) (m : Machine) :
    EStateM.Result Stop Machine (Array Value) → Prop
  | keyFailed {f : Value} {s : List (Value × Value)} {v : Value} {rest : List Value} {e : Stop}
    {m₁ m' : Machine} (function : keyFunction key = some f)
    (upTo : items.toList = s.map Prod.fst ++ v :: rest)
    (asked : Asked (fun v => r.call f [v] []) m s m₁) (failed : r.call f [v] [] m₁ = .error e m') :
    SortRun key reverse items m (.error e m')
  | orderFailed {pairs : List (Value × Value)} {s : List ((Value × Value) × Ordering)} {a b : Value}
    {e : Stop} {m₁ m₂ m' : Machine} (all : pairs.map Prod.snd = items.toList)
    (keyed : r.Keyed key m pairs m₁) (asked : Asked r.orderOf m₁ s m₂)
    (among : ∀ q ∈ s, AreKeys pairs q.1) (last : AreKeys pairs (a, b))
    (failed : r.order a b m₂ = .error e m') : SortRun key reverse items m (.error e m')
  | done {pairs : List (Value × Value)} {s : List ((Value × Value) × Ordering)} {out : Array Value}
    {m₁ m' : Machine} (all : pairs.map Prod.snd = items.toList)
    (keyed : r.Keyed key m pairs m₁) (asked : Asked r.orderOf m₁ s m')
    (among : ∀ q ∈ s, AreKeys pairs q.1) (perm : out.toList.Perm items.toList)
    (stable : ∀ f, Preorders f (pairs.map Prod.fst) → (∀ q ∈ s, q.2 = f q.1.1 q.1.2) →
      ∃ sorted, out.toList = sorted.map Prod.snd ∧ StablySorted f reverse pairs sorted) :
    SortRun key reverse items m (.ok out m')

theorem stablySorted_of_sorts {f : Value → Value → Ordering} {reverse : Bool}
    {pairs sorted : List (Value × Value)} {s : List ((Value × Value) × Ordering)}
    (preorders : Preorders f (pairs.map Prod.fst)) (agree : ∀ q ∈ s, q.2 = f q.1.1 q.1.2)
    (sorts : Sorts (Compared reverse s) pairs sorted) : StablySorted f reverse pairs sorted := by
  have weak := preorders.weakOrder reverse
  have tells : Tells (Compared reverse s) (comesFirst f reverse) pairs := by
    rintro a ha b hb t ⟨o, asked, rfl⟩
    obtain rfl : o = f a.1 b.1 := agree _ asked
    rfl
  refine ⟨sorts.perm, ?_, fun k hk => ?_⟩
  · have inOrder := sorts.inOrder weak tells (List.Subset.refl pairs)
    refine List.Pairwise.imp_of_mem (fun {a b} ha hb later => ?_) inOrder
    exact (comesFirst_eq_false preorders reverse (sorts.perm.mem_iff.1 ha)
      (sorts.perm.mem_iff.1 hb)).1 later
  · exact sorts.filter weak tells (List.Subset.refl pairs) (preorders.alike reverse hk)

-- How it ends to sort items, with the merges by which it is done.
inductive SortCourse (key : Option Value) (reverse : Bool) (items : Array Value) (m : Machine) :
    EStateM.Result Stop Machine (Array Value) → Prop
  | keyFailed {f : Value} {s : List (Value × Value)} {v : Value} {rest : List Value} {e : Stop}
    {m₁ m' : Machine} (function : keyFunction key = some f)
    (upTo : items.toList = s.map Prod.fst ++ v :: rest)
    (asked : Asked (fun v => r.call f [v] []) m s m₁) (failed : r.call f [v] [] m₁ = .error e m') :
    SortCourse key reverse items m (.error e m')
  | orderFailed {pairs : List (Value × Value)} {s : List ((Value × Value) × Ordering)} {a b : Value}
    {e : Stop} {m₁ m₂ m' : Machine} (all : pairs.map Prod.snd = items.toList)
    (keyed : r.Keyed key m pairs m₁) (asked : Asked r.orderOf m₁ s m₂)
    (among : ∀ q ∈ s, AreKeys pairs q.1) (last : AreKeys pairs (a, b))
    (failed : r.order a b m₂ = .error e m') : SortCourse key reverse items m (.error e m')
  | done {pairs sorted : List (Value × Value)} {s : List ((Value × Value) × Ordering)}
    {m₁ m' : Machine} (all : pairs.map Prod.snd = items.toList)
    (keyed : r.Keyed key m pairs m₁) (asked : Asked r.orderOf m₁ s m')
    (among : ∀ q ∈ s, AreKeys pairs q.1) (sorts : Sorts (Compared reverse s) pairs sorted) :
    SortCourse key reverse items m (.ok (sorted.map Prod.snd).toArray m')

theorem sorted_of_keyed {key : Option Value} {reverse : Bool} {items keys : Array Value}
    {pairs : List (Value × Value)} {m m₁ : Machine} (all : pairs.map Prod.snd = items.toList)
    (results : keys.toList = pairs.map Prod.fst) (keyed : r.Keyed key m pairs m₁)
    (done : r.keysOf key items m = .ok keys m₁) :
    SortCourse r key reverse items m (r.sorted items key reverse m) := by
  have zipped : keys.toList.zip items.toList = pairs := by
    rw [results, ← all, List.zip_map']
    exact List.map_id pairs
  rw [sorted, Run.bind_ok done, zipped]
  have ended := sortBy_inquires (r.keyLess_answers reverse pairs) pairs (List.Subset.refl pairs) m₁
  cases result : sortBy (r.keyLess reverse) pairs m₁ with
  | error e m' =>
    rw [result] at ended
    rw [Run.bind_error result]
    cases ended with
    | stopped asked among last failed => exact .orderFailed all keyed asked among last failed
  | ok sorted m' =>
    rw [result] at ended
    rw [Run.bind_ok result]
    cases ended with
    | done asked among sorts => exact .done all keyed asked among sorts

theorem sorted_course (key : Option Value) (reverse : Bool) (items : Array Value) (m : Machine) :
    SortCourse r key reverse items m (r.sorted items key reverse m) := by
  cases function : keyFunction key with
  | none =>
    have done : r.keysOf key items m = .ok items m := by rw [keysOf, function]; rfl
    have all : (items.toList.map fun v => (v, v)).map Prod.snd = items.toList := by
      simp [Function.comp_def]
    have results : items.toList = (items.toList.map fun v => (v, v)).map Prod.fst := by
      simp [Function.comp_def]
    exact r.sorted_of_keyed all results (.themselves items.toList function) done
  | some f =>
    have calls : r.keysOf key items = r.mapCall f #[] items.toList := by rw [keysOf, function]
    have ended := r.mapCall_run f #[] items.toList m
    rw [← calls] at ended
    cases result : r.keysOf key items m with
    | ok keys m₁ =>
      rw [result] at ended
      cases ended with
      | done pairs all results asked =>
        exact r.sorted_of_keyed all (by simpa using results) (.called function asked) result
    | error e m' =>
      rw [result] at ended
      have stopped : r.sorted items key reverse m = .error e m' := Run.bind_error result
      rw [stopped]
      cases ended with
      | stopped s v rest upTo asked failed => exact .keyFailed function upTo asked failed

theorem sorted_run (key : Option Value) (reverse : Bool) (items : Array Value) (m : Machine) :
    SortRun r key reverse items m (r.sorted items key reverse m) := by
  have course := r.sorted_course key reverse items m
  generalize r.sorted items key reverse m = result at course
  cases course with
  | keyFailed function upTo asked failed => exact .keyFailed function upTo asked failed
  | orderFailed all keyed asked among last failed =>
    exact .orderFailed all keyed asked among last failed
  | @done pairs sorted s _ _ all keyed asked among sorts =>
    refine .done all keyed asked among ?_ fun f preorders agree =>
      ⟨sorted, rfl, stablySorted_of_sorts preorders agree sorts⟩
    exact all ▸ sorts.perm.map Prod.snd

end Interp

end StepTrace
