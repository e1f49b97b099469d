import Mathlib.Data.List.Perm.Basic

/-!
Sorting by merging halves, whatever is told about which of two elements comes first. The result has
the same elements. If what is told is an order, they are in this order, and those that it does not
tell apart stay in theirs.
-/

set_option autoImplicit false

namespace StepTrace

variable {α : Type} {told told' : α → α → Bool → Prop} {xs ys zs : List α}

-- A list merged from two. Of an element of the second one it is told whether it comes before one of
-- the first.
inductive Merges (told : α → α → Bool → Prop) : List α → List α → List α → Prop
  | noneLeft (ys : List α) : Merges told [] ys ys
  | noneRight (xs : List α) : Merges told xs [] xs
  | takeRight {x y : α} {xs ys zs : List α} (before : told y x true)
    (rest : Merges told (x :: xs) ys zs) : Merges told (x :: xs) (y :: ys) (y :: zs)
  | takeLeft {x y : α} {xs ys zs : List α} (notBefore : told y x false)
    (rest : Merges told xs (y :: ys) zs) : Merges told (x :: xs) (y :: ys) (x :: zs)

-- A list sorted by merging its sorted parts.
inductive Sorts (told : α → α → Bool → Prop) : List α → List α → Prop
  | short {xs : List α} (short : xs.length ≤ 1) : Sorts told xs xs
  | halves {xs left right zs : List α} (k : Nat) (hleft : Sorts told (xs.take k) left)
    (hright : Sorts told (xs.drop k) right) (merged : Merges told left right zs) :
    Sorts told xs zs

/-! ### Elements -/

theorem Merges.mono (h : Merges told xs ys zs)
    (le : ∀ a b t, told a b t → told' a b t) : Merges told' xs ys zs := by
  induction h with
  | noneLeft ys => exact .noneLeft ys
  | noneRight xs => exact .noneRight xs
  | takeRight before _ ih => exact .takeRight (le _ _ _ before) ih
  | takeLeft notBefore _ ih => exact .takeLeft (le _ _ _ notBefore) ih

theorem Sorts.mono (h : Sorts told xs zs) (le : ∀ a b t, told a b t → told' a b t) :
    Sorts told' xs zs := by
  induction h with
  | short h => exact .short h
  | halves k _ _ merged hleft hright => exact .halves k hleft hright (merged.mono le)

theorem Merges.perm (h : Merges told xs ys zs) : zs.Perm (xs ++ ys) := by
  induction h with
  | noneLeft ys => exact .refl ys
  | noneRight xs => rw [List.append_nil]
  | takeRight _ _ ih => exact (ih.cons _).trans List.perm_middle.symm
  | takeLeft _ _ ih => exact ih.cons _

theorem Sorts.perm (h : Sorts told xs zs) : zs.Perm xs := by
  induction h with
  | short => exact .refl _
  | @halves xs left right zs k _ _ merged hleft hright =>
    calc zs.Perm (left ++ right) := merged.perm
      _ |>.Perm (xs.take k ++ xs.drop k) := hleft.append hright
      _ = xs := List.take_append_drop k xs

/-! ### Order -/

-- A strict order of some elements for which not to come before each other is transitive.
structure WeakOrder (less : α → α → Bool) (all : List α) : Prop where
  asymm : ∀ a ∈ all, ∀ b ∈ all, less a b = true → less b a = false
  trans : ∀ a ∈ all, ∀ b ∈ all, ∀ c ∈ all, less b a = false → less c b = false → less c a = false

theorem WeakOrder.comap {β : Type} {less : β → β → Bool} {f : α → β} {all : List α}
    (weak : WeakOrder less (all.map f)) : WeakOrder (fun a b => less (f a) (f b)) all where
  asymm _ ha _ hb := weak.asymm _ (List.mem_map_of_mem ha) _ (List.mem_map_of_mem hb)
  trans _ ha _ hb _ hc :=
    weak.trans _ (List.mem_map_of_mem ha) _ (List.mem_map_of_mem hb) _ (List.mem_map_of_mem hc)

theorem WeakOrder.irrefl {less : α → α → Bool} {all : List α} {a : α} (weak : WeakOrder less all)
    (ha : a ∈ all) : less a a = false := by
  by_cases before : less a a = true
  · exact weak.asymm a ha a ha before
  · exact Bool.eq_false_iff.2 before

-- What is told about some elements is `less`.
def Tells (told : α → α → Bool → Prop) (less : α → α → Bool) (all : List α) : Prop :=
  ∀ a ∈ all, ∀ b ∈ all, ∀ t, told a b t → less a b = t

-- No element comes before an earlier one.
def InOrder (less : α → α → Bool) (xs : List α) : Prop :=
  xs.Pairwise fun a b => less b a = false

section

variable {less : α → α → Bool} {all : List α} (weak : WeakOrder less all)
  (tells : Tells told less all)

include weak tells

theorem Merges.inOrder (h : Merges told xs ys zs) (hxs : xs ⊆ all) (hys : ys ⊆ all)
    (left : InOrder less xs) (right : InOrder less ys) : InOrder less zs := by
  induction h with
  | noneLeft | noneRight => assumption
  | @takeRight x y xs ys zs before rest ih =>
    have hx : x ∈ all := hxs (by simp)
    have hy : y ∈ all := hys (by simp)
    have here : less x y = false := weak.asymm y hy x hx (tells y hy x hx _ before)
    obtain ⟨least, right⟩ := List.pairwise_cons.1 right
    refine .cons (fun z hz => ?_) (ih hxs (List.subset_of_cons_subset hys) left right)
    rcases List.mem_append.1 (rest.perm.mem_iff.1 hz) with hz | hz
    · rcases List.mem_cons.1 hz with rfl | later
      · exact here
      · exact weak.trans y hy x hx z (hxs hz) here ((List.pairwise_cons.1 left).1 z later)
    · exact least z hz
  | @takeLeft x y xs ys zs notBefore rest ih =>
    have hx : x ∈ all := hxs (by simp)
    have hy : y ∈ all := hys (by simp)
    have here : less y x = false := tells y hy x hx _ notBefore
    obtain ⟨least, left⟩ := List.pairwise_cons.1 left
    refine .cons (fun z hz => ?_) (ih (List.subset_of_cons_subset hxs) hys left right)
    rcases List.mem_append.1 (rest.perm.mem_iff.1 hz) with hz | hz
    · exact least z hz
    · rcases List.mem_cons.1 hz with rfl | later
      · exact here
      · exact weak.trans x hx y hy z (hys hz) here ((List.pairwise_cons.1 right).1 z later)

-- Elements that do not come before each other stay in their order, those of the first list first:
-- where one of the second list is taken, all that is left of the first one comes after it.
theorem Merges.filter {same : α → Bool} (h : Merges told xs ys zs) (hxs : xs ⊆ all)
    (hys : ys ⊆ all) (left : InOrder less xs)
    (alike : ∀ a ∈ all, ∀ b ∈ all, same a = true → same b = true → less a b = false) :
    zs.filter same = xs.filter same ++ ys.filter same := by
  induction h with
  | noneLeft | noneRight => simp
  | @takeRight x y xs ys zs before rest ih =>
    have hx : x ∈ all := hxs (by simp)
    have hy : y ∈ all := hys (by simp)
    have filtered := ih hxs (List.subset_of_cons_subset hys) left
    by_cases hsame : same y = true
    · have none : (x :: xs).filter same = [] := by
        refine List.filter_eq_nil_iff.2 fun a ha hsame' => ?_
        have later : less a x = false := by
          rcases List.mem_cons.1 ha with rfl | later
          · exact weak.irrefl hx
          · exact (List.pairwise_cons.1 left).1 a later
        have notBefore := weak.trans x hx a (hxs ha) y hy later (alike y hy a (hxs ha) hsame hsame')
        simp [tells y hy x hx _ before] at notBefore
      rw [none] at filtered ⊢
      simp [hsame, filtered]
    · rw [List.filter_cons_of_neg hsame, List.filter_cons_of_neg hsame, filtered]
  | @takeLeft x y xs ys zs notBefore rest ih =>
    rw [List.filter_cons, ih (List.subset_of_cons_subset hxs) hys (List.pairwise_cons.1 left).2]
    by_cases hsame : same x = true <;> simp [hsame]

theorem Sorts.inOrder (h : Sorts told xs zs) (hxs : xs ⊆ all) : InOrder less zs := by
  induction h with
  | @short xs short =>
    match xs, short with
    | [], _ => exact .nil
    | [x], _ => exact List.pairwise_singleton _ x
  | @halves xs left right zs k hleft hright merged ihleft ihright =>
    have front : xs.take k ⊆ all := fun a ha => hxs (List.mem_of_mem_take ha)
    have back : xs.drop k ⊆ all := fun a ha => hxs (List.mem_of_mem_drop ha)
    exact merged.inOrder weak tells (fun a ha => front (hleft.perm.subset ha))
      (fun a ha => back (hright.perm.subset ha)) (ihleft front) (ihright back)

theorem Sorts.filter {same : α → Bool} (h : Sorts told xs zs) (hxs : xs ⊆ all)
    (alike : ∀ a ∈ all, ∀ b ∈ all, same a = true → same b = true → less a b = false) :
    zs.filter same = xs.filter same := by
  induction h with
  | short => rfl
  | @halves xs left right zs k hleft hright merged ihleft ihright =>
    have front : xs.take k ⊆ all := fun a ha => hxs (List.mem_of_mem_take ha)
    have back : xs.drop k ⊆ all := fun a ha => hxs (List.mem_of_mem_drop ha)
    calc zs.filter same = left.filter same ++ right.filter same :=
          merged.filter weak tells (fun a ha => front (hleft.perm.subset ha))
            (fun a ha => back (hright.perm.subset ha)) (hleft.inOrder weak tells front) alike
      _ = (xs.take k).filter same ++ (xs.drop k).filter same := by rw [ihleft front, ihright back]
      _ = xs.filter same := by rw [← List.filter_append, List.take_append_drop]

end

end StepTrace
