import StepTrace.Proofs.Sorting.Queues

/-!
Arrays in which no item is less than its parent, the parent of the item at `i` being the one at
`(i - 1) / 2`. While an item moves up or down it is the only one out of place.
-/

set_option autoImplicit false

namespace StepTrace

variable {less : Value → Value → Bool} {all : List Value} {items : Array Value} {i j k p c : Nat}

def itemAt (items : Array Value) (i : Nat) : Value := items.getD i .none

theorem itemAt_of_lt (h : i < items.size) : itemAt items i = items[i] := by
  simp [itemAt, h]

theorem mem_itemAt (h : i < items.size) : itemAt items i ∈ items := by
  rw [itemAt_of_lt h]
  exact Array.getElem_mem h

theorem itemAt_swap (hi : i < items.size) (hj : j < items.size) (k : Nat) :
    itemAt (items.swapIfInBounds i j) k =
      if k = i then itemAt items j else if k = j then itemAt items i else itemAt items k := by
  by_cases hk : k < items.size
  · rw [itemAt_of_lt (by simpa using hk), itemAt_of_lt hi, itemAt_of_lt hj, itemAt_of_lt hk]
    simp only [Array.swapIfInBounds_def, hi, hj, dite_true, Array.getElem_swap]
  · have hki : k ≠ i := by omega
    have hkj : k ≠ j := by omega
    simp [itemAt, hki, hkj, hk]

-- The item at `i` is not less than the one at `p`.
def NotLess (less : Value → Value → Bool) (items : Array Value) (i p : Nat) : Prop :=
  less (itemAt items i) (itemAt items p) = false

-- The items are in order below the places from `k` on.
def OrderedFrom (less : Value → Value → Bool) (k : Nat) (items : Array Value) : Prop :=
  ∀ i, 0 < i → i < items.size → k ≤ (i - 1) / 2 → NotLess less items i ((i - 1) / 2)

-- No item is less than its parent.
def IsHeap (less : Value → Value → Bool) (items : Array Value) : Prop :=
  ∀ i, 0 < i → i < items.size → NotLess less items i ((i - 1) / 2)

theorem isHeap_iff : IsHeap less items ↔ OrderedFrom less 0 items :=
  ⟨fun h i pos here _ => h i pos here, fun h i pos here => h i pos here (Nat.zero_le _)⟩

-- In the second half there are no parents.
theorem orderedFrom_half : OrderedFrom less (items.size / 2) items := by
  intro i pos here far
  omega

-- Only the item at `p` may be greater than its children, and these are not less than the parent
-- of `p`.
structure Sinks (less : Value → Value → Bool) (k : Nat) (items : Array Value) (p : Nat) :
    Prop where
  others : ∀ i, 0 < i → i < items.size → k ≤ (i - 1) / 2 → (i - 1) / 2 ≠ p →
    NotLess less items i ((i - 1) / 2)
  around : 0 < p → k ≤ (p - 1) / 2 → ∀ i, 0 < i → i < items.size → (i - 1) / 2 = p →
    NotLess less items i ((p - 1) / 2)

-- Only the item at `p` may be less than its parent, and its children are not.
structure Rises (less : Value → Value → Bool) (items : Array Value) (p : Nat) : Prop where
  others : ∀ i, 0 < i → i < items.size → i ≠ p → NotLess less items i ((i - 1) / 2)
  around : 0 < p → ∀ i, 0 < i → i < items.size → (i - 1) / 2 = p →
    NotLess less items i ((p - 1) / 2)

theorem Sinks.start (h : OrderedFrom less (p + 1) items) : Sinks less p items p where
  others i pos here from_ other := h i pos here (by omega)
  around _ within := by omega

-- The first item is replaced.
theorem Sinks.replaced {last : Value} (h : IsHeap less (items.push last)) :
    Sinks less 0 (items.setIfInBounds 0 last) 0 where
  others i pos here _ other := by
    have size : (items.setIfInBounds 0 last).size = items.size := Array.size_setIfInBounds
    have kept : ∀ n, 0 < n → n < items.size →
        itemAt (items.setIfInBounds 0 last) n = itemAt (items.push last) n := by
      intro n pos here
      rw [itemAt_of_lt (by omega), itemAt_of_lt (by rw [Array.size_push]; omega),
        Array.getElem_push_lt here, Array.getElem_setIfInBounds_ne _ (by omega)]
    rw [NotLess, kept i pos (by omega), kept _ (by omega) (by omega)]
    exact h i pos (by rw [Array.size_push]; omega)
  around pos := absurd pos (Nat.lt_irrefl 0)

theorem Rises.pushed {item : Value} (h : IsHeap less items) :
    Rises less (items.push item) items.size where
  others i pos here other := by
    have old : i < items.size := by
      rw [Array.size_push] at here
      omega
    have kept : ∀ n, n < items.size → itemAt (items.push item) n = itemAt items n := by
      intro n here
      rw [itemAt_of_lt (by rw [Array.size_push]; omega), itemAt_of_lt here,
        Array.getElem_push_lt here]
    rw [NotLess, kept i old, kept _ (by omega)]
    exact h i pos old
  around _ i pos here child := by
    rw [Array.size_push] at here
    omega

theorem Sinks.settle (h : Sinks less k items p)
    (stays : ∀ i, 0 < i → i < items.size → (i - 1) / 2 = p → NotLess less items i p) :
    OrderedFrom less k items := by
  intro i pos here within
  by_cases child : (i - 1) / 2 = p
  · rw [child]
    exact stays i pos here child
  · exact h.others i pos here within child

theorem Rises.settle (h : Rises less items p)
    (stays : 0 < p → NotLess less items p ((p - 1) / 2)) : IsHeap less items := by
  intro i pos here
  by_cases same : i = p
  · rw [same]
    exact stays (by omega)
  · exact h.others i pos here same

section

variable (weak : WeakOrder less all) (mine : ∀ v ∈ items, v ∈ all)

include weak mine

theorem NotLess.trans (hij : NotLess less items i j) (hjk : NotLess less items j k)
    (hi : i < items.size) (hj : j < items.size) (hk : k < items.size) : NotLess less items i k :=
  weak.trans _ (mine _ (mem_itemAt hk)) _ (mine _ (mem_itemAt hj)) _ (mine _ (mem_itemAt hi))
    hjk hij

theorem notLess_of_less (h : less (itemAt items i) (itemAt items j) = true) (hi : i < items.size)
    (hj : j < items.size) : NotLess less items j i :=
  weak.asymm _ (mine _ (mem_itemAt hi)) _ (mine _ (mem_itemAt hj)) h

theorem NotLess.refl (hi : i < items.size) : NotLess less items i i :=
  weak.irrefl (mine _ (mem_itemAt hi))

-- The second child is the lesser one, or it is not.
theorem least_right (two : 2 * p + 1 + 1 < items.size)
    (right : less (itemAt items (2 * p + 1 + 1)) (itemAt items (2 * p + 1)) = true) :
    ∀ i, 0 < i → i < items.size → (i - 1) / 2 = p → NotLess less items i (2 * p + 1 + 1) := by
  intro i pos here child
  obtain rfl | rfl : i = 2 * p + 1 ∨ i = 2 * p + 1 + 1 := by omega
  · exact notLess_of_less weak mine right two here
  · exact NotLess.refl weak mine two

theorem least_left (left : 2 * p + 1 + 1 < items.size →
      less (itemAt items (2 * p + 1 + 1)) (itemAt items (2 * p + 1)) = false) :
    ∀ i, 0 < i → i < items.size → (i - 1) / 2 = p → NotLess less items i (2 * p + 1) := by
  intro i pos here child
  obtain rfl | rfl : i = 2 * p + 1 ∨ i = 2 * p + 1 + 1 := by omega
  · exact NotLess.refl weak mine here
  · exact left here

-- The first item is not greater than any other.
theorem IsHeap.notLess_root (h : IsHeap less items) (hi : i < items.size) :
    NotLess less items i 0 := by
  induction i using Nat.strongRecOn with
  | ind i ih =>
    by_cases root : i = 0
    · subst root
      exact NotLess.refl weak mine hi
    · have inside : (i - 1) / 2 < items.size := by omega
      exact NotLess.trans weak mine (h i (by omega) hi) (ih _ (by omega) inside) hi inside
        (by omega)

-- The item at `p` trades places with the lesser one of its children.
theorem Sinks.move (h : Sinks less k items p) (pos : 0 < c) (hc : c < items.size)
    (child : (c - 1) / 2 = p) (before : less (itemAt items c) (itemAt items p) = true)
    (least : ∀ i, 0 < i → i < items.size → (i - 1) / 2 = p → NotLess less items i c) :
    Sinks less k (items.swapIfInBounds c p) c := by
  have hp : p < items.size := by omega
  have after := notLess_of_less weak mine before hc hp
  constructor
  · intro i pos' here within other
    rw [Array.size_swapIfInBounds] at here
    unfold NotLess
    rw [itemAt_swap hc hp, itemAt_swap hc hp, if_neg other]
    by_cases moved : i = c
    · rw [if_pos moved, if_pos (by omega)]
      exact after
    · rw [if_neg moved]
      by_cases top : i = p
      · rw [if_pos top, if_neg (by omega), top]
        exact h.around (by omega) (by omega) c pos hc child
      · rw [if_neg top]
        by_cases sibling : (i - 1) / 2 = p
        · rw [if_pos sibling]
          exact least i pos' here sibling
        · rw [if_neg sibling]
          exact h.others i pos' here within sibling
  · intro _ within i pos' here below
    rw [Array.size_swapIfInBounds] at here
    unfold NotLess
    rw [child] at within ⊢
    rw [itemAt_swap hc hp, itemAt_swap hc hp, if_neg (by omega), if_neg (by omega),
      if_neg (by omega), if_pos rfl, ← below]
    exact h.others i pos' here (by omega) (by omega)

-- The item at `p` trades places with its parent.
theorem Rises.move (h : Rises less items p) (pos : 0 < p) (hp : p < items.size)
    (before : less (itemAt items p) (itemAt items ((p - 1) / 2)) = true) :
    Rises less (items.swapIfInBounds p ((p - 1) / 2)) ((p - 1) / 2) := by
  have hq : (p - 1) / 2 < items.size := by omega
  have after := notLess_of_less weak mine before hp hq
  constructor
  · intro i pos' here other
    rw [Array.size_swapIfInBounds] at here
    unfold NotLess
    rw [itemAt_swap hp hq, itemAt_swap hp hq]
    by_cases moved : i = p
    · rw [if_pos moved, if_neg (by omega), if_pos (by omega)]
      exact after
    · rw [if_neg moved, if_neg other]
      by_cases child : (i - 1) / 2 = p
      · rw [if_pos child]
        exact h.around pos i pos' here child
      · rw [if_neg child]
        by_cases sibling : (i - 1) / 2 = (p - 1) / 2
        · rw [if_pos sibling]
          have least := sibling ▸ h.others i pos' here moved
          exact NotLess.trans weak mine least after here hq hp
        · rw [if_neg sibling]
          exact h.others i pos' here moved
  · intro pos' i pos'' here child
    rw [Array.size_swapIfInBounds] at here
    have up := h.others _ pos' hq (by omega)
    unfold NotLess
    rw [itemAt_swap hp hq, itemAt_swap hp hq]
    by_cases moved : i = p
    · rw [if_pos moved, if_neg (by omega), if_neg (by omega)]
      exact up
    · rw [if_neg moved, if_neg (by omega), if_neg (by omega), if_neg (by omega)]
      have least := child ▸ h.others i pos'' here moved
      exact NotLess.trans weak mine least up here hq (by omega)

end

end StepTrace
