/-!
Maps that remember the order in which their keys came. Putting a value under a present key keeps
the key's place, and removing a key keeps the order of the others.
-/

set_option autoImplicit false

namespace StepTrace

/-- Keys with values, every key once, in the order in which the keys came. -/
structure Ordered (κ α : Type) where
  entries : Array (κ × α)
  nodup : (entries.toList.map Prod.fst).Nodup := by simp

namespace Ordered

variable {κ α β : Type}

theorem ext {m m' : Ordered κ α} (h : m.entries = m'.entries) : m = m' := by
  obtain ⟨entries, nodup⟩ := m
  obtain ⟨entries', nodup'⟩ := m'
  cases h
  rfl

/-- The map without keys. -/
def empty : Ordered κ α where
  entries := #[]

instance : Inhabited (Ordered κ α) := ⟨empty⟩

def size (m : Ordered κ α) : Nat := m.entries.size

def isEmpty (m : Ordered κ α) : Bool := m.entries.isEmpty

def toList (m : Ordered κ α) : List (κ × α) := m.entries.toList

def keys (m : Ordered κ α) : List κ := m.toList.map Prod.fst

def values (m : Ordered κ α) : List α := m.toList.map Prod.snd

theorem keys_nodup (m : Ordered κ α) : m.keys.Nodup := m.nodup

theorem length_keys (m : Ordered κ α) : m.keys.length = m.size := by
  simp [keys, toList, size]

theorem isEmpty_values (m : Ordered κ α) : m.values.isEmpty = m.isEmpty := by
  simp [isEmpty, values, toList]

@[simp] theorem toList_empty : (empty : Ordered κ α).toList = [] := rfl

/-- The map with every value changed; the keys stay. -/
def mapValues (f : α → β) (m : Ordered κ α) : Ordered κ β where
  entries := m.entries.map fun (k, a) => (k, f a)
  nodup := by simpa [Function.comp_def] using m.nodup

@[simp] theorem toList_mapValues (f : α → β) (m : Ordered κ α) :
    (m.mapValues f).toList = m.toList.map fun (k, a) => (k, f a) := by
  simp [toList, mapValues]

theorem values_mapValues (f : α → β) (m : Ordered κ α) :
    (m.mapValues f).values = m.values.map f := by
  simp [values]

theorem mapValues_mapValues {γ : Type} (g : β → γ) (f : α → β) (m : Ordered κ α) :
    (m.mapValues f).mapValues g = m.mapValues (g ∘ f) := by
  refine ext ?_
  simp only [mapValues, Array.map_map]
  rfl

/-- The entries that satisfy `p`. -/
def filter (p : κ → α → Bool) (m : Ordered κ α) : Ordered κ α where
  entries := m.entries.filter fun (k, a) => p k a
  nodup := by
    rw [Array.toList_filter]
    exact m.nodup.sublist (List.filter_sublist.map _)

@[simp] theorem toList_filter (p : κ → α → Bool) (m : Ordered κ α) :
    (m.filter p).toList = m.toList.filter fun (k, a) => p k a := by
  simp [toList, filter]

def at? (m : Ordered κ α) (i : Nat) : Option (κ × α) := m.entries[i]?

/-- The map without its last entry. -/
def dropLast (m : Ordered κ α) : Ordered κ α where
  entries := m.entries.pop
  nodup := by
    rw [Array.toList_pop]
    exact m.nodup.sublist ((List.dropLast_sublist _).map _)

@[simp] theorem toList_dropLast (m : Ordered κ α) : m.dropLast.toList = m.toList.dropLast := by
  simp [toList, dropLast]

variable [DecidableEq κ]

/-- The place of a key. -/
def find? (m : Ordered κ α) (k : κ) : Option Nat :=
  m.entries.findIdx? fun e => e.1 == k

/-- The value under a key. -/
def get? (m : Ordered κ α) (k : κ) : Option α :=
  (m.entries.find? fun e => e.1 == k).map Prod.snd

def contains (m : Ordered κ α) (k : κ) : Bool :=
  m.entries.any fun e => e.1 == k

theorem contains_iff {m : Ordered κ α} {k : κ} : m.contains k = true ↔ k ∈ m.keys := by
  simp [contains, keys, toList, Array.any_eq_true, Array.mem_iff_getElem, List.mem_map]
  grind

theorem find?_lt {m : Ordered κ α} {k : κ} {i : Nat} (h : m.find? k = some i) :
    i < m.entries.size := by
  grind [find?, Array.findIdx?_eq_some_iff_findIdx_eq]

theorem key_of_find? {m : Ordered κ α} {k : κ} {i : Nat} (h : m.find? k = some i) :
    ∃ hi : i < m.entries.size, m.entries[i].1 = k := by
  obtain ⟨hi, hk, _⟩ := Array.findIdx?_eq_some_iff_getElem.1 h
  exact ⟨hi, by simpa using hk⟩

theorem find?_eq_none {m : Ordered κ α} {k : κ} : m.find? k = none ↔ k ∉ m.keys := by
  simp [find?, keys, toList, Array.findIdx?_eq_none_iff]
  grind

/-- The value of a present key replaced by `f`; the key keeps its place. -/
def modifyAt (m : Ordered κ α) (i : Nat) (f : α → α) : Ordered κ α where
  entries := m.entries.modify i fun (k, a) => (k, f a)
  nodup := by
    have h : (m.entries.modify i fun (k, a) => (k, f a)).toList.map Prod.fst =
        m.entries.toList.map Prod.fst := by
      apply List.ext_getElem
      · simp
      · intro j h₁ h₂
        simp only [List.getElem_map, Array.getElem_toList, Array.getElem_modify]
        split <;> rfl
    rw [h]
    exact m.nodup

/-- The map with a new key at its end. -/
def push (m : Ordered κ α) (k : κ) (a : α) (h : k ∉ m.keys) : Ordered κ α where
  entries := m.entries.push (k, a)
  nodup := by
    rw [Array.toList_push, List.map_append, List.nodup_append]
    refine ⟨m.nodup, by simp, ?_⟩
    rintro x hx y hy rfl
    simp only [List.map_cons, List.map_nil, List.mem_singleton] at hy
    exact h (hy ▸ hx)

/-- Puts a value under a key: a present key keeps its place, a new one goes to the end. -/
def insert (m : Ordered κ α) (k : κ) (a : α) : Ordered κ α :=
  match h : m.find? k with
  | some i => m.modifyAt i fun _ => a
  | none => m.push k a (find?_eq_none.1 h)

/-- Puts a value under a key that is not there yet. -/
def insertNew (m : Ordered κ α) (k : κ) (a : α) : Ordered κ α :=
  match h : m.find? k with
  | some _ => m
  | none => m.push k a (find?_eq_none.1 h)

/-- The map without the entry at a place. -/
def eraseAt (m : Ordered κ α) (i : Nat) : Ordered κ α where
  entries := m.entries.eraseIdxIfInBounds i
  nodup := by
    rw [Array.toList_eraseIdxIfInBounds]
    exact m.nodup.sublist ((List.eraseIdx_sublist _ _).map _)

/-- The map without a key. -/
def erase (m : Ordered κ α) (k : κ) : Ordered κ α :=
  match m.find? k with
  | some i => m.eraseAt i
  | none => m

/-- The map that putting the entries one after the other gives. -/
def ofList (entries : List (κ × α)) : Ordered κ α :=
  entries.foldl (fun m (k, a) => m.insert k a) empty

/-- The entries of `n` put into `m`. -/
def union (m n : Ordered κ α) : Ordered κ α :=
  n.entries.foldl (fun m (k, a) => m.insert k a) m

/-! ### Entries -/

theorem mem_keys_of_find? {m : Ordered κ α} {k : κ} {i : Nat} (found : m.find? k = some i) :
    k ∈ m.keys := by
  obtain ⟨hi, rfl⟩ := key_of_find? found
  exact List.mem_map_of_mem (Array.mem_toList_iff.2 (Array.getElem_mem hi))

-- Keys at different places differ.
omit [DecidableEq κ] in
theorem key_ne {m : Ordered κ α} {i j : Nat} (hi : i < m.toList.length) (hj : j < m.toList.length)
    (different : i ≠ j) : m.toList[i].1 ≠ m.toList[j].1 := by
  have apart := List.pairwise_iff_getElem.1 m.keys_nodup
  simp only [keys, List.length_map, List.getElem_map] at apart
  rcases Nat.lt_or_gt_of_ne different with lt | lt
  · exact apart i j hi hj lt
  · exact (apart j i hj hi lt).symm

theorem get?_eq_some_iff {m : Ordered κ α} {k : κ} {a : α} :
    m.get? k = some a ↔ (k, a) ∈ m.toList := by
  simp only [get?, toList, Option.map_eq_some_iff, Array.mem_toList_iff]
  constructor
  · rintro ⟨⟨k', a'⟩, found, rfl⟩
    have same : k' = k := by simpa using Array.find?_some found
    exact same ▸ Array.mem_of_find?_eq_some found
  · intro here
    cases found : m.entries.find? fun e => e.1 == k with
    | none => simpa using Array.find?_eq_none.1 found (k, a) here
    | some e =>
      have same : e.1 = k := by simpa using Array.find?_some found
      obtain ⟨i, hi, hei⟩ := Array.mem_iff_getElem.1 (Array.mem_of_find?_eq_some found)
      obtain ⟨j, hj, haj⟩ := Array.mem_iff_getElem.1 here
      by_cases different : i = j
      · subst different
        exact ⟨e, rfl, by rw [← hei, haj]⟩
      · have apart := key_ne (m := m) (i := i) (j := j) hi hj different
        simp only [toList, Array.getElem_toList, hei, haj] at apart
        exact absurd same apart

theorem lookup_toList (m : Ordered κ α) (k : κ) : m.toList.lookup k = m.get? k := by
  apply Option.ext
  intro a
  rw [get?_eq_some_iff, List.lookup_eq_some_iff]
  constructor
  · rintro ⟨before, after, split, -⟩
    simp [split]
  · intro here
    obtain ⟨before, after, split⟩ := List.append_of_mem here
    refine ⟨before, after, split, fun e he => ?_⟩
    have distinct := m.keys_nodup
    simp only [keys, split, List.map_append, List.map_cons, List.nodup_append] at distinct
    have apart := distinct.2.2 e.1 (List.mem_map_of_mem he) k List.mem_cons_self
    simpa using Ne.symm apart

theorem get?_filter {p : κ → α → Bool} {k : κ} (kept : ∀ a, p k a) (m : Ordered κ α) :
    (m.filter p).get? k = m.get? k := by
  apply Option.ext
  intro a
  simp [get?_eq_some_iff, kept]

theorem toList_modifyAt {m : Ordered κ α} {k : κ} {i : Nat} (found : m.find? k = some i)
    (f : α → α) :
    (m.modifyAt i f).toList = m.toList.map fun e => if e.1 = k then (e.1, f e.2) else e := by
  obtain ⟨hi, here⟩ := key_of_find? found
  refine List.ext_getElem (by simp [toList, modifyAt]) fun j h₁ h₂ => ?_
  simp only [List.length_map] at h₂
  simp only [List.getElem_map]
  by_cases same : i = j
  · subst same
    simp [toList, modifyAt, here]
  · have apart := key_ne (m := m) (i := i) (j := j) hi h₂ same
    simp only [toList, Array.getElem_toList, here] at apart
    simp [toList, modifyAt, same, apart.symm]

omit [DecidableEq κ] in
theorem toList_push (m : Ordered κ α) (k : κ) (a : α) (h : k ∉ m.keys) :
    (m.push k a h).toList = m.toList ++ [(k, a)] := by
  simp [toList, push]

theorem toList_insert (m : Ordered κ α) (k : κ) (a : α) :
    (m.insert k a).toList =
      if k ∈ m.keys then m.toList.map fun e => if e.1 = k then (e.1, a) else e
      else m.toList ++ [(k, a)] := by
  unfold insert
  split
  · next i found => rw [if_pos (mem_keys_of_find? found), toList_modifyAt found]
  · next missing => rw [if_neg (find?_eq_none.1 missing), toList_push]

theorem get?_insert_self (m : Ordered κ α) (k : κ) (a : α) : (m.insert k a).get? k = some a := by
  rw [get?_eq_some_iff, toList_insert]
  split
  · next here =>
    obtain ⟨e, he, rfl⟩ := List.mem_map.1 here
    exact List.mem_map.2 ⟨e, he, if_pos rfl⟩
  · exact List.mem_append_right _ List.mem_cons_self

theorem toList_insertNew (m : Ordered κ α) (k : κ) (a : α) :
    (m.insertNew k a).toList = if k ∈ m.keys then m.toList else m.toList ++ [(k, a)] := by
  unfold insertNew
  split
  · next i found => rw [if_pos (mem_keys_of_find? found)]
  · next missing => rw [if_neg (find?_eq_none.1 missing), toList_push]

omit [DecidableEq κ] in
theorem toList_eraseAt (m : Ordered κ α) (i : Nat) :
    (m.eraseAt i).toList = m.toList.eraseIdx i := by
  simp [toList, eraseAt]

theorem toList_erase (m : Ordered κ α) (k : κ) :
    (m.erase k).toList = m.toList.filter fun e => e.1 ≠ k := by
  unfold erase
  split
  · next i found =>
    obtain ⟨hi, here⟩ := key_of_find? found
    have hi : i < m.toList.length := hi
    have here : m.toList[i].1 = k := here
    have cut : m.toList = m.toList.take i ++ m.toList[i] :: m.toList.drop (i + 1) := by simp
    have others : ∀ e ∈ m.toList.take i ++ m.toList.drop (i + 1), e.1 ≠ k := by
      have nodup := m.keys_nodup
      rw [keys, cut, List.map_append, List.map_cons, List.nodup_append, List.nodup_cons] at nodup
      obtain ⟨-, ⟨right, -⟩, left⟩ := nodup
      intro e he same
      rw [List.mem_append] at he
      rcases he with he | he
      · exact left e.1 (List.mem_map_of_mem he) _ List.mem_cons_self (same.trans here.symm)
      · exact right (here.trans same.symm ▸ List.mem_map_of_mem he)
    rw [toList_eraseAt, List.eraseIdx_eq_take_drop_succ]
    conv => rhs; rw [cut, List.filter_append, List.filter_cons_of_neg (by simp [here])]
    rw [← List.filter_append, List.filter_eq_self.2 (by simpa using others)]
  · next missing =>
    refine (List.filter_eq_self.2 fun e he => ?_).symm
    simp only [decide_eq_true_iff]
    exact fun same => find?_eq_none.1 missing (same ▸ List.mem_map_of_mem he)

theorem mem_insert {m : Ordered κ α} {k : κ} {a : α} {e : κ × α} (he : e ∈ (m.insert k a).toList) :
    e = (k, a) ∨ e ∈ m.toList := by
  rw [toList_insert] at he
  split at he
  · obtain ⟨d, hd, rfl⟩ := List.mem_map.1 he
    split
    · next same => exact .inl (by rw [same])
    · exact .inr hd
  · rcases List.mem_append.1 he with old | new
    · exact .inr old
    · exact .inl (List.mem_singleton.1 new)

theorem mem_ofList {entries : List (κ × α)} {e : κ × α} (he : e ∈ (ofList entries).toList) :
    e ∈ entries := by
  have started : ∀ (rest : List (κ × α)) (m : Ordered κ α),
      e ∈ (rest.foldl (fun m (k, a) => m.insert k a) m).toList → e ∈ m.toList ∨ e ∈ rest := by
    intro rest
    induction rest with
    | nil => exact fun _ h => .inl h
    | cons entry rest ih =>
      intro m h
      rcases ih _ h with old | later
      · rcases mem_insert old with rfl | old
        · exact .inr List.mem_cons_self
        · exact .inl old
      · exact .inr (List.mem_cons_of_mem _ later)
  rcases started entries empty he with none | here
  · exact absurd none List.not_mem_nil
  · exact here

theorem toList_ofList {entries : List (κ × α)} (distinct : (entries.map Prod.fst).Nodup) :
    (ofList entries).toList = entries := by
  have started : ∀ (rest : List (κ × α)) (m : Ordered κ α), (m.keys ++ rest.map Prod.fst).Nodup →
      (rest.foldl (fun m (k, a) => m.insert k a) m).toList = m.toList ++ rest := by
    intro rest
    induction rest with
    | nil => simp
    | cons entry rest ih =>
      intro m distinct
      have fresh : entry.1 ∉ m.keys := by
        intro here
        have apart := (List.nodup_append.mp distinct).2.2 entry.1 here entry.1
        simp at apart
      have added : (m.insert entry.1 entry.2).toList = m.toList ++ [entry] := by
        rw [toList_insert, if_neg fresh]
      rw [List.foldl_cons, ih, added]
      next => simp
      next => simpa [keys, added] using distinct
  simpa [ofList] using started entries empty (by simpa [keys] using distinct)

theorem ofList_toList (m : Ordered κ α) : ofList m.toList = m := by
  have same := toList_ofList m.keys_nodup
  exact ext (Array.toList_inj.mp same)

/-! ### Changed values -/

theorem find?_mapValues (f : α → β) (m : Ordered κ α) (k : κ) :
    (m.mapValues f).find? k = m.find? k := by
  simp [find?, mapValues, Function.comp_def]

theorem get?_mapValues (f : α → β) (m : Ordered κ α) (k : κ) :
    (m.mapValues f).get? k = (m.get? k).map f := by
  apply Option.ext
  intro b
  simp only [get?_eq_some_iff, toList_mapValues, List.mem_map, Option.map_eq_some_iff]
  grind

theorem mapValues_insert (f : α → β) (m : Ordered κ α) (k : κ) (a : α) :
    (m.insert k a).mapValues f = (m.mapValues f).insert k (f a) := by
  unfold insert
  split
  · next i found =>
    rw [← find?_mapValues f] at found
    split
    · next j found' =>
      rw [found] at found'
      cases found'
      refine ext (Array.ext ?_ fun j h₁ h₂ => ?_)
      · simp [mapValues, modifyAt]
      · simp only [mapValues, modifyAt, Array.getElem_map, Array.getElem_modify]
        split <;> rfl
    · next missing =>
      rw [found] at missing
      cases missing
  · next missing =>
    rw [← find?_mapValues f] at missing
    split
    · next j found =>
      rw [missing] at found
      cases found
    · exact ext (by simp [mapValues, push])

theorem mapValues_ofList (f : α → β) (entries : List (κ × α)) :
    (ofList entries).mapValues f = ofList (entries.map fun (k, a) => (k, f a)) := by
  have started : ∀ m : Ordered κ α,
      (entries.foldl (fun m (k, a) => m.insert k a) m).mapValues f =
        (entries.map fun (k, a) => (k, f a)).foldl (fun m (k, b) => m.insert k b)
          (m.mapValues f) := by
    induction entries with
    | nil => exact fun _ => rfl
    | cons entry rest ih =>
      intro m
      rw [List.foldl_cons, ih, mapValues_insert]
      rfl
  have none : (empty : Ordered κ α).mapValues f = empty := ext (by simp [mapValues, empty])
  unfold ofList
  rw [started, none]
end Ordered

end StepTrace
