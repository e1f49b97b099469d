import Mathlib.Data.List.Induction
import StepTrace.Proofs.Structures.BreadthFirst
import StepTrace.Snapshot

/-!
Copies of dictionaries. A dictionary tells its keys apart by value, its copy by their texts: keys
with the same text share one entry, which stands where the first of them stood and carries the value
of the last one.
-/

set_option autoImplicit false

namespace StepTrace

namespace Ordered

variable {κ α : Type} [DecidableEq κ]

theorem keys_insert (m : Ordered κ α) (k : κ) (a : α) :
    (m.insert k a).keys = if k ∈ m.keys then m.keys else m.keys ++ [k] := by
  rw [keys, toList_insert]
  split
  next =>
    rw [List.map_map]
    refine List.map_congr_left fun e _ => ?_
    by_cases same : e.1 = k <;> simp [same]
  next => simp [keys]

theorem get?_insert_of_ne (m : Ordered κ α) {k k' : κ} (a : α) (other : k' ≠ k) :
    (m.insert k a).get? k' = m.get? k' := by
  apply Option.ext
  intro b
  rw [get?_eq_some_iff, get?_eq_some_iff, toList_insert]
  split
  next => grind
  next => simp [other]

theorem ofList_concat (entries : List (κ × α)) (e : κ × α) :
    ofList (entries ++ [e]) = (ofList entries).insert e.1 e.2 := by
  rw [ofList, List.foldl_append]
  rfl

-- A key stays where it was put first.
theorem keys_ofList (entries : List (κ × α)) :
    (ofList entries).keys = (entries.map Prod.fst).eraseDups := by
  induction entries using List.reverseRecOn with
  | nil => rfl
  | append_singleton entries e ih =>
    rw [ofList_concat, keys_insert, ih, List.map_append, List.map_cons, List.map_nil,
      eraseDups_concat]
    simp only [List.mem_eraseDups]

-- A key has the value that was put under it last.
theorem get?_ofList (entries : List (κ × α)) (k : κ) :
    (ofList entries).get? k = entries.reverse.lookup k := by
  induction entries using List.reverseRecOn with
  | nil => rfl
  | append_singleton entries e ih =>
    rw [ofList_concat, List.reverse_concat, List.lookup_cons]
    by_cases same : k = e.1
    next => rw [same, get?_insert_self, beq_self_eq_true]
    next => rw [get?_insert_of_ne _ _ same, ih, beq_false_of_ne same]

end Ordered

/-- The entries of a dictionary as its copy shows them: the text of a key, and the copy of its value. -/
def Heap.shownEntries (h : Heap) (item : Value → Snapshot) (d : DictObject) :
    List (String × Snapshot) :=
  d.entries.values.map fun (key, value) => (h.str key, item value)

theorem Heap.captureObject_dict (h : Heap) (item : Value → Snapshot) (id : ObjId) (d : DictObject) :
    h.captureObject item id (.dict d) = .mapping (Ordered.ofList (h.shownEntries item d)).toList :=
  rfl

/--
The copy of a dictionary has one entry for each text of a key, in the order in which the texts come
first, with the copy of the value that comes last under that text. If no two keys have the same text,
these are all the entries of the dictionary, in its order.
-/
theorem mappings_keep_each_text (h : Heap) (room : Nat) (path : List ObjId) (id : ObjId)
    (d : DictObject) (found : h.get? id = some (.dict d)) (fresh : id ∉ path) :
    let shown := h.shownEntries (h.captureWithin room (id :: path)) d
    ∃ entries, h.captureWithin (room + 1) path (.ref id) = .mapping entries ∧
      entries.map Prod.fst = (shown.map Prod.fst).eraseDups ∧
      (∀ text, entries.lookup text = shown.reverse.lookup text) ∧
      ((shown.map Prod.fst).Nodup → entries = shown) := by
  intro shown
  refine ⟨(Ordered.ofList shown).toList, ?_, ?_, fun text => ?_, fun distinct => ?_⟩
  · rw [h.captureWithin_fresh fresh room found, h.captureObject_dict]
  · exact Ordered.keys_ofList shown
  · rw [Ordered.lookup_toList, Ordered.get?_ofList]
  · exact Ordered.toList_ofList distinct

-- Three keys with two texts.
theorem mappings_keep_each_text_shared :
    let d := ((DictObject.empty.insert (.int 1) (.int 1) (.str "a")).insert
      (.str "x") (.str "x") (.int 2)).insert (.str "1") (.str "1") (.str "b")
    let h : Heap := ⟨#[.dict d], 1⟩
    ∃ entries, h.capture 3 (.ref 0) = .mapping entries ∧ entries.map Prod.fst = ["1", "x"] ∧
      entries.lookup "1" = some (.str "b") := by
  intro d h
  have values : d.entries.values =
      [(.int 1, .str "a"), (.str "x", .int 2), (.str "1", .str "b")] := by
    simp [d, Ordered.values, DictObject.toList_insert, DictObject.empty, Ordered.keys]
  have shown : h.shownEntries (h.captureWithin 3 [0]) d =
      [("1", .str "a"), ("x", .int 2), ("1", .str "b")] := by
    rw [Heap.shownEntries, values]
    rfl
  obtain ⟨entries, copied, keys, values, -⟩ :=
    mappings_keep_each_text h 3 [] 0 d rfl List.not_mem_nil
  rw [shown] at keys values
  exact ⟨entries, copied, keys, values "1"⟩

/-- A number and its text are two keys of a dictionary, and one entry of its copy. -/
theorem equal_texts_share_an_entry :
    let d := (DictObject.empty.insert (.int 1) (.int 1) (.str "a")).insert
      (.str "1") (.str "1") (.str "b")
    let h : Heap := ⟨#[.dict d], 1⟩
    h.hashKey (.int 1) = .ok (.int 1) ∧ h.hashKey (.str "1") = .ok (.str "1") ∧
      d.entries.values = [(.int 1, .str "a"), (.str "1", .str "b")] ∧
      h.capture 3 (.ref 0) = .mapping [("1", .str "b")] := by
  intro d h
  have values : d.entries.values = [(.int 1, .str "a"), (.str "1", .str "b")] := by
    simp [d, Ordered.values, DictObject.toList_insert, DictObject.empty, Ordered.keys]
  have shown : h.shownEntries (h.captureWithin 3 [0]) d = [("1", .str "a"), ("1", .str "b")] := by
    rw [Heap.shownEntries, values]
    rfl
  have merged : (Ordered.ofList [("1", Snapshot.str "a"), ("1", .str "b")]).toList =
      [("1", .str "b")] := by
    simp [Ordered.ofList, Ordered.toList_insert, Ordered.keys]
  have found : h.get? 0 = some (.dict d) := rfl
  refine ⟨?_, ?_, values, ?_⟩
  iterate 2 simp [Heap.hashKey, Heap.hashKeys, bind, Except.bind, pure, Except.pure]
  rw [Heap.capture, h.captureWithin_fresh List.not_mem_nil 3 found, h.captureObject_dict, shown,
    merged]

end StepTrace
