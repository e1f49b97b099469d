import StepTrace.Proofs.References
import StepTrace.Proofs.TracedRun

/-!
Dictionaries and sets over a whole run: every entry lies under the hash key that its key has now,
and operations with a value find the entry with the hash key of this value and leave the others
alone.
-/

set_option autoImplicit false

namespace StepTrace

open Heap

/-! ### Entries under their keys -/

structure DictIndexed (h : Heap) (d : DictObject) : Prop where
  keyed : ∀ k key v, (k, key, v) ∈ d.entries.toList → h.hashKey key = .ok k
  distinct : d.entries.keys.Nodup

structure SetIndexed (h : Heap) (s : SetObject) : Prop where
  keyed : ∀ k v, (k, v) ∈ s.toList → h.hashKey v = .ok k
  distinct : s.keys.Nodup

theorem dictIndexed {h : Heap} {d : DictObject} (hd : h.Hosts d) : DictIndexed h d :=
  ⟨fun k key v here => (hd.1 k key v here).1.2, d.entries.keys_nodup⟩

theorem setIndexed {h : Heap} {s : SetObject} (hs : h.Hosts s) : SetIndexed h s :=
  ⟨fun k v here => (hs k v here).2, s.keys_nodup⟩

theorem key_eq_iff {h : Heap} {a b : Value} {k k' : HashKey} (ha : h.hashKey a = .ok k)
    (hb : h.hashKey b = .ok k') : k = k' ↔ h.hashKey a = h.hashKey b := by
  rw [ha, hb]
  exact ⟨congrArg _, Except.ok.inj⟩

/-! ### Operations with one key -/

section

variable (r : Interp) (m : Machine) (id : ObjId) (v : Value) (k : HashKey)

-- What operations with `v`, whose hash key is `k`, do to a dictionary.
structure DictAnswers (d : DictObject) : Prop where
  matching : ∀ e ∈ d.entries.toList, e.1 = k ↔ m.heap.hashKey e.2.1 = m.heap.hashKey v
  lookup : ∀ w, d.get? k = some w ↔ ∃ key, (k, key, w) ∈ d.entries.toList
  inserted : ∀ w, (d.insert k v w).entries.toList =
    if k ∈ d.entries.keys then
      d.entries.toList.map fun e => if e.1 = k then (e.1, e.2.1, w) else e
    else d.entries.toList ++ [(k, v, w)]
  erased : (d.erase k).entries.toList = d.entries.toList.filter fun e => e.1 ≠ k
  getItem : ∀ w, d.get? k = some w → r.getItem (.ref id) v m = .ok w m
  contains : r.contains (.ref id) v m = .ok (decide (k ∈ d.entries.keys)) m
  setItem : ∀ w, r.setItem (.ref id) v w m =
    .ok () { m with heap := m.heap.modify id (Object.mapDict (·.insert k v w)) }
  deleteItem : k ∈ d.entries.keys → r.deleteItem (.ref id) v m =
    .ok () { m with heap := m.heap.modify id (Object.mapDict (·.erase k)) }

-- And to a set.
structure SetAnswers (s : SetObject) : Prop where
  matching : ∀ e ∈ s.toList, e.1 = k ↔ m.heap.hashKey e.2 = m.heap.hashKey v
  inserted : (s.insertNew k v).toList = if k ∈ s.keys then s.toList else s.toList ++ [(k, v)]
  erased : (s.erase k).toList = s.toList.filter fun e => e.1 ≠ k
  contains : r.contains (.ref id) v m = .ok (decide (k ∈ s.keys)) m
  add : r.setMethod id "add" [v] [] m =
    .ok .none { m with heap := m.heap.modify id (Object.mapSet (·.insertNew k v)) }
  discard : k ∈ s.keys → ∀ name ∈ ["remove", "discard"], r.setMethod id name [v] [] m =
    .ok .none { m with heap := m.heap.modify id (Object.mapSet (·.erase k)) }

end

section

variable {r : Interp} {m : Machine} {id : ObjId} {v : Value} {k : HashKey}

theorem key_ok (hk : m.heap.hashKey v = .ok k) : m.heap.key v = .ok k := by
  rw [Heap.key, hk]
  rfl

theorem keyOf_ok (hk : m.heap.hashKey v = .ok k) : Run.keyOf v m = .ok k m := by
  refine (Run.heap_bind _ m).trans ?_
  rw [key_ok hk]
  rfl

-- What is no instance says itself what it contains.
theorem contains_ok {answer : Bool} (object : m.heap.isInstance (.ref id) = false)
    (found : m.heap.contains (.ref id) v = .ok answer) :
    r.contains (.ref id) v m = .ok answer m := by
  refine (Run.heap_bind _ m).trans ?_
  rw [object]
  refine (Run.heap_bind _ m).trans ?_
  rw [found]
  rfl

theorem contains_eq {α : Type} (entries : Ordered HashKey α) (k : HashKey) :
    entries.contains k = decide (k ∈ entries.keys) :=
  Bool.eq_iff_iff.2 (Ordered.contains_iff.trans decide_eq_true_iff.symm)

theorem dict_get?_iff {d : DictObject} {w : Value} :
    d.get? k = some w ↔ ∃ key, (k, key, w) ∈ d.entries.toList := by
  rw [DictObject.get?, Option.map_eq_some_iff]
  constructor
  · rintro ⟨⟨key, w⟩, found, rfl⟩
    exact ⟨key, Ordered.get?_eq_some_iff.1 found⟩
  · rintro ⟨key, here⟩
    exact ⟨(key, w), Ordered.get?_eq_some_iff.2 here, rfl⟩

theorem dict_isSome_get? {d : DictObject} (here : k ∈ d.entries.keys) : (d.get? k).isSome := by
  obtain ⟨⟨_, key, w⟩, entry, rfl⟩ := List.mem_map.1 here
  rw [dict_get?_iff.2 ⟨key, entry⟩]
  rfl

theorem dictAnswers {d : DictObject} (found : m.heap.get? id = some (.dict d))
    (indexed : DictIndexed m.heap d) (hk : m.heap.hashKey v = .ok k) :
    DictAnswers r m id v k d where
  matching e here := key_eq_iff (indexed.keyed _ _ _ here) hk
  lookup w := dict_get?_iff
  inserted w := d.toList_insert k v w
  erased := Ordered.toList_erase ..
  getItem w here := by
    refine (Run.heap_bind _ m).trans ?_
    rw [found]
    refine (Run.bind_ok (keyOf_ok hk)).trans ?_
    rw [here]
    rfl
  contains := by
    refine contains_ok ?_ ?_
    · rw [Heap.isInstance, Heap.deref?, found]
    · rw [Heap.contains, Heap.deref?, found, ← contains_eq]
      · exact congrArg (d.entries.contains <$> ·) (key_ok hk)
      · exact nofun
  setItem w := by
    refine (Run.heap_bind _ m).trans ?_
    rw [found]
    exact Run.bind_ok (keyOf_ok hk)
  deleteItem here := by
    refine (Run.heap_bind _ m).trans ?_
    rw [found]
    refine (Run.bind_ok (keyOf_ok hk)).trans ?_
    rw [if_pos (dict_isSome_get? here)]
    rfl

theorem setAnswers {s : SetObject} (found : m.heap.get? id = some (.set s))
    (indexed : SetIndexed m.heap s) (hk : m.heap.hashKey v = .ok k) :
    SetAnswers r m id v k s where
  matching e here := key_eq_iff (indexed.keyed _ _ here) hk
  inserted := Ordered.toList_insertNew ..
  erased := Ordered.toList_erase ..
  contains := by
    refine contains_ok ?_ ?_
    · rw [Heap.isInstance, Heap.deref?, found]
    · rw [Heap.contains, Heap.deref?, found, ← contains_eq]
      · exact congrArg (s.contains <$> ·) (key_ok hk)
      · exact nofun
  add := by
    change ((Run.keyOf v >>= fun key => _ : Run Value) m) = _
    exact Run.bind_ok (keyOf_ok hk)
  discard here name known := by
    have members : Interp.membersOf id m = .ok s m := by
      refine (Run.heap_bind _ m).trans ?_
      rw [found]
      rfl
    have removed : ∀ wanted, Interp.removeMember id wanted v k m =
        .ok () { m with heap := m.heap.modify id (Object.mapSet (·.erase k)) } := by
      intro wanted
      refine (Run.bind_ok members).trans ?_
      rw [if_pos (Ordered.contains_iff.2 here)]
      rfl
    rcases List.mem_cons.1 known with rfl | known
    · change ((Run.keyOf v >>= fun key => _ : Run Value) m) = _
      exact (Run.bind_ok (keyOf_ok hk)).trans (Run.bind_ok (removed _))
    · obtain rfl := List.mem_singleton.1 known
      change ((Run.keyOf v >>= fun key => _ : Run Value) m) = _
      exact (Run.bind_ok (keyOf_ok hk)).trans (Run.bind_ok (removed _))

end

/--
All along a run the entries of dictionaries and sets lie under the hash keys of their keys, and
operations on them go by these.
-/
theorem indexes_never_go_stale (fuel : Nat) (p : Program) (config : Config)
    (inputs : List String) :
    ∃ s, History (tracedRun fuel p) (.start config inputs) s ∧
      ((trajectory (.start config inputs) s).Pairwise fun m m' =>
        ∀ (v : Value) k, (∀ id ∈ v.refs, id < m.heap.size) → m.heap.hashKey v = .ok k →
          m'.heap.hashKey v = .ok k) ∧
      ∀ m ∈ trajectory (.start config inputs) s,
        (∀ id d, m.heap.get? id = some (.dict d) → DictIndexed m.heap d ∧
          ∀ r v k, m.heap.hashKey v = .ok k → DictAnswers r m id v k d) ∧
        ∀ id t, m.heap.get? id = some (.set t) → SetIndexed m.heap t ∧
          ∀ r v k, m.heap.hashKey v = .ok k → SetAnswers r m id v k t := by
  have intact := Machine.intact_start config inputs
  obtain ⟨s, history, course, -⟩ := (Sound.tracedRun fuel p).history intact
  obtain ⟨states, ordered⟩ := course.trajectory intact
  refine ⟨s, history, ordered.imp fun later v k home => later.hashKey (hosts_of_refs home), ?_⟩
  intro m hm
  obtain ⟨intact, -⟩ := states m hm
  refine ⟨fun id d found => ?_, fun id t found => ?_⟩
  · have indexed : DictIndexed m.heap d := dictIndexed (intact.heap.hosts id _ found)
    exact ⟨indexed, fun r v k => dictAnswers found indexed⟩
  · have indexed : SetIndexed m.heap t := setIndexed (intact.heap.hosts id _ found)
    exact ⟨indexed, fun r v k => setAnswers found indexed⟩

end StepTrace
