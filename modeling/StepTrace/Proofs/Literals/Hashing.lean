import StepTrace.Proofs.Literals.Basic

/-!
The hash keys of literals. They are those of all values that show as them, on every heap. Values that
show as the same literal are equal.
-/

set_option autoImplicit false

namespace StepTrace

theorem Except.toOption_bind {ε α β : Type} (x : Except ε α) (f : α → Except ε β) :
    (x >>= f).toOption = x.toOption.bind fun a => (f a).toOption := by
  cases x <;> rfl

namespace Literal

mutual

def hashKey : Literal → Option HashKey
  | none => some .none
  | bool b => some (.int (if b then 1 else 0))
  | int n => some (.int n)
  | str s => some (.str s)
  | tuple items => (hashKeyAll items).map .tuple
  | _ => Option.none

def hashKeyAll : List Literal → Option (List HashKey)
  | [] => some []
  | l :: rest => l.hashKey.bind fun key => (hashKeyAll rest).map (key :: ·)

end

end Literal

namespace Heap.Spells

variable {h h' : Heap} {v : Value} {l : Literal} {k : HashKey}

theorem hashKeys_eq {vs : List Value} {items : List Literal} {fuel : Nat}
    (single : ∀ l ∈ items, ∀ v, h.Spells v l → (h.keyWithin fuel v).toOption = l.hashKey)
    (spelled : List.Forall₂ h.Spells vs items) :
    (h.hashKeys (fuel + 1) vs).toOption = Literal.hashKeyAll items := by
  induction spelled with
  | nil =>
    rw [Heap.hashKeys]
    rfl
  | cons first _ rest =>
    obtain ⟨single₁, single⟩ := List.forall_mem_cons.1 single
    rw [Heap.hashKeys_cons, Except.toOption_bind, single₁ _ first, Literal.hashKeyAll,
      ← rest single]
    refine congrArg _ (funext fun key => ?_)
    rw [Except.toOption_bind]
    cases h.hashKeys (fuel + 1) _ <;> rfl

theorem keyWithin_eq (spells : h.Spells v l) {fuel : Nat} (deep : l.depth ≤ fuel) :
    (h.keyWithin fuel v).toOption = l.hashKey := by
  induction l generalizing v fuel with
  | none | bool | int | str =>
    cases spells
    rfl
  | tuple items ih =>
    cases spells with
    | tuple found spelled =>
      obtain ⟨fuel, rfl⟩ : ∃ n, fuel = n + 1 := ⟨fuel - 1, by rw [Literal.depth] at deep; omega⟩
      have inside : ∀ l ∈ items, l.depth ≤ fuel := fun l hl =>
        Nat.le_trans (Literal.depth_le_depthAll hl) (Nat.le_of_succ_le_succ deep)
      have keys := hashKeys_eq (fun l hl v spells => ih l hl spells (inside l hl)) spelled
      rw [Heap.keyWithin, found]
      change (HashKey.tuple <$> h.hashKeys (fuel + 1) _).toOption = (Literal.hashKeyAll _).map _
      rw [← keys]
      cases h.hashKeys (fuel + 1) _ <;> rfl
  | list =>
    cases spells with
    | list found =>
      rw [Heap.keyWithin, found]
      rfl
  | dict =>
    cases spells with
    | dict found =>
      rw [Heap.keyWithin, found]
      rfl
  | set =>
    cases spells with
    | set found =>
      rw [Heap.keyWithin, found]
      rfl

-- A chain of containers is no longer than the heap, so the keys are found to their ends.
theorem hashKey_eq (spells : h.Spells v l) : (h.hashKey v).toOption = l.hashKey := by
  rw [Heap.hashKey, Heap.hashKeys_cons, Heap.hashKeys, ← spells.keyWithin_eq spells.depth_le]
  cases h.keyWithin h.size v <;> rfl

theorem hashKey_iff (spells : h.Spells v l) : h.hashKey v = .ok k ↔ l.hashKey = some k := by
  rw [← spells.hashKey_eq]
  cases h.hashKey v <;> simp [Except.toOption]

/-! ### The keys of dictionaries and sets -/

theorem keys_eq {entries : List (HashKey × Value)} {items : List Literal}
    (keyed : ∀ e ∈ entries, h.hashKey e.2 = .ok e.1)
    (spelled : List.Forall₂ h.Spells (entries.map Prod.snd) items) :
    items.map Literal.hashKey = (entries.map Prod.fst).map some := by
  induction entries generalizing items with
  | nil =>
    cases spelled
    rfl
  | cons e rest ih =>
    obtain ⟨key, keyed⟩ := List.forall_mem_cons.1 keyed
    cases spelled with
    | cons first others =>
      rw [List.map_cons, ih keyed others, first.hashKey_iff.1 key]
      rfl

theorem dict_keys {d : DictObject} {items : List Literal} (indexed : DictIndexed h d)
    (spelled : List.Forall₂ h.Spells d.keys items) :
    items.map Literal.hashKey = d.entries.keys.map some := by
  have keyed : ∀ e ∈ d.entries.toList.map fun e => (e.1, e.2.1), h.hashKey e.2 = .ok e.1 :=
    List.forall_mem_map.2 fun e he => indexed.keyed e.1 e.2.1 e.2.2 he
  rw [DictObject.keys, Ordered.values, List.map_map] at spelled
  have same := keys_eq keyed (by rwa [List.map_map])
  rwa [List.map_map (l := d.entries.toList)] at same

theorem set_keys {s : SetObject} {items : List Literal} (indexed : SetIndexed h s)
    (spelled : List.Forall₂ h.Spells s.values items) :
    items.map Literal.hashKey = s.keys.map some :=
  keys_eq (fun e he => indexed.keyed e.1 e.2 he) spelled

/-! ### Heaps with more objects -/

theorem forall₂_mono {vs : List Value} {items : List Literal}
    (ih : ∀ l ∈ items, ∀ v, h.Spells v l → h'.Spells v l)
    (spelled : List.Forall₂ h.Spells vs items) : List.Forall₂ h'.Spells vs items := by
  induction spelled with
  | nil => exact .nil
  | cons first _ rest =>
    obtain ⟨ih₁, ih⟩ := List.forall_mem_cons.1 ih
    exact .cons (ih₁ _ first) (rest ih)

theorem hashKey_mono {vs : List Value} {items : List Literal} {v : Value}
    (spelled : List.Forall₂ h.Spells vs items) (spelled' : List.Forall₂ h'.Spells vs items)
    (here : v ∈ vs) (key : h.hashKey v = .ok k) : h'.hashKey v = .ok k := by
  induction spelled with
  | nil => cases here
  | cons first _ rest =>
    cases spelled' with
    | cons first' rest' =>
      rcases List.mem_cons.1 here with rfl | here
      · exact first'.hashKey_iff.2 (first.hashKey_iff.1 key)
      · exact rest rest' here

theorem dictIndexed_mono {d : DictObject} {items : List Literal} (indexed : DictIndexed h d)
    (keys : List.Forall₂ h.Spells d.keys items) (keys' : List.Forall₂ h'.Spells d.keys items) :
    DictIndexed h' d := by
  refine ⟨fun k key v here => ?_, indexed.distinct⟩
  have old := List.mem_map_of_mem (f := Prod.fst) (List.mem_map_of_mem (f := Prod.snd) here)
  exact hashKey_mono keys keys' old (indexed.keyed k key v here)

theorem setIndexed_mono {s : SetObject} {items : List Literal} (indexed : SetIndexed h s)
    (spelled : List.Forall₂ h.Spells s.values items)
    (spelled' : List.Forall₂ h'.Spells s.values items) : SetIndexed h' s :=
  ⟨fun k v here => hashKey_mono spelled spelled' (List.mem_map_of_mem here)
    (indexed.keyed k v here), indexed.distinct⟩

theorem mono (spells : h.Spells v l) (keeps : ∀ id o, h.get? id = some o → h'.get? id = some o) :
    h'.Spells v l := by
  induction l generalizing v with
  | none | bool | str =>
    cases spells
    constructor
  | int =>
    cases spells with
    | int other => exact .int other
  | list items ih =>
    cases spells with
    | list found spelled =>
      exact .list (keeps _ _ found) (forall₂_mono (fun l hl _ => ih l hl) spelled)
  | tuple items ih =>
    cases spells with
    | tuple found spelled =>
      exact .tuple (keeps _ _ found) (forall₂_mono (fun l hl _ => ih l hl) spelled)
  | dict entries ih =>
    cases spells with
    | dict found plain indexed keys values =>
      have keys' := forall₂_mono (List.forall_mem_map.2 fun e he _ => (ih e he).1) keys
      have values' := forall₂_mono (List.forall_mem_map.2 fun e he _ => (ih e he).2) values
      exact .dict (keeps _ _ found) plain (dictIndexed_mono indexed keys keys') keys' values'
  | set items ih =>
    cases spells with
    | set found some indexed spelled =>
      have spelled' := forall₂_mono (fun l hl _ => ih l hl) spelled
      exact .set (keeps _ _ found) some (setIndexed_mono indexed spelled spelled') spelled'

end Heap.Spells

/-! ### Equal values -/

namespace Heap.Spells

variable {h : Heap} {v w : Value} {l : Literal} {eq : Value → Value → Bool}

theorem isEqv_of_forall₂ {vs ws : Array Value} {items : List Literal}
    (same : ∀ l ∈ items, ∀ v w, h.Spells v l → h.Spells w l → eq v w = true)
    (left : List.Forall₂ h.Spells vs.toList items) (right : List.Forall₂ h.Spells ws.toList items) :
    vs.isEqv ws eq = true := by
  have length : vs.size = items.length := Array.length_toList.symm.trans left.length_eq
  have length' : ws.size = items.length := Array.length_toList.symm.trans right.length_eq
  refine Array.isEqv_iff_rel.2 ⟨length.trans length'.symm, fun i hi => ?_⟩
  have inside : i < items.length := length ▸ hi
  have hi' : i < ws.size := length'.symm ▸ inside
  exact same _ (List.getElem_mem inside) _ _ (left.get hi inside) (right.get hi' inside)

theorem exists_equal_entry {es fs : List (HashKey × Value × Value)} {items : List Literal}
    (same : ∀ l ∈ items, ∀ v w, h.Spells v l → h.Spells w l → eq v w = true)
    (keys : es.map Prod.fst = fs.map Prod.fst)
    (left : List.Forall₂ h.Spells (es.map (·.2.2)) items)
    (right : List.Forall₂ h.Spells (fs.map (·.2.2)) items) :
    ∀ e ∈ es, ∃ f ∈ fs, f.1 = e.1 ∧ eq e.2.2 f.2.2 = true := by
  induction es generalizing fs items with
  | nil => exact List.forall_mem_nil _
  | cons e es ih =>
    cases fs with
    | nil => cases keys
    | cons f fs =>
      cases left with
      | cons first rest =>
        cases right with
        | cons first' rest' =>
          obtain ⟨same₁, same⟩ := List.forall_mem_cons.1 same
          obtain ⟨key, keys⟩ := List.cons.inj keys
          refine List.forall_mem_cons.2
            ⟨⟨f, List.mem_cons_self, key.symm, same₁ _ _ first first'⟩, ?_⟩
          intro e he
          obtain ⟨g, hg, found⟩ := ih same keys rest rest' e he
          exact ⟨g, List.mem_cons_of_mem _ hg, found⟩

theorem equalDicts {d e : DictObject} {items : List Literal}
    (same : ∀ l ∈ items, ∀ v w, h.Spells v l → h.Spells w l → eq v w = true)
    (keys : d.entries.keys = e.entries.keys)
    (left : List.Forall₂ h.Spells (d.entries.values.map Prod.snd) items)
    (right : List.Forall₂ h.Spells (e.entries.values.map Prod.snd) items) :
    Heap.equalObjects eq (.dict d) (.dict e) = true := by
  have sizes : d.entries.size = e.entries.size := by
    rw [← Ordered.length_keys, keys, Ordered.length_keys]
  rw [Ordered.values, List.map_map] at left right
  have found := exists_equal_entry same keys left right
  simp only [Heap.equalObjects, sizes, beq_self_eq_true, Bool.true_and, List.all_eq_true]
  intro entry here
  obtain ⟨⟨k, key, w⟩, here', rfl, equal⟩ := found entry here
  rw [dict_get?_iff.2 ⟨key, here'⟩]
  exact equal

theorem equalSets {s t : SetObject} (keys : s.keys = t.keys) :
    Heap.equalObjects eq (.set s) (.set t) = true := by
  have sizes : s.size = t.size := by rw [← Ordered.length_keys, keys, Ordered.length_keys]
  simp only [Heap.equalObjects, sizes, beq_self_eq_true, Bool.true_and, List.all_eq_true]
  exact fun k here => Ordered.contains_iff.2 (keys ▸ here)

theorem equalWithin_ref {id id' : ObjId} {o o' : Object} {room : Nat} (found : h.get? id = some o)
    (found' : h.get? id' = some o') (same : Heap.equalObjects (h.equalWithin room) o o' = true) :
    h.equalWithin (room + 1) (.ref id) (.ref id') = true := by
  rw [Heap.equalWithin, found, found']
  dsimp only
  rw [same, Bool.or_true]

theorem eq_of_map_some {items : List Literal} {ks ks' : List HashKey}
    (left : items.map Literal.hashKey = ks.map some)
    (right : items.map Literal.hashKey = ks'.map some) : ks = ks' :=
  (List.map_inj_right fun _ _ => Option.some.inj).1 (left.symm.trans right)

theorem equalWithin (left : h.Spells v l) (right : h.Spells w l) {room : Nat}
    (deep : l.depth < room) : h.equalWithin room v w = true := by
  induction l generalizing v w room with
  | none =>
    cases left
    cases right
    cases deep <;> rfl
  | bool | int | str =>
    cases left
    cases right
    cases deep <;> simp [Heap.equalWithin, Value.isNumber, Value.int?]
  | list items ih =>
    obtain ⟨room, rfl, inside⟩ := Literal.below_room deep
    cases left with
    | list found spelled =>
      cases right with
      | list found' spelled' =>
        exact equalWithin_ref found found'
          (isEqv_of_forall₂ (fun l hl v w left right => ih l hl left right (inside l hl)) spelled
            spelled')
  | tuple items ih =>
    obtain ⟨room, rfl, inside⟩ := Literal.below_room deep
    cases left with
    | tuple found spelled =>
      cases right with
      | tuple found' spelled' =>
        exact equalWithin_ref found found'
          (isEqv_of_forall₂ (fun l hl v w left right => ih l hl left right (inside l hl)) spelled
            spelled')
  | dict entries ih =>
    obtain ⟨room, rfl, inside⟩ := Literal.below_room deep
    cases left with
    | dict found _ indexed keys values =>
      cases right with
      | dict found' _ indexed' keys' values' =>
        refine equalWithin_ref found found' (equalDicts ?_ ?_ values values')
        · refine List.forall_mem_map.2 fun e he v w left right => (ih e he).2 left right ?_
          exact inside e.2 (List.mem_flatMap.2 ⟨e, he, by simp⟩)
        · exact eq_of_map_some (dict_keys indexed keys) (dict_keys indexed' keys')
  | set items ih =>
    obtain ⟨room, rfl, -⟩ := Literal.below_room deep
    cases left with
    | set found _ indexed spelled =>
      cases right with
      | set found' _ indexed' spelled' =>
        exact equalWithin_ref found found'
          (equalSets (eq_of_map_some (set_keys indexed spelled) (set_keys indexed' spelled')))

end Heap.Spells

end StepTrace
