import StepTrace.Proofs.History

/-!
How the heap of a run grows. Objects stay where they are and keep what they are made as; what is
at home on a heap is at home on every later one, hash keys included.
-/

set_option autoImplicit false

namespace StepTrace

/-! ### Growing heaps -/

def Value.Below (n : Nat) : Value → Prop
  | .ref id => id < n
  | _ => True

theorem Value.Below.mono {n k : Nat} {v : Value} (h : v.Below n) (le : n ≤ k) : v.Below k := by
  cases v with
  | ref id => exact Nat.lt_of_lt_of_le h le
  | _ => trivial

-- What is left of an object without what may change.
def Object.shell : Object → Object
  | .list l => .list { l with items := #[] }
  | .dict _ => .dict .empty
  | .set _ => .set .empty
  | .deque _ => .deque #[]
  | .instance i => .instance { i with fields := .empty }
  | .class c => .class { c with attrs := .empty }
  | .function f => .function { f with owner := none }
  | o => o

theorem Object.ctorIdx_shell (o : Object) : o.shell.ctorIdx = o.ctorIdx := by
  cases o <;> rfl

namespace Heap

structure Grows (h h' : Heap) : Prop where
  limit : h'.limit = h.limit
  size : h.size ≤ h'.size
  shells : ∀ id < h.size, (h'.get? id).map Object.shell = (h.get? id).map Object.shell

-- Tuples hold older objects only, so taking them apart comes to an end.
def Stratified (h : Heap) : Prop :=
  ∀ id items, h.get? id = some (.tuple items) → ∀ v ∈ items, v.Below id

structure Later (h h' : Heap) : Prop extends h.Grows h' where
  stratified : h.Stratified

variable {h h' h'' : Heap} {id : ObjId} {o : Object}

theorem lt_size (found : h.get? id = some o) : id < h.size :=
  (Array.getElem?_eq_some_iff.1 found).1

theorem get?_of_lt (lt : id < h.size) : ∃ o, h.get? id = some o :=
  ⟨h.objects[id], Array.getElem?_eq_getElem lt⟩

theorem Grows.refl (h : Heap) : h.Grows h := ⟨rfl, Nat.le_refl _, fun _ _ => rfl⟩

theorem Grows.trans (g : h.Grows h') (g' : h'.Grows h'') : h.Grows h'' := by
  refine ⟨g'.limit.trans g.limit, Nat.le_trans g.size g'.size, fun id lt => ?_⟩
  rw [g'.shells id (Nat.lt_of_lt_of_le lt g.size), g.shells id lt]

theorem Grows.object (g : h.Grows h') (found : h.get? id = some o) :
    ∃ o', h'.get? id = some o' ∧ o'.shell = o.shell := by
  have same := g.shells id (lt_size found)
  rw [found, Option.map_some, Option.map_eq_some_iff] at same
  exact same

theorem Later.refl (stratified : h.Stratified) : h.Later h := ⟨.refl h, stratified⟩

theorem Later.trans (l : h.Later h') (l' : h'.Later h'') : h.Later h'' :=
  ⟨l.toGrows.trans l'.toGrows, l.stratified⟩

theorem Grows.push (h : Heap) (o : Object) : h.Grows (h.push o) := by
  refine ⟨rfl, by simp, fun id lt => ?_⟩
  rw [Heap.get?, Heap.get?, Heap.push, Array.getElem?_push_lt lt, Array.getElem?_eq_getElem lt]

theorem get?_push_size (h : Heap) (o : Object) : (h.push o).get? h.size = some o :=
  Array.getElem?_push_size

theorem get?_push {p : Object} (found : (h.push o).get? id = some p) :
    h.get? id = some p ∨ (id = h.size ∧ p = o) := by
  rw [Heap.get?, Heap.push, Array.getElem?_push] at found
  split at found
  · next same => exact .inr ⟨same, (Option.some.inj found).symm⟩
  · exact .inl found

theorem get?_modify (h : Heap) (id j : ObjId) (f : Object → Object) :
    (h.modify id f).get? j = if id = j then (h.get? j).map f else h.get? j :=
  Array.getElem?_modify

theorem Grows.modify (id : ObjId) {f : Object → Object}
    (keeps : ∀ o, h.get? id = some o → (f o).shell = o.shell) : h.Grows (h.modify id f) := by
  refine ⟨rfl, by simp, fun j _ => ?_⟩
  rw [get?_modify]
  split
  · next same =>
    subst same
    cases found : h.get? id with
    | none => rfl
    | some o => exact congrArg some (keeps o found)
  · rfl

/-! ### Classes -/

def IsClass (h : Heap) (id : ObjId) : Prop := ∃ c, h.get? id = some (.class c)

theorem IsClass.lt (cls : h.IsClass id) : id < h.size := cls.elim fun _ found => lt_size found

theorem Grows.class (g : h.Grows h') {c : ClassObject} (found : h.get? id = some (.class c)) :
    ∃ c', h'.get? id = some (.class c') ∧ c'.base = c.base := by
  obtain ⟨o', found', same⟩ := g.object found
  cases o' with
  | «class» c' =>
    refine ⟨c', found', ?_⟩
    simp only [Object.shell, Object.class.injEq, ClassObject.mk.injEq] at same
    exact same.2.1
  | _ => cases same

theorem IsClass.later (cls : h.IsClass id) (g : h.Grows h') : h'.IsClass id := by
  obtain ⟨c, found⟩ := cls
  obtain ⟨c', found', -⟩ := g.class found
  exact ⟨c', found'⟩

/-! ### Hash keys -/

-- The hash key of one value; of an object it depends on the shell alone.
def keyWithin (h : Heap) (depth : Nat) : Value → Except String HashKey
  | .none => .ok .none
  | .bool b => .ok (.int (if b then 1 else 0))
  | .int n => .ok (.int n)
  | .float f => .ok (floatKey f)
  | .str s => .ok (.str s)
  | .builtin b => .ok (.builtin b.name)
  | .ref id =>
    match (h.get? id).map Object.shell with
    | some (.tuple items) => HashKey.tuple <$> h.hashKeys depth items.toList
    | some (.list _) | some (.dict _) | some (.set _) | some (.deque _) =>
      .error (h.typeName (.ref id))
    | _ => .ok (.identity id)

theorem hashKeys_cons (h : Heap) (depth : Nat) (v : Value) (rest : List Value) :
    h.hashKeys (depth + 1) (v :: rest) = do
      let key ← h.keyWithin depth v
      return key :: (← h.hashKeys (depth + 1) rest) := by
  rw [hashKeys.eq_def]
  cases v with
  | ref id =>
    rw [keyWithin]
    dsimp only
    cases h.get? id with
    | none => rfl
    | some o => cases o <;> rfl
  | _ => rfl

theorem tuple_of_shell {items : Array Value}
    (found : (h.get? id).map Object.shell = some (.tuple items)) :
    h.get? id = some (.tuple items) := by
  obtain ⟨o, found, same⟩ := Option.map_eq_some_iff.1 found
  cases o with
  | tuple => exact found.trans (congrArg some same)
  | _ => cases same

theorem Later.hashKeys (l : h.Later h') {n depth depth' : Nat} (deep : n < depth)
    (deep' : n < depth') (fits : n ≤ h.size) {vs : List Value} (below : ∀ v ∈ vs, v.Below n)
    {ks : List HashKey} (keys : h.hashKeys depth vs = .ok ks) : h'.hashKeys depth' vs = .ok ks := by
  -- On the depth and the values; the items of a tuple lie below it, so they need less depth.
  induction depth generalizing n depth' vs ks with
  | zero => cases deep
  | succ depth outer =>
    obtain ⟨depth', rfl⟩ : ∃ d, depth' = d + 1 := ⟨depth' - 1, by omega⟩
    have single : ∀ v k, v.Below n → h.keyWithin depth v = .ok k →
        h'.keyWithin depth' v = .ok k := by
      intro v k hv key
      cases v with
      | ref id =>
        have lt : @LT.lt Nat _ id n := hv
        rw [keyWithin] at key ⊢
        rw [l.shells id (by omega)]
        split at key
        · next items found =>
          have older := l.stratified id items (tuple_of_shell found)
          obtain ⟨ks, subkeys, rfl⟩ := Except.of_map_ok key
          rw [outer (n := id) (by omega) (by omega) (by omega)
            (fun v hv => older v (Array.mem_toList_iff.1 hv)) subkeys]
          rfl
        all_goals first | exact key | cases key
      | _ => exact key
    induction vs generalizing ks with
    | nil => simpa only [Heap.hashKeys] using keys
    | cons v rest inner =>
      obtain ⟨hv, hrest⟩ := List.forall_mem_cons.1 below
      rw [hashKeys_cons] at keys ⊢
      obtain ⟨k, key, keys⟩ := Except.of_bind_ok keys
      obtain ⟨others, keys, same⟩ := Except.of_bind_ok keys
      rw [single v k hv key, inner hrest keys]
      exact same

theorem Later.hashKey (l : h.Later h') {v : Value} (below : v.Below h.size) {k : HashKey}
    (key : h.hashKey v = .ok k) : h'.hashKey v = .ok k := by
  rw [Heap.hashKey] at key ⊢
  obtain ⟨ks, keys, key⟩ := Except.of_bind_ok key
  have := l.size
  rw [l.hashKeys (n := h.size) (by omega) (by omega) (Nat.le_refl _) (by simpa using below) keys]
  cases ks with
  | nil => cases key
  | cons => exact key

end Heap

/-! ### What is at home on a heap -/

-- Data that refers to objects which are there, and stays at home when the heap grows.
class Resident (α : Type) where
  On : Heap → α → Prop
  stays : ∀ {h h' : Heap}, h.Later h' → ∀ {a : α}, On h a → On h' a

abbrev Heap.Hosts {α : Type} [Resident α] (h : Heap) (a : α) : Prop := Resident.On h a

abbrev Heap.Later.keep {α : Type} [Resident α] {h h' : Heap} (l : h.Later h') {a : α}
    (ha : h.Hosts a) : h'.Hosts a :=
  Resident.stays l ha

-- What has no values in it is at home everywhere.
instance (priority := low) {α : Type} : Resident α where
  On _ _ := True
  stays _ _ _ := trivial

instance : Resident Value where
  On h v := v.Below h.size
  stays l _ hv := hv.mono l.size

section

variable {α β κ : Type} [Resident α] [Resident β]

instance : Resident (List α) where
  On h as := ∀ a ∈ as, h.Hosts a
  stays l _ has a ha := l.keep (has a ha)

instance : Resident (Array α) where
  On h as := ∀ a ∈ as, h.Hosts a
  stays l _ has a ha := l.keep (has a ha)

instance : Resident (Option α) where
  On h o := ∀ a, o = some a → h.Hosts a
  stays l _ ho a ha := l.keep (ho a ha)

instance : Resident (α × β) where
  On h p := h.Hosts p.1 ∧ h.Hosts p.2
  stays l _ hp := ⟨l.keep hp.1, l.keep hp.2⟩

instance : Resident (Ordered κ α) where
  On h m := h.Hosts m.toList
  stays l _ hm := l.keep hm

end

namespace Heap

variable {α κ : Type} [Resident α] [DecidableEq κ] {h : Heap} {m : Ordered κ α}

theorem hosts_nil : h.Hosts ([] : List α) := List.forall_mem_nil _

theorem hosts_empty : h.Hosts (#[] : Array α) := fun _ none => absurd none (Array.not_mem_empty _)

theorem hosts_set {as : Array α} (has : h.Hosts as) (i : Nat) {a : α} (ha : h.Hosts a) :
    h.Hosts (as.setIfInBounds i a) :=
  fun b hb => (Array.mem_or_eq_of_mem_setIfInBounds hb).elim (has b) (· ▸ ha)

theorem hosts_get? (hm : h.Hosts m) {k : κ} {a : α} (found : m.get? k = some a) : h.Hosts a :=
  (hm (k, a) (Ordered.get?_eq_some_iff.1 found)).2

theorem hosts_insert (hm : h.Hosts m) {a : α} (ha : h.Hosts a) (k : κ) :
    h.Hosts (m.insert k a) := by
  intro e he
  rcases Ordered.mem_insert he with rfl | old
  · exact ⟨trivial, ha⟩
  · exact hm e old

theorem hosts_erase (hm : h.Hosts m) (k : κ) : h.Hosts (m.erase k) := by
  intro e he
  rw [Ordered.toList_erase] at he
  exact hm e (List.mem_filter.1 he).1

theorem hosts_ofList {entries : List (κ × α)} (hs : h.Hosts entries) :
    h.Hosts (Ordered.ofList entries) :=
  fun e he => hs e (Ordered.mem_ofList he)

end Heap

-- A value with its hash key.
def Heap.Keyed (h : Heap) (k : HashKey) (v : Value) : Prop := h.Hosts v ∧ h.hashKey v = .ok k

theorem Heap.Keyed.later {h h' : Heap} {k : HashKey} {v : Value} (keyed : h.Keyed k v)
    (l : h.Later h') : h'.Keyed k v :=
  ⟨l.keep keyed.1, l.hashKey keyed.1 keyed.2⟩

instance : Resident SetObject where
  On h s := ∀ k v, (k, v) ∈ s.toList → h.Keyed k v
  stays l _ hs k v hkv := (hs k v hkv).later l

instance : Resident DictObject where
  On h d :=
    (∀ k key v, (k, key, v) ∈ d.entries.toList → h.Keyed k key ∧ h.Hosts v) ∧ h.Hosts d.factory
  stays l _ hd :=
    ⟨fun k key v hkv => ⟨(hd.1 k key v hkv).1.later l, l.keep (hd.1 k key v hkv).2⟩, l.keep hd.2⟩

def Object.On (h : Heap) : Object → Prop
  | .list l => h.Hosts l.items
  | .tuple items | .deque items => h.Hosts items
  | .dict d => h.Hosts d
  | .set s => h.Hosts s
  | .instance i => h.IsClass i.cls ∧ h.Hosts i.fields
  | .class c => (∀ b, c.base = some b → h.IsClass b) ∧ h.Hosts c.attrs
  | .function f => (∀ c, f.owner = some c → h.IsClass c) ∧ h.Hosts f.defaults
  | .boundMethod receiver f => h.Hosts receiver ∧ f < h.size
  | .builtinMethod receiver _ => h.Hosts receiver
  | .module m => h.Hosts m.attrs
  | .super cls receiver => h.IsClass cls ∧ h.Hosts receiver
  | .range _ | .exception _ _ => True

instance : Resident Object where
  On := Object.On
  stays {h h'} later o ho := by
    have classes : ∀ {c? : Option ObjId}, (∀ c, c? = some c → h.IsClass c) →
        ∀ c, c? = some c → h'.IsClass c := fun hc c same => (hc c same).later later.toGrows
    cases o with
    | list l => exact later.keep (a := l.items) ho
    | tuple items | deque items => exact later.keep (a := items) ho
    | dict d => exact later.keep (a := d) ho
    | set s => exact later.keep (a := s) ho
    | builtinMethod receiver => exact later.keep (a := receiver) ho
    | module m => exact later.keep (a := m.attrs) ho
    | «instance» | super => exact ⟨ho.1.later later.toGrows, later.keep ho.2⟩
    | «class» | «function» => exact ⟨classes ho.1, later.keep ho.2⟩
    | boundMethod => exact ⟨later.keep ho.1, Nat.lt_of_lt_of_le ho.2 later.size⟩
    | range | exception => trivial

-- The id under which an object reports accesses.
def Object.tracker? : Object → Option ObjId
  | .list l => l.tracker
  | _ => none

instance : Resident Outcome where
  On h
    | .value v => h.Hosts v
    | .object o => h.Hosts o ∧ o.tracker? = none
  stays l out hout := by
    cases out with
    | value v => exact l.keep (a := v) hout
    | object o => exact ⟨l.keep (a := o) hout.1, hout.2⟩

instance : Resident Scope where
  On h s := h.Hosts s.vars
  stays l _ hs := l.keep hs

instance : Resident Frame where
  On h f := ∀ cls receiver, f.methodOf = some (cls, receiver) → h.IsClass cls ∧ h.Hosts receiver
  stays l _ hf cls receiver same :=
    ⟨(hf cls receiver same).1.later l.toGrows, l.keep (hf cls receiver same).2⟩

instance : Resident Iteration where
  On h
    | .items rest => h.Hosts rest
    | _ => True
  stays l it hit := by
    cases it with
    | items rest => exact l.keep (a := rest) hit
    | _ => trivial

instance : Resident Flow where
  On h
    | .returned v => h.Hosts v
    | _ => True
  stays l flow hflow := by
    cases flow with
    | returned v => exact l.keep (a := v) hflow
    | _ => trivial

/-! ### Intact states -/

-- What the place of an object says about it.
def Object.Placed (id : ObjId) (o : Object) : Prop :=
  match o.shell with
  | .list l => ∀ t, l.tracker = some t → t = id
  | .tuple items => ∀ v ∈ items, v.Below id
  | .class c => ∀ b, c.base = some b → b < id
  | _ => True

structure Heap.Intact (h : Heap) : Prop where
  room : h.size ≤ h.limit
  placed : ∀ id o, h.get? id = some o → o.Placed id
  hosts : ∀ id o, h.get? id = some o → h.Hosts o

structure Machine.Intact (m : Machine) : Prop where
  heap : m.heap.Intact
  scopes : m.heap.Hosts m.scopes
  frame : m.heap.Hosts m.frame
  callers : m.heap.Hosts m.callers
  modules : m.heap.Hosts m.modules

namespace Heap.Intact

variable {h : Heap} {id : ObjId} {o : Object}

theorem stratified (intact : h.Intact) : h.Stratified := fun id _ found =>
  intact.placed id _ found

theorem later (intact : h.Intact) {h' : Heap} (g : h.Grows h') : h.Later h' :=
  ⟨g, intact.stratified⟩

theorem push (intact : h.Intact) (room : h.size < h.limit) (placed : o.Placed h.size)
    (ho : h.Hosts o) : (h.push o).Intact := by
  have l := intact.later (.push h o)
  refine ⟨by rw [size_push]; exact room, fun id p found => ?_, fun id p found => ?_⟩
  · rcases get?_push found with old | ⟨rfl, rfl⟩
    · exact intact.placed id p old
    · exact placed
  · rcases get?_push found with old | ⟨rfl, rfl⟩
    · exact l.keep (intact.hosts id p old)
    · exact l.keep ho

theorem modify (intact : h.Intact) {f : Object → Object}
    (keeps : ∀ o, h.get? id = some o → (f o).shell = o.shell ∧ h.Hosts (f o)) :
    (h.modify id f).Intact := by
  have l := intact.later (.modify id fun o found => (keeps o found).1)
  have origin : ∀ j p, (h.modify id f).get? j = some p →
      (∃ o, h.get? j = some o ∧ p.shell = o.shell) ∧ h.Hosts p := by
    intro j p found
    rw [get?_modify] at found
    split at found
    · next same =>
      subst same
      obtain ⟨o, old, rfl⟩ := Option.map_eq_some_iff.1 found
      exact ⟨⟨o, old, (keeps o old).1⟩, (keeps o old).2⟩
    · exact ⟨⟨p, found, rfl⟩, intact.hosts j p found⟩
  refine ⟨by rw [size_modify]; exact intact.room, fun j p found => ?_, fun j p found => ?_⟩
  · obtain ⟨⟨o, old, same⟩, -⟩ := origin j p found
    rw [Object.Placed, same]
    exact intact.placed j o old
  · exact l.keep (origin j p found).2

end Heap.Intact

-- An untracked object may lie after those which it mentions.
theorem Object.placed_new {h : Heap} {o : Object} (ho : h.Hosts o) (untracked : o.tracker? = none) :
    o.Placed h.size := by
  cases o with
  | list l =>
    intro t tracked
    exact absurd (tracked.symm.trans untracked) (by simp)
  | tuple items => exact ho
  | «class» c => exact fun b based => (ho.1 b based).lt
  | _ => trivial

end StepTrace
