import Mathlib.Data.List.Nodup
import StepTrace.Proofs.Literals.Assignment
import StepTrace.Proofs.Literals.Hashing
import StepTrace.Proofs.Marks

/-!
Evaluating what a program writes for a literal: it makes one object for every container, and the
value spells as the literal again.
-/

set_option autoImplicit false

namespace StepTrace

/-! ### Runs that only make objects -/

-- The heap has `count` objects more, and those that it had are as they were.
structure Heap.Extends (h h' : Heap) (count : Nat) : Prop where
  keeps : ∀ id o, h.get? id = some o → h'.get? id = some o
  size : h'.size = h.size + count
  limit : h'.limit = h.limit

namespace Heap.Extends

variable {h h' h'' : Heap} {count count' : Nat}

theorem refl (h : Heap) : h.Extends h 0 := ⟨fun _ _ => id, rfl, rfl⟩

theorem trans (e : h.Extends h' count) (e' : h'.Extends h'' count') :
    h.Extends h'' (count + count') :=
  ⟨fun id o found => e'.keeps id o (e.keeps id o found), by rw [e'.size, e.size, Nat.add_assoc],
    e'.limit.trans e.limit⟩

theorem push (h : Heap) (o : Object) : h.Extends (h.push o) 1 where
  keeps id p found := by
    have old := (Array.getElem?_eq_some_iff.1 found).1
    rw [Heap.get?, Heap.push, Array.getElem?_push, if_neg (Nat.ne_of_lt old)]
    exact found
  size := h.size_push o
  limit := rfl

theorem room {more : Nat} (e : h.Extends h' count) (room : h.size + (count + more) ≤ h.limit) :
    h'.size + more ≤ h'.limit := by
  rw [e.size, e.limit]
  omega

end Heap.Extends

-- The run makes `count` objects and changes nothing else.
def Run.Makes {α : Type} (x : Run α) (m : Machine) (count : Nat) (P : Heap → α → Prop) : Prop :=
  ∃ a h, x m = .ok a { m with heap := h } ∧ m.heap.Extends h count ∧ P h a

namespace Run.Makes

variable {α β : Type} {x : Run α} {f : α → Run β} {m : Machine} {count count' : Nat}
  {P : Heap → α → Prop} {Q : Heap → β → Prop}

theorem pure {a : α} (h : P m.heap a) : (Pure.pure a : Run α).Makes m 0 P :=
  ⟨a, m.heap, rfl, .refl _, h⟩

theorem bind (hx : x.Makes m count P)
    (hf : ∀ a h, m.heap.Extends h count → P h a → (f a).Makes { m with heap := h } count' Q) :
    (x >>= f).Makes m (count + count') Q := by
  obtain ⟨a, h, done, extends₁, ha⟩ := hx
  obtain ⟨b, h', done', extends₂, hb⟩ := hf a h extends₁ ha
  exact ⟨b, h', (Run.bind_ok done).trans done', extends₁.trans extends₂, hb⟩

theorem alloc {o : Object} {P : Heap → Value → Prop} (room : m.heap.size < m.heap.limit)
    (made : P (m.heap.push o) (.ref m.heap.size)) : (Run.alloc o).Makes m 1 P :=
  ⟨_, _, if_pos room, .push _ _, made⟩

theorem keyOf {v : Value} {k : HashKey} {f : HashKey → Run β} (key : m.heap.hashKey v = .ok k)
    (hf : (f k).Makes m count Q) : (Run.keyOf v >>= f).Makes m count Q := by
  obtain ⟨b, h, done, extended, hb⟩ := hf
  exact ⟨b, h, (Run.bind_ok (keyOf_ok key)).trans done, extended, hb⟩

theorem deeper (shallow : m.evaluating < evaluationLimit)
    (h : x.Makes { m with evaluating := m.evaluating + 1 } count P) :
    (Run.deeper x).Makes m count P := by
  obtain ⟨a, h', done, extended, ha⟩ := h
  refine ⟨a, h', ?_, extended, ha⟩
  rw [Run.deeper_eq, if_pos shallow, done]
  rfl

theorem eval {n : Nat} {e : Expr} {P : Heap → Value → Prop}
    (shallow : m.evaluating < evaluationLimit)
    (h : ((interp n).evalExpr e).Makes { m with evaluating := m.evaluating + 1 } count P) :
    ((interp (n + 1)).eval e).Makes m count P := by
  change (atLevel n (Run.deeper ((interp n).evalExpr e))).Makes m count P
  rw [atLevel_eq]
  exact deeper shallow h

end Run.Makes

/-! ### Distinct keys -/

-- All of the literals have hash keys, and no two of them the same.
def Literal.Keyed (items : List Literal) : Prop :=
  ∃ ks : List HashKey, items.map hashKey = ks.map some ∧ ks.Nodup

theorem Literal.Keyed.fresh {done rest : List Literal} {l : Literal}
    (keyed : Keyed (done ++ l :: rest)) :
    ∃ k, l.hashKey = some k ∧ ∀ old : List HashKey, done.map hashKey = old.map some → k ∉ old := by
  obtain ⟨ks, keys, distinct⟩ := keyed
  have nodup : (ks.map some).Nodup := List.Nodup.map (fun _ _ => Option.some.inj) distinct
  rw [← keys, List.map_append, List.map_cons] at nodup
  have here : l.hashKey ∈ ks.map some := by
    rw [← keys]
    simp
  obtain ⟨k, -, key⟩ := List.mem_map.1 here
  refine ⟨k, key.symm, fun old same hk => ?_⟩
  rw [List.nodup_append] at nodup
  refine nodup.2.2 (some k) ?_ l.hashKey List.mem_cons_self key
  rw [same]
  exact List.mem_map_of_mem hk

/-! ### Displays -/

-- The dictionary has what these entries spell.
structure Heap.SpellsEntries (h : Heap) (d : DictObject) (entries : List (Literal × Literal)) :
    Prop where
  plain : d.factory = none
  indexed : DictIndexed h d
  keys : List.Forall₂ h.Spells d.keys (entries.map Prod.fst)
  values : List.Forall₂ h.Spells (d.entries.values.map Prod.snd) (entries.map Prod.snd)

structure Heap.SpellsMembers (h : Heap) (s : SetObject) (items : List Literal) : Prop where
  indexed : SetIndexed h s
  values : List.Forall₂ h.Spells s.values items

section

variable {h h' : Heap} {v w : Value} {l : Literal} {k : HashKey}

theorem Heap.Spells.forall₂_keeps {vs : List Value} {items : List Literal}
    (spelled : List.Forall₂ h.Spells vs items)
    (keeps : ∀ id o, h.get? id = some o → h'.get? id = some o) : List.Forall₂ h'.Spells vs items :=
  spelled.imp fun _ _ spells => spells.mono keeps

theorem forall₂_concat {α β : Type} {R : α → β → Prop} {as : List α} {bs : List β} {a : α} {b : β}
    (h : List.Forall₂ R as bs) (last : R a b) : List.Forall₂ R (as ++ [a]) (bs ++ [b]) :=
  List.rel_append h (.cons last .nil)

namespace Heap.SpellsEntries

variable {d : DictObject} {entries : List (Literal × Literal)} {e : Literal × Literal}

theorem empty (h : Heap) : h.SpellsEntries .empty [] where
  plain := rfl
  indexed := ⟨fun _ _ _ => nofun, Ordered.keys_nodup _⟩
  keys := .nil
  values := .nil

theorem mono (spelled : h.SpellsEntries d entries)
    (keeps : ∀ id o, h.get? id = some o → h'.get? id = some o) : h'.SpellsEntries d entries where
  plain := spelled.plain
  indexed := Spells.dictIndexed_mono spelled.indexed spelled.keys
    (Spells.forall₂_keeps spelled.keys keeps)
  keys := Spells.forall₂_keeps spelled.keys keeps
  values := Spells.forall₂_keeps spelled.values keeps

theorem insert (spelled : h.SpellsEntries d entries) (key : h.Spells v e.1) (value : h.Spells w e.2)
    (hashed : h.hashKey v = .ok k) (fresh : k ∉ d.entries.keys) :
    h.SpellsEntries (d.insert k v w) (entries ++ [e]) := by
  have toList : (d.insert k v w).entries.toList = d.entries.toList ++ [(k, v, w)] := by
    rw [DictObject.toList_insert, if_neg fresh]
  refine ⟨spelled.plain, ⟨fun k' key' v' here => ?_, Ordered.keys_nodup _⟩, ?_, ?_⟩
  · rw [toList] at here
    rcases List.mem_append.1 here with old | new
    · exact spelled.indexed.keyed k' key' v' old
    · cases List.mem_singleton.1 new
      exact hashed
  · rw [DictObject.keys, Ordered.values, toList, List.map_append, List.map_append, List.map_append]
    exact forall₂_concat spelled.keys key
  · rw [Ordered.values, toList, List.map_append, List.map_append, List.map_append]
    exact forall₂_concat spelled.values value

end Heap.SpellsEntries

namespace Heap.SpellsMembers

variable {s : SetObject} {items : List Literal}

theorem empty (h : Heap) : h.SpellsMembers .empty [] where
  indexed := ⟨fun _ _ => nofun, Ordered.keys_nodup _⟩
  values := .nil

theorem mono (spelled : h.SpellsMembers s items)
    (keeps : ∀ id o, h.get? id = some o → h'.get? id = some o) : h'.SpellsMembers s items where
  indexed := Spells.setIndexed_mono spelled.indexed spelled.values
    (Spells.forall₂_keeps spelled.values keeps)
  values := Spells.forall₂_keeps spelled.values keeps

theorem insert (spelled : h.SpellsMembers s items) (value : h.Spells v l)
    (hashed : h.hashKey v = .ok k) (fresh : k ∉ s.keys) :
    h.SpellsMembers (s.insertNew k v) (items ++ [l]) := by
  have toList : (s.insertNew k v).toList = s.toList ++ [(k, v)] := by
    rw [Ordered.toList_insertNew, if_neg fresh]
  refine ⟨⟨fun k' v' here => ?_, Ordered.keys_nodup _⟩, ?_⟩
  · rw [toList] at here
    rcases List.mem_append.1 here with old | new
    · exact spelled.indexed.keyed k' v' old
    · cases List.mem_singleton.1 new
      exact hashed
  · rw [Ordered.values, toList, List.map_append]
    exact forall₂_concat spelled.values value

end Heap.SpellsMembers

end

-- The interpreter evaluates what a program writes for the literal at this level of evaluation.
def Literal.Evaluates (l : Literal) (r : Interp) (level : Nat) : Prop :=
  ∀ (e : Expr) (m : Machine), e.Writes l → m.evaluating = level →
    m.heap.size + l.containers ≤ m.heap.limit →
    (r.eval e).Makes m l.containers fun h w => h.Spells w l

namespace Run.Makes

variable {r : Interp} {level : Nat} {m : Machine}

theorem evalAll {items : List Literal} {es : List Expr} (writes : List.Forall₂ Expr.Writes es items)
    (evaluates : ∀ l ∈ items, l.Evaluates r level) (here : m.evaluating = level)
    (room : m.heap.size + Literal.containersAll items ≤ m.heap.limit) {out : Array Value}
    {done : List Literal} (before : List.Forall₂ m.heap.Spells out.toList done) :
    (r.evalAll out es).Makes m (Literal.containersAll items) fun h vs =>
      List.Forall₂ h.Spells vs.toList (done ++ items) := by
  induction writes generalizing m out done with
  | nil => exact .pure (by rwa [List.append_nil])
  | @cons e l es items first _ ih =>
    obtain ⟨evaluates₁, evaluates⟩ := List.forall_mem_cons.1 evaluates
    rw [Literal.containersAll] at room ⊢
    refine .bind (evaluates₁ e m first here (by omega)) fun w h extended spells => ?_
    have before' : List.Forall₂ h.Spells (out.push w).toList (done ++ [l]) := by
      rw [Array.toList_push]
      exact forall₂_concat (Heap.Spells.forall₂_keeps before extended.keeps) spells
    have rest := ih evaluates (m := { m with heap := h }) here (extended.room room) before'
    rwa [List.append_assoc] at rest

theorem evalEntries {entries : List (Literal × Literal)} {es : List (Expr × Expr)}
    (writes : List.Forall₂ (fun kv e => kv.1.Writes e.1 ∧ kv.2.Writes e.2) es entries)
    (evaluates : ∀ e ∈ entries, e.1.Evaluates r level ∧ e.2.Evaluates r level)
    (here : m.evaluating = level)
    (room : m.heap.size + Literal.containersEntries entries ≤ m.heap.limit) {d : DictObject}
    {done : List (Literal × Literal)} (before : m.heap.SpellsEntries d done)
    (keyed : Literal.Keyed ((done ++ entries).map Prod.fst)) :
    (r.evalEntries d es).Makes m (Literal.containersEntries entries) fun h d' =>
      h.SpellsEntries d' (done ++ entries) := by
  induction writes generalizing m d done with
  | nil => exact .pure (by rwa [List.append_nil])
  | @cons kv e es entries first _ ih =>
    obtain ⟨⟨evaluatesKey, evaluatesValue⟩, evaluates⟩ := List.forall_mem_cons.1 evaluates
    obtain ⟨writesKey, writesValue⟩ := first
    rw [Literal.containersEntries, Nat.add_assoc] at room ⊢
    have fresh := keyed
    rw [List.map_append, List.map_cons] at fresh
    obtain ⟨k, hashed, fresh⟩ := fresh.fresh
    refine .bind (evaluatesKey _ m writesKey here (by omega)) fun v h extended spellsKey => ?_
    have room₁ := extended.room room
    refine .bind (evaluatesValue _ { m with heap := h } writesValue here
      (by dsimp only; omega)) fun w h' extended' spellsValue => ?_
    have spellsKey' := spellsKey.mono extended'.keeps
    have before' := (before.mono extended.keeps).mono extended'.keeps
    have new := fresh d.entries.keys (Heap.Spells.dict_keys before.indexed before.keys)
    have hashed' := spellsKey'.hashKey_iff.2 hashed
    have rest := ih evaluates (m := { m with heap := h' }) here (extended'.room room₁)
      (before'.insert spellsKey' spellsValue hashed' new) (by rwa [List.append_assoc])
    rw [List.append_assoc] at rest
    exact .keyOf hashed' rest

theorem setOf {items : List Literal} {vs : List Value}
    (spelled : List.Forall₂ m.heap.Spells vs items)
    {s : SetObject} {done : List Literal} (before : m.heap.SpellsMembers s done)
    (keyed : Literal.Keyed (done ++ items)) :
    (StepTrace.setOf vs s).Makes m 0 fun h s' => h.SpellsMembers s' (done ++ items) := by
  induction spelled generalizing s done with
  | nil => exact .pure (by rwa [List.append_nil])
  | @cons v l vs items first _ ih =>
    obtain ⟨k, hashed, fresh⟩ := keyed.fresh
    have new := fresh s.keys (Heap.Spells.set_keys before.indexed before.values)
    have hashed' := first.hashKey_iff.2 hashed
    have rest := ih (before.insert first hashed' new) (by rwa [List.append_assoc])
    rw [List.append_assoc] at rest
    exact .keyOf hashed' rest

end Run.Makes

/-! ### Literals -/

namespace Literal

variable {l : Literal} {n level : Nat}

theorem inside_limits (deep : l.depth < n) (shallow : level + l.depth < evaluationLimit) :
    ∃ k, n = k + 1 ∧ level < evaluationLimit ∧
      ∀ part ∈ l.parts, part.depth < k ∧ level + 1 + part.depth < evaluationLimit := by
  refine ⟨n - 1, by omega, by omega, fun part here => ?_⟩
  have := depth_lt here
  omega

theorem evaluates_of (shallow : level < evaluationLimit)
    (h : ∀ (e : Expr) (m : Machine), e.Writes l → m.evaluating = level + 1 →
      m.heap.size + l.containers ≤ m.heap.limit →
      ((interp n).evalExpr e).Makes m l.containers fun h w => h.Spells w l) :
    l.Evaluates (interp (n + 1)) level := by
  intro e m writes here room
  refine .eval (by rwa [here]) (h e { m with evaluating := m.evaluating + 1 } writes ?_ room)
  dsimp only
  rw [here]

end Literal

namespace Heap.Spells

variable {h : Heap} {v : Value}

theorem keyed_dict {entries : List (Literal × Literal)} (spells : h.Spells v (.dict entries)) :
    Literal.Keyed (entries.map Prod.fst) := by
  cases spells with
  | dict _ _ indexed keys _ => exact ⟨_, dict_keys indexed keys, indexed.distinct⟩

theorem set_ne_nil {items : List Literal} (spells : h.Spells v (.set items)) : items ≠ [] := by
  cases spells with
  | set _ some => exact some

theorem keyed_set {items : List Literal} (spells : h.Spells v (.set items)) :
    Literal.Keyed items := by
  cases spells with
  | set _ _ indexed spelled => exact ⟨_, set_keys indexed spelled, indexed.distinct⟩

theorem evaluates {l : Literal} (spells : h.Spells v l) {n level : Nat} (deep : l.depth < n)
    (shallow : level + l.depth < evaluationLimit) : l.Evaluates (interp n) level := by
  induction l generalizing v n level with
  | none | bool | str =>
    obtain ⟨n, rfl, shallow, -⟩ := Literal.inside_limits deep shallow
    refine Literal.evaluates_of shallow fun e m writes _ _ => ?_
    cases writes
    exact .pure (by constructor)
  | int i =>
    obtain ⟨n, rfl, shallow, -⟩ := Literal.inside_limits deep shallow
    cases spells with
    | int other =>
      refine Literal.evaluates_of shallow fun e m writes _ _ => ?_
      cases writes
      exact .pure (.int other)
  | list items ih =>
    obtain ⟨n, rfl, shallow, inside⟩ := Literal.inside_limits deep shallow
    have evaluates := fun l hl => (spells.of_part l hl).elim fun _ spells =>
      ih l hl spells (inside l hl).1 (inside l hl).2
    refine Literal.evaluates_of shallow fun e m writes here room => ?_
    rw [Literal.containers] at room ⊢
    have spelled : ∀ {h : Heap} {vs : Array Value} (tracker : Option ObjId),
        List.Forall₂ h.Spells vs.toList items →
          (h.push (.list ⟨vs, tracker⟩)).Spells (.ref h.size) (.list items) :=
      fun _ spelled => .list (get?_push_size _ _) (forall₂_keeps spelled (Extends.push _ _).keeps)
    cases writes with
    | list loc writes | tracked loc writes =>
      refine .bind (.evalAll writes evaluates here (by omega) .nil) fun vs h extended items => ?_
      exact .alloc (extended.room room) (spelled _ items)
  | tuple items ih =>
    obtain ⟨n, rfl, shallow, inside⟩ := Literal.inside_limits deep shallow
    have evaluates := fun l hl => (spells.of_part l hl).elim fun _ spells =>
      ih l hl spells (inside l hl).1 (inside l hl).2
    refine Literal.evaluates_of shallow fun e m writes here room => ?_
    rw [Literal.containers] at room ⊢
    cases writes with
    | tuple loc writes =>
      refine .bind (.evalAll writes evaluates here (by omega) .nil) fun vs h extended items => ?_
      exact .alloc (extended.room room)
        (.tuple (get?_push_size _ _) (forall₂_keeps items (Extends.push _ _).keeps))
  | dict entries ih =>
    obtain ⟨n, rfl, shallow, inside⟩ := Literal.inside_limits deep shallow
    have evaluates : ∀ e ∈ entries, e.1.Evaluates (interp n) (level + 1) ∧
        e.2.Evaluates (interp n) (level + 1) := by
      intro e he
      have parts : e.1 ∈ (Literal.dict entries).parts ∧ e.2 ∈ (Literal.dict entries).parts := by
        constructor <;> exact List.mem_flatMap.2 ⟨e, he, by simp⟩
      constructor
      · obtain ⟨_, spells⟩ := spells.of_part e.1 parts.1
        exact (ih e he).1 spells (inside _ parts.1).1 (inside _ parts.1).2
      · obtain ⟨_, spells⟩ := spells.of_part e.2 parts.2
        exact (ih e he).2 spells (inside _ parts.2).1 (inside _ parts.2).2
    refine Literal.evaluates_of shallow fun e m writes here room => ?_
    rw [Literal.containers] at room ⊢
    cases writes with
    | dict loc keys values =>
      refine .bind (.evalEntries (forall₂_pairs keys values) evaluates here (by omega) (.empty _)
        spells.keyed_dict) fun d h extended spelled => ?_
      have spelled := spelled.mono (Extends.push h (.dict d)).keeps
      exact .alloc (extended.room room)
        (.dict (get?_push_size _ _) spelled.plain spelled.indexed spelled.keys spelled.values)
  | set items ih =>
    obtain ⟨n, rfl, shallow, inside⟩ := Literal.inside_limits deep shallow
    have evaluates := fun l hl => (spells.of_part l hl).elim fun _ spells =>
      ih l hl spells (inside l hl).1 (inside l hl).2
    refine Literal.evaluates_of shallow fun e m writes here room => ?_
    rw [Literal.containers] at room ⊢
    cases writes with
    | set loc writes =>
      refine .bind (.evalAll writes evaluates here (by omega) .nil) fun vs h extended items => ?_
      rw [← Nat.zero_add 1]
      refine .bind (.setOf items (.empty h) spells.keyed_set) fun s h' extended' spelled => ?_
      have spelled := spelled.mono (Extends.push h' (.set s)).keeps
      have room : h'.size + 1 ≤ h'.limit :=
        extended'.room (by rw [Nat.zero_add]; exact extended.room room)
      exact .alloc room (.set (get?_push_size _ _) spells.set_ne_nil spelled.indexed
        spelled.values)

end Heap.Spells

end StepTrace
