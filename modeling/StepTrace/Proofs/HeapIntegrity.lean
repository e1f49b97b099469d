import StepTrace.Proofs.References
import StepTrace.Proofs.TracedRun

/-!
The heap over a whole run. Every id that a state mentions leads to an object; objects stay, and stay
what they are; the classes above a class come to an end.
-/

set_option autoImplicit false

namespace StepTrace

open Heap

/-! ### Classes above each other -/

-- The classes from one up to one without a base.
inductive Lineage (h : Heap) : Option ObjId → List (ObjId × ClassObject) → Prop
  | top : Lineage h none []
  | step {id : ObjId} {c : ClassObject} {line : List (ObjId × ClassObject)}
    (found : h.get? id = some (.class c)) (above : Lineage h c.base line) :
    Lineage h (some id) ((id, c) :: line)

namespace Lineage

variable {h : Heap} {cls : Option ObjId} {line : List (ObjId × ClassObject)}

-- A walk that has room for the whole line gives the first answer of the line.
theorem walk {α : Type} (lineage : Lineage h cls line) (answer : ObjId → ClassObject → Option α)
    {bound : Nat} (room : line.length ≤ bound) :
    h.walkClasses answer bound cls = line.findSome? fun (id, c) => answer id c := by
  induction lineage generalizing bound with
  | top => cases bound <;> rfl
  | @step id c line found _ ih =>
    obtain ⟨bound, rfl⟩ := Nat.exists_eq_add_of_le' (Nat.le_trans (Nat.succ_pos _) room)
    rw [walkClasses, found, List.findSome?_cons]
    dsimp only
    cases answer id c with
    | some a => rfl
    | none => exact ih (Nat.le_of_succ_le_succ room)

-- Bases are older than the classes that derive from them.
theorem of_class (intact : h.Intact) (id : ObjId) {c : ClassObject}
    (found : h.get? id = some (.class c)) :
    ∃ line, Lineage h (some id) line ∧ line.length ≤ id + 1 := by
  induction id using Nat.strongRecOn generalizing c with
  | ind id ih =>
    cases based : c.base with
    | none =>
      refine ⟨[(id, c)], .step found ?_, Nat.succ_le_succ (Nat.zero_le _)⟩
      rw [based]
      exact .top
    | some b =>
      have older : b < id := intact.placed id _ found b based
      obtain ⟨c', found'⟩ := (intact.hosts id _ found).1 b based
      obtain ⟨line, lineage, short⟩ := ih b older found'
      refine ⟨(id, c) :: line, .step found ?_, ?_⟩
      · rw [based]
        exact lineage
      · exact Nat.succ_le_succ (Nat.le_trans short older)

end Lineage

/-! ### Well-formed states -/

structure Machine.WellFormed (limit : Nat) (m : Machine) : Prop where
  refs : ∀ id ∈ m.refs, id < m.heap.size
  room : m.heap.size ≤ limit
  trackers : ∀ id l t, m.heap.get? id = some (.list l) → l.tracker = some t → t = id
  classes : ∀ cls ∈ m.classRefs, m.heap.IsClass cls
  bases : ∀ id c b, m.heap.get? id = some (.class c) → c.base = some b → b < id
  -- A walk from a class upwards ends where the classes do, so more room than there is for it by
  -- the size of the heap makes no difference.
  lineages : ∀ cls, m.heap.IsClass cls → ∃ line, Lineage m.heap (some cls) line ∧
    line.length ≤ m.heap.size ∧ ∀ {α : Type} (answer : ObjId → ClassObject → Option α) bound,
      m.heap.size ≤ bound →
      m.heap.walkClasses answer bound (some cls) = line.findSome? fun (id, c) => answer id c

theorem Machine.Intact.wellFormed {m : Machine} (intact : m.Intact) :
    m.WellFormed m.heap.limit where
  refs := intact.refs_lt
  room := intact.heap.room
  trackers id _ t found tracked := intact.heap.placed id _ found t tracked
  classes := intact.classRefs
  bases id _ b found based := intact.heap.placed id _ found b based
  lineages cls here := by
    obtain ⟨c, found⟩ := here
    obtain ⟨line, lineage, short⟩ := Lineage.of_class intact.heap cls found
    have small : line.length ≤ m.heap.size := Nat.le_trans short (lt_size found)
    exact ⟨line, lineage, small, fun answer bound room =>
      lineage.walk answer (Nat.le_trans small room)⟩

-- One state comes before another one.
structure Machine.Precedes (m m' : Machine) : Prop where
  size : m.heap.size ≤ m'.heap.size
  kinds : ∀ id < m.heap.size,
    (m'.heap.get? id).map Object.ctorIdx = (m.heap.get? id).map Object.ctorIdx

theorem Heap.Grows.kinds {h h' : Heap} (g : h.Grows h') {id : ObjId} (lt : id < h.size) :
    (h'.get? id).map Object.ctorIdx = (h.get? id).map Object.ctorIdx := by
  have kind : ∀ o? : Option Object,
      o?.map Object.ctorIdx = (o?.map Object.shell).map Object.ctorIdx := by
    intro o?
    rw [Option.map_map]
    exact Option.map_congr fun o _ => (Object.ctorIdx_shell o).symm
  exact (kind _).trans ((congrArg _ (g.shells id lt)).trans (kind _).symm)

/-! ### Shown variables -/

namespace Machine

-- The variables of a step, with `missing` for what lies nowhere.
def shownOr (m : Machine) (missing : ObjId → Snapshot) : Ordered String Binding :=
  let visible := (m.vars m.frame.scope).filter fun name v =>
    !m.config.filter.hides name && !m.heap.isCode v
  visible.mapValues fun v =>
    { m.binding v with value := m.heap.captureOr missing m.config.maxDepth v }

theorem Intact.shownOr_eq {m : Machine} (intact : m.Intact) (missing : ObjId → Snapshot) :
    m.shownOr missing = m.shown := by
  refine Ordered.ext (Array.toList_inj.1 ?_)
  change ((m.shownOr missing).toList) = m.shown.toList
  rw [shownOr, shown, Ordered.toList_mapValues, Ordered.toList_mapValues]
  refine List.map_congr_left fun ⟨name, v⟩ here => ?_
  rw [Ordered.toList_filter] at here
  have home : m.heap.Hosts v := (intact.vars _ _ (List.mem_filter.1 here).1).2
  have same := Heap.captureOr_eq intact.heap missing m.config.maxDepth home
  exact congrArg (fun shown => (name, { m.binding v with value := shown })) same

end Machine

/--
All along a run the states are well-formed, the heap grows without changing what its objects are,
and neither steps nor the texts of values depend on what is shown for an id that leads nowhere.
-/
theorem heap_stays_well_formed (fuel : Nat) (p : Program) (config : Config)
    (inputs : List String) :
    ∃ s, History (tracedRun fuel p) (.start config inputs) s ∧
      (trajectory (.start config inputs) s).Pairwise Machine.Precedes ∧
      ∀ m ∈ trajectory (.start config inputs) s,
        m.WellFormed config.maxObjects ∧
        (∀ missing, m.shownOr missing = m.shown) ∧
        (∀ v : Value, (∀ id ∈ v.refs, id < m.heap.size) →
          (∀ missing, m.heap.reprOr missing v = m.heap.repr v) ∧
          ∀ missing maxDepth, m.heap.captureOr missing maxDepth v = m.heap.capture maxDepth v) ∧
        ∀ n e v m', (interp n).evalExpr e m = .ok v m' → ∀ id ∈ v.refs, id < m'.heap.size := by
  have intact := Machine.intact_start config inputs
  obtain ⟨s, history, course, -⟩ := (Sound.tracedRun fuel p).history intact
  obtain ⟨states, ordered⟩ := course.trajectory intact
  refine ⟨s, history, ordered.imp fun later => ⟨later.size, fun id lt => later.kinds lt⟩, ?_⟩
  intro m hm
  obtain ⟨intact, later⟩ := states m hm
  refine ⟨?_, intact.shownOr_eq, fun v home => ?_, fun n e v m' done => ?_⟩
  · have limit : m.heap.limit = config.maxObjects := later.limit
    exact limit ▸ intact.wellFormed
  · exact ⟨fun missing => reprOr_eq intact.heap missing (hosts_of_refs home),
      fun missing maxDepth => captureOr_eq intact.heap missing maxDepth (hosts_of_refs home)⟩
  · obtain ⟨_, _, _, value⟩ := ((interp_sound n).evalExpr m e).history intact
    exact refs_lt (value v m' done)

end StepTrace
