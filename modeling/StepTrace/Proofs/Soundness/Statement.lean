import StepTrace.Proofs.Soundness.Expression

/-!
Statements and whole programs keep states intact, with any amount of fuel.
-/

set_option autoImplicit false

namespace StepTrace

open Heap

namespace Sound

variable {m : Machine}

theorem claim {cls : ObjId} (hcls : m.heap.IsClass cls) (vs : List Value) :
    Safe m (Interp.claim cls vs) := by
  induction vs generalizing m with
  | nil => exact .ret trivial
  | cons v rest ih =>
    cases v with
    | ref id =>
      refine .bind (.change fun o _ ho => ?_) fun _ _ l _ => ih (hcls.later l.toGrows)
      cases o with
      | «function» f =>
        refine ⟨rfl, fun c owned => ?_, ho.2⟩
        cases owner : f.owner with
        | none =>
          rw [owner] at owned
          cases owned
          exact hcls
        | some c' =>
          rw [owner] at owned
          exact ho.1 c (owner.trans owned)
      | _ => exact ⟨rfl, ho⟩
    | _ => exact ih hcls

theorem importModule (name : String) : Safe m (Interp.importModule name) := by
  refine .after (.imported? name) fun known hknown => ?_
  split
  · next v => exact .ret (hknown v rfl)
  · split
    · exact .fault _
    · next mod found =>
      have hmod : m.heap.Hosts (Object.module mod) := hosts_module? found
      exact .bind (.alloc hmod rfl) fun _ _ _ hv => .bind (.remember name hv) fun _ _ l _ =>
        .ret (l.keep hv)

theorem importNames (module : String) {v : Value} (names : List ImportedName) :
    Safe m (Interp.importNames module v names) := by
  induction names generalizing m with
  | nil => exact .ret trivial
  | cons n rest ih =>
    refine .after (.deref? v) fun o ho => ?_
    obtain ⟨-, ho⟩ := ho
    dsimp only
    split
    · next attr found =>
      refine .bind (.store n.bound ?_) fun _ _ _ _ => ih
      split at found
      · exact hosts_get? (ho _ rfl) found
      · cases found
    · exact .raise _

end Sound

namespace Interp.Sound

variable {r : Interp} (R : r.Sound) {m : Machine}
include R

theorem inPlace {a b : Value} (op : BinaryOp) (ha : m.heap.Hosts a) (hb : m.heap.Hosts b) :
    Safe m (r.inPlace op a b) := by
  refine .after (.deref? a) fun o ho => ?_
  obtain ⟨-, ho⟩ := ho
  split
  · next id _ =>
    exact .bind (R.collect hb) fun _ _ l hnew =>
      .bind (.changeItems fun _ hitems => hosts_append hitems hnew) fun _ _ l' _ =>
        .ret (l'.keep (l.keep ha))
  · next s _ =>
    refine .after (.deref? b) fun p hp => ?_
    obtain ⟨-, hp⟩ := hp
    split
    · next t =>
      split
      · next u done =>
        have hu : m.heap.Hosts u := hosts_setOperator _ (ho _ rfl) (hp _ rfl) done
        exact .bind (.alloc hu rfl) fun _ _ l _ => .bind (.mapSet fun _ _ => l.keep hu)
          fun _ _ l' _ => .ret (l'.keep (l.keep ha))
      · exact R.binary _ ha hb
    · exact R.binary _ ha hb
  · exact R.binary _ ha hb

theorem augAssign (m : Machine) (line : Nat) (op : BinaryOp) (target value : Expr) :
    Safe m (r.augAssign line op target value) := by
  cases target with
  | name l name =>
    exact .bind (.lookup name) fun _ m₁ _ hcurrent => .bind (R.eval m₁ value) fun _ _ l hv =>
      .bind (R.inPlace op (l.keep hcurrent) hv) fun _ _ _ hw => .store name hw
  | attr l object name =>
    exact .bind (R.eval m object) fun _ _ _ hobject => .bind (.getAttr hobject name)
      fun _ m₂ _ hcurrent => .bind (R.eval m₂ value) fun _ _ l hv =>
        .bind (R.inPlace op (l.keep hcurrent) hv) fun _ _ _ hw => .setAttr _ name hw
  | subscript l object index =>
    refine .ite (fun _ => .raise _) fun _ => ?_
    refine .bind (R.eval m object) fun _ m₁ _ hobject => .bind (R.eval m₁ index)
      fun _ m₂ l₂ hindex => ?_
    replace hobject := l₂.keep hobject
    refine .bind (R.getItem hobject hindex) fun _ m₃ l₃ hcurrent => .bind (R.eval m₃ value)
      fun _ m₄ l₄ hv => .bind (R.inPlace op (l₄.keep hcurrent) hv) fun _ m₅ l₅ hw => ?_
    have later := (l₃.trans l₄).trans l₅
    exact R.setItem (later.keep hobject) (later.keep hindex) hw
  | _ => exact .fault _

set_option linter.unusedSectionVars false in
mutual

theorem remove (m : Machine) (line : Nat) (target : Expr) : Safe m (r.remove line target) := by
  cases target with
  | name l name => exact .delete name
  | tuple l targets | list l targets => exact removeAll m line targets
  | attr l object name => exact .bind (R.eval m object) fun _ _ _ _ => .deleteAttr _ name
  | subscript l object index =>
    exact .bind (R.eval m object) fun _ _ _ hobject =>
      R.withIndex index (fun b _ _ => .deleteSlice _ b) fun _ _ l hindex =>
        R.deleteItem (l.keep hobject) hindex
  | _ => exact .fault _

theorem removeAll (m : Machine) (line : Nat) (targets : List Expr) :
    Safe m (r.removeAll line targets) := by
  cases targets with
  | nil => exact .ret trivial
  | cons target rest => exact .bind (remove m line target) fun _ m' _ _ => removeAll m' line rest

end

theorem baseOf (m : Machine) (base : Option Expr) :
    StepTrace.Sound m (fun m' found => ∀ b, found.1 = some b → m'.heap.IsClass b)
      (r.baseOf base) := by
  cases base with
  | none => exact .ret fun _ never => nomatch never
  | some e =>
    refine .bind (R.eval m e) fun v m' _ _ => .after (.deref? v) fun o ho => ?_
    obtain ⟨found, -⟩ := ho
    split
    · exact .ret fun _ never => nomatch never
    · exact .ret fun _ never => nomatch never
    · next id c _ =>
      refine .ret fun b same => ?_
      cases same
      exact ⟨c, found.symm⟩
    · dsimp only
      split
      · exact .ite (fun _ => .fault _) fun _ => .faultOn _
      · exact .faultOn _

theorem defineClass (m : Machine) (line : Nat) (name : String) (base : Option Expr)
    (body : List Stmt) : Safe m (r.defineClass line name base body) := by
  refine .bind (R.baseOf m base) fun found m₁ _ hbase => .after .enclosingScope fun _ _ =>
    .bind (.newScope (fun _ none => absurd none List.not_mem_nil) _) fun scope m₂ l₂ _ => ?_
  replace hbase : ∀ b, found.1 = some b → m₂.heap.IsClass b := fun b based =>
    (hbase b based).later l₂.toGrows
  refine .bind (.inFrame (fun _ _ never => nomatch never) (R.block _ body)) fun flow m₃ l₃ _ => ?_
  replace hbase : ∀ b, found.1 = some b → m₃.heap.IsClass b := fun b based =>
    (hbase b based).later l₃.toGrows
  split
  · refine .after (.varsOf scope) fun attrs hattrs => ?_
    refine .bind (.allocated (o := .class ⟨name, found.1, found.2, attrs⟩) ⟨hbase, hattrs⟩ rfl)
      fun v m₄ l₄ made => ?_
    obtain ⟨id, rfl, here⟩ := made
    have hcls : m₄.heap.IsClass id := ⟨_, here⟩
    exact .bind (.claim hcls _) fun _ _ l₅ _ => .store name (hcls.later l₅.toGrows).lt
  · exact .fault _
  · exact .fault _
  · exact .fault _

theorem raised {v : Value} (hv : m.heap.Hosts v) : Safe m (r.raised v) := by
  refine .onHeap fun _ => ?_
  split
  · exact .ret trivial
  · exact .ret trivial
  · exact .ite (fun _ => .ret trivial) fun _ => .fault _
  · exact .ite (fun _ => .bind (R.display hv) fun _ _ _ _ => .ret trivial) fun _ => .fault _
  · exact .fault _

theorem whileLoop (m : Machine) (line : Nat) (condition : Expr) (body : List Stmt) (fuel : Nat) :
    Safe m (r.whileLoop line condition body fuel) := by
  induction fuel generalizing m with
  | zero => exact .outOfFuel
  | succ fuel ih =>
    have goesOn : ∀ m, Safe m (do
        Run.boundary line
        r.whileLoop line condition body fuel) := fun _ =>
      .bind (.boundary line) fun _ m' _ _ => ih m'
    exact .bind (R.eval m condition) fun _ _ _ hv => .bind (R.truth hv) fun
      | true, m', _, _ => .bind (R.block m' body) fun
        | .broken, _, _, _ => .ret trivial
        | .returned _, _, _, hw => .ret hw
        | .normal, m'', _, _ => goesOn m''
        | .continued, m'', _, _ => goesOn m''
      | false, _, _, _ => .ret trivial

theorem forLoop (line : Nat) (target : Expr) (body : List Stmt) (fuel : Nat) {it : Iteration}
    (hit : m.heap.Hosts it) : Safe m (r.forLoop line target body fuel it) := by
  induction fuel generalizing it m with
  | zero => exact .outOfFuel
  | succ fuel ih =>
    refine .onHeap fun intact => ?_
    split
    · exact .ret trivial
    · next v rest item =>
      obtain ⟨hv, hrest⟩ := intact.next? hit item
      refine .bind (assign R line target hv) fun _ m₁ l₁ _ => .bind (R.block m₁ body)
        fun flow m₂ l₂ hflow => ?_
      replace hrest := l₂.keep (l₁.keep hrest)
      have goesOn : Safe m₂ (do
          Run.boundary line
          r.forLoop line target body fuel rest) :=
        .bind (.boundary line) fun _ _ l _ => ih (l.keep hrest)
      cases flow with
      | broken => exact .ret trivial
      | returned w => exact .ret hflow
      | normal => exact goesOn
      | continued => exact goesOn

theorem assignEach (line : Nat) {v : Value} (hv : m.heap.Hosts v) (targets : List Expr) :
    Safe m (r.assignEach line v targets) := by
  induction targets generalizing m with
  | nil => exact .ret trivial
  | cons target rest ih =>
    exact .bind (assign R line target hv) fun _ _ l _ => ih (l.keep hv)

theorem execStmt (m : Machine) (s : Stmt) : Safe m (r.execStmt s) := by
  cases s with
  | expr l e => exact .bind (R.eval m e) fun _ _ _ _ => .ret trivial
  | assign l targets value =>
    exact .bind (R.eval m value) fun _ _ _ hv => .bind (R.assignEach l.line hv targets)
      fun _ _ _ _ => .ret trivial
  | augAssign l op target value =>
    exact .bind (R.augAssign m l.line op target value) fun _ _ _ _ => .ret trivial
  | ifElse l condition body orelse =>
    exact .bind (R.eval m condition) fun _ _ _ hv => .bind (R.truth hv) fun
      | true, m', _, _ => R.block m' body
      | false, m', _, _ => R.block m' orelse
  | «while» l condition body => exact R.whileLoop m ..
  | «for» l target iter body =>
    exact .bind (R.eval m iter) fun _ _ _ hv => .bind (R.iteration hv) fun _ _ _ hit =>
      R.forLoop l.line target body _ hit
  | «break» | «continue» | pass => exact .ret trivial
  | «return» l e =>
    cases e with
    | none => exact .ret trivial
    | some e => exact .bind (R.eval m e) fun _ _ _ hv => .ret hv
  | «function» l name params body =>
    exact .bind (R.makeFunction m ..) fun _ _ _ hv => .bind (.store name hv) fun _ _ _ _ =>
      .ret trivial
  | «class» l name base body =>
    exact .bind (R.defineClass m ..) fun _ _ _ _ => .ret trivial
  | «global» l names => exact .bind (.declareGlobal names) fun _ _ _ _ => .ret trivial
  | raise l e =>
    cases e with
    | none => exact .fault _
    | some e =>
      exact .bind (R.eval m e) fun _ _ _ hv => .bind (R.raised hv) fun _ _ _ _ => .fault _
  | assert l condition message =>
    refine .bind (R.eval m condition) fun _ _ _ hv => .bind (R.truth hv) fun
      | true, _, _, _ => .ret trivial
      | false, m', _, _ => ?_
    cases message with
    | none => exact .bind (A := fun _ _ => True) (.ret trivial) fun _ _ _ _ => .fault _
    | some e =>
      exact .bind (R.eval m' e) fun _ _ _ hw => .bind (R.display hw) fun _ _ _ _ => .fault _
  | delete l targets => exact .bind (removeAll R m l.line targets) fun _ _ _ _ => .ret trivial
  | importModule l imported =>
    exact .bind (.importModule _) fun _ _ _ hv => .bind (.store _ hv) fun _ _ _ _ => .ret trivial
  | importFrom l module names =>
    exact .bind (.importModule _) fun _ _ _ _ => .bind (.importNames module names)
      fun _ _ _ _ => .ret trivial

theorem execBlock (m : Machine) (body : List Stmt) : Safe m (r.execBlock body) := by
  induction body generalizing m with
  | nil => exact .ret trivial
  | cons s rest ih =>
    refine .bind (.boundary _) fun _ m₁ _ _ => .bind (R.execStmt m₁ s) fun flow m₂ _ hflow => ?_
    cases flow with
    | normal => exact ih m₂
    | returned v => exact .ret hflow
    | broken | continued => exact .ret trivial

end Interp.Sound

theorem interp_sound (fuel : Nat) : (interp fuel).Sound := by
  -- Everything that a part starts has less fuel.
  induction fuel with
  | zero =>
    exact ⟨fun _ _ => .outOfFuel, fun _ _ => .outOfFuel, fun _ _ _ => .outOfFuel,
      fun _ => .outOfFuel⟩
  | succ n ih =>
    refine ⟨fun m e => ?_, ih.execBlock, ih.callValue, ih.iteration⟩
    change Safe m (atLevel n (Run.deeper ((interp n).evalExpr e)))
    rw [atLevel_eq]
    exact .deeper (ih.evalExpr _ e)

namespace Sound

theorem runProgram (fuel : Nat) (p : Program) (m : Machine) : Safe m (runProgram fuel p) := by
  refine .bind ((interp_sound fuel).execBlock m p) fun flow _ _ _ => ?_
  cases flow with
  | normal => exact .ret trivial
  | returned | broken | continued => exact .faultAtLine _

end Sound

end StepTrace
