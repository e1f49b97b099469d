import StepTrace.Eval.Call
import StepTrace.Eval.Expression
import StepTrace.Proofs.Soundness.Builtin

/-!
Calls and expressions keep states intact, and their values refer to objects that are there. A
function of a class runs with its class and receiver at hand.
-/

set_option autoImplicit false

namespace StepTrace

open Heap

/-! ### Calls -/

namespace Interp.Sound

variable {r : Interp} (R : r.Sound) {m : Machine}
include R

theorem callFunction {f : FunctionObject} {args : List Value} {keywords : Keywords}
    (hf : m.heap.Hosts (Object.function f)) (hargs : m.heap.Hosts args)
    (hkeywords : m.heap.Hosts keywords) : Safe m (r.callFunction f args keywords) := by
  refine .after .checkDepth fun _ _ => .after (.check _) fun vars bound =>
    .bind (.newScope (hosts_bind hf.2 hargs hkeywords bound) _) fun scope m₁ l _ => ?_
  replace hf := l.keep hf
  replace hargs := l.keep hargs
  refine .inFrame (fun cls receiver same => ?_) ?_
  · dsimp only at same
    split at same
    · next owned =>
      cases same
      exact ⟨hf.1 _ owned, (hosts_uncons hargs).1⟩
    · cases same
  · cases f.body with
    | block body =>
      refine .bind (R.block _ _) fun flow _ _ hflow => ?_
      split
      · exact .ret hflow
      · exact .ret trivial
      · exact .fault _
      · exact .fault _
    | lambda body => exact .bind (.boundary _) fun _ _ _ _ => R.eval _ _

theorem baseInit (receiver : Value) {args : List Value} (hargs : m.heap.Hosts args) :
    Safe m (r.baseInit receiver args) := by
  refine .onHeap fun _ => ?_
  split
  · refine .ite (fun _ => ?_) fun _ => .ite (fun _ => .ret trivial) fun _ => .fault _
    refine .bind (R.messageOf hargs) fun _ _ _ _ => .bind (.mapAttrs fun _ hattrs => ?_)
      fun _ _ _ _ => .ret trivial
    exact hosts_insert hattrs (a := .str _) trivial _
  · exact .ret trivial

theorem instantiate {cls : ObjId} {args : List Value} {keywords : Keywords}
    (hcls : m.heap.IsClass cls) (hargs : m.heap.Hosts args) (hkeywords : m.heap.Hosts keywords) :
    Safe m (r.instantiate cls args keywords) := by
  have made : m.heap.Hosts (Object.instance ⟨cls, .empty⟩) := ⟨hcls, fun _ none => nomatch none⟩
  refine .bind (.alloc made rfl) fun object m₁ l hobject => .onHeap fun intact => ?_
  replace hargs := l.keep hargs
  split
  · next init found =>
    refine .bind (R.call (intact.classAttr? found) (hosts_cons hobject hargs) (l.keep hkeywords))
      fun _ _ l' _ => .ite (fun _ => .ret (l'.keep hobject)) fun _ => .faultOn _
  · refine .ite (fun _ => ?_) fun _ => .ite (fun _ => .ret hobject) fun _ => .fault _
    exact .bind (R.baseInit _ hargs) fun _ _ l' _ => .ret (l'.keep hobject)

theorem callAttr {receiver attr : Value} {args : List Value} {keywords : Keywords}
    (hreceiver : m.heap.Hosts receiver) (hattr : m.heap.Hosts attr) (hargs : m.heap.Hosts args)
    (hkeywords : m.heap.Hosts keywords) : Safe m (r.callAttr receiver attr args keywords) :=
  .onHeap fun _ => .ite (fun _ => R.call hattr (hosts_cons hreceiver hargs) hkeywords) fun _ =>
    R.call hattr hargs hkeywords

theorem callMethod {receiver : Value} (name : String) {args : List Value} {keywords : Keywords}
    (hreceiver : m.heap.Hosts receiver) (hargs : m.heap.Hosts args)
    (hkeywords : m.heap.Hosts keywords) : Safe m (r.callMethod receiver name args keywords) := by
  have found : Safe m (do r.call (← Interp.getAttr receiver name) args keywords) :=
    .bind (.getAttr hreceiver name) fun _ _ l hattr =>
      R.call hattr (l.keep hargs) (l.keep hkeywords)
  refine .onHeap fun intact => ?_
  split
  · next i found =>
    have fields : m.heap.Hosts i.fields := (intact.deref? found).2
    split
    · next field here => exact R.call (hosts_get? fields here) hargs hkeywords
    · split
      · next attr here => exact R.callAttr hreceiver (intact.classAttr? here) hargs hkeywords
      · exact .ite (fun _ => R.baseInit _ hargs) fun _ => .fault _
  · next cls bound found =>
    have hbound : m.heap.Hosts bound := (intact.deref? found).2
    split
    · next attr here => exact R.callAttr hbound (intact.inherited? here) hargs hkeywords
    · exact .ite (fun _ => R.baseInit _ hargs) fun _ => .fault _
  · exact found
  · exact found
  · exact R.builtinMethod name hargs hkeywords

theorem callValue {callee : Value} {args : List Value} {keywords : Keywords}
    (hcallee : m.heap.Hosts callee) (hargs : m.heap.Hosts args)
    (hkeywords : m.heap.Hosts keywords) : Safe m (r.callValue callee args keywords) := by
  refine .onHeap fun intact => ?_
  split
  · exact R.callBuiltin _ hargs hkeywords
  · next f found => exact R.callFunction (intact.deref? found) hargs hkeywords
  · next c found => exact R.instantiate ⟨c, found⟩ hargs hkeywords
  · next receiver function found =>
    obtain ⟨hreceiver, hfunction⟩ : m.heap.Hosts receiver ∧ function < m.heap.size :=
      intact.deref? found
    exact R.call hfunction (hosts_cons hreceiver hargs) hkeywords
  · next receiver name found =>
    have hreceiver : m.heap.Hosts receiver := intact.deref? found
    exact .ite (fun _ => R.baseInit _ hargs) fun _ => R.builtinMethod name hargs hkeywords
  · next i found =>
    split
    · next method here =>
      exact R.call (intact.classAttr? here) (hosts_cons hcallee hargs) hkeywords
    · exact .fault _
  · exact .fault _

end Interp.Sound

/-! ### Expressions -/

namespace Sound

variable {m : Machine}

theorem forEach {σ : Type} [Resident σ] {body : Value → σ → Run σ}
    (hbody : ∀ {m : Machine} {v acc}, m.heap.Hosts v → m.heap.Hosts acc → Safe m (body v acc))
    (fuel : Nat) {it : Iteration} {acc : σ} (hit : m.heap.Hosts it) (hacc : m.heap.Hosts acc) :
    Safe m (Interp.forEach body fuel it acc) := by
  induction fuel generalizing it acc m with
  | zero => exact .outOfFuel
  | succ fuel ih =>
    refine .onHeap fun intact => ?_
    split
    · exact .ret hacc
    · next v rest item =>
      obtain ⟨hv, hrest⟩ := intact.next? hit item
      exact .bind (hbody hv hacc) fun _ _ l hacc => ih (l.keep hrest) hacc

theorem inComprehension {α : Type} [Resident α] {x : Run α} (hx : ∀ m, Safe m x) :
    Safe m (Interp.inComprehension x) := by
  have inner : ∀ {f : Frame}, m.heap.Hosts f → ∀ around, Safe m (do
      Run.checkDepth
      let scope ← Run.newScope .empty around
      Run.inFrame { f with kind := .function, scope } x) := fun hf around =>
    .after .checkDepth fun _ _ =>
      .bind (.newScope (fun _ none => absurd none List.not_mem_nil) _) fun _ _ l _ =>
        .inFrame (l.keep hf) (hx _)
  refine .after .frame fun f hf => ?_
  split
  · exact .after .enclosingScope fun _ _ => inner hf _
  · exact .bind (A := fun m' _ => m' = m) (.ret rfl) fun around _ _ same => same ▸ inner hf around

end Sound

namespace Interp.Sound

variable {r : Interp} (R : r.Sound) {m : Machine}
include R

theorem evalAll {out : Array Value} (hout : m.heap.Hosts out) (es : List Expr) :
    Safe m (r.evalAll out es) := by
  induction es generalizing out m with
  | nil => exact .ret hout
  | cons e rest ih =>
    exact .bind (R.eval m e) fun _ _ l hv => ih (hosts_push (l.keep hout) hv)

theorem evalArguments (m : Machine) (es : List Expr) : Safe m (r.evalArguments es) := by
  induction es generalizing m with
  | nil => exact .ret hosts_nil
  | cons e rest ih =>
    exact .bind (R.eval m e) fun _ m₁ _ hv => .bind (ih m₁) fun _ _ l hvs =>
      .ret (hosts_cons (l.keep hv) hvs)

theorem evalKeywords (m : Machine) (keywords : List (String × Expr)) :
    Safe m (r.evalKeywords keywords) := by
  induction keywords generalizing m with
  | nil => exact .ret hosts_nil
  | cons keyword rest ih =>
    exact .bind (R.eval m keyword.2) fun _ m₁ _ hv => .bind (ih m₁) fun _ _ l hvs =>
      .ret (hosts_cons ⟨trivial, l.keep hv⟩ hvs)

theorem evalDefaults (m : Machine) (params : List Param) : Safe m (r.evalDefaults params) := by
  induction params generalizing m with
  | nil => exact .ret hosts_nil
  | cons p rest ih =>
    obtain ⟨name, value⟩ := p
    cases value with
    | none => exact ih m
    | some e =>
      exact .bind (R.eval m e) fun _ m₁ _ hv => .bind (ih m₁) fun _ _ l hvs =>
        .ret (hosts_cons (l.keep hv) hvs)

theorem evalEntries {entries : DictObject} (hentries : m.heap.Hosts entries)
    (es : List (Expr × Expr)) : Safe m (r.evalEntries entries es) := by
  induction es generalizing entries m with
  | nil => exact .ret hentries
  | cons e rest ih =>
    exact .bind (R.eval m e.1) fun _ m₁ l hkey => .bind (R.eval m₁ e.2) fun _ _ l' hv =>
      .after (.keyOf _) fun _ keyed =>
        ih (hosts_dict_insert (l'.keep (l.keep hentries)) ⟨l'.keep hkey, keyed⟩ hv)

theorem evalPieces (m : Machine) (out : String) (parts : List FPart) :
    Safe m (r.evalPieces out parts) := by
  induction parts generalizing out m with
  | nil => exact .ret trivial
  | cons part rest ih =>
    cases part with
    | text s => exact ih m _
    | field e spec =>
      refine .bind (R.eval m e) fun v _ _ hv => ?_
      split
      · exact .bind (R.display hv) fun _ _ _ _ => ih _ _
      · exact .bind (R.display hv) fun _ _ _ _ => ih _ _
      · exact .onHeap fun _ => .after (.check _) fun _ _ => ih _ _

-- What comes after the index may rely on what is there before it.
theorem withIndex {α : Type} {A : Machine → α → Prop} (index : Expr)
    {slice : SliceBounds → Run α} {item : Value → Run α}
    (hslice : ∀ b m', m.heap.Later m'.heap → StepTrace.Sound m' A (slice b))
    (hitem : ∀ v m', m.heap.Later m'.heap → m'.heap.Hosts v → StepTrace.Sound m' A (item v)) :
    StepTrace.Sound m A (r.withIndex index slice item) := by
  cases index with
  | slice l lower upper step =>
    exact .bind (R.sliceBounds m lower upper step) fun b m' l _ => hslice b m' l
  | _ => exact .bind (R.eval m _) hitem

set_option linter.unusedSectionVars false in
mutual

theorem assign {m : Machine} (line : Nat) (target : Expr) {v : Value} (hv : m.heap.Hosts v) :
    Safe m (r.assign line target v) := by
  cases target with
  | name l name => exact .store name hv
  | tuple l targets | list l targets =>
    exact .bind (R.collect hv) fun _ _ _ hvalues =>
      .ite (fun _ => assignAll line targets (hosts_toList hvalues)) fun _ => .fault _
  | attr l object name =>
    exact .bind (R.eval m object) fun _ _ l _ => .setAttr _ name (l.keep hv)
  | subscript l object index =>
    refine .bind (R.eval m object) fun _ _ l hobject => ?_
    replace hv := l.keep hv
    exact R.withIndex index (fun _ _ l => R.setSlice _ (l.keep hv)) fun _ _ l hindex =>
      R.setItem (l.keep hobject) hindex (l.keep hv)
  | _ => exact .fault _

theorem assignAll {m : Machine} (line : Nat) (targets : List Expr) {vs : List Value}
    (hvs : m.heap.Hosts vs) : Safe m (r.assignAll line targets vs) := by
  cases targets with
  | nil => exact .ret trivial
  | cons target rest =>
    cases vs with
    | nil => exact .ret trivial
    | cons v vs =>
      obtain ⟨hv, hvs⟩ := hosts_uncons hvs
      exact .bind (assign line target hv) fun _ _ l _ => assignAll line rest (l.keep hvs)

end

theorem allHold (m : Machine) (conditions : List Expr) : Safe m (r.allHold conditions) := by
  induction conditions generalizing m with
  | nil => exact .ret trivial
  | cons e rest ih =>
    exact .bind (R.eval m e) fun _ _ _ hv => .bind (R.truth hv) fun
      | true, m', _, _ => ih m'
      | false, _, _, _ => .ret trivial

theorem forClauses {σ : Type} [Resident σ] {emit : σ → Run σ}
    (hemit : ∀ {m : Machine} {acc}, m.heap.Hosts acc → Safe m (emit acc))
    (clauses : List Clause) {acc : σ} (hacc : m.heap.Hosts acc) :
    Safe m (r.forClauses emit clauses acc) := by
  induction clauses generalizing acc m with
  | nil => exact hemit hacc
  | cons clause rest ih =>
    obtain ⟨target, iter, conditions⟩ := clause
    refine .bind (R.eval m iter) fun _ _ l hv => .bind (R.iteration hv) fun _ _ l' hit =>
      .forEach (fun hv hacc => ?_) _ hit (l'.keep (l.keep hacc))
    exact .bind (assign R _ target hv) fun _ _ l _ => .bind (allHold R _ conditions) fun
      | true, _, l', _ => ih (l'.keep (l.keep hacc))
      | false, _, l', _ => .ret (l'.keep (l.keep hacc))

theorem compareChain {left : Value} (hleft : m.heap.Hosts left) (rest : List (CompareOp × Expr)) :
    Safe m (r.compareChain left rest) := by
  induction rest generalizing left m with
  | nil => exact .ret trivial
  | cons comparison rest ih =>
    exact .bind (R.eval m comparison.2) fun _ _ l hright =>
      .bind (R.compare comparison.1 (l.keep hleft) hright) fun
        | true, _, l', _ => ih (l'.keep hright)
        | false, _, _, _ => .ret trivial

theorem makeFunction (m : Machine) (name : String) (params : List Param) (body : FunctionBody)
    (line : Nat) : Safe m (r.makeFunction name params body line) :=
  .bind (R.evalDefaults m params) fun _ _ _ hdefaults => .after .enclosingScope fun _ _ =>
    .alloc ⟨(fun _ never => nomatch never), hdefaults⟩ rfl

theorem evalExpr (m : Machine) (e : Expr) : Safe m (r.evalExpr e) := by
  cases e with
  | none | bool | int | float | str => exact .ret trivial
  | fstring l parts => exact .bind (R.evalPieces m _ parts) fun _ _ _ _ => .ret trivial
  | name l name => exact .lookup name
  | list l items => exact .bind (R.evalAll hosts_empty items) fun _ _ _ hs => .alloc hs rfl
  | tracked l inner =>
    cases inner with
    | list l items => exact .bind (R.evalAll hosts_empty items) fun _ _ _ hs => .allocTracked hs
    | _ => exact R.eval m _
  | tuple l items => exact .bind (R.evalAll hosts_empty items) fun _ _ _ hs => .alloc hs rfl
  | set l items =>
    exact .bind (R.evalAll hosts_empty items) fun _ _ _ hs =>
      .bind (.setOf (hosts_toList hs) hosts_set_empty) fun _ _ _ hset => .alloc hset rfl
  | dict l entries =>
    exact .bind (R.evalEntries hosts_dict_empty entries) fun _ _ _ hd => .alloc hd rfl
  | listComp l element clauses =>
    refine .bind (.inComprehension fun _ => R.forClauses (fun hout => ?_) clauses hosts_empty)
      fun _ _ _ hs => .alloc hs rfl
    exact .bind (R.eval _ element) fun _ _ l hv => .ret (hosts_push (l.keep hout) hv)
  | dictComp l key value clauses =>
    refine .bind (.inComprehension fun _ => R.forClauses (fun hd => ?_) clauses hosts_dict_empty)
      fun _ _ _ hd => .alloc hd rfl
    exact .bind (R.eval _ key) fun _ _ l hkey => .bind (R.eval _ value) fun _ _ l' hv =>
      .after (.keyOf _) fun _ keyed =>
        .ret (hosts_dict_insert (l'.keep (l.keep hd)) ⟨l'.keep hkey, keyed⟩ hv)
  | binary l op left right =>
    exact .bind (R.eval m left) fun _ m₁ _ ha => .bind (R.eval m₁ right) fun _ _ l hb =>
      R.binary op (l.keep ha) hb
  | unary l op operand => exact .bind (R.eval m operand) fun _ _ _ hv => R.unary op hv
  | boolOp l op left right =>
    refine .bind (R.eval m left) fun v _ _ hv => .bind (R.truth hv) fun truth m' l _ => ?_
    split
    · exact .ret (l.keep hv)
    · exact .ret (l.keep hv)
    · exact R.eval m' right
  | compare l left rest => exact .bind (R.eval m left) fun _ _ _ hv => R.compareChain hv rest
  | ifElse l condition yes no =>
    exact .bind (R.eval m condition) fun _ _ _ hv => .bind (R.truth hv) fun
      | true, m', _, _ => R.eval m' yes
      | false, m', _, _ => R.eval m' no
  | lambda l params body => exact R.makeFunction m ..
  | call l callee args keywords =>
    cases callee with
    | attr l object name =>
      exact .bind (R.eval m object) fun _ m₁ _ hreceiver =>
        .bind (R.evalArguments m₁ args) fun _ m₂ l hargs =>
          .bind (R.evalKeywords m₂ keywords) fun _ _ l' hkeywords =>
            R.callMethod name (l'.keep (l.keep hreceiver)) (l'.keep hargs) hkeywords
    | _ =>
      exact .bind (R.eval m _) fun _ m₁ _ hcallee =>
        .bind (R.evalArguments m₁ args) fun _ m₂ l hargs =>
          .bind (R.evalKeywords m₂ keywords) fun _ _ l' hkeywords =>
            R.callValue (l'.keep (l.keep hcallee)) (l'.keep hargs) hkeywords
  | attr l object name => exact .bind (R.eval m object) fun _ _ _ hobject => .getAttr hobject name
  | subscript l object index =>
    exact .bind (R.eval m object) fun _ _ _ hobject =>
      R.withIndex index (fun b _ _ => .getSlice b) fun _ _ l hindex =>
        R.getItem (l.keep hobject) hindex
  | slice l lower upper step => exact .fault _

end Interp.Sound

end StepTrace
