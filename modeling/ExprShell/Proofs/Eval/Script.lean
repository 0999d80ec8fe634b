import ExprShell.Eval

/-!
# One step of the evaluator

The six functions of the evaluator are one: each does a task.  With one unit of fuel more a task
goes by its script, which says what is read and written, which further tasks are done in between,
and which function is called at the end.  A script knows neither the fuel nor the limit of calls,
so what holds of all scripts need not be proved function by function.

* `Task`       what the evaluator can be asked to do, with the type of its result;
* `Script`     what is done for a task, up to the doing of further tasks;
* `run_succ`   a task with fuel is its script.
-/

namespace ExprShell

namespace Run

theorem bind_pure {α : Type} (x : Run α) : (x >>= pure) = x := by
  funext σ
  rw [bind_apply]
  cases x σ <;> rfl

end Run

namespace Eval

/-- what the evaluator can be asked to do -/
inductive Task : Type → Type
  | tree (e : Expr) : Task Value
  | stepOf (e : Expr) : Task Float
  | args (es : List Expr) : Task (List Value)
  | branches (bs : List (Expr × Expr)) (otherwise : Expr) : Task Value
  | count (x : String) (e : Expr) (stop step cur : Float) (v : Value) (k : Nat) : Task Value
  | test (c e : Expr) (v : Value) (k : Nat) : Task Value

def Task.run {α : Type} (r : CallRule) (n d : Nat) (s : ScopeId) : Task α → Run α
  | .tree e => eval r n d s e
  | .stepOf e => Eval.stepOf r n d s e
  | .args es => Eval.args r n d s es
  | .branches bs e => Eval.branches r n d s bs e
  | .count x e stop step cur v k => countLoop r n d s x e stop step cur v k
  | .test c e v k => testLoop r n d s c e v k

/-- what is done for a task -/
inductive Script : Type → Type 1
  /-- the end -/
  | last {α : Type} (x : Run α) : Script α
  /-- something is read or written -/
  | act {α β : Type} (x : Run β) (rest : β → Script α) : Script α
  /-- a further task is done, in the same scope -/
  | ask {α β : Type} (t : Task β) (rest : β → Script α) : Script α
  /-- a function is called, and its body is the end -/
  | call (p : Position) (f : Function) (vs : List Value) : Script Value

/-- goes by a script; `ev` does the further tasks -/
def Script.exec {α : Type} (r : CallRule) (ev : Nat → ScopeId → {β : Type} → Task β → Run β)
    (d : Nat) (s : ScopeId) : Script α → Run α
  | .last x => x
  | .act x rest => x >>= fun b => (rest b).exec r ev d s
  | .ask t rest => ev d s t >>= fun b => (rest b).exec r ev d s
  | .call p f vs => open? r d s p f vs >>= fun l => ev (d + 1) l (.tree f.body)

abbrev Script.same {α : Type} (t : Task α) : Script α := .ask t fun a => .last (pure a)

def treeScript (s : ScopeId) : Expr → Script Value
  | .absent => .last (Run.fail ⟨0, 0⟩ .noExpression)
  | .number t => .last (settle (fun _ => t.pos) (Operators.literal t))
  | .var t x => .last (read s t.pos x)
  | .assign _ x e => .ask (.tree e) fun v => .act (Run.bindName s x v) fun _ => .last (pure v)
  | .binary l op e =>
    .ask (.tree l) fun a => .ask (.tree e) fun b =>
      .last (settle (binaryPlace l e) (Operators.binary op a b))
  | .unary op e => .ask (.tree e) fun v => .last (settle (fun _ => op.pos) (Operators.unary op v))
  | .cond _ bs e => .same (.branches bs e)
  | .count _ x a b st e =>
    .ask (.tree a) fun v => .act (bound a v) fun start =>
      .ask (.tree b) fun w => .act (bound b w) fun stop =>
        .ask (.stepOf st) fun step => .same (.count x e stop step start (.int 0) 0)
  | .loop _ c e => .same (.test c e (.int 0) 0)
  | .func _ x ps e => .last (define s ⟨x, ps, e, some s⟩)
  | .call _ f as =>
    .ask (.tree f) fun
      | .function g => .ask (.args as) fun vs => .call f.pos g vs
      | v => .last (Run.fail f.pos (.notCallable v.kind))

def Task.script {α : Type} (s : ScopeId) : Task α → Script α
  | .tree e => treeScript s e
  | .stepOf .absent => .last (pure 1.0)
  | .stepOf e => .ask (.tree e) fun v => .last (bound e v)
  | .args [] => .last (pure [])
  | .args (a :: as) => .ask (.tree a) fun v => .ask (.args as) fun vs => .last (pure (v :: vs))
  | .branches [] .absent => .last (pure .absent)
  | .branches [] e => .same (.tree e)
  | .branches ((c, b) :: bs) e =>
    .ask (.tree c) fun v => .act (truth c v) fun yes =>
      if yes then .same (.tree b) else .same (.branches bs e)
  | .count x e stop step cur v k =>
    if goesOn step cur stop then
      .act (Run.bindName s x (.double cur)) fun _ => .ask (.tree e) fun v =>
        .same (.count x e stop step (cur + step) v (k + 1))
    else .act (Run.emit (.counted x k)) fun _ => .last (pure v)
  | .test c e v k =>
    .ask (.tree c) fun t => .act (truth c t) fun yes =>
      if yes then .ask (.tree e) fun v => .same (.test c e v (k + 1))
      else .act (Run.emit (.looped k)) fun _ => .last (pure v)

theorem run_zero {α : Type} (r : CallRule) (d : Nat) (s : ScopeId) (t : Task α) :
    t.run r 0 d s = Run.unfinished := by
  cases t <;> rfl

theorem exec_same {α : Type} (r : CallRule) (ev : Nat → ScopeId → {β : Type} → Task β → Run β)
    (d : Nat) (s : ScopeId) (t : Task α) : (Script.same t).exec r ev d s = ev d s t :=
  Run.bind_pure _

theorem eval_succ_eq_exec (r : CallRule) (n d : Nat) (s : ScopeId) (e : Expr) :
    eval r (n + 1) d s e = (treeScript s e).exec r (fun d s _ t => t.run r n d s) d s := by
  cases e with
  | cond t bs e =>
    rw [eval, treeScript, exec_same]
    rfl
  | loop t c e =>
    rw [eval, treeScript, exec_same]
    rfl
  | count t x a b st e =>
    rw [eval, treeScript]
    simp only [Script.exec, Run.bind_pure]
    rfl
  | call t f as =>
    rw [eval, treeScript, Script.exec]
    refine congrArg _ (funext fun v => ?_)
    cases v <;> rfl
  | _ => rfl

theorem branches_succ_eq_exec (r : CallRule) (n d : Nat) (s : ScopeId) (bs : List (Expr × Expr))
    (e : Expr) : branches r (n + 1) d s bs e =
      ((Task.branches bs e).script s).exec r (fun d s _ t => t.run r n d s) d s := by
  cases bs with
  | nil =>
    by_cases he : e = .absent
    · rw [he]
      rfl
    · rw [branches, Task.script, exec_same]
      · rfl
      · exact he
      · exact he
  | cons b bs =>
    obtain ⟨c, b⟩ := b
    rw [branches, Task.script]
    simp only [Script.exec]
    refine congrArg _ (funext fun v => congrArg _ (funext fun yes => ?_))
    cases yes with
    | true =>
      rw [if_pos rfl, if_pos rfl, exec_same]
      rfl
    | false =>
      rw [if_neg Bool.false_ne_true, if_neg Bool.false_ne_true, exec_same]
      rfl

theorem run_succ {α : Type} (r : CallRule) (n d : Nat) (s : ScopeId) (t : Task α) :
    t.run r (n + 1) d s = (t.script s).exec r (fun d s _ t => t.run r n d s) d s := by
  cases t with
  | tree e => exact eval_succ_eq_exec r n d s e
  | stepOf e => cases e <;> rfl
  | args es => cases es <;> rfl
  | branches bs e => exact branches_succ_eq_exec r n d s bs e
  | count x e stop step cur v k =>
    rw [Task.run, countLoop, Task.script]
    split
    · simp only [Script.exec, Run.bind_pure]
      rfl
    · rfl
  | test c e v k =>
    rw [Task.run, testLoop, Task.script]
    simp only [Script.exec]
    refine congrArg _ (funext fun t => congrArg _ (funext fun yes => ?_))
    cases yes with
    | true =>
      rw [if_pos rfl, if_pos rfl]
      simp only [Script.exec, Run.bind_pure]
      rfl
    | false => rfl

end Eval

end ExprShell
