import Mathlib
import Knok.Ast
import Knok.Control.Checked

/-!
# Evaluation of expressions and graphs under an interpretation

The compiler gives no meaning to graphs of its own: it types them, rewrites
them and hands them to a back end.  This file says what a graph *denotes*, for
an arbitrary interpretation of the primitive operations, so that every pass can
be stated to preserve it.  Typing itself is one such interpretation (values are
tensor types), differentiation is another (values are dual tensors).

### Design decisions

* **Several outputs.**  An expression evaluates to the list of its outputs; a
  tensor expression is one whose list has one element (`single`).
* **Sharing is invisible.**  A node denotes its payload, a projection the
  selected output of its payload; ids play no part.
* **Partiality.**  `none` is an evaluation that is stuck: an unbound name, an
  operation that rejects its arguments, a wrong number of outputs.
* **Static creation.**  An operation sees its argument expressions next to
  their values, because the back end reads literals off the syntax.
-/

namespace Knok

open Control

universe u

variable {V W : Type u}

/-- Meaning of the primitive operations over values `V`.  `call` is given the
argument expressions and the values they evaluate to, if they do. -/
structure Interp (V : Type u) where
  const : String → ElementType → Option V
  unary : UnaryOp → V → Option V
  binary : BinaryOp → V → V → Option V
  call : CallOp → List Expr → Option (List V) → Option (List V)

/-- Meaning of the calls to other graphs. -/
abbrev Calls (V : Type u) := String → List V → Option (List V)

/-- Values of the names in scope. -/
abbrev Env (V : Type u) := String → Option V

/-- The output of a single-output evaluation. -/
def single : List V → Option V
  | [v] => some v
  | _ => none

@[simp] theorem single_singleton (v : V) : single [v] = some v := rfl

@[simp] theorem single_eq_some_iff {vs : List V} {v : V} :
    single vs = some v ↔ vs = [v] := by
  match vs with
  | [] => simp [single]
  | [w] => simp [single]
  | _ :: _ :: _ => simp [single]

/-! ## Expressions -/

mutual

/-- The outputs of an expression. -/
def evalOutputs (I : Interp V) (calls : Calls V) (env : Env V) :
    Expr → Option (List V)
  | .var name => do return [← env name]
  | .const value elem => do return [← I.const value elem]
  | .unary op value => do
      let v ← (evalOutputs I calls env value).bind single
      return [← I.unary op v]
  | .binary op lhs rhs => do
      let l ← (evalOutputs I calls env lhs).bind single
      let r ← (evalOutputs I calls env rhs).bind single
      return [← I.binary op l r]
  | .node _ value => evalOutputs I calls env value
  | .tupleGet _ value index => do
      let vs ← evalOutputs I calls env value
      return [← vs[index]?]
  | .call (.graph name) args => do
      let vs ← evalArgs I calls env args
      calls name vs
  | .call op args => I.call op args (evalArgs I calls env args)

/-- The values of a list of single-output arguments. -/
def evalArgs (I : Interp V) (calls : Calls V) (env : Env V) :
    List Expr → Option (List V)
  | [] => some []
  | arg :: args => do
      let v ← (evalOutputs I calls env arg).bind single
      let vs ← evalArgs I calls env args
      return v :: vs

end

/-- The value of a tensor expression. -/
def evalTensor (I : Interp V) (calls : Calls V) (env : Env V) (e : Expr) :
    Option V :=
  (evalOutputs I calls env e).bind single

section Equations

variable (I : Interp V) (calls : Calls V) (env : Env V)

/-- An expression with one value has it as its one output. -/
theorem bind_single (v : Option V) : (v.bind fun v => some [v]).bind single = v := by
  cases v <;> rfl

@[simp] theorem evalTensor_var (name : String) :
    evalTensor I calls env (.var name) = env name := bind_single (env name)

@[simp] theorem evalTensor_const (value : String) (elem : ElementType) :
    evalTensor I calls env (.const value elem) = I.const value elem :=
  bind_single (I.const value elem)

@[simp] theorem evalTensor_unary (op : UnaryOp) (value : Expr) :
    evalTensor I calls env (.unary op value) =
      (evalTensor I calls env value).bind (I.unary op) := by
  show ((evalTensor I calls env value).bind fun v =>
    (I.unary op v).bind fun result => some [result]).bind single = _
  simp only [Option.bind_assoc, Option.bind_some, single_singleton, Option.bind_fun_some]

@[simp] theorem evalTensor_binary (op : BinaryOp) (lhs rhs : Expr) :
    evalTensor I calls env (.binary op lhs rhs) =
      (evalTensor I calls env lhs).bind fun l =>
        (evalTensor I calls env rhs).bind fun r => I.binary op l r := by
  show ((evalTensor I calls env lhs).bind fun l => (evalTensor I calls env rhs).bind fun r =>
    (I.binary op l r).bind fun result => some [result]).bind single = _
  simp only [Option.bind_assoc, Option.bind_some, single_singleton, Option.bind_fun_some]

@[simp] theorem evalTensor_node (nodeId : ℕ) (value : Expr) :
    evalTensor I calls env (.node nodeId value) = evalTensor I calls env value := rfl

@[simp] theorem evalTensor_tupleGet (tupleId : ℕ) (value : Expr) (index : ℕ) :
    evalTensor I calls env (.tupleGet tupleId value index) =
      (evalOutputs I calls env value).bind fun vs => vs[index]? := by
  show ((evalOutputs I calls env value).bind fun vs =>
    vs[index]?.bind fun result => some [result]).bind single = _
  simp only [Option.bind_assoc, Option.bind_some, single_singleton, Option.bind_fun_some]

theorem evalOutputs_call {op : CallOp} (h : ∀ name, op ≠ .graph name)
    (args : List Expr) :
    evalOutputs I calls env (.call op args) =
      I.call op args (evalArgs I calls env args) := by
  cases op with
  | graph name => exact absurd rfl (h name)
  | _ => rfl

theorem evalOutputs_graph (name : String) (args : List Expr) :
    evalOutputs I calls env (.call (.graph name) args) =
      (evalArgs I calls env args).bind (calls name) := rfl

/-- Arguments are evaluated one by one. -/
theorem evalArgs_eq_mapM (args : List Expr) :
    evalArgs I calls env args = args.mapM (evalTensor I calls env) := by
  induction args with
  | nil => rfl
  | cons arg args ih => rw [List.mapM_cons, evalArgs, ih]; rfl

/-- A single-output expression that is not a call, a node: its outputs are its
one value. -/
theorem evalOutputs_eq_some_singleton {e : Expr} {v : V}
    (h : evalTensor I calls env e = some v) : evalOutputs I calls env e = some [v] := by
  obtain ⟨vs, hvs, hsingle⟩ := Option.bind_eq_some_iff.mp h
  rw [hvs, single_eq_some_iff.mp hsingle]

end Equations

/-! ## Interpretations that see values only -/

/-- Meaning of the primitive operations as functions of the values of their
arguments. -/
structure OpSemantics (V : Type u) where
  const : String → ElementType → Option V
  unary : UnaryOp → V → Option V
  binary : BinaryOp → V → V → Option V
  call : CallOp → List V → Option (List V)

/-- The interpretation that ignores the syntax of arguments. -/
def OpSemantics.toInterp (S : OpSemantics V) : Interp V where
  const := S.const
  unary := S.unary
  binary := S.binary
  call op _ vs := vs.bind (S.call op)

@[simp] theorem OpSemantics.toInterp_call (S : OpSemantics V) (op : CallOp)
    (args : List Expr) (vs : Option (List V)) :
    S.toInterp.call op args vs = vs.bind (S.call op) := rfl

/-! ## Frame properties -/

/-- Evaluation reads only the variables that occur. -/
theorem evalOutputs_congr {I : Interp V} {calls : Calls V} {env env' : Env V}
    (e : Expr) (h : ∀ name ∈ e.vars, env name = env' name) :
    evalOutputs I calls env e = evalOutputs I calls env' e := by
  induction e with
  | var name => simp [evalOutputs, h name (by simp [Expr.subexprs])]
  | const value elem => rfl
  | unary op value ih =>
      have hv := ih fun name hname => h name (by simp_all [Expr.subexprs])
      simp [evalOutputs, hv]
  | binary op lhs rhs ihl ihr =>
      have hl := ihl fun name hname => h name (by simp_all [Expr.subexprs])
      have hr := ihr fun name hname => h name (by simp_all [Expr.subexprs])
      simp [evalOutputs, hl, hr]
  | node nodeId value ih =>
      exact ih fun name hname => h name (by simp_all [Expr.subexprs])
  | tupleGet tupleId value index ih =>
      have hv := ih fun name hname => h name (by simp_all [Expr.subexprs])
      simp [evalOutputs, hv]
  | call op args ih =>
      have hargs : evalArgs I calls env args = evalArgs I calls env' args := by
        rw [evalArgs_eq_mapM, evalArgs_eq_mapM]
        refine option_mapM_congr fun arg harg => ?_
        have hv := ih arg harg fun name hname => h name (by
          simp only [Expr.mem_vars, Expr.subexprs, List.mem_cons, reduceCtorEq,
            Expr.mem_subexprsList, false_or] at hname ⊢
          exact ⟨arg, harg, hname⟩)
        rw [evalTensor, evalTensor, hv]
      rcases op.eq_graph_or with ⟨name, rfl⟩ | hop
      · rw [evalOutputs_graph, evalOutputs_graph, hargs]
      · rw [evalOutputs_call _ _ _ hop, evalOutputs_call _ _ _ hop, hargs]

theorem evalTensor_congr {I : Interp V} {calls : Calls V} {env env' : Env V}
    {e : Expr} (h : ∀ name ∈ e.vars, env name = env' name) :
    evalTensor I calls env e = evalTensor I calls env' e := by
  rw [evalTensor, evalTensor, evalOutputs_congr e h]

/-- Evaluation uses only the operations that occur. -/
theorem evalOutputs_congr_interp {I I' : Interp V} {calls : Calls V} {env : Env V}
    (hconst : I.const = I'.const) (hunary : I.unary = I'.unary) (e : Expr)
    (hbinary : ∀ op lhs rhs, Expr.binary op lhs rhs ∈ e.subexprs → I.binary op = I'.binary op)
    (hcall : ∀ op args, Expr.call op args ∈ e.subexprs → I.call op = I'.call op) :
    evalOutputs I calls env e = evalOutputs I' calls env e := by
  induction e with
  | var name => rfl
  | const value elem => rw [evalOutputs, evalOutputs, hconst]
  | unary op value ih =>
      have hvalue := ih (fun op lhs rhs h => hbinary op lhs rhs (List.mem_cons_of_mem _ h))
        fun op args h => hcall op args (List.mem_cons_of_mem _ h)
      rw [evalOutputs, evalOutputs, hvalue, hunary]
  | binary op lhs rhs ihl ihr =>
      have hl := ihl
        (fun op l r h => hbinary op l r (List.mem_cons_of_mem _ (List.mem_append_left _ h)))
        fun op args h => hcall op args (List.mem_cons_of_mem _ (List.mem_append_left _ h))
      have hr := ihr
        (fun op l r h => hbinary op l r (List.mem_cons_of_mem _ (List.mem_append_right _ h)))
        fun op args h => hcall op args (List.mem_cons_of_mem _ (List.mem_append_right _ h))
      rw [evalOutputs, evalOutputs, hl, hr, hbinary op lhs rhs (Expr.mem_subexprs_self _)]
  | node nodeId value ih =>
      exact ih (fun op lhs rhs h => hbinary op lhs rhs (List.mem_cons_of_mem _ h))
        fun op args h => hcall op args (List.mem_cons_of_mem _ h)
  | tupleGet tupleId value index ih =>
      have hvalue := ih (fun op lhs rhs h => hbinary op lhs rhs (List.mem_cons_of_mem _ h))
        fun op args h => hcall op args (List.mem_cons_of_mem _ h)
      rw [evalOutputs, evalOutputs, hvalue]
  | call op args ih =>
      have hargs : evalArgs I calls env args = evalArgs I' calls env args := by
        rw [evalArgs_eq_mapM, evalArgs_eq_mapM]
        refine option_mapM_congr fun arg harg => ?_
        have hsub : ∀ s ∈ arg.subexprs, s ∈ (Expr.call op args).subexprs := fun s hs =>
          List.mem_cons_of_mem _ (Expr.mem_subexprsList.mpr ⟨arg, harg, hs⟩)
        rw [evalTensor, evalTensor, ih arg harg (fun op lhs rhs h => hbinary op lhs rhs (hsub _ h))
          fun op args h => hcall op args (hsub _ h)]
      rcases op.eq_graph_or with ⟨name, rfl⟩ | hop
      · rw [evalOutputs_graph, evalOutputs_graph, hargs]
      · rw [evalOutputs_call _ _ _ hop, evalOutputs_call _ _ _ hop, hargs,
          hcall op args (Expr.mem_subexprs_self _)]

/-! ## Environments -/

/-- Binds names to values, later bindings over earlier ones. -/
def bindNames (env : Env V) (names : List String) (vs : List V) : Env V :=
  (names.zip vs).foldl (fun env (name, v) => Function.update env name (some v)) env

@[simp] theorem bindNames_nil (env : Env V) (vs : List V) :
    bindNames env [] vs = env := rfl

@[simp] theorem bindNames_cons (env : Env V) (name : String) (names : List String)
    (v : V) (vs : List V) :
    bindNames env (name :: names) (v :: vs) =
      bindNames (Function.update env name (some v)) names vs := rfl

/-- Binding changes only the bound names. -/
theorem bindNames_of_not_mem {env : Env V} {names : List String} {vs : List V}
    {name : String} (h : name ∉ names) : bindNames env names vs name = env name := by
  induction names generalizing env vs with
  | nil => rfl
  | cons bound names ih =>
      cases vs with
      | nil => rfl
      | cons v vs =>
          have hne : name ≠ bound := fun heq => h (heq ▸ List.mem_cons_self ..)
          have hnot : name ∉ names := fun hmem => h (List.mem_cons_of_mem _ hmem)
          rw [bindNames_cons, ih hnot, Function.update_of_ne hne]

/-- A bound name has the value at its position. -/
theorem bindNames_getElem {env : Env V} {names : List String} {vs : List V}
    (hnodup : names.Nodup) {k : ℕ} {name : String} {v : V}
    (hname : names[k]? = some name) (hv : vs[k]? = some v) :
    bindNames env names vs name = some v := by
  induction names generalizing env vs k with
  | nil => simp at hname
  | cons bound names ih =>
      obtain ⟨hnot, hnodup⟩ := List.nodup_cons.mp hnodup
      cases vs with
      | nil => simp at hv
      | cons w vs =>
          cases k with
          | zero =>
              simp only [List.getElem?_cons_zero, Option.some.injEq] at hname hv
              subst hname hv
              rw [bindNames_cons, bindNames_of_not_mem hnot, Function.update_self]
          | succ k =>
              rw [bindNames_cons]
              exact ih hnodup (by simpa using hname) (by simpa using hv)

/-! ### Growing environments -/

/-- Every name of the first environment has the same value in the second. -/
def Env.Extends (env env' : Env V) : Prop :=
  ∀ name value, env name = some value → env' name = some value

theorem Env.Extends.update {env env' : Env V} (h : Env.Extends env env') (name : String)
    (value : Option V) :
    Env.Extends (Function.update env name value) (Function.update env' name value) := by
  intro other v hv
  by_cases hname : other = name
  · subst hname
    rwa [Function.update_self] at hv ⊢
  · rw [Function.update_of_ne hname] at hv ⊢
    exact h other v hv

/-- Binding the same names on both sides. -/
theorem Env.Extends.bindNames {env env' : Env V} (h : Env.Extends env env')
    (names : List String) (values : List V) :
    Env.Extends (bindNames env names values) (bindNames env' names values) := by
  induction names generalizing env env' values with
  | nil => exact h
  | cons name names ih =>
      cases values with
      | nil => exact h
      | cons value values => exact ih (h.update name (some value)) values

/-- Binding names that had no value. -/
theorem extends_bindNames {env : Env V} {names : List String}
    (hnew : ∀ name ∈ names, env name = none) (values : List V) :
    Env.Extends env (bindNames env names values) := by
  intro name value hvalue
  have hnot : name ∉ names := fun hmem => by
    rw [hnew name hmem] at hvalue
    cases hvalue
  rw [bindNames_of_not_mem hnot, hvalue]

/-- A name has a value exactly when it is one of `names`. -/
def Env.Binds (env : Env V) (names : List String) : Prop :=
  ∀ name, (∃ value, env name = some value) ↔ name ∈ names

theorem Env.Binds.eq_none {env : Env V} {names : List String} (h : Env.Binds env names)
    {name : String} (hname : name ∉ names) : env name = none := by
  cases hvalue : env name with
  | none => rfl
  | some value => exact absurd ((h name).mp ⟨value, hvalue⟩) hname

theorem Env.Binds.bindNames {env : Env V} {names bound : List String} {values : List V}
    (h : Env.Binds env names) (hlen : bound.length = values.length) :
    Env.Binds (Knok.bindNames env bound values) (names ++ bound) := by
  induction bound generalizing env names values with
  | nil => simpa using h
  | cons name bound ih =>
      cases values with
      | nil => simp at hlen
      | cons value values =>
          have hstep : Env.Binds (Function.update env name (some value)) (names ++ [name]) := by
            intro other
            by_cases hname : other = name
            · subst hname
              simp
            · rw [Function.update_of_ne hname, h other]
              simp [hname]
          have hlen' : bound.length = values.length := by simpa using hlen
          have hrest := ih hstep hlen'
          rw [List.append_assoc, List.singleton_append] at hrest
          exact hrest

/-! ### Strict interpretations -/

/-- An operation is stuck when its arguments are. -/
def Interp.Strict (I : Interp V) : Prop :=
  ∀ op args, I.call op args none = none

/-- An evaluation that succeeds has read no unbound variable. -/
theorem exists_of_evalOutputs {I : Interp V} (hstrict : I.Strict) {calls : Calls V}
    {env : Env V} {e : Expr} {vs : List V} (hvs : evalOutputs I calls env e = some vs) :
    ∀ name ∈ e.vars, ∃ v, env name = some v := by
  induction e generalizing vs with
  | var name =>
      intro other hother
      have hname : other = name := by simpa [Expr.subexprs] using hother
      subst hname
      simp only [evalOutputs, Option.bind_eq_bind, Option.bind_eq_some_iff] at hvs
      exact ⟨_, hvs.choose_spec.1⟩
  | const value elem => simp [Expr.subexprs]
  | unary op value ih =>
      simp only [evalOutputs, Option.bind_eq_bind, Option.bind_eq_some_iff] at hvs
      obtain ⟨v, ⟨outputs, hvalue, -⟩, -⟩ := hvs
      simpa [Expr.subexprs] using ih hvalue
  | binary op lhs rhs ihl ihr =>
      simp only [evalOutputs, Option.bind_eq_bind, Option.bind_eq_some_iff] at hvs
      obtain ⟨l, ⟨lhsOutputs, hlhs, -⟩, r, ⟨rhsOutputs, hrhs, -⟩, -⟩ := hvs
      intro name hname
      simp only [Expr.mem_vars, Expr.subexprs, List.mem_cons, reduceCtorEq,
        List.mem_append, false_or] at hname
      rcases hname with hname | hname
      · exact ihl hlhs name (Expr.mem_vars.mpr hname)
      · exact ihr hrhs name (Expr.mem_vars.mpr hname)
  | node nodeId value ih => simpa [Expr.subexprs] using ih hvs
  | tupleGet tupleId value index ih =>
      simp only [evalOutputs, Option.bind_eq_bind, Option.bind_eq_some_iff] at hvs
      obtain ⟨outputs, hvalue, -⟩ := hvs
      simpa [Expr.subexprs] using ih hvalue
  | call op args ih =>
      have hargs : ∃ values, evalArgs I calls env args = some values := by
        rcases op.eq_graph_or with ⟨name, rfl⟩ | hop
        · rw [evalOutputs_graph, Option.bind_eq_some_iff] at hvs
          exact ⟨_, hvs.choose_spec.1⟩
        · rw [evalOutputs_call _ _ _ hop] at hvs
          cases hargs : evalArgs I calls env args with
          | none =>
              rw [hargs, hstrict] at hvs
              cases hvs
          | some values => exact ⟨values, rfl⟩
      obtain ⟨values, hvalues⟩ := hargs
      rw [evalArgs_eq_mapM] at hvalues
      intro name hname
      simp only [Expr.mem_vars, Expr.subexprs, List.mem_cons, reduceCtorEq,
        Expr.mem_subexprsList, false_or] at hname
      obtain ⟨arg, harg, hname⟩ := hname
      obtain ⟨v, hv⟩ := exists_eq_some_of_mapM hvalues harg
      exact ih arg harg (evalOutputs_eq_some_singleton _ _ _ hv) name
        (Expr.mem_vars.mpr hname)

/-- **A value is not changed by further bindings**, if operations are strict. -/
theorem evalOutputs_mono {I : Interp V} (hstrict : I.Strict) {calls : Calls V}
    {env env' : Env V} (h : Env.Extends env env') {e : Expr} {vs : List V}
    (hvs : evalOutputs I calls env e = some vs) : evalOutputs I calls env' e = some vs := by
  rw [← hvs]
  refine (evalOutputs_congr e fun name hname => ?_).symm
  obtain ⟨v, hv⟩ := exists_of_evalOutputs hstrict hvs name hname
  rw [hv, h name v hv]

/-- A value is not changed when further calls are resolved. -/
theorem evalOutputs_mono_calls {I : Interp V} (hstrict : I.Strict) {calls calls' : Calls V}
    (h : ∀ name args vs, calls name args = some vs → calls' name args = some vs) {env : Env V}
    {e : Expr} {vs : List V} (hvs : evalOutputs I calls env e = some vs) :
    evalOutputs I calls' env e = some vs := by
  induction e generalizing vs with
  | var name => exact hvs
  | const value elem => exact hvs
  | unary op value ih =>
      simp only [evalOutputs, Option.bind_eq_bind, Option.bind_eq_some_iff] at hvs ⊢
      obtain ⟨v, ⟨outputs, hvalue, hsingle⟩, hrest⟩ := hvs
      exact ⟨v, ⟨outputs, ih hvalue, hsingle⟩, hrest⟩
  | binary op lhs rhs ihl ihr =>
      simp only [evalOutputs, Option.bind_eq_bind, Option.bind_eq_some_iff] at hvs ⊢
      obtain ⟨l, ⟨lhsOutputs, hlhs, hl⟩, r, ⟨rhsOutputs, hrhs, hr⟩, hrest⟩ := hvs
      exact ⟨l, ⟨lhsOutputs, ihl hlhs, hl⟩, r, ⟨rhsOutputs, ihr hrhs, hr⟩, hrest⟩
  | node nodeId value ih => exact ih hvs
  | tupleGet tupleId value index ih =>
      simp only [evalOutputs, Option.bind_eq_bind, Option.bind_eq_some_iff] at hvs ⊢
      obtain ⟨outputs, hvalue, hrest⟩ := hvs
      exact ⟨outputs, ih hvalue, hrest⟩
  | call op args ih =>
      have hargs : ∀ {values}, evalArgs I calls env args = some values →
          evalArgs I calls' env args = some values := by
        intro values hvalues
        rw [evalArgs_eq_mapM] at hvalues ⊢
        rw [← hvalues]
        refine option_mapM_congr fun arg harg => ?_
        obtain ⟨v, hv⟩ := exists_eq_some_of_mapM hvalues harg
        rw [hv, evalTensor, ih arg harg (evalOutputs_eq_some_singleton _ _ _ hv)]
        rfl
      rcases op.eq_graph_or with ⟨name, rfl⟩ | hop
      · rw [evalOutputs_graph, Option.bind_eq_some_iff] at hvs ⊢
        obtain ⟨values, hvalues, hcall⟩ := hvs
        exact ⟨values, hargs hvalues, h name values vs hcall⟩
      · rw [evalOutputs_call _ _ _ hop] at hvs ⊢
        cases hvalues : evalArgs I calls env args with
        | none =>
            rw [hvalues, hstrict] at hvs
            cases hvs
        | some values =>
            rw [hvalues] at hvs
            rw [hargs hvalues]
            exact hvs

theorem evalTensor_mono_calls {I : Interp V} (hstrict : I.Strict) {calls calls' : Calls V}
    (h : ∀ name args vs, calls name args = some vs → calls' name args = some vs) {env : Env V}
    {e : Expr} {v : V} (hv : evalTensor I calls env e = some v) :
    evalTensor I calls' env e = some v := by
  rw [evalTensor, evalOutputs_mono_calls hstrict h (evalOutputs_eq_some_singleton _ _ _ hv)]
  rfl

/-! ## Graphs -/

/-- Names and the expression whose outputs they are bound to. -/
abbrev Binding := List String × Expr

/-- What an untyped let binds. -/
def Let.binding (binding : Let) : Binding := (binding.names, binding.value)

/-- What a typed let binds. -/
def TypedLet.binding (binding : TypedLet) : Binding := (binding.names, binding.value.kind)

/-- The environment after one let: one output for each name. -/
def evalLet (I : Interp V) (calls : Calls V) (env : Env V) (binding : Binding) :
    Option (Env V) :=
  (evalOutputs I calls env binding.2).bind fun vs =>
    if binding.1.length = vs.length then some (bindNames env binding.1 vs) else none

/-- The environment after a list of lets. -/
def evalLets (I : Interp V) (calls : Calls V) : Env V → List Binding → Option (Env V)
  | env, [] => some env
  | env, binding :: bindings =>
      (evalLet I calls env binding).bind fun env => evalLets I calls env bindings

theorem evalLets_append (I : Interp V) (calls : Calls V) (env : Env V)
    (bindings bindings' : List Binding) :
    evalLets I calls env (bindings ++ bindings') =
      (evalLets I calls env bindings).bind fun env => evalLets I calls env bindings' := by
  induction bindings generalizing env with
  | nil => rfl
  | cons binding bindings ih =>
      simp only [List.cons_append, evalLets, Option.bind_assoc]
      exact congrArg _ (funext fun env => ih env)

theorem evalLet_eq_some_iff {I : Interp V} {calls : Calls V} {env env' : Env V}
    {binding : Binding} :
    evalLet I calls env binding = some env' ↔
      ∃ vs, evalOutputs I calls env binding.2 = some vs ∧
        binding.1.length = vs.length ∧ bindNames env binding.1 vs = env' := by
  simp [evalLet, Option.bind_eq_some_iff]

/-- A let of one name. -/
theorem evalLet_singleton (I : Interp V) (calls : Calls V) (env : Env V)
    (name : String) (e : Expr) :
    evalLet I calls env ([name], e) =
      (evalTensor I calls env e).map fun v => Function.update env name (some v) := by
  rw [evalLet, evalTensor]
  match evalOutputs I calls env e with
  | none => rfl
  | some [] => rfl
  | some [v] => rfl
  | some (_ :: _ :: _) => rfl

/-- The environment in which the lets of a graph start. -/
def inputEnv (graph : TypedGraph) (args : List V) : Env V :=
  bindNames (fun _ => none) (graph.inputs.map Input.name) args

theorem binds_inputEnv {graph : TypedGraph} {args : List V}
    (hlen : graph.inputs.length = args.length) :
    Env.Binds (inputEnv graph args) (graph.inputs.map Input.name) := by
  have hempty : Env.Binds (fun _ => none : Env V) [] := by
    intro name
    simp
  exact hempty.bindNames (by simpa using hlen)

/-- Only the inputs of a graph matter. -/
theorem inputEnv_congr {graph graph' : TypedGraph} (h : graph.inputs = graph'.inputs)
    (args : List V) : inputEnv graph args = inputEnv graph' args := by
  rw [inputEnv, inputEnv, h]

/-- The outputs of a graph on its inputs. -/
def evalGraph (I : Interp V) (calls : Calls V) (graph : TypedGraph)
    (args : List V) : Option (List V) :=
  if graph.inputs.length = args.length then do
    let env ← evalLets I calls (inputEnv graph args) (graph.lets.map TypedLet.binding)
    graph.body.mapM fun output => evalTensor I calls env output.kind
  else none

/-- The graphs that calls are resolved in. -/
abbrev Registry := List (String × TypedGraph)

/-- The graph registered under a name. -/
def Registry.get (graphs : Registry) (name : String) : Option TypedGraph :=
  graphs.lookup name

/-- Calls resolved in a registry, nested at most `depth` deep. -/
def callsAt (I : Interp V) (graphs : Registry) : ℕ → Calls V
  | 0, _, _ => none
  | depth + 1, name, args =>
      (graphs.get name).bind fun graph => evalGraph I (callsAt I graphs depth) graph args

/-- The value of a graph is not changed when further calls are resolved. -/
theorem evalGraph_mono_calls {I : Interp V} (hstrict : I.Strict) {calls calls' : Calls V}
    (h : ∀ name args vs, calls name args = some vs → calls' name args = some vs)
    {graph : TypedGraph} {args vs : List V} (hvs : evalGraph I calls graph args = some vs) :
    evalGraph I calls' graph args = some vs := by
  have hlets : ∀ (bindings : List Binding) (env env' : Env V),
      evalLets I calls env bindings = some env' → evalLets I calls' env bindings = some env' := by
    intro bindings
    induction bindings with
    | nil => exact fun _ _ h => h
    | cons binding bindings ih =>
        intro env env' hlets
        obtain ⟨mid, hfirst, hrest⟩ := Option.bind_eq_some_iff.mp hlets
        obtain ⟨ws, hws, hlen, rfl⟩ := evalLet_eq_some_iff.mp hfirst
        have hlet := evalLet_eq_some_iff.mpr ⟨ws, evalOutputs_mono_calls hstrict h hws, hlen, rfl⟩
        rw [evalLets, hlet]
        exact ih _ _ hrest
  unfold evalGraph at hvs ⊢
  split_ifs at hvs ⊢ with hlen
  obtain ⟨env, henv, hbody⟩ := Option.bind_eq_some_iff.mp hvs
  refine Option.bind_eq_some_iff.mpr ⟨env, hlets _ _ _ henv, ?_⟩
  rw [← hbody]
  refine option_mapM_congr fun e he => ?_
  obtain ⟨v, hv⟩ := exists_eq_some_of_mapM hbody he
  rw [hv, evalTensor_mono_calls hstrict h hv]

/-- Calls that are resolved are resolved to the same when more depth is left. -/
theorem callsAt_mono {I : Interp V} (hstrict : I.Strict) (graphs : Registry) {depth depth' : ℕ}
    (h : depth ≤ depth') :
    ∀ name args vs, callsAt I graphs depth name args = some vs →
      callsAt I graphs depth' name args = some vs := by
  induction depth generalizing depth' with
  | zero => intro name args vs hvs; cases hvs
  | succ depth ih =>
      intro name args vs hvs
      obtain ⟨depth', rfl⟩ := Nat.exists_eq_add_of_le' h
      obtain ⟨graph, hget, hgraph⟩ := Option.bind_eq_some_iff.mp hvs
      rw [← Nat.add_assoc, callsAt]
      refine Option.bind_eq_some_iff.mpr ⟨graph, hget, ?_⟩
      exact evalGraph_mono_calls hstrict (ih (by omega)) hgraph

/-- A graph whose expressions have the same outputs has the same outputs. -/
theorem evalGraph_congr {I I' : Interp V} {calls calls' : Calls V} {graph : TypedGraph}
    (h : ∀ e ∈ graph.exprs, ∀ env, evalOutputs I calls env e = evalOutputs I' calls' env e)
    (args : List V) : evalGraph I calls graph args = evalGraph I' calls' graph args := by
  obtain ⟨hlets, hbody⟩ := List.forall_mem_append.mp h
  have hbindings : ∀ (lets : List TypedLet) (env : Env V),
      (∀ e ∈ lets.map fun binding => binding.value.kind, ∀ env,
        evalOutputs I calls env e = evalOutputs I' calls' env e) →
      evalLets I calls env (lets.map TypedLet.binding) =
        evalLets I' calls' env (lets.map TypedLet.binding) := by
    intro lets
    induction lets with
    | nil => exact fun _ _ => rfl
    | cons binding lets ih =>
        intro env hlets
        obtain ⟨hfirst, hrest⟩ := List.forall_mem_cons.mp hlets
        rw [List.map_cons, evalLets, evalLets, evalLet, evalLet]
        simp only [TypedLet.binding, hfirst env]
        exact congrArg _ (funext fun env => ih env hrest)
  rw [evalGraph, evalGraph, hbindings _ _ hlets]
  refine if_congr Iff.rfl (congrArg _ (funext fun env => option_mapM_congr fun e he => ?_)) rfl
  rw [evalTensor, evalTensor, hbody _ (List.mem_map_of_mem he)]

/-- Calls of graphs whose expressions have the same outputs. -/
theorem callsAt_congr {I I' : Interp V} {graphs : Registry}
    (h : ∀ name graph, graphs.get name = some graph → ∀ e ∈ graph.exprs, ∀ calls env,
      evalOutputs I calls env e = evalOutputs I' calls env e) (depth : ℕ) :
    callsAt I graphs depth = callsAt I' graphs depth := by
  induction depth with
  | zero => rfl
  | succ depth ih =>
      funext name args
      rw [callsAt, callsAt, ih]
      cases hget : graphs.get name with
      | none => rfl
      | some graph => exact evalGraph_congr (fun e he env => h name graph hget e he _ env) args

end Knok
