import Mathlib
import Knok.Lowering

/-!
# Lowering denotes call-by-value substitution

The lowerer of `Knok.Lowering` shares work through two tables and mutates the
name environment while it expands a callee.  `denoteGraph` has neither: it
evaluates every expression where it occurs, in an environment of its own for
each graph.  The two agree, results and errors alike.

### Structure

* `Restored`, `Framed`: what a call, respectively an expression, leaves
  unchanged in the state, whether or not it fails.  Unconditional.
* `Agrees`: the tables of the current scope hold denotations of the payloads of
  the current graph, the environment is contained in `values`, and no entry
  exists yet in a scope that has not been opened.
* `simulates_lowerBoth`, `simulates_inlineGraphValues`: one step over
  expressions, one over calls.
-/

namespace Knok

open Control

variable {ν : Type}

/-! ## The denotation -/

/-- The value of a name. -/
def denoteVar (env : Env ν) (name : String) : Except Error ν :=
  match env name with
  | some value => .ok value
  | none => .error (.msg s!"unknown value `{name}` during lowering")

/-- The output of a call that a projection stands for. -/
def denoteProjection (values : List ν) (index : ℕ) : Except Error ν :=
  if h : index < values.length then .ok values[index]
  else .error (.msg
    s!"tuple projection index {index} out of bounds for {values.length} values")

theorem tupleValueAt_eq_denoteProjection (values : List ν) (index : ℕ) :
    tupleValueAt values index = denoteProjection values index := by
  rw [tupleValueAt, denoteProjection]
  by_cases h : index < values.length
  · rw [dif_pos h, List.getElem?_eq_getElem h]
  · rw [dif_neg h, List.getElem?_eq_none (not_lt.mp h)]

section Denotation

variable (backend : Backend ν) (calls : String → List ν → Except Error (List ν))
  (env : Env ν)

/-- The outputs of a call whose arguments denote `argValues`. -/
def denoteCallValues (op : CallOp) (args : List Expr)
    (argValues : Except Error (List ν)) : Except Error (List ν) :=
  match op with
  | .graph name => do calls name (← argValues)
  | op =>
      if op.isStaticCreation then backend.call op args []
      else do backend.call op args (← argValues)

mutual

/-- What an expression denotes as a tensor, and as a let value. -/
def denoteBoth : Expr → Except Error ν × Except Error (List ν)
  | .var name => (denoteVar env name, do return [← denoteVar env name])
  | .const value elem =>
      (backend.constant value elem, do return [← backend.constant value elem])
  | .unary .neg value =>
      let denoted : Except Error ν := do backend.neg (← (denoteBoth value).1)
      (denoted, do return [← denoted])
  | .binary op lhs rhs =>
      let denoted : Except Error ν := do
        let lhs ← (denoteBoth lhs).1
        let rhs ← (denoteBoth rhs).1
        backend.binary op lhs rhs
      (denoted, do return [← denoted])
  | .node _ value => denoteBoth value
  | .tupleGet _ value index =>
      let denoted : Except Error ν := do denoteProjection (← (denoteBoth value).2) index
      (denoted, do return [← denoted])
  | .call op args =>
      let values := denoteCallValues backend calls op args (denoteArgs args)
      (do singleValue op (← values), values)

/-- What a list of arguments denotes. -/
def denoteArgs : List Expr → Except Error (List ν)
  | [] => return []
  | arg :: args => do
      let value ← (denoteBoth arg).1
      let values ← denoteArgs args
      return value :: values

end

/-- What a tensor expression denotes. -/
def denoteExpr (e : Expr) : Except Error ν := (denoteBoth backend calls env e).1

/-- What a let value denotes. -/
def denoteLetValues (e : Expr) : Except Error (List ν) :=
  (denoteBoth backend calls env e).2

/-- The environment after a let. -/
def denoteBinding (names : List String) (values : List ν) : Except Error (Env ν) :=
  if names.length ≠ values.length then
    throw (.msg
      s!"internal error: let binding expected {names.length} values, lowering produced {values.length}")
  else return bindNames env names values

/-- What the body of a graph denotes. -/
def denoteBodyOutputs (body : List TypedExpr) (outputs : List TensorType) :
    Except Error (List ν) :=
  if body.length ≠ outputs.length then
    throw (.msg
      s!"internal error: graph body has {body.length} values but signature has {outputs.length} outputs")
  else
    (body.zip outputs).mapM fun (e, output) => do
      backend.output (← denoteExpr backend calls env e.kind) output

end Denotation

/-- The environment after the lets of a graph. -/
def denoteLets (backend : Backend ν) (calls : String → List ν → Except Error (List ν)) :
    Env ν → List Binding → Except Error (Env ν)
  | env, [] => return env
  | env, binding :: lets => do
      let values ← denoteLetValues backend calls env binding.2
      let env ← denoteBinding env binding.1 values
      denoteLets backend calls env lets

/-- What a graph denotes in an environment for its inputs. -/
def denoteGraphBody (backend : Backend ν)
    (calls : String → List ν → Except Error (List ν)) (graph : TypedGraph) (env : Env ν) :
    Except Error (List ν) := do
  let env ← denoteLets backend calls env (graph.lets.map TypedLet.binding)
  denoteBodyOutputs backend calls env graph.body graph.outputs

/-- What a call denotes, inside the expansions of `stack`. -/
def denoteCall (backend : Backend ν) (graphs : Registry) :
    ℕ → List String → String → List ν → Except Error (List ν)
  | depth, stack, name, args => do
      let graph ← resolveCall graphs stack name args.length
      match depth with
      | 0 => throw ⟨.depth, "call depth"⟩
      | depth + 1 =>
          denoteGraphBody backend (denoteCall backend graphs depth (name :: stack)) graph
            (inputEnv graph args)

/-- What a graph denotes on values for its inputs: call-by-value substitution of
lets and callees, with nothing shared and nothing mutated. -/
def denoteGraph (backend : Backend ν) (graphs : Registry) (graph : TypedGraph)
    (args : List ν) : Except Error (List ν) :=
  denoteGraphBody backend (denoteCall backend graphs graphs.length [graph.name]) graph
    (inputEnv graph args)

/-! ## Frame -/

/-- Scopes are handled like a stack, and the entries of every scope opened
before are as they were, except that `touched` may have gained entries. -/
structure ScopesKept (touched : Option ℕ) (s s' : LowererState ν) : Prop where
  callStack : s'.callStack = s.callStack
  tupleScopeStack : s'.tupleScopeStack = s.tupleScopeStack
  nextTupleScope : s.nextTupleScope ≤ s'.nextTupleScope
  nodeValues : ∀ key, key.1 < s.nextTupleScope → touched ≠ some key.1 →
    s'.nodeValues key = s.nodeValues key
  tupleValues : ∀ key, key.1 < s.nextTupleScope → touched ≠ some key.1 →
    s'.tupleValues key = s.tupleValues key

namespace ScopesKept

variable {touched : Option ℕ} {s s' s'' : LowererState ν}

theorem refl (s : LowererState ν) : ScopesKept touched s s :=
  ⟨rfl, rfl, le_rfl, fun _ _ _ => rfl, fun _ _ _ => rfl⟩

theorem trans (h : ScopesKept touched s s') (h' : ScopesKept touched s' s'') :
    ScopesKept touched s s'' where
  callStack := h'.callStack.trans h.callStack
  tupleScopeStack := h'.tupleScopeStack.trans h.tupleScopeStack
  nextTupleScope := h.nextTupleScope.trans h'.nextTupleScope
  nodeValues key hkey hne := by
    rw [h'.nodeValues key (hkey.trans_le h.nextTupleScope) hne, h.nodeValues key hkey hne]
  tupleValues key hkey hne := by
    rw [h'.tupleValues key (hkey.trans_le h.nextTupleScope) hne, h.tupleValues key hkey hne]

theorem mono (h : ScopesKept none s s') : ScopesKept touched s s' where
  callStack := h.callStack
  tupleScopeStack := h.tupleScopeStack
  nextTupleScope := h.nextTupleScope
  nodeValues key hkey _ := h.nodeValues key hkey (by simp)
  tupleValues key hkey _ := h.tupleValues key hkey (by simp)

theorem currentTupleScope (h : ScopesKept touched s s') :
    s'.currentTupleScope = s.currentTupleScope := by
  rw [LowererState.currentTupleScope, LowererState.currentTupleScope, h.tupleScopeStack]

end ScopesKept

/-- What a call leaves unchanged: all names, the stacks, and every table entry
that existed. -/
structure Restored (s s' : LowererState ν) : Prop where
  values : s'.values = s.values
  scopes : ScopesKept none s s'

/-- What an expression leaves unchanged: the tables of the current scope may
gain entries. -/
structure Framed (s s' : LowererState ν) : Prop where
  values : s'.values = s.values
  scopes : ScopesKept (some s.currentTupleScope) s s'

theorem Framed.refl (s : LowererState ν) : Framed s s := ⟨rfl, .refl s⟩

theorem Framed.trans {s s' s'' : LowererState ν} (h : Framed s s') (h' : Framed s' s'') :
    Framed s s'' := by
  refine ⟨h'.values.trans h.values, h.scopes.trans ?_⟩
  have hscopes := h'.scopes
  rwa [h.scopes.currentTupleScope] at hscopes

instance : IsPreorder (LowererState ν) Framed where
  refl := Framed.refl
  trans _ _ _ := Framed.trans

theorem Restored.framed {s s' : LowererState ν} (h : Restored s s') : Framed s s' :=
  ⟨h.values, h.scopes.mono⟩

/-- Restoring turns the latest bindings back into those before. -/
theorem restoreValues_insertValue (name : String) (value : ν) (s : LowererState ν)
    (overwritten : Overwritten ν) :
    (restoreValues (insertValue name value (s, overwritten)).2
        (insertValue name value (s, overwritten)).1).values =
      (restoreValues overwritten s).values := by
  simp [restoreValues, insertValue]

/-- An expansion in progress: undoing its bindings gives the names back that
undoing them before gave, and the scopes are kept. -/
structure Undoable (s s' : LowererState ν × Overwritten ν) : Prop where
  values : (restoreValues s'.2 s'.1).values = (restoreValues s.2 s.1).values
  scopes : ScopesKept (some s.1.currentTupleScope) s.1 s'.1

theorem Undoable.refl (s : LowererState ν × Overwritten ν) : Undoable s s :=
  ⟨rfl, .refl s.1⟩

theorem Undoable.trans {s s' s'' : LowererState ν × Overwritten ν} (h : Undoable s s')
    (h' : Undoable s' s'') : Undoable s s'' := by
  refine ⟨h'.values.trans h.values, h.scopes.trans ?_⟩
  have hscopes := h'.scopes
  rwa [h.scopes.currentTupleScope] at hscopes

instance : IsPreorder (LowererState ν × Overwritten ν) Undoable where
  refl := Undoable.refl
  trans _ _ _ := Undoable.trans

theorem undoable_insertValues (names : List String) (values : List ν) :
    ∀ s : LowererState ν × Overwritten ν, Undoable s (insertValues names values s) := by
  unfold insertValues
  induction names.zip values with
  | nil => exact Undoable.refl
  | cons binding bindings ih =>
      rintro ⟨s, overwritten⟩
      refine Undoable.trans ⟨restoreValues_insertValue binding.1 binding.2 s overwritten, ?_⟩
        (ih (insertValue binding.1 binding.2 (s, overwritten)))
      exact ⟨rfl, rfl, le_rfl, fun _ _ _ => rfl, fun _ _ _ => rfl⟩

section Frame

variable (backend : Backend ν) {inline : String → List ν → LowerM ν (List ν)}

theorem keeps_lookupValue (name : String) : Keeps Framed (lookupValue (ν := ν) name) := by
  intro s
  rw [lookupValue, exec_get_bind]
  cases s.values name <;> exact Framed.refl s

/-- A table entry in the current scope. -/
theorem framed_update_nodeValues (s : LowererState ν) (nodeId : ℕ) (value : Option ν) :
    Framed s { s with
      nodeValues := Function.update s.nodeValues (s.currentTupleScope, nodeId) value } := by
  refine ⟨rfl, rfl, rfl, le_rfl, fun key _ hne => ?_, fun _ _ _ => rfl⟩
  exact Function.update_of_ne (by rintro rfl; exact hne rfl) ..

theorem framed_update_tupleValues (s : LowererState ν) (tupleId : ℕ)
    (values : Option (List ν)) :
    Framed s { s with
      tupleValues := Function.update s.tupleValues (s.currentTupleScope, tupleId) values } := by
  refine ⟨rfl, rfl, rfl, le_rfl, fun _ _ _ => rfl, fun key _ hne => ?_⟩
  exact Function.update_of_ne (by rintro rfl; exact hne rfl) ..

theorem keeps_lowerNode (nodeId : ℕ) {lowerValue : LowerM ν ν}
    (h : Keeps Framed lowerValue) : Keeps Framed (lowerNode nodeId lowerValue) := by
  intro s
  rw [lowerNode, exec_get_bind, exec_get_bind]
  cases s.nodeValues (s.currentTupleScope, nodeId) with
  | some value => exact Framed.refl s
  | none =>
      have hvalue := h s
      dsimp only
      rw [exec_bind]
      rcases hrun : exec lowerValue s with ⟨value | value, s'⟩
      · rwa [hrun] at hvalue
      · rw [hrun] at hvalue
        have hscope := hvalue.scopes.currentTupleScope
        have hupdate := framed_update_nodeValues s' nodeId (some value)
        rw [hscope] at hupdate
        exact hvalue.trans hupdate

theorem keeps_lowerTupleGet (tupleId : ℕ) {lowerValues : LowerM ν (List ν)} (index : ℕ)
    (h : Keeps Framed lowerValues) : Keeps Framed (lowerTupleGet tupleId lowerValues index) := by
  intro s
  rw [lowerTupleGet, exec_get_bind, exec_get_bind]
  cases s.tupleValues (s.currentTupleScope, tupleId) with
  | some values =>
      dsimp only
      rw [exec_liftM]
      exact Framed.refl s
  | none =>
      have hvalues := h s
      dsimp only
      rw [exec_bind]
      rcases hrun : exec lowerValues s with ⟨values | values, s'⟩
      · rwa [hrun] at hvalues
      · rw [hrun] at hvalues
        dsimp only
        rw [exec_bind, exec_liftM]
        cases tupleValueAt values index with
        | error e => exact hvalues
        | ok value =>
            have hscope := hvalues.scopes.currentTupleScope
            have hupdate := framed_update_tupleValues s' tupleId (some values)
            rw [hscope] at hupdate
            exact hvalues.trans hupdate

/-- Wrapping the one value of a computation in a list. -/
theorem keeps_singleton {m : LowerM ν ν} (h : Keeps Framed m) :
    Keeps Framed (do return [← m]) :=
  h.bind fun _ => .of_pure _

theorem keeps_lowerArgs {args : List Expr}
    (h : ∀ arg ∈ args, Keeps Framed (lowerBoth backend inline arg).1) :
    Keeps Framed (lowerArgs backend inline args) := by
  induction args with
  | nil => exact .of_pure _
  | cons arg args ih =>
      rw [lowerArgs]
      exact (h arg (List.mem_cons_self ..)).bind fun _ =>
        (ih fun a ha => h a (List.mem_cons_of_mem _ ha)).bind fun _ =>
          .of_pure _

theorem lowerCallValues_of_ne {op : CallOp} (h : ∀ name, op ≠ .graph name)
    (args : List Expr) (argValues : LowerM ν (List ν)) :
    lowerCallValues backend inline op args argValues =
      if op.isStaticCreation then liftM (backend.call op args [])
      else argValues >>= fun values => liftM (backend.call op args values) := by
  cases op with
  | graph name => exact absurd rfl (h name)
  | _ => rfl

theorem keeps_lowerCallValues (hinline : ∀ name args, Keeps Framed (inline name args))
    (op : CallOp) (args : List Expr) {argValues : LowerM ν (List ν)}
    (hargs : Keeps Framed argValues) :
    Keeps Framed (lowerCallValues backend inline op args argValues) := by
  rcases op.eq_graph_or with ⟨name, rfl⟩ | hop
  · exact hargs.bind fun _ => hinline name _
  · rw [lowerCallValues_of_ne backend hop]
    split
    · exact .of_liftM _
    · exact hargs.bind fun _ => .of_liftM _

/-- **Lowering an expression keeps the frame**, if calls do. -/
theorem keeps_lowerBoth (hinline : ∀ name args, Keeps Framed (inline name args))
    (e : Expr) :
    Keeps Framed (lowerBoth backend inline e).1 ∧
      Keeps Framed (lowerBoth backend inline e).2 := by
  induction e with
  | var name => exact ⟨keeps_lookupValue name, keeps_singleton (keeps_lookupValue name)⟩
  | const value elem =>
      exact ⟨.of_liftM _, keeps_singleton (.of_liftM _)⟩
  | unary op value ih =>
      cases op with
      | neg =>
          have h := ih.1.bind fun v =>
            Keeps.of_liftM (backend.neg v)
          exact ⟨h, keeps_singleton h⟩
  | binary op lhs rhs ihl ihr =>
      have h := ihl.1.bind fun l => ihr.1.bind fun r =>
        Keeps.of_liftM (backend.binary op l r)
      exact ⟨h, keeps_singleton h⟩
  | node nodeId value ih => exact ⟨keeps_lowerNode nodeId ih.1, ih.2⟩
  | tupleGet tupleId value index ih =>
      have h := keeps_lowerTupleGet tupleId index ih.2
      exact ⟨h, keeps_singleton h⟩
  | call op args ih =>
      have hargs := keeps_lowerArgs backend fun arg harg => (ih arg harg).1
      have h := keeps_lowerCallValues backend hinline op args hargs
      exact ⟨h.bind fun _ => .of_liftM _, h⟩

/-- A lowering step inside an expansion. -/
theorem exec_lift {α : Type} (m : LowerM ν α) (s : LowererState ν)
    (overwritten : Overwritten ν) :
    exec (InlineM.lift m) (s, overwritten) =
      ((exec m s).1, (exec m s).2, overwritten) := rfl

theorem keeps_lift {α : Type} {m : LowerM ν α} (h : Keeps Framed m) :
    Keeps Undoable (InlineM.lift m) := by
  rintro ⟨s, overwritten⟩
  rw [exec_lift]
  refine ⟨?_, (h s).scopes⟩
  simp only [restoreValues, (h s).values]

theorem keeps_bindValues (names : List String) (values : List ν) :
    Keeps Undoable (bindValues names values) := by
  intro s
  unfold bindValues
  split
  · exact Undoable.refl s
  · exact undoable_insertValues names values s

theorem keeps_lowerGraphBody (hinline : ∀ name args, Keeps Framed (inline name args))
    (graph : TypedGraph) : Keeps Undoable (lowerGraphBody backend inline graph) := by
  have hlets : ∀ lets, Keeps Undoable (lowerLets backend inline lets) := by
    intro lets
    induction lets with
    | nil => exact .of_pure _
    | cons binding lets ih =>
        exact (keeps_lift (keeps_lowerBoth backend hinline binding.2).2).bind
          fun values => (keeps_bindValues binding.1 values).bind fun _ => ih
  refine (hlets _).bind fun _ => keeps_lift ?_
  unfold lowerBodyOutputs
  split
  · exact .of_throw _
  · refine .of_mapM fun typed _ => ?_
    exact (keeps_lowerBoth backend hinline typed.1.kind).1.bind fun _ =>
      .of_liftM _

/-- An expansion, its result kept and its state cleaned up. -/
theorem exec_withInlineScope {α : Type} {name : String} {inputs : List String}
    {args : List ν} {expansion : InlineM ν α} {s s' : LowererState ν}
    {overwritten : Overwritten ν} {result : Except Error α}
    (h : exec expansion (insertValues inputs args (pushInlineScope name s, [])) =
      (result, s', overwritten)) :
    exec (withInlineScope name inputs args expansion) s =
      (result, popInlineScope s.nextTupleScope (restoreValues overwritten s')) := by
  change ((exec expansion (insertValues inputs args (pushInlineScope name s, []))).1,
    popInlineScope s.nextTupleScope (restoreValues
      (exec expansion (insertValues inputs args (pushInlineScope name s, []))).2.2
      (exec expansion (insertValues inputs args (pushInlineScope name s, []))).2.1)) = _
  rw [h]

/-- Undoing the bindings of an expansion and dropping its scope. -/
theorem keeps_withInlineScope {α : Type} (name : String) (inputs : List String)
    (args : List ν) {expansion : InlineM ν α} (h : Keeps Undoable expansion) :
    Keeps Restored (withInlineScope name inputs args expansion) := by
  intro s
  have hinputs := undoable_insertValues inputs args (pushInlineScope name s, [])
  have hrun := hinputs.trans (h (insertValues inputs args (pushInlineScope name s, [])))
  rcases hexec : exec expansion (insertValues inputs args (pushInlineScope name s, []))
    with ⟨result, s', overwritten⟩
  rw [hexec] at hrun
  rw [exec_withInlineScope hexec]
  -- entries of older scopes are neither written by the expansion nor dropped
  have hold : ∀ key : ℕ × ℕ, key.1 < s.nextTupleScope →
      key.1 ≠ s.nextTupleScope ∧ key.1 < (pushInlineScope name s).nextTupleScope ∧
        some (pushInlineScope name s).currentTupleScope ≠ some key.1 := by
    intro key hkey
    refine ⟨hkey.ne, Nat.lt_succ_of_lt hkey, fun heq => ?_⟩
    exact hkey.ne' (Option.some.inj heq)
  refine ⟨hrun.values, ?_, ?_, ?_, ?_, ?_⟩
  · exact congrArg List.tail hrun.scopes.callStack
  · exact congrArg List.tail hrun.scopes.tupleScopeStack
  · exact (Nat.le_succ _).trans hrun.scopes.nextTupleScope
  · intro key hkey _
    obtain ⟨hne, hlt, htouched⟩ := hold key hkey
    exact (if_neg hne).trans (hrun.scopes.nodeValues key hlt htouched)
  · intro key hkey _
    obtain ⟨hne, hlt, htouched⟩ := hold key hkey
    exact (if_neg hne).trans (hrun.scopes.tupleValues key hlt htouched)

/-- **After a call everything of the caller is as it was**: the names, the call
stack, the scope and its table entries, from any state and whether or not the
call succeeds. -/
theorem keeps_inlineGraphValues (graphs : Registry) (depth : ℕ) :
    ∀ name args, Keeps Restored (inlineGraphValues backend graphs depth name args) := by
  induction depth with
  | zero =>
      intro name args s
      rw [inlineGraphValues, exec_get_bind, exec_bind, exec_liftM]
      cases resolveCall graphs s.callStack name args.length <;> exact ⟨rfl, .refl s⟩
  | succ depth ih =>
      intro name args s
      rw [inlineGraphValues, exec_get_bind, exec_bind, exec_liftM]
      cases resolveCall graphs s.callStack name args.length with
      | error e => exact ⟨rfl, .refl s⟩
      | ok graph =>
          have hbody := keeps_lowerGraphBody backend
            (fun callee values s => (ih callee values s).framed) graph
          exact keeps_withInlineScope name (graph.inputs.map Input.name) args hbody s

end Frame

/-! ## Growing environments -/

section Mono

variable {backend : Backend ν} {calls : String → List ν → Except Error (List ν)}
  {env env' : Env ν}

theorem denoteCallValues_of_ne {op : CallOp} (h : ∀ name, op ≠ .graph name)
    (args : List Expr) (argValues : Except Error (List ν)) :
    denoteCallValues backend calls op args argValues =
      if op.isStaticCreation then backend.call op args []
      else argValues >>= fun values => backend.call op args values := by
  cases op with
  | graph name => exact absurd rfl (h name)
  | _ => rfl

theorem denoteVar_mono (h : Env.Extends env env') {name : String} {value : ν}
    (hvalue : denoteVar env name = .ok value) : denoteVar env' name = .ok value := by
  unfold denoteVar at hvalue ⊢
  cases hname : env name with
  | none =>
      rw [hname] at hvalue
      cases hvalue
  | some v =>
      rw [hname] at hvalue
      rw [h name v hname]
      exact hvalue

/-- A computation succeeds whenever another does, with the same value. -/
def Improves {α : Type} (d d' : Except Error α) : Prop :=
  ∀ a, d = .ok a → d' = .ok a

theorem Improves.refl {α : Type} (d : Except Error α) : Improves d d := fun _ h => h

theorem Improves.bind {α β : Type} {d d' : Except Error α} {f f' : α → Except Error β}
    (h : Improves d d') (hf : ∀ a, Improves (f a) (f' a)) :
    Improves (d >>= f) (d' >>= f') := by
  intro b hb
  obtain ⟨a, ha, hb⟩ := except_bind_eq_ok_iff.mp hb
  exact except_bind_eq_ok_iff.mpr ⟨a, h a ha, hf a b hb⟩

/-- **A denotation is not changed by further bindings.** -/
theorem denoteBoth_mono (h : Env.Extends env env') (e : Expr) :
    Improves (denoteBoth backend calls env e).1 (denoteBoth backend calls env' e).1 ∧
      Improves (denoteBoth backend calls env e).2 (denoteBoth backend calls env' e).2 := by
  induction e with
  | var name =>
      have hvar : Improves (denoteVar env name) (denoteVar env' name) :=
        fun _ => denoteVar_mono h
      exact ⟨hvar, hvar.bind fun _ => .refl _⟩
  | const value elem => exact ⟨.refl _, .refl _⟩
  | unary op value ih =>
      cases op with
      | neg =>
          have hneg := ih.1.bind fun v => Improves.refl (backend.neg v)
          exact ⟨hneg, hneg.bind fun _ => .refl _⟩
  | binary op lhs rhs ihl ihr =>
      have hop := ihl.1.bind fun l => ihr.1.bind fun r =>
        Improves.refl (backend.binary op l r)
      exact ⟨hop, hop.bind fun _ => .refl _⟩
  | node nodeId value ih => exact ih
  | tupleGet tupleId value index ih =>
      have hget := ih.2.bind fun values => Improves.refl (denoteProjection values index)
      exact ⟨hget, hget.bind fun _ => .refl _⟩
  | call op args ih =>
      have hargs : Improves (denoteArgs backend calls env args)
          (denoteArgs backend calls env' args) := by
        induction args with
        | nil => exact .refl _
        | cons arg args iha =>
            refine (ih arg (List.mem_cons_self ..)).1.bind fun _ => ?_
            exact (iha fun a ha => ih a (List.mem_cons_of_mem _ ha)).bind fun _ => .refl _
      have hcall : Improves
          (denoteCallValues backend calls op args (denoteArgs backend calls env args))
          (denoteCallValues backend calls op args (denoteArgs backend calls env' args)) := by
        rcases op.eq_graph_or with ⟨name, rfl⟩ | hop
        · exact hargs.bind fun _ => .refl _
        · rw [denoteCallValues_of_ne hop, denoteCallValues_of_ne hop]
          split
          · exact .refl _
          · exact hargs.bind fun _ => .refl _
      exact ⟨hcall.bind fun _ => .refl _, hcall⟩

end Mono

/-! ## The tables hold denotations -/

/-- A subexpression of one of a list of expressions. -/
def Occurs (es : List Expr) (s : Expr) : Prop := ∃ e ∈ es, s ∈ e.subexprs

/-- No table has an entry in a scope that has not been opened. -/
def FreshScopes (s : LowererState ν) : Prop :=
  ∀ key : ℕ × ℕ, s.nextTupleScope ≤ key.1 →
    s.nodeValues key = none ∧ s.tupleValues key = none

/-- The state agrees with the environment `env` of a graph with expressions
`es` that is expanded inside `stack`. -/
structure Agrees (backend : Backend ν) (calls : String → List ν → Except Error (List ν))
    (stack : List String) (es : List Expr) (env : Env ν) (s : LowererState ν) : Prop where
  callStack : s.callStack = stack
  opened : s.currentTupleScope < s.nextTupleScope
  fresh : FreshScopes s
  values : Env.Extends env s.values
  nodes : ∀ nodeId value, s.nodeValues (s.currentTupleScope, nodeId) = some value →
    ∀ payload, Occurs es (.node nodeId payload) →
      denoteExpr backend calls env payload = .ok value
  tuples : ∀ tupleId values, s.tupleValues (s.currentTupleScope, tupleId) = some values →
    ∀ payload index, Occurs es (.tupleGet tupleId payload index) →
      denoteLetValues backend calls env payload = .ok values

section Simulation

variable {backend : Backend ν} {calls : String → List ν → Except Error (List ν)}
  {stack : List String} {es : List Expr} {env env' : Env ν} {s s' : LowererState ν}

/-- A call changes nothing that agreement speaks about. -/
theorem Agrees.of_restored (h : Agrees backend calls stack es env s) (hframe : Restored s s')
    (hfresh : FreshScopes s') : Agrees backend calls stack es env s' := by
  have hscope := hframe.scopes.currentTupleScope
  refine ⟨hframe.scopes.callStack.trans h.callStack, ?_, hfresh, ?_, ?_, ?_⟩
  · rw [hscope]
    exact h.opened.trans_le hframe.scopes.nextTupleScope
  · rw [hframe.values]
    exact h.values
  · intro nodeId value hvalue
    rw [hscope, hframe.scopes.nodeValues _ h.opened (by simp)] at hvalue
    exact h.nodes nodeId value hvalue
  · intro tupleId values hvalues
    rw [hscope, hframe.scopes.tupleValues _ h.opened (by simp)] at hvalues
    exact h.tuples tupleId values hvalues

/-- A new entry of the node table, for the one payload that the id has. -/
theorem Agrees.insert_node (h : Agrees backend calls stack es env s)
    (hshared : SharedNodes es) {nodeId : ℕ} {payload : Expr} {value : ν}
    (hoccurs : Occurs es (.node nodeId payload))
    (hvalue : denoteExpr backend calls env payload = .ok value) :
    Agrees backend calls stack es env { s with
      nodeValues :=
        Function.update s.nodeValues (s.currentTupleScope, nodeId) (some value) } := by
  refine ⟨h.callStack, h.opened, fun key hkey => ⟨?_, (h.fresh key hkey).2⟩, h.values, ?_,
    h.tuples⟩
  · have hne : key ≠ (s.currentTupleScope, nodeId) := by
      rintro rfl
      exact absurd h.opened (not_lt.mpr hkey)
    exact (Function.update_of_ne hne ..).trans (h.fresh key hkey).1
  · intro otherId other hother otherPayload hotherOccurs
    change Function.update s.nodeValues (s.currentTupleScope, nodeId) (some value)
      (s.currentTupleScope, otherId) = some other at hother
    by_cases hid : otherId = nodeId
    · subst hid
      rw [Function.update_self] at hother
      cases hother
      rwa [hshared otherId otherPayload payload hotherOccurs hoccurs]
    · have hne : (s.currentTupleScope, otherId) ≠ (s.currentTupleScope, nodeId) :=
        fun heq => hid (Prod.mk.inj heq).2
      rw [Function.update_of_ne hne] at hother
      exact h.nodes otherId other hother otherPayload hotherOccurs

/-- A new entry of the tuple table, for the one payload that the id has. -/
theorem Agrees.insert_tuple (h : Agrees backend calls stack es env s)
    (hshared : SharedTuples es) {tupleId index : ℕ} {payload : Expr} {values : List ν}
    (hoccurs : Occurs es (.tupleGet tupleId payload index))
    (hvalues : denoteLetValues backend calls env payload = .ok values) :
    Agrees backend calls stack es env { s with
      tupleValues :=
        Function.update s.tupleValues (s.currentTupleScope, tupleId) (some values) } := by
  refine ⟨h.callStack, h.opened, fun key hkey => ⟨(h.fresh key hkey).1, ?_⟩, h.values,
    h.nodes, ?_⟩
  · have hne : key ≠ (s.currentTupleScope, tupleId) := by
      rintro rfl
      exact absurd h.opened (not_lt.mpr hkey)
    exact (Function.update_of_ne hne ..).trans (h.fresh key hkey).2
  · intro otherId others hothers otherPayload otherIndex hotherOccurs
    change Function.update s.tupleValues (s.currentTupleScope, tupleId) (some values)
      (s.currentTupleScope, otherId) = some others at hothers
    by_cases hid : otherId = tupleId
    · subst hid
      rw [Function.update_self] at hothers
      cases hothers
      rwa [hshared otherId otherPayload payload otherIndex index hotherOccurs hoccurs]
    · have hne : (s.currentTupleScope, otherId) ≠ (s.currentTupleScope, tupleId) :=
        fun heq => hid (Prod.mk.inj heq).2
      rw [Function.update_of_ne hne] at hothers
      exact h.tuples otherId others hothers otherPayload otherIndex hotherOccurs

/-- Reading a name that the environment binds. -/
theorem simulates_lookupValue {name : String} (hbound : ∃ value, env name = some value) :
    Simulates (Agrees backend calls stack es env) (lookupValue name) (denoteVar env name)
      (Same (Agrees backend calls stack es env)) := by
  intro s hs
  obtain ⟨value, hvalue⟩ := hbound
  refine .inl ⟨value, value, s, ?_, ?_, rfl, hs⟩
  · rw [lookupValue, exec_get_bind, hs.values name value hvalue]
    rfl
  · rw [denoteVar, hvalue]

/-- A node is lowered to the denotation of its payload, cached or not. -/
theorem simulates_lowerNode (hshared : SharedNodes es) {nodeId : ℕ} {payload : Expr}
    (hoccurs : Occurs es (.node nodeId payload)) {lowerValue : LowerM ν ν}
    (hvalue : Simulates (Agrees backend calls stack es env) lowerValue
      (denoteExpr backend calls env payload) (Same (Agrees backend calls stack es env)))
    (hframe : Keeps Framed lowerValue) :
    Simulates (Agrees backend calls stack es env) (lowerNode nodeId lowerValue)
      (denoteExpr backend calls env payload)
      (Same (Agrees backend calls stack es env)) := by
  intro s hs
  rw [lowerNode, exec_get_bind, exec_get_bind]
  cases hcached : s.nodeValues (s.currentTupleScope, nodeId) with
  | some value =>
      exact .inl ⟨value, value, s, rfl, hs.nodes nodeId value hcached payload hoccurs, rfl, hs⟩
  | none =>
      dsimp only
      obtain ⟨value, _, s', hrun, hdenote, rfl, hs'⟩ | ⟨e, s', hrun, hdenote⟩ := hvalue s hs
      · have hscope := (hframe s).scopes.currentTupleScope
        rw [hrun] at hscope
        have hinsert := hs'.insert_node hshared hoccurs hdenote
        rw [hscope] at hinsert
        rw [exec_bind_ok hrun, exec_modify_bind]
        exact .inl ⟨value, value, _, rfl, hdenote, rfl, hinsert⟩
      · exact .inr ⟨e, s', exec_bind_error hrun, hdenote⟩

/-- A projection is lowered to the projection of its payload's denotation. -/
theorem simulates_lowerTupleGet (hshared : SharedTuples es) {tupleId index : ℕ}
    {payload : Expr} (hoccurs : Occurs es (.tupleGet tupleId payload index))
    {lowerValues : LowerM ν (List ν)}
    (hvalues : Simulates (Agrees backend calls stack es env) lowerValues
      (denoteLetValues backend calls env payload)
      (Same (Agrees backend calls stack es env)))
    (hframe : Keeps Framed lowerValues) :
    Simulates (Agrees backend calls stack es env) (lowerTupleGet tupleId lowerValues index)
      (denoteLetValues backend calls env payload >>= fun values =>
        denoteProjection values index)
      (Same (Agrees backend calls stack es env)) := by
  intro s hs
  simp only [← tupleValueAt_eq_denoteProjection]
  rw [lowerTupleGet, exec_get_bind, exec_get_bind]
  cases hcached : s.tupleValues (s.currentTupleScope, tupleId) with
  | some values =>
      rw [hs.tuples tupleId values hcached payload index hoccurs]
      exact Simulates.of_liftM s hs
  | none =>
      dsimp only
      obtain ⟨values, _, s', hrun, hdenote, rfl, hs'⟩ | ⟨e, s', hrun, hdenote⟩ := hvalues s hs
      · have hscope := (hframe s).scopes.currentTupleScope
        rw [hrun] at hscope
        have hinsert := hs'.insert_tuple hshared hoccurs hdenote
        rw [hscope] at hinsert
        rw [exec_bind_ok hrun, hdenote]
        change _ ∨ ∃ e t, _ ∧ tupleValueAt values index = .error e
        cases hindex : tupleValueAt values index with
        | error e => exact .inr ⟨e, s', exec_bind_error (exec_liftM (.error e) s'), rfl⟩
        | ok value =>
            refine .inl ⟨value, value, _, ?_, hindex, rfl, hinsert⟩
            rw [exec_bind_ok (exec_liftM (.ok value) s'), exec_modify_bind]
            rfl
      · rw [hdenote]
        exact .inr ⟨e, s', exec_bind_error hrun, rfl⟩

/-- The parts of an expression occur where it does. -/
theorem Occurs.part {e part : Expr} (h : Occurs es e) (hpart : part ∈ e.subexprs) :
    Occurs es part := by
  obtain ⟨top, htop, he⟩ := h
  exact ⟨top, htop, Expr.mem_subexprs_trans hpart he⟩

theorem simulates_lowerCallValues (backend : Backend ν) {inline : String → List ν → LowerM ν (List ν)}
    {P : LowererState ν → Prop}
    (hcalls : ∀ name args, Simulates P (inline name args) (calls name args) (Same P))
    (op : CallOp) (args : List Expr) {argValues : LowerM ν (List ν)}
    {argDenotes : Except Error (List ν)} (hargs : Simulates P argValues argDenotes (Same P)) :
    Simulates P (lowerCallValues backend inline op args argValues)
      (denoteCallValues backend calls op args argDenotes) (Same P) := by
  rcases op.eq_graph_or with ⟨name, rfl⟩ | hop
  · exact hargs.bind_same fun values => hcalls name values
  · rw [lowerCallValues_of_ne backend hop, denoteCallValues_of_ne hop]
    split
    · exact .of_liftM
    · exact hargs.bind_same fun values => .of_liftM

/-- **Lowering an expression computes its denotation** in agreeing states, and
leaves an agreeing state. -/
theorem simulates_lowerBoth {inline : String → List ν → LowerM ν (List ν)}
    (hnodes : SharedNodes es) (htuples : SharedTuples es)
    (hframe : ∀ name args, Keeps Framed (inline name args))
    (hcalls : ∀ name args, Simulates (Agrees backend calls stack es env)
      (inline name args) (calls name args) (Same (Agrees backend calls stack es env)))
    (e : Expr) (hoccurs : Occurs es e)
    (hbound : ∀ name, Expr.var name ∈ e.subexprs → ∃ value, env name = some value) :
    Simulates (Agrees backend calls stack es env) (lowerBoth backend inline e).1
        (denoteBoth backend calls env e).1 (Same (Agrees backend calls stack es env)) ∧
      Simulates (Agrees backend calls stack es env) (lowerBoth backend inline e).2
        (denoteBoth backend calls env e).2 (Same (Agrees backend calls stack es env)) := by
  have hsingleton : ∀ {m : LowerM ν ν} {d : Except Error ν},
      Simulates (Agrees backend calls stack es env) m d
        (Same (Agrees backend calls stack es env)) →
      Simulates (Agrees backend calls stack es env) (do return [← m]) (do return [← d])
        (Same (Agrees backend calls stack es env)) := by
    intro m d h
    exact h.bind_same fun value => .of_pure fun s hs => ⟨rfl, hs⟩
  induction e with
  | var name =>
      have h : Simulates (Agrees backend calls stack es env) (lookupValue name)
          (denoteVar env name) (Same (Agrees backend calls stack es env)) :=
        simulates_lookupValue (hbound name (Expr.mem_subexprs_self _))
      exact ⟨h, hsingleton h⟩
  | const value elem => exact ⟨.of_liftM, hsingleton .of_liftM⟩
  | unary op value ih =>
      have hpart : value ∈ (Expr.unary op value).subexprs :=
        List.mem_cons_of_mem _ (Expr.mem_subexprs_self value)
      obtain ⟨hvalue, -⟩ := ih (hoccurs.part hpart) fun name hname =>
        hbound name (Expr.mem_subexprs_trans hname hpart)
      cases op with
      | neg =>
          have h := hvalue.bind_same fun v => Simulates.of_liftM (x := backend.neg v)
          exact ⟨h, hsingleton h⟩
  | binary op lhs rhs ihl ihr =>
      have hpartl : lhs ∈ (Expr.binary op lhs rhs).subexprs :=
        List.mem_cons_of_mem _ (List.mem_append_left _ (Expr.mem_subexprs_self lhs))
      have hpartr : rhs ∈ (Expr.binary op lhs rhs).subexprs :=
        List.mem_cons_of_mem _ (List.mem_append_right _ (Expr.mem_subexprs_self rhs))
      obtain ⟨hlhs, -⟩ := ihl (hoccurs.part hpartl) fun name hname =>
        hbound name (Expr.mem_subexprs_trans hname hpartl)
      obtain ⟨hrhs, -⟩ := ihr (hoccurs.part hpartr) fun name hname =>
        hbound name (Expr.mem_subexprs_trans hname hpartr)
      have h := hlhs.bind_same fun l => hrhs.bind_same fun r =>
        Simulates.of_liftM (x := backend.binary op l r)
      exact ⟨h, hsingleton h⟩
  | node nodeId value ih =>
      have hpart := Expr.mem_subexprs_node nodeId (Expr.mem_subexprs_self value)
      obtain ⟨hvalue, hvalues⟩ := ih (hoccurs.part hpart) fun name hname =>
        hbound name (Expr.mem_subexprs_trans hname hpart)
      exact ⟨simulates_lowerNode hnodes hoccurs hvalue
        (keeps_lowerBoth backend hframe value).1, hvalues⟩
  | tupleGet tupleId value index ih =>
      have hpart : value ∈ (Expr.tupleGet tupleId value index).subexprs :=
        List.mem_cons_of_mem _ (Expr.mem_subexprs_self value)
      obtain ⟨-, hvalues⟩ := ih (hoccurs.part hpart) fun name hname =>
        hbound name (Expr.mem_subexprs_trans hname hpart)
      have h := simulates_lowerTupleGet htuples hoccurs hvalues
        (keeps_lowerBoth backend hframe value).2
      exact ⟨h, hsingleton h⟩
  | call op args ih =>
      have hpart : ∀ arg ∈ args, arg ∈ (Expr.call op args).subexprs := fun arg harg =>
        List.mem_cons_of_mem _
          (Expr.mem_subexprsList.mpr ⟨arg, harg, Expr.mem_subexprs_self arg⟩)
      have hargs : Simulates (Agrees backend calls stack es env)
          (lowerArgs backend inline args) (denoteArgs backend calls env args)
          (Same (Agrees backend calls stack es env)) := by
        have hone : ∀ arg ∈ args, Simulates (Agrees backend calls stack es env)
            (lowerBoth backend inline arg).1 (denoteBoth backend calls env arg).1
            (Same (Agrees backend calls stack es env)) := fun arg harg =>
          (ih arg harg (hoccurs.part (hpart arg harg)) fun name hname =>
            hbound name (Expr.mem_subexprs_trans hname (hpart arg harg))).1
        clear ih hoccurs hbound hpart
        induction args with
        | nil => exact .of_pure fun s hs => ⟨rfl, hs⟩
        | cons arg args iha =>
            refine (hone arg (List.mem_cons_self ..)).bind_same fun value => ?_
            exact (iha fun a ha => hone a (List.mem_cons_of_mem _ ha)).bind_same fun values =>
              .of_pure fun s hs => ⟨rfl, hs⟩
      have h := simulates_lowerCallValues backend hcalls op args hargs
      exact ⟨h.bind_same fun values => .of_liftM, h⟩

/-! ## Lets and bodies -/

/-- More bindings: the state agrees when the names get the same values on both
sides and had none in the environment. -/
theorem Agrees.bindNames (h : Agrees backend calls stack es env s) {names : List String}
    (hnew : ∀ name ∈ names, env name = none) (values : List ν)
    (hs' : s' = { s with values := Knok.bindNames s.values names values }) :
    Agrees backend calls stack es (Knok.bindNames env names values) s' := by
  subst hs'
  have hext := extends_bindNames hnew values
  refine ⟨h.callStack, h.opened, h.fresh, h.values.bindNames names values, ?_, ?_⟩
  · intro nodeId value hvalue payload hoccurs
    exact (denoteBoth_mono hext payload).1 _ (h.nodes nodeId value hvalue payload hoccurs)
  · intro tupleId others hothers payload index hoccurs
    exact (denoteBoth_mono hext payload).2 _
      (h.tuples tupleId others hothers payload index hoccurs)

/-- Inserting one by one is binding, next to remembering. -/
theorem insertValues_fst (names : List String) (values : List ν) :
    ∀ p : LowererState ν × Overwritten ν,
      (insertValues names values p).1 =
        { p.1 with values := Knok.bindNames p.1.values names values } := by
  unfold insertValues Knok.bindNames
  induction names.zip values with
  | nil => intro p; rfl
  | cons binding bindings ih =>
      intro p
      rw [List.foldl_cons, ih, List.foldl_cons]
      rfl

/-- A lowering step inside an expansion. -/
theorem simulates_lift {α β : Type} {P : LowererState ν → Prop} {m : LowerM ν α}
    {d : Except Error β} {Q : α → β → LowererState ν → Prop} (h : Simulates P m d Q) :
    Simulates (fun p : LowererState ν × Overwritten ν => P p.1) (InlineM.lift m) d
      (fun a b p => Q a b p.1) := by
  rintro ⟨s, overwritten⟩ hs
  rw [exec_lift]
  obtain ⟨a, b, s', hrun, hd, hQ⟩ | ⟨e, s', hrun, hd⟩ := h s hs
  · rw [hrun]
    exact .inl ⟨a, b, (s', overwritten), rfl, hd, hQ⟩
  · rw [hrun]
    exact .inr ⟨e, (s', overwritten), rfl, hd⟩

end Simulation

/-- The names of a list of lets are bound once, after `names`, and every
variable refers to a name that is bound by then; so does every variable of
`body` at the end. -/
def LetsScoped : List String → List Binding → List Expr → Prop
  | names, [], body => ∀ e ∈ body, ∀ name, Expr.var name ∈ e.subexprs → name ∈ names
  | names, binding :: lets, body =>
      (∀ name, Expr.var name ∈ binding.2.subexprs → name ∈ names) ∧
        (∀ name ∈ binding.1, name ∉ names) ∧ LetsScoped (names ++ binding.1) lets body

/-- A graph whose tables can be trusted: ids have one payload, and names are
bound once and before they are used. -/
structure Inlinable (graph : TypedGraph) : Prop where
  nodes : SharedNodes graph.exprs
  tuples : SharedTuples graph.exprs
  wellScoped : LetsScoped (graph.inputs.map Input.name) (graph.lets.map TypedLet.binding)
    (graph.body.map TypedExpr.kind)

section Graphs

variable {backend : Backend ν} {calls : String → List ν → Except Error (List ν)}
  {inline : String → List ν → LowerM ν (List ν)} {stack : List String} {es : List Expr}

theorem simulates_bindValues {env : Env ν} {names bound : List String}
    (hbinds : Env.Binds env names) (hnew : ∀ name ∈ bound, name ∉ names)
    (values : List ν) :
    Simulates (fun p : LowererState ν × Overwritten ν => Agrees backend calls stack es env p.1)
      (bindValues bound values) (denoteBinding env bound values)
      (fun _ env' p => Agrees backend calls stack es env' p.1 ∧
        Env.Binds env' (names ++ bound)) := by
  unfold bindValues denoteBinding
  by_cases hlen : bound.length = values.length
  · rw [if_neg (not_not.mpr hlen), if_neg (not_not.mpr hlen)]
    intro p hp
    refine .inl ⟨⟨⟩, _, insertValues bound values p, rfl, rfl, ?_, hbinds.bindNames hlen⟩
    exact hp.bindNames (fun name hname => hbinds.eq_none (hnew name hname)) values
      (insertValues_fst bound values p)
  · rw [if_pos hlen, if_pos hlen]
    exact .of_throw

/-- The loop over the lets: every let finds the environment that binds the names
before it. -/
theorem simulates_lowerLets (hnodes : SharedNodes es) (htuples : SharedTuples es)
    (hframe : ∀ name args, Keeps Framed (inline name args))
    (hcalls : ∀ env name args, Simulates (Agrees backend calls stack es env)
      (inline name args) (calls name args) (Same (Agrees backend calls stack es env)))
    {body : List Expr} {lets : List Binding} :
    ∀ {names : List String} {env : Env ν}, (∀ binding ∈ lets, binding.2 ∈ es) →
      LetsScoped names lets body → Env.Binds env names →
      Simulates
        (fun p : LowererState ν × Overwritten ν => Agrees backend calls stack es env p.1)
        (lowerLets backend inline lets) (denoteLets backend calls env lets)
        (fun _ env' p => Agrees backend calls stack es env' p.1 ∧
          ∀ e ∈ body, ∀ name, Expr.var name ∈ e.subexprs → ∃ value, env' name = some value) := by
  induction lets with
  | nil =>
      intro names env _ hscoped hbinds
      refine .of_pure fun p hp => ⟨hp, fun e he name hname => ?_⟩
      exact (hbinds name).mpr (hscoped e he name hname)
  | cons binding lets ih =>
      intro names env hmem hscoped hbinds
      obtain ⟨hvars, hnew, hrest⟩ := hscoped
      have hvalue := (simulates_lowerBoth hnodes htuples hframe (hcalls env) binding.2
        ⟨_, hmem binding (List.mem_cons_self ..), Expr.mem_subexprs_self _⟩
        fun name hname => (hbinds name).mpr (hvars name hname)).2
      rw [lowerLets, denoteLets]
      refine (simulates_lift hvalue).bind fun values _ => ?_
      rintro p ⟨rfl, hp⟩
      refine Simulates.bind (simulates_bindValues hbinds hnew values) (fun _ env' => ?_) p hp
      rintro p' ⟨hp', hbinds'⟩
      exact ih (fun b hb => hmem b (List.mem_cons_of_mem _ hb)) hrest hbinds' p' hp'

/-- A whole expansion: the lets, then the body. -/
theorem simulates_lowerGraphBody {graph : TypedGraph} (hgraph : Inlinable graph)
    (hframe : ∀ name args, Keeps Framed (inline name args))
    (hcalls : ∀ env name args, Simulates (Agrees backend calls stack graph.exprs env)
      (inline name args) (calls name args)
      (Same (Agrees backend calls stack graph.exprs env)))
    {env : Env ν} (hbinds : Env.Binds env (graph.inputs.map Input.name)) :
    Simulates
      (fun p : LowererState ν × Overwritten ν =>
        Agrees backend calls stack graph.exprs env p.1)
      (lowerGraphBody backend inline graph) (denoteGraphBody backend calls graph env)
      (Same fun p => FreshScopes p.1) := by
  have hlet : ∀ binding ∈ graph.lets.map TypedLet.binding, binding.2 ∈ graph.exprs := by
    intro binding hbinding
    obtain ⟨typedLet, hmem, rfl⟩ := List.mem_map.mp hbinding
    exact List.mem_append_left _ (List.mem_map.mpr ⟨typedLet, hmem, rfl⟩)
  have hlets := simulates_lowerLets hgraph.nodes hgraph.tuples hframe hcalls hlet
    hgraph.wellScoped hbinds
  refine hlets.bind fun _ env' => ?_
  rintro p ⟨hp, hbound⟩
  have hbody : Simulates (Agrees backend calls stack graph.exprs env')
      (lowerBodyOutputs backend inline graph.body graph.outputs)
      (denoteBodyOutputs backend calls env' graph.body graph.outputs)
      (Same (Agrees backend calls stack graph.exprs env')) := by
    unfold lowerBodyOutputs denoteBodyOutputs
    by_cases hlen : graph.body.length = graph.outputs.length
    · rw [if_neg (not_not.mpr hlen), if_neg (not_not.mpr hlen)]
      refine .of_mapM fun typed htyped => ?_
      have hkind : typed.1.kind ∈ graph.body.map TypedExpr.kind :=
        List.mem_map_of_mem (List.of_mem_zip htyped).1
      have hexpr := (simulates_lowerBoth hgraph.nodes hgraph.tuples hframe (hcalls env')
        typed.1.kind ⟨_, List.mem_append_right _ hkind, Expr.mem_subexprs_self _⟩
        (hbound _ hkind)).1
      exact hexpr.bind_same fun value => .of_liftM
    · rw [if_pos hlen, if_pos hlen]
      exact .of_throw
  exact (simulates_lift hbody).weaken (fun _ h => h) (fun _ _ p h => ⟨h.1, h.2.fresh⟩) p hp

theorem resolveCall_eq_ok {graphs : Registry} {name : String} {arity : ℕ}
    {graph : TypedGraph} (h : resolveCall graphs stack name arity = .ok graph) :
    name ∉ stack ∧ graphs.get name = some graph ∧ graph.inputs.length = arity := by
  unfold resolveCall at h
  by_cases hstack : name ∈ stack
  · rw [if_pos hstack] at h
    cases h
  · rw [if_neg hstack] at h
    cases hget : graphs.get name with
    | none => rw [hget] at h; cases h
    | some found =>
        rw [hget] at h
        by_cases hlen : found.inputs.length = arity
        · simp only [hlen, ne_eq, not_true_eq_false, ↓reduceIte, Except.ok.injEq] at h
          exact ⟨hstack, congrArg some h, h ▸ hlen⟩
        · simp only [hlen, ne_eq, not_false_eq_true, ↓reduceIte, reduceCtorEq] at h

/-- The state in which a callee starts agrees with the callee's own environment. -/
theorem agrees_pushInlineScope (graph : TypedGraph) (args : List ν) {s : LowererState ν}
    (name : String) (hstack : s.callStack = stack) (hfresh : FreshScopes s) :
    Agrees backend calls (name :: stack) es (inputEnv graph args)
      (insertValues (graph.inputs.map Input.name) args (pushInlineScope name s, [])).1 := by
  rw [insertValues_fst]
  have hnone : ∀ id, s.nodeValues (s.nextTupleScope, id) = none ∧
      s.tupleValues (s.nextTupleScope, id) = none := fun id => hfresh _ le_rfl
  refine ⟨congrArg (name :: ·) hstack, Nat.lt_succ_self _, ?_, ?_, ?_, ?_⟩
  · intro key hkey
    exact hfresh key ((Nat.le_succ _).trans hkey)
  · have hempty : Env.Extends (fun _ => none) s.values := by
      intro name value hvalue
      cases hvalue
    exact hempty.bindNames (graph.inputs.map Input.name) args
  · intro nodeId value hvalue
    have hentry : s.nodeValues (s.nextTupleScope, nodeId) = some value := hvalue
    rw [(hnone nodeId).1] at hentry
    cases hentry
  · intro tupleId values hvalues
    have hentry : s.tupleValues (s.nextTupleScope, tupleId) = some values := hvalues
    rw [(hnone tupleId).2] at hentry
    cases hentry

/-- **Expanding a call computes the call's denotation**, from every state that has
nothing in unopened scopes. -/
theorem simulates_inlineGraphValues {graphs : Registry}
    (hgraphs : ∀ name graph, graphs.get name = some graph → Inlinable graph) (depth : ℕ) :
    ∀ stack name args,
      Simulates (fun s : LowererState ν => s.callStack = stack ∧ FreshScopes s)
        (inlineGraphValues backend graphs depth name args)
        (denoteCall backend graphs depth stack name args) (Same FreshScopes) := by
  induction depth with
  | zero =>
      intro stack name args s hs
      rw [inlineGraphValues, denoteCall, exec_get_bind, hs.1]
      cases resolveCall graphs stack name args.length with
      | error e => exact .inr ⟨e, s, rfl, rfl⟩
      | ok graph => exact .inr ⟨_, s, rfl, rfl⟩
  | succ depth ih =>
      intro stack name args s hs
      rw [inlineGraphValues, denoteCall, exec_get_bind, hs.1]
      cases hresolve : resolveCall graphs stack name args.length with
      | error e => exact .inr ⟨e, s, rfl, rfl⟩
      | ok graph =>
          obtain ⟨-, hget, hlen⟩ := resolveCall_eq_ok hresolve
          have hframe : ∀ callee values,
              Keeps Framed (inlineGraphValues backend graphs depth callee values) :=
            fun callee values t => (keeps_inlineGraphValues backend graphs depth callee
              values t).framed
          have hcalls : ∀ env callee values,
              Simulates
                (Agrees backend (denoteCall backend graphs depth (name :: stack))
                  (name :: stack) graph.exprs env)
                (inlineGraphValues backend graphs depth callee values)
                (denoteCall backend graphs depth (name :: stack) callee values)
                (Same (Agrees backend (denoteCall backend graphs depth (name :: stack))
                  (name :: stack) graph.exprs env)) := by
            intro env callee values
            exact (ih (name :: stack) callee values).with_keeps
              (keeps_inlineGraphValues backend graphs depth callee values)
              (fun t ht => ⟨ht.callStack, ht.fresh⟩)
              fun t a b t' ht hrestored hab => ⟨hab.1, ht.of_restored hrestored hab.2⟩
          have hbody := simulates_lowerGraphBody (hgraphs name graph hget) hframe hcalls
            (binds_inputEnv hlen) _
            (agrees_pushInlineScope graph args name hs.1 hs.2)
          rw [exec_bind_ok (exec_liftM (.ok graph) s)]
          obtain ⟨values, _, p, hrun, hdenote, rfl, hfresh⟩ | ⟨e, p, hrun, hdenote⟩ := hbody
          · refine .inl ⟨values, values, _, exec_withInlineScope hrun, hdenote, rfl, ?_⟩
            intro key hkey
            obtain ⟨hnode, htuple⟩ := hfresh key hkey
            exact ⟨ite_eq_left_iff.mpr fun _ => hnode, ite_eq_left_iff.mpr fun _ => htuple⟩
          · exact .inr ⟨e, _, exec_withInlineScope hrun, hdenote⟩

/-- **Lowering a graph computes its denotation**, results and errors. -/
theorem lowerGraph_eq_denoteGraph {graphs : Registry} {graph : TypedGraph}
    (hgraphs : ∀ name callee, graphs.get name = some callee → Inlinable callee)
    (hgraph : Inlinable graph) {args : List ν} (hlen : args.length = graph.inputs.length) :
    lowerGraph backend graphs graph args = denoteGraph backend graphs graph args := by
  have hcalls : ∀ env callee values,
      Simulates
        (Agrees backend (denoteCall backend graphs graphs.length [graph.name])
          [graph.name] graph.exprs env)
        (inlineGraphValues backend graphs graphs.length callee values)
        (denoteCall backend graphs graphs.length [graph.name] callee values)
        (Same (Agrees backend (denoteCall backend graphs graphs.length [graph.name])
          [graph.name] graph.exprs env)) := by
    intro env callee values
    exact (simulates_inlineGraphValues hgraphs graphs.length [graph.name] callee
      values).with_keeps (keeps_inlineGraphValues backend graphs graphs.length callee values)
      (fun t ht => ⟨ht.callStack, ht.fresh⟩)
      fun t a b t' ht hrestored hab => ⟨hab.1, ht.of_restored hrestored hab.2⟩
  have hinitial : Agrees backend (denoteCall backend graphs graphs.length [graph.name])
      [graph.name] graph.exprs (inputEnv graph args) (LowererState.initial graph args) := by
    refine ⟨rfl, Nat.zero_lt_one, fun key hkey => ⟨rfl, rfl⟩, fun _ _ h => h, ?_, ?_⟩
    · intro nodeId value hvalue
      cases hvalue
    · intro tupleId values hvalues
      cases hvalues
  exact (simulates_lowerGraphBody hgraph (fun callee values t =>
    (keeps_inlineGraphValues backend graphs graphs.length callee values t).framed) hcalls
    (binds_inputEnv hlen.symm)).result_eq hinitial

end Graphs

end Knok
