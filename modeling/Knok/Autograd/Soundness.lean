import Mathlib
import Knok.Autograd.Denotation
import Knok.Autograd.Sweep

/-!
# Value-and-gradient graphs compute gradients

A graph that depends on exact ring arithmetic only is evaluated on moving arguments.
Its value-and-gradient graph, on the arguments at rest, returns the loss together
with gradients whose pairing with the tangents of the arguments is the tangent of
the loss (`valueAndGradGraph_differentiates`).  Lets, shared values and calls of
other graphs are covered, since both graphs are evaluated as a whole.

### Design decisions

* **Three evaluations.**  The lets of the generated graph hold for numbers, for dual
  numbers and for marks (`Runs`), over one environment of types.
* **The sweep is the link.**  What is pending starts as the pairing of the seed with
  the loss and ends as the pairing of the gradients with the inputs.
-/

namespace Knok.Autograd

open Arrays Control

universe u

variable {R : Type u} [CommRing R] {A : Arithmetic R}

/-! ## The lets hold in three ways -/

/-- The lets hold for numbers, for dual numbers and for marks, on moving arguments. -/
structure Runs (F : Moving A) (graph : TypedGraph) (lets : List Let)
    (xs : List (Tensor (DualNumber R))) : Prop where
  values : Hold A.semantics F.types F.values lets
  duals : Hold A.dualSemantics F.types F.duals lets
  marks : Hold ringMarks F.types F.marked lets
  inputTypes : Env.Extends (inputEnv graph (graph.inputs.map Input.ty)) F.types
  inputDuals : Env.Extends (inputEnv graph xs) F.duals
  inputMarks : Env.Extends (inputEnv graph (markedInputs graph)) F.marked

theorem Runs.of_prefix {F : Moving A} {graph : TypedGraph} {lets lets' : List Let}
    {xs : List (Tensor (DualNumber R))} (h : Runs F graph lets' xs) (hgrows : lets <+: lets') :
    Runs F graph lets xs :=
  { h with
    values := h.values.of_prefix hgrows
    duals := h.duals.of_prefix hgrows
    marks := h.marks.of_prefix hgrows }

/-- **A generated graph on moving arguments**, and on the arguments at rest. -/
theorem exists_runs {graph typed : TypedGraph} {built : Graph} {graphs : Registry} {s : Builder}
    (hnames : graph.NoRebinding)
    (hbuild : (buildGraph graphs graph).run (.initial graph) = .ok (built, s))
    (hcheck : typeCheck built [] = .ok typed) {xs : List (Tensor (DualNumber R))}
    (hxs : xs.map Tensor.ty = graph.inputs.map Input.ty) :
    ∃ F : Moving A, Runs F graph built.lets xs ∧
      evalLets A.semantics.interp noCalls (inputEnv graph (xs.map Tensor.primal))
        (typed.lets.map TypedLet.binding) = some F.values ∧
      ∀ e ∈ typed.body, evalTensor typeInterp noCalls F.types e.kind = some e.ty := by
  have hprimal : (xs.map Tensor.primal).map Tensor.ty = graph.inputs.map Input.ty := by
    rw [List.map_map, ← hxs]
    rfl
  have hmarked : (markedInputs graph).map Prod.fst = graph.inputs.map Input.ty := by
    rw [markedInputs, List.map_map]
    rfl
  obtain ⟨types, values, htypes, hvalues, -, hhold, hextTypes, -, hbody⟩ :=
    exists_finalEnv A.semantics hnames hbuild hcheck hprimal
  obtain ⟨types', duals, htypes', hduals, hdualsTyped, hholdDuals, -, hextDuals, -⟩ :=
    exists_finalEnv A.dualSemantics hnames hbuild hcheck hxs
  obtain ⟨types'', marked, htypes'', -, hmarkedTyped, hholdMarks, -, hextMarks, -⟩ :=
    exists_finalEnv ringMarks hnames hbuild hcheck hmarked
  -- the types do not depend on the arguments
  obtain rfl := Option.some.inj (htypes'.symm.trans htypes)
  obtain rfl := Option.some.inj (htypes''.symm.trans htypes)
  have hstart : ∀ name, (inputEnv graph xs name).map Tensor.primal =
      inputEnv graph (xs.map Tensor.primal) name :=
    OpSemantics.Hom.bindNames (graph.inputs.map Input.name) xs fun _ => rfl
  exact ⟨⟨_, values, duals, marked, hdualsTyped, hmarkedTyped,
    A.primalHom.evalLets _ hstart hduals hvalues⟩,
    ⟨hhold, hholdDuals, hholdMarks, hextTypes, hextDuals, hextMarks⟩, hvalues, hbody⟩

/-! ## The loss -/

/-- **The loss of the original graph** is followed under its name. -/
theorem Runs.loss {F : Moving A} {graph : TypedGraph} {graphs : Registry} {ty : TensorType}
    {mid : Builder} {xs : List (Tensor (DualNumber R))} (hgraph : Callable graph)
    (hgraphs : ∀ name callee, graphs.get name = some callee → Callable callee)
    (hvalid : validateGraph graph = .ok ()) (hexact : RingExact graph graphs)
    (hflat : (flattenLoss graphs graphs.length graph).run (.initial graph) = .ok (ty, mid))
    (hruns : Runs F graph mid.lets xs) (hxs : xs.map Tensor.ty = graph.inputs.map Input.ty) :
    ∃ loss, evalGraph A.dualSemantics.interp (callsAt A.dualSemantics.interp graphs graphs.length)
        graph xs = some [loss] ∧ F.Follows (.var (valueName graph)) loss ∧ loss.ty = ty ∧
      Env.Extends mid.env F.types := by
  have hscoped := fun name callee hget => (hgraphs name callee hget).letsScoped
  have hlen : graph.inputs.length = xs.length := by
    simpa using (congrArg List.length hxs).symm
  have hlenMarks : graph.inputs.length = (markedInputs graph).length := by
    rw [markedInputs, List.length_map]
  obtain ⟨e, rest, duals, loss, hbody, hduals, hloss, hname, hext⟩ := flattenLoss_final
    graphs.length F.duals_typed hscoped hgraph.letsScoped hflat hruns.duals hruns.inputTypes hlen
    hruns.inputDuals
  obtain rfl := body_eq_singleton hgraph.accepted hvalid hbody
  obtain ⟨e', rest', marked, mark, hbody', hmarked, hmark, hmarkName⟩ := flattenLoss_denotes
    graphs.length F.marked_typed hscoped hgraph.letsScoped hflat hruns.marks hruns.inputTypes
    hlenMarks hruns.inputMarks
  obtain ⟨rfl, rfl⟩ := List.cons.inj (hbody.symm.trans hbody')
  -- the mark of the loss is that of the only output
  obtain ⟨tys, htys⟩ := hexact
  rw [evalGraph, if_pos hlenMarks, hmarked] at htys
  change graph.body.mapM _ = _ at htys
  rw [hbody, List.mapM_cons, hmark] at htys
  obtain ⟨lossTy, -, rfl⟩ := List.map_eq_singleton_iff.mp (Option.some.inj htys).symm
  obtain ⟨_, _, _, _, _, -, -, -, -, rfl⟩ := flattenLoss_eq_ok hflat
  have htype : F.types (valueName graph) = some ty := hext _ _ (Function.update_self ..)
  obtain ⟨loss', hloss', hlossTy⟩ := F.duals_typed _ _ htype
  obtain rfl := Option.some.inj (hloss'.symm.trans hname)
  obtain ⟨mark', hmark', hmarkTy⟩ := F.marked_typed _ _ htype
  obtain rfl := Option.some.inj (hmark'.symm.trans hmarkName)
  subst hlossTy
  refine ⟨loss', ?_, ⟨?_, ?_, ?_⟩, rfl, hext⟩
  · rw [evalGraph, if_pos hlen, hduals]
    show graph.body.mapM _ = _
    rw [hbody, List.mapM_cons, hloss]
    rfl
  · rw [evalTensor_var, htype]
    rfl
  · rw [evalTensor_var, hname]
  · rw [evalTensor_var, hmarkName]
    exact congrArg some (Prod.ext hmarkTy rfl)

/-! ## The forward nodes -/

namespace Moving

variable {F : Moving A} {env : Env TensorType} {node : Node}

/-- A let whose node is marked and has a rule binds one name. -/
theorem names_eq_singleton {names : List String} {ty : TensorType} {grad : Expr}
    {cs : List (Expr × Expr)} (hsolves : Solves ringMarks.interp noCalls F.marked (names, node.expr))
    (hname : node.name ∈ names) (hmark : F.marked node.name = some (ty, true))
    (hfloat : node.ty.elem.isFloat = true) (hok : nodeContributions env node grad = .ok cs) :
    names = [node.name] := by
  obtain ⟨outs, houts, hnames⟩ := hsolves
  have hone : ∃ v, outs = [v] := by
    -- only a call may have several outputs
    obtain ⟨name, e, nodeTy⟩ := node
    dsimp only at houts
    cases e with
    | var _ | const _ _ | unary _ _ | binary _ _ _ =>
        simp only [evalOutputs, Option.bind_eq_bind, Option.bind_eq_some_iff] at houts
        grind
    | node nodeId value => cases hok
    | tupleGet tupleId value index => cases hok
    | call op args =>
        have hsplit : ∀ axis sections, op ≠ .split axis sections := by
          rintro axis sections rfl
          simp [nodeContributions, reverseCall, callStopsGradient, hfloat] at hok
        rcases op.eq_graph_or with ⟨callee, rfl⟩ | hop
        · rw [evalOutputs_graph] at houts
          cases hargs : evalArgs ringMarks.interp noCalls F.marked args <;>
            rw [hargs] at houts <;> cases houts
        rw [evalOutputs_call _ _ _ hop] at houts
        obtain ⟨vs, -, houts⟩ := Option.bind_eq_some_iff.mp houts
        change markedResults _ op vs = some outs at houts
        rw [markedResults_of_ne_split hsplit] at houts
        obtain ⟨tys, htys, rfl⟩ := Option.map_eq_some_iff.mp houts
        -- the mark of the name is the mark of every output
        have hmem := List.mem_map_of_mem (f := F.marked) hname
        rw [hnames, hmark] at hmem
        obtain ⟨out, hout, heq⟩ := List.mem_map.mp hmem
        obtain ⟨outTy, -, rfl⟩ := List.mem_map.mp hout
        have hall := (Prod.mk.inj (Option.some.inj heq)).2
        simp only [Bool.and_eq_true] at hall
        obtain ⟨-, -, hsingle⟩ := exists_of_ringOp hall.1.1 (except_toOption_eq_some_iff.mp htys)
        obtain ⟨result, rfl⟩ := hsingle hsplit
        exact ⟨_, rfl⟩
  obtain ⟨v, rfl⟩ := hone
  obtain ⟨single, rfl, -⟩ := List.map_eq_singleton_iff.mp hnames
  rw [List.mem_singleton.mp hname]

/-- A node of a let that holds. -/
theorem solved_of_solves {names : List String} (hty : env node.name = some node.ty)
    (hname : node.name ∈ names)
    (htypes : Solves typeInterp noCalls F.types (names, node.expr))
    (hduals : Solves A.dualSemantics.interp noCalls F.duals (names, node.expr))
    (hmarks : Solves ringMarks.interp noCalls F.marked (names, node.expr)) :
    Solved F env node where
  typed := hty
  follows t grad cs ht hfloat hok := by
    have hmark := ht.marked
    rw [evalTensor_var] at hmark
    obtain rfl := names_eq_singleton hmarks hname hmark hfloat hok
    -- the value of the name is the value of the expression, for each evaluation
    have hsame : ∀ {V : Type u} {I : Interp V} {env : Env V} {v : V},
        Solves I noCalls env ([node.name], node.expr) →
        evalTensor I noCalls env (.var node.name) = some v →
        evalTensor I noCalls env node.expr = some v := by
      intro V I env v hsolves hv
      obtain ⟨w, hw, hvar⟩ := hsolves.singleton
      rw [evalTensor_var, hvar] at hv
      rw [hw, hv]
    obtain ⟨ty, hexpr, hvar⟩ := htypes.singleton
    have htyped := ht.typed
    rw [evalTensor_var, hvar] at htyped
    obtain ⟨mark, hmarkExpr, hmarkVar⟩ := hmarks.singleton
    rw [hmarkVar] at hmark
    exact ⟨hexpr.trans htyped, hsame hduals ht.dual, hmarkExpr.trans hmark⟩

end Moving

/-! ## The sweep of a forward pass -/

section Sweep

variable {F : Moving A} {graph : TypedGraph} {mid : Builder}
  {xs : List (Tensor (DualNumber R))}

theorem map_fst_letPairs (lets : List Let) :
    (letPairs lets).map Prod.fst = lets.flatMap Let.names := by
  rw [letPairs, List.map_flatMap]
  refine congrArg (fun f => lets.flatMap f) (funext fun binding => ?_)
  rw [List.map_map]
  exact List.map_id _

/-- The nodes of a forward pass have the names of its lets. -/
theorem Records.names (h : Records (.initial graph) mid) :
    mid.forwardNodes.map Node.name = mid.lets.flatMap Let.names := by
  obtain ⟨-, lets, nodes, hlets, hnodes, hpairs, -⟩ := h
  rw [hlets, hnodes]
  show ([] ++ nodes).map Node.name = ([] ++ lets).flatMap Let.names
  rw [List.nil_append, List.nil_append, ← map_fst_letPairs, hpairs, nodePairs, List.map_map]
  rfl

/-- A forward node has the recorded type, and a let of its expression. -/
theorem Records.node (h : Records (.initial graph) mid)
    (hnodup : (mid.lets.flatMap Let.names).Nodup) {node : Node} (hnode : node ∈ mid.forwardNodes) :
    mid.env node.name = some node.ty ∧
      ∃ binding ∈ mid.lets, node.name ∈ binding.names ∧ binding.value = node.expr := by
  rw [← h.names] at hnodup
  obtain ⟨-, lets, nodes, hlets, hnodes, hpairs, henv⟩ := h
  obtain rfl : mid.lets = lets := hlets
  obtain rfl : mid.forwardNodes = nodes := hnodes
  constructor
  · obtain ⟨k, hk⟩ := List.mem_iff_getElem?.mp hnode
    rw [henv]
    exact bindNames_getElem hnodup (k := k) (by rw [List.getElem?_map, hk]; rfl)
      (by rw [List.getElem?_map, hk]; rfl)
  · have hpair : (node.name, node.expr) ∈ letPairs mid.lets :=
      hpairs ▸ List.mem_map_of_mem (f := fun node : Node => (node.name, node.expr)) hnode
    obtain ⟨binding, hbinding, hname⟩ := List.mem_flatMap.mp hpair
    obtain ⟨name, hname, heq⟩ := List.mem_map.mp hname
    obtain ⟨rfl, hvalue⟩ := Prod.mk.inj heq
    exact ⟨binding, hbinding, hname, hvalue⟩

/-- **Every forward node is solved.** -/
theorem Runs.solved (hruns : Runs F graph mid.lets xs) (hrecords : Records (.initial graph) mid)
    (hnodup : (mid.lets.flatMap Let.names).Nodup) :
    ∀ node ∈ mid.forwardNodes, Moving.Solved F mid.env node := by
  intro node hnode
  obtain ⟨hty, ⟨names, value⟩, hbinding, hname, rfl⟩ := hrecords.node hnodup hnode
  exact Moving.solved_of_solves hty hname (hruns.values _ hbinding).1 (hruns.duals _ hbinding).2
    (hruns.marks _ hbinding).2

/-- **After the sweep** of a forward pass from the seed, the pairing of the pending
gradients of the inputs is the tangent of the loss. -/
theorem Runs.sweep {loss : Tensor (DualNumber R)} {ty : TensorType} {grads : Grads}
    (hone : ∀ elem, A.literal "1.0" elem = 1) (htwo : ∀ elem, A.literal "2.0" elem = 2)
    (hruns : Runs F graph mid.lets xs) (hrecords : Records (.initial graph) mid)
    (henv : Env.Extends mid.env F.types)
    (hnodup : (graph.inputs.map Input.name ++ mid.lets.flatMap Let.names).Nodup)
    (hscoped : LetsScoped (graph.inputs.map Input.name) (mid.lets.map Let.binding) [])
    (hvalue : valueName graph ∈ mid.lets.flatMap Let.names)
    (hloss : F.Follows (.var (valueName graph)) loss) (hty : loss.ty = ⟨ty.elem, []⟩)
    (hfloat : ty.elem.isFloat = true)
    (hok : reverseNodes mid.env mid.forwardNodes.reverse
      (Function.update mid.grads (valueName graph) (some (.const "1.0" ty.elem))) = .ok grads) :
    F.Pending grads (graph.inputs.map Input.name) ∧
      F.total grads (graph.inputs.map Input.name) = loss.tangent [] := by
  have hsolved := hruns.solved hrecords (List.nodup_append.mp hnodup).2.1
  rw [← hrecords.names] at hnodup hvalue
  have hnodes : NodesScoped (graph.inputs.map Input.name) mid.forwardNodes := by
    obtain ⟨-, lets, nodes, hlets, hnodes, hpairs, -⟩ := hrecords
    obtain rfl : mid.lets = lets := hlets
    obtain rfl : mid.forwardNodes = nodes := hnodes
    exact nodesScoped_of_letsScoped _ hpairs hscoped
  -- only the seed is pending at the beginning
  have hgrads : mid.grads = fun _ => none := hrecords.1
  have hseed : Evaluates A noCalls F.values (.const "1.0" ty.elem) loss.ty fun _ => 1 := by
    rw [hty, ← hone ty.elem]
    exact Evaluates.const A noCalls F.values "1.0" ty.elem
  have hmem : valueName graph ∈ graph.inputs.map Input.name ++ mid.forwardNodes.map Node.name :=
    List.mem_append_right _ hvalue
  have hpending : F.Pending
      (Function.update mid.grads (valueName graph) (some (.const "1.0" ty.elem)))
      (graph.inputs.map Input.name ++ mid.forwardNodes.map Node.name) := by
    have honly : ∀ name grad, Function.update mid.grads (valueName graph)
        (some (.const "1.0" ty.elem)) name = some grad →
        name = valueName graph ∧ grad = .const "1.0" ty.elem := by
      intro name grad h
      by_cases heq : name = valueName graph
      · rw [heq, Function.update_self, Option.some.injEq] at h
        exact ⟨heq, h.symm⟩
      · rw [Function.update_of_ne heq, hgrads] at h
        cases h
    constructor
    · intro name grad h
      obtain ⟨rfl, -⟩ := honly name grad h
      exact hmem
    · intro name grad h
      obtain ⟨rfl, rfl⟩ := honly name grad h
      exact ⟨loss, _, hloss, by rw [hty]; exact hfloat, hseed⟩
  obtain ⟨hlast, htotal⟩ :=
    Moving.reverseNodes_total htwo henv mid.forwardNodes hsolved hnodes hnodup hpending hok
  refine ⟨hlast, htotal.trans ?_⟩
  -- only the loss has a pending gradient
  have hself : F.pendingPairing (Function.update mid.grads (valueName graph)
      (some (.const "1.0" ty.elem))) (valueName graph) = 0 + loss.tangent [] := by
    rw [Moving.pendingPairing, Function.update_self, zero_add]
    refine (Moving.pairing_eq hseed hloss.dual).trans ?_
    rw [hty]
    show ∑ i ∈ box [], 1 * loss.tangent i = _
    rw [sum_box_nil, one_mul]
  have hother : ∀ name, name ≠ valueName graph →
      F.pendingPairing (Function.update mid.grads (valueName graph)
        (some (.const "1.0" ty.elem))) name = 0 := by
    intro name hname
    rw [Moving.pendingPairing, Function.update_of_ne hname, hgrads]
    rfl
  have hsum := sum_map_eq_add (f := fun _ => 0) hself hother hnodup hmem
  rw [Moving.total, hsum, List.map_const', List.sum_replicate, smul_zero, zero_add]

end Sweep

/-- Fewer lets. -/
theorem letsScoped_of_append {lets lets' : List Binding} {body : List Expr} :
    ∀ {names : List String}, LetsScoped names (lets ++ lets') body → LetsScoped names lets [] := by
  induction lets with
  | nil =>
      intro names _ e he
      cases he
  | cons binding lets ih =>
      rintro names ⟨hvars, hnew, hrest⟩
      exact ⟨hvars, hnew, ih hrest⟩

/-- The lets of the forward pass have distinct names, and read what is bound before. -/
theorem scoped_of_built {graph typed : TypedGraph} {built : Graph} {graphs : Registry}
    {s : Builder} {lets : List Let} (hnames : graph.NoRebinding)
    (hinputs : (graph.inputs.map Input.name).Nodup)
    (hbuild : (buildGraph graphs graph).run (.initial graph) = .ok (built, s))
    (hcheck : typeCheck built [] = .ok typed) (hgrows : lets <+: built.lets) :
    (graph.inputs.map Input.name ++ lets.flatMap Let.names).Nodup ∧
      LetsScoped (graph.inputs.map Input.name) (lets.map Let.binding) [] := by
  have hnames' := noRebinding_of_built hnames hbuild hcheck
  have hscoped := (wellTyped_of_typeCheck hcheck hnames').letsScoped hnames'
  have hsame := sameGraph_of_typeCheck hcheck
  have hflat := flatMap_names_eq hsame.lets
  have hsameInputs : typed.inputs = graph.inputs := by
    obtain ⟨_, _, _, _, -, -, -, rfl⟩ := buildGraph_eq_ok hbuild
    exact hsame.inputs
  rw [hsame.lets, hsameInputs] at hscoped
  have hnew := hnames'.inputs
  have hdistinct := hnames'.lets
  rw [hflat, hsameInputs] at hnew
  rw [hflat] at hdistinct
  obtain ⟨rest, hrest⟩ := hgrows
  rw [← hrest] at hscoped hnew hdistinct
  rw [List.flatMap_append] at hnew hdistinct
  rw [List.map_append] at hscoped
  refine ⟨List.nodup_append.mpr ⟨hinputs, (List.nodup_append.mp hdistinct).1, ?_⟩,
    letsScoped_of_append hscoped⟩
  rintro name hinput _ hlet rfl
  exact hnew name (List.mem_append_left _ hlet) hinput

/-! ## The gradient outputs -/

/-- Every gradient output is a let of what is pending for its input, or of zeros. -/
theorem gradientOutputs_binds (grads : Grads) (inputs : List Input) :
    ∀ {s s' : Builder} {gradients : List Expr}, (inputs.map Input.name).Nodup →
      (∀ input ∈ inputs, s.grads input.name = grads input.name) →
      (gradientOutputs inputs).run s = .ok (gradients, s') →
      s.lets <+: s'.lets ∧ List.Forall₂ (fun input e => ∃ name, e = Expr.var name ∧
        ⟨[name], (grads input.name).getD (zerosLike (.var input.name))⟩ ∈ s'.lets)
          inputs gradients := by
  induction inputs with
  | nil =>
      intro s s' gradients _ _ hrun
      cases stateT_pure_eq_ok_iff.mp hrun
      exact ⟨List.prefix_refl _, .nil⟩
  | cons input inputs ih =>
      intro s s' gradients hnodup hgrads hrun
      obtain ⟨hinput, hnodup⟩ := List.nodup_cons.mp hnodup
      obtain ⟨hfirstGrad, hrestGrads⟩ := List.forall_mem_cons.mp hgrads
      obtain ⟨e, mid, hfirst, hrest⟩ := stateT_bind_eq_ok_iff.mp hrun
      obtain ⟨rfl, rfl⟩ := Prod.mk.inj (Except.ok.inj hfirst)
      obtain ⟨rest, last, hrest, hdone⟩ := stateT_bind_eq_ok_iff.mp hrest
      cases stateT_pure_eq_ok_iff.mp hdone
      -- taking one gradient leaves those of the other inputs
      have hothers : ∀ other ∈ inputs,
          Function.update s.grads input.name none other.name = grads other.name := by
        intro other hother
        have hne : other.name ≠ input.name :=
          fun heq => hinput (heq ▸ List.mem_map_of_mem (f := Input.name) hother)
        rw [Function.update_of_ne hne, hrestGrads other hother]
      obtain ⟨hgrows, hlets⟩ := ih hnodup hothers hrest
      refine ⟨(List.prefix_append ..).trans hgrows, .cons ⟨_, rfl, ?_⟩ hlets⟩
      rw [← hfirstGrad]
      exact hgrows.subset (List.mem_append_right _ (List.mem_singleton_self _))

namespace Moving

variable {F : Moving A} {grads : Grads}

/-- A gradient output has the type of its input, and what was pending for it. -/
theorem gradient_of_let {input : Input} {x : Tensor (DualNumber R)} {name : String} {e : Expr}
    (he : e = (grads input.name).getD (zerosLike (.var input.name)))
    {names : List String} (hpending : F.Pending grads names)
    (hx : F.Follows (.var input.name) x)
    (hsolves : Solves A.semantics.interp noCalls F.values ([name], e)) :
    ∃ g, F.values name = some g ∧ g.ty = x.ty ∧
      F.pendingPairing grads input.name = Arrays.inner x.ty.shape g.entry x.tangent := by
  obtain ⟨g, hg, hname⟩ := hsolves.singleton
  refine ⟨g, hname, ?_⟩
  cases hgrad : grads input.name with
  | none =>
      rw [hgrad, Option.getD_none] at he
      subst he
      obtain ⟨g', hg', hty, hzero⟩ := hx.evaluates.zerosLike
      obtain rfl : g' = g := Option.some.inj
        ((OpSemantics.evalTensor_of_checked hg').symm.trans hg)
      refine ⟨hty, ?_⟩
      rw [pendingPairing, hgrad, inner_congr hzero fun _ _ => rfl, inner_comm,
        Arrays.inner_zero_right]
      rfl
  | some grad =>
      rw [hgrad, Option.getD_some] at he
      obtain ⟨x', g', hx', -, hvalue⟩ := hpending.receives _ _ hgrad
      obtain rfl := Option.some.inj (hx'.dual.symm.trans hx.dual)
      subst he
      obtain ⟨g'', hg'', hty, hentry⟩ := id hvalue
      obtain rfl : g'' = g := Option.some.inj
        ((OpSemantics.evalTensor_of_checked hg'').symm.trans hg)
      refine ⟨hty, ?_⟩
      rw [pendingPairing, hgrad]
      refine (pairing_eq hvalue hx.dual).trans ?_
      exact inner_congr (fun i hi => (hentry i hi).symm) fun _ _ => rfl

/-- Inputs that are not floats receive nothing. -/
theorem total_inputs {names : List String} (hpending : F.Pending grads names) {inputs : List Input}
    {xs : List (Tensor (DualNumber R))}
    (hxs : List.Forall₂ (fun input x => F.Follows (.var input.name) x ∧ x.ty = input.ty) inputs xs) :
    F.total grads (inputs.map Input.name) =
      ((inputs.filter fun input => input.ty.elem.isFloat).map fun input =>
        F.pendingPairing grads input.name).sum := by
  induction hxs with
  | nil => rfl
  | @cons input x inputs xs hfirst _ ih =>
      rw [total, List.map_cons, List.map_cons, List.sum_cons, List.filter_cons]
      rw [total] at ih
      split_ifs with hfloat
      · rw [List.map_cons, List.sum_cons, ih]
      · have hnone : F.pendingPairing grads input.name = 0 := by
          rw [pendingPairing]
          cases hgrad : grads input.name with
          | none => rfl
          | some grad =>
              obtain ⟨x', -, hx', hfloat', -⟩ := hpending.receives _ _ hgrad
              obtain rfl := Option.some.inj (hx'.dual.symm.trans hfirst.1.dual)
              exact absurd (hfirst.2 ▸ hfloat') hfloat
        rw [hnone, zero_add, ih]

/-- The gradient outputs, paired with the tangents of the float inputs. -/
theorem exists_gradients {names : List String} (hpending : F.Pending grads names) {lets : List Let}
    (hhold : Hold A.semantics F.types F.values lets) {inputs : List Input}
    {xs : List (Tensor (DualNumber R))}
    (hxs : List.Forall₂ (fun input x => F.Follows (.var input.name) x ∧ x.ty = input.ty) inputs xs) :
    ∀ {gradients : List Expr}, List.Forall₂ (fun input e => ∃ name, e = Expr.var name ∧
        ⟨[name], (grads input.name).getD (Autograd.zerosLike (.var input.name))⟩ ∈ lets)
          inputs gradients →
      ∃ gs, gradients.mapM (evalTensor A.semantics.interp noCalls F.values) = some gs ∧
        gs.map Tensor.ty = inputs.map Input.ty ∧
        (inputs.map fun input => F.pendingPairing grads input.name).sum =
          (List.zipWith (fun x g => Arrays.inner x.ty.shape g.entry x.tangent) xs gs).sum := by
  induction hxs with
  | nil =>
      intro gradients hbound
      cases hbound
      exact ⟨[], rfl, rfl, rfl⟩
  | cons hfirst _ ih =>
      intro gradients hbound
      cases hbound with
      | cons hlet hlets =>
          obtain ⟨name, rfl, hlet⟩ := hlet
          obtain ⟨g, hg, hty, hpairing⟩ := gradient_of_let rfl hpending hfirst.1 (hhold _ hlet).2
          obtain ⟨gs, hgs, htys, hsum⟩ := ih hlets
          refine ⟨g :: gs, ?_, ?_, ?_⟩
          · rw [List.mapM_cons, evalTensor_var, hg, hgs]
            rfl
          · rw [List.map_cons, List.map_cons, htys, hty, hfirst.2]
          · rw [List.map_cons, List.zipWith_cons_cons, List.sum_cons, List.sum_cons, hpairing, hsum]

end Moving

/-! ## The theorem -/

theorem input_of_extends {V : Type*} {graph : TypedGraph} {args : List V} {env : Env V}
    (hinputs : (graph.inputs.map Input.name).Nodup) (hext : Env.Extends (inputEnv graph args) env)
    {k : ℕ} {input : Input} {v : V} (hinput : graph.inputs[k]? = some input)
    (hv : args[k]? = some v) : env input.name = some v := by
  refine hext _ _ (bindNames_getElem hinputs (k := k) ?_ hv)
  rw [List.getElem?_map, hinput]
  rfl

/-- The inputs are followed. -/
theorem Runs.inputs {F : Moving A} {graph : TypedGraph} {lets : List Let}
    {xs : List (Tensor (DualNumber R))} (hruns : Runs F graph lets xs)
    (hinputs : (graph.inputs.map Input.name).Nodup)
    (hxs : xs.map Tensor.ty = graph.inputs.map Input.ty) :
    List.Forall₂ (fun input x => F.Follows (.var input.name) x ∧ x.ty = input.ty)
      graph.inputs xs := by
  have hlen : graph.inputs.length = xs.length := by
    simpa using (congrArg List.length hxs).symm
  refine List.forall₂_iff_get.mpr ⟨hlen, fun k hk hk' => ?_⟩
  have hinput : graph.inputs[k]? = some (graph.inputs.get ⟨k, hk⟩) := List.getElem?_eq_getElem hk
  have hx : xs[k]? = some (xs.get ⟨k, hk'⟩) := List.getElem?_eq_getElem hk'
  have hty : (xs.get ⟨k, hk'⟩).ty = (graph.inputs.get ⟨k, hk⟩).ty := by
    have h := congrArg (·[k]?) hxs
    simp only [List.getElem?_map, hinput, hx] at h
    exact Option.some.inj h
  refine ⟨⟨?_, ?_, ?_⟩, hty⟩
  · rw [evalTensor_var, hty]
    exact input_of_extends hinputs hruns.inputTypes hinput (by rw [List.getElem?_map, hinput]; rfl)
  · rw [evalTensor_var]
    exact input_of_extends hinputs hruns.inputDuals hinput hx
  · rw [evalTensor_var, hty]
    exact input_of_extends hinputs hruns.inputMarks hinput
      (by rw [markedInputs, List.getElem?_map, hinput]; rfl)

/-- The loss of a valid graph is a float of rank zero. -/
theorem lossTy_of_validateGraph {graph : TypedGraph} (h : graph.Accepted)
    (hvalid : validateGraph graph = .ok ()) {e : TypedExpr} {rest : List TypedExpr}
    (hbody : graph.body = e :: rest) :
    e.ty = ⟨e.ty.elem, []⟩ ∧ e.ty.elem.isFloat = true := by
  obtain ⟨source, graphSignatures, hcheck⟩ := h
  have hsame := sameGraph_of_typeCheck hcheck
  have htys : graph.body.map TypedExpr.ty = graph.outputs := hsame.tys.trans hsame.outputs.symm
  rw [hbody, List.map_cons] at htys
  unfold validateGraph at hvalid
  rw [← htys] at hvalid
  cases rest with
  | cons _ _ => cases hvalid
  | nil =>
      obtain ⟨lossTy, he⟩ : ∃ ty, e.ty = ty := ⟨_, rfl⟩
      rw [he] at hvalid ⊢
      by_cases hloss : lossTy.rank ≠ 0 ∨ lossTy.elem.isFloat = false
      · rw [List.map_nil] at hvalid
        simp only [if_pos hloss] at hvalid
        cases hvalid
      · push Not at hloss
        exact ⟨congrArg (TensorType.mk lossTy.elem) (List.length_eq_zero_iff.mp hloss.1),
          by simpa using hloss.2⟩

/-- Gradients of the float arguments, paired with the tangents of these. -/
def pairedTangents (xs : List (Tensor (DualNumber R))) (grads : List (Tensor R)) : R :=
  (List.zipWith (fun x g => inner x.ty.shape g.entry x.tangent)
    (xs.filter fun x => x.ty.elem.isFloat) grads).sum

/-- The generated graph returns the loss and, for every float input, a gradient; paired
with the tangents of the float arguments, the gradients give the tangent of the loss,
along every tangent. -/
def ComputesGradients (A : Arithmetic R) (graph : TypedGraph) (graphs : Registry) : Prop :=
  ∀ typed, valueAndGradGraphWithRegistry graph graphs = .ok typed →
    ∀ xs : List (Tensor (DualNumber R)), xs.map Tensor.ty = graph.inputs.map Input.ty →
      ∃ loss grads,
        evalGraph A.dualSemantics.interp (callsAt A.dualSemantics.interp graphs graphs.length)
          graph xs = some [loss] ∧
        evalGraph A.semantics.interp noCalls typed (xs.map Tensor.primal) =
          some (loss.primal :: grads) ∧
        grads.map Tensor.ty = (differentiableInputs graph).map Input.ty ∧
        loss.tangent [] = pairedTangents xs grads

/-- The generated graph of a graph that depends on exact ring arithmetic only. -/
theorem computesGradients_of_ringExact {graph : TypedGraph} {graphs : Registry}
    (hgraph : Callable graph)
    (hgraphs : ∀ name callee, graphs.get name = some callee → Callable callee)
    (hinputs : (graph.inputs.map Input.name).Nodup) (hexact : RingExact graph graphs)
    (hone : ∀ elem, A.literal "1.0" elem = 1) (htwo : ∀ elem, A.literal "2.0" elem = 2) :
    ComputesGradients A graph graphs := by
  intro typed h xs hxs
  obtain ⟨hvalid, built, s, hbuild, hcheck⟩ := valueAndGradGraph_eq_ok h
  obtain ⟨F, hruns, hvalues, hbody⟩ := exists_runs (A := A) hgraph.names hbuild hcheck hxs
  have hsame := sameGraph_of_typeCheck hcheck
  obtain ⟨ty, mid, pending, gradients, hflat, hsweep, hgradients, rfl⟩ := buildGraph_eq_ok hbuild
  have hrecords := records_flattenLoss graphs graphs.length graph _ _ _ hflat
  obtain ⟨e, rest, expr, last, mid', hlossBody, hlossTy, hlets, hexpr, hmid⟩ :=
    flattenLoss_eq_ok hflat
  obtain ⟨hscalar, hfloat⟩ := lossTy_of_validateGraph hgraph.accepted hvalid hlossBody
  rw [hlossTy] at hscalar hfloat
  -- the gradient outputs come after the lets of the forward pass
  have hnodupFloat : ((differentiableInputs graph).map Input.name).Nodup :=
    hinputs.sublist ((List.filter_sublist ..).map Input.name)
  obtain ⟨hgrows, hbound⟩ := gradientOutputs_binds pending (differentiableInputs graph)
    hnodupFloat (fun _ _ => rfl) hgradients
  have hforward : Runs F graph mid.lets xs := hruns.of_prefix hgrows
  obtain ⟨loss, hloss, hfollows, hty, hext⟩ :=
    hforward.loss hgraph hgraphs hvalid hexact hflat hxs
  obtain ⟨hnodup, hscoped⟩ := scoped_of_built hgraph.names hinputs hbuild hcheck hgrows
  have hvalue : valueName graph ∈ mid.lets.flatMap Let.names := by
    rw [hmid]
    exact List.mem_flatMap.mpr ⟨⟨[valueName graph], expr⟩,
      List.mem_append_right _ (List.mem_singleton_self _), List.mem_singleton_self _⟩
  obtain ⟨hpending, htotal⟩ := hforward.sweep hone htwo hrecords hext hnodup hscoped hvalue hfollows
    (hty.trans hscalar) hfloat hsweep
  -- only float inputs have gradients
  have hargs := hruns.inputs hinputs hxs
  have hfloats : List.Forall₂ (fun input x => F.Follows (.var input.name) x ∧ x.ty = input.ty)
      (differentiableInputs graph) (xs.filter fun x => x.ty.elem.isFloat) :=
    List.rel_filter (fun input x h => by dsimp only; rw [h.2]) hargs
  obtain ⟨grads, hgrads, htys, hsum⟩ :=
    Moving.exists_gradients hpending hruns.values hfloats hbound
  refine ⟨loss, grads, hloss, ?_, htys, ?_⟩
  · have hlen : typed.inputs.length = (xs.map Tensor.primal).length := by
      rw [hsame.inputs, List.length_map]
      simpa using (congrArg List.length hxs).symm
    have hbodyValues : (typed.body.map TypedExpr.kind).mapM
        (evalTensor A.semantics.interp noCalls F.values) = some (loss.primal :: grads) := by
      have hvalue : F.values (valueName graph) = some loss.primal := by
        have hdual := hfollows.dual
        rw [evalTensor_var] at hdual
        rw [← F.primal, hdual]
        rfl
      rw [hsame.body, List.mapM_cons, evalTensor_var, hvalue, hgrads]
      rfl
    rw [evalGraph, if_pos hlen, inputEnv_congr hsame.inputs]
    show (evalLets _ _ (inputEnv graph _) _).bind _ = _
    rw [hvalues]
    rw [List.mapM_map] at hbodyValues
    exact hbodyValues
  · rw [← htotal, Moving.total_inputs hpending hargs]
    exact hsum

/-- **Value-and-gradient graphs compute gradients.**  Of a graph that depends on exact
ring arithmetic only, the generated graph returns the loss and, for every float
input, a gradient; paired with the tangents of the float arguments, the gradients
give the tangent of the loss, along every tangent. -/
theorem valueAndGradGraph_differentiates {graph typed : TypedGraph} {graphs : Registry}
    (hgraph : Callable graph)
    (hgraphs : ∀ name callee, graphs.get name = some callee → Callable callee)
    (hinputs : (graph.inputs.map Input.name).Nodup) (hexact : RingExact graph graphs)
    (hone : ∀ elem, A.literal "1.0" elem = 1) (htwo : ∀ elem, A.literal "2.0" elem = 2)
    (h : valueAndGradGraphWithRegistry graph graphs = .ok typed)
    {xs : List (Tensor (DualNumber R))} (hxs : xs.map Tensor.ty = graph.inputs.map Input.ty) :
    ∃ loss grads,
      evalGraph A.dualSemantics.interp (callsAt A.dualSemantics.interp graphs graphs.length) graph xs =
        some [loss] ∧
      evalGraph A.semantics.interp noCalls typed (xs.map Tensor.primal) =
        some (loss.primal :: grads) ∧
      grads.map Tensor.ty = (differentiableInputs graph).map Input.ty ∧
      loss.tangent [] = pairedTangents xs grads :=
  computesGradients_of_ringExact hgraph hgraphs hinputs hexact hone htwo typed h xs hxs

/-- Integers, with the literals that gradients are made of. -/
def unitLiterals : Arithmetic ℤ :=
  ⟨fun value _ => if value = "2.0" then 2 else 1, fun _ _ => 0, fun _ _ _ _ => 0⟩

theorem nodup_inputs_callerGraph : (callerGraph.inputs.map Input.name).Nodup :=
  List.nodup_singleton _

theorem ringExact_callerGraph : RingExact callerGraph [("double", doubleGraph)] :=
  ⟨[⟨.f32, []⟩], by decide +kernel⟩

/-- The number three, moving at speed one. -/
def movingThree : Tensor (DualNumber ℤ) := Tensor.moving ⟨⟨.f32, []⟩, fun _ => 3⟩ fun _ => 1

/-- The square of the input goes through two calls, and is used once more. -/
theorem valueAndGradGraph_differentiates_callerGraph : ∃ typed,
    valueAndGradGraphWithRegistry callerGraph [("double", doubleGraph)] = .ok typed ∧
      ∃ loss grads,
        evalGraph unitLiterals.dualSemantics.interp
          (callsAt unitLiterals.dualSemantics.interp [("double", doubleGraph)] 1) callerGraph
            [movingThree] = some [loss] ∧
        evalGraph unitLiterals.semantics.interp noCalls typed [movingThree.primal] =
          some (loss.primal :: grads) ∧
        grads.map Tensor.ty = [⟨.f32, []⟩] ∧
        loss.tangent [] = pairedTangents [movingThree] grads := by
  have hsome : (valueAndGradGraphWithRegistry callerGraph
      [("double", doubleGraph)]).toOption.isSome = true := by decide +kernel
  obtain ⟨typed, htyped⟩ := Option.isSome_iff_exists.mp hsome
  have h := except_toOption_eq_some_iff.mp htyped
  exact ⟨typed, h, valueAndGradGraph_differentiates callable_callerGraph callable_registry
    nodup_inputs_callerGraph ringExact_callerGraph (fun _ => rfl) (fun _ => rfl) h rfl⟩

/-- **Value-and-gradient graphs of ring operations**, of lets and calls with distinct
names, compute gradients wherever the sizes are those of the type rules as numbers. -/
theorem computesGradients_of_sizesExact {graph : TypedGraph} {graphs : Registry}
    (hgraph : Callable graph)
    (hgraphs : ∀ name callee, graphs.get name = some callee → Callable callee)
    (hinputs : (graph.inputs.map Input.name).Nodup) (hops : graph.RingOps)
    (hcallees : ∀ name callee, graphs.get name = some callee → callee.RingOps)
    (hsizes : SizesExact graph graphs)
    (hone : ∀ elem, A.literal "1.0" elem = 1) (htwo : ∀ elem, A.literal "2.0" elem = 2) :
    ComputesGradients A graph graphs :=
  computesGradients_of_ringExact hgraph hgraphs hinputs
    (ringExact_of_sizesExact hops hcallees hsizes) hone htwo

theorem ringOps_callerGraph : callerGraph.RingOps := by decide

theorem ringOps_registry :
    ∀ name callee, Registry.get [("double", doubleGraph)] name = some callee →
      callee.RingOps := by
  intro name callee hget
  rw [Registry.get, List.lookup_cons] at hget
  split at hget
  · cases hget
    decide
  · cases hget

theorem computesGradients_callerGraph :
    ComputesGradients unitLiterals callerGraph [("double", doubleGraph)] :=
  computesGradients_of_sizesExact callable_callerGraph callable_registry
    nodup_inputs_callerGraph ringOps_callerGraph ringOps_registry
    ⟨[⟨.f32, []⟩], by decide +kernel⟩ (fun _ => rfl) fun _ => rfl

/-! ### A size that wraps -/

/-- The first element of an array of `2^64 + 1` elements, by a reshape: the element
counts agree modulo `2^64`. -/
def wideGraph : TypedGraph where
  name := "first"
  backend := "llvm-cpu"
  inputs := [⟨"x", ⟨.f32, [274177, 67280421310721]⟩⟩]
  outputs := [⟨.f32, []⟩]
  lets := []
  body := [⟨.call (.sum .all) [.call (.reshape ⟨.f32, [1]⟩) [.var "x"]], ⟨.f32, []⟩⟩]

/-- The value-and-gradient graph reshapes one element to `2^64 + 1`. -/
def wideGradient : TypedGraph where
  name := "first_value_and_grad"
  backend := "llvm-cpu"
  inputs := wideGraph.inputs
  outputs := [⟨.f32, []⟩, ⟨.f32, [274177, 67280421310721]⟩]
  lets := [
    ⟨["__knok_autograd_0"], ⟨.call (.reshape ⟨.f32, [1]⟩) [.var "x"], [⟨.f32, [1]⟩]⟩⟩,
    ⟨["__knok_autograd_1"], ⟨.call (.sum .all) [.var "__knok_autograd_0"], [⟨.f32, []⟩]⟩⟩,
    ⟨["__knok_autograd_value"], ⟨.var "__knok_autograd_1", [⟨.f32, []⟩]⟩⟩,
    ⟨["__knok_autograd_2"], ⟨.call (.reshape ⟨.f32, [274177, 67280421310721]⟩)
      [.call (.broadcast ⟨.f32, [1]⟩) [.const "1.0" .f32]],
      [⟨.f32, [274177, 67280421310721]⟩]⟩⟩]
  body := [⟨.var "__knok_autograd_value", ⟨.f32, []⟩⟩,
    ⟨.var "__knok_autograd_2", ⟨.f32, [274177, 67280421310721]⟩⟩]

theorem valueAndGradGraph_wideGraph :
    valueAndGradGraphWithRegistry wideGraph [] = .ok wideGradient := by decide +kernel

theorem not_computesGradients_wideGraph :
    Callable wideGraph ∧ wideGraph.RingOps ∧ ¬ ComputesGradients unitLiterals wideGraph [] := by
  refine ⟨⟨⟨wideGraph.source, [], by decide +kernel⟩, ⟨by decide, by decide⟩⟩, by decide, ?_⟩
  intro h
  -- every element moves at speed one, and so does the first
  let x : Tensor (DualNumber ℤ) :=
    Tensor.moving ⟨⟨.f32, [274177, 67280421310721]⟩, fun _ => 0⟩ fun _ => 1
  obtain ⟨loss, grads, hloss, hgrads, -, hpaired⟩ := h _ valueAndGradGraph_wideGraph [x] rfl
  have hspeed : loss.tangent [] = 1 := by
    obtain rfl := List.singleton_injective (Option.some.inj hloss)
    rfl
  have hgrad : ∃ g : Tensor ℤ, grads = [g] ∧ ∀ i, g.entry i = 1 :=
    ⟨_, (List.cons.inj (Option.some.inj hgrads)).2.symm, fun _ => rfl⟩
  obtain ⟨g, rfl, hg⟩ := hgrad
  have hall : pairedTangents [x] [g] = ∑ i ∈ box [274177, 67280421310721], 1 := by
    have hfloat : [x].filter (fun x => x.ty.elem.isFloat) = [x] := rfl
    rw [pairedTangents, hfloat, List.zipWith_cons_cons, List.zipWith_nil_left, List.sum_cons,
      List.sum_nil, add_zero]
    exact Finset.sum_congr rfl fun i _ => by rw [hg, one_mul]; rfl
  rw [hspeed, hall, Finset.sum_const, card_box] at hpaired
  norm_num at hpaired

end Knok.Autograd
