import Mathlib
import Knok.Typing
import Knok.Inlining

/-!
# Sharing is transparent

The tables of the lowerer are keyed by ids alone, so they are right only for
graphs in which an id stands for one payload.  This file puts together what the
type checker guarantees with what lowering needs:

* `sharing_iff_projectionsAgree`: the checker establishes the invariant for
  nodes.  Tuple ids it does not look at: the invariant holds for them, and the
  tables are right, exactly when projections with one tuple id agree above the
  first ids they contain.
* `lowerGraph_transparent`: on accepted graphs whose ids are unambiguous and
  whose lets do not rebind names, lowering computes the denotation.
-/

namespace Knok

open Control

/-! ## What the checker guarantees -/

mutual

/-- The expression above its ids: what stands below a node id or a tuple id is
left out. -/
def Expr.aboveIds : Expr → Expr
  | .var name => .var name
  | .const value elem => .const value elem
  | .unary op value => .unary op value.aboveIds
  | .binary op lhs rhs => .binary op lhs.aboveIds rhs.aboveIds
  | .node nodeId _ => .node nodeId (.var "")
  | .tupleGet tupleId _ index => .tupleGet tupleId (.var "") index
  | .call op args => .call op (Expr.argsAboveIds args)

/-- The arguments above their ids. -/
def Expr.argsAboveIds : List Expr → List Expr
  | [] => []
  | arg :: args => arg.aboveIds :: Expr.argsAboveIds args

end

theorem Expr.argsAboveIds_eq_map (args : List Expr) :
    Expr.argsAboveIds args = args.map Expr.aboveIds := by
  induction args with
  | nil => rfl
  | cons arg args ih => rw [Expr.argsAboveIds, ih, List.map_cons]

theorem eq_of_map_eq_map {α β : Type*} {f : α → β} {xs ys : List α}
    (hf : ∀ x ∈ xs, ∀ y ∈ ys, f x = f y → x = y) (h : xs.map f = ys.map f) : xs = ys := by
  induction xs generalizing ys with
  | nil => exact (List.map_eq_nil_iff.mp h.symm).symm
  | cons x xs ih =>
      cases ys with
      | nil => simp at h
      | cons y ys =>
          obtain ⟨hhead, htail⟩ := List.cons.inj h
          rw [hf x (List.mem_cons_self ..) y (List.mem_cons_self ..) hhead,
            ih (fun a ha b hb => hf a (List.mem_cons_of_mem _ ha) b (List.mem_cons_of_mem _ hb))
              htail]

/-- Projections with one tuple id are projections of calls that look the same
above their ids. -/
def ProjectionsAgree (es : List Expr) : Prop :=
  ∀ tupleId v w k l, Occurs es (.tupleGet tupleId v k) → Occurs es (.tupleGet tupleId w l) →
    v.aboveIds = w.aboveIds

/-- **Agreement above the ids is equality**, if node ids have one payload and
projections with one tuple id agree above theirs. -/
theorem eq_of_aboveIds {es : List Expr} (hnodes : SharedNodes es)
    (hprojections : ProjectionsAgree es) {v w : Expr} (hv : Occurs es v) (hw : Occurs es w)
    (h : v.aboveIds = w.aboveIds) : v = w := by
  induction v generalizing w with
  | var name => cases w <;> simp_all [Expr.aboveIds]
  | const value elem => cases w <;> simp_all [Expr.aboveIds]
  | unary op value ih =>
      cases w with
      | unary op' value' =>
          obtain ⟨rfl, hvalue⟩ := Expr.unary.inj h
          rw [ih (hv.part (by simp [Expr.subexprs, Expr.mem_subexprs_self]))
            (hw.part (by simp [Expr.subexprs, Expr.mem_subexprs_self])) hvalue]
      | _ => simp [Expr.aboveIds] at h
  | binary op lhs rhs ihl ihr =>
      cases w with
      | binary op' lhs' rhs' =>
          obtain ⟨rfl, hlhs, hrhs⟩ := Expr.binary.inj h
          rw [ihl (hv.part (by simp [Expr.subexprs, Expr.mem_subexprs_self]))
              (hw.part (by simp [Expr.subexprs, Expr.mem_subexprs_self])) hlhs,
            ihr (hv.part (by simp [Expr.subexprs, Expr.mem_subexprs_self]))
              (hw.part (by simp [Expr.subexprs, Expr.mem_subexprs_self])) hrhs]
      | _ => simp [Expr.aboveIds] at h
  | node nodeId value _ =>
      cases w with
      | node nodeId' value' =>
          obtain ⟨rfl, -⟩ := Expr.node.inj h
          rw [hnodes nodeId value value' hv hw]
      | _ => simp [Expr.aboveIds] at h
  | tupleGet tupleId value index ih =>
      cases w with
      | tupleGet tupleId' value' index' =>
          obtain ⟨rfl, -, rfl⟩ := Expr.tupleGet.inj h
          rw [ih (hv.part (by simp [Expr.subexprs, Expr.mem_subexprs_self]))
            (hw.part (by simp [Expr.subexprs, Expr.mem_subexprs_self]))
            (hprojections tupleId value value' index index hv hw)]
      | _ => simp [Expr.aboveIds] at h
  | call op args ih =>
      cases w with
      | call op' args' =>
          obtain ⟨rfl, hargs⟩ := Expr.call.inj h
          rw [Expr.argsAboveIds_eq_map, Expr.argsAboveIds_eq_map] at hargs
          have harg : ∀ arg ∈ args, Occurs es arg := fun arg harg =>
            hv.part (List.mem_cons_of_mem _
              (Expr.mem_subexprsList.mpr ⟨arg, harg, arg.mem_subexprs_self⟩))
          have harg' : ∀ arg ∈ args', Occurs es arg := fun arg harg =>
            hw.part (List.mem_cons_of_mem _
              (Expr.mem_subexprsList.mpr ⟨arg, harg, arg.mem_subexprs_self⟩))
          rw [eq_of_map_eq_map (fun a ha b hb => ih a ha (harg a ha) (harg' b hb)) hargs]
      | _ => simp [Expr.aboveIds] at h

/-- Node ids with one payload: tuple ids have one payload exactly when
projections with one tuple id agree above the ids. -/
theorem sharedTuples_iff_projectionsAgree {es : List Expr} (hnodes : SharedNodes es) :
    SharedTuples es ↔ ProjectionsAgree es := by
  constructor
  · intro h tupleId v w k l hv hw
    rw [h tupleId v w k l hv hw]
  · intro h tupleId v w k l hv hw
    exact eq_of_aboveIds hnodes h
      (Occurs.part hv (by simp [Expr.subexprs, Expr.mem_subexprs_self]))
      (Occurs.part hw (by simp [Expr.subexprs, Expr.mem_subexprs_self]))
      (h tupleId v w k l hv hw)

/-- The checker keeps the expressions of a graph. -/
theorem exprs_of_typeCheck {source : Graph}
    {graphSignatures : List (String × GraphSignature)} {graph : TypedGraph}
    (h : typeCheck source graphSignatures = .ok graph) : graph.exprs = source.exprs := by
  obtain ⟨cache, hrun⟩ := typeCheck_eq_ok_iff.mp h
  obtain ⟨env, mid, hlets, hbody, -⟩ := typeCheckM_eq_ok hrun
  have hvalues : (graph.lets.map TypedLet.binding).map Prod.snd =
      (source.lets.map Let.binding).map Prod.snd := by
    rw [typeLets_bindings hlets]
  rw [List.map_map, List.map_map] at hvalues
  exact congrArg₂ (· ++ ·) hvalues (typeBody_kinds hbody)

/-! ## Accepted graphs can be inlined -/

/-- Well-typed lets only read names that are bound. -/
theorem LetsTyped.letsScoped {calls : Calls TensorType} {body : Env TensorType → Prop}
    {es : List Expr} {lets : List TypedLet} :
    ∀ {names : List String} {env : Env TensorType},
      LetsTyped calls env lets body → Env.Binds env names →
      (lets.flatMap TypedLet.names).Nodup →
      (∀ name ∈ lets.flatMap TypedLet.names, name ∉ names) →
      (∀ env : Env TensorType, body env →
        ∀ e ∈ es, ∃ ty, evalTensor typeInterp calls env e = some ty) →
      LetsScoped names (lets.map TypedLet.binding) es := by
  induction lets with
  | nil =>
      intro names env htyped hbinds _ _ hbody e he name hname
      obtain ⟨ty, hty⟩ := hbody env htyped e he
      exact (hbinds name).mp (exists_of_evalOutputs typeInterp_strict
        (evalOutputs_eq_some_singleton _ _ _ hty) name (Expr.mem_vars.mpr hname))
  | cons binding lets ih =>
      intro names env htyped hbinds hnodup hnew hbody
      obtain ⟨hvalue, hlen, hrest⟩ := htyped
      rw [List.flatMap_cons] at hnodup hnew
      obtain ⟨-, hnodup', hdisjoint⟩ := List.nodup_append.mp hnodup
      refine ⟨fun name hname => ?_, fun name hname => ?_, ?_⟩
      · exact (hbinds name).mp (exists_of_evalOutputs typeInterp_strict hvalue name
          (Expr.mem_vars.mpr hname))
      · exact hnew name (List.mem_append_left _ hname)
      · refine ih hrest (hbinds.bindNames hlen) hnodup' (fun name hname hmem => ?_) hbody
        rcases List.mem_append.mp hmem with hmem | hmem
        · exact hnew name (List.mem_append_right _ hname) hmem
        · exact hdisjoint name hmem name hname rfl

theorem WellTyped.letsScoped {calls : Calls TensorType} {graph : TypedGraph}
    (h : WellTyped calls graph) (hnames : graph.NoRebinding) :
    LetsScoped (graph.inputs.map Input.name) (graph.lets.map TypedLet.binding)
      (graph.body.map TypedExpr.kind) := by
  refine h.typed.letsScoped (binds_inputEnv (by simp)) hnames.lets hnames.inputs ?_
  intro env hbody e he
  obtain ⟨typed, htyped, rfl⟩ := List.mem_map.mp he
  exact ⟨typed.ty, hbody typed htyped⟩

/-- A typed graph in which ids carry one payload and no let rebinds a name. -/
structure TypedGraph.Unambiguous (graph : TypedGraph) : Prop where
  accepted : graph.Accepted
  nodes : SharedNodes graph.exprs
  tuples : SharedTuples graph.exprs
  names : graph.NoRebinding

theorem TypedGraph.Unambiguous.inlinable {graph : TypedGraph} (h : graph.Unambiguous) :
    Inlinable graph := by
  obtain ⟨source, graphSignatures, hcheck⟩ := h.accepted
  exact ⟨h.nodes, h.tuples, (wellTyped_of_typeCheck hcheck h.names).letsScoped h.names⟩

/-! ## What the checker guarantees of the tables -/

/-- The invariant that lowering relies on: an id stands for one payload.  The
tables then never hand out the value of another expression: whatever the back
end, the callees and the inputs, lowering is evaluation without tables. -/
structure TypedGraph.SharingKept (graph : TypedGraph) : Prop where
  nodes : SharedNodes graph.exprs
  tuples : SharedTuples graph.exprs
  tables : graph.NoRebinding → ∀ (ν : Type) (backend : Backend ν) (graphs : Registry)
    (args : List ν), (∀ name callee, graphs.get name = some callee → callee.Unambiguous) →
      args.length = graph.inputs.length →
        lowerGraph backend graphs graph args = denoteGraph backend graphs graph args

/-- **The sharing invariant of accepted graphs.**  The checker compares the
payloads of node ids only: the invariant holds exactly when projections with
one tuple id agree above their ids. -/
theorem sharing_iff_projectionsAgree (source : Graph)
    (graphSignatures : List (String × GraphSignature)) (graph : TypedGraph)
    (h : typeCheck source graphSignatures = .ok graph) :
    graph.SharingKept ↔ ProjectionsAgree source.exprs := by
  have hnodes : SharedNodes graph.exprs := by
    rw [exprs_of_typeCheck h]
    exact sharedNodes_of_typeCheck h
  rw [← exprs_of_typeCheck h, ← sharedTuples_iff_projectionsAgree hnodes]
  refine ⟨TypedGraph.SharingKept.tuples, fun htuples => ⟨hnodes, htuples, ?_⟩⟩
  intro hnames ν backend graphs args hgraphs hargs
  have hgraph : graph.Unambiguous := ⟨⟨source, graphSignatures, h⟩, hnodes, htuples, hnames⟩
  exact lowerGraph_eq_denoteGraph (fun name callee hget => (hgraphs name callee hget).inlinable)
    hgraph.inlinable hargs

/-- Halves of `x` and of `y`, projected under one tuple id. -/
def halvesGraph : Graph where
  name := "halves"
  backend := "llvm-cpu"
  inputs := [⟨"x", ⟨.f32, [4]⟩⟩, ⟨"y", ⟨.f32, [4]⟩⟩]
  outputs := [⟨.f32, [2]⟩, ⟨.f32, [2]⟩]
  lets := []
  body := [
    .tupleGet 1 (.call (.split 0 [2, 2]) [.var "x"]) 0,
    .tupleGet 1 (.call (.split 0 [2, 2]) [.var "y"]) 0]

/-- The typed form of `halvesGraph`. -/
def typedHalvesGraph : TypedGraph where
  name := "halves"
  backend := "llvm-cpu"
  inputs := halvesGraph.inputs
  outputs := halvesGraph.outputs
  lets := []
  body := halvesGraph.body.map fun e => ⟨e, ⟨.f32, [2]⟩⟩

/-- A back end on lists of numbers that knows how to split a list. -/
def listBackend : Backend (List ℕ) where
  constant _ _ := .ok []
  neg v := .ok v
  binary _ lhs rhs := .ok (lhs ++ rhs)
  call
    | .split _ [first, _], _, [v] => .ok [v.take first, v.drop first]
    | op, _, _ => .error (.msg op.name)
  output v _ := .ok v

/-- The checker accepts two payloads for one tuple id, and lowering returns the
half of `x` for the half of `y`. -/
theorem halvesGraph_accepted_not_shared :
    typeCheck halvesGraph [] = .ok typedHalvesGraph ∧
      ¬ SharedTuples typedHalvesGraph.exprs ∧
      lowerGraph listBackend [] typedHalvesGraph [[1, 2, 3, 4], [5, 6, 7, 8]] =
        .ok [[1, 2], [1, 2]] ∧
      denoteGraph listBackend [] typedHalvesGraph [[1, 2, 3, 4], [5, 6, 7, 8]] =
        .ok [[1, 2], [5, 6]] := by
  refine ⟨rfl, fun h => ?_, rfl, rfl⟩
  have hcalls := h 1 (.call (.split 0 [2, 2]) [.var "x"]) (.call (.split 0 [2, 2]) [.var "y"])
    0 0 ⟨_, List.mem_cons_self .., List.mem_cons_self ..⟩
    ⟨_, List.mem_cons_of_mem _ (List.mem_cons_self ..), List.mem_cons_self ..⟩
  simp at hcalls

theorem sharing_iff_projectionsAgree_halvesGraph :
    (typedHalvesGraph.SharingKept ↔ ProjectionsAgree halvesGraph.exprs) :=
  sharing_iff_projectionsAgree halvesGraph [] typedHalvesGraph rfl

/-! ## Lowering is transparent -/

/-- **Caches, scopes and inlining are transparent.**  The values lowered for the
outputs of a graph are those of call-by-value substitution without tables, and
every inlined call, from any state and whether or not it succeeds, leaves the
caller's names, call stack, scopes and table entries as they were. -/
theorem lowerGraph_transparent {ν : Type} (backend : Backend ν) (graphs : Registry)
    (graph : TypedGraph) (args : List ν) (hgraph : graph.Unambiguous)
    (hgraphs : ∀ name callee, graphs.get name = some callee → callee.Unambiguous)
    (hargs : args.length = graph.inputs.length) :
    lowerGraph backend graphs graph args = denoteGraph backend graphs graph args ∧
      ∀ depth name values (s : LowererState ν),
        Restored s (exec (inlineGraphValues backend graphs depth name values) s).2 := by
  refine ⟨?_, fun depth name values s =>
    keeps_inlineGraphValues backend graphs depth name values s⟩
  exact lowerGraph_eq_denoteGraph (fun name callee hget => (hgraphs name callee hget).inlinable)
    hgraph.inlinable hargs

/-- Doubles its input through a shared node. -/
def doubleGraph : TypedGraph where
  name := "double"
  backend := "llvm-cpu"
  inputs := [⟨"x", ⟨.f32, []⟩⟩]
  outputs := [⟨.f32, []⟩]
  lets := [⟨["y"], ⟨.node 1 (.unary .neg (.var "x")), [⟨.f32, []⟩]⟩⟩]
  body := [⟨.binary .add (.node 1 (.unary .neg (.var "x"))) (.var "y"), ⟨.f32, []⟩⟩]

/-- Calls `double` twice, the second time on the result of the first. -/
def callerGraph : TypedGraph where
  name := "caller"
  backend := "llvm-cpu"
  inputs := [⟨"x", ⟨.f32, []⟩⟩]
  outputs := [⟨.f32, []⟩]
  lets := [⟨["y"], ⟨.call (.graph "double") [.node 1 (.call .square [.var "x"])],
    [⟨.f32, []⟩]⟩⟩]
  body := [⟨.binary .add (.call (.graph "double") [.var "y"])
    (.node 1 (.call .square [.var "x"])), ⟨.f32, []⟩⟩]

/-- Arithmetic on numbers. -/
def intBackend : Backend ℤ where
  constant _ _ := .ok 0
  neg v := .ok (-v)
  binary
    | .add, lhs, rhs => .ok (lhs + rhs)
    | .sub, lhs, rhs => .ok (lhs - rhs)
    | .mul, lhs, rhs => .ok (lhs * rhs)
    | .div, lhs, rhs => .ok (lhs / rhs)
  call
    | .square, _, [v] => .ok [v * v]
    | op, _, _ => .error (.msg op.name)
  output v _ := .ok v

/-- The untyped form of a graph. -/
def TypedGraph.source (graph : TypedGraph) : Graph where
  name := graph.name
  backend := graph.backend
  inputs := graph.inputs
  outputs := graph.outputs
  lets := graph.lets.map fun binding => ⟨binding.names, binding.value.kind⟩
  body := graph.body.map TypedExpr.kind

theorem doubleGraph_unambiguous : doubleGraph.Unambiguous := by
  have hcheck : typeCheck doubleGraph.source [] = .ok doubleGraph := rfl
  refine ⟨⟨_, _, hcheck⟩, sharedNodes_of_typeCheck hcheck, ?_, by decide, by decide⟩
  simp [SharedTuples, doubleGraph, TypedGraph.exprs, Expr.subexprs]

theorem callerGraph_unambiguous : callerGraph.Unambiguous := by
  have hcheck : typeCheck callerGraph.source [("double", ⟨[⟨.f32, []⟩], [⟨.f32, []⟩]⟩)] =
      .ok callerGraph := rfl
  refine ⟨⟨_, _, hcheck⟩, sharedNodes_of_typeCheck hcheck, ?_, by decide, by decide⟩
  simp [SharedTuples, callerGraph, TypedGraph.exprs, Expr.subexprs, Expr.subexprsList]

theorem lowerGraph_transparent_callerGraph :
    (lowerGraph intBackend [("double", doubleGraph)] callerGraph [3] =
        denoteGraph intBackend [("double", doubleGraph)] callerGraph [3] ∧
      ∀ depth name values (s : LowererState ℤ), Restored s
        (exec (inlineGraphValues intBackend [("double", doubleGraph)] depth name values) s).2) ∧
    lowerGraph intBackend [("double", doubleGraph)] callerGraph [3] = .ok [45] := by
  refine ⟨lowerGraph_transparent intBackend [("double", doubleGraph)] callerGraph [3]
    callerGraph_unambiguous ?_ rfl, rfl⟩
  intro name callee hget
  rw [Registry.get, List.lookup_cons] at hget
  split at hget
  · cases hget
    exact doubleGraph_unambiguous
  · cases hget

end Knok
