import Mathlib
import Knok.Autograd.Naming

/-!
# The nodes of the forward pass

Every let that flattening emits is recorded as forward nodes, one for each name,
with the types that the environment has for them (`records_flattenLoss`).  The
nodes are in the order of the lets: what a node reads is an input or the name of
an earlier node (`NodesScoped`), so that the reverse pass meets every node before
its operands.
-/

namespace Knok.Autograd

open Control

/-! ## The forward pass of a root graph -/

section Root

variable {graphs : Registry} {depth : ℕ} {R : Builder → Builder → Prop} [IsPreorder Builder R]

theorem moves_bindTypedLet (hnode : ∀ name expr ty, Moves R (bindForwardNode name expr ty))
    (names : List String) :
    ∀ (tys : List TensorType) (outputs : List Flat), Moves R (bindTypedLet names tys outputs) := by
  induction names with
  | nil => exact fun _ _ => .of_pure _
  | cons name names ih =>
      intro tys outputs
      rcases tys with _ | ⟨expected, tys⟩
      · exact .of_pure _
      rcases outputs with _ | ⟨⟨expr, ty⟩, outputs⟩
      · exact .of_pure _
      rw [bindTypedLet]
      exact Moves.guarded ((hnode name expr ty).bind fun _ => ih tys outputs) _

variable (hauto : ∀ expr ty, Moves R (bindForwardAuto expr ty))
  (hmulti : ∀ expr tys, Moves R (bindForwardOutputsAuto expr tys))
  (hnode : ∀ name expr ty, Moves R (bindForwardNode name expr ty))

include hauto hmulti

theorem moves_flattenValueOutputs (value : TypedValue) :
    Moves R (flattenValueOutputs graphs depth value) := by
  unfold flattenValueOutputs
  refine (moves_flattenExprOutputs hauto hmulti depth value.kind).bind fun outputs => ?_
  exact Moves.guarded (Moves.guarded (.of_pure _) _) _

include hnode

theorem moves_flattenTypedLet (binding : TypedLet) :
    Moves R (flattenTypedLet graphs depth binding) := by
  unfold flattenTypedLet
  refine Moves.guarded ?_ _
  refine (moves_flattenValueOutputs hauto hmulti binding.value).bind fun outputs => ?_
  exact Moves.guarded (moves_bindTypedLet hnode binding.names binding.value.tys outputs) _

theorem moves_flattenTypedLets (lets : List TypedLet) :
    Moves R (flattenTypedLets graphs depth lets) := by
  induction lets with
  | nil => exact .of_pure _
  | cons binding lets ih =>
      exact (moves_flattenTypedLet hauto hmulti hnode binding).bind fun _ => ih

/-- What the steps of the forward pass do, the forward pass does. -/
theorem moves_flattenLoss (graph : TypedGraph) : Moves R (flattenLoss graphs depth graph) := by
  unfold flattenLoss
  refine (moves_flattenTypedLets hauto hmulti hnode graph.lets).bind fun _ => ?_
  cases graph.body with
  | nil => exact .of_throw _
  | cons e rest =>
      refine (moves_flattenExpr hauto hmulti depth e.kind).bind fun flat => ?_
      exact Moves.guarded ((hnode _ _ _).bind fun _ => .of_pure _) _

end Root

/-! ## Nodes and lets -/

/-- What the names of lets are bound to, in order. -/
def letPairs (lets : List Let) : List (String × Expr) :=
  lets.flatMap fun binding => binding.names.map fun name => (name, binding.value)

/-- What the nodes were recorded for. -/
def nodePairs (nodes : List Node) : List (String × Expr) :=
  nodes.map fun node => (node.name, node.expr)

/-- Lets are added together with their nodes, and the environment receives their
types. -/
def Records (s s' : Builder) : Prop :=
  s'.grads = s.grads ∧ ∃ lets nodes, s'.lets = s.lets ++ lets ∧
    s'.forwardNodes = s.forwardNodes ++ nodes ∧ letPairs lets = nodePairs nodes ∧
      s'.env = bindNames s.env (nodes.map Node.name) (nodes.map Node.ty)

theorem bindNames_append {V : Type*} {names names' : List String} {vs vs' : List V}
    (hlen : names.length = vs.length) (env : Env V) :
    bindNames env (names ++ names') (vs ++ vs') =
      bindNames (bindNames env names vs) names' vs' := by
  rw [bindNames, List.zip_append hlen, List.foldl_append]
  rfl

instance : IsPreorder Builder Records where
  refl s := ⟨rfl, [], [], by simp, by simp, rfl, rfl⟩
  trans := by
    rintro s₁ s₂ s₃ ⟨hgrads, lets, nodes, hlets, hnodes, hpairs, henv⟩
      ⟨hgrads', lets', nodes', hlets', hnodes', hpairs', henv'⟩
    refine ⟨hgrads'.trans hgrads, lets ++ lets', nodes ++ nodes', ?_, ?_, ?_, ?_⟩
    · rw [hlets', hlets, List.append_assoc]
    · rw [hnodes', hnodes, List.append_assoc]
    · rw [letPairs, List.flatMap_append, nodePairs, List.map_append]
      exact congrArg₂ (· ++ ·) hpairs hpairs'
    · rw [henv', henv, List.map_append, List.map_append, bindNames_append (by simp)]

theorem records_bindForward (s : Builder) (name : String) (expr : Expr) (ty : TensorType) :
    Records s (s.bindForward name expr ty) :=
  ⟨rfl, [⟨[name], expr⟩], [⟨name, expr, ty⟩], rfl, rfl, rfl, rfl⟩

theorem records_bindForwardAuto (expr : Expr) (ty : TensorType) :
    Moves Records (bindForwardAuto expr ty) := by
  intro s a s' hrun
  obtain ⟨-, rfl⟩ := Prod.mk.inj (Except.ok.inj hrun)
  exact records_bindForward s.takeName s.autoName expr ty

theorem records_bindForwardNode (name : String) (expr : Expr) (ty : TensorType) :
    Moves Records (bindForwardNode name expr ty) :=
  .of_modify fun s => records_bindForward s name expr ty

theorem records_bindForwardOutputsAuto (expr : Expr) (tys : List TensorType) :
    Moves Records (bindForwardOutputsAuto expr tys) := by
  intro s a s' hrun
  obtain ⟨names, mid, hnames, hrest⟩ := stateT_bind_eq_ok_iff.mp hrun
  obtain ⟨-, rfl⟩ := Prod.mk.inj (Except.ok.inj hrest)
  have h := takesNames_nextAutoNames _ hnames
  have hlen : names.length = tys.length := h.length
  refine ⟨h.grads, [⟨names, expr⟩], (names.zip tys).map fun p => ⟨p.1, expr, p.2⟩, ?_, ?_, ?_, ?_⟩
  · show mid.lets ++ [⟨names, expr⟩] = _
    rw [h.lets]
  · show mid.forwardNodes ++ _ = _
    rw [h.forwardNodes]
  · rw [nodePairs, List.map_map, letPairs, List.flatMap_singleton]
    show names.map (fun name => (name, expr)) = (names.zip tys).map ((·, expr) ∘ Prod.fst)
    rw [← List.map_map, List.map_fst_zip hlen.le]
  · show bindNames mid.env _ _ = _
    rw [h.env, List.map_map, List.map_map]
    rfl

/-- **The forward pass records its lets.** -/
theorem records_flattenLoss (graphs : Registry) (depth : ℕ) (graph : TypedGraph) :
    Moves Records (flattenLoss graphs depth graph) :=
  moves_flattenLoss records_bindForwardAuto records_bindForwardOutputsAuto
    records_bindForwardNode graph

/-! ## The order of the nodes -/

/-- What a node reads is bound before it. -/
def NodesScoped : List String → List Node → Prop
  | _, [] => True
  | names, node :: nodes =>
      (∀ name ∈ node.expr.vars, name ∈ names) ∧ NodesScoped (names ++ [node.name]) nodes

theorem nodesScoped_append {nodes nodes' : List Node} :
    ∀ {names : List String}, NodesScoped names (nodes ++ nodes') ↔
      NodesScoped names nodes ∧ NodesScoped (names ++ nodes.map Node.name) nodes' := by
  induction nodes with
  | nil => simp [NodesScoped]
  | cons node nodes ih =>
      intro names
      rw [List.cons_append, NodesScoped, NodesScoped, ih, and_assoc, List.map_cons,
        List.append_assoc]
      rfl

/-- Nodes of one expression. -/
theorem nodesScoped_of_expr {e : Expr} {nodes : List Node} (hnodes : ∀ node ∈ nodes, node.expr = e) :
    ∀ {names : List String}, (∀ name ∈ e.vars, name ∈ names) → NodesScoped names nodes := by
  induction nodes with
  | nil => exact fun _ => trivial
  | cons node nodes ih =>
      intro names hvars
      obtain ⟨hfirst, hrest⟩ := List.forall_mem_cons.mp hnodes
      refine ⟨hfirst ▸ hvars, ih hrest fun name hname => ?_⟩
      exact List.mem_append_left _ (hvars name hname)

/-- **Nodes are ordered as their lets are.** -/
theorem nodesScoped_of_letsScoped {body : List Expr} (lets : List Let) :
    ∀ {names : List String} {nodes : List Node}, letPairs lets = nodePairs nodes →
      LetsScoped names (lets.map Let.binding) body → NodesScoped names nodes := by
  induction lets with
  | nil =>
      intro names nodes hpairs _
      obtain rfl : nodes = [] := List.map_eq_nil_iff.mp hpairs.symm
      trivial
  | cons binding lets ih =>
      rintro names nodes hpairs ⟨hvars, -, hrest⟩
      obtain ⟨first, rest, rfl, hfirst, hlater⟩ := List.map_eq_append_iff.mp hpairs.symm
      have hexprs : ∀ node ∈ first, node.expr = binding.value := by
        intro node hnode
        have hmem := List.mem_map_of_mem (f := fun node : Node => (node.name, node.expr)) hnode
        rw [hfirst] at hmem
        obtain ⟨name, -, heq⟩ := List.mem_map.mp hmem
        exact (Prod.mk.inj heq).2.symm
      have hnames : first.map Node.name = binding.names := by
        have hmap := congrArg (List.map Prod.fst) hfirst
        rwa [List.map_map, List.map_map, show Prod.fst ∘ (fun name => (name, binding.value)) = id
          from rfl, List.map_id] at hmap
      refine nodesScoped_append.mpr ⟨nodesScoped_of_expr hexprs fun name hname =>
        hvars name (Expr.mem_vars.mp hname), ?_⟩
      rw [hnames]
      exact ih hlater.symm hrest

end Knok.Autograd
