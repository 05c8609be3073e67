import Mathlib
import Knok.Semantics
import Knok.Fresh
import Knok.Control.Checked

/-!
# Let-binding of shared nodes

A traced graph shares subexpressions through nodes.  `letBindNodes` turns them
into lets: it collects the nodes of all bodies, each after the nodes inside its
payload, picks for each an unused name, and replaces every node reference by
its name.

### Design decisions

* `collectNodes` threads the table of payloads and the order of the nodes.
* `uniqueNodeName` is the code's unbounded loop over `base`, `base_1`, `base_2`,
  …, cut at one candidate more than there are reserved names
  (`uniqueNodeName_not_mem`: the cut is never reached).
-/

namespace Knok

open Control

/-- Payloads of the nodes met so far, and their ids in binding order. -/
structure CollectedNodes where
  values : ℕ → Option Expr
  order : List ℕ

/-- A traversal that collects nodes. -/
abbrev CollectM := StateT CollectedNodes (Except Error)

/-- The text of a node id with two payloads. -/
def nodePayloadError (nodeId : ℕ) : String :=
  s!"node id {nodeId} is used for multiple expression payloads"

mutual

/-- Collects the nodes of an expression, inner nodes first. -/
def collectNodes : Expr → CollectM Unit
  | .unary _ value => collectNodes value
  | .binary _ lhs rhs => do
      collectNodes lhs
      collectNodes rhs
  | .node nodeId value => do
      match (← get).values nodeId with
      | some existing => failIf (existing != value) (nodePayloadError nodeId)
      | none =>
          collectNodes value
          modify fun nodes =>
            ⟨Function.update nodes.values nodeId (some value), nodes.order ++ [nodeId]⟩
  | .tupleGet _ value _ => collectNodes value
  | .call _ args => collectArgs args
  | .var _ | .const _ _ => return ()

/-- Collects the nodes of a list of arguments. -/
def collectArgs : List Expr → CollectM Unit
  | [] => return ()
  | arg :: args => do
      collectNodes arg
      collectArgs args

end

/-- Collects the nodes of all bodies. -/
def collectBodies (body : List Expr) : Except Error CollectedNodes := do
  let (_, nodes) ← (collectArgs body).run ⟨fun _ => none, []⟩
  return nodes

/-- Names given to nodes. -/
abbrev NodeNames := ℕ → Option String

mutual

/-- Replaces every node by the variable it is bound to. -/
def rewriteNodeRefs (names : NodeNames) : Expr → Except Error Expr
  | .unary op value => return .unary op (← rewriteNodeRefs names value)
  | .binary op lhs rhs => do
      let lhs ← rewriteNodeRefs names lhs
      let rhs ← rewriteNodeRefs names rhs
      return .binary op lhs rhs
  | .node nodeId _ =>
      match names nodeId with
      | some name => return .var name
      | none => .error (.msg s!"node {nodeId} has no generated binding name")
  | .tupleGet tupleId value index =>
      return .tupleGet tupleId (← rewriteNodeRefs names value) index
  | .call op args => return .call op (← rewriteArgs names args)
  | .var name => return .var name
  | .const value elem => return .const value elem

/-- Replaces the nodes in a list of arguments. -/
def rewriteArgs (names : NodeNames) : List Expr → Except Error (List Expr)
  | [] => return []
  | arg :: args => do
      let arg ← rewriteNodeRefs names arg
      let args ← rewriteArgs names args
      return arg :: args

end

/-- The preferred name of a node. -/
def nodeName (nodeId : ℕ) : String := s!"__knok_node_{nodeId}"

/-- The first candidate for a node's name that is not reserved. -/
def uniqueNodeName (nodeId : ℕ) (reserved : List String) : String :=
  Fresh.nameCandidate (nodeName nodeId)
    (Fresh.freshIndex (Fresh.nameCandidate (nodeName nodeId)) reserved reserved.length 0)

/-- Names for the nodes, in binding order; each name is reserved for the next. -/
def assignNames : List ℕ → List String → NodeNames → NodeNames
  | [], _, names => names
  | nodeId :: order, reserved, names =>
      let name := uniqueNodeName nodeId reserved
      assignNames order (name :: reserved) (Function.update names nodeId (some name))

/-- The let of one node. -/
def nodeLet (nodes : CollectedNodes) (names : NodeNames) (nodeId : ℕ) :
    Except Error Let :=
  match names nodeId, nodes.values nodeId with
  | none, _ => .error (.msg s!"node {nodeId} was not assigned a binding name")
  | some _, none => .error (.msg s!"node {nodeId} was not assigned a value")
  | some name, some value => do
      return ⟨[name], ← rewriteNodeRefs names value⟩

/-- Binds every node by a let and replaces it in the bodies by its name. -/
def letBindNodes (body : List Expr) (reservedNames : List String) :
    Except Error (List Let × List Expr) := do
  let nodes ← collectBodies body
  let names := assignNames nodes.order reservedNames fun _ => none
  let lets ← nodes.order.mapM (nodeLet nodes names)
  let body ← body.mapM (rewriteNodeRefs names)
  return (lets, body)

/-! ## Collection

The invariant of the traversal: the table and the order list the same nodes,
each once; every recorded payload occurs in the bodies; and every node inside a
recorded payload stands earlier in the order.
-/

/-- What holds of the collected nodes, when `Occ i p` says that node `i` occurs
with payload `p` in the bodies. -/
structure CollectedNodes.Inv (Occ : ℕ → Expr → Prop) (nodes : CollectedNodes) : Prop where
  nodup : nodes.order.Nodup
  recorded : ∀ i, i ∈ nodes.order ↔ ∃ p, nodes.values i = some p
  occurs : ∀ i p, nodes.values i = some p → Occ i p
  inner_first : ∀ before i, before ++ [i] <+: nodes.order → ∀ p, nodes.values i = some p →
    ∀ j q, Expr.node j q ∈ p.subexprs → j ∈ before

/-- An entry of an updated table: the new one or an old one. -/
theorem update_eq_some {ι β : Type*} [DecidableEq ι] {f : ι → Option β} {a i : ι} {b c : β}
    (h : Function.update f a (some b) i = some c) : i = a ∧ b = c ∨ i ≠ a ∧ f i = some c := by
  by_cases hi : i = a
  · subst hi
    rw [Function.update_self, Option.some.injEq] at h
    exact .inl ⟨rfl, h⟩
  · rw [Function.update_of_ne hi] at h
    exact .inr ⟨hi, h⟩

theorem CollectedNodes.inv_empty (Occ : ℕ → Expr → Prop) :
    CollectedNodes.Inv Occ ⟨fun _ => none, []⟩ where
  nodup := List.nodup_nil
  recorded := by simp
  occurs := by simp
  inner_first := by simp

/-- Recording a node whose inner nodes are recorded. -/
theorem CollectedNodes.Inv.push {Occ : ℕ → Expr → Prop} {nodes : CollectedNodes}
    (h : nodes.Inv Occ) {nodeId : ℕ} {value : Expr} (hfresh : nodes.values nodeId = none)
    (hocc : Occ nodeId value)
    (hinner : ∀ j q, Expr.node j q ∈ value.subexprs → j ∈ nodes.order) :
    CollectedNodes.Inv Occ
      ⟨Function.update nodes.values nodeId (some value), nodes.order ++ [nodeId]⟩ where
  nodup := by
    rw [List.nodup_append]
    refine ⟨h.nodup, List.nodup_singleton _, fun i hi j hj => ?_⟩
    rw [List.mem_singleton.mp hj]
    rintro rfl
    obtain ⟨p, hp⟩ := (h.recorded i).mp hi
    rw [hfresh] at hp
    cases hp
  recorded := by
    intro i
    by_cases hi : i = nodeId
    · simp [hi]
    · simp [hi, h.recorded i]
  occurs := by
    intro i p hp
    rcases update_eq_some hp with ⟨rfl, rfl⟩ | ⟨-, hp⟩
    · exact hocc
    · exact h.occurs i p hp
  inner_first := by
    intro before i hprefix p hp j q hmem
    rcases List.prefix_concat_iff.mp hprefix with heq | hold
    · obtain ⟨rfl, hi⟩ := List.append_inj' heq rfl
      obtain rfl : i = nodeId := by simpa using hi
      rcases update_eq_some hp with ⟨-, rfl⟩ | ⟨hne, -⟩
      · exact hinner j q hmem
      · exact absurd rfl hne
    · rcases update_eq_some hp with ⟨rfl, -⟩ | ⟨-, hp⟩
      · have hi : i ∈ nodes.order :=
          hold.subset (List.mem_append_right before (List.mem_singleton_self i))
        obtain ⟨p', hp'⟩ := (h.recorded i).mp hi
        rw [hfresh] at hp'
        cases hp'
      · exact h.inner_first before i hold p hp j q hmem

/-- Ids of the nodes of an expression. -/
def Expr.nodeIds (e : Expr) : Set ℕ := {i | ∃ p, Expr.node i p ∈ e.subexprs}

/-- A traversal that succeeds, keeps the invariant and records the nodes `ids`. -/
def Collects (Occ : ℕ → Expr → Prop) (m : CollectM Unit) (ids : Set ℕ) : Prop :=
  ∀ nodes, nodes.Inv Occ → ∃ nodes', m.run nodes = .ok ((), nodes') ∧ nodes'.Inv Occ ∧
    (∀ i p, nodes.values i = some p → nodes'.values i = some p) ∧
    ∀ i, i ∈ nodes'.order ↔ i ∈ nodes.order ∨ i ∈ ids

theorem Collects.bind {Occ : ℕ → Expr → Prop} {m m' : CollectM Unit} {ids ids' : Set ℕ}
    (h : Collects Occ m ids) (h' : Collects Occ m' ids') :
    Collects Occ (m >>= fun _ => m') (ids ∪ ids') := by
  intro nodes hinv
  obtain ⟨mid, hrun, hinv, hext, hids⟩ := h nodes hinv
  obtain ⟨last, hrun', hinv', hext', hids'⟩ := h' mid hinv
  refine ⟨last, stateT_bind_eq_ok_iff.mpr ⟨(), mid, hrun, hrun'⟩, hinv',
    fun i p hp => hext' i p (hext i p hp), fun i => ?_⟩
  rw [hids', hids, Set.mem_union, or_assoc]

theorem Collects.congr {Occ : ℕ → Expr → Prop} {m : CollectM Unit} {ids ids' : Set ℕ}
    (h : Collects Occ m ids) (heq : ∀ i, i ∈ ids ↔ i ∈ ids') : Collects Occ m ids' := by
  obtain rfl : ids = ids' := Set.ext heq
  exact h

theorem collects_pure (Occ : ℕ → Expr → Prop) : Collects Occ (pure ()) ∅ :=
  fun nodes hinv => ⟨nodes, rfl, hinv, fun _ _ h => h, by simp⟩

theorem collects_args (Occ : ℕ → Expr → Prop) {args : List Expr}
    (h : ∀ arg ∈ args, Collects Occ (collectNodes arg) arg.nodeIds) :
    Collects Occ (collectArgs args) {i | ∃ arg ∈ args, i ∈ arg.nodeIds} := by
  induction args with
  | nil => exact (collects_pure Occ).congr (by simp)
  | cons arg args ih =>
      have htail := ih fun a ha => h a (List.mem_cons_of_mem _ ha)
      exact ((h arg (List.mem_cons_self ..)).bind htail).congr (by simp)

/-- A node: recorded already, or recorded after the nodes of its payload. -/
theorem collects_node {Occ : ℕ → Expr → Prop} (hfun : ∀ i p q, Occ i p → Occ i q → p = q)
    {nodeId : ℕ} {value : Expr}
    (hocc : ∀ i p, Expr.node i p ∈ (Expr.node nodeId value).subexprs → Occ i p)
    (ih : Collects Occ (collectNodes value) value.nodeIds) :
    Collects Occ (collectNodes (.node nodeId value)) (Expr.node nodeId value).nodeIds := by
  have hself : Occ nodeId value := hocc _ _ (Expr.mem_subexprs_self _)
  have hids : ∀ i, i ∈ (Expr.node nodeId value).nodeIds ↔ i = nodeId ∨ i ∈ value.nodeIds := by
    intro i
    simp [Expr.nodeIds, Expr.subexprs, exists_or]
  intro nodes hinv
  cases hvalue : nodes.values nodeId with
  | some existing =>
      have hsame := hfun nodeId existing value (hinv.occurs _ _ hvalue) hself
      have hmem : nodeId ∈ nodes.order := (hinv.recorded nodeId).mpr ⟨_, hvalue⟩
      have hrun : (collectNodes (.node nodeId value)).run nodes = .ok ((), nodes) := by
        rw [collectNodes, stateT_bind_eq_ok_iff]
        exact ⟨nodes, nodes, rfl, by simp [hvalue, hsame]⟩
      refine ⟨nodes, hrun, hinv, fun _ _ h => h, fun i => ⟨.inl, ?_⟩⟩
      rintro (hi | hi)
      · exact hi
      rcases (hids i).mp hi with rfl | ⟨p, hp⟩
      · exact hmem
      · -- an inner node stands before the node itself
        obtain ⟨before, after, horder⟩ := List.append_of_mem hmem
        have hprefix : before ++ [nodeId] <+: nodes.order := ⟨after, by simp [horder]⟩
        have hbefore := hinv.inner_first before nodeId hprefix _ hvalue i p (hsame ▸ hp)
        exact horder ▸ List.mem_append_left _ hbefore
  | none =>
      obtain ⟨mid, hrun, hinv', hext, hmid⟩ := ih nodes hinv
      have hnew : mid.values nodeId = none := by
        -- the node could only have been recorded inside its own payload
        by_contra hsome
        obtain ⟨p, hp⟩ := Option.ne_none_iff_exists'.mp hsome
        rcases (hmid nodeId).mp ((hinv'.recorded nodeId).mpr ⟨p, hp⟩) with hold | ⟨q, hq⟩
        · obtain ⟨q, hq⟩ := (hinv.recorded nodeId).mp hold
          rw [hvalue] at hq
          cases hq
        · have hqvalue : q = value :=
            hfun nodeId q value (hocc nodeId q (List.mem_cons_of_mem _ hq)) hself
          exact Expr.node_not_mem_payload nodeId value (hqvalue ▸ hq)
      have hinner : ∀ j q, Expr.node j q ∈ value.subexprs → j ∈ mid.order :=
        fun j q hq => (hmid j).mpr (.inr ⟨q, hq⟩)
      refine ⟨_, ?_, hinv'.push hnew hself hinner, fun i p hp => ?_, fun i => ?_⟩
      · rw [collectNodes, stateT_bind_eq_ok_iff]
        refine ⟨nodes, nodes, rfl, ?_⟩
        simp only [hvalue, stateT_bind_eq_ok_iff, stateT_modify_eq_ok_iff]
        exact ⟨(), mid, hrun, rfl⟩
      · have hne : i ≠ nodeId := by
          rintro rfl
          rw [hvalue] at hp
          cases hp
        show Function.update mid.values nodeId (some value) i = some p
        rw [Function.update_of_ne hne]
        exact hext i p hp
      · rw [hids, List.mem_append, List.mem_singleton, hmid]
        tauto

/-- **Collection succeeds** on expressions whose nodes have one payload each. -/
theorem collects_collectNodes {Occ : ℕ → Expr → Prop}
    (hfun : ∀ i p q, Occ i p → Occ i q → p = q) (e : Expr)
    (hocc : ∀ i p, Expr.node i p ∈ e.subexprs → Occ i p) :
    Collects Occ (collectNodes e) e.nodeIds := by
  induction e with
  | var name => exact (collects_pure Occ).congr (by simp [Expr.nodeIds, Expr.subexprs])
  | const value elem =>
      exact (collects_pure Occ).congr (by simp [Expr.nodeIds, Expr.subexprs])
  | unary op value ih =>
      exact (ih fun i p h => hocc i p (by simp [Expr.subexprs, h])).congr
        (by simp [Expr.nodeIds, Expr.subexprs])
  | binary op lhs rhs ihl ihr =>
      have hl := ihl fun i p h => hocc i p (by simp [Expr.subexprs, h])
      have hr := ihr fun i p h => hocc i p (by simp [Expr.subexprs, h])
      exact (hl.bind hr).congr (by simp [Expr.nodeIds, Expr.subexprs, exists_or])
  | node nodeId value ih =>
      exact collects_node hfun hocc (ih fun i p h => hocc i p (by simp [Expr.subexprs, h]))
  | tupleGet tupleId value index ih =>
      exact (ih fun i p h => hocc i p (by simp [Expr.subexprs, h])).congr
        (by simp [Expr.nodeIds, Expr.subexprs])
  | call op args ih =>
      have hargs := collects_args Occ fun arg harg => ih arg harg fun i p h =>
        hocc i p (by simpa [Expr.subexprs] using ⟨arg, harg, h⟩)
      refine hargs.congr fun i => ?_
      simp only [Expr.nodeIds, Expr.subexprs, Set.mem_ofPred_eq, List.mem_cons,
        reduceCtorEq, Expr.mem_subexprsList, false_or]
      constructor
      · rintro ⟨arg, harg, p, hp⟩
        exact ⟨p, arg, harg, hp⟩
      · rintro ⟨p, arg, harg, hp⟩
        exact ⟨arg, harg, p, hp⟩

/-- The bodies' nodes, collected. -/
theorem collectBodies_spec {body : List Expr} (hshared : SharedNodes body) :
    ∃ nodes, collectBodies body = .ok nodes ∧
      nodes.Inv (fun i p => ∃ e ∈ body, Expr.node i p ∈ e.subexprs) ∧
      ∀ i, i ∈ nodes.order ↔ ∃ e ∈ body, i ∈ e.nodeIds := by
  have hargs := collects_args (fun i p => ∃ e ∈ body, Expr.node i p ∈ e.subexprs)
    fun e he => collects_collectNodes (fun i p q hp hq => hshared i p q hp hq) e
      fun i p h => ⟨e, he, h⟩
  obtain ⟨nodes, hrun, hinv, -, hids⟩ := hargs _ (CollectedNodes.inv_empty _)
  refine ⟨nodes, ?_, hinv, fun i => by simpa using hids i⟩
  rw [collectBodies, except_bind_eq_ok_iff]
  exact ⟨((), nodes), hrun, rfl⟩

/-! ## Names -/

/-- **The name chosen for a node is not reserved.** -/
theorem uniqueNodeName_not_mem (nodeId : ℕ) (reserved : List String) :
    uniqueNodeName nodeId reserved ∉ reserved :=
  Fresh.freshIndex_not_mem (Fresh.nameCandidate_injective _) reserved 0

theorem assignNames_of_not_mem {order : List ℕ} :
    ∀ {reserved : List String} {names : NodeNames} {i : ℕ}, i ∉ order →
      assignNames order reserved names i = names i := by
  induction order with
  | nil => intro reserved names i _; rfl
  | cons nodeId order ih =>
      intro reserved names i hi
      have hne : i ≠ nodeId := fun h => hi (h ▸ List.mem_cons_self ..)
      rw [assignNames, ih fun h => hi (List.mem_cons_of_mem _ h), Function.update_of_ne hne]

/-- Every node gets a name that is not reserved. -/
theorem assignNames_mem {order : List ℕ} :
    ∀ (reserved : List String) (names : NodeNames) {i : ℕ}, order.Nodup → i ∈ order →
      ∃ name, assignNames order reserved names i = some name ∧ name ∉ reserved := by
  induction order with
  | nil => intro reserved names i _ hi; cases hi
  | cons nodeId order ih =>
      intro reserved names i hnodup hi
      obtain ⟨hnot, hnodup⟩ := List.nodup_cons.mp hnodup
      rw [assignNames]
      rcases List.mem_cons.mp hi with rfl | hi
      · exact ⟨_, by rw [assignNames_of_not_mem hnot, Function.update_self],
          uniqueNodeName_not_mem i reserved⟩
      · obtain ⟨name, hname, hfresh⟩ := ih _ _ hnodup hi
        exact ⟨name, hname, fun h => hfresh (List.mem_cons_of_mem _ h)⟩

/-- Different nodes get different names. -/
theorem assignNames_inj {order : List ℕ} :
    ∀ {reserved : List String} {names : NodeNames} {i j : ℕ} {name : String},
      order.Nodup → i ∈ order → j ∈ order →
      assignNames order reserved names i = some name →
      assignNames order reserved names j = some name → i = j := by
  induction order with
  | nil => intro reserved names i j name _ hi; cases hi
  | cons nodeId order ih =>
      intro reserved names i j name hnodup hi hj hni hnj
      obtain ⟨hnot, hnodup⟩ := List.nodup_cons.mp hnodup
      -- the first name is reserved for the rest
      have hfirst : ∀ {k}, k ∈ order →
          assignNames (nodeId :: order) reserved names k ≠
            assignNames (nodeId :: order) reserved names nodeId := by
        intro k hk heq
        obtain ⟨name', hname', hfresh⟩ := assignNames_mem
          (uniqueNodeName nodeId reserved :: reserved)
          (Function.update names nodeId (some (uniqueNodeName nodeId reserved))) hnodup hk
        rw [assignNames, hname', assignNames_of_not_mem hnot, Function.update_self,
          Option.some.injEq] at heq
        exact hfresh (heq ▸ List.mem_cons_self ..)
      rcases List.mem_cons.mp hi with rfl | hi' <;>
        rcases List.mem_cons.mp hj with rfl | hj'
      · rfl
      · exact absurd (hnj.trans hni.symm) (hfirst hj')
      · exact absurd (hni.trans hnj.symm) (hfirst hi')
      · rw [assignNames] at hni hnj
        exact ih hnodup hi' hj' hni hnj

/-! ## Rewriting as a substitution -/

mutual

/-- Replaces every node `i` by the variable `name i`. -/
def Expr.substNodes (name : ℕ → String) : Expr → Expr
  | .unary op value => .unary op (value.substNodes name)
  | .binary op lhs rhs => .binary op (lhs.substNodes name) (rhs.substNodes name)
  | .node nodeId _ => .var (name nodeId)
  | .tupleGet tupleId value index => .tupleGet tupleId (value.substNodes name) index
  | .call op args => .call op (Expr.substNodesList name args)
  | .var x => .var x
  | .const value elem => .const value elem

/-- Replaces the nodes in a list of expressions. -/
def Expr.substNodesList (name : ℕ → String) : List Expr → List Expr
  | [] => []
  | arg :: args => arg.substNodes name :: Expr.substNodesList name args

end

@[simp] theorem Expr.substNodesList_eq_map (name : ℕ → String) (args : List Expr) :
    Expr.substNodesList name args = args.map (Expr.substNodes name) := by
  induction args with
  | nil => rfl
  | cons arg args ih => rw [Expr.substNodesList, ih, List.map_cons]

/-- Rewriting succeeds when every node has a name. -/
theorem rewriteNodeRefs_eq_ok {names : NodeNames} {name : ℕ → String} (e : Expr)
    (h : ∀ i ∈ e.nodeIds, names i = some (name i)) :
    rewriteNodeRefs names e = .ok (e.substNodes name) := by
  induction e with
  | var x => rfl
  | const value elem => rfl
  | unary op value ih =>
      have hv := ih fun i hi => h i (by simpa [Expr.nodeIds, Expr.subexprs] using hi)
      rw [rewriteNodeRefs, hv]
      rfl
  | binary op lhs rhs ihl ihr =>
      have hl := ihl fun i hi => h i (hi.imp fun p hp => by simp [Expr.subexprs, hp])
      have hr := ihr fun i hi => h i (hi.imp fun p hp => by simp [Expr.subexprs, hp])
      rw [rewriteNodeRefs, hl, hr]
      rfl
  | node nodeId value ih =>
      have hself := h nodeId ⟨value, Expr.mem_subexprs_self _⟩
      rw [rewriteNodeRefs, hself]
      rfl
  | tupleGet tupleId value index ih =>
      have hv := ih fun i hi => h i (by simpa [Expr.nodeIds, Expr.subexprs] using hi)
      rw [rewriteNodeRefs, hv]
      rfl
  | call op args ih =>
      have hargs : rewriteArgs names args = .ok (args.map (Expr.substNodes name)) := by
        have hall : ∀ arg ∈ args, rewriteNodeRefs names arg = .ok (arg.substNodes name) :=
          fun arg harg => ih arg harg fun i hi => h i (hi.imp fun p hp => by
            simpa [Expr.subexprs] using ⟨arg, harg, hp⟩)
        clear ih h
        induction args with
        | nil => rfl
        | cons arg args ihargs =>
            rw [rewriteArgs, hall arg (List.mem_cons_self ..),
              ihargs fun a ha => hall a (List.mem_cons_of_mem _ ha)]
            rfl
      rw [rewriteNodeRefs, hargs, Expr.substNodes, Expr.substNodesList_eq_map]
      rfl

/-- No node is left. -/
theorem Expr.node_not_mem_substNodes (name : ℕ → String) (e : Expr) (i : ℕ) (p : Expr) :
    Expr.node i p ∉ (e.substNodes name).subexprs := by
  induction e with
  | call op args ih => simpa [Expr.substNodes, Expr.subexprs] using ih
  | _ => simp_all [Expr.substNodes, Expr.subexprs]

/-- The variables of the result are old variables or names of nodes. -/
theorem Expr.mem_vars_substNodes {name : ℕ → String} {e : Expr} {x : String}
    (h : x ∈ (e.substNodes name).vars) : x ∈ e.vars ∨ ∃ i ∈ e.nodeIds, x = name i := by
  induction e with
  | var y => exact .inl h
  | const value elem => exact .inl h
  | unary op value ih => simp_all [Expr.substNodes, Expr.subexprs, Expr.nodeIds]
  | binary op lhs rhs ihl ihr =>
      simp only [Expr.substNodes, Expr.mem_vars, Expr.subexprs, List.mem_cons, reduceCtorEq,
        List.mem_append, false_or] at h
      rcases h with h | h
      · rcases ihl (Expr.mem_vars.mpr h) with hx | ⟨i, ⟨p, hp⟩, hx⟩
        · exact .inl (by simp_all [Expr.subexprs])
        · exact .inr ⟨i, ⟨p, by simp [Expr.subexprs, hp]⟩, hx⟩
      · rcases ihr (Expr.mem_vars.mpr h) with hx | ⟨i, ⟨p, hp⟩, hx⟩
        · exact .inl (by simp_all [Expr.subexprs])
        · exact .inr ⟨i, ⟨p, by simp [Expr.subexprs, hp]⟩, hx⟩
  | node nodeId value ih =>
      refine .inr ⟨nodeId, ⟨value, Expr.mem_subexprs_self _⟩, ?_⟩
      simpa [Expr.substNodes, Expr.subexprs] using h
  | tupleGet tupleId value index ih => simp_all [Expr.substNodes, Expr.subexprs, Expr.nodeIds]
  | call op args ih =>
      simp only [Expr.substNodes, Expr.substNodesList_eq_map, Expr.mem_vars, Expr.subexprs,
        List.mem_cons, reduceCtorEq, Expr.mem_subexprsList, List.mem_map, false_or,
        exists_exists_and_eq_and] at h
      obtain ⟨arg, harg, h⟩ := h
      rcases ih arg harg (Expr.mem_vars.mpr h) with hx | ⟨i, ⟨p, hp⟩, hx⟩
      · refine .inl ?_
        simp only [Expr.mem_vars, Expr.subexprs, List.mem_cons, reduceCtorEq,
          Expr.mem_subexprsList, false_or] at hx ⊢
        exact ⟨arg, harg, hx⟩
      · exact .inr ⟨i, ⟨p, by simpa [Expr.subexprs] using ⟨arg, harg, hp⟩⟩, hx⟩

/-! ## Evaluation of the normal form -/

section Evaluation

universe u

variable {V : Type u} (S : OpSemantics V) (calls : Calls V)

/-- A node whose outputs are projected directly has one output. -/
def ProjectedNodesSingle (env : Env V) (e : Expr) : Prop :=
  ∀ t i p k, Expr.tupleGet t (.node i p) k ∈ e.subexprs →
    ∀ vs, evalOutputs S.toInterp calls env p = some vs → vs.length = 1

variable {S calls}

theorem ProjectedNodesSingle.of_subexpr {env : Env V} {e s : Expr}
    (h : ProjectedNodesSingle S calls env e) (hs : s ∈ e.subexprs) :
    ProjectedNodesSingle S calls env s :=
  fun t i p k hmem => h t i p k (Expr.mem_subexprs_trans hmem hs)

/-- Evaluation is strict: in an expression that has a value, every node has
one. -/
theorem exists_evalTensor_of_node {env : Env V} {e : Expr} :
    ∀ {vs : List V}, evalOutputs S.toInterp calls env e = some vs →
      ((∃ i p, e = .node i p) → vs.length = 1) → ProjectedNodesSingle S calls env e →
      ∀ i p, Expr.node i p ∈ e.subexprs → ∃ w, evalTensor S.toInterp calls env p = some w := by
  induction e with
  | var x => simp [Expr.subexprs]
  | const value elem => simp [Expr.subexprs]
  | unary op value ih =>
      intro vs h _ hproj i p hmem
      have hvalue : Expr.node i p ∈ value.subexprs := by simpa [Expr.subexprs] using hmem
      simp only [evalOutputs, Option.bind_eq_bind, Option.bind_eq_some_iff] at h
      obtain ⟨w, ⟨ws, hws, hw⟩, -⟩ := h
      refine ih hws (fun _ => ?_) (hproj.of_subexpr ?_) i p hvalue
      · rw [single_eq_some_iff.mp hw]; rfl
      · simp [Expr.subexprs, Expr.mem_subexprs_self]
  | binary op lhs rhs ihl ihr =>
      intro vs h _ hproj i p hmem
      have hsides : Expr.node i p ∈ lhs.subexprs ∨ Expr.node i p ∈ rhs.subexprs := by
        simpa [Expr.subexprs] using hmem
      simp only [evalOutputs, Option.bind_eq_bind, Option.bind_eq_some_iff] at h
      obtain ⟨l, ⟨ls, hls, hl⟩, r, ⟨rs, hrs, hr⟩, -⟩ := h
      rcases hsides with hside | hside
      · refine ihl hls (fun _ => ?_) (hproj.of_subexpr ?_) i p hside
        · rw [single_eq_some_iff.mp hl]; rfl
        · simp [Expr.subexprs, Expr.mem_subexprs_self]
      · refine ihr hrs (fun _ => ?_) (hproj.of_subexpr ?_) i p hside
        · rw [single_eq_some_iff.mp hr]; rfl
        · simp [Expr.subexprs, Expr.mem_subexprs_self]
  | node nodeId value ih =>
      intro vs h hsingle hproj i p hmem
      have hlen := hsingle ⟨nodeId, value, rfl⟩
      rw [evalOutputs] at h
      rcases List.mem_cons.mp hmem with heq | hmem
      · cases heq
        obtain ⟨w, rfl⟩ := List.length_eq_one_iff.mp hlen
        exact ⟨w, by rw [evalTensor, h]; rfl⟩
      · exact ih h (fun _ => hlen)
          (hproj.of_subexpr (by simp [Expr.subexprs, Expr.mem_subexprs_self])) i p hmem
  | tupleGet tupleId value index ih =>
      intro vs h _ hproj i p hmem
      have hvalue : Expr.node i p ∈ value.subexprs := by simpa [Expr.subexprs] using hmem
      simp only [evalOutputs, Option.bind_eq_bind, Option.bind_eq_some_iff] at h
      obtain ⟨ws, hws, -⟩ := h
      refine ih hws ?_ (hproj.of_subexpr ?_) i p hvalue
      · rintro ⟨j, q, rfl⟩
        exact hproj tupleId j q index (Expr.mem_subexprs_self _) ws hws
      · simp [Expr.subexprs, Expr.mem_subexprs_self]
  | call op args ih =>
      intro vs h _ hproj i p hmem
      obtain ⟨arg, harg, hmem⟩ : ∃ arg ∈ args, Expr.node i p ∈ arg.subexprs := by
        simpa [Expr.subexprs] using hmem
      have hargs : ∃ ws, evalArgs S.toInterp calls env args = some ws := by
        rcases op.eq_graph_or with ⟨name, rfl⟩ | hop
        · rw [evalOutputs_graph, Option.bind_eq_some_iff] at h
          exact h.imp fun ws hws => hws.1
        · rw [evalOutputs_call _ _ _ hop, OpSemantics.toInterp_call,
            Option.bind_eq_some_iff] at h
          exact h.imp fun ws hws => hws.1
      obtain ⟨w, hw⟩ : ∃ w, evalTensor S.toInterp calls env arg = some w := by
        obtain ⟨ws, hws⟩ := hargs
        rw [evalArgs_eq_mapM] at hws
        exact exists_eq_some_of_mapM hws harg
      refine ih arg harg (evalOutputs_eq_some_singleton _ _ _ hw) (fun _ => rfl)
        (hproj.of_subexpr ?_) i p hmem
      simpa [Expr.subexprs] using .inr ⟨arg, harg, Expr.mem_subexprs_self arg⟩

/-- The environment in which the nodes `done` are bound: each has the value of
its payload, and the variables of the bodies are untouched. -/
structure BoundNodes (S : OpSemantics V) (calls : Calls V) (name : ℕ → String)
    (payload : ℕ → Expr) (reserved : List String) (env env' : Env V)
    (done : List ℕ) : Prop where
  node : ∀ i ∈ done, ∃ w, evalTensor S.toInterp calls env (payload i) = some w ∧
    env' (name i) = some w
  var : ∀ x ∈ reserved, env' x = env x

/-- With its nodes bound, an expression and its rewriting have the same outputs. -/
theorem BoundNodes.evalOutputs_substNodes {name : ℕ → String} {payload : ℕ → Expr}
    {reserved : List String} {env env' : Env V} {done : List ℕ}
    (hbound : BoundNodes S calls name payload reserved env env' done) {e : Expr}
    (hvars : ∀ x ∈ e.vars, x ∈ reserved)
    (hnodes : ∀ i p, Expr.node i p ∈ e.subexprs → i ∈ done ∧ payload i = p) :
    evalOutputs S.toInterp calls env' (e.substNodes name) =
      evalOutputs S.toInterp calls env e := by
  induction e with
  | var x =>
      have hx : env' x = env x := hbound.var x (hvars x (by simp [Expr.subexprs]))
      simp [Expr.substNodes, evalOutputs, hx]
  | const value elem => rfl
  | unary op value ih =>
      have hv := ih (fun x hx => hvars x (by simp_all [Expr.subexprs]))
        fun i p h => hnodes i p (by simp_all [Expr.subexprs])
      simp [Expr.substNodes, evalOutputs, hv]
  | binary op lhs rhs ihl ihr =>
      have hl := ihl (fun x hx => hvars x (by simp_all [Expr.subexprs]))
        fun i p h => hnodes i p (by simp_all [Expr.subexprs])
      have hr := ihr (fun x hx => hvars x (by simp_all [Expr.subexprs]))
        fun i p h => hnodes i p (by simp_all [Expr.subexprs])
      simp [Expr.substNodes, evalOutputs, hl, hr]
  | node nodeId value ih =>
      obtain ⟨hdone, hpayload⟩ := hnodes nodeId value (Expr.mem_subexprs_self _)
      obtain ⟨w, hw, hname⟩ := hbound.node nodeId hdone
      rw [hpayload] at hw
      rw [Expr.substNodes, evalOutputs, evalOutputs, hname,
        evalOutputs_eq_some_singleton _ _ _ hw]
      rfl
  | tupleGet tupleId value index ih =>
      have hv := ih (fun x hx => hvars x (by simp_all [Expr.subexprs]))
        fun i p h => hnodes i p (by simp_all [Expr.subexprs])
      simp [Expr.substNodes, evalOutputs, hv]
  | call op args ih =>
      have hargs : evalArgs S.toInterp calls env' (args.map (Expr.substNodes name)) =
          evalArgs S.toInterp calls env args := by
        rw [evalArgs_eq_mapM, evalArgs_eq_mapM, List.mapM_map]
        refine option_mapM_congr fun arg harg => ?_
        have harg' := ih arg harg
          (fun x hx => hvars x (by
            simp only [Expr.mem_vars, Expr.subexprs, List.mem_cons, reduceCtorEq,
              Expr.mem_subexprsList, false_or] at hx ⊢
            exact ⟨arg, harg, hx⟩))
          fun i p h => hnodes i p (by simpa [Expr.subexprs] using ⟨arg, harg, h⟩)
        rw [Function.comp_apply, evalTensor, evalTensor, harg']
      rw [Expr.substNodes, Expr.substNodesList_eq_map]
      rcases op.eq_graph_or with ⟨callee, rfl⟩ | hop
      · rw [evalOutputs_graph, evalOutputs_graph, hargs]
      · rw [evalOutputs_call _ _ _ hop, evalOutputs_call _ _ _ hop, hargs]
        rfl

theorem BoundNodes.evalTensor_substNodes {name : ℕ → String} {payload : ℕ → Expr}
    {reserved : List String} {env env' : Env V} {done : List ℕ}
    (hbound : BoundNodes S calls name payload reserved env env' done) {e : Expr}
    (hvars : ∀ x ∈ e.vars, x ∈ reserved)
    (hnodes : ∀ i p, Expr.node i p ∈ e.subexprs → i ∈ done ∧ payload i = p) :
    evalTensor S.toInterp calls env' (e.substNodes name) =
      evalTensor S.toInterp calls env e := by
  rw [evalTensor, evalTensor, hbound.evalOutputs_substNodes hvars hnodes]

/-- The let of node `i`. -/
def substLet (name : ℕ → String) (payload : ℕ → Expr) (i : ℕ) : Let :=
  ⟨[name i], (payload i).substNodes name⟩

/-- The lets of the remaining nodes bind them all, or one of their payloads has
no value and the lets are stuck. -/
theorem evalLets_substLet {name : ℕ → String} {payload : ℕ → Expr}
    {reserved : List String} {env : Env V} {order : List ℕ}
    (hinj : ∀ i ∈ order, ∀ j ∈ order, name i = name j → i = j)
    (hfresh : ∀ i ∈ order, name i ∉ reserved)
    (hvars : ∀ i ∈ order, ∀ x ∈ (payload i).vars, x ∈ reserved)
    (hinner : ∀ before i, before ++ [i] <+: order →
      ∀ j q, Expr.node j q ∈ (payload i).subexprs → j ∈ before ∧ payload j = q) :
    ∀ (todo done : List ℕ) (env' : Env V), order = done ++ todo →
      BoundNodes S calls name payload reserved env env' done →
      (∃ env'', evalLets S.toInterp calls env'
          (todo.map fun i => (substLet name payload i).binding) = some env'' ∧
        BoundNodes S calls name payload reserved env env'' order) ∨
      (evalLets S.toInterp calls env'
          (todo.map fun i => (substLet name payload i).binding) = none ∧
        ∃ i ∈ order, evalTensor S.toInterp calls env (payload i) = none) := by
  intro todo
  induction todo with
  | nil =>
      rintro done env' rfl hbound
      rw [List.append_nil]
      exact .inl ⟨env', rfl, hbound⟩
  | cons i todo ih =>
      intro done env' horder hbound
      have hi : i ∈ order := by rw [horder]; simp
      have hprefix : done ++ [i] <+: order := ⟨todo, by rw [horder]; simp⟩
      have hpayload := hbound.evalTensor_substNodes (hvars i hi) (hinner done i hprefix)
      have hstep : evalLets S.toInterp calls env'
          ((i :: todo).map fun i => (substLet name payload i).binding) =
          ((evalTensor S.toInterp calls env (payload i)).map fun v =>
            Function.update env' (name i) (some v)).bind fun env'' =>
              evalLets S.toInterp calls env''
                (todo.map fun i => (substLet name payload i).binding) := by
        rw [List.map_cons, evalLets, substLet, Let.binding, evalLet_singleton, hpayload]
      rw [hstep]
      cases hvalue : evalTensor S.toInterp calls env (payload i) with
      | none => exact .inr ⟨rfl, i, hi, hvalue⟩
      | some w =>
          refine ih (done ++ [i]) (Function.update env' (name i) (some w))
            (by rw [horder]; simp) ⟨fun j hj => ?_, fun x hx => ?_⟩
          · by_cases hji : j = i
            · exact ⟨w, hji ▸ hvalue, by rw [hji, Function.update_self]⟩
            · have hjdone : j ∈ done := by
                rcases List.mem_append.mp hj with hj | hj
                · exact hj
                · exact absurd (List.mem_singleton.mp hj) hji
              have hjorder : j ∈ order := by rw [horder]; exact List.mem_append_left _ hjdone
              obtain ⟨v, hv, hname⟩ := hbound.node j hjdone
              refine ⟨v, hv, ?_⟩
              rw [Function.update_of_ne fun heq => hji (hinj j hjorder i hi heq), hname]
          · have hne : x ≠ name i := fun heq => hfresh i hi (by rwa [← heq])
            rw [Function.update_of_ne hne, hbound.var x hx]

end Evaluation

/-! ## The normal form -/

/-- Tuple ids and indices of the projections outside node payloads, in order. -/
def Expr.projections (e : Expr) : List (ℕ × ℕ) :=
  go e
where
  go : Expr → List (ℕ × ℕ)
    | .unary _ value => go value
    | .binary _ lhs rhs => go lhs ++ go rhs
    | .node _ _ => []
    | .tupleGet tupleId value index => (tupleId, index) :: go value
    | .call _ args => goList args
    | .var _ => []
    | .const _ _ => []
  goList : List Expr → List (ℕ × ℕ)
    | [] => []
    | arg :: args => go arg ++ goList args

theorem Expr.projections_substNodes (name : ℕ → String) (e : Expr) :
    (e.substNodes name).projections = e.projections := by
  have hgo : projections.go (e.substNodes name) = projections.go e := by
    induction e with
    | call op args ih =>
        rw [Expr.substNodes, Expr.substNodesList_eq_map]
        simp only [projections.go]
        induction args with
        | nil => rfl
        | cons arg args ihargs =>
            have htail := ihargs fun a ha => ih a (List.mem_cons_of_mem _ ha)
            rw [List.map_cons, projections.goList, projections.goList,
              ih arg (List.mem_cons_self ..), htail]
    | _ => simp_all [Expr.substNodes, projections.go]
  exact hgo

universe u

/-- What the normal form of a list of bodies is: `order` lists the node ids in
binding order, `name` and `payload` give the name and the payload of each. -/
structure NormalForm (body : List Expr) (reserved : List String) (order : List ℕ)
    (name : ℕ → String) (payload : ℕ → Expr) (lets : List Let) (body' : List Expr) :
    Prop where
  /-- The nodes of the bodies, each once. -/
  order_nodup : order.Nodup
  mem_order : ∀ i, i ∈ order ↔ ∃ e ∈ body, i ∈ e.nodeIds
  payload_occurs : ∀ i ∈ order, ∃ e ∈ body, Expr.node i (payload i) ∈ e.subexprs
  /-- One let a node, by a name of its own. -/
  names : lets.map Let.names = order.map fun i => [name i]
  name_fresh : ∀ i ∈ order, name i ∉ reserved
  name_inj : ∀ i ∈ order, ∀ j ∈ order, name i = name j → i = j
  /-- No node is left. -/
  no_node : ∀ e ∈ lets.map Let.value ++ body', ∀ i p, Expr.node i p ∉ e.subexprs
  /-- A let uses variables of the bodies and names of earlier lets. -/
  wellScoped : ∀ before binding after, lets = before ++ binding :: after →
    ∀ x ∈ binding.value.vars,
      (∃ e ∈ body, x ∈ e.vars) ∨ ∃ earlier ∈ before, x ∈ earlier.names
  /-- Tuple ids and projection indices are those of the originals. -/
  projections_lets : lets.map (fun binding => binding.value.projections) =
    order.map fun i => (payload i).projections
  projections_body : body'.map Expr.projections = body.map Expr.projections
  /-- The lets, then the new bodies, evaluate to the old bodies' values. -/
  eval : ∀ {V : Type u} (S : OpSemantics V) (calls : Calls V) (env : Env V),
    (∀ e ∈ body, ProjectedNodesSingle S calls env e) →
      ((evalLets S.toInterp calls env (lets.map Let.binding)).bind fun env' =>
        body'.mapM (evalTensor S.toInterp calls env')) =
      body.mapM (evalTensor S.toInterp calls env)

section

variable {body : List Expr} {reserved : List String} {order : List ℕ}
  {name : ℕ → String} {payload : ℕ → Expr}

/-- The variables of a payload are variables of the bodies. -/
theorem exists_mem_vars_of_payload {i : ℕ} {x : String}
    (hocc : ∃ e ∈ body, Expr.node i (payload i) ∈ e.subexprs) (hx : x ∈ (payload i).vars) :
    ∃ e ∈ body, x ∈ e.vars := by
  obtain ⟨e, he, hmem⟩ := hocc
  refine ⟨e, he, Expr.mem_vars.mpr (Expr.mem_subexprs_trans ?_ hmem)⟩
  exact Expr.mem_subexprs_node i (Expr.mem_vars.mp hx)

/-- The lets of an ordered list of nodes are scoped. -/
theorem scoped_substLet (hocc : ∀ i ∈ order, ∃ e ∈ body, Expr.node i (payload i) ∈ e.subexprs)
    (hinner : ∀ before i, before ++ [i] <+: order →
      ∀ j q, Expr.node j q ∈ (payload i).subexprs → j ∈ before ∧ payload j = q)
    (before : List Let) (binding : Let) (after : List Let)
    (hlets : order.map (substLet name payload) = before ++ binding :: after) (x : String)
    (hx : x ∈ binding.value.vars) :
    (∃ e ∈ body, x ∈ e.vars) ∨ ∃ earlier ∈ before, x ∈ earlier.names := by
  obtain ⟨ids, rest, horder, rfl, hrest⟩ := List.map_eq_append_iff.mp hlets
  obtain ⟨i, rest', rfl, rfl, -⟩ := List.map_eq_cons_iff.mp hrest
  have hprefix : ids ++ [i] <+: order := ⟨rest', by rw [horder]; simp⟩
  rcases Expr.mem_vars_substNodes hx with hx | ⟨j, ⟨q, hq⟩, rfl⟩
  · exact .inl (exists_mem_vars_of_payload (hocc i (by rw [horder]; simp)) hx)
  · refine .inr ⟨substLet name payload j, List.mem_map_of_mem ?_, List.mem_singleton_self _⟩
    exact (hinner ids i hprefix j q hq).1

/-- Binding the nodes and rewriting the bodies preserves their values. -/
theorem eval_substLet {V : Type u} (S : OpSemantics V) (calls : Calls V) (env : Env V)
    (hreserved : ∀ e ∈ body, ∀ x ∈ e.vars, x ∈ reserved)
    (hocc : ∀ i ∈ order, ∃ e ∈ body, Expr.node i (payload i) ∈ e.subexprs)
    (hnodes : ∀ e ∈ body, ∀ i p, Expr.node i p ∈ e.subexprs → i ∈ order ∧ payload i = p)
    (hinner : ∀ before i, before ++ [i] <+: order →
      ∀ j q, Expr.node j q ∈ (payload i).subexprs → j ∈ before ∧ payload j = q)
    (hfresh : ∀ i ∈ order, name i ∉ reserved)
    (hinj : ∀ i ∈ order, ∀ j ∈ order, name i = name j → i = j)
    (hproj : ∀ e ∈ body, ProjectedNodesSingle S calls env e) :
    ((evalLets S.toInterp calls env
        ((order.map (substLet name payload)).map Let.binding)).bind fun env' =>
      (body.map (Expr.substNodes name)).mapM (evalTensor S.toInterp calls env')) =
    body.mapM (evalTensor S.toInterp calls env) := by
  have hvars : ∀ i ∈ order, ∀ x ∈ (payload i).vars, x ∈ reserved := by
    intro i hi x hx
    obtain ⟨e, he, hxe⟩ := exists_mem_vars_of_payload (hocc i hi) hx
    exact hreserved e he x hxe
  rw [List.map_map]
  obtain ⟨env', hlets, hbound⟩ | ⟨hstuck, i, hi, hnone⟩ :=
    evalLets_substLet hinj hfresh hvars hinner order [] env rfl
      ⟨fun i hi => absurd hi List.not_mem_nil, fun x _ => rfl⟩
  · have hbody : (body.map (Expr.substNodes name)).mapM (evalTensor S.toInterp calls env') =
        body.mapM (evalTensor S.toInterp calls env) := by
      rw [List.mapM_map]
      exact option_mapM_congr fun e he =>
        hbound.evalTensor_substNodes (hreserved e he) (hnodes e he)
    exact (congrArg (fun r => Option.bind r _) hlets).trans hbody
  · -- a payload without a value leaves the body it occurs in without one
    obtain ⟨e, he, hmem⟩ := hocc i hi
    have hbody : body.mapM (evalTensor S.toInterp calls env) = none := by
      by_contra hsome
      obtain ⟨vs, hvs⟩ := Option.ne_none_iff_exists'.mp hsome
      obtain ⟨v, hv⟩ := exists_eq_some_of_mapM hvs he
      obtain ⟨w, hw⟩ := exists_evalTensor_of_node
        (evalOutputs_eq_some_singleton _ _ _ hv) (fun _ => rfl) (hproj e he) i _ hmem
      rw [hnone] at hw
      cases hw
    rw [hbody]
    exact congrArg (fun r => Option.bind r _) hstuck

/-- When every listed node has a name and a payload, and every node of the payloads
and of the bodies is listed, the nodes are bound. -/
theorem letBindNodes_eq_ok {nodes : CollectedNodes} (hcollect : collectBodies body = .ok nodes)
    (hname : ∀ i ∈ nodes.order,
      assignNames nodes.order reserved (fun _ => none) i = some (name i))
    (hpayload : ∀ i ∈ nodes.order, nodes.values i = some (payload i))
    (hinner : ∀ i ∈ nodes.order, ∀ j ∈ (payload i).nodeIds, j ∈ nodes.order)
    (hbody : ∀ e ∈ body, ∀ i ∈ e.nodeIds, i ∈ nodes.order) :
    letBindNodes body reserved =
      .ok (nodes.order.map (substLet name payload), body.map (Expr.substNodes name)) := by
  let names := assignNames nodes.order reserved fun _ => none
  have hlets : nodes.order.mapM (nodeLet nodes names) =
      .ok (nodes.order.map (substLet name payload)) := by
    refine except_mapM_of_forall fun i hi => ?_
    have hrewrite : rewriteNodeRefs names (payload i) = .ok ((payload i).substNodes name) :=
      rewriteNodeRefs_eq_ok _ fun j hj => hname j (hinner i hi j hj)
    have hi' : names i = some (name i) := hname i hi
    simp only [nodeLet, hi', hpayload i hi, hrewrite]
    rfl
  have hbodies : body.mapM (rewriteNodeRefs names) = .ok (body.map (Expr.substNodes name)) :=
    except_mapM_of_forall fun e he => rewriteNodeRefs_eq_ok e fun i hi =>
      hname i (hbody e he i hi)
  rw [letBindNodes, except_bind_eq_ok_iff]
  refine ⟨nodes, hcollect, ?_⟩
  rw [except_bind_eq_ok_iff]
  exact ⟨_, hlets, except_bind_eq_ok_iff.mpr ⟨_, hbodies, rfl⟩⟩

end

/-- **Let-binding the nodes preserves meaning.**  On bodies whose node ids have
one payload each, and with all their variables reserved, the normalisation
succeeds and its result is a normal form. -/
theorem letBindNodes_normalForm {body : List Expr} {reserved : List String}
    (hshared : SharedNodes body) (hreserved : ∀ e ∈ body, ∀ x ∈ e.vars, x ∈ reserved) :
    ∃ lets body' order name payload, letBindNodes body reserved = .ok (lets, body') ∧
      NormalForm.{u} body reserved order name payload lets body' := by
  obtain ⟨nodes, hcollect, hinv, hids⟩ := collectBodies_spec hshared
  let names := assignNames nodes.order reserved fun _ => none
  let name : ℕ → String := fun i => (names i).getD ""
  let payload : ℕ → Expr := fun i => (nodes.values i).getD (.var "")
  have hname : ∀ i ∈ nodes.order, names i = some (name i) := by
    intro i hi
    obtain ⟨n, hn, -⟩ := assignNames_mem reserved (fun _ => none) hinv.nodup hi
    show names i = some ((names i).getD "")
    rw [show names i = some n from hn]
    rfl
  have hpayload : ∀ i ∈ nodes.order, nodes.values i = some (payload i) := by
    intro i hi
    obtain ⟨p, hp⟩ := (hinv.recorded i).mp hi
    show nodes.values i = some ((nodes.values i).getD (.var ""))
    rw [hp]
    rfl
  have hocc : ∀ i ∈ nodes.order, ∃ e ∈ body, Expr.node i (payload i) ∈ e.subexprs :=
    fun i hi => hinv.occurs i _ (hpayload i hi)
  have hnodes : ∀ e ∈ body, ∀ i p, Expr.node i p ∈ e.subexprs →
      i ∈ nodes.order ∧ payload i = p := by
    intro e he i p hmem
    have hi : i ∈ nodes.order := (hids i).mpr ⟨e, he, p, hmem⟩
    exact ⟨hi, hshared i _ _ (hocc i hi) ⟨e, he, hmem⟩⟩
  have hinner : ∀ before i, before ++ [i] <+: nodes.order →
      ∀ j q, Expr.node j q ∈ (payload i).subexprs → j ∈ before ∧ payload j = q := by
    intro before i hprefix j q hmem
    have hi : i ∈ nodes.order :=
      hprefix.subset (List.mem_append_right before (List.mem_singleton_self i))
    obtain ⟨e, he, hoccurs⟩ := hocc i hi
    refine ⟨hinv.inner_first before i hprefix _ (hpayload i hi) j q hmem, ?_⟩
    exact (hnodes e he j q (Expr.mem_subexprs_trans
      (Expr.mem_subexprs_node i hmem) hoccurs)).2
  have hfresh : ∀ i ∈ nodes.order, name i ∉ reserved := by
    intro i hi
    obtain ⟨n, hn, hnot⟩ := assignNames_mem reserved (fun _ => none) hinv.nodup hi
    rwa [show name i = n from Option.some.inj ((hname i hi).symm.trans hn)]
  have hinj : ∀ i ∈ nodes.order, ∀ j ∈ nodes.order, name i = name j → i = j := by
    intro i hi j hj heq
    exact assignNames_inj hinv.nodup hi hj (hname i hi) (heq ▸ hname j hj)
  have hlisted : ∀ i ∈ nodes.order, ∀ j ∈ (payload i).nodeIds, j ∈ nodes.order := by
    rintro i hi j ⟨q, hq⟩
    obtain ⟨e, he, hoccurs⟩ := hocc i hi
    exact (hnodes e he j q (Expr.mem_subexprs_trans
      (Expr.mem_subexprs_node i hq) hoccurs)).1
  have hbody : ∀ e ∈ body, ∀ i ∈ e.nodeIds, i ∈ nodes.order :=
    fun e he i ⟨p, hp⟩ => (hnodes e he i p hp).1
  refine ⟨_, _, nodes.order, name, payload, ?_, hinv.nodup, hids, hocc, ?_, hfresh, hinj,
    ?_, scoped_substLet hocc hinner, ?_, ?_, fun S calls env hproj =>
      eval_substLet S calls env hreserved hocc hnodes hinner hfresh hinj hproj⟩
  · exact letBindNodes_eq_ok hcollect hname hpayload hlisted hbody
  · simp [substLet, Function.comp_def]
  · intro e he i p
    rcases List.mem_append.mp he with he | he
    · simp only [List.map_map, List.mem_map, Function.comp_apply, substLet] at he
      obtain ⟨j, -, rfl⟩ := he
      exact Expr.node_not_mem_substNodes name _ i p
    · obtain ⟨b, -, rfl⟩ := List.mem_map.mp he
      exact Expr.node_not_mem_substNodes name b i p
  · simp [substLet, Function.comp_def, Expr.projections_substNodes]
  · simp [Function.comp_def, Expr.projections_substNodes]

/-- One body that uses a node twice. -/
def reusedNodeBody : List Expr :=
  [.binary .add (.node 4 (.unary .neg (.var "x"))) (.node 4 (.unary .neg (.var "x")))]

theorem letBindNodes_normalForm_reusedNodeBody :
    ∃ lets body' order name payload,
      letBindNodes reusedNodeBody ["x"] = .ok (lets, body') ∧
        NormalForm.{0} reusedNodeBody ["x"] order name payload lets body' := by
  refine letBindNodes_normalForm ?_ ?_
  · intro i v w hv hw
    simp [reusedNodeBody, Expr.subexprs] at hv hw
    rw [hv.2, hw.2]
  · simp [reusedNodeBody, Expr.subexprs]

/-- A projection taken directly of a node with two outputs. -/
def projectedNodeBody : List Expr :=
  [.tupleGet 0 (.node 1 (.call (.split 0 [1, 1]) [.var "x"])) 0]

/-- An interpretation in which every operation has two outputs. -/
def twoOutputs : OpSemantics ℕ where
  const _ _ := none
  unary _ _ := none
  binary _ _ _ := none
  call _ _ := some [0, 1]

/-- Such a node is bound by a let of one name, which is stuck on its two
outputs, while the original body has a value. -/
theorem projectedNodeBody_not_preserved :
    SharedNodes projectedNodeBody ∧
      (∀ e ∈ projectedNodeBody, ∀ x ∈ e.vars, x ∈ ["x"]) ∧
      ∃ lets body', letBindNodes projectedNodeBody ["x"] = .ok (lets, body') ∧
        projectedNodeBody.mapM
            (evalTensor twoOutputs.toInterp (fun _ _ => none) fun _ => some 7) =
          some [0] ∧
        ((evalLets twoOutputs.toInterp (fun _ _ => none) (fun _ => some 7)
            (lets.map Let.binding)).bind fun env =>
          body'.mapM (evalTensor twoOutputs.toInterp (fun _ _ => none) env)) = none := by
  refine ⟨?_, ?_,
    [⟨["__knok_node_1"], .call (.split 0 [1, 1]) [.var "x"]⟩],
    [.tupleGet 0 (.var "__knok_node_1") 0], by decide, rfl, rfl⟩
  · intro i v w hv hw
    simp [projectedNodeBody, Expr.subexprs] at hv hw
    rw [hv.2, hw.2]
  · simp [projectedNodeBody, Expr.subexprs]

end Knok
