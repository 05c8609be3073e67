import Mathlib
import Knok.Normalize
import Knok.Sharing
import Knok.TypedSemantics

/-!
# Tracing

A build script traces a graph function by running it on tensor handles: every call
of a tracing function records an expression under a new handle.  Repeated use of a
handle copies its expression, so the expression of an operation is wrapped in a node
with an id taken from a counter of the process, and the projections of a multi-output
call share a tuple id taken from another.  When the function returns, `finish` binds
the nodes of the returned handles by lets and type-checks the graph.

Every run keeps ids unique (`Tracer.Inv`), whatever other traces take from the
counters meanwhile.  The traced graph therefore always gets through the binding of
nodes, is unambiguous if it is accepted (`finish_unambiguous`), and computes what the
traced function computes when it is run on tensors (`finish_denotes`).

### Design decisions

* **A traced function** is the list of the steps that it makes on its context; a
  step refers to the handles of earlier steps.
* **Counters** are 64 bits wide and wrap.  Ids are unique as long as a process takes
  fewer than `2^64` of them.
-/

namespace Knok

open Control

universe u

/-! ## Steps -/

/-- An operand of a traced operation: a handle, or a scalar. -/
inductive Operand
  | handle (index : ℕ)
  | literal (value : String) (elem : ElementType)

/-- An operation that tracing functions record: any but a call of another graph. -/
structure TracedOp where
  op : CallOp
  not_graph : ∀ name, op ≠ .graph name

/-- One step of a traced function. -/
inductive TraceStep
  /-- `TraceContext::input`. -/
  | input (name : String) (ty : TensorType)
  /-- The negation operator. -/
  | neg (value : ℕ)
  /-- An arithmetic operator. -/
  | binary (op : BinaryOp) (lhs : ℕ) (rhs : Operand)
  /-- A tracing function with one output. -/
  | call (op : TracedOp) (args : List Operand)
  /-- A static random tensor, which is recorded without a node. -/
  | static (op : TracedOp) (args : List Operand)
  /-- A tracing function with several outputs. -/
  | tuple (op : TracedOp) (args : List Operand) (count : ℕ)
  /-- Ids taken elsewhere in the process. -/
  | elsewhere (nodes tuples : ℕ)

/-! ## The tracer -/

/-- Number of ids before a counter wraps. -/
def idRange : ℕ := 2 ^ 64

/-- A tracing context with the handles it has given out, and the counters of the
process: how many ids have been taken from each, plus one. -/
structure Tracer where
  inputs : List Input
  handles : List Expr
  nextNode : ℕ
  nextTuple : ℕ

namespace Tracer

/-- A context of a new trace, in a process that has taken ids before. -/
def new (nodes tuples : ℕ) : Tracer := ⟨[], [], nodes + 1, tuples + 1⟩

variable (s : Tracer)

/-- Gives out a handle. -/
def record (e : Expr) : Tracer := { s with handles := s.handles ++ [e] }

/-- Gives out a handle of a node with a new id. -/
def nodeExpr (value : Expr) : Tracer :=
  { s.record (.node (s.nextNode % idRange) value) with nextNode := s.nextNode + 1 }

/-- Gives out handles of the projections of a call, under a new tuple id. -/
def fromTupleExpr (count : ℕ) (value : Expr) : Tracer :=
  { s with
    handles := s.handles ++ (List.range count).map fun index =>
      .tupleGet (s.nextTuple % idRange) value index
    nextTuple := s.nextTuple + 1 }

/-- The expression of an operand. -/
def operand : Operand → Option Expr
  | .handle index => s.handles[index]?
  | .literal value elem => some (.const value elem)

/-- One step; there is none from handles that were not given out. -/
def step : TraceStep → Option Tracer
  | .input name ty => some { s.record (.var name) with inputs := s.inputs ++ [⟨name, ty⟩] }
  | .neg value => do return s.nodeExpr (.unary .neg (← s.handles[value]?))
  | .binary op lhs rhs => do
      let lhs ← s.handles[lhs]?
      let rhs ← s.operand rhs
      return s.nodeExpr (.binary op lhs rhs)
  | .call op args => do return s.nodeExpr (.call op.op (← args.mapM s.operand))
  | .static op args => do return s.record (.call op.op (← args.mapM s.operand))
  | .tuple op args count => do
      return s.fromTupleExpr count (.call op.op (← args.mapM s.operand))
  | .elsewhere nodes tuples =>
      some { s with nextNode := s.nextNode + nodes, nextTuple := s.nextTuple + tuples }

/-- The steps of a traced function. -/
def run : List TraceStep → Tracer → Option Tracer
  | [], s => some s
  | step :: steps, s => (s.step step).bind (run steps)

/-- The typed graph of the returned handles: nodes become lets, and the graph is
type-checked without other graphs to call. -/
def finish (name backend : String) (outputs : List TensorType) (body : List Expr) :
    Except Error TypedGraph := do
  let (lets, body) ← letBindNodes body (s.inputs.map Input.name)
  typeCheck ⟨name, backend, s.inputs, outputs, lets, body⟩ []

/-! ## Ids are unique -/

/-- What holds of every context that a run reaches: an id has one payload and has been
taken, projections are of calls, and variables are inputs. -/
structure Inv : Prop where
  nodes : SharedNodes s.handles
  nodeIds : ∀ e ∈ s.handles, ∀ i p, Expr.node i p ∈ e.subexprs → i < s.nextNode
  tuples : SharedTuples s.handles
  tupleIds : ∀ e ∈ s.handles, ∀ t p k, Expr.tupleGet t p k ∈ e.subexprs → t < s.nextTuple
  projected : ∀ e ∈ s.handles, ∀ t p k, Expr.tupleGet t p k ∈ e.subexprs →
    ∃ op args, p = .call op args
  vars : ∀ e ∈ s.handles, ∀ x ∈ e.vars, x ∈ s.inputs.map Input.name

/-- What a step may add to the expressions of the handles; `payload` is what it records
under a new id. -/
inductive Adds (s s' : Tracer) (payload : Expr) : Expr → Prop
  | old {e sub : Expr} (he : e ∈ s.handles) (hsub : sub ∈ e.subexprs) : Adds s s' payload sub
  | var {name : String} (h : name ∈ s'.inputs.map Input.name) : Adds s s' payload (.var name)
  | const (value : String) (elem : ElementType) : Adds s s' payload (.const value elem)
  | unary (op : UnaryOp) (value : Expr) : Adds s s' payload (.unary op value)
  | binary (op : BinaryOp) (lhs rhs : Expr) : Adds s s' payload (.binary op lhs rhs)
  | call (op : CallOp) (args : List Expr) : Adds s s' payload (.call op args)
  | node (h : s.nextNode < s'.nextNode) : Adds s s' payload (.node s.nextNode payload)
  | tupleGet (h : s.nextTuple < s'.nextTuple) (hcall : ∃ op args, payload = .call op args)
      (index : ℕ) : Adds s s' payload (.tupleGet s.nextTuple payload index)

variable {s} {s' : Tracer} {payload : Expr}

/-- A step that adds only this keeps ids unique. -/
theorem Inv.adds (h : s.Inv) (payload : Expr) (hnode : s.nextNode ≤ s'.nextNode)
    (htuple : s.nextTuple ≤ s'.nextTuple) (hinputs : s.inputs ⊆ s'.inputs)
    (hadds : ∀ e ∈ s'.handles, ∀ sub ∈ e.subexprs, Adds s s' payload sub) : s'.Inv := by
  -- a node is an old one with a smaller id, or the new one
  have hnodes : ∀ i p, (∃ e ∈ s'.handles, Expr.node i p ∈ e.subexprs) →
      (i < s.nextNode ∧ ∃ e ∈ s.handles, Expr.node i p ∈ e.subexprs) ∨
        i = s.nextNode ∧ p = payload ∧ s.nextNode < s'.nextNode := by
    rintro i p ⟨e, he, hsub⟩
    generalize hnode : Expr.node i p = sub at hsub
    cases hadds e he sub hsub with
    | old he hsub =>
        subst hnode
        exact .inl ⟨h.nodeIds _ he i p hsub, _, he, hsub⟩
    | node hlt =>
        cases hnode
        exact .inr ⟨rfl, rfl, hlt⟩
    | _ => cases hnode
  have htuples : ∀ t p k, (∃ e ∈ s'.handles, Expr.tupleGet t p k ∈ e.subexprs) →
      (t < s.nextTuple ∧ ∃ e ∈ s.handles, Expr.tupleGet t p k ∈ e.subexprs) ∨
        t = s.nextTuple ∧ p = payload ∧ s.nextTuple < s'.nextTuple ∧
          ∃ op args, payload = .call op args := by
    rintro t p k ⟨e, he, hsub⟩
    generalize hget : Expr.tupleGet t p k = sub at hsub
    cases hadds e he sub hsub with
    | old he hsub =>
        subst hget
        exact .inl ⟨h.tupleIds _ he t p k hsub, _, he, hsub⟩
    | tupleGet hlt hcall index =>
        cases hget
        exact .inr ⟨rfl, rfl, hlt, hcall⟩
    | _ => cases hget
  refine ⟨?_, ?_, ?_, ?_, ?_, ?_⟩
  · intro i p q hp hq
    rcases hnodes i p hp with ⟨hlt, hp⟩ | ⟨rfl, rfl, -⟩ <;>
      rcases hnodes _ q hq with ⟨hlt', hq⟩ | ⟨heq, rfl, -⟩
    · exact h.nodes i p q hp hq
    · exact absurd heq hlt.ne
    · exact absurd rfl hlt'.ne
    · rfl
  · intro e he i p hsub
    rcases hnodes i p ⟨e, he, hsub⟩ with ⟨hlt, -⟩ | ⟨rfl, -, hlt⟩
    · exact hlt.trans_le hnode
    · exact hlt
  · intro t p q k l hp hq
    rcases htuples t p k hp with ⟨hlt, hp⟩ | ⟨rfl, rfl, -⟩ <;>
      rcases htuples _ q l hq with ⟨hlt', hq⟩ | ⟨heq, rfl, -⟩
    · exact h.tuples t p q k l hp hq
    · exact absurd heq hlt.ne
    · exact absurd rfl hlt'.ne
    · rfl
  · intro e he t p k hsub
    rcases htuples t p k ⟨e, he, hsub⟩ with ⟨hlt, -⟩ | ⟨rfl, -, hlt, -⟩
    · exact hlt.trans_le htuple
    · exact hlt
  · intro e he t p k hsub
    rcases htuples t p k ⟨e, he, hsub⟩ with ⟨-, e', he', hsub'⟩ | ⟨-, rfl, -, hcall⟩
    · exact h.projected e' he' t p k hsub'
    · exact hcall
  · intro e he x hx
    have hsub := Expr.mem_vars.mp hx
    generalize hvar : Expr.var x = sub at hsub
    cases hadds e he sub hsub with
    | old he hsub =>
        subst hvar
        exact List.map_subset _ hinputs (h.vars _ he x (Expr.mem_vars.mpr hsub))
    | var hmem =>
        cases hvar
        exact hmem
    | _ => cases hvar

theorem inv_new (nodes tuples : ℕ) : (new nodes tuples).Inv where
  nodes := by
    rintro i p q ⟨e, he, -⟩
    cases he
  nodeIds e he := absurd he List.not_mem_nil
  tuples := by
    rintro t p q k l ⟨e, he, -⟩
    cases he
  tupleIds e he := absurd he List.not_mem_nil
  projected e he := absurd he List.not_mem_nil
  vars e he := absurd he List.not_mem_nil

/-- A run takes ids, and does not give them back. -/
theorem step_mono {t : TraceStep} (h : s.step t = some s') :
    s.nextNode ≤ s'.nextNode ∧ s.nextTuple ≤ s'.nextTuple := by
  cases t with
  | input name ty =>
      cases h
      exact ⟨le_rfl, le_rfl⟩
  | elsewhere nodes tuples =>
      cases h
      exact ⟨Nat.le_add_right .., Nat.le_add_right ..⟩
  | binary op lhs rhs =>
      simp only [step, Option.bind_eq_bind, Option.bind_eq_some_iff] at h
      obtain ⟨l, -, r, -, h⟩ := h
      cases h
      exact ⟨Nat.le_succ _, le_rfl⟩
  | neg value | call op args | static op args | tuple op args count =>
      obtain ⟨e, -, h⟩ := Option.bind_eq_some_iff.mp h
      cases h
      simp [nodeExpr, record, fromTupleExpr]

theorem run_mono {steps : List TraceStep} :
    ∀ {s : Tracer}, run steps s = some s' → s.nextNode ≤ s'.nextNode ∧ s.nextTuple ≤ s'.nextTuple := by
  induction steps with
  | nil =>
      intro s h
      cases h
      exact ⟨le_rfl, le_rfl⟩
  | cons t steps ih =>
      intro s h
      obtain ⟨mid, hmid, hrest⟩ := Option.bind_eq_some_iff.mp h
      obtain ⟨hnode, htuple⟩ := step_mono hmid
      exact ⟨hnode.trans (ih hrest).1, htuple.trans (ih hrest).2⟩

/-- Operands are handles or scalars. -/
theorem adds_operand {o : Operand} {e sub : Expr} (ho : s.operand o = some e)
    (hsub : sub ∈ e.subexprs) : Adds s s' payload sub := by
  cases o with
  | handle index => exact .old (List.mem_of_getElem? ho) hsub
  | literal value elem =>
      obtain rfl := Option.some.inj ho
      obtain rfl := List.mem_singleton.mp hsub
      exact .const value elem

theorem adds_call {op : CallOp} {operands : List Operand} {args : List Expr} {sub : Expr}
    (hargs : operands.mapM s.operand = some args) (hsub : sub ∈ (Expr.call op args).subexprs) :
    Adds s s' payload sub := by
  rcases List.mem_cons.mp hsub with rfl | hsub
  · exact .call op args
  · obtain ⟨arg, harg, hsub⟩ := Expr.mem_subexprsList.mp hsub
    obtain ⟨o, -, ho⟩ := exists_mem_of_mapM hargs harg
    exact adds_operand ho hsub

/-- **One step keeps ids unique**, as long as the counters have not wrapped. -/
theorem Inv.step {t : TraceStep} (h : s.Inv) (hstep : s.step t = some s')
    (hnodes : s'.nextNode ≤ idRange) (htuples : s'.nextTuple ≤ idRange) : s'.Inv := by
  have hold : ∀ {s' : Tracer} {payload : Expr}, ∀ e ∈ s.handles, ∀ sub ∈ e.subexprs,
      Adds s s' payload sub := fun e he sub hsub => .old he hsub
  -- the new handles of a node
  have hnode : ∀ {value : Expr}, s.nextNode + 1 ≤ idRange →
      (∀ {s' : Tracer}, ∀ sub ∈ value.subexprs, Adds s s' value sub) → (s.nodeExpr value).Inv := by
    intro value hrange hvalue
    refine h.adds value (Nat.le_succ _) le_rfl (List.Subset.refl _) fun e he sub hsub => ?_
    rcases List.mem_append.mp he with he | he
    · exact hold e he sub hsub
    · obtain rfl := List.mem_singleton.mp he
      rcases List.mem_cons.mp hsub with rfl | hsub
      · rw [Nat.mod_eq_of_lt hrange]
        exact .node (Nat.lt_succ_self _)
      · exact hvalue sub hsub
  cases t with
  | input name ty =>
      cases hstep
      refine h.adds (.var name) le_rfl le_rfl (List.subset_append_left ..) fun e he sub hsub => ?_
      rcases List.mem_append.mp he with he | he
      · exact hold e he sub hsub
      · obtain rfl := List.mem_singleton.mp he
        obtain rfl := List.mem_singleton.mp hsub
        exact .var (by simp)
  | elsewhere nodes tuples =>
      cases hstep
      exact h.adds (.var "") (Nat.le_add_right ..) (Nat.le_add_right ..) (List.Subset.refl _)
        fun e he sub hsub => hold e he sub hsub
  | neg value =>
      obtain ⟨e, he, hstep⟩ := Option.bind_eq_some_iff.mp hstep
      cases hstep
      refine hnode hnodes fun sub hsub => ?_
      rcases List.mem_cons.mp hsub with rfl | hsub
      · exact .unary _ _
      · exact .old (List.mem_of_getElem? he) hsub
  | binary op lhs rhs =>
      simp only [Tracer.step, Option.bind_eq_bind, Option.bind_eq_some_iff] at hstep
      obtain ⟨l, hl, r, hr, hstep⟩ := hstep
      cases hstep
      refine hnode hnodes fun sub hsub => ?_
      rcases List.mem_cons.mp hsub with rfl | hsub
      · exact .binary _ _ _
      · rcases List.mem_append.mp hsub with hsub | hsub
        · exact .old (List.mem_of_getElem? hl) hsub
        · exact adds_operand hr hsub
  | call op args =>
      obtain ⟨es, hes, hstep⟩ := Option.bind_eq_some_iff.mp hstep
      cases hstep
      exact hnode hnodes fun sub hsub => adds_call hes hsub
  | static op args =>
      obtain ⟨es, hes, hstep⟩ := Option.bind_eq_some_iff.mp hstep
      cases hstep
      refine h.adds (.var "") le_rfl le_rfl (List.Subset.refl _) fun e he sub hsub => ?_
      rcases List.mem_append.mp he with he | he
      · exact hold e he sub hsub
      · obtain rfl := List.mem_singleton.mp he
        exact adds_call hes hsub
  | tuple op args count =>
      obtain ⟨es, hes, hstep⟩ := Option.bind_eq_some_iff.mp hstep
      cases hstep
      refine h.adds (.call op.op es) le_rfl (Nat.le_succ _) (List.Subset.refl _)
        fun e he sub hsub => ?_
      rcases List.mem_append.mp he with he | he
      · exact hold e he sub hsub
      · obtain ⟨index, -, rfl⟩ := List.mem_map.mp he
        rcases List.mem_cons.mp hsub with rfl | hsub
        · rw [Nat.mod_eq_of_lt htuples]
          exact .tupleGet (Nat.lt_succ_self _) ⟨_, _, rfl⟩ index
        · exact adds_call hes hsub

/-- **Every run keeps ids unique.** -/
theorem Inv.run {steps : List TraceStep} : ∀ {s : Tracer}, s.Inv → run steps s = some s' →
    s'.nextNode ≤ idRange → s'.nextTuple ≤ idRange → s'.Inv := by
  induction steps with
  | nil =>
      intro s h hrun _ _
      cases hrun
      exact h
  | cons t steps ih =>
      intro s h hrun hnodes htuples
      obtain ⟨mid, hmid, hrest⟩ := Option.bind_eq_some_iff.mp hrun
      obtain ⟨hnode, htuple⟩ := run_mono hrest
      exact ih (h.step hmid (hnode.trans hnodes) (htuple.trans htuples)) hrest hnodes htuples

end Tracer

/-! ## Binding the nodes -/

/-- Nodes in binding order, with names and payloads. -/
structure NodeOrder (body : List Expr) (reserved : List String) (order : List ℕ)
    (name : ℕ → String) (payload : ℕ → Expr) : Prop where
  nodup : order.Nodup
  occurs : ∀ i ∈ order, ∃ e ∈ body, Expr.node i (payload i) ∈ e.subexprs
  listed : ∀ e ∈ body, ∀ i p, Expr.node i p ∈ e.subexprs → i ∈ order ∧ payload i = p
  inner : ∀ before i, before ++ [i] <+: order →
    ∀ j q, Expr.node j q ∈ (payload i).subexprs → j ∈ before ∧ payload j = q
  fresh : ∀ i ∈ order, name i ∉ reserved
  inj : ∀ i ∈ order, ∀ j ∈ order, name i = name j → i = j

/-- **Nodes with one payload each are bound**, whatever names are reserved. -/
theorem exists_nodeOrder {body : List Expr} (reserved : List String) (hshared : SharedNodes body) :
    ∃ order name payload, NodeOrder body reserved order name payload ∧
      letBindNodes body reserved =
        .ok (order.map (substLet name payload), body.map (Expr.substNodes name)) := by
  obtain ⟨nodes, hcollect, hinv, hids⟩ := collectBodies_spec hshared
  have hname : ∀ i ∈ nodes.order, ∃ name,
      assignNames nodes.order reserved (fun _ => none) i = some name ∧ name ∉ reserved :=
    fun i hi => assignNames_mem reserved _ hinv.nodup hi
  choose! name hname hfresh using hname
  have hpayload : ∀ i ∈ nodes.order, ∃ p, nodes.values i = some p :=
    fun i hi => (hinv.recorded i).mp hi
  have : Nonempty Expr := ⟨.var ""⟩
  choose! payload hpayload using hpayload
  have hocc : ∀ i ∈ nodes.order, ∃ e ∈ body, Expr.node i (payload i) ∈ e.subexprs :=
    fun i hi => hinv.occurs i _ (hpayload i hi)
  have hlisted : ∀ e ∈ body, ∀ i p, Expr.node i p ∈ e.subexprs → i ∈ nodes.order ∧ payload i = p := by
    intro e he i p hmem
    have hi : i ∈ nodes.order := (hids i).mpr ⟨e, he, p, hmem⟩
    exact ⟨hi, hshared i _ _ (hocc i hi) ⟨e, he, hmem⟩⟩
  -- the nodes of a payload are nodes of the body it occurs in
  have hinside : ∀ i ∈ nodes.order, ∀ j q, Expr.node j q ∈ (payload i).subexprs →
      j ∈ nodes.order ∧ payload j = q := by
    intro i hi j q hmem
    obtain ⟨e, he, hoccurs⟩ := hocc i hi
    exact hlisted e he j q (Expr.mem_subexprs_trans (Expr.mem_subexprs_node i hmem) hoccurs)
  refine ⟨nodes.order, name, payload, ⟨hinv.nodup, hocc, hlisted, ?_, hfresh, ?_⟩, ?_⟩
  · intro before i hprefix j q hmem
    have hi : i ∈ nodes.order :=
      hprefix.subset (List.mem_append_right before (List.mem_singleton_self i))
    exact ⟨hinv.inner_first before i hprefix _ (hpayload i hi) j q hmem, (hinside i hi j q hmem).2⟩
  · intro i hi j hj heq
    exact assignNames_inj hinv.nodup hi hj (hname i hi) (heq ▸ hname j hj)
  · refine letBindNodes_eq_ok hcollect hname hpayload ?_ ?_
    · rintro i hi j ⟨q, hq⟩
      exact (hinside i hi j q hq).1
    · rintro e he i ⟨p, hp⟩
      exact (hlisted e he i p hp).1

/-- Projections that are left after binding are those of before. -/
theorem exists_tupleGet_of_substNodes {name : ℕ → String} {e v : Expr} {t k : ℕ}
    (h : Expr.tupleGet t v k ∈ (e.substNodes name).subexprs) :
    ∃ w, v = w.substNodes name ∧ Expr.tupleGet t w k ∈ e.subexprs := by
  induction e with
  | var x => simp [Expr.substNodes, Expr.subexprs] at h
  | const value elem => simp [Expr.substNodes, Expr.subexprs] at h
  | node i p _ => simp [Expr.substNodes, Expr.subexprs] at h
  | unary op value ih =>
      obtain ⟨w, hw, hmem⟩ := ih (by simpa [Expr.substNodes, Expr.subexprs] using h)
      exact ⟨w, hw, by simp [Expr.subexprs, hmem]⟩
  | binary op lhs rhs ihl ihr =>
      have hsides : Expr.tupleGet t v k ∈ (lhs.substNodes name).subexprs ∨
          Expr.tupleGet t v k ∈ (rhs.substNodes name).subexprs := by
        simpa [Expr.substNodes, Expr.subexprs] using h
      rcases hsides with hside | hside
      · obtain ⟨w, hw, hmem⟩ := ihl hside
        exact ⟨w, hw, by simp [Expr.subexprs, hmem]⟩
      · obtain ⟨w, hw, hmem⟩ := ihr hside
        exact ⟨w, hw, by simp [Expr.subexprs, hmem]⟩
  | tupleGet tupleId value index ih =>
      rcases List.mem_cons.mp h with heq | h
      · cases heq
        exact ⟨value, rfl, Expr.mem_subexprs_self _⟩
      · obtain ⟨w, hw, hmem⟩ := ih h
        exact ⟨w, hw, List.mem_cons_of_mem _ hmem⟩
  | call op args ih =>
      obtain ⟨arg, harg, h⟩ : ∃ arg ∈ args, Expr.tupleGet t v k ∈ (arg.substNodes name).subexprs := by
        simpa [Expr.substNodes, Expr.subexprs] using h
      obtain ⟨w, hw, hmem⟩ := ih arg harg h
      exact ⟨w, hw, List.mem_cons_of_mem _ (Expr.mem_subexprsList.mpr ⟨arg, harg, hmem⟩)⟩

/-! ## Finished graphs -/

section Finish

variable {s : Tracer} {results : List ℕ} {body : List Expr}

/-- The returned expressions are handles. -/
theorem mem_handles_of_mapM (hbody : results.mapM (s.handles[·]?) = some body) :
    ∀ e ∈ body, e ∈ s.handles := by
  intro e he
  obtain ⟨k, -, hk⟩ := exists_mem_of_mapM hbody he
  exact List.mem_of_getElem? hk

/-- Fewer expressions share less. -/
theorem SharedNodes.of_subset {es es' : List Expr} (h : SharedNodes es) (hsub : ∀ e ∈ es', e ∈ es) :
    SharedNodes es' := by
  rintro i p q ⟨e, he, hp⟩ ⟨e', he', hq⟩
  exact h i p q ⟨e, hsub e he, hp⟩ ⟨e', hsub e' he', hq⟩

variable {order : List ℕ} {name : ℕ → String} {payload : ℕ → Expr} {graph backend : String}
  {outputs : List TensorType} {typed : TypedGraph}

/-- What is type-checked. -/
theorem finish_eq (hbind : letBindNodes body (s.inputs.map Input.name) =
      .ok (order.map (substLet name payload), body.map (Expr.substNodes name))) :
    s.finish graph backend outputs body = typeCheck ⟨graph, backend, s.inputs, outputs,
      order.map (substLet name payload), body.map (Expr.substNodes name)⟩ [] := by
  rw [Tracer.finish, hbind]
  rfl

/-- The expressions of a finished graph are parts of the returned ones, with names for
nodes. -/
theorem exists_of_mem_exprs (horder : NodeOrder body (s.inputs.map Input.name) order name payload)
    (hcheck : typeCheck ⟨graph, backend, s.inputs, outputs, order.map (substLet name payload),
      body.map (Expr.substNodes name)⟩ [] = .ok typed) {e : Expr} (he : e ∈ typed.exprs) :
    ∃ e₀ : Expr, e = e₀.substNodes name ∧ ∀ sub ∈ e₀.subexprs, ∃ b ∈ body, sub ∈ b.subexprs := by
  have hsame := sameGraph_of_typeCheck hcheck
  have hlets : typed.lets.map (fun binding => binding.value.kind) =
      order.map fun i => (payload i).substNodes name := by
    have h := congrArg (List.map Prod.snd) hsame.lets
    simp only [List.map_map] at h
    exact h
  rw [TypedGraph.exprs, hlets, hsame.body] at he
  rcases List.mem_append.mp he with he | he
  · obtain ⟨i, hi, rfl⟩ := List.mem_map.mp he
    obtain ⟨b, hb, hmem⟩ := horder.occurs i hi
    exact ⟨payload i, rfl, fun sub hsub =>
      ⟨b, hb, Expr.mem_subexprs_trans (Expr.mem_subexprs_node i hsub) hmem⟩⟩
  · obtain ⟨b, hb, rfl⟩ := List.mem_map.mp he
    exact ⟨b, rfl, fun sub hsub => ⟨b, hb, hsub⟩⟩

/-- The lets of a finished graph rebind no name. -/
theorem noRebinding_of_finish
    (horder : NodeOrder body (s.inputs.map Input.name) order name payload)
    (hcheck : typeCheck ⟨graph, backend, s.inputs, outputs, order.map (substLet name payload),
      body.map (Expr.substNodes name)⟩ [] = .ok typed) : typed.NoRebinding := by
  have hsame := sameGraph_of_typeCheck hcheck
  have hnames : typed.lets.flatMap TypedLet.names = order.map name := by
    rw [flatMap_names_eq hsame.lets, List.flatMap_map]
    exact List.flatMap_pure_eq_map name order
  refine ⟨?_, ?_⟩
  · rw [hnames]
    exact horder.nodup.map_on fun i hi j hj heq => horder.inj i hi j hj heq
  · intro x hx hinput
    rw [hnames] at hx
    obtain ⟨i, hi, rfl⟩ := List.mem_map.mp hx
    rw [hsame.inputs] at hinput
    exact horder.fresh i hi hinput

/-- **A finished trace is unambiguous.**  After any steps of a traced function, and
whatever ids are taken elsewhere in the process in between, the nodes of the returned
handles can be bound by lets; and if the type checker accepts the result, no node is left
in it, every tuple id has one payload and no name is bound twice. -/
theorem finish_unambiguous {steps : List TraceStep} {nodes tuples : ℕ}
    (hrun : Tracer.run steps (.new nodes tuples) = some s) (hnodes : s.nextNode ≤ idRange)
    (htuples : s.nextTuple ≤ idRange) (hbody : results.mapM (s.handles[·]?) = some body)
    (graph backend : String) (outputs : List TensorType) :
    ∃ lets body', letBindNodes body (s.inputs.map Input.name) = .ok (lets, body') ∧
      s.finish graph backend outputs body =
        typeCheck ⟨graph, backend, s.inputs, outputs, lets, body'⟩ [] ∧
      ∀ typed, s.finish graph backend outputs body = .ok typed →
        typed.Unambiguous ∧ ∀ e ∈ typed.exprs, ∀ i p, Expr.node i p ∉ e.subexprs := by
  have hinv := (Tracer.inv_new nodes tuples).run hrun hnodes htuples
  have hhandles := mem_handles_of_mapM hbody
  obtain ⟨order, name, payload, horder, hbind⟩ :=
    exists_nodeOrder (s.inputs.map Input.name) (hinv.nodes.of_subset hhandles)
  refine ⟨_, _, hbind, finish_eq hbind, fun typed hfinish => ?_⟩
  rw [finish_eq hbind] at hfinish
  have hnode : ∀ e ∈ typed.exprs, ∀ i p, Expr.node i p ∉ e.subexprs := by
    intro e he i p
    obtain ⟨e₀, rfl, -⟩ := exists_of_mem_exprs horder hfinish he
    exact Expr.node_not_mem_substNodes name e₀ i p
  refine ⟨⟨⟨_, _, hfinish⟩, ?_, ?_, noRebinding_of_finish horder hfinish⟩, hnode⟩
  · rintro i p q ⟨e, he, hp⟩ -
    exact absurd hp (hnode e he i p)
  · -- a tuple of the graph is one of the trace
    have htuple : ∀ t v k, (∃ e ∈ typed.exprs, Expr.tupleGet t v k ∈ e.subexprs) →
        ∃ w : Expr, v = w.substNodes name ∧ ∃ e ∈ s.handles, Expr.tupleGet t w k ∈ e.subexprs := by
      rintro t v k ⟨e, he, hmem⟩
      obtain ⟨e₀, rfl, hsub⟩ := exists_of_mem_exprs horder hfinish he
      obtain ⟨w, hw, hmem⟩ := exists_tupleGet_of_substNodes hmem
      obtain ⟨b, hb, hmem⟩ := hsub _ hmem
      exact ⟨w, hw, b, hhandles b hb, hmem⟩
    intro t v w k l hv hw
    obtain ⟨v₀, rfl, hv₀⟩ := htuple t v k hv
    obtain ⟨w₀, rfl, hw₀⟩ := htuple t w l hw
    rw [hinv.tuples t v₀ w₀ k l hv₀ hw₀]

end Finish

/-! ## Running on tensors -/

section Values

variable {V : Type u} (S : OpSemantics V)

/-- The value of an operand, given those of the handles. -/
def Operand.value (values : List (Option V)) : Operand → Option V
  | .handle index => (values[index]?).join
  | .literal value elem => S.const value elem

/-- The results of a traced operation. -/
def TracedOp.results (op : TracedOp) (operands : List Operand) (values : List (Option V)) :
    Option (List V) :=
  (operands.mapM (Operand.value S values)).bind (S.call op.op)

/-- The values that a step gives to its new handles, when the traced function is run on
the arguments: each step computes at once, and fails on values that are missing. -/
def TraceStep.results (args : List V) (values : List (Option V)) : TraceStep → List (Option V)
  | .input _ _ => [args.head?]
  | .neg value => [((values[value]?).join).bind (S.unary .neg)]
  | .binary op lhs rhs =>
      [((values[lhs]?).join).bind fun l => (rhs.value S values).bind fun r => S.binary op l r]
  | .call op operands | .static op operands => [(op.results S operands values).bind single]
  | .tuple op operands count =>
      (List.range count).map fun index => (op.results S operands values).bind (·[index]?)
  | .elsewhere _ _ => []

/-- The arguments that are left after a step. -/
def TraceStep.remaining (args : List V) : TraceStep → List V
  | .input _ _ => args.tail
  | _ => args

/-- The values of all handles of a traced function that is run on arguments. -/
def runOnTensors : List TraceStep → List V → List (Option V) → List (Option V)
  | [], _, values => values
  | t :: steps, args, values =>
      runOnTensors steps (t.remaining args) (values ++ t.results S args values)

variable {S} {s s' : Tracer} {args : List V} {values : List (Option V)} {env : Env V}

/-- The arguments are passed under the names of the inputs. -/
def Tracer.Passes (env : Env V) (all : List V) (s : Tracer) : Prop :=
  ∀ (k : ℕ) (input : Input), s.inputs[k]? = some input → env input.name = all[k]?

/-- The handles have the values, and these arguments are left. -/
structure Tracer.Computes (S : OpSemantics V) (env : Env V) (all : List V) (s : Tracer)
    (args : List V) (values : List (Option V)) : Prop where
  values : s.handles.map (evalTensor S.toInterp noCalls env) = values
  args : args = all.drop s.inputs.length

theorem Tracer.Computes.handle {all : List V} (h : s.Computes S env all args values) {k : ℕ}
    {e : Expr} (he : s.handles[k]? = some e) :
    (values[k]?).join = evalTensor S.toInterp noCalls env e := by
  rw [← h.values, List.getElem?_map, he]
  rfl

theorem Tracer.Computes.operand {all : List V} (h : s.Computes S env all args values)
    {o : Operand} {e : Expr} (he : s.operand o = some e) :
    o.value S values = evalTensor S.toInterp noCalls env e := by
  cases o with
  | handle index => exact h.handle he
  | literal value elem =>
      obtain rfl := Option.some.inj he
      rw [evalTensor_const]
      rfl

theorem Tracer.Computes.call {all : List V} (h : s.Computes S env all args values) (op : TracedOp)
    {operands : List Operand} {es : List Expr} (hes : operands.mapM s.operand = some es) :
    op.results S operands values = evalOutputs S.toInterp noCalls env (.call op.op es) := by
  have hargs : operands.mapM (Operand.value S values) =
      es.mapM (evalTensor S.toInterp noCalls env) := by
    have hall := option_mapM_eq_some_iff.mp hes
    clear hes
    induction hall with
    | nil => rfl
    | cons hfirst _ ih => rw [List.mapM_cons, List.mapM_cons, h.operand hfirst, ih]
  rw [evalOutputs_call _ _ _ op.not_graph, evalArgs_eq_mapM, ← hargs]
  rfl

/-- **One step** records what it computes. -/
theorem Tracer.Computes.step {all : List V} {t : TraceStep} (h : s.Computes S env all args values)
    (hstep : s.step t = some s')
    (henv : s'.Passes env all) :
    s'.Computes S env all (t.remaining args) (values ++ t.results S args values) := by
  -- the expressions that are appended to the handles
  have happend : ∀ {es : List Expr} {vs : List (Option V)},
      es.map (evalTensor S.toInterp noCalls env) = vs →
      (s.handles ++ es).map (evalTensor S.toInterp noCalls env) = values ++ vs := by
    intro es vs hes
    rw [List.map_append, h.values, hes]
  cases t with
  | input name ty =>
      cases hstep
      refine ⟨happend ?_, ?_⟩
      · have hname := henv s.inputs.length ⟨name, ty⟩ (by simp)
        rw [List.map_singleton, evalTensor_var, hname]
        show [all[s.inputs.length]?] = [args.head?]
        rw [h.args, List.head?_drop]
      · show args.tail = _
        rw [h.args, List.tail_drop, List.length_append]
        rfl
  | elsewhere nodes tuples =>
      cases hstep
      refine ⟨?_, h.args⟩
      rw [TraceStep.results, List.append_nil]
      exact h.values
  | neg value =>
      obtain ⟨e, he, hstep⟩ := Option.bind_eq_some_iff.mp hstep
      cases hstep
      refine ⟨happend ?_, h.args⟩
      rw [List.map_singleton, evalTensor_node, evalTensor_unary, ← h.handle he]
      rfl
  | binary op lhs rhs =>
      simp only [Tracer.step, Option.bind_eq_bind, Option.bind_eq_some_iff] at hstep
      obtain ⟨l, hl, r, hr, hstep⟩ := hstep
      cases hstep
      refine ⟨happend ?_, h.args⟩
      rw [List.map_singleton, evalTensor_node, evalTensor_binary, ← h.handle hl, ← h.operand hr]
      rfl
  | call op operands =>
      obtain ⟨es, hes, hstep⟩ := Option.bind_eq_some_iff.mp hstep
      cases hstep
      refine ⟨happend ?_, h.args⟩
      rw [List.map_singleton, evalTensor_node, evalTensor, ← h.call op hes]
      rfl
  | static op operands =>
      obtain ⟨es, hes, hstep⟩ := Option.bind_eq_some_iff.mp hstep
      cases hstep
      refine ⟨happend ?_, h.args⟩
      rw [List.map_singleton, evalTensor, ← h.call op hes]
      rfl
  | tuple op operands count =>
      obtain ⟨es, hes, hstep⟩ := Option.bind_eq_some_iff.mp hstep
      cases hstep
      refine ⟨happend ?_, h.args⟩
      rw [List.map_map]
      refine List.map_congr_left fun index _ => ?_
      rw [Function.comp_apply, evalTensor_tupleGet, ← h.call op hes]

/-- Inputs are appended. -/
theorem Tracer.run_inputs {steps : List TraceStep} :
    ∀ {s : Tracer}, Tracer.run steps s = some s' → s.inputs <+: s'.inputs := by
  induction steps with
  | nil =>
      intro s h
      cases h
      exact List.prefix_refl _
  | cons t steps ih =>
      intro s h
      obtain ⟨mid, hmid, hrest⟩ := Option.bind_eq_some_iff.mp h
      refine List.IsPrefix.trans ?_ (ih hrest)
      cases t with
      | input name ty =>
          cases hmid
          exact List.prefix_append ..
      | elsewhere nodes tuples =>
          cases hmid
          exact List.prefix_refl _
      | binary op lhs rhs =>
          simp only [Tracer.step, Option.bind_eq_bind, Option.bind_eq_some_iff] at hmid
          obtain ⟨l, -, r, -, hmid⟩ := hmid
          cases hmid
          exact List.prefix_refl _
      | neg value | call op args | static op args | tuple op args count =>
          obtain ⟨e, -, hmid⟩ := Option.bind_eq_some_iff.mp hmid
          cases hmid
          exact List.prefix_refl _

/-- **A whole trace** records what it computes. -/
theorem Tracer.Computes.run {all : List V} {steps : List TraceStep} :
    ∀ {s : Tracer} {args : List V} {values : List (Option V)}, s.Computes S env all args values →
      Tracer.run steps s = some s' →
      s'.Passes env all →
      s'.handles.map (evalTensor S.toInterp noCalls env) = runOnTensors S steps args values := by
  induction steps with
  | nil =>
      intro s args values h hrun _
      cases hrun
      exact h.values
  | cons t steps ih =>
      intro s args values h hrun henv
      obtain ⟨mid, hmid, hrest⟩ := Option.bind_eq_some_iff.mp hrun
      refine ih (h.step hmid fun k input hk => henv k input ?_) hrest henv
      obtain ⟨rest, hinputs⟩ := Tracer.run_inputs hrest
      rw [← hinputs, List.getElem?_append_left (List.getElem?_eq_some_iff.mp hk).1, hk]

/-- The returned handles have the values of the traced function. -/
theorem mapM_handles {body : List Expr} {results : List ℕ}
    (hvalues : s.handles.map (evalTensor S.toInterp noCalls env) = values)
    (hbody : results.mapM (s.handles[·]?) = some body) :
    body.mapM (evalTensor S.toInterp noCalls env) = results.mapM fun k => (values[k]?).join := by
  have hall := option_mapM_eq_some_iff.mp hbody
  clear hbody
  induction hall with
  | nil => rfl
  | cons hfirst _ ih =>
      rw [List.mapM_cons, List.mapM_cons, ih, ← hvalues, List.getElem?_map, hfirst]
      rfl

/-- The values of the handles that a traced function returns, when it is run on tensors. -/
def returnedValues (S : OpSemantics V) (steps : List TraceStep) (args : List V)
    (results : List ℕ) : Option (List V) :=
  results.mapM fun k => ((runOnTensors S steps args [])[k]?).join

/-- **A finished trace computes what the traced function computes.**  Under every meaning
of the operations, a graph that `finish` accepts has, on all arguments, the outputs that
the traced function returns when every step is run at once; if a step that a returned
handle depends on fails, so does the graph. -/
theorem finish_denotes {steps : List TraceStep} {nodes tuples : ℕ} {results : List ℕ}
    {body : List Expr} {graph backend : String} {outputs : List TensorType} {typed : TypedGraph}
    (S : OpSemantics V) (hrun : Tracer.run steps (.new nodes tuples) = some s)
    (hnodes : s.nextNode ≤ idRange) (htuples : s.nextTuple ≤ idRange)
    (hbody : results.mapM (s.handles[·]?) = some body)
    (hinputs : (s.inputs.map Input.name).Nodup)
    (hfinish : s.finish graph backend outputs body = .ok typed) {args : List V}
    (hargs : args.length = s.inputs.length) :
    evalGraph S.toInterp noCalls typed args = returnedValues S steps args results := by
  have hinv := (Tracer.inv_new nodes tuples).run hrun hnodes htuples
  have hhandles := mem_handles_of_mapM hbody
  obtain ⟨order, name, payload, horder, hbind⟩ :=
    exists_nodeOrder (s.inputs.map Input.name) (hinv.nodes.of_subset hhandles)
  rw [finish_eq hbind] at hfinish
  have hsame := sameGraph_of_typeCheck hfinish
  have hlen : typed.inputs.length = args.length := by rw [hsame.inputs, hargs]
  -- the trace, with the arguments under the names of the inputs
  have hpasses : s.Passes (inputEnv typed args) args := by
    intro k input hinput
    obtain ⟨hk, -⟩ := List.getElem?_eq_some_iff.mp hinput
    rw [List.getElem?_eq_getElem (hargs ▸ hk)]
    refine bindNames_getElem (hsame.inputs ▸ hinputs) (k := k) ?_
      (List.getElem?_eq_getElem (hargs ▸ hk))
    rw [hsame.inputs, List.getElem?_map, hinput]
    rfl
  have hstart : (Tracer.new nodes tuples).Computes S (inputEnv typed args) args args [] :=
    ⟨rfl, rfl⟩
  have hvalues := hstart.run hrun hpasses
  have hprojected : ∀ e ∈ body, ProjectedNodesSingle S noCalls (inputEnv typed args) e := by
    intro e he t i p k hmem
    obtain ⟨op, es, hcall⟩ := hinv.projected e (hhandles e he) t _ k hmem
    cases hcall
  have heval := eval_substLet S noCalls (inputEnv typed args)
    (fun e he => hinv.vars e (hhandles e he)) horder.occurs horder.listed horder.inner
    horder.fresh horder.inj hprojected
  rw [returnedValues, ← mapM_handles hvalues hbody, ← heval, evalGraph, if_pos hlen, hsame.lets]
  refine congrArg _ (funext fun final => ?_)
  have hbodies : typed.body.map TypedExpr.kind = body.map (Expr.substNodes name) := hsame.body
  rw [← hbodies, List.mapM_map]
  rfl

end Values

/-! ## A trace -/

/-- Splits its input, adds the halves, and returns the sum and its square; other traces
take ids in between. -/
def halvesTrace : List TraceStep :=
  [.input "x" ⟨.f32, [2]⟩, .tuple ⟨.split 0 [1, 1], by simp⟩ [.handle 0] 2, .elsewhere 3 5,
    .binary .add 1 (.handle 2), .elsewhere 1 0, .call ⟨.square, by simp⟩ [.handle 3]]

/-- The context at the end. -/
def halvesTracer : Tracer where
  inputs := [⟨"x", ⟨.f32, [2]⟩⟩]
  handles :=
    let halves := Expr.call (.split 0 [1, 1]) [.var "x"]
    let sum := Expr.node 4 (.binary .add (.tupleGet 1 halves 0) (.tupleGet 1 halves 1))
    [.var "x", .tupleGet 1 halves 0, .tupleGet 1 halves 1, sum, .node 6 (.call .square [sum])]
  nextNode := 7
  nextTuple := 7

theorem run_halvesTrace : Tracer.run halvesTrace (.new 0 0) = some halvesTracer := rfl

/-- The expressions that it returns. -/
def halvesBody : List Expr := [3, 4].filterMap (halvesTracer.handles[·]?)

theorem mapM_halvesTracer : [3, 4].mapM (halvesTracer.handles[·]?) = some halvesBody := rfl

theorem finish_unambiguous_halvesTrace :
    ∃ lets body', letBindNodes halvesBody ["x"] = .ok (lets, body') ∧
      halvesTracer.finish "halves" "llvm-cpu" [⟨.f32, [1]⟩, ⟨.f32, [1]⟩] halvesBody =
        typeCheck ⟨"halves", "llvm-cpu", halvesTracer.inputs, [⟨.f32, [1]⟩, ⟨.f32, [1]⟩], lets,
          body'⟩ [] ∧
      ∀ typed, halvesTracer.finish "halves" "llvm-cpu" [⟨.f32, [1]⟩, ⟨.f32, [1]⟩] halvesBody =
          .ok typed →
        typed.Unambiguous ∧ ∀ e ∈ typed.exprs, ∀ i p, Expr.node i p ∉ e.subexprs :=
  finish_unambiguous run_halvesTrace (by decide) (by decide) mapM_halvesTracer _ _ _

theorem finish_denotes_halvesTrace : ∃ typed,
    halvesTracer.finish "halves" "llvm-cpu" [⟨.f32, [1]⟩, ⟨.f32, [1]⟩] halvesBody = .ok typed ∧
      evalGraph typeSemantics.toInterp noCalls typed [⟨.f32, [2]⟩] =
        returnedValues typeSemantics.toOpSemantics halvesTrace [⟨.f32, [2]⟩] [3, 4] := by
  have hsome : (halvesTracer.finish "halves" "llvm-cpu" [⟨.f32, [1]⟩, ⟨.f32, [1]⟩]
      halvesBody).toOption.isSome = true := by decide +kernel
  obtain ⟨typed, htyped⟩ := Option.isSome_iff_exists.mp hsome
  have h := except_toOption_eq_some_iff.mp htyped
  exact ⟨typed, h, finish_denotes typeSemantics.toOpSemantics run_halvesTrace (by decide)
    (by decide) mapM_halvesTracer (by decide) h rfl⟩

end Knok
