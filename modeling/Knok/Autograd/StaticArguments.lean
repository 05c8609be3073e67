import Mathlib
import Knok.StaticArguments
import Knok.Autograd.Naming

/-!
# Static arguments under differentiation

Flattening gives every operation a let of its own and leaves names and literals
in argument position.  A constant stays a constant; a negation becomes a name,
also where it stands under a static creation call and is part of a literal.

`callsMet` lists the static creation calls that flattening meets, in order, with
those of the callees it expands.  `emits_flattenBoth` says that these are the
static creation calls of the emitted lets, one for one, with flattened
arguments; so the arguments keep their static scalars exactly when no argument
is a negation (`keepsStatic_iff`), and one negation is enough for the final type
check to fail (`valueAndGradGraph_rejects`).
-/

namespace Knok.Autograd

open Control

/-- A static creation call with its arguments. -/
abbrev StaticCall := CallOp × List Expr

/-- The static creation calls of a list of lets. -/
def literalCalls (lets : List Let) : List StaticCall :=
  lets.filterMap fun binding =>
    match binding.value with
    | .call op args => if op.isStaticCreation then some (op, args) else none
    | _ => none

theorem literalCalls_append (lets lets' : List Let) :
    literalCalls (lets ++ lets') = literalCalls lets ++ literalCalls lets' :=
  List.filterMap_append

/-- The one static creation call that an operation is, if it is one. -/
def ownCall (op : CallOp) (args : List Expr) : List StaticCall :=
  if op.isStaticCreation then [(op, args)] else []

/-! ## The calls that flattening meets -/

section Met

variable (graphs : Registry) (calleeCalls : TypedGraph → List StaticCall)

mutual

/-- The static creation calls in an expression in the order in which flattening
emits them, those of the callees where they are called. -/
def callsMet : Expr → List StaticCall
  | .var _ | .const _ _ => []
  | .unary _ value => callsMet value
  | .binary _ lhs rhs => callsMet lhs ++ callsMet rhs
  | .node _ value => callsMet value
  | .tupleGet _ value _ => callsMet value
  | .call (.graph name) args =>
      callsMetList args ++ ((graphs.get name).map calleeCalls).getD []
  | .call op args => callsMetList args ++ ownCall op args

/-- The static creation calls in a list of arguments. -/
def callsMetList : List Expr → List StaticCall
  | [] => []
  | arg :: args => callsMet arg ++ callsMetList args

end

theorem mem_callsMetList {call : StaticCall} {args : List Expr} :
    call ∈ callsMetList graphs calleeCalls args ↔
      ∃ arg ∈ args, call ∈ callsMet graphs calleeCalls arg := by
  induction args with
  | nil => simp [callsMetList]
  | cons arg args ih => simp [callsMetList, ih]

/-- The static creation calls in the lets of a graph. -/
def callsMetLets (lets : List TypedLet) : List StaticCall :=
  lets.flatMap fun binding => callsMet graphs calleeCalls binding.value.kind

/-- The static creation calls in a body. -/
def callsMetBody (body : List TypedExpr) : List StaticCall :=
  body.flatMap fun e => callsMet graphs calleeCalls e.kind

end Met

/-- The static creation calls of a callee, with `depth` nested callees left. -/
def calleeCalls (graphs : Registry) : ℕ → TypedGraph → List StaticCall
  | 0, _ => []
  | depth + 1, graph =>
      callsMetLets graphs (calleeCalls graphs depth) graph.lets ++
        callsMetBody graphs (calleeCalls graphs depth) graph.body

/-- The static creation calls of a graph whose loss is differentiated. -/
def lossCalls (graphs : Registry) (depth : ℕ) (graph : TypedGraph) : List StaticCall :=
  callsMetLets graphs (calleeCalls graphs depth) graph.lets ++
    callsMetBody graphs (calleeCalls graphs depth) (graph.body.take 1)

/-! ## Flattened expressions -/

/-- A name or a literal. -/
def IsAtom : Expr → Prop
  | .var _ | .const _ _ => True
  | _ => False

/-- What flattening may return for an expression: an atom, which is the
expression itself if it is a constant, and a name if it is a negation. -/
structure FlatOf (e flat : Expr) : Prop where
  atom : IsAtom flat
  const : ∀ value elem, e = .const value elem → flat = e
  negation : ∀ op value, e = .unary op value → ∃ name, flat = .var name

/-- A flattened static creation call: the operation, and the flattened arguments. -/
def FlatCall (call flat : StaticCall) : Prop :=
  flat.1 = call.1 ∧ List.Forall₂ FlatOf call.2 flat.2

/-- What the names of a callee stand for are names and literals. -/
def AtomScope (scope : Scope) : Prop :=
  ∀ name flat, scope name = some flat → IsAtom flat.1

theorem literalCalls_singleton_of_atom {names : List String} {e : Expr} (h : IsAtom e) :
    literalCalls [⟨names, e⟩] = [] := by
  match e with
  | .var _ | .const _ _ => rfl

theorem AtomScope.empty : AtomScope fun _ => none := by
  intro name flat h
  cases h

theorem AtomScope.update {scope : Scope} (h : AtomScope scope) (name : String) (flat : Flat)
    (hflat : IsAtom flat.1) : AtomScope (Function.update scope name (some flat)) := by
  intro other flat' hother
  by_cases hname : other = name
  · subst hname
    rw [Function.update_self, Option.some.injEq] at hother
    exact hother ▸ hflat
  · rw [Function.update_of_ne hname] at hother
    exact h other flat' hother

/-! ## What flattening emits -/

/-- Every successful run appends lets whose static creation calls are `calls`,
flattened, and its result satisfies `Q`. -/
def Emits {α : Type} (m : BuilderM α) (calls : List StaticCall) (Q : α → Prop) : Prop :=
  ∀ s a s', m.run s = .ok (a, s') → Q a ∧
    ∃ lets, s'.lets = s.lets ++ lets ∧ List.Forall₂ FlatCall calls (literalCalls lets)

namespace Emits

variable {α β : Type} {c d : List StaticCall} {Q : α → Prop} {Q' : β → Prop}

theorem of_pure {a : α} (h : Q a) : Emits (pure a) [] Q := by
  intro s b s' hrun
  cases stateT_pure_eq_ok_iff.mp hrun
  exact ⟨h, [], (List.append_nil _).symm, .nil⟩

theorem of_throw (e : Error) (calls : List StaticCall) : Emits (throw e) calls Q := by
  intro s a s' hrun
  exact absurd hrun (by simp)

theorem of_lift {x : Except Error α} (h : ∀ a, x = .ok a → Q a) : Emits (liftM x) [] Q := by
  intro s a s' hrun
  obtain ⟨hx, rfl⟩ := stateT_lift_eq_ok_iff.mp hrun
  exact ⟨h a hx, [], (List.append_nil _).symm, .nil⟩

theorem bind {m : BuilderM α} {f : α → BuilderM β} (hm : Emits m c Q)
    (hf : ∀ a, Q a → Emits (f a) d Q') : Emits (m >>= f) (c ++ d) Q' := by
  intro s b s' hrun
  obtain ⟨a, mid, hfirst, hrest⟩ := stateT_bind_eq_ok_iff.mp hrun
  obtain ⟨ha, lets, hlets, hcalls⟩ := hm s a mid hfirst
  obtain ⟨hb, lets', hlets', hcalls'⟩ := hf a ha mid b s' hrest
  refine ⟨hb, lets ++ lets', by rw [hlets', hlets, List.append_assoc], ?_⟩
  rw [literalCalls_append]
  exact List.rel_append hcalls hcalls'

theorem weaken {m : BuilderM α} (h : Emits m c Q) {Q' : α → Prop}
    (hQ : ∀ a, Q a → Q' a) : Emits m c Q' := by
  intro s a s' hrun
  obtain ⟨ha, hlets⟩ := h s a s' hrun
  exact ⟨hQ a ha, hlets⟩

/-- A check before a computation. -/
theorem guarded {m : BuilderM α} (h : Emits m c Q) (P : Prop) [Decidable P] (e : Error) :
    Emits (do
      if P then throw e
      m) c Q := by
  by_cases hP : P
  · rw [if_pos hP]
    exact (of_throw (Q := fun _ : PUnit => True) e []).bind fun _ _ => h
  · rw [if_neg hP]
    exact h

/-- A step that emits no let. -/
theorem silent {m : BuilderM α} (h : ∀ s a s', m.run s = .ok (a, s') → s'.lets = s.lets ∧ Q a) :
    Emits m [] Q := by
  intro s a s' hrun
  obtain ⟨hlets, ha⟩ := h s a s' hrun
  exact ⟨ha, [], by rw [hlets, List.append_nil], .nil⟩

end Emits

/-- The binding steps return names. -/
def IsName (e : Expr) : Prop := ∃ name, e = .var name

theorem IsName.atom {e : Expr} (h : IsName e) : IsAtom e := by
  obtain ⟨name, rfl⟩ := h
  trivial

/-- The run of a step that takes a generated name for a let. -/
theorem run_bindForwardAuto (expr : Expr) (ty : TensorType) (s : Builder) :
    (bindForwardAuto expr ty).run s =
      .ok (.var s.autoName, s.takeName.bindForward s.autoName expr ty) := rfl

theorem emits_bindForwardAuto {expr : Expr} (ty : TensorType) {calls : List StaticCall}
    (h : ∀ names, List.Forall₂ FlatCall calls (literalCalls [⟨names, expr⟩])) :
    Emits (bindForwardAuto expr ty) calls IsName := by
  intro s a s' hrun
  rw [run_bindForwardAuto] at hrun
  obtain ⟨rfl, rfl⟩ := Prod.mk.inj (Except.ok.inj hrun)
  exact ⟨⟨_, rfl⟩, [⟨[s.autoName], expr⟩], rfl, h _⟩

/-- A let whose value is not a static creation call. -/
theorem emits_bindForwardAuto_other {expr : Expr} (ty : TensorType)
    (h : ∀ names, literalCalls [⟨names, expr⟩] = []) :
    Emits (bindForwardAuto expr ty) [] IsName := by
  apply emits_bindForwardAuto
  intro names
  rw [h names]
  exact .nil

theorem emits_nextAutoNames (count : ℕ) : Emits (nextAutoNames count) [] fun _ => True := by
  induction count with
  | zero => exact .of_pure trivial
  | succ count ih =>
      have hname : Emits nextAutoName [] fun _ => True := by
        apply Emits.silent
        intro s a s' hrun
        obtain ⟨-, rfl⟩ := Prod.mk.inj (Except.ok.inj hrun)
        exact ⟨rfl, trivial⟩
      exact hname.bind fun name _ => ih.bind fun names _ => .of_pure trivial

theorem emits_bindForwardOutputsAuto {expr : Expr} (tys : List TensorType)
    (h : ∀ names, literalCalls [⟨names, expr⟩] = []) :
    Emits (bindForwardOutputsAuto expr tys) [] fun flats => ∀ flat ∈ flats, IsAtom flat.1 := by
  refine (emits_nextAutoNames tys.length).bind (d := []) fun names _ => ?_
  intro s a s' hrun
  obtain ⟨rfl, rfl⟩ := Prod.mk.inj (Except.ok.inj hrun)
  refine ⟨?_, [⟨names, expr⟩], rfl, ?_⟩
  · intro flat hflat
    obtain ⟨pair, -, rfl⟩ := List.mem_map.mp hflat
    trivial
  · rw [h]
    exact .nil

/-! ## Flattening -/

section Flattening

variable {graphs : Registry} {calleeCalls : TypedGraph → List StaticCall}

/-- All atoms. -/
def Atoms (flats : List Flat) : Prop := ∀ flat ∈ flats, IsAtom flat.1

theorem emits_flattenVar {scope : Scope} (hscope : AtomScope scope) (name : String) :
    Emits (flattenVar scope name) [] fun flat => IsAtom flat.1 := by
  unfold flattenVar
  cases hname : scope name with
  | some flat => exact .of_pure (hscope name flat hname)
  | none =>
      apply Emits.silent
      intro s a s' hrun
      obtain ⟨env, mid, hget, hrest⟩ := stateT_bind_eq_ok_iff.mp hrun
      cases stateT_get_eq_ok_iff.mp hget
      cases henv : s.env name with
      | none => rw [henv] at hrest; exact absurd hrest (by simp)
      | some ty =>
          rw [henv] at hrest
          cases stateT_pure_eq_ok_iff.mp hrest
          exact ⟨rfl, trivial⟩

theorem emits_flattenSections (axis : ℕ) (input : Flat) (tys : List TensorType) :
    ∀ offset, Emits (flattenSections axis input offset tys) [] Atoms := by
  induction tys with
  | nil => exact fun _ => .of_pure (by simp [Atoms])
  | cons ty tys ih =>
      intro offset
      refine (emits_bindForwardAuto_other ty fun _ => rfl).bind fun expr hexpr => ?_
      refine (ih _).bind (d := []) fun rest hrest => .of_pure ?_
      intro flat hflat
      rcases List.mem_cons.mp hflat with rfl | hflat
      · exact hexpr.atom
      · exact hrest flat hflat

theorem emits_flattenSplitOutputs (axis : ℕ) (sections : List ℕ) (args : List Expr)
    {flatArgs : BuilderM (List Flat)} {calls : List StaticCall} {Q : List Flat → Prop}
    (hargs : Emits flatArgs calls Q) :
    Emits (flattenSplitOutputs axis sections args flatArgs) calls Atoms := by
  rw [← List.append_nil calls]
  refine Emits.guarded (hargs.bind fun flats _ => ?_) _ _
  rcases flats with _ | ⟨input, _ | ⟨_, _⟩⟩
  · exact .of_throw _ _
  · exact (Emits.of_lift (Q := fun _ => True) fun _ _ => trivial).bind fun tys _ =>
      emits_flattenSections axis input tys 0
  · exact .of_throw _ _

theorem emits_flattenMultiOutputCall (op : CallOp) (hop : op.isStaticCreation = false)
    {flatArgs : BuilderM (List Flat)} {calls : List StaticCall} {Q : List Flat → Prop}
    (hargs : Emits flatArgs calls Q) :
    Emits (flattenMultiOutputCall op flatArgs) calls Atoms := by
  have hbind : ∀ (args : List Flat) (tys : List TensorType),
      Emits (bindForwardOutputsAuto (.call op (args.map Prod.fst)) tys) [] Atoms :=
    fun args tys => emits_bindForwardOutputsAuto tys fun names => by simp [literalCalls, hop]
  have hrun : Emits (flattenMultiOutputCall op flatArgs) (calls ++ ([] ++ [])) Atoms := by
    unfold flattenMultiOutputCall
    exact hargs.bind fun args _ =>
      (Emits.of_lift (Q := fun _ => True) fun _ _ => trivial).bind fun tys _ =>
        (hbind _ _).guarded _ _
  rwa [List.append_nil, List.append_nil] at hrun

theorem emits_flattenSingleCall (op : CallOp) {args : List Expr}
    {flatArgs : BuilderM (List Flat)} {calls : List StaticCall}
    (hargs : Emits flatArgs calls fun flats => List.Forall₂ FlatOf args (flats.map Prod.fst)) :
    Emits (flattenSingleCall op flatArgs) (calls ++ ownCall op args)
      fun flat => IsName flat.1 := by
  unfold flattenSingleCall
  refine hargs.bind fun flats hflats => ?_
  refine (Emits.of_lift (Q := fun _ => True) fun _ _ => trivial).bind (c := []) fun results _ => ?_
  match results with
  | [] => exact .of_throw _ _
  | _ :: _ :: _ => exact .of_throw _ _
  | [ty] =>
      have hcall : ∀ names, List.Forall₂ FlatCall (ownCall op args)
          (literalCalls [⟨names, .call op (flats.map Prod.fst)⟩]) := by
        intro names
        by_cases hop : op.isStaticCreation
        · simpa [ownCall, literalCalls, hop] using ⟨rfl, hflats⟩
        · simp [ownCall, literalCalls, hop]
      have hbind := (emits_bindForwardAuto ty hcall).bind fun expr hexpr =>
        Emits.of_pure (a := ((expr, ty) : Flat)) (Q := fun flat => IsName flat.1) hexpr
      rwa [List.append_nil] at hbind

variable {inline : List String → String → TypedGraph → Scope → BuilderM (List Flat)}

theorem emits_flattenArgs {scope : Scope} {args : List Expr} (stack : List String)
    (h : ∀ arg ∈ args, Emits (flattenBoth graphs inline scope arg stack).1
      (callsMet graphs calleeCalls arg) fun flat => FlatOf arg flat.1) :
    Emits (flattenArgs graphs inline scope args stack) (callsMetList graphs calleeCalls args)
      fun flats => List.Forall₂ FlatOf args (flats.map Prod.fst) := by
  induction args with
  | nil => exact .of_pure .nil
  | cons arg args ih =>
      refine (h arg (List.mem_cons_self ..)).bind fun flat hflat => ?_
      have htail := (ih fun a ha => h a (List.mem_cons_of_mem _ ha)).bind fun flats hflats =>
        Emits.of_pure (a := flat :: flats)
          (Q := fun flats => List.Forall₂ FlatOf (arg :: args) (flats.map Prod.fst))
          (.cons hflat hflats)
      rwa [List.append_nil] at htail

theorem emits_flattenGraphArgs {scope : Scope} (name : String) {args : List Expr}
    (stack : List String)
    (h : ∀ arg ∈ args, Emits (flattenBoth graphs inline scope arg stack).1
      (callsMet graphs calleeCalls arg) fun flat => FlatOf arg flat.1) :
    ∀ (inputs : List Input) (local_ : Scope), inputs.length = args.length → AtomScope local_ →
      Emits (flattenGraphArgs graphs inline scope name args stack inputs local_)
        (callsMetList graphs calleeCalls args) AtomScope := by
  induction args with
  | nil => exact fun _ _ _ hlocal => .of_pure hlocal
  | cons arg args ih =>
      intro inputs local_ hlen hlocal
      obtain ⟨input, inputs, rfl⟩ := List.exists_cons_of_length_eq_add_one hlen
      refine (h arg (List.mem_cons_self ..)).bind fun flat hflat => ?_
      have hrest : Emits _ _ AtomScope :=
        ih (fun a ha => h a (List.mem_cons_of_mem _ ha)) inputs _ (by simpa using hlen)
          (hlocal.update input.name flat hflat.atom)
      exact hrest.guarded _ _

theorem mem_of_projectOutput {outputs : List Flat} {index : ℕ} {flat : Flat}
    (h : projectOutput outputs index = .ok flat) : flat ∈ outputs :=
  List.mem_of_getElem? (getElem?_of_projectOutput h)

/-- **The static creation calls that flattening emits are those it meets**, with
flattened arguments. -/
theorem emits_flattenBoth
    (hinline : ∀ stack name graph local_, AtomScope local_ →
      Emits (inline stack name graph local_) (calleeCalls graph) Atoms)
    {scope : Scope} (hscope : AtomScope scope) (e : Expr) :
    ∀ stack, Emits (flattenBoth graphs inline scope e stack).1 (callsMet graphs calleeCalls e)
        (fun flat => FlatOf e flat.1) ∧
      Emits (flattenBoth graphs inline scope e stack).2 (callsMet graphs calleeCalls e) Atoms := by
  -- an expression with one output: its outputs are that one
  have hone : ∀ {e : Expr} {flat : BuilderM Flat} {calls : List StaticCall},
      Emits flat calls (fun flat => FlatOf e flat.1) →
        Emits flat calls (fun flat => FlatOf e flat.1) ∧
          Emits (do return [← flat]) calls Atoms := by
    intro e flat calls hflat
    have houtputs := hflat.bind fun flat hf =>
      Emits.of_pure (a := [flat]) (Q := Atoms) (by simpa [Atoms] using hf.atom)
    exact ⟨hflat, by rwa [List.append_nil] at houtputs⟩
  -- an operation that is bound to a name of its own
  have hbind : ∀ {e : Expr} (expr : Expr) (ty : TensorType),
      (∀ names, literalCalls [⟨names, expr⟩] = []) →
      (∀ value elem, e ≠ .const value elem) →
        Emits (do
          let expr ← bindForwardAuto expr ty
          return ((expr, ty) : Flat)) [] fun flat => FlatOf e flat.1 := by
    intro e expr ty hexpr hconst
    refine (emits_bindForwardAuto_other ty hexpr).bind (d := []) fun bound hbound =>
      .of_pure ⟨hbound.atom, fun value elem he => absurd he (hconst value elem), ?_⟩
    exact fun _ _ _ => hbound
  -- a call with several outputs, used as a tensor
  have hsingle : ∀ op args {outputs : BuilderM (List Flat)} {calls : List StaticCall},
      Emits outputs calls Atoms →
        Emits (do singleOutput op (← outputs)) calls (fun flat => FlatOf (.call op args) flat.1) ∧
          Emits outputs calls Atoms := by
    intro op args outputs calls houtputs
    have hflat := houtputs.bind fun flats hflats =>
      Emits.of_lift (x := singleOutput op flats)
        (Q := fun flat => FlatOf (.call op args) flat.1) fun flat hflat => by
          match flats with
          | [output] =>
              cases hflat
              exact ⟨hflats _ (by simp), by simp, by simp⟩
          | [] | _ :: _ :: _ => cases hflat
    exact ⟨by rwa [List.append_nil] at hflat, houtputs⟩
  induction e with
  | var name =>
      refine fun stack => hone ?_
      exact (emits_flattenVar hscope name).weaken fun flat hatom => ⟨hatom, by simp, by simp⟩
  | const value elem =>
      refine fun stack => ⟨.of_pure ⟨trivial, by simp, by simp⟩, .of_pure ?_⟩
      simp [Atoms, IsAtom]
  | unary op value ih =>
      intro stack
      apply hone
      have hrun := (ih stack).1.bind fun flat _ =>
        hbind (e := .unary op value) (.unary op flat.1) flat.2 (fun _ => rfl) (by simp)
      rwa [List.append_nil] at hrun
  | binary op lhs rhs ihl ihr =>
      intro stack
      apply hone
      refine (ihl stack).1.bind fun l _ => ?_
      have hrun := (ihr stack).1.bind fun r _ =>
        (Emits.of_lift (x := elementwiseType l.2 r.2) (Q := fun _ => True)
          fun _ _ => trivial).bind fun ty _ =>
            hbind (e := .binary op lhs rhs) (.binary op l.1 r.1) ty (fun _ => rfl) (by simp)
      rw [List.append_nil, List.append_nil] at hrun
      exact hrun
  | node nodeId value ih =>
      intro stack
      obtain ⟨hflat, houtputs⟩ := ih stack
      exact ⟨hflat.weaken fun flat hf => ⟨hf.atom, by simp, by simp⟩, houtputs⟩
  | tupleGet tupleId value index ih =>
      intro stack
      apply hone
      have hrun := (ih stack).2.bind fun outputs houtputs =>
        Emits.of_lift (x := projectOutput outputs index)
          (Q := fun flat => FlatOf (.tupleGet tupleId value index) flat.1) fun flat hflat =>
            ⟨houtputs flat (mem_of_projectOutput hflat), by simp, by simp⟩
      rwa [List.append_nil] at hrun
  | call op args ih =>
      intro stack
      have hargs : Emits (flattenArgs graphs inline scope args stack)
          (callsMetList graphs calleeCalls args)
          fun flats => List.Forall₂ FlatOf args (flats.map Prod.fst) :=
        emits_flattenArgs stack fun arg harg => (ih arg harg stack).1
      by_cases hop : isMultiOutput op = false
      · have hcalls : callsMet graphs calleeCalls (.call op args) =
            callsMetList graphs calleeCalls args ++ ownCall op args := by
          cases op <;> first | rfl | cases hop
        rw [flattenBoth_call hop, hcalls]
        exact hone ((emits_flattenSingleCall op hargs).weaken fun flat hflat =>
          ⟨hflat.atom, by simp, by simp⟩)
      · cases op with
        | graph name =>
            apply hsingle
            have hcallee : Emits (do
                let graph ← resolveGraph graphs stack name args.length
                let local_ ← flattenGraphArgs graphs inline scope name args (name :: stack)
                  graph.inputs fun _ => none
                inline (name :: stack) name graph local_ : BuilderM (List Flat))
                ([] ++ callsMet graphs calleeCalls (.call (.graph name) args)) Atoms := by
              refine (Emits.of_lift fun graph hgraph => resolveGraph_eq_ok hgraph).bind ?_
              rintro graph ⟨hget, hlen⟩
              rw [callsMet, hget]
              exact (emits_flattenGraphArgs name _ (fun arg harg => (ih arg harg _).1) _ _ hlen
                .empty).bind fun local_ hlocal => hinline _ _ _ _ hlocal
            exact hcallee
        | split axis sections =>
            have hrun := emits_flattenSplitOutputs axis sections args hargs
            exact hsingle _ _ (by simpa [callsMet, ownCall, CallOp.isStaticCreation] using hrun)
        | randomUniform target =>
            have hrun := emits_flattenMultiOutputCall (.randomUniform target) rfl hargs
            exact hsingle _ _ (by simpa [callsMet, ownCall, CallOp.isStaticCreation] using hrun)
        | randomInt target =>
            have hrun := emits_flattenMultiOutputCall (.randomInt target) rfl hargs
            exact hsingle _ _ (by simpa [callsMet, ownCall, CallOp.isStaticCreation] using hrun)
        | _ => exact absurd rfl hop

/-! ### Callees -/

theorem AtomScope.bindLocal {name : String} {names : List String} :
    ∀ {tys : List TensorType} {outputs : List Flat} {local_ local' : Scope},
      AtomScope local_ → Atoms outputs →
      Autograd.bindLocal name names tys outputs local_ = .ok local' → AtomScope local' := by
  induction names with
  | nil =>
      intro tys outputs local_ local' hlocal _ hbind
      cases hbind
      exact hlocal
  | cons bound names ih =>
      intro tys outputs local_ local' hlocal houtputs hbind
      match tys, outputs with
      | [], _ | _ :: _, [] =>
          cases hbind
          exact hlocal
      | expected :: tys, (expr, ty) :: outputs =>
          rw [Autograd.bindLocal] at hbind
          split_ifs at hbind with hty
          have hexpr : IsAtom expr := houtputs (expr, ty) (List.mem_cons_self ..)
          exact ih (hlocal.update bound (expr, ty) hexpr)
            (fun flat hflat => houtputs flat (List.mem_cons_of_mem _ hflat)) hbind

section Callee

variable (hinline : ∀ stack name graph local_, AtomScope local_ →
  Emits (inline stack name graph local_) (calleeCalls graph) Atoms)

include hinline

theorem emits_flattenGraphLets (stack : List String) (name : String) (lets : List TypedLet) :
    ∀ local_, AtomScope local_ → Emits (flattenGraphLets graphs inline stack name lets local_)
      (callsMetLets graphs calleeCalls lets) AtomScope := by
  induction lets with
  | nil => exact fun _ hlocal => .of_pure hlocal
  | cons binding lets ih =>
      intro local_ hlocal
      refine (emits_flattenBoth hinline hlocal binding.value.kind stack).2.bind
        fun outputs houtputs => ?_
      have hrest : Emits (do
          let local_ ← bindLocal name binding.names binding.value.tys outputs local_
          flattenGraphLets graphs inline stack name lets local_ : BuilderM Scope)
          ([] ++ callsMetLets graphs calleeCalls lets) AtomScope :=
        (Emits.of_lift fun local' hbind => hlocal.bindLocal houtputs hbind).bind ih
      exact hrest.guarded _ _

theorem emits_flattenExprs (stack : List String) {local_ : Scope} (hlocal : AtomScope local_)
    (body : List TypedExpr) :
    Emits (body.mapM fun e => flattenExprScoped graphs inline e.kind stack local_)
      (callsMetBody graphs calleeCalls body) Atoms := by
  induction body with
  | nil => exact .of_pure (by simp [Atoms])
  | cons e body ih =>
      rw [List.mapM_cons]
      refine (emits_flattenBoth hinline hlocal e.kind stack).1.bind fun flat hflat => ?_
      have htail := ih.bind fun flats hflats =>
        Emits.of_pure (a := flat :: flats) (Q := Atoms) fun f hf =>
          (List.mem_cons.mp hf).elim (fun h => h ▸ hflat.atom) (hflats f)
      rwa [List.append_nil] at htail

theorem emits_flattenGraphBody (stack : List String) (name : String) (graph : TypedGraph)
    {local_ : Scope} (hlocal : AtomScope local_) :
    Emits (flattenGraphBody graphs inline stack name graph local_)
      (callsMetBody graphs calleeCalls graph.body) Atoms := by
  have hbody : Emits (graph.body.mapM fun e =>
      flattenExprScoped graphs inline e.kind stack local_)
      (callsMetBody graphs calleeCalls graph.body) Atoms :=
    emits_flattenExprs hinline stack hlocal graph.body
  have hrun := hbody.bind fun outputs hatoms =>
    ((Emits.of_pure (a := outputs) hatoms).guarded (outputs.map Prod.snd ≠ graph.outputs)
      (error s!"graph call `{name}` output type mismatch")).guarded
        (outputs.length ≠ graph.outputs.length)
        (error s!"graph call `{name}` output arity mismatch")
  rwa [List.append_nil] at hrun

end Callee

end Flattening

theorem emits_inlineGraph (graphs : Registry) (depth : ℕ) :
    ∀ stack name graph local_, AtomScope local_ →
      Emits (inlineGraph graphs depth stack name graph local_)
        (calleeCalls graphs depth graph) Atoms := by
  induction depth with
  | zero => exact fun _ _ _ _ _ => .of_throw _ _
  | succ depth ih =>
      intro stack name graph local_ hlocal
      exact (emits_flattenGraphLets ih stack name graph.lets local_ hlocal).bind
        fun local' hlocal' => emits_flattenGraphBody ih stack name graph hlocal'

/-! ### The root graph -/

section Root

variable (graphs : Registry) (depth : ℕ)

theorem emits_bindForwardNode (name : String) {expr : Expr} (ty : TensorType)
    (hexpr : IsAtom expr) : Emits (bindForwardNode name expr ty) [] fun _ => True := by
  intro s a s' hrun
  cases stateT_modify_eq_ok_iff.mp hrun
  refine ⟨trivial, [⟨[name], expr⟩], rfl, ?_⟩
  rw [literalCalls_singleton_of_atom hexpr]
  exact .nil

theorem emits_bindTypedLet (names : List String) :
    ∀ (tys : List TensorType) (outputs : List Flat), Atoms outputs →
      Emits (bindTypedLet names tys outputs) [] fun _ => True := by
  induction names with
  | nil => exact fun _ _ _ => .of_pure trivial
  | cons name names ih =>
      intro tys outputs houtputs
      match tys, outputs with
      | [], _ | _ :: _, [] => exact .of_pure trivial
      | expected :: tys, (expr, ty) :: outputs =>
          have hexpr : IsAtom expr := houtputs (expr, ty) (List.mem_cons_self ..)
          have hrest : Emits (do
              bindForwardNode name expr ty
              bindTypedLet names tys outputs : BuilderM Unit) [] fun _ => True :=
            (emits_bindForwardNode name ty hexpr).bind (d := []) fun _ _ =>
              ih tys outputs fun flat hflat => houtputs flat (List.mem_cons_of_mem _ hflat)
          exact hrest.guarded _ _

theorem emits_flattenTypedLet (binding : TypedLet) :
    Emits (flattenTypedLet graphs depth binding)
      (callsMet graphs (calleeCalls graphs depth) binding.value.kind) fun _ => True := by
  have houtputs : Emits (flattenExprOutputs graphs depth binding.value.kind)
      (callsMet graphs (calleeCalls graphs depth) binding.value.kind) Atoms :=
    (emits_flattenBoth (emits_inlineGraph graphs depth) .empty binding.value.kind []).2
  have hvalue : Emits (flattenValueOutputs graphs depth binding.value)
      (callsMet graphs (calleeCalls graphs depth) binding.value.kind) Atoms := by
    have hrun := houtputs.bind fun outputs hatoms =>
      ((Emits.of_pure (a := outputs) hatoms).guarded (outputs.map Prod.snd ≠ binding.value.tys)
        (error "internal autograd type mismatch for value")).guarded
          (outputs.length ≠ binding.value.tys.length)
          (error "internal autograd error: flattened value arity mismatch")
    rwa [List.append_nil] at hrun
  have hrun := hvalue.bind fun outputs hatoms =>
    (emits_bindTypedLet binding.names binding.value.tys outputs hatoms).guarded
      (outputs.length ≠ binding.names.length)
      (error "internal autograd error: flattened let binding arity mismatch")
  rw [List.append_nil] at hrun
  exact hrun.guarded _ _

theorem emits_flattenTypedLets (lets : List TypedLet) :
    Emits (flattenTypedLets graphs depth lets)
      (callsMetLets graphs (calleeCalls graphs depth) lets) fun _ => True := by
  induction lets with
  | nil => exact .of_pure trivial
  | cons binding lets ih =>
      exact (emits_flattenTypedLet graphs depth binding).bind fun _ _ => ih

/-- **The static creation calls of a flattened loss are those of the graph**, with
flattened arguments. -/
theorem emits_flattenLoss (graph : TypedGraph) :
    Emits (flattenLoss graphs depth graph) (lossCalls graphs depth graph) fun _ => True := by
  refine (emits_flattenTypedLets graphs depth graph.lets).bind fun _ _ => ?_
  match graph.body with
  | [] => exact .of_throw _ _
  | body :: rest =>
      have hbody : Emits (flattenExpr graphs depth body.kind)
          (callsMet graphs (calleeCalls graphs depth) body.kind) fun flat => IsAtom flat.1 :=
        ((emits_flattenBoth (emits_inlineGraph graphs depth) .empty body.kind []).1).weaken
          fun flat hflat => hflat.atom
      have hrun := hbody.bind fun flat hatom =>
        ((emits_bindForwardNode (valueName graph) flat.2 hatom).bind (d := [])
          fun _ _ => Emits.of_pure (a := flat.2) (Q := fun _ => True) trivial).guarded (flat.2 ≠ body.ty)
            (error "internal autograd type mismatch for graph body")
      simpa [callsMetBody] using hrun

end Root

/-! ## Static scalars of flattened calls -/

/-- A static creation call that has passed the check of its arguments. -/
def Checked (call : StaticCall) : Prop :=
  call.1.isStaticCreation = true ∧ validateStaticCreationCall call.1 call.2 = .ok ()

/-- **The calls that flattening meets have passed the check of their arguments**,
if those of the graph and of the callees have. -/
theorem valid_of_mem_callsMet {graphs : Registry} {calleeCalls : TypedGraph → List StaticCall}
    (hcallee : ∀ name callee, graphs.get name = some callee →
      ∀ call ∈ calleeCalls callee, Checked call) {e : Expr} (he : LiteralCalls e) :
    ∀ call ∈ callsMet graphs calleeCalls e, Checked call := by
  induction e with
  | var name => simp [callsMet]
  | const value elem => simp [callsMet]
  | unary op value ih =>
      exact ih fun op' args hmem => he op' args (List.mem_cons_of_mem _ hmem)
  | binary op lhs rhs ihl ihr =>
      intro call hcall
      rcases List.mem_append.mp hcall with hcall | hcall
      · exact ihl (fun op' args hmem => he op' args
          (List.mem_cons_of_mem _ (List.mem_append_left _ hmem))) call hcall
      · exact ihr (fun op' args hmem => he op' args
          (List.mem_cons_of_mem _ (List.mem_append_right _ hmem))) call hcall
  | node nodeId value ih =>
      exact ih fun op' args hmem => he op' args (List.mem_cons_of_mem _ hmem)
  | tupleGet tupleId value index ih =>
      exact ih fun op' args hmem => he op' args (List.mem_cons_of_mem _ hmem)
  | call op args ih =>
      have hargs : ∀ call ∈ callsMetList graphs calleeCalls args, Checked call := by
        intro call hcall
        obtain ⟨arg, harg, hcall⟩ := (mem_callsMetList ..).mp hcall
        exact ih arg harg (fun op' args' hmem => he op' args' (List.mem_cons_of_mem _
          (Expr.mem_subexprsList.mpr ⟨arg, harg, hmem⟩))) call hcall
      have hself := he op args (Expr.mem_subexprs_self _)
      intro call hcall
      rcases op.eq_graph_or with ⟨name, rfl⟩ | hop
      · rcases List.mem_append.mp hcall with hcall | hcall
        · exact hargs call hcall
        · cases hget : graphs.get name with
          | none => rw [hget] at hcall; cases hcall
          | some callee =>
              rw [hget] at hcall
              exact hcallee name callee hget call hcall
      · have hmet : callsMet graphs calleeCalls (.call op args) =
            callsMetList graphs calleeCalls args ++ ownCall op args := by
          cases op with
          | graph name => exact absurd rfl (hop name)
          | _ => rfl
        rw [hmet] at hcall
        rcases List.mem_append.mp hcall with hcall | hcall
        · exact hargs call hcall
        · rw [ownCall] at hcall
          split_ifs at hcall with hstatic
          · obtain rfl := List.mem_singleton.mp hcall
            exact ⟨hstatic, hself⟩
          · cases hcall

theorem checked_of_mem_calleeCalls {graphs : Registry}
    (hgraphs : ∀ name callee, graphs.get name = some callee → callee.Accepted) (depth : ℕ) :
    ∀ name callee, graphs.get name = some callee →
      ∀ call ∈ calleeCalls graphs depth callee, Checked call := by
  induction depth with
  | zero => intro name callee hget call hcall; cases hcall
  | succ depth ih =>
      intro name callee hget call hcall
      have hliteral := literalCalls_of_accepted (hgraphs name callee hget)
      rcases List.mem_append.mp hcall with hcall | hcall
      · obtain ⟨binding, hbinding, hcall⟩ := List.mem_flatMap.mp hcall
        exact valid_of_mem_callsMet ih (hliteral _ (List.mem_append_left _
          (List.mem_map.mpr ⟨binding, hbinding, rfl⟩))) call hcall
      · obtain ⟨e, he, hcall⟩ := List.mem_flatMap.mp hcall
        exact valid_of_mem_callsMet ih (hliteral _ (List.mem_append_right _
          (List.mem_map.mpr ⟨e, he, rfl⟩))) call hcall

/-- The static creation calls of accepted graphs have been checked, also those of
the callees. -/
theorem checked_of_mem_lossCalls {graphs : Registry} {graph : TypedGraph} (hgraph : graph.Accepted)
    (hgraphs : ∀ name callee, graphs.get name = some callee → callee.Accepted) (depth : ℕ) :
    ∀ call ∈ lossCalls graphs depth graph, Checked call := by
  intro call hcall
  have hliteral := literalCalls_of_accepted hgraph
  have hcallees := checked_of_mem_calleeCalls hgraphs depth
  rcases List.mem_append.mp hcall with hcall | hcall
  · obtain ⟨binding, hbinding, hcall⟩ := List.mem_flatMap.mp hcall
    exact valid_of_mem_callsMet hcallees (hliteral _ (List.mem_append_left _
      (List.mem_map.mpr ⟨binding, hbinding, rfl⟩))) call hcall
  · obtain ⟨e, he, hcall⟩ := List.mem_flatMap.mp hcall
    exact valid_of_mem_callsMet hcallees (hliteral _ (List.mem_append_right _
      (List.mem_map.mpr ⟨e, List.mem_of_mem_take he, rfl⟩))) call hcall

/-- The flattened call is as static as the call: the arguments have the same static
scalars, so they pass their check and the same elements are embedded. -/
structure KeepsStatic (call flat : StaticCall) : Prop where
  op : flat.1 = call.1
  scalars : staticScalars flat.2 = staticScalars call.2
  accepted : validateStaticCreationCall flat.1 flat.2 = .ok ()
  embeds : staticLiterals flat.1 flat.2 = staticLiterals call.1 call.2

/-- No argument is a negation. -/
def NoNegation (call : StaticCall) : Prop := ∀ arg ∈ call.2, arg.isNegation = false

/-- Flattening keeps the static scalars of constants and of nothing else. -/
theorem staticScalars_flat_iff {args flats : List Expr} (h : List.Forall₂ FlatOf args flats)
    (hstatic : ∀ arg ∈ args, arg.staticScalar ≠ none) :
    staticScalars flats = staticScalars args ↔ ∀ arg ∈ args, arg.isNegation = false := by
  induction h with
  | nil => simp [staticScalars]
  | @cons arg flat args flats hflat hflats ih =>
      have hrest := ih fun a ha => hstatic a (List.mem_cons_of_mem _ ha)
      have hhead : flat.staticScalar = arg.staticScalar ↔ arg.isNegation = false := by
        have harg := hstatic arg (List.mem_cons_self ..)
        rcases staticScalar_shape harg with ⟨value, elem, rfl⟩ | ⟨value, rfl⟩
        · rw [hflat.const value elem rfl]
          simp [Expr.isNegation]
        · obtain ⟨name, rfl⟩ := hflat.negation .neg value rfl
          simpa [Expr.isNegation, Expr.staticScalar] using fun h => harg h.symm
      rw [List.forall_mem_cons, ← hrest, ← hhead]
      simp [staticScalars]

theorem keepsStatic_iff_noNegation {call flat : StaticCall} (hcall : Checked call)
    (hflat : FlatCall call flat) : KeepsStatic call flat ↔ NoNegation call := by
  obtain ⟨op, args⟩ := call
  obtain ⟨op', flats⟩ := flat
  obtain ⟨rfl, hargs⟩ := hflat
  have hscalars := staticScalars_flat_iff hargs (staticScalar_of_validate hcall.1 hcall.2)
  constructor
  · exact fun h => hscalars.mp h.scalars
  · intro h
    have hsame := hscalars.mpr h
    exact ⟨rfl, hsame, (validateStaticCreationCall_congr hsame _).trans hcall.2,
      staticLiterals_congr hsame _⟩

theorem forall₂_iff_of_forall₂ {α β : Type} {R K : α → β → Prop} {C : α → Prop} {xs : List α}
    {ys : List β} (h : List.Forall₂ R xs ys) (hiff : ∀ x ∈ xs, ∀ y, R x y → (K x y ↔ C x)) :
    List.Forall₂ K xs ys ↔ ∀ x ∈ xs, C x := by
  induction h with
  | nil => simp
  | @cons x y xs ys hxy hrest ih =>
      rw [List.forall₂_cons, List.forall_mem_cons, hiff x (List.mem_cons_self ..) y hxy,
        ih fun z hz => hiff z (List.mem_cons_of_mem _ hz)]

/-- **Differentiation keeps static arguments static exactly when none is a
negation.**  The static creation calls of the flattened graph are, one for one,
those of the graph and of the callees it expands; each keeps the static scalars
of its arguments, passes the check of the final type checker and embeds the same
elements if and only if no argument is a negated literal. -/
theorem keepsStatic_iff {graphs : Registry} {graph : TypedGraph} (hgraph : graph.Accepted)
    (hgraphs : ∀ name callee, graphs.get name = some callee → callee.Accepted) {depth : ℕ}
    {ty : TensorType} {s : Builder}
    (hflat : (flattenLoss graphs depth graph).run (.initial graph) = .ok (ty, s)) :
    List.Forall₂ KeepsStatic (lossCalls graphs depth graph) (literalCalls s.lets) ↔
      ∀ call ∈ lossCalls graphs depth graph, NoNegation call := by
  obtain ⟨-, lets, hlets, hcalls⟩ := emits_flattenLoss graphs depth graph _ _ _ hflat
  rw [hlets, show (Builder.initial graph).lets = [] from rfl, List.nil_append]
  have hchecked := checked_of_mem_lossCalls hgraph hgraphs depth
  exact forall₂_iff_of_forall₂ hcalls fun call hcall flat hpair =>
    keepsStatic_iff_noNegation (hchecked call hcall) hpair

/-- A loss with two integers counted from a negated literal. -/
def ticksGraph : Graph where
  name := "ticks"
  backend := "llvm-cpu"
  inputs := [⟨"x", ⟨.f32, []⟩⟩]
  outputs := [⟨.f32, []⟩]
  lets := [⟨["ticks"],
    .call (.arange ⟨.i32, [2]⟩) [.unary .neg (.const "2" .i32), .const "0" .i32]⟩]
  body := [.var "x"]

/-- The type checker's version of it. -/
def typedTicksGraph : TypedGraph where
  name := "ticks"
  backend := "llvm-cpu"
  inputs := [⟨"x", ⟨.f32, []⟩⟩]
  outputs := [⟨.f32, []⟩]
  lets := [⟨["ticks"], .call (.arange ⟨.i32, [2]⟩) [.unary .neg (.const "2" .i32), .const "0" .i32],
    [⟨.i32, [2]⟩]⟩]
  body := [⟨.var "x", ⟨.f32, []⟩⟩]

theorem keepsStatic_iff_ticks : ∃ ty s,
    (flattenLoss [] 0 typedTicksGraph).run (.initial typedTicksGraph) = .ok (ty, s) ∧
      (List.Forall₂ KeepsStatic (lossCalls [] 0 typedTicksGraph) (literalCalls s.lets) ↔
        ∀ call ∈ lossCalls [] 0 typedTicksGraph, NoNegation call) :=
  ⟨_, _, rfl, keepsStatic_iff ⟨ticksGraph, [], rfl⟩ (fun _ _ hget => by cases hget) rfl⟩

/-- A graph that the checker accepts: flattening turns its negated literal into a
name, and the final type check rejects the gradient. -/
theorem not_keepsStatic_ticks :
    typeCheck ticksGraph [] = .ok typedTicksGraph ∧
    (∃ ty s, (flattenLoss [] 0 typedTicksGraph).run (.initial typedTicksGraph) = .ok (ty, s) ∧
      ¬ List.Forall₂ KeepsStatic (lossCalls [] 0 typedTicksGraph) (literalCalls s.lets)) ∧
    valueAndGradGraph typedTicksGraph =
      .error (.msg "arange parameters must be numeric literals") := by
  refine ⟨rfl, ⟨_, _, rfl, fun h => ?_⟩, rfl⟩
  cases h with
  | cons hcall _ => cases hcall.accepted

/-! ## The final type check -/

/-- The other element of a pair in pointwise relation. -/
theorem exists_of_forall₂_of_mem_left {α β : Type} {R : α → β → Prop} {xs : List α} {ys : List β}
    (h : List.Forall₂ R xs ys) {x : α} (hx : x ∈ xs) : ∃ y ∈ ys, R x y := by
  induction h with
  | nil => cases hx
  | @cons x' y xs ys hxy hrest ih =>
      rcases List.mem_cons.mp hx with rfl | hx
      · exact ⟨y, List.mem_cons_self .., hxy⟩
      · obtain ⟨y', hy', hR⟩ := ih hx
        exact ⟨y', List.mem_cons_of_mem _ hy', hR⟩

/-- **A value-and-gradient graph has no negated static argument.**  If one call of
the graph, or of a callee, has one, the final type check fails. -/
theorem noNegation_of_valueAndGradGraph {graphs : Registry} {graph typed : TypedGraph}
    (hgraph : graph.Accepted)
    (hgraphs : ∀ name callee, graphs.get name = some callee → callee.Accepted)
    (h : valueAndGradGraphWithRegistry graph graphs = .ok typed) :
    ∀ call ∈ lossCalls graphs graphs.length graph, NoNegation call := by
  obtain ⟨-, built', s', hrun, hcheck⟩ := valueAndGradGraph_eq_ok h
  obtain ⟨ty, s, hflat, hbuilt⟩ := lets_prefix_buildGraph hrun
  obtain ⟨-, lets, hlets, hcalls⟩ := emits_flattenLoss graphs graphs.length graph _ _ _ hflat
  have hchecked := checked_of_mem_lossCalls hgraph hgraphs graphs.length
  intro call hcall
  obtain ⟨flat, hflatCall, hpair⟩ := exists_of_forall₂_of_mem_left hcalls hcall
  -- the flattened call is the value of a let of the checked graph
  obtain ⟨binding, hbinding, hvalue⟩ := List.mem_filterMap.mp hflatCall
  have hmem : binding ∈ built'.lets := by
    apply hbuilt.subset
    rw [hlets]
    exact List.mem_append_right _ hbinding
  have hflatValue : binding.value = .call flat.1 flat.2 ∧ flat.1.isStaticCreation = true := by
    split at hvalue
    · next op args heq =>
        split_ifs at hvalue with hstatic
        cases hvalue
        exact ⟨heq, hstatic⟩
    · cases hvalue
  have haccepted := literalCalls_of_typeCheck hcheck binding.value
    (List.mem_append_left _ (List.mem_map.mpr ⟨binding, hmem, rfl⟩)) flat.1 flat.2
    (hflatValue.1 ▸ Expr.mem_subexprs_self _)
  have hscalars := staticScalar_of_validate hflatValue.2 haccepted
  intro arg harg
  obtain ⟨flatArg, hflatArg, hflatOf⟩ := exists_of_forall₂_of_mem_left hpair.2 harg
  have hstatic := staticScalar_of_validate (hchecked call hcall).1 (hchecked call hcall).2 arg harg
  rcases staticScalar_shape hstatic with ⟨value, elem, rfl⟩ | ⟨value, rfl⟩
  · rfl
  · obtain ⟨name, rfl⟩ := hflatOf.negation .neg value rfl
    exact absurd rfl (hscalars _ hflatArg)

end Knok.Autograd
