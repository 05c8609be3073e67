import Mathlib
import Knok.Normalize

/-!
# Node ids with two payloads

`collectNodes` compares a node with the payload recorded under its id, and records
a node only after it has traversed the payload.  An occurrence of an id inside its
own payload therefore meets no entry: it is recorded first, the outer node then
replaces it, and the id stands twice in the order.  This module says on which
bodies `letBindNodes` notices that an id has two payloads.

### Design decisions

* `visits` lists the node occurrences that a depth-first traversal reaches when it
  enters a node only where it meets it first.  It looks at the expressions alone:
  it keeps no table of payloads and compares none.
* `Traversal` relates the visits so far to the table of `collectNodes`.  An id has
  no entry exactly while its nodes are being entered, and an entry differs only
  from the payloads its node was met inside of, or that were met inside it.
-/

namespace Knok

open Control

/-- The nodes of an expression, each by its id and its payload. -/
def Expr.nodes (e : Expr) : Set (ℕ × Expr) := {a | Expr.node a.1 a.2 ∈ e.subexprs}

/-- A node that the traversal meets, and the nodes it is met inside of, innermost
first. -/
structure Visit where
  path : List (ℕ × Expr)
  node : ℕ × Expr
  deriving DecidableEq

mutual

/-- The visits after the traversal of an expression inside the nodes of `path`: a
node met before is not entered again. -/
def visits (path : List (ℕ × Expr)) (seen : List Visit) : Expr → List Visit
  | .unary _ value => visits path seen value
  | .binary _ lhs rhs => visits path (visits path seen lhs) rhs
  | .node nodeId value =>
      if (nodeId, value) ∈ seen.map Visit.node then
        seen ++ [⟨path, (nodeId, value)⟩]
      else
        visits ((nodeId, value) :: path) (seen ++ [⟨path, (nodeId, value)⟩]) value
  | .tupleGet _ value _ => visits path seen value
  | .call _ args => visitsArgs path seen args
  | .var _ | .const _ _ => seen

/-- The visits after the traversal of a list of arguments. -/
def visitsArgs (path : List (ℕ × Expr)) (seen : List Visit) : List Expr → List Visit
  | [] => seen
  | arg :: args => visitsArgs path (visits path seen arg) args

end

/-- Two visits of one id with different payloads, neither inside the other's node. -/
def Visit.Apart (u v : Visit) : Prop :=
  u.node.1 = v.node.1 ∧ u.node.2 ≠ v.node.2 ∧ u.node ∉ v.path ∧ v.node ∉ u.path

instance (u v : Visit) : Decidable (u.Apart v) :=
  inferInstanceAs (Decidable (_ ∧ _ ∧ _ ∧ _))

/-- Some id is met with two payloads, neither inside the other. -/
def ClashApart (vs : List Visit) : Prop := ∃ u ∈ vs, ∃ v ∈ vs, u.Apart v

instance (vs : List Visit) : Decidable (ClashApart vs) :=
  inferInstanceAs (Decidable (∃ u ∈ vs, ∃ v ∈ vs, u.Apart v))

/-- Some node id occurs inside its own payload. -/
def NestsItself (body : List Expr) : Prop :=
  ∃ i p q, (∃ e ∈ body, Expr.node i p ∈ e.subexprs) ∧ Expr.node i q ∈ p.subexprs

/-- Bodies in which a node id has two payloads are refused. -/
def RejectsClashes (body : List Expr) (reservedNames : List String) : Prop :=
  ¬ SharedNodes body → ∃ err, letBindNodes body reservedNames = .error err

/-! ## Nodes -/

theorem Expr.mem_nodes_node (i : ℕ) (p : Expr) : (i, p) ∈ (Expr.node i p).nodes :=
  Expr.mem_subexprs_self _

/-- The nodes of a node: itself and those of its payload. -/
theorem Expr.nodes_node (i : ℕ) (p : Expr) :
    (Expr.node i p).nodes = insert (i, p) p.nodes := by
  ext ⟨j, q⟩
  simp [Expr.nodes, Expr.subexprs]

theorem Expr.not_mem_nodes_payload (i : ℕ) (p : Expr) : (i, p) ∉ p.nodes :=
  Expr.node_not_mem_payload i p

/-- What lies inside a node lies inside what the node lies inside of. -/
theorem Expr.nodes_subset {a : ℕ × Expr} {e : Expr} (h : a ∈ e.nodes) : a.2.nodes ⊆ e.nodes :=
  fun _ hb => Expr.mem_subexprs_trans (Expr.mem_subexprs_node a.1 hb) h

/-- Two nodes do not lie inside each other. -/
theorem Expr.not_mem_nodes_of_mem {a b : ℕ × Expr} (h : a ∈ b.2.nodes) : b ∉ a.2.nodes :=
  fun hb => Expr.not_mem_nodes_payload b.1 b.2 (Expr.nodes_subset h hb)

/-! ## Clashes -/

theorem Visit.Apart.symm {u v : Visit} (h : u.Apart v) : v.Apart u :=
  ⟨h.1.symm, h.2.1.symm, h.2.2.2, h.2.2.1⟩

theorem ClashApart.mono {vs ws : List Visit} (h : ClashApart vs) (hsub : vs ⊆ ws) :
    ClashApart ws := by
  obtain ⟨u, hu, v, hv, hapart⟩ := h
  exact ⟨u, hsub hu, v, hsub hv, hapart⟩

/-- A visit apart from none of the earlier ones adds no clash. -/
theorem not_clashApart_concat {vs : List Visit} {w : Visit} (h : ¬ ClashApart vs)
    (hw : ∀ u ∈ vs, ¬ u.Apart w) : ¬ ClashApart (vs ++ [w]) := by
  rintro ⟨u, hu, v, hv, hapart⟩
  rcases List.mem_append.mp hu with hu | hu <;> rcases List.mem_append.mp hv with hv | hv
  · exact h ⟨u, hu, v, hv, hapart⟩
  · rw [List.mem_singleton.mp hv] at hapart
    exact hw u hu hapart
  · rw [List.mem_singleton.mp hu] at hapart
    exact hw v hv hapart.symm
  · rw [List.mem_singleton.mp hu, List.mem_singleton.mp hv] at hapart
    exact hapart.2.1 rfl

/-! ## The traversal's invariant -/

/-- What holds of the visits so far and of the nodes collected, while the nodes of
`path` are being entered. -/
structure Traversal (path : List (ℕ × Expr)) (vs : List Visit) (nodes : CollectedNodes) :
    Prop where
  /-- An id without an entry was met only in nodes that are being entered. -/
  unrecorded : ∀ v ∈ vs, nodes.values v.node.1 = none → v.node ∈ path
  /-- An entry was met, and is no longer being entered. -/
  recorded : ∀ i r, nodes.values i = some r → (i, r) ∈ vs.map Visit.node ∧ (i, r) ∉ path
  /-- Another payload of its id is still being entered, or was met inside it. -/
  compared : ∀ v ∈ vs, ∀ r, nodes.values v.node.1 = some r → v.node.2 ≠ r →
    v.node ∈ path ∨ (v.node.1, r) ∈ v.path
  listed : ∀ i, i ∈ nodes.order ↔ nodes.values i ≠ none
  /-- A path consists of nodes met before, each around the visit. -/
  inside : ∀ v ∈ vs, ∀ a ∈ v.path, v.node ∈ a.2.nodes ∧ a ∈ vs.map Visit.node
  entered : ∀ a ∈ path, a ∈ vs.map Visit.node
  /-- A node that has been left was traversed to its leaves. -/
  complete : ∀ v ∈ vs, v.node ∈ path ∨ ∀ a ∈ v.node.2.nodes, a ∈ vs.map Visit.node

theorem traversal_nil : Traversal [] [] ⟨fun _ => none, []⟩ where
  unrecorded := by simp
  recorded := by simp
  compared := by simp
  listed := by simp
  inside := by simp
  entered := by simp
  complete := by simp

section

variable {path : List (ℕ × Expr)} {vs : List Visit} {nodes : CollectedNodes} {i : ℕ}
  {p r : Expr}

theorem mem_map_node_concat {a : ℕ × Expr} (w : Visit) (h : a ∈ vs.map Visit.node) :
    a ∈ (vs ++ [w]).map Visit.node := by
  rw [List.map_append]
  exact List.mem_append_left _ h

theorem mem_map_node_concat_self (vs : List Visit) (path : List (ℕ × Expr)) (a : ℕ × Expr) :
    a ∈ (vs ++ [Visit.mk path a]).map Visit.node := by
  rw [List.map_append]
  exact List.mem_append_right _ (List.mem_singleton_self a)

/-- A node inside those of `path` is not one of them. -/
theorem not_mem_path (hin : ∀ a ∈ path, (Expr.node i p).nodes ⊆ a.2.nodes) : (i, p) ∉ path :=
  fun h => Expr.not_mem_nodes_payload i p (hin _ h (Expr.mem_nodes_node i p))

/-- A node without an entry is new. -/
theorem Traversal.not_met (h : Traversal path vs nodes)
    (hin : ∀ a ∈ path, (Expr.node i p).nodes ⊆ a.2.nodes) (hvalue : nodes.values i = none) :
    (i, p) ∉ vs.map Visit.node := by
  intro hmet
  obtain ⟨v, hv, hnode⟩ := List.mem_map.mp hmet
  have hmem := h.unrecorded v hv (by rw [hnode]; exact hvalue)
  rw [hnode] at hmem
  exact not_mem_path hin hmem

/-- **A node met again** with the payload recorded. -/
theorem Traversal.again (h : Traversal path vs nodes)
    (hin : ∀ a ∈ path, (Expr.node i p).nodes ⊆ a.2.nodes) (hvalue : nodes.values i = some p) :
    Traversal path (vs ++ [⟨path, (i, p)⟩]) nodes := by
  obtain ⟨hmet, hnot⟩ := h.recorded i p hvalue
  constructor
  case unrecorded =>
    intro v hv hnone
    rcases List.mem_append.mp hv with hv | hv
    · exact h.unrecorded v hv hnone
    · rw [List.mem_singleton.mp hv, hvalue] at hnone
      cases hnone
  case recorded =>
    intro j r hr
    obtain ⟨hr, hpath⟩ := h.recorded j r hr
    exact ⟨mem_map_node_concat _ hr, hpath⟩
  case compared =>
    intro v hv r hr hne
    rcases List.mem_append.mp hv with hv | hv
    · exact h.compared v hv r hr hne
    · rw [List.mem_singleton.mp hv] at hr hne
      exact absurd (Option.some.inj (hvalue.symm.trans hr)) hne
  case listed => exact h.listed
  case inside =>
    intro v hv a ha
    rcases List.mem_append.mp hv with hv | hv
    · obtain ⟨hnode, hmem⟩ := h.inside v hv a ha
      exact ⟨hnode, mem_map_node_concat _ hmem⟩
    · rw [List.mem_singleton.mp hv] at ha ⊢
      exact ⟨hin a ha (Expr.mem_nodes_node i p), mem_map_node_concat _ (h.entered a ha)⟩
  case entered => exact fun a ha => mem_map_node_concat _ (h.entered a ha)
  case complete =>
    -- the first visit of the node was traversed, for the node is not being entered
    have hfirst : ∀ a ∈ p.nodes, a ∈ vs.map Visit.node := by
      obtain ⟨u, hu, hnode⟩ := List.mem_map.mp hmet
      have hu := h.complete u hu
      rw [hnode] at hu
      exact hu.resolve_left hnot
    intro v hv
    rcases List.mem_append.mp hv with hv | hv
    · exact (h.complete v hv).imp_right fun hall a ha => mem_map_node_concat _ (hall a ha)
    · rw [List.mem_singleton.mp hv]
      exact .inr fun a ha => mem_map_node_concat _ (hfirst a ha)

/-- **A node entered**: its id has no entry yet. -/
theorem Traversal.enter (h : Traversal path vs nodes)
    (hin : ∀ a ∈ path, (Expr.node i p).nodes ⊆ a.2.nodes) (hvalue : nodes.values i = none) :
    Traversal ((i, p) :: path) (vs ++ [⟨path, (i, p)⟩]) nodes := by
  constructor
  case unrecorded =>
    intro v hv hnone
    rcases List.mem_append.mp hv with hv | hv
    · exact List.mem_cons_of_mem _ (h.unrecorded v hv hnone)
    · rw [List.mem_singleton.mp hv]
      exact List.mem_cons_self ..
  case recorded =>
    intro j r hr
    have hne : (j, r) ≠ (i, p) := by
      rintro ⟨⟩
      rw [hvalue] at hr
      cases hr
    obtain ⟨hr, hpath⟩ := h.recorded j r hr
    exact ⟨mem_map_node_concat _ hr, List.not_mem_cons_of_ne_of_not_mem hne hpath⟩
  case compared =>
    intro v hv r hr hne
    rcases List.mem_append.mp hv with hv | hv
    · exact (h.compared v hv r hr hne).imp_left (List.mem_cons_of_mem _)
    · rw [List.mem_singleton.mp hv, hvalue] at hr
      cases hr
  case listed => exact h.listed
  case inside =>
    intro v hv a ha
    rcases List.mem_append.mp hv with hv | hv
    · obtain ⟨hnode, hmem⟩ := h.inside v hv a ha
      exact ⟨hnode, mem_map_node_concat _ hmem⟩
    · rw [List.mem_singleton.mp hv] at ha ⊢
      exact ⟨hin a ha (Expr.mem_nodes_node i p), mem_map_node_concat _ (h.entered a ha)⟩
  case entered =>
    intro a ha
    rcases List.mem_cons.mp ha with rfl | ha
    · exact mem_map_node_concat_self vs path _
    · exact mem_map_node_concat _ (h.entered a ha)
  case complete =>
    intro v hv
    rcases List.mem_append.mp hv with hv | hv
    · refine (h.complete v hv).imp (List.mem_cons_of_mem _) ?_
      exact fun hall a ha => mem_map_node_concat _ (hall a ha)
    · rw [List.mem_singleton.mp hv]
      exact .inl (List.mem_cons_self ..)

/-- **A node recorded** after its payload.  `hadded` says where its id was met: in
nodes being entered already, or inside the payload. -/
theorem Traversal.record (h : Traversal ((i, p) :: path) vs nodes) (hnot : (i, p) ∉ path)
    (hadded : ∀ v ∈ vs, v.node.1 = i → v.node.2 ≠ p → v.node ∈ path ∨ (i, p) ∈ v.path)
    (hpayload : ∀ a ∈ p.nodes, a ∈ vs.map Visit.node) :
    Traversal path vs
      ⟨Function.update nodes.values i (some p), nodes.order ++ [i]⟩ := by
  -- a node of another id being entered is one of `path`
  have hother : ∀ v : Visit, v.node.1 ≠ i → v.node ∈ (i, p) :: path → v.node ∈ path := by
    intro v hne hmem
    rcases List.mem_cons.mp hmem with heq | hmem
    · exact absurd (congrArg Prod.fst heq) hne
    · exact hmem
  constructor
  case unrecorded =>
    intro v hv hnone
    have hne : v.node.1 ≠ i := by
      intro heq
      simp only [heq, Function.update_self, reduceCtorEq] at hnone
    simp only [Function.update_of_ne hne] at hnone
    exact hother v hne (h.unrecorded v hv hnone)
  case recorded =>
    intro j r hr
    rcases update_eq_some hr with ⟨rfl, rfl⟩ | ⟨-, hr⟩
    · exact ⟨h.entered _ (List.mem_cons_self ..), hnot⟩
    · obtain ⟨hmet, hpath⟩ := h.recorded j r hr
      exact ⟨hmet, fun hmem => hpath (List.mem_cons_of_mem _ hmem)⟩
  case compared =>
    intro v hv r hr hne
    rcases update_eq_some hr with ⟨heq, rfl⟩ | ⟨hid, hr⟩
    · rw [heq]
      exact hadded v hv heq hne
    · exact (h.compared v hv r hr hne).imp_left (hother v hid)
  case listed =>
    intro j
    by_cases hj : j = i
    · simp [hj]
    · simp [hj, h.listed j]
  case inside => exact h.inside
  case entered => exact fun a ha => h.entered a (List.mem_cons_of_mem _ ha)
  case complete =>
    intro v hv
    by_cases hnode : v.node = (i, p)
    · rw [hnode]
      exact .inr hpayload
    · refine (h.complete v hv).imp_left fun hmem => ?_
      exact (List.mem_cons.mp hmem).resolve_left hnode

/-- **A payload that differs from the entry** lies apart from it. -/
theorem Traversal.apart (h : Traversal path vs nodes)
    (hin : ∀ a ∈ path, (Expr.node i p).nodes ⊆ a.2.nodes) (hvalue : nodes.values i = some r)
    (hne : r ≠ p) : ∃ v ∈ vs, v.Apart ⟨path, (i, p)⟩ := by
  obtain ⟨hmet, hnot⟩ := h.recorded i r hvalue
  obtain ⟨v, hv, hnode⟩ := List.mem_map.mp hmet
  refine ⟨v, hv, by rw [hnode], by rw [hnode]; exact hne, by rwa [hnode], ?_⟩
  intro hmem
  -- the entry was met inside the node, so the node was met, and not inside the entry
  obtain ⟨hinside, hmet⟩ := h.inside v hv _ hmem
  obtain ⟨u, hu, hnodeu⟩ := List.mem_map.mp hmet
  have hcompared := h.compared u hu r (by rw [hnodeu]; exact hvalue)
    (by rw [hnodeu]; exact hne.symm)
  rw [hnodeu] at hcompared
  rcases hcompared with hpath | hpath
  · exact not_mem_path hin hpath
  · have hinside' := (h.inside u hu _ hpath).1
    rw [hnode] at hinside
    rw [hnodeu] at hinside'
    exact Expr.not_mem_nodes_of_mem hinside hinside'

end

/-! ## The traversal, step by step -/

/-- A traversal inside the nodes of `path` makes the visits `f` and meets the nodes
`met`: it fails exactly when two visits clash, and keeps the invariant otherwise. -/
structure Follows (path : List (ℕ × Expr)) (m : CollectM Unit) (f : List Visit → List Visit)
    (met : Set (ℕ × Expr)) : Prop where
  keeps : ∀ vs, vs ⊆ f vs
  added : ∀ vs, ∀ v ∈ f vs, v ∈ vs ∨ path <:+ v.path
  run : ∀ vs nodes, Traversal path vs nodes → ¬ ClashApart vs →
    (ClashApart (f vs) ∧ ∃ err, m.run nodes = .error err) ∨
      (¬ ClashApart (f vs) ∧ ∃ nodes', m.run nodes = .ok ((), nodes') ∧
        Traversal path (f vs) nodes' ∧ ∀ a ∈ met, a ∈ (f vs).map Visit.node)

theorem stateT_bind_error {σ ε α β : Type} {m : StateT σ (Except ε) α}
    {k : α → StateT σ (Except ε) β} {s : σ} {err : ε} (h : m.run s = .error err) :
    (m >>= k).run s = .error err := by
  rw [StateT.run_bind, h]
  rfl

/-- A node without an entry is recorded after its payload. -/
theorem run_collectNodes_node {nodes : CollectedNodes} {i : ℕ} {p : Expr}
    (hvalue : nodes.values i = none) :
    (collectNodes (.node i p)).run nodes =
      (collectNodes p >>= fun _ => modify fun nodes =>
        ⟨Function.update nodes.values i (some p), nodes.order ++ [i]⟩).run nodes := by
  rw [collectNodes, StateT.run_bind]
  simp [hvalue]

section

variable {path : List (ℕ × Expr)}

theorem follows_pure : Follows path (pure ()) (fun vs => vs) ∅ where
  keeps := fun vs => List.Subset.refl vs
  added := fun _ _ hv => .inl hv
  run := fun _ nodes h hno => .inr ⟨hno, nodes, rfl, h, by simp⟩

theorem Follows.bind {m m' : CollectM Unit} {f f' : List Visit → List Visit}
    {met met' : Set (ℕ × Expr)} (h : Follows path m f met) (h' : Follows path m' f' met') :
    Follows path (m >>= fun _ => m') (fun vs => f' (f vs)) (met ∪ met') where
  keeps := fun vs => List.Subset.trans (h.keeps vs) (h'.keeps (f vs))
  added := by
    intro vs v hv
    rcases h'.added _ v hv with hv | hv
    · exact h.added vs v hv
    · exact .inr hv
  run := by
    intro vs nodes htrav hno
    rcases h.run vs nodes htrav hno with
      ⟨hclash, err, herr⟩ | ⟨hno, mid, hrun, htrav, hmet⟩
    · exact .inl ⟨hclash.mono (h'.keeps _), err, stateT_bind_error herr⟩
    rcases h'.run _ mid htrav hno with ⟨hclash, err, herr⟩ | ⟨hno, last, hrun', htrav, hmet'⟩
    · refine .inl ⟨hclash, err, ?_⟩
      rw [StateT.run_bind, hrun]
      exact herr
    · refine .inr ⟨hno, last, stateT_bind_eq_ok_iff.mpr ⟨(), mid, hrun, hrun'⟩, htrav, ?_⟩
      rintro a (ha | ha)
      · exact List.map_subset _ (h'.keeps _) (hmet a ha)
      · exact hmet' a ha

theorem Follows.congr {m : CollectM Unit} {f : List Visit → List Visit}
    {met met' : Set (ℕ × Expr)} (h : Follows path m f met) (heq : met = met') :
    Follows path m f met' := heq ▸ h

theorem follows_args {args : List Expr}
    (h : ∀ arg ∈ args, Follows path (collectNodes arg) (fun vs => visits path vs arg) arg.nodes) :
    Follows path (collectArgs args) (fun vs => visitsArgs path vs args)
      {a | ∃ arg ∈ args, a ∈ arg.nodes} := by
  induction args with
  | nil => exact follows_pure.congr (by simp)
  | cons arg args ih =>
      have htail := ih fun a ha => h a (List.mem_cons_of_mem _ ha)
      refine ((h arg (List.mem_cons_self ..)).bind htail).congr ?_
      ext a
      simp

/-- A node: met before, or recorded after its payload has been traversed. -/
theorem follows_node {i : ℕ} {p : Expr}
    (hin : ∀ a ∈ path, (Expr.node i p).nodes ⊆ a.2.nodes)
    (ih : Follows ((i, p) :: path) (collectNodes p) (fun vs => visits ((i, p) :: path) vs p)
      p.nodes) :
    Follows path (collectNodes (.node i p)) (fun vs => visits path vs (.node i p))
      (Expr.node i p).nodes where
  keeps := by
    intro vs
    rw [visits]
    split_ifs
    · exact List.subset_append_left _ _
    · exact List.Subset.trans (List.subset_append_left _ _) (ih.keeps _)
  added := by
    intro vs v hv
    rw [visits] at hv
    have hlast : v ∈ vs ++ [⟨path, (i, p)⟩] → v ∈ vs ∨ path <:+ v.path := by
      intro hv
      rcases List.mem_append.mp hv with hv | hv
      · exact .inl hv
      · rw [List.mem_singleton.mp hv]
        exact .inr (List.suffix_refl path)
    split_ifs at hv
    · exact hlast hv
    · rcases ih.added _ v hv with hv | hv
      · exact hlast hv
      · exact .inr ((List.suffix_cons _ _).trans hv)
  run := by
    intro vs nodes h hno
    have hnode := mem_map_node_concat_self vs path (i, p)
    cases hvalue : nodes.values i with
    | some r =>
        by_cases hr : r = p
        · -- met before: no visit of another payload lies apart
          subst hr
          have hmet := (h.recorded i r hvalue).1
          have htrav := h.again hin hvalue
          simp only [visits, if_pos hmet]
          refine .inr ⟨not_clashApart_concat hno ?_, nodes, ?_, htrav, ?_⟩
          · rintro u hu ⟨hid, hne, hu', hv'⟩
            have hid : u.node.1 = i := hid
            rcases h.compared u hu r (by rw [hid]; exact hvalue) hne with hpath | hpath
            · exact hu' hpath
            · exact hv' (hid ▸ hpath)
          · rw [collectNodes, stateT_bind_eq_ok_iff]
            exact ⟨nodes, nodes, rfl, by simp [hvalue]⟩
          · rw [Expr.nodes_node]
            rintro a (rfl | ha)
            · exact hnode
            · obtain ⟨w, hw, hnodew⟩ := List.mem_map.mp hmet
              have hw := htrav.complete w (List.mem_append_left _ hw)
              rw [hnodew] at hw
              exact hw.resolve_left (not_mem_path hin) a ha
        · -- the entry differs, and the visit that made it lies apart
          obtain ⟨v, hv, hapart⟩ := h.apart hin hvalue hr
          have hclash : ClashApart (vs ++ [⟨path, (i, p)⟩]) :=
            ⟨v, List.mem_append_left _ hv, _,
              List.mem_append_right _ (List.mem_singleton_self _), hapart⟩
          refine .inl ⟨?_, .msg (nodePayloadError i), ?_⟩
          · rw [visits]
            split_ifs
            · exact hclash
            · exact hclash.mono (ih.keeps _)
          · rw [collectNodes]
            simp [hvalue, hr, failIf]
    | none =>
        have hnew := h.not_met hin hvalue
        simp only [visits, if_neg hnew]
        have hopen : ¬ ClashApart (vs ++ [⟨path, (i, p)⟩]) := by
          refine not_clashApart_concat hno ?_
          rintro u hu ⟨hid, -, hu', -⟩
          have hid : u.node.1 = i := hid
          exact hu' (h.unrecorded u hu (by rw [hid]; exact hvalue))
        rcases ih.run _ nodes (h.enter hin hvalue) hopen with
          ⟨hclash, err, herr⟩ | ⟨hno, mid, hrun, htrav, hmet⟩
        · refine .inl ⟨hclash, err, ?_⟩
          rw [run_collectNodes_node hvalue]
          exact stateT_bind_error herr
        · refine .inr ⟨hno, _, ?_, htrav.record (not_mem_path hin) ?_ hmet, ?_⟩
          · rw [run_collectNodes_node hvalue, stateT_bind_eq_ok_iff]
            exact ⟨(), mid, hrun, rfl⟩
          · -- its id was met before the payload, hence still open, or inside the payload
            intro v hv hid hne
            rcases ih.added _ v hv with hv | hv
            · rcases List.mem_append.mp hv with hv | hv
              · exact .inl (h.unrecorded v hv (by rw [hid]; exact hvalue))
              · rw [List.mem_singleton.mp hv] at hne
                exact absurd rfl hne
            · exact .inr (hv.subset (List.mem_cons_self ..))
          · rw [Expr.nodes_node]
            rintro a (rfl | ha)
            · exact List.map_subset _ (ih.keeps _) hnode
            · exact hmet a ha

/-- **Collection follows the visits.** -/
theorem follows_collectNodes (e : Expr) :
    ∀ {path : List (ℕ × Expr)}, (∀ a ∈ path, e.nodes ⊆ a.2.nodes) →
      Follows path (collectNodes e) (fun vs => visits path vs e) e.nodes := by
  induction e with
  | var name => exact fun _ => follows_pure.congr (by ext; simp [Expr.nodes, Expr.subexprs])
  | const value elem =>
      exact fun _ => follows_pure.congr (by ext; simp [Expr.nodes, Expr.subexprs])
  | unary op value ih =>
      intro path hin
      have hnodes : (Expr.unary op value).nodes = value.nodes := by
        ext
        simp [Expr.nodes, Expr.subexprs]
      rw [hnodes] at hin ⊢
      exact ih hin
  | binary op lhs rhs ihl ihr =>
      intro path hin
      have hnodes : (Expr.binary op lhs rhs).nodes = lhs.nodes ∪ rhs.nodes := by
        ext
        simp [Expr.nodes, Expr.subexprs]
      rw [hnodes] at hin ⊢
      have hl := ihl fun a ha => Set.subset_union_left.trans (hin a ha)
      have hr := ihr fun a ha => Set.subset_union_right.trans (hin a ha)
      exact hl.bind hr
  | node i p ih =>
      intro path hin
      refine follows_node hin (ih fun a ha => ?_)
      rcases List.mem_cons.mp ha with rfl | ha
      · exact subset_rfl
      · refine subset_trans ?_ (hin a ha)
        rw [Expr.nodes_node]
        exact Set.subset_insert _ _
  | tupleGet tupleId value index ih =>
      intro path hin
      have hnodes : (Expr.tupleGet tupleId value index).nodes = value.nodes := by
        ext
        simp [Expr.nodes, Expr.subexprs]
      rw [hnodes] at hin ⊢
      exact ih hin
  | call op args ih =>
      intro path hin
      have hnodes : (Expr.call op args).nodes = {a | ∃ arg ∈ args, a ∈ arg.nodes} := by
        ext
        simp [Expr.nodes, Expr.subexprs]
      rw [hnodes] at hin ⊢
      refine follows_args fun arg harg => ih arg harg fun a ha => ?_
      exact fun b hb => hin a ha ⟨arg, harg, hb⟩

end

/-! ## Which clashes are noticed -/

/-- Collection fails exactly when two visits clash, and meets all nodes otherwise. -/
theorem collectBodies_follows (body : List Expr) :
    (ClashApart (visitsArgs [] [] body) ∧ ∃ err, collectBodies body = .error err) ∨
      (¬ ClashApart (visitsArgs [] [] body) ∧ ∃ nodes, collectBodies body = .ok nodes ∧
        Traversal [] (visitsArgs [] [] body) nodes ∧
        ∀ e ∈ body, ∀ a ∈ e.nodes, a ∈ (visitsArgs [] [] body).map Visit.node) := by
  have hempty : ¬ ClashApart [] := by
    rintro ⟨u, hu, -⟩
    cases hu
  have hargs : Follows [] (collectArgs body) (fun vs => visitsArgs [] vs body)
      {a | ∃ arg ∈ body, a ∈ arg.nodes} :=
    follows_args fun arg _ => follows_collectNodes arg fun a ha => absurd ha List.not_mem_nil
  rcases hargs.run [] _ traversal_nil hempty with
    ⟨hclash, err, herr⟩ | ⟨hno, nodes, hrun, htrav, hmet⟩
  · refine .inl ⟨hclash, err, ?_⟩
    rw [collectBodies, herr]
    rfl
  · refine .inr ⟨hno, nodes, ?_, htrav, fun e he a ha => hmet a ⟨e, he, ha⟩⟩
    rw [collectBodies, except_bind_eq_ok_iff]
    exact ⟨((), nodes), hrun, rfl⟩

/-- A listed node has a name, and a name given stays or is replaced. -/
theorem assignNames_ne_none {order : List ℕ} :
    ∀ {reserved : List String} {names : NodeNames} {i : ℕ}, i ∈ order ∨ names i ≠ none →
      assignNames order reserved names i ≠ none := by
  induction order with
  | nil =>
      intro reserved names i hi
      exact hi.resolve_left List.not_mem_nil
  | cons nodeId order ih =>
      intro reserved names i hi
      rw [assignNames]
      apply ih
      by_cases hid : i = nodeId
      · subst hid
        rw [Function.update_self]
        exact .inr (Option.some_ne_none _)
      · rw [Function.update_of_ne hid]
        exact hi.imp_left fun hmem => (List.mem_cons.mp hmem).resolve_left hid

/-- **Collected nodes are bound.**  Nothing after the collection fails, and no later
step looks at the payloads of one id again. -/
theorem letBindNodes_of_traversal {body : List Expr} (reservedNames : List String)
    {vs : List Visit} {nodes : CollectedNodes} (hcollect : collectBodies body = .ok nodes)
    (htrav : Traversal [] vs nodes)
    (hmet : ∀ e ∈ body, ∀ a ∈ e.nodes, a ∈ vs.map Visit.node) :
    ∃ lets body', letBindNodes body reservedNames = .ok (lets, body') := by
  -- no node is being entered any more, so every id met has an entry
  have hlisted : ∀ i p, (i, p) ∈ vs.map Visit.node → i ∈ nodes.order := by
    intro i p hmem
    obtain ⟨v, hv, hnode⟩ := List.mem_map.mp hmem
    refine (htrav.listed i).mpr fun hnone => ?_
    have hopen := htrav.unrecorded v hv (by rw [hnode]; exact hnone)
    cases hopen
  have hname : ∀ i ∈ nodes.order, ∃ name : String,
      assignNames nodes.order reservedNames (fun _ => none) i = some name :=
    fun i hi => Option.ne_none_iff_exists'.mp (assignNames_ne_none (.inl hi))
  have hpayload : ∀ i ∈ nodes.order, ∃ p, nodes.values i = some p :=
    fun i hi => Option.ne_none_iff_exists'.mp ((htrav.listed i).mp hi)
  have hexpr : Nonempty Expr := ⟨.var ""⟩
  choose! name hname using hname
  choose! payload hpayload using hpayload
  refine ⟨_, _, letBindNodes_eq_ok hcollect hname hpayload ?_ ?_⟩
  · rintro i hi j ⟨q, hq⟩
    obtain ⟨v, hv, hnode⟩ := List.mem_map.mp (htrav.recorded i _ (hpayload i hi)).1
    have hall := (htrav.complete v hv).resolve_left List.not_mem_nil
    rw [hnode] at hall
    exact hlisted j q (hall (j, q) hq)
  · rintro e he i ⟨p, hp⟩
    exact hlisted i p (hmet e he (i, p) hp)

/-- **The bodies refused** are those in which two visits clash. -/
theorem letBindNodes_error_iff {body : List Expr} {reservedNames : List String} :
    (∃ err, letBindNodes body reservedNames = .error err) ↔
      ClashApart (visitsArgs [] [] body) := by
  rcases collectBodies_follows body with
    ⟨hclash, err, herr⟩ | ⟨hno, nodes, hcollect, htrav, hmet⟩
  · refine iff_of_true ⟨err, ?_⟩ hclash
    rw [letBindNodes, herr]
    rfl
  · refine iff_of_false ?_ hno
    rintro ⟨err, herr⟩
    obtain ⟨lets, body', hok⟩ :=
      letBindNodes_of_traversal reservedNames hcollect htrav hmet
    rw [hok] at herr
    cases herr

theorem not_nestsItself_of_sharedNodes {body : List Expr} (h : SharedNodes body) :
    ¬ NestsItself body := by
  rintro ⟨i, p, q, ⟨e, he, hp⟩, hq⟩
  have hqe : Expr.node i q ∈ e.subexprs :=
    Expr.mem_subexprs_trans (Expr.mem_subexprs_node i hq) hp
  obtain rfl := h i p q ⟨e, he, hp⟩ ⟨e, he, hqe⟩
  exact Expr.node_not_mem_payload i p hq

/-- Two payloads of one id, neither inside the other, are visited apart. -/
theorem clashApart_of_not_nestsItself {body : List Expr} (hnest : ¬ NestsItself body)
    (hshared : ¬ SharedNodes body) : ClashApart (visitsArgs [] [] body) := by
  rcases collectBodies_follows body with ⟨hclash, -⟩ | ⟨hno, nodes, -, htrav, hmet⟩
  · exact hclash
  refine absurd ?_ hshared
  rintro i p q ⟨e, he, hp⟩ ⟨e', he', hq⟩
  by_contra hne
  obtain ⟨u, hu, hnodeu⟩ := List.mem_map.mp (hmet e he (i, p) hp)
  obtain ⟨v, hv, hnodev⟩ := List.mem_map.mp (hmet e' he' (i, q) hq)
  refine hno ⟨u, hu, v, hv, by rw [hnodeu, hnodev], by rwa [hnodeu, hnodev], ?_, ?_⟩
  · intro hmem
    have hinside := (htrav.inside v hv _ hmem).1
    rw [hnodeu, hnodev] at hinside
    exact hnest ⟨i, p, q, ⟨e, he, hp⟩, hinside⟩
  · intro hmem
    have hinside := (htrav.inside u hu _ hmem).1
    rw [hnodeu, hnodev] at hinside
    exact hnest ⟨i, q, p, ⟨e', he', hq⟩, hinside⟩

/-- **When node ids with two payloads are refused**: when no id occurs inside its own
payload, and else when two payloads of an id are visited apart. -/
theorem rejectsClashes_iff (body : List Expr) (reservedNames : List String) :
    RejectsClashes body reservedNames ↔
      ¬ NestsItself body ∨ ClashApart (visitsArgs [] [] body) := by
  rw [RejectsClashes, letBindNodes_error_iff]
  constructor
  · intro h
    by_cases hshared : SharedNodes body
    · exact .inl (not_nestsItself_of_sharedNodes hshared)
    · exact .inr (h hshared)
  · rintro (hnest | hclash) hshared
    · exact clashApart_of_not_nestsItself hnest hshared
    · exact hclash

/-- A node whose payload contains its id with another payload. -/
def nestedClashBody : List Expr := [.node 1 (.unary .neg (.node 1 (.const "1.0" .f32)))]

/-- **A clash inside a payload is not noticed**: the id is bound twice, by lets that
refer to themselves. -/
theorem not_rejectsClashes_nestedClashBody :
    ¬ RejectsClashes nestedClashBody [] ∧
      letBindNodes nestedClashBody [] =
        .ok ([⟨["__knok_node_1_1"], .unary .neg (.var "__knok_node_1_1")⟩,
          ⟨["__knok_node_1_1"], .unary .neg (.var "__knok_node_1_1")⟩],
          [.var "__knok_node_1_1"]) := by
  have hresult : letBindNodes nestedClashBody [] =
      .ok ([⟨["__knok_node_1_1"], .unary .neg (.var "__knok_node_1_1")⟩,
        ⟨["__knok_node_1_1"], .unary .neg (.var "__knok_node_1_1")⟩],
        [.var "__knok_node_1_1"]) := by
    rfl
  refine ⟨fun h => ?_, hresult⟩
  have hclash : ¬ SharedNodes nestedClashBody := by
    intro hshared
    have hvalues := hshared 1 (.unary .neg (.node 1 (.const "1.0" .f32))) (.const "1.0" .f32)
      ⟨_, List.mem_singleton_self _, by simp [Expr.subexprs]⟩
      ⟨_, List.mem_singleton_self _, by simp [Expr.subexprs]⟩
    cases hvalues
  obtain ⟨err, herr⟩ := h hclash
  rw [hresult] at herr
  cases herr

end Knok
