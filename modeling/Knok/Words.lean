import Mathlib

/-!
# Concatenations of words

A word that is put together from *pieces*, fixed words and free words of given
lengths, fits the *stencil* of the pieces: fixed letters and open positions.
Conversely the stencil's words are exactly the concatenations of the pieces
(`fits_flatten_iff`), each of one cutting only (`eq_of_cut`), and two stencils
share a word exactly when they are unifiable (`unifiable_of_fits`,
`fits_overlay_left`).  A leading word from a prefix-free code can always be
read back (`PrefixFree.append_inj`).
-/

namespace Words

variable {α : Type*}

/-- The word has the stencil's letters wherever the stencil has one. -/
def Fits (s : List (Option α)) (w : List α) : Prop :=
  List.Forall₂ (fun o a => ∀ b ∈ o, b = a) s w

/-- The stencils have one length, and different letters nowhere. -/
def Unifiable (s t : List (Option α)) : Prop :=
  List.Forall₂ (fun o p => ∀ a ∈ o, ∀ b ∈ p, a = b) s t

instance [DecidableEq α] (s t : List (Option α)) : Decidable (Unifiable s t) :=
  inferInstanceAs (Decidable (List.Forall₂ _ s t))

/-- The letters of both stencils, and a filler where neither has one. -/
def overlay (filler : α) (s t : List (Option α)) : List α :=
  List.zipWith (fun o p => (o.or p).getD filler) s t

theorem unifiable_of_fits {s t : List (Option α)} {w : List α} (hs : Fits s w)
    (ht : Fits t w) : Unifiable s t := by
  induction hs generalizing t with
  | nil =>
    cases ht
    exact .nil
  | cons ho _ ih =>
    obtain ⟨p, t, hp, htail, rfl⟩ := List.forall₂_cons_right_iff.mp ht
    exact .cons (fun a ha b hb => (ho a ha).trans (hp b hb).symm) (ih htail)

theorem fits_overlay_left {s t : List (Option α)} (filler : α) (h : Unifiable s t) :
    Fits s (overlay filler s t) := by
  induction h with
  | nil => exact .nil
  | @cons o p s t _ _ ih =>
    refine .cons (fun b hb => ?_) ih
    rw [Option.mem_def] at hb
    simp [hb]

theorem fits_overlay_right {s t : List (Option α)} (filler : α) (h : Unifiable s t) :
    Fits t (overlay filler s t) := by
  induction h with
  | nil => exact .nil
  | @cons o p s t hop _ ih =>
    refine .cons (fun b hb => ?_) ih
    cases o with
    | none => simp [Option.mem_def.mp hb]
    | some a => simp [hop a rfl b hb]

/-- Letters of the overlay are letters of a stencil, or the filler. -/
theorem mem_overlay {s t : List (Option α)} {filler a : α} (h : a ∈ overlay filler s t) :
    some a ∈ s ∨ some a ∈ t ∨ a = filler := by
  induction s generalizing t with
  | nil => simp [overlay] at h
  | cons o s ih =>
    cases t with
    | nil => simp [overlay] at h
    | cons p t =>
      simp only [overlay, List.zipWith_cons_cons, List.mem_cons] at h
      obtain hhead | htail := h
      · cases o <;> cases p <;> simp_all
      · obtain h | h | h := ih htail <;> simp [h]

/-- A part of a word: given, or open but for its length. -/
inductive Piece (α : Type*) where
  | fixed (w : List α)
  | free (length : ℕ)

/-- The positions of a part. -/
def Piece.stencil : Piece α → List (Option α)
  | .fixed w => w.map some
  | .free n => List.replicate n none

/-- The words that a part stands for. -/
def Piece.Cut : Piece α → List α → Prop
  | .fixed w, u => u = w
  | .free n, u => u.length = n

theorem Piece.fits_stencil_iff (p : Piece α) (u : List α) : Fits p.stencil u ↔ p.Cut u := by
  cases p with
  | fixed w =>
    simp only [Fits, Piece.stencil, Piece.Cut, List.forall₂_map_left_iff, Option.mem_def,
      Option.some.injEq, forall_eq', List.forall₂_eq_eq_eq]
    exact eq_comm
  | free n =>
    simp only [Piece.stencil, Piece.Cut]
    constructor
    · intro h
      simpa using (List.Forall₂.length_eq h).symm
    · rintro rfl
      rw [Fits, List.forall₂_iff_get]
      simp

theorem fits_append_iff {s t : List (Option α)} {w : List α} :
    Fits (s ++ t) w ↔ ∃ u v, w = u ++ v ∧ Fits s u ∧ Fits t v := by
  constructor
  · intro h
    refine ⟨w.take s.length, w.drop s.length, (List.take_append_drop _ w).symm, ?_, ?_⟩
    · simpa [Fits] using List.forall₂_take s.length h
    · simpa [Fits] using List.forall₂_drop s.length h
  · rintro ⟨u, v, rfl, hu, hv⟩
    exact List.rel_append hu hv

/-- **A word fits exactly when it is cut into the pieces.** -/
theorem fits_flatten_iff {ps : List (Piece α)} {w : List α} :
    Fits (ps.flatMap Piece.stencil) w ↔
      ∃ us, List.Forall₂ Piece.Cut ps us ∧ us.flatten = w := by
  induction ps generalizing w with
  | nil => simp [Fits, eq_comm]
  | cons p ps ih =>
    rw [List.flatMap_cons, fits_append_iff]
    constructor
    · rintro ⟨u, v, rfl, hu, hv⟩
      obtain ⟨us, hus, rfl⟩ := ih.mp hv
      exact ⟨u :: us, .cons (p.fits_stencil_iff u |>.mp hu) hus, rfl⟩
    · rintro ⟨us, hus, rfl⟩
      obtain ⟨u, us, hu, hrest, rfl⟩ := List.forall₂_cons_left_iff.mp hus
      exact ⟨u, us.flatten, rfl, (p.fits_stencil_iff u).mpr hu, ih.mpr ⟨us, hrest, rfl⟩⟩

theorem Piece.length_eq_of_cut {p : Piece α} {u v : List α} (hu : p.Cut u)
    (hv : p.Cut v) : u.length = v.length := by
  cases p with
  | fixed w => rw [show u = w from hu, show v = w from hv]
  | free n => exact Eq.trans hu (Eq.symm hv)

/-- A word is cut into given pieces in one way. -/
theorem eq_of_cut {ps : List (Piece α)} {us vs : List (List α)}
    (hus : List.Forall₂ Piece.Cut ps us) (hvs : List.Forall₂ Piece.Cut ps vs)
    (h : us.flatten = vs.flatten) : us = vs := by
  induction hus generalizing vs with
  | nil =>
    cases hvs
    rfl
  | cons hu _ ih =>
    obtain ⟨v, vs, hv, hrest, rfl⟩ := List.forall₂_cons_left_iff.mp hvs
    obtain ⟨rfl, htail⟩ := List.append_inj h (Piece.length_eq_of_cut hu hv)
    rw [ih hrest htail]

/-- No code word is a proper prefix of another. -/
def PrefixFree {ι : Type*} (code : ι → List α) : Prop :=
  ∀ i j, code i <+: code j → i = j

/-- A code word at the head of a word can be read back. -/
theorem PrefixFree.append_inj {ι : Type*} {code : ι → List α} (h : PrefixFree code)
    {i j : ι} {v w : List α} (heq : code i ++ v = code j ++ w) : i = j ∧ v = w := by
  have hij : i = j := by
    rcases List.prefix_or_prefix_of_prefix (List.prefix_append (code i) v)
      (heq ▸ List.prefix_append (code j) w) with hpre | hpre
    · exact h i j hpre
    · exact (h j i hpre).symm
  subst hij
  exact ⟨rfl, List.append_cancel_left heq⟩

end Words
