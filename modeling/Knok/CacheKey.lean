import Mathlib
import Knok.Words

/-!
# The key of a cached artifact

`cacheKey` hashes a compile request.  The hasher is fed the fields one after
the other, with nothing between them; a streaming hash sees only the
concatenation, `hashInput`.  What it can tell apart is decided by the *layouts*
of the two requests, how many fields they have and how long each one is: the
bytes at a given place are a field's own in one layout and a variable's name in
another, and a text that suits two layouts is two requests
(`hashInput_separates_iff`).
-/

namespace Knok

open Words

/-- The supported backends, over all platforms and features. -/
inductive IreeBackend where
  | llvmCpu
  | metalSpirv
  | vulkanSpirv
  | cuda
  deriving DecidableEq

/-- The backend's name on the command line. -/
def IreeBackend.targetName : IreeBackend → String
  | .llvmCpu => "llvm-cpu"
  | .metalSpirv => "metal-spirv"
  | .vulkanSpirv => "vulkan-spirv"
  | .cuda => "cuda"

/-- The target variables that Cargo sets, those that can be read. -/
structure CargoTarget (Value : Type) where
  arch : Option Value
  env : Option Value
  os : Option Value
  vendor : Option Value
  deriving DecidableEq

/-- Names and values of the target variables, in the order they are read. -/
def CargoTarget.vars {Value : Type} (target : CargoTarget Value) :
    List (String × Option Value) :=
  [("CARGO_CFG_TARGET_ARCH", target.arch), ("CARGO_CFG_TARGET_ENV", target.env),
    ("CARGO_CFG_TARGET_OS", target.os), ("CARGO_CFG_TARGET_VENDOR", target.vendor)]

/-- Everything that decides the result of a compilation. -/
structure CompileRequest (Path : Type) where
  backend : IreeBackend
  compiler : Path
  compilerVersion : String
  flags : List String
  target : CargoTarget String
  mlir : String
  deriving DecidableEq

/-- The version of the package, a compile-time constant. -/
def cargoPkgVersion : String := "0.4.0"

/-- `str::as_bytes`. -/
def asBytes (text : String) : List UInt8 := text.toUTF8.data.toList

theorem asBytes_injective : Function.Injective asBytes := by
  intro s t h
  simp only [asBytes, String.toUTF8_eq_toByteArray, Array.toList_inj] at h
  exact String.toByteArray_inj.mp (ByteArray.ext h)

theorem asBytes_ofList (chars : List Char) :
    asBytes (String.ofList chars) = chars.flatMap String.utf8EncodeChar := by
  simp [asBytes, String.toUTF8_eq_toByteArray, String.toByteArray_ofList, List.utf8Encode]

theorem utf8EncodeChar_ofUInt8 {byte : UInt8} (h : byte < 128) :
    String.utf8EncodeChar (Char.ofUInt8 byte) = [byte] := by
  have hsize : (Char.ofUInt8 byte).utf8Size = 1 := by
    rw [Char.utf8Size_eq_one_iff, UInt32.le_iff_toNat_le]
    have hlt := UInt8.lt_iff_toNat_lt.mp h
    simp only [UInt8.reduceToNat] at hlt
    simp only [Char.ofUInt8, UInt8.toNat_toUInt32, UInt32.reduceToNat]
    omega
  rw [String.utf8EncodeChar_eq_singleton hsize]
  simp [Char.ofUInt8]

/-- ASCII bytes are a text. -/
theorem exists_asBytes {bytes : List UInt8} (h : ∀ byte ∈ bytes, byte < 128) :
    ∃ text, asBytes text = bytes := by
  refine ⟨String.ofList (bytes.map Char.ofUInt8), ?_⟩
  rw [asBytes_ofList, List.flatMap_map]
  induction bytes with
  | nil => rfl
  | cons byte bytes ih =>
    rw [List.forall_mem_cons] at h
    rw [List.flatMap_cons, utf8EncodeChar_ofUInt8 h.1, ih h.2, List.singleton_append]

/-- What a request's fields are like, apart from their texts: how many flags,
which target variables are set, and how many bytes each field has. -/
structure RequestLayout where
  backend : IreeBackend
  compiler : ℕ
  compilerVersion : ℕ
  flags : List ℕ
  target : CargoTarget ℕ
  mlir : ℕ
  deriving DecidableEq

namespace RequestLayout

/-- Name and value of a target variable, if it is set. -/
def varPieces (var : String) : Option ℕ → List (Piece UInt8)
  | some length => [.fixed (asBytes var), .free length]
  | none => []

/-- The parts of the text after the backend. -/
def pieces (layout : RequestLayout) : List (Piece UInt8) :=
  [.free layout.compiler, .free layout.compilerVersion] ++ layout.flags.map .free ++
    layout.target.vars.flatMap (fun var => varPieces var.1 var.2) ++ [.free layout.mlir]

/-- The text after the backend, with the fields left open. -/
def stencil (layout : RequestLayout) : List (Option UInt8) :=
  layout.pieces.flatMap Piece.stencil

theorem ascii_of_mem_stencil {layout : RequestLayout} {byte : UInt8}
    (h : some byte ∈ layout.stencil) : byte < 128 := by
  have hnames : ∀ var ∈ layout.target.vars, ∀ byte ∈ asBytes var.1, byte < 128 := by
    intro var hvar
    simp only [CargoTarget.vars, List.mem_cons, List.not_mem_nil, or_false] at hvar
    obtain rfl | rfl | rfl | rfl := hvar <;> dsimp only <;> decide +kernel
  simp only [stencil, pieces, List.mem_flatMap, List.mem_append, List.mem_cons,
    List.not_mem_nil, or_false, List.mem_map] at h
  obtain ⟨piece, ((hpiece | ⟨length, -, rfl⟩) | ⟨var, hvar, hpiece⟩) | rfl, hbyte⟩ := h
  · obtain rfl | rfl := hpiece <;> simp [Piece.stencil] at hbyte
  · simp [Piece.stencil] at hbyte
  · cases hvalue : var.2 with
    | none => simp [hvalue, varPieces] at hpiece
    | some length =>
      simp only [hvalue, varPieces, List.mem_cons, List.not_mem_nil, or_false] at hpiece
      obtain rfl | rfl := hpiece
      · simp only [Piece.stencil, List.mem_map, Option.some.injEq, exists_eq_right] at hbyte
        exact hnames var hvar byte hbyte
      · simp [Piece.stencil] at hbyte
  · simp [Piece.stencil] at hbyte

end RequestLayout

namespace CompileRequest

section

variable {Path : Type} (toStringLossy : Path → String)

/-- What a target variable feeds to the hasher: name and value, if it is set. -/
def varUpdates (var : String) : Option String → List (List UInt8)
  | some value => [asBytes var, asBytes value]
  | none => []

/-- What the target variables feed to the hasher. -/
def targetUpdates (target : CargoTarget String) : List (List UInt8) :=
  target.vars.flatMap fun var => varUpdates var.1 var.2

/-- The updates after the backend. -/
def fieldUpdates (request : CompileRequest Path) : List (List UInt8) :=
  [asBytes (toStringLossy request.compiler), asBytes request.compilerVersion] ++
    request.flags.map asBytes ++ targetUpdates request.target ++
    [asBytes request.mlir]

/-- The successive updates of the hasher. -/
def hasherUpdates (request : CompileRequest Path) : List (List UInt8) :=
  [asBytes "knok-cache-v4", asBytes cargoPkgVersion,
    asBytes request.backend.targetName] ++ request.fieldUpdates toStringLossy

/-- The bytes that the hasher has been fed when it is finalized. -/
def hashInput (request : CompileRequest Path) : List UInt8 :=
  (request.hasherUpdates toStringLossy).flatten

/-- The key under a hash function. -/
def cacheKey {Key : Type} (hash : List UInt8 → Key) (request : CompileRequest Path) :
    Key :=
  hash (request.hashInput toStringLossy)

/-- The layout of a request. -/
def layout (request : CompileRequest Path) : RequestLayout where
  backend := request.backend
  compiler := (asBytes (toStringLossy request.compiler)).length
  compilerVersion := (asBytes request.compilerVersion).length
  flags := request.flags.map fun flag => (asBytes flag).length
  target :=
    { arch := request.target.arch.map fun value => (asBytes value).length
      env := request.target.env.map fun value => (asBytes value).length
      os := request.target.os.map fun value => (asBytes value).length
      vendor := request.target.vendor.map fun value => (asBytes value).length }
  mlir := (asBytes request.mlir).length

/-- Backend names are a prefix-free code. -/
theorem prefixFree_targetName :
    PrefixFree fun backend : IreeBackend => asBytes backend.targetName := by
  intro i j h
  cases i <;> cases j <;> first | rfl | exact absurd h (by decide)

theorem hashInput_eq (request : CompileRequest Path) :
    request.hashInput toStringLossy =
      asBytes "knok-cache-v4" ++ (asBytes cargoPkgVersion ++
        (asBytes request.backend.targetName ++
          (request.fieldUpdates toStringLossy).flatten)) := by
  simp [hashInput, hasherUpdates]

/-- The backend can be read back, and nothing else. -/
theorem hashInput_eq_iff (request request' : CompileRequest Path) :
    request.hashInput toStringLossy = request'.hashInput toStringLossy ↔
      request.backend = request'.backend ∧
        (request.fieldUpdates toStringLossy).flatten =
          (request'.fieldUpdates toStringLossy).flatten := by
  rw [hashInput_eq, hashInput_eq, List.append_cancel_left_eq, List.append_cancel_left_eq]
  constructor
  · intro h
    exact prefixFree_targetName.append_inj h
  · rintro ⟨hbackend, hfields⟩
    rw [hbackend, hfields]

section Layout

variable {toStringLossy}

theorem cut_varUpdates (var : String) (value : Option String) :
    List.Forall₂ Piece.Cut
      (RequestLayout.varPieces var (value.map fun value => (asBytes value).length))
      (varUpdates var value) := by
  cases value with
  | none => exact .nil
  | some value => exact .cons rfl (.cons rfl .nil)

/-- A request's updates are cut as its layout says. -/
theorem cut_fieldUpdates (request : CompileRequest Path) :
    List.Forall₂ Piece.Cut (request.layout toStringLossy).pieces
      (request.fieldUpdates toStringLossy) := by
  have hflags : List.Forall₂ Piece.Cut
      ((request.flags.map fun flag => (asBytes flag).length).map Piece.free)
      (request.flags.map asBytes) := by
    rw [List.map_map, List.forall₂_map_left_iff, List.forall₂_map_right_iff]
    exact List.forall₂_same.mpr fun flag _ => rfl
  have htarget : List.Forall₂ Piece.Cut
      ((request.layout toStringLossy).target.vars.flatMap
        fun var => RequestLayout.varPieces var.1 var.2) (targetUpdates request.target) := by
    simp only [targetUpdates, CargoTarget.vars, layout, List.flatMap_cons, List.flatMap_nil]
    exact List.rel_append (cut_varUpdates _ _) <| List.rel_append (cut_varUpdates _ _) <|
      List.rel_append (cut_varUpdates _ _) <| List.rel_append (cut_varUpdates _ _) .nil
  have hhead : List.Forall₂ Piece.Cut
      [.free (request.layout toStringLossy).compiler,
        .free (request.layout toStringLossy).compilerVersion]
      [asBytes (toStringLossy request.compiler), asBytes request.compilerVersion] :=
    .cons rfl (.cons rfl .nil)
  have hmlir : List.Forall₂ Piece.Cut [.free (request.layout toStringLossy).mlir]
      [asBytes request.mlir] := .cons rfl .nil
  exact List.rel_append (List.rel_append (List.rel_append hhead hflags) htarget) hmlir

theorem fits_fieldUpdates (request : CompileRequest Path) :
    Fits (request.layout toStringLossy).stencil (request.fieldUpdates toStringLossy).flatten :=
  fits_flatten_iff.mpr ⟨_, request.cut_fieldUpdates, rfl⟩

theorem varUpdates_inj {var : String} {value value' : Option String} {rest rest'}
    (hset : (value.map fun value => (asBytes value).length) =
      value'.map fun value => (asBytes value).length)
    (h : varUpdates var value ++ rest = varUpdates var value' ++ rest') :
    value = value' ∧ rest = rest' := by
  cases value with
  | none =>
    cases value' with
    | none => exact ⟨rfl, h⟩
    | some value' => simp at hset
  | some value =>
    cases value' with
    | none => simp at hset
    | some value' =>
      simp only [varUpdates, List.cons_append, List.nil_append, List.cons.injEq, true_and] at h
      exact ⟨congrArg some (asBytes_injective h.1), h.2⟩

/-- Requests of one layout with the same updates are the same, if the compilers
are. -/
theorem eq_of_fieldUpdates {request request' : CompileRequest Path}
    (hlayout : request.layout toStringLossy = request'.layout toStringLossy)
    (hcompiler : toStringLossy request.compiler = toStringLossy request'.compiler →
      request.compiler = request'.compiler)
    (h : request.fieldUpdates toStringLossy = request'.fieldUpdates toStringLossy) :
    request = request' := by
  obtain ⟨backend, compiler, version, flags, ⟨arch, env, os, vendor⟩, mlir⟩ := request
  obtain ⟨backend', compiler', version', flags', ⟨arch', env', os', vendor'⟩, mlir'⟩ := request'
  simp only [layout, RequestLayout.mk.injEq, CargoTarget.mk.injEq] at hlayout
  obtain ⟨rfl, -, -, hflags, ⟨harch, henv, hos, hvendor⟩, -⟩ := hlayout
  have hcount : (flags.map asBytes).length = (flags'.map asBytes).length := by
    simpa using congrArg List.length hflags
  simp only [fieldUpdates, targetUpdates, CargoTarget.vars, List.flatMap_cons, List.flatMap_nil,
    List.append_assoc, List.nil_append, List.cons_append, List.cons.injEq] at h
  obtain ⟨hpath, hversion, h⟩ := h
  obtain ⟨htexts, h⟩ := List.append_inj h hcount
  obtain ⟨rfl, h₁⟩ := varUpdates_inj harch h
  obtain ⟨rfl, h₂⟩ := varUpdates_inj henv h₁
  obtain ⟨rfl, h₃⟩ := varUpdates_inj hos h₂
  obtain ⟨rfl, h₄⟩ := varUpdates_inj hvendor h₃
  obtain rfl := hcompiler (asBytes_injective hpath)
  obtain rfl := asBytes_injective hversion
  obtain rfl := asBytes_injective.list_map htexts
  obtain rfl := asBytes_injective (List.cons.inj h₄).1
  rfl

/-- Words cut from ASCII text for a target variable are the variable's. -/
theorem exists_varUpdates {var : String} {length : Option ℕ} {rest : List (Piece UInt8)}
    {words : List (List UInt8)} (hascii : ∀ word ∈ words, ∀ byte ∈ word, byte < 128)
    (hcut : List.Forall₂ Piece.Cut (RequestLayout.varPieces var length ++ rest) words) :
    ∃ value words', words = varUpdates var value ++ words' ∧
      (value.map fun value => (asBytes value).length) = length ∧
      List.Forall₂ Piece.Cut rest words' := by
  cases length with
  | none => exact ⟨none, words, rfl, rfl, hcut⟩
  | some length =>
    obtain ⟨_, _, rfl, hvalues, rfl⟩ := List.forall₂_cons_left_iff.mp hcut
    obtain ⟨value, words', hvalue, hrest, rfl⟩ := List.forall₂_cons_left_iff.mp hvalues
    obtain ⟨text, rfl⟩ := exists_asBytes (hascii value (by simp))
    exact ⟨some text, words', rfl, congrArg some hvalue, hrest⟩

theorem exists_flags {lengths : List ℕ} {rest : List (Piece UInt8)}
    {words : List (List UInt8)} (hascii : ∀ word ∈ words, ∀ byte ∈ word, byte < 128)
    (hcut : List.Forall₂ Piece.Cut (lengths.map Piece.free ++ rest) words) :
    ∃ (flags : List String) (words' : List (List UInt8)),
      words = flags.map asBytes ++ words' ∧
      (flags.map fun flag => (asBytes flag).length) = lengths ∧
      List.Forall₂ Piece.Cut rest words' := by
  induction lengths generalizing words with
  | nil => exact ⟨[], words, rfl, rfl, hcut⟩
  | cons length lengths ih =>
    obtain ⟨word, words, hword, htail, rfl⟩ := List.forall₂_cons_left_iff.mp hcut
    rw [List.forall_mem_cons] at hascii
    obtain ⟨flag, rfl⟩ := exists_asBytes hascii.1
    obtain ⟨flags, words', rfl, hlengths, hrest⟩ := ih hascii.2 htail
    exact ⟨flag :: flags, words', rfl, congrArg₂ _ hword hlengths, hrest⟩

/-- Words cut from ASCII text as a layout says are the updates of a request. -/
theorem exists_fieldUpdates (hsurjective : Function.Surjective toStringLossy)
    {layout : RequestLayout} {words : List (List UInt8)}
    (hascii : ∀ word ∈ words, ∀ byte ∈ word, byte < 128)
    (hcut : List.Forall₂ Piece.Cut layout.pieces words) :
    ∃ request : CompileRequest Path, request.layout toStringLossy = layout ∧
      request.fieldUpdates toStringLossy = words := by
  obtain ⟨backend, compiler, version, lengths, ⟨arch, env, os, vendor⟩, mlir⟩ := layout
  simp only [RequestLayout.pieces, CargoTarget.vars, List.flatMap_cons, List.flatMap_nil,
    List.append_assoc, List.nil_append, List.cons_append] at hcut
  obtain ⟨pathWord, _, hpath, hcut₁, rfl⟩ := List.forall₂_cons_left_iff.mp hcut
  obtain ⟨versionWord, _, hversion, hcut₂, rfl⟩ := List.forall₂_cons_left_iff.mp hcut₁
  simp only [List.forall_mem_cons] at hascii
  obtain ⟨text, rfl⟩ := exists_asBytes hascii.1
  obtain ⟨version, rfl⟩ := exists_asBytes hascii.2.1
  obtain ⟨path, rfl⟩ := hsurjective text
  obtain ⟨flags, _, rfl, rfl, hcut₃⟩ := exists_flags hascii.2.2 hcut₂
  have hascii₃ := (List.forall_mem_append.mp hascii.2.2).2
  obtain ⟨arch, _, rfl, rfl, hcut₄⟩ := exists_varUpdates hascii₃ hcut₃
  have hascii₄ := (List.forall_mem_append.mp hascii₃).2
  obtain ⟨env, _, rfl, rfl, hcut₅⟩ := exists_varUpdates hascii₄ hcut₄
  have hascii₅ := (List.forall_mem_append.mp hascii₄).2
  obtain ⟨os, _, rfl, rfl, hcut₆⟩ := exists_varUpdates hascii₅ hcut₅
  have hascii₆ := (List.forall_mem_append.mp hascii₅).2
  obtain ⟨vendor, _, rfl, rfl, hcut₇⟩ := exists_varUpdates hascii₆ hcut₆
  have hascii₇ := (List.forall_mem_append.mp hascii₆).2
  obtain ⟨mlirWord, _, hmlir, hnil, rfl⟩ := List.forall₂_cons_left_iff.mp hcut₇
  obtain rfl := List.forall₂_nil_left_iff.mp hnil
  obtain ⟨mlir, rfl⟩ := exists_asBytes (hascii₇ mlirWord (by simp))
  obtain rfl : _ = _ := hpath
  obtain rfl : _ = _ := hversion
  obtain rfl : _ = _ := hmlir
  refine ⟨⟨backend, path, version, flags, ⟨arch, env, os, vendor⟩, mlir⟩, rfl, ?_⟩
  simp [fieldUpdates, targetUpdates, CargoTarget.vars]

/-- A text that suits two layouts is a request of each. -/
theorem exists_hashInput_eq (hsurjective : Function.Surjective toStringLossy)
    {layout layout' : RequestLayout} (hbackend : layout.backend = layout'.backend)
    (hunifiable : Unifiable layout.stencil layout'.stencil) :
    ∃ request request' : CompileRequest Path, request.layout toStringLossy = layout ∧
      request'.layout toStringLossy = layout' ∧
      request.hashInput toStringLossy = request'.hashInput toStringLossy := by
  have hfits := fits_overlay_left 97 hunifiable
  have hfits' := fits_overlay_right 97 hunifiable
  obtain ⟨words, hcut, hwords⟩ := fits_flatten_iff.mp hfits
  obtain ⟨words', hcut', hwords'⟩ := fits_flatten_iff.mp hfits'
  -- every letter of the overlay is one of a variable's name, or the filler
  have hascii : ∀ byte ∈ overlay 97 layout.stencil layout'.stencil, byte < 128 := by
    intro byte hbyte
    obtain h | h | rfl := mem_overlay hbyte
    · exact RequestLayout.ascii_of_mem_stencil h
    · exact RequestLayout.ascii_of_mem_stencil h
    · decide
  have hsplit : ∀ {words : List (List UInt8)},
      words.flatten = overlay 97 layout.stencil layout'.stencil →
        ∀ word ∈ words, ∀ byte ∈ word, byte < 128 := by
    intro words h word hword byte hbyte
    exact hascii byte (h ▸ List.mem_flatten_of_mem hword hbyte)
  obtain ⟨request, hlayout, hfields⟩ := exists_fieldUpdates hsurjective (hsplit hwords) hcut
  obtain ⟨request', hlayout', hfields'⟩ := exists_fieldUpdates hsurjective (hsplit hwords') hcut'
  refine ⟨request, request', hlayout, hlayout', ?_⟩
  rw [hashInput_eq_iff, hfields, hfields', hwords, hwords']
  refine ⟨?_, rfl⟩
  calc request.backend = (request.layout toStringLossy).backend := rfl
    _ = (request'.layout toStringLossy).backend := by rw [hlayout, hlayout', hbackend]

end Layout

/-- No two paths have one text of this many bytes. -/
def TextDetermines (length : ℕ) : Prop :=
  ∀ path path', toStringLossy path = toStringLossy path' →
    (asBytes (toStringLossy path)).length = length → path = path'

/-- The hasher tells requests of these layouts apart: by the backend, by the
length or by a variable's name, or because the layouts are the same and no text
of the compiler's length is ambiguous. -/
def Separates (layout layout' : RequestLayout) : Prop :=
  layout.backend ≠ layout'.backend ∨ ¬Unifiable layout.stencil layout'.stencil ∨
    layout = layout' ∧ TextDetermines toStringLossy layout.compiler

/-- **When the key separates requests.**  Different requests of two layouts are
always given different bytes exactly when the layouts separate them. -/
theorem hashInput_separates_iff (hsurjective : Function.Surjective toStringLossy)
    (layout layout' : RequestLayout) :
    (∀ request request' : CompileRequest Path, request.layout toStringLossy = layout →
        request'.layout toStringLossy = layout' → request ≠ request' →
          request.hashInput toStringLossy ≠ request'.hashInput toStringLossy) ↔
      Separates toStringLossy layout layout' := by
  constructor
  · intro hseparated
    by_contra hnot
    simp only [Separates, not_or, not_not] at hnot
    obtain ⟨hbackend, hunifiable, hsame⟩ := hnot
    obtain ⟨request, request', hlayout, hlayout', hbytes⟩ :=
      exists_hashInput_eq hsurjective hbackend hunifiable
    by_cases hlayouts : layout = layout'
    · -- two paths with one text make two requests of the layout
      obtain rfl := hlayouts
      refine hsame ⟨rfl, fun path path' htext hlength => ?_⟩
      by_contra hpath
      have hof : ∀ path, (asBytes (toStringLossy path)).length = layout.compiler →
          ({ request with compiler := path } : CompileRequest Path).layout toStringLossy =
            layout := by
        intro path hlength
        rw [← hlayout, RequestLayout.mk.injEq]
        exact ⟨rfl, hlength.trans (congrArg RequestLayout.compiler hlayout.symm), rfl, rfl, rfl,
          rfl⟩
      refine hseparated { request with compiler := path } { request with compiler := path' }
        (hof path hlength) (hof path' (htext ▸ hlength)) (fun h => hpath ?_) ?_
      · exact congrArg CompileRequest.compiler h
      · simp [hashInput_eq_iff, fieldUpdates, htext]
    · refine hseparated request request' hlayout hlayout' (fun h => hlayouts ?_) hbytes
      rw [← hlayout, ← hlayout', h]
  · rintro hseparates request request' rfl rfl hne hbytes
    obtain ⟨hbackend, hfields⟩ := (hashInput_eq_iff toStringLossy request request').mp hbytes
    rcases hseparates with h | h | ⟨hlayout, hdetermines⟩
    · exact h hbackend
    · refine h (unifiable_of_fits request.fits_fieldUpdates ?_)
      rw [hfields]
      exact request'.fits_fieldUpdates
    · refine hne (eq_of_fieldUpdates hlayout (fun h => hdetermines _ _ h rfl) ?_)
      refine eq_of_cut request.cut_fieldUpdates ?_ hfields
      rw [hlayout]
      exact request'.cut_fieldUpdates

end

/-- A request with two extra compiler flags. -/
def splitFlagRequest : CompileRequest String where
  backend := .llvmCpu
  compiler := "libIREECompiler.so"
  compilerVersion := "3.0"
  flags := ["--iree-hal-target-backends=llvm-cpu",
    "--iree-input-demote-f64-to-f32=false", "--iree-llvmcpu-target-cpu=generic",
    "--iree-opt-level=O3"]
  target := ⟨some "x86_64", some "gnu", some "linux", some "unknown"⟩
  mlir := "module \x7b\x7d"

theorem hashInput_separates_iff_flags :
    (∀ request request' : CompileRequest String,
        request.layout id = splitFlagRequest.layout id →
          request'.layout id = splitFlagRequest.layout id → request ≠ request' →
            request.hashInput id ≠ request'.hashInput id) ∧
      Separates id (splitFlagRequest.layout id) (splitFlagRequest.layout id) := by
  have hseparates :
      Separates id (splitFlagRequest.layout id) (splitFlagRequest.layout id) :=
    .inr (.inr ⟨rfl, fun _ _ h _ => h⟩)
  exact ⟨(hashInput_separates_iff id Function.surjective_id _ _).mpr hseparates, hseparates⟩

/-- The same request with the two extra flags written as one. -/
def joinedFlagRequest : CompileRequest String :=
  { splitFlagRequest with
    flags := ["--iree-hal-target-backends=llvm-cpu",
      "--iree-input-demote-f64-to-f32=false",
      "--iree-llvmcpu-target-cpu=generic--iree-opt-level=O3"] }

/-- Two requests with different flags and the same key. -/
theorem splitFlagRequest_collides :
    splitFlagRequest ≠ joinedFlagRequest ∧
      splitFlagRequest.hashInput id = joinedFlagRequest.hashInput id := by
  refine ⟨by decide, ?_⟩
  have hjoin : asBytes "--iree-llvmcpu-target-cpu=generic" ++
      asBytes "--iree-opt-level=O3" =
        asBytes "--iree-llvmcpu-target-cpu=generic--iree-opt-level=O3" := by
    decide
  simp [hashInput, hasherUpdates, fieldUpdates, splitFlagRequest, joinedFlagRequest,
    ← hjoin]

end CompileRequest

end Knok
