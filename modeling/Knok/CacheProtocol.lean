import Mathlib
import Knok.CacheKey
import Knok.Control.Machine

/-!
# The compiler cache

Build scripts and their threads share one cache directory.  `compile_with_iree`
locks it, reads the artifact, compiles on a miss, and publishes the result by
renaming a temporary file.  Here workers take these steps in any order, processes
crash between two of them, and files are deleted from outside, the lock file
included: whoever opens it next then locks another file.

Whatever happens, an answer is what the compiler returned in full for a request
with the same key, or what the directory held from the start
(`answers_compiled`): artifacts come from temporary files that no one else
writes, with or without the lock.  The lock is what makes answers agree
(`answers_agree`): as long as only temporary files are deleted, requests with one
key get the same bytes even from a compiler that does not repeat itself.
-/

namespace Knok

open Function (update)
open Control

/-- The content of a file. -/
abbrev Bytes := List UInt8

/-- The files of the cache directory, other than the lock. -/
inductive CacheFile (Key : Type) where
  /-- `{key}.vmfb`. -/
  | vmfb (key : Key)
  /-- `{key}.{process_id}-{counter}.vmfb.tmp`. -/
  | temp (key : Key) (suffix : ℕ × ℕ)
  deriving DecidableEq

/-- The arguments of `compile_with_iree`. -/
structure CompileCall where
  backend : IreeBackend
  flags : List String
  mlir : String

/-- What a call asks of the compiler that was loaded for it. -/
def CompileCall.request {Path : Type} (call : CompileCall) (compiler : Path)
    (compilerVersion : String) (target : CargoTarget String) : CompileRequest Path :=
  ⟨call.backend, compiler, compilerVersion, call.flags, target, call.mlir⟩

/-- What a worker that knows its request does next.  The artifact is read a second
time, `again`, after a failed rename. -/
inductive Stage where
  | reading (again : Bool)
  | removing (again : Bool)
  | compiling
  | creating (vmfb : Bytes) (suffix : ℕ × ℕ)
  | writing (vmfb : Bytes) (suffix : ℕ × ℕ) (written : ℕ)
  | publishing (vmfb : Bytes) (suffix : ℕ × ℕ)
  | cleaning (suffix : ℕ × ℕ)
  | returning (vmfb : Bytes)

/-- Where a worker is in `compile_with_iree`, and the lock file that it opened. -/
inductive WorkerState (Path : Type) where
  | idle
  | locking (call : CompileCall) (lock : ℕ)
  | loading (call : CompileCall) (lock : ℕ)
  | inside (request : CompileRequest Path) (lock : ℕ) (stage : Stage)

/-- What workers run on.  A worker is a thread of its process, and process ids are
the ids of live processes. -/
structure Host (Worker Path Key : Type) where
  processId : Worker → ℕ
  toStringLossy : Path → String
  hash : List UInt8 → Key

/-- The key of a request. -/
def Host.key {Worker Path Key : Type} (host : Host Worker Path Key)
    (request : CompileRequest Path) : Key :=
  request.cacheKey host.toStringLossy host.hash

/-- The cache directory, the workers, and what happened so far. -/
structure CacheSystem (Worker Path Key : Type) where
  files : CacheFile Key → Option Bytes
  /-- The lock file that is in the directory now. -/
  lockFile : ℕ
  /-- Who has locked which lock file. -/
  holder : ℕ → Option Worker
  workers : Worker → WorkerState Path
  /-- `CACHE_TEMP_COUNTER`, in each process. -/
  tempCounter : ℕ → ℕ
  /-- What the compiler has returned. -/
  outputs : List (CompileRequest Path × Bytes)
  /-- What the callers have received. -/
  answers : List (CompileRequest Path × Bytes)

/-- One step of a worker that knows its request, with what the file system and the
compiler make of it.  `failed` stands for an error that is returned with `?`. -/
inductive InsideEvent where
  | read
  | removed (ok : Bool)
  | compiled (vmfb : Bytes)
  | created
  | wrote (count : ℕ)
  | closed
  | renamed
  | renameFailed
  | returned
  | failed

/-- What can happen next. -/
inductive CacheEvent (Worker Path Key : Type) where
  | called (w : Worker) (call : CompileCall)
  | acquired (w : Worker)
  | loaded (w : Worker) (compiler : Path) (compilerVersion : String) (target : CargoTarget String)
  | gaveUp (w : Worker)
  | inside (w : Worker) (event : InsideEvent)
  | crashed (process : ℕ)
  | deleted (file : CacheFile Key)
  | lockDeleted

/-- A cache directory that nobody uses yet. -/
def CacheSystem.start {Worker Path Key : Type} (files : CacheFile Key → Option Bytes) :
    CacheSystem Worker Path Key :=
  ⟨files, 0, fun _ => none, fun _ => .idle, fun _ => 0, [], []⟩

section Model

variable {Worker Path Key : Type} [DecidableEq Worker] [DecidableEq Key]

namespace CacheSystem

/-- A worker goes on. -/
def goto (s : CacheSystem Worker Path Key) (w : Worker) (state : WorkerState Path) :
    CacheSystem Worker Path Key :=
  { s with workers := update s.workers w state }

def setFile (s : CacheSystem Worker Path Key) (file : CacheFile Key) (content : Option Bytes) :
    CacheSystem Worker Path Key :=
  { s with files := update s.files file content }

omit [DecidableEq Worker] in
@[simp] theorem setFile_self (s : CacheSystem Worker Path Key) (file : CacheFile Key)
    (content : Option Bytes) : (s.setFile file content).files file = content :=
  Function.update_self ..

omit [DecidableEq Worker] in
theorem setFile_of_ne (s : CacheSystem Worker Path Key) {file other : CacheFile Key}
    (h : other ≠ file) (content : Option Bytes) :
    (s.setFile file content).files other = s.files other :=
  Function.update_of_ne h ..

/-- A call returns, and its lock is dropped. -/
def release (s : CacheSystem Worker Path Key) (w : Worker) (lock : ℕ) :
    CacheSystem Worker Path Key :=
  { s with holder := update s.holder lock none, workers := update s.workers w .idle }

/-- A call returns an artifact. -/
def answer (s : CacheSystem Worker Path Key) (w : Worker) (request : CompileRequest Path)
    (lock : ℕ) (vmfb : Bytes) : CacheSystem Worker Path Key :=
  { s.release w lock with answers := (request, vmfb) :: s.answers }

/-- There is no artifact: it is compiled, unless publishing it has failed. -/
def missed (s : CacheSystem Worker Path Key) (w : Worker) (request : CompileRequest Path)
    (lock : ℕ) (again : Bool) : CacheSystem Worker Path Key :=
  if again then s.release w lock else s.goto w (.inside request lock .compiling)

end CacheSystem

/-- `unique_cache_temp_suffix`: the counter is an `AtomicU64`. -/
def uniqueCacheTempSuffix (processId counter : ℕ) : ℕ × ℕ :=
  (processId, counter % 2 ^ 64)

variable (host : Host Worker Path Key)

/-- `compile_with_iree` from the reading of the artifact on. -/
def insideStep (s : CacheSystem Worker Path Key) (w : Worker) (request : CompileRequest Path)
    (lock : ℕ) : Stage → InsideEvent → Option (CacheSystem Worker Path Key)
  | .reading again, .read =>
      match s.files (.vmfb (host.key request)) with
      | some vmfb =>
          if 16 ≤ vmfb.length then some (s.goto w (.inside request lock (.returning vmfb)))
          else some (s.goto w (.inside request lock (.removing again)))
      | none => some (s.missed w request lock again)
  | .removing again, .removed ok =>
      -- whether the file could be removed is not looked at
      some ((if ok then s.setFile (.vmfb (host.key request)) none else s).missed w request lock
        again)
  | .compiling, .compiled vmfb =>
      let s := { s with outputs := (request, vmfb) :: s.outputs }
      if vmfb.length < 16 then some (s.release w lock)
      else
        let process := host.processId w
        let suffix := uniqueCacheTempSuffix process (s.tempCounter process)
        some ({ s with tempCounter := update s.tempCounter process (s.tempCounter process + 1) }.goto
          w (.inside request lock (.creating vmfb suffix)))
  | .creating vmfb suffix, .created =>
      some ((s.setFile (.temp (host.key request) suffix) (some [])).goto
        w (.inside request lock (.writing vmfb suffix 0)))
  | .writing vmfb suffix written, .wrote count =>
      -- a file that was deleted meanwhile is still written to, but has no name
      if written + count ≤ vmfb.length then
        let file := CacheFile.temp (host.key request) suffix
        some ((s.setFile file ((s.files file).map fun _ => vmfb.take (written + count))).goto
          w (.inside request lock (.writing vmfb suffix (written + count))))
      else none
  | .writing vmfb suffix written, .closed =>
      if written = vmfb.length then some (s.goto w (.inside request lock (.publishing vmfb suffix)))
      else none
  | .publishing vmfb suffix, .renamed =>
      match s.files (.temp (host.key request) suffix) with
      | some content =>
          some (((s.setFile (.temp (host.key request) suffix) none).setFile
            (.vmfb (host.key request)) (some content)).goto w
              (.inside request lock (.returning vmfb)))
      | none => none
  | .publishing _ suffix, .renameFailed => some (s.goto w (.inside request lock (.cleaning suffix)))
  | .cleaning suffix, .removed ok =>
      some ((if ok then s.setFile (.temp (host.key request) suffix) none else s).goto
        w (.inside request lock (.reading true)))
  | .returning vmfb, .returned => some (s.answer w request lock vmfb)
  | .reading _, .failed | .compiling, .failed | .creating .., .failed | .writing .., .failed =>
      some (s.release w lock)
  | _, _ => none

/-- A process ends between two steps.  Its locks are dropped with it, and the counter
of the next process with this id starts again. -/
def crash (s : CacheSystem Worker Path Key) (process : ℕ) : CacheSystem Worker Path Key :=
  { s with
    holder := fun lock => (s.holder lock).filter fun w => host.processId w ≠ process
    workers := fun w => if host.processId w = process then .idle else s.workers w
    tempCounter := update s.tempCounter process 0 }

/-- One step of the system. -/
def cacheStep (s : CacheSystem Worker Path Key) :
    CacheEvent Worker Path Key → Option (CacheSystem Worker Path Key)
  | .called w call =>
      match s.workers w with
      | .idle => some (s.goto w (.locking call s.lockFile))
      | _ => none
  | .acquired w =>
      match s.workers w with
      | .locking call lock =>
          if s.holder lock = none then
            some ({ s with holder := update s.holder lock (some w) }.goto w (.loading call lock))
          else none
      | _ => none
  | .loaded w compiler compilerVersion target =>
      match s.workers w with
      | .loading call lock =>
          some (s.goto w
            (.inside (call.request compiler compilerVersion target) lock (.reading false)))
      | _ => none
  | .gaveUp w =>
      match s.workers w with
      | .locking _ _ => some (s.goto w .idle)
      | .loading _ lock => some (s.release w lock)
      | _ => none
  | .inside w event =>
      match s.workers w with
      | .inside request lock stage => insideStep host s w request lock stage event
      | _ => none
  | .crashed process => some (crash host s process)
  | .deleted file => some (s.setFile file none)
  | .lockDeleted => some { s with lockFile := s.lockFile + 1 }

end Model

/-! ## What a worker relies on -/

section States

variable {Worker Path Key : Type}

/-- The suffix of the temporary file of a stage. -/
def Stage.suffix? : Stage → Option (ℕ × ℕ)
  | .creating _ suffix | .writing _ suffix _ | .publishing _ suffix | .cleaning suffix => some suffix
  | .reading _ | .removing _ | .compiling | .returning _ => none

def WorkerState.suffix? : WorkerState Path → Option (ℕ × ℕ)
  | .inside _ _ stage => stage.suffix?
  | _ => none

/-- The lock file that a worker has locked. -/
def WorkerState.lock? : WorkerState Path → Option ℕ
  | .loading _ lock | .inside _ lock _ => some lock
  | .idle | .locking .. => none

/-- The lock file that a worker has opened. -/
def WorkerState.opened? : WorkerState Path → Option ℕ
  | .locking _ lock | .loading _ lock | .inside _ lock _ => some lock
  | .idle => none

variable (host : Host Worker Path Key)

/-- The compiler returned these bytes for a request with this key, or they were
there from the start. -/
def Traced (files : CacheFile Key → Option Bytes) (outputs : List (CompileRequest Path × Bytes))
    (key : Key) (vmfb : Bytes) : Prop :=
  files (.vmfb key) = some vmfb ∨ ∃ request, (request, vmfb) ∈ outputs ∧ host.key request = key

/-- What a stage knows about the bytes at hand: the compiler returned them, they are
long enough, and the temporary file, unless it was deleted, has as many of them as
were written. -/
def Stage.Sound (files : CacheFile Key → Option Bytes) (s : CacheSystem Worker Path Key)
    (request : CompileRequest Path) : Stage → Prop
  | .creating vmfb _ => (request, vmfb) ∈ s.outputs ∧ 16 ≤ vmfb.length
  | .writing vmfb suffix written =>
      ((request, vmfb) ∈ s.outputs ∧ 16 ≤ vmfb.length) ∧
        ∀ content ∈ s.files (.temp (host.key request) suffix), content = vmfb.take written
  | .publishing vmfb suffix =>
      ((request, vmfb) ∈ s.outputs ∧ 16 ≤ vmfb.length) ∧
        ∀ content ∈ s.files (.temp (host.key request) suffix), content = vmfb
  | .returning vmfb => 16 ≤ vmfb.length ∧ Traced host files s.outputs (host.key request) vmfb
  | .reading _ | .removing _ | .compiling | .cleaning _ => True

/-- What a stage knows about the artifact while nobody else writes it. -/
def Stage.Settled (s : CacheSystem Worker Path Key) (request : CompileRequest Path) :
    Stage → Prop
  | .reading false => True
  | .returning vmfb => s.files (.vmfb (host.key request)) = some vmfb ∧ 16 ≤ vmfb.length
  | _ => ∀ vmfb ∈ s.files (.vmfb (host.key request)), vmfb.length < 16

def WorkerState.Sound (files : CacheFile Key → Option Bytes) (s : CacheSystem Worker Path Key) :
    WorkerState Path → Prop
  | .inside request _ stage => stage.Sound host files s request
  | _ => True

def WorkerState.Settled (s : CacheSystem Worker Path Key) : WorkerState Path → Prop
  | .inside request _ stage => stage.Settled host s request
  | _ => True

/-- Every artifact and every answer is traced to an output, and workers know what
they say. -/
structure CacheSystem.Sound (files : CacheFile Key → Option Bytes)
    (s : CacheSystem Worker Path Key) : Prop where
  workers : ∀ w, (s.workers w).Sound host files s
  published : ∀ key, ∀ vmfb ∈ s.files (.vmfb key), Traced host files s.outputs key vmfb
  answered : ∀ answer ∈ s.answers,
    16 ≤ answer.2.length ∧ Traced host files s.outputs (host.key answer.1) answer.2

variable {host} {files : CacheFile Key → Option Bytes} {s s' : CacheSystem Worker Path Key}

theorem Traced.mono {outputs outputs' : List (CompileRequest Path × Bytes)} {key : Key}
    {vmfb : Bytes} (h : Traced host files outputs key vmfb) (houtputs : outputs ⊆ outputs') :
    Traced host files outputs' key vmfb :=
  h.imp_right fun ⟨request, hmem, hkey⟩ => ⟨request, houtputs hmem, hkey⟩

/-- Other temporary files and further outputs do not matter to a worker. -/
theorem WorkerState.Sound.mono {state : WorkerState Path} (h : state.Sound host files s)
    (houtputs : s.outputs ⊆ s'.outputs)
    (htemps : ∀ key suffix, state.suffix? = some suffix →
      ∀ content ∈ s'.files (.temp key suffix), content ∈ s.files (.temp key suffix)) :
    state.Sound host files s' := by
  cases state with
  | idle | locking | loading => trivial
  | inside request lock stage =>
    cases stage with
    | reading | removing | compiling | cleaning => trivial
    | creating vmfb suffix => exact ⟨houtputs h.1, h.2⟩
    | writing vmfb suffix written =>
        exact ⟨⟨houtputs h.1.1, h.1.2⟩, fun content hcontent =>
          h.2 content (htemps _ suffix rfl content hcontent)⟩
    | publishing vmfb suffix =>
        exact ⟨⟨houtputs h.1.1, h.1.2⟩, fun content hcontent =>
          h.2 content (htemps _ suffix rfl content hcontent)⟩
    | returning vmfb => exact ⟨h.1, h.2.mono houtputs⟩

end States

/-! ## What a worker does -/

section Moves

open CacheSystem

variable {Worker Path Key : Type} [DecidableEq Worker]

/-- A worker keeps its lock, drops it, or takes one that is free. -/
inductive LockMove (holder : ℕ → Option Worker) (w : Worker) :
    Option ℕ → Option ℕ → (ℕ → Option Worker) → Prop where
  | keep (lock? : Option ℕ) : LockMove holder w lock? lock? holder
  | drop (lock : ℕ) : LockMove holder w (some lock) none (update holder lock none)
  | take {lock : ℕ} (hfree : holder lock = none) :
      LockMove holder w none (some lock) (update holder lock (some w))

/-- What a worker can do to the rest of the system.  It writes to its own temporary
file only, and only a rename brings in an artifact. -/
structure Move (host : Host Worker Path Key) (files : CacheFile Key → Option Bytes)
    (s s' : CacheSystem Worker Path Key) (w : Worker) (old new : WorkerState Path) : Prop where
  was : s.workers w = old
  workers : s'.workers = update s.workers w new
  lockFile : s'.lockFile = s.lockFile
  opened : ∀ lock, new.opened? = some lock → old.opened? = some lock ∨ lock = s.lockFile
  lock : LockMove s.holder w old.lock? new.lock? s'.holder
  suffix : s'.tempCounter = s.tempCounter ∧
      (∀ suffix, new.suffix? = some suffix → old.suffix? = some suffix) ∨
    s'.tempCounter = update s.tempCounter (host.processId w) (s.tempCounter (host.processId w) + 1) ∧
      new.suffix? = some (uniqueCacheTempSuffix (host.processId w)
        (s.tempCounter (host.processId w)))
  outputs : s.outputs ⊆ s'.outputs
  temps : ∀ key suffix, old.suffix? ≠ some suffix →
    ∀ content ∈ s'.files (.temp key suffix), content ∈ s.files (.temp key suffix)
  artifacts : ∀ key, s'.files (.vmfb key) = s.files (.vmfb key) ∨
    (∃ request lock again, old = .inside request lock (.removing again) ∧
      key = host.key request ∧ s'.files (.vmfb key) = none) ∨
    ∃ request lock vmfb suffix, old = .inside request lock (.publishing vmfb suffix) ∧
      key = host.key request ∧ s'.files (.vmfb key) = some vmfb
  answers : s'.answers = s.answers ∨ ∃ request lock vmfb,
    old = .inside request lock (.returning vmfb) ∧ s'.answers = (request, vmfb) :: s.answers
  sound : new.Sound host files s'
  settled : old.Settled host s → new.Settled host s'

variable {host : Host Worker Path Key} {files : CacheFile Key → Option Bytes}
  {s s' : CacheSystem Worker Path Key} {w : Worker} {request : CompileRequest Path} {lock : ℕ}
  {stage stage' : Stage}

/-- Before the lock is taken and after. -/
theorem Move.outside {old new : WorkerState Path} (holder : ℕ → Option Worker)
    (hold : s.workers w = old)
    (hopened : ∀ lock, new.opened? = some lock → old.opened? = some lock ∨ lock = s.lockFile)
    (hlock : LockMove s.holder w old.lock? new.lock? holder)
    (hnew : ∀ request lock stage, new = .inside request lock stage → stage = .reading false) :
    Move host files s ({ s with holder := holder }.goto w new) w old new where
  was := hold
  workers := rfl
  lockFile := rfl
  opened := hopened
  lock := hlock
  suffix := by
    refine .inl ⟨rfl, fun suffix h => ?_⟩
    cases new with
    | idle | locking | loading => cases h
    | inside request lock stage =>
        rw [hnew _ _ _ rfl] at h
        cases h
  outputs := List.Subset.refl _
  temps _ _ _ _ h := h
  artifacts _ := .inl rfl
  answers := .inl rfl
  sound := by
    cases new with
    | idle | locking | loading => trivial
    | inside request lock stage =>
        rw [hnew _ _ _ rfl]
        trivial
  settled _ := by
    cases new with
    | idle | locking | loading => trivial
    | inside request lock stage =>
        rw [hnew _ _ _ rfl]
        trivial

/-- Going to another stage. -/
theorem Move.goto (hw : s.workers w = .inside request lock stage)
    (newFiles : CacheFile Key → Option Bytes)
    (htemps : ∀ key suffix, stage.suffix? ≠ some suffix →
      ∀ content ∈ newFiles (.temp key suffix), content ∈ s.files (.temp key suffix))
    (hartifacts : ∀ key, newFiles (.vmfb key) = s.files (.vmfb key) ∨
      (∃ again, stage = .removing again ∧ key = host.key request ∧ newFiles (.vmfb key) = none) ∨
      ∃ vmfb suffix, stage = .publishing vmfb suffix ∧ key = host.key request ∧
        newFiles (.vmfb key) = some vmfb)
    (hsuffix : ∀ suffix, stage'.suffix? = some suffix → stage.suffix? = some suffix)
    (hsound : stage'.Sound host files { s with files := newFiles } request)
    (hsettled : stage.Settled host s request →
      stage'.Settled host { s with files := newFiles } request) :
    Move host files s ({ s with files := newFiles }.goto w (.inside request lock stage')) w
      (.inside request lock stage) (.inside request lock stage') where
  was := hw
  workers := rfl
  lockFile := rfl
  opened _ h := .inl h
  lock := .keep _
  suffix := .inl ⟨rfl, hsuffix⟩
  outputs := List.Subset.refl _
  temps := htemps
  artifacts key := by
    rcases hartifacts key with h | ⟨again, rfl, h⟩ | ⟨vmfb, suffix, rfl, h⟩
    · exact .inl h
    · exact .inr (.inl ⟨_, _, _, rfl, h⟩)
    · exact .inr (.inr ⟨_, _, _, _, rfl, h⟩)
  answers := .inl rfl
  sound := by
    refine @WorkerState.Sound.mono _ _ _ _ _ _ _ (.inside request lock stage') hsound ?_ ?_
    · exact List.Subset.refl _
    · exact fun _ _ _ _ h => h
  settled := by
    cases stage' with
    | reading again =>
      cases again with
      | false => exact fun _ => trivial
      | true => exact hsettled
    | removing | compiling | creating | writing | publishing | cleaning | returning =>
        exact hsettled

/-- Returning an error. -/
theorem Move.release (hw : s.workers w = .inside request lock stage)
    (newFiles : CacheFile Key → Option Bytes)
    {outputs : List (CompileRequest Path × Bytes)} (houtputs : s.outputs ⊆ outputs)
    (htemps : ∀ key suffix, newFiles (.temp key suffix) = s.files (.temp key suffix))
    (hartifacts : ∀ key, newFiles (.vmfb key) = s.files (.vmfb key) ∨
      ∃ again, stage = .removing again ∧ key = host.key request ∧ newFiles (.vmfb key) = none) :
    Move host files s ({ s with files := newFiles, outputs := outputs }.release w lock) w
      (.inside request lock stage) .idle where
  was := hw
  workers := rfl
  lockFile := rfl
  opened _ h := by cases h
  lock := .drop lock
  suffix := .inl ⟨rfl, fun _ h => by cases h⟩
  outputs := houtputs
  temps key suffix _ content h := htemps key suffix ▸ h
  artifacts key := by
    rcases hartifacts key with h | ⟨again, rfl, h⟩
    · exact .inl h
    · exact .inr (.inl ⟨_, _, _, rfl, h⟩)
  answers := .inl rfl
  sound := trivial
  settled _ := trivial

/-- Without an artifact. -/
theorem Move.missed (hw : s.workers w = .inside request lock stage)
    (newFiles : CacheFile Key → Option Bytes) {again : Bool}
    (hstage : stage = .reading again ∨ stage = .removing again)
    (htemps : ∀ key suffix, newFiles (.temp key suffix) = s.files (.temp key suffix))
    (hartifacts : ∀ key, newFiles (.vmfb key) = s.files (.vmfb key) ∨
      ∃ again, stage = .removing again ∧ key = host.key request ∧ newFiles (.vmfb key) = none)
    (hsettled : stage.Settled host s request →
      ∀ vmfb ∈ newFiles (.vmfb (host.key request)), vmfb.length < 16) :
    ∃ new, Move host files s ({ s with files := newFiles }.missed w request lock again) w
      (.inside request lock stage) new := by
  cases again with
  | true => exact ⟨_, .release hw newFiles (List.Subset.refl _) htemps hartifacts⟩
  | false =>
      refine ⟨_, .goto hw newFiles ?_ ?_ ?_ trivial hsettled⟩
      · intro key suffix _ content h
        exact htemps key suffix ▸ h
      · exact fun key => (hartifacts key).imp_right .inl
      · intro _ h
        cases h

/-- Other suffixes name other files. -/
theorem temp_ne {key key' : Key} {suffix suffix' : ℕ × ℕ} (hstage : stage.suffix? = some suffix)
    (hne : stage.suffix? ≠ some suffix') :
    CacheFile.temp key' suffix' ≠ CacheFile.temp key suffix := by
  rintro heq
  cases heq
  exact hne hstage

variable [DecidableEq Key]

/-- Setting the temporary file of the stage. -/
theorem Move.gotoTemp (hw : s.workers w = .inside request lock stage) {suffix : ℕ × ℕ}
    {content : Option Bytes} (hstage : stage.suffix? = some suffix)
    (hsuffix : ∀ suffix, stage'.suffix? = some suffix → stage.suffix? = some suffix)
    (hsound : stage'.Sound host files (s.setFile (.temp (host.key request) suffix) content) request)
    (hsettled : stage.Settled host s request →
      stage'.Settled host (s.setFile (.temp (host.key request) suffix) content) request) :
    Move host files s ((s.setFile (.temp (host.key request) suffix) content).goto w
      (.inside request lock stage')) w (.inside request lock stage)
        (.inside request lock stage') := by
  refine .goto hw (s.setFile (.temp (host.key request) suffix) content).files ?_ ?_ hsuffix hsound
    hsettled
  · intro key suffix' hne content' h
    rwa [setFile_of_ne _ (temp_ne hstage hne)] at h
  · exact fun key => .inl (setFile_of_ne _ (by simp) _)

/-- **What a worker inside can do**, from a sound state. -/
theorem move_of_insideStep (h : s.Sound host files) (hw : s.workers w = .inside request lock stage)
    {event : InsideEvent} (hstep : insideStep host s w request lock stage event = some s') :
    ∃ new, Move host files s s' w (.inside request lock stage) new := by
  have hsound : stage.Sound host files s request := by
    have hsound := h.workers w
    rwa [hw] at hsound
  unfold insideStep at hstep
  split at hstep
  · next again =>
    split at hstep
    · next vmfb hfile =>
      split at hstep
      · next hlong =>
        cases hstep
        refine ⟨_, .goto hw s.files (fun _ _ _ _ h => h) (fun _ => .inl rfl)
          (fun _ h => by cases h) ?_ ?_⟩
        · exact ⟨hlong, h.published _ vmfb hfile⟩
        · exact fun _ => ⟨hfile, hlong⟩
      · next hshort =>
        cases hstep
        refine ⟨_, .goto hw s.files (fun _ _ _ _ h => h) (fun _ => .inl rfl)
          (fun _ h => by cases h) trivial ?_⟩
        intro _ content hcontent
        cases hfile.symm.trans hcontent
        exact not_le.mp hshort
    · next hfile =>
      cases hstep
      refine Move.missed hw s.files (.inl rfl) (fun _ _ => rfl) (fun _ => .inl rfl) ?_
      intro _ content hcontent
      cases hfile.symm.trans hcontent
  · next again ok =>
    cases hstep
    cases ok with
    | false => exact Move.missed hw s.files (.inr rfl) (fun _ _ => rfl) (fun _ => .inl rfl) id
    | true =>
        refine Move.missed hw (s.setFile (.vmfb (host.key request)) none).files (.inr rfl)
          (fun _ _ => setFile_of_ne _ (by simp) _) ?_ ?_
        · intro key
          by_cases hkey : key = host.key request
          · subst hkey
            exact .inr ⟨_, rfl, rfl, setFile_self ..⟩
          · exact .inl (setFile_of_ne _ (by simpa using hkey) _)
        · intro _ content hcontent
          rw [setFile_self] at hcontent
          cases hcontent
  · next vmfb =>
    dsimp only at hstep
    split at hstep
    · cases hstep
      exact ⟨_, .release hw s.files (List.subset_cons_self ..) (fun _ _ => rfl) fun _ => .inl rfl⟩
    · next hlong =>
      -- the one step that takes a new suffix
      cases hstep
      refine ⟨.inside request lock (.creating vmfb (uniqueCacheTempSuffix (host.processId w)
        (s.tempCounter (host.processId w)))), ?_⟩
      constructor
      case was => exact hw
      case opened => exact fun _ h => .inl h
      case lock => exact .keep _
      case suffix => exact .inr ⟨rfl, rfl⟩
      case outputs => exact List.subset_cons_self ..
      case temps => exact fun _ _ _ _ h => h
      case sound => exact ⟨List.mem_cons_self, not_lt.mp hlong⟩
      case settled => exact id
      all_goals first | rfl | exact .inl rfl | exact fun _ => .inl rfl
  · next vmfb suffix =>
    cases hstep
    refine ⟨_, .gotoTemp hw rfl (fun _ h => h) ⟨hsound, ?_⟩ fun hsettled => ?_⟩
    · intro content hcontent
      rw [setFile_self, Option.mem_some_iff] at hcontent
      exact hcontent.symm
    · exact hsettled
  · next vmfb suffix written count =>
    split at hstep
    · next hcount =>
      cases hstep
      refine ⟨_, .gotoTemp hw rfl (fun _ h => h) ⟨hsound.1, ?_⟩ fun hsettled => ?_⟩
      · intro content hcontent
        rw [setFile_self, Option.mem_map] at hcontent
        obtain ⟨_, -, rfl⟩ := hcontent
        rfl
      · exact hsettled
    · cases hstep
  · next vmfb suffix written =>
    split at hstep
    · next hall =>
      cases hstep
      refine ⟨_, .goto hw s.files (fun _ _ _ _ h => h) (fun _ => .inl rfl) (fun _ h => h)
        ⟨hsound.1, ?_⟩ id⟩
      intro content hcontent
      rw [hsound.2 content hcontent, hall, List.take_length]
    · cases hstep
  · next vmfb suffix =>
    split at hstep
    · next content hfile =>
      cases hstep
      obtain rfl := hsound.2 content hfile
      refine ⟨_, .goto hw ((s.setFile (.temp (host.key request) suffix) none).setFile
        (.vmfb (host.key request)) (some content)).files ?_ ?_ (fun _ h => by cases h) ?_
        fun _ => ⟨setFile_self .., hsound.1.2⟩⟩
      · intro key suffix' hne content' hcontent
        rwa [setFile_of_ne _ (by simp), setFile_of_ne _ (temp_ne rfl hne)] at hcontent
      · intro key
        by_cases hkey : key = host.key request
        · subst hkey
          exact .inr (.inr ⟨_, suffix, rfl, rfl, setFile_self ..⟩)
        · refine .inl ?_
          rw [setFile_of_ne _ (by simpa using hkey), setFile_of_ne _ (by simp)]
      · exact ⟨hsound.1.2, .inr ⟨request, hsound.1.1, rfl⟩⟩
    · cases hstep
  · next vmfb suffix =>
    cases hstep
    exact ⟨_, .goto hw s.files (fun _ _ _ _ h => h) (fun _ => .inl rfl) (fun _ h => h) trivial id⟩
  · next suffix ok =>
    cases hstep
    cases ok with
    | false =>
        exact ⟨_, .goto hw s.files (fun _ _ _ _ h => h) (fun _ => .inl rfl)
          (fun _ h => by cases h) trivial id⟩
    | true =>
        refine ⟨_, .gotoTemp hw rfl (fun _ h => by cases h) trivial fun hsettled => ?_⟩
        exact hsettled
  · next vmfb =>
    cases hstep
    refine ⟨.idle, ?_⟩
    constructor
    case was => exact hw
    case opened => exact fun _ h => by cases h
    case lock => exact .drop lock
    case suffix => exact .inl ⟨rfl, fun _ h => by cases h⟩
    case outputs => exact List.Subset.refl _
    case temps => exact fun _ _ _ _ h => h
    case answers => exact .inr ⟨_, _, vmfb, rfl, rfl⟩
    case sound => trivial
    case settled => exact fun _ => trivial
    all_goals first | rfl | exact fun _ => .inl rfl
  · cases hstep
    exact ⟨_, .release hw s.files (List.Subset.refl _) (fun _ _ => rfl) fun _ => .inl rfl⟩
  · cases hstep
    exact ⟨_, .release hw s.files (List.Subset.refl _) (fun _ _ => rfl) fun _ => .inl rfl⟩
  · cases hstep
    exact ⟨_, .release hw s.files (List.Subset.refl _) (fun _ _ => rfl) fun _ => .inl rfl⟩
  · cases hstep
    exact ⟨_, .release hw s.files (List.Subset.refl _) (fun _ _ => rfl) fun _ => .inl rfl⟩
  · cases hstep

/-- **What one step of the system does**, from a sound state: a worker moves, or a
process crashes, or a file is deleted. -/
theorem cacheStep_cases (h : s.Sound host files) {event : CacheEvent Worker Path Key}
    (hstep : cacheStep host s event = some s') :
    (∃ w old new, Move host files s s' w old new) ∨
      (∃ process, s' = crash host s process) ∨
      (∃ file, event = .deleted file ∧ s' = s.setFile file none) ∨
      event = .lockDeleted ∧ s' = { s with lockFile := s.lockFile + 1 } := by
  cases event with
  | crashed process =>
      cases hstep
      exact .inr (.inl ⟨process, rfl⟩)
  | deleted file =>
      cases hstep
      exact .inr (.inr (.inl ⟨file, rfl, rfl⟩))
  | lockDeleted =>
      cases hstep
      exact .inr (.inr (.inr ⟨rfl, rfl⟩))
  | called w call =>
      simp only [cacheStep] at hstep
      split at hstep
      · next hw =>
        cases hstep
        exact .inl ⟨w, _, _, .outside s.holder hw
          (fun lock h => .inr (Option.some.inj h).symm) (.keep none) (fun _ _ _ h => by cases h)⟩
      · cases hstep
  | acquired w =>
      simp only [cacheStep] at hstep
      split at hstep
      · next call lock hw =>
        split at hstep
        · next hfree =>
          cases hstep
          exact .inl ⟨w, _, _, .outside _ hw (fun _ h => .inl h) (.take hfree)
            (fun _ _ _ h => by cases h)⟩
        · cases hstep
      · cases hstep
  | loaded w compiler compilerVersion target =>
      simp only [cacheStep] at hstep
      split at hstep
      · next call lock hw =>
        cases hstep
        refine .inl ⟨w, _, _, .outside s.holder hw (fun _ h => .inl h)
          (.keep (some lock)) ?_⟩
        intro _ _ _ h
        cases h
        rfl
      · cases hstep
  | gaveUp w =>
      simp only [cacheStep] at hstep
      split at hstep
      · next call lock hw =>
        cases hstep
        refine .inl ⟨w, _, .idle, .outside s.holder hw ?_ (.keep none) ?_⟩
        · intro _ h
          cases h
        · intro _ _ _ h
          cases h
      · next call lock hw =>
        cases hstep
        refine .inl ⟨w, _, .idle, .outside (update s.holder lock none) hw ?_ (.drop lock) ?_⟩
        · intro _ h
          cases h
        · intro _ _ _ h
          cases h
      · cases hstep
  | inside w event =>
      simp only [cacheStep] at hstep
      split at hstep
      · next request lock stage hw =>
        obtain ⟨new, hmove⟩ := move_of_insideStep h hw hstep
        exact .inl ⟨w, _, _, hmove⟩
      · cases hstep

end Moves

/-! ## Locks -/

section Locks

variable {Worker Path Key : Type}

/-- Whoever is past the lock is registered as its holder, and no one else is: a crash
leaves no lock behind. -/
def CacheSystem.Locks (s : CacheSystem Worker Path Key) : Prop :=
  ∀ lock w, s.holder lock = some w ↔ (s.workers w).lock? = some lock

variable [DecidableEq Worker] {holder holder' : ℕ → Option Worker} {w : Worker}

theorem LockMove.locks (lock? : Worker → Option ℕ) {new : Option ℕ}
    (h : ∀ lock w, holder lock = some w ↔ lock? w = some lock)
    (hmove : LockMove holder w (lock? w) new holder') :
    ∀ lock w', holder' lock = some w' ↔ update lock? w new w' = some lock := by
  generalize hold : lock? w = old at hmove
  intro lock' w'
  cases hmove with
  | keep =>
      rw [← hold, Function.update_eq_self]
      exact h lock' w'
  | drop lock =>
      have hheld := (h lock w).mpr hold
      by_cases hw : w' = w
      · subst hw
        rw [Function.update_self]
        refine iff_of_false ?_ (by simp)
        intro heq
        by_cases hlock : lock' = lock
        · rw [hlock, Function.update_self] at heq
          cases heq
        · rw [Function.update_of_ne hlock, h, hold] at heq
          exact absurd (Option.some.inj heq).symm hlock
      · rw [Function.update_of_ne hw, ← h]
        by_cases hlock : lock' = lock
        · rw [hlock, Function.update_self, hheld]
          refine ⟨fun heq => ?_, fun heq => absurd (Option.some.inj heq).symm hw⟩
          cases heq
        · rw [Function.update_of_ne hlock]
  | @take lock hfree =>
      by_cases hw : w' = w
      · subst hw
        rw [Function.update_self]
        by_cases hlock : lock' = lock
        · rw [hlock, Function.update_self]
          exact iff_of_true rfl rfl
        · rw [Function.update_of_ne hlock, h, hold]
          refine ⟨fun heq => ?_, fun heq => absurd (Option.some.inj heq).symm hlock⟩
          cases heq
      · rw [Function.update_of_ne hw, ← h]
        by_cases hlock : lock' = lock
        · rw [hlock, Function.update_self, hfree]
          exact iff_of_false (fun heq => hw (Option.some.inj heq).symm) (by simp)
        · rw [Function.update_of_ne hlock]

end Locks

/-! ## Safety -/

section Safety

open CacheSystem

variable {Worker Path Key : Type}

/-- No two workers have the same temporary file. -/
def CacheSystem.Distinct (s : CacheSystem Worker Path Key) : Prop :=
  ∀ w w' suffix, (s.workers w).suffix? = some suffix → (s.workers w').suffix? = some suffix → w = w'

/-- Suffixes come from the counters, which have not wrapped. -/
structure CacheSystem.Counted (host : Host Worker Path Key) (n : ℕ)
    (s : CacheSystem Worker Path Key) : Prop where
  bound : ∀ process, s.tempCounter process ≤ n
  own : ∀ w suffix, (s.workers w).suffix? = some suffix →
    suffix.1 = host.processId w ∧ suffix.2 < s.tempCounter (host.processId w)
  distinct : s.Distinct

theorem sound_start (host : Host Worker Path Key) (files : CacheFile Key → Option Bytes) :
    (CacheSystem.start files : CacheSystem Worker Path Key).Sound host files where
  workers _ := trivial
  published _ _ h := .inl h
  answered _ h := absurd h List.not_mem_nil

theorem counted_start (host : Host Worker Path Key) (files : CacheFile Key → Option Bytes) :
    (CacheSystem.start files : CacheSystem Worker Path Key).Counted host 0 where
  bound _ := le_rfl
  own _ _ h := by cases h
  distinct _ _ _ h := by cases h

variable [DecidableEq Worker] {host : Host Worker Path Key}
  {files : CacheFile Key → Option Bytes} {s s' : CacheSystem Worker Path Key} {w : Worker}
  {old new : WorkerState Path}

/-- A move of a worker with its own temporary file. -/
theorem CacheSystem.Sound.move (h : s.Sound host files) (hdistinct : s.Distinct)
    (hmove : Move host files s s' w old new) : s'.Sound host files := by
  have hold : old.Sound host files s := hmove.was ▸ h.workers w
  constructor
  · intro w'
    rw [hmove.workers]
    by_cases hw : w' = w
    · subst hw
      rw [Function.update_self]
      exact hmove.sound
    · rw [Function.update_of_ne hw]
      refine (h.workers w').mono hmove.outputs fun key suffix hsuffix => hmove.temps key suffix ?_
      intro hown
      rw [← hmove.was] at hown
      exact hw (hdistinct w' w suffix hsuffix hown)
  · intro key vmfb hvmfb
    rcases hmove.artifacts key with hsame | ⟨_, _, _, _, _, hnone⟩ |
      ⟨request, lock, vmfb', suffix, rfl, rfl, hsome⟩
    · rw [hsame] at hvmfb
      exact (h.published key vmfb hvmfb).mono hmove.outputs
    · cases hnone.symm.trans hvmfb
    · -- published by a rename
      cases hsome.symm.trans hvmfb
      exact .inr ⟨request, hmove.outputs hold.1.1, rfl⟩
  · intro answer hanswer
    have hanswered : ∀ answer ∈ s.answers,
        16 ≤ answer.2.length ∧ Traced host files s'.outputs (host.key answer.1) answer.2 :=
      fun answer hanswer => (h.answered answer hanswer).imp_right (Traced.mono · hmove.outputs)
    rcases hmove.answers with hsame | ⟨request, lock, vmfb, rfl, hcons⟩
    · exact hanswered answer (hsame ▸ hanswer)
    · rcases List.mem_cons.mp (hcons ▸ hanswer) with rfl | hanswer
      · exact ⟨hold.1, hold.2.mono hmove.outputs⟩
      · exact hanswered answer hanswer

/-- A move takes at most one suffix, and a new one. -/
theorem CacheSystem.Counted.move {n : ℕ} (hn : n < 2 ^ 64) (h : s.Counted host n)
    (hmove : Move host files s s' w old new) : s'.Counted host (n + 1) := by
  rcases hmove.suffix with ⟨hcounter, hsuffix⟩ | ⟨hcounter, hsuffix⟩
  · have hbefore : ∀ w' suffix, (s'.workers w').suffix? = some suffix →
        (s.workers w').suffix? = some suffix := by
      intro w' suffix h'
      rw [hmove.workers] at h'
      by_cases hw : w' = w
      · subst hw
        rw [Function.update_self] at h'
        rw [hmove.was]
        exact hsuffix suffix h'
      · rwa [Function.update_of_ne hw] at h'
    constructor
    · intro process
      rw [hcounter]
      exact Nat.le_succ_of_le (h.bound process)
    · intro w' suffix h'
      rw [hcounter]
      exact h.own w' suffix (hbefore w' suffix h')
    · exact fun w w' suffix h₁ h₂ => h.distinct w w' suffix (hbefore _ _ h₁) (hbefore _ _ h₂)
  · have hself : (s'.workers w).suffix? =
        some (host.processId w, s.tempCounter (host.processId w)) := by
      rw [hmove.workers, Function.update_self, hsuffix, uniqueCacheTempSuffix,
        Nat.mod_eq_of_lt ((h.bound _).trans_lt hn)]
    have hother : ∀ w' ≠ w, (s'.workers w').suffix? = (s.workers w').suffix? := fun w' hw => by
      rw [hmove.workers, Function.update_of_ne hw]
    -- the new suffix is not below any counter
    have hnew : ∀ w' ≠ w, (s'.workers w').suffix? ≠
        some (host.processId w, s.tempCounter (host.processId w)) := by
      intro w' hw heq
      obtain ⟨hprocess, hlt⟩ := h.own w' _ ((hother w' hw).symm.trans heq)
      exact absurd hlt (by rw [← hprocess]; exact lt_irrefl _)
    have hgrows : ∀ process, s.tempCounter process ≤ s'.tempCounter process := by
      intro process
      rw [hcounter]
      by_cases hp : process = host.processId w
      · subst hp
        rw [Function.update_self]
        exact Nat.le_succ _
      · rw [Function.update_of_ne hp]
    constructor
    · intro process
      rw [hcounter]
      by_cases hp : process = host.processId w
      · subst hp
        rw [Function.update_self]
        exact Nat.succ_le_succ (h.bound _)
      · rw [Function.update_of_ne hp]
        exact Nat.le_succ_of_le (h.bound process)
    · intro w' suffix h'
      by_cases hw : w' = w
      · subst hw
        cases hself.symm.trans h'
        rw [hcounter, Function.update_self]
        exact ⟨rfl, Nat.lt_succ_self _⟩
      · obtain ⟨hprocess, hlt⟩ := h.own w' suffix ((hother w' hw).symm.trans h')
        exact ⟨hprocess, hlt.trans_le (hgrows _)⟩
    · intro w₁ w₂ suffix h₁ h₂
      by_cases hw₁ : w₁ = w <;> by_cases hw₂ : w₂ = w
      · rw [hw₁, hw₂]
      · subst hw₁
        exact absurd (h₂.trans (h₁.symm.trans hself)) (hnew w₂ hw₂)
      · subst hw₂
        exact absurd (h₁.trans (h₂.symm.trans hself)) (hnew w₁ hw₁)
      · exact h.distinct w₁ w₂ suffix ((hother w₁ hw₁).symm.trans h₁)
          ((hother w₂ hw₂).symm.trans h₂)

variable [DecidableEq Key] {event : CacheEvent Worker Path Key}

/-- **A step keeps answers and artifacts sound** if no two workers have the same
temporary file. -/
theorem CacheSystem.Sound.step (h : s.Sound host files) (hdistinct : s.Distinct)
    (hstep : cacheStep host s event = some s') : s'.Sound host files := by
  rcases cacheStep_cases h hstep with ⟨w, old, new, hmove⟩ | ⟨process, rfl⟩ | ⟨file, -, rfl⟩ | ⟨-, rfl⟩
  · exact h.move hdistinct hmove
  · refine ⟨fun w => ?_, h.published, h.answered⟩
    dsimp only [crash]
    split
    · trivial
    · exact (h.workers w).mono (List.Subset.refl _) fun _ _ _ _ h => h
  · have hfewer : ∀ other, ∀ content ∈ (s.setFile file none).files other,
        content ∈ s.files other := by
      intro other content hcontent
      by_cases heq : other = file
      · subst heq
        rw [setFile_self] at hcontent
        cases hcontent
      · rwa [setFile_of_ne _ heq] at hcontent
    refine ⟨fun w => ?_, fun key vmfb hvmfb => h.published key vmfb (hfewer _ _ hvmfb), h.answered⟩
    exact (h.workers w).mono (List.Subset.refl _) fun _ _ _ content hcontent =>
      hfewer _ content hcontent
  · refine ⟨fun w => ?_, h.published, h.answered⟩
    exact (h.workers w).mono (List.Subset.refl _) fun _ _ _ _ h => h

/-- A step takes at most one suffix. -/
theorem CacheSystem.Counted.step {n : ℕ} (hn : n < 2 ^ 64) (h : s.Counted host n)
    (hsound : s.Sound host files) (hstep : cacheStep host s event = some s') :
    s'.Counted host (n + 1) := by
  rcases cacheStep_cases hsound hstep with ⟨w, old, new, hmove⟩ | ⟨process, rfl⟩ | ⟨file, -, rfl⟩ |
    ⟨-, rfl⟩
  · exact h.move hn hmove
  · -- the counter starts again when no worker of the process is left
    have hbefore : ∀ w suffix, (if host.processId w = process then .idle
        else s.workers w).suffix? = some suffix →
          host.processId w ≠ process ∧ (s.workers w).suffix? = some suffix := by
      intro w suffix h'
      split at h'
      · cases h'
      · next hp => exact ⟨hp, h'⟩
    constructor
    · intro p
      dsimp only [crash]
      by_cases hp : p = process
      · subst hp
        rw [Function.update_self]
        exact Nat.zero_le _
      · rw [Function.update_of_ne hp]
        exact Nat.le_succ_of_le (h.bound p)
    · intro w suffix h'
      obtain ⟨hp, h'⟩ := hbefore w suffix h'
      dsimp only [crash]
      rw [Function.update_of_ne hp]
      exact h.own w suffix h'
    · intro w₁ w₂ suffix h₁ h₂
      exact h.distinct w₁ w₂ suffix (hbefore _ _ h₁).2 (hbefore _ _ h₂).2
  · exact ⟨fun process => Nat.le_succ_of_le (h.bound process), h.own, h.distinct⟩
  · exact ⟨fun process => Nat.le_succ_of_le (h.bound process), h.own, h.distinct⟩

/-- **Answers are complete.**  Whatever the order of the steps, the crashes and the
deletions, an answer has at least 16 bytes and is what the compiler returned for a
request with the same key, or what the directory held at the start. -/
theorem answers_compiled {events : List (CacheEvent Worker Path Key)}
    (hrun : runEvents (cacheStep host) events (.start files) = some s)
    (hlength : events.length ≤ 2 ^ 64) :
    ∀ answer ∈ s.answers, 16 ≤ answer.2.length ∧
      (files (.vmfb (host.key answer.1)) = some answer.2 ∨
        ∃ request, (request, answer.2) ∈ s.outputs ∧ host.key request = host.key answer.1) := by
  have hstep : ∀ n s (event : CacheEvent Worker Path Key) s', n < 2 ^ 64 → True →
      s.Sound host files ∧ s.Counted host n → cacheStep host s event = some s' →
      s'.Sound host files ∧ s'.Counted host (n + 1) := fun n s event s' hn _ h hstep =>
    ⟨h.1.step h.2.distinct hstep, h.2.step hn h.1 hstep⟩
  have hreached := runEvents_induction hstep (n := 0) (by rwa [Nat.zero_add]) (fun _ _ => trivial)
    ⟨sound_start host files, counted_start host files⟩ hrun
  exact hreached.1.answered

end Safety

/-! ### A race -/

/-- Two build scripts with the same graph. -/
def raceHost : Host Bool String Unit := ⟨Bool.toNat, id, fun _ => ()⟩

def raceCall : CompileCall := ⟨.llvmCpu, [], "module {}"⟩

def raceRequest : CompileRequest String :=
  raceCall.request "libIREECompiler.so" "3.11" ⟨none, none, none, none⟩

/-- From the lock to the first look at the artifact. -/
def raceEnters (w : Bool) : List (CacheEvent Bool String Unit) :=
  [.acquired w, .loaded w "libIREECompiler.so" "3.11" ⟨none, none, none, none⟩, .inside w .read]

/-- Both want the artifact; the first crashes while it writes, a second time it
publishes, and the other one finds what it published. -/
def race : List (CacheEvent Bool String Unit) :=
  [.called false raceCall, .called true raceCall] ++ raceEnters false ++
    [.inside false (.compiled (List.replicate 17 1)), .inside false .created,
      .inside false (.wrote 5), .crashed 0, .called false raceCall] ++ raceEnters false ++
    [.inside false (.compiled (List.replicate 17 2)), .inside false .created,
      .inside false (.wrote 8), .deleted (.temp () (1, 0)), .inside false (.wrote 9),
      .inside false .closed, .inside false .renamed, .inside false .returned] ++
    raceEnters true ++ [.inside true .returned]

theorem answers_race : (runEvents (cacheStep raceHost) race (.start fun _ => none)).map
    CacheSystem.answers =
      some [(raceRequest, List.replicate 17 2), (raceRequest, List.replicate 17 2)] := rfl

theorem answers_compiled_race : ∃ s, runEvents (cacheStep raceHost) race (.start fun _ => none) =
    some s ∧ s.answers = [(raceRequest, List.replicate 17 2), (raceRequest, List.replicate 17 2)] ∧
      ∀ answer ∈ s.answers, 16 ≤ answer.2.length ∧
        ((none : Option Bytes) = some answer.2 ∨ ∃ request, (request, answer.2) ∈ s.outputs ∧
          raceHost.key request = raceHost.key answer.1) := by
  obtain ⟨s, hrun, hanswers⟩ := Option.map_eq_some_iff.mp answers_race
  exact ⟨s, hrun, hanswers, answers_compiled hrun (by decide)⟩

/-! ## Agreement -/

section Agreement

open CacheSystem

variable {Worker Path Key : Type}

/-- Artifacts and the lock file stay. -/
def CacheEvent.Calm : CacheEvent Worker Path Key → Prop
  | .deleted (.vmfb _) | .lockDeleted => False
  | _ => True

instance CacheEvent.decidableCalm :
    (event : CacheEvent Worker Path Key) → Decidable event.Calm
  | .deleted (.vmfb _) | .lockDeleted => .isFalse not_false
  | .deleted (.temp ..) | .called .. | .acquired _ | .loaded .. | .gaveUp _ | .inside .. |
      .crashed _ => .isTrue trivial

/-- One lock file, and every answer is still the artifact of its key. -/
structure CacheSystem.Settled (host : Host Worker Path Key) (s : CacheSystem Worker Path Key) :
    Prop where
  lockFile : s.lockFile = 0
  opened : ∀ w lock, (s.workers w).opened? = some lock → lock = 0
  locks : s.Locks
  workers : ∀ w, (s.workers w).Settled host s
  answered : ∀ answer ∈ s.answers,
    s.files (.vmfb (host.key answer.1)) = some answer.2 ∧ 16 ≤ answer.2.length

theorem settled_start (host : Host Worker Path Key) (files : CacheFile Key → Option Bytes) :
    (CacheSystem.start files : CacheSystem Worker Path Key).Settled host where
  lockFile := rfl
  opened _ _ h := by cases h
  locks _ _ := iff_of_false (by simp [start]) (by simp [start, WorkerState.lock?])
  workers _ := trivial
  answered _ h := absurd h List.not_mem_nil

theorem WorkerState.opened?_of_lock? {state : WorkerState Path} {lock : ℕ}
    (h : state.lock? = some lock) : state.opened? = some lock := by
  cases state with
  | idle | locking => cases h
  | loading | inside => exact h

theorem WorkerState.lock?_of_suffix? {state : WorkerState Path} {suffix : ℕ × ℕ}
    (h : state.suffix? = some suffix) : ∃ lock, state.lock? = some lock := by
  cases state with
  | idle | locking | loading => cases h
  | inside request lock stage => exact ⟨lock, rfl⟩

variable {host : Host Worker Path Key} {files : CacheFile Key → Option Bytes}
  {s s' : CacheSystem Worker Path Key} {w : Worker} {old new : WorkerState Path}

theorem WorkerState.Settled.congr {state : WorkerState Path} (h : state.Settled host s)
    (hfiles : ∀ key, s'.files (.vmfb key) = s.files (.vmfb key)) : state.Settled host s' := by
  cases state with
  | idle | locking | loading => trivial
  | inside request lock stage =>
    cases stage with
    | reading again =>
      cases again with
      | false => trivial
      | true => exact fun vmfb hvmfb => h vmfb (hfiles _ ▸ hvmfb)
    | removing | compiling | creating | writing | publishing | cleaning =>
        exact fun vmfb hvmfb => h vmfb (hfiles _ ▸ hvmfb)
    | returning vmfb => exact ⟨(hfiles _).trans h.1, h.2⟩

/-- **Mutual exclusion.**  One worker at a time is past the lock. -/
theorem CacheSystem.Settled.exclusive (h : s.Settled host) {w w' : Worker} {lock lock' : ℕ}
    (hw : (s.workers w).lock? = some lock) (hw' : (s.workers w').lock? = some lock') : w = w' := by
  obtain rfl := h.opened w lock (WorkerState.opened?_of_lock? hw)
  obtain rfl := h.opened w' lock' (WorkerState.opened?_of_lock? hw')
  exact Option.some.inj (((h.locks 0 w).mpr hw).symm.trans ((h.locks 0 w').mpr hw'))

theorem CacheSystem.Settled.distinct (h : s.Settled host) : s.Distinct := by
  intro w w' suffix hw hw'
  obtain ⟨_, hlock⟩ := WorkerState.lock?_of_suffix? hw
  obtain ⟨_, hlock'⟩ := WorkerState.lock?_of_suffix? hw'
  exact h.exclusive hlock hlock'

variable [DecidableEq Worker]

/-- Artifacts change under the lock. -/
theorem Move.artifact_eq (hmove : Move host files s s' w old new) (hold : old.lock? = none)
    (key : Key) : s'.files (.vmfb key) = s.files (.vmfb key) := by
  rcases hmove.artifacts key with hsame | ⟨_, _, _, rfl, -⟩ | ⟨_, _, _, _, rfl, -⟩
  · exact hsame
  · cases hold
  · cases hold

/-- An artifact that was returned is not replaced. -/
theorem Move.artifact_eq_of_long (hmove : Move host files s s' w old new)
    (hold : old.Settled host s) {key : Key} {vmfb : Bytes}
    (hvmfb : s.files (.vmfb key) = some vmfb) (hlong : 16 ≤ vmfb.length) :
    s'.files (.vmfb key) = some vmfb := by
  rcases hmove.artifacts key with hsame | ⟨_, _, _, rfl, rfl, -⟩ | ⟨_, _, _, _, rfl, rfl, -⟩
  · exact hsame.trans hvmfb
  · exact absurd hlong (not_le.mpr (hold vmfb hvmfb))
  · exact absurd hlong (not_le.mpr (hold vmfb hvmfb))

theorem CacheSystem.Settled.move (h : s.Settled host) (hmove : Move host files s s' w old new) :
    s'.Settled host := by
  have hold : old.Settled host s := hmove.was ▸ h.workers w
  constructor
  · exact hmove.lockFile.trans h.lockFile
  · intro w' lock hopened
    rw [hmove.workers] at hopened
    by_cases hw : w' = w
    · subst hw
      rw [Function.update_self] at hopened
      rcases hmove.opened lock hopened with hbefore | rfl
      · exact h.opened w' lock (by rw [hmove.was, hbefore])
      · exact h.lockFile
    · rw [Function.update_of_ne hw] at hopened
      exact h.opened w' lock hopened
  · have hlock := hmove.lock
    rw [← hmove.was] at hlock
    intro lock w'
    rw [LockMove.locks (fun w => (s.workers w).lock?) h.locks hlock, hmove.workers]
    by_cases hw : w' = w
    · subst hw
      rw [Function.update_self, Function.update_self]
    · rw [Function.update_of_ne hw, Function.update_of_ne hw]
  · intro w'
    rw [hmove.workers]
    by_cases hw : w' = w
    · subst hw
      rw [Function.update_self]
      exact hmove.settled hold
    · rw [Function.update_of_ne hw]
      cases hlock' : (s.workers w').lock? with
      | none =>
          cases hstate : s.workers w' with
          | idle | locking => trivial
          | loading | inside =>
              rw [hstate] at hlock'
              cases hlock'
      | some lock' =>
          -- whoever moves is then outside
          refine (h.workers w').congr (hmove.artifact_eq ?_)
          rw [← hmove.was]
          by_contra hne
          obtain ⟨lock, hlock⟩ := Option.ne_none_iff_exists'.mp hne
          exact hw (h.exclusive hlock' hlock)
  · have hanswered : ∀ answer ∈ s.answers,
        s'.files (.vmfb (host.key answer.1)) = some answer.2 ∧ 16 ≤ answer.2.length := by
      intro answer hanswer
      obtain ⟨hfile, hlong⟩ := h.answered answer hanswer
      exact ⟨hmove.artifact_eq_of_long hold hfile hlong, hlong⟩
    intro answer hanswer
    rcases hmove.answers with hsame | ⟨request, lock, vmfb, rfl, hcons⟩
    · exact hanswered answer (hsame ▸ hanswer)
    · rcases List.mem_cons.mp (hcons ▸ hanswer) with rfl | hanswer
      · exact ⟨hmove.artifact_eq_of_long hold hold.1 hold.2, hold.2⟩
      · exact hanswered answer hanswer

variable [DecidableEq Key] {event : CacheEvent Worker Path Key}

/-- A calm step keeps the artifacts that were returned. -/
theorem CacheSystem.Settled.step (hcalm : event.Calm) (h : s.Settled host)
    (hsound : s.Sound host files) (hstep : cacheStep host s event = some s') :
    s'.Settled host := by
  rcases cacheStep_cases hsound hstep with ⟨w, old, new, hmove⟩ | ⟨process, rfl⟩ |
    ⟨file, rfl, rfl⟩ | ⟨rfl, -⟩
  · exact h.move hmove
  · constructor
    · exact h.lockFile
    · intro w lock hopened
      dsimp only [crash] at hopened
      split at hopened
      · cases hopened
      · exact h.opened w lock hopened
    · intro lock w
      dsimp only [crash]
      rw [Option.filter_eq_some_iff, h.locks]
      split
      · next hp => exact iff_of_false (fun hw => of_decide_eq_true hw.2 hp) (by simp [WorkerState.lock?])
      · next hp => exact and_iff_left (decide_eq_true hp)
    · intro w
      dsimp only [crash]
      split
      · trivial
      · exact (h.workers w).congr fun _ => rfl
    · exact h.answered
  · cases file with
    | vmfb key => exact hcalm.elim
    | temp key suffix =>
        have hsame : ∀ key', (s.setFile (.temp key suffix) none).files (.vmfb key') =
            s.files (.vmfb key') := fun key' => setFile_of_ne _ (by simp) _
        refine ⟨h.lockFile, h.opened, h.locks, fun w => (h.workers w).congr hsame, ?_⟩
        intro answer hanswer
        rw [hsame]
        exact h.answered answer hanswer
  · exact hcalm.elim

/-- **Answers agree.**  While artifacts and the lock file stay, two requests with one
key get the same bytes, whatever the compiler returns the second time, and crashes
included; who compiles has a key that nobody was answered before, and one worker at a
time is past the lock. -/
theorem answers_agree {events : List (CacheEvent Worker Path Key)}
    (hrun : runEvents (cacheStep host) events (.start files) = some s)
    (hcalm : ∀ event ∈ events, event.Calm) :
    (∀ answer ∈ s.answers, ∀ answer' ∈ s.answers,
      host.key answer.1 = host.key answer'.1 → answer.2 = answer'.2) ∧
    (∀ w request lock, s.workers w = .inside request lock .compiling →
      ∀ answer ∈ s.answers, host.key answer.1 ≠ host.key request) ∧
    ∀ w w', (s.workers w).lock?.isSome → (s.workers w').lock?.isSome → w = w' := by
  have hstep : ∀ s (event : CacheEvent Worker Path Key) s', event.Calm →
      s.Sound host files ∧ s.Settled host → cacheStep host s event = some s' →
      s'.Sound host files ∧ s'.Settled host := fun s event s' hcalm h hstep =>
    ⟨h.1.step h.2.distinct hstep, h.2.step hcalm h.1 hstep⟩
  obtain ⟨-, hsettled⟩ := runEvents_invariant hstep hcalm
    ⟨sound_start host files, settled_start host files⟩ hrun
  refine ⟨?_, ?_, ?_⟩
  · intro answer hanswer answer' hanswer' hkey
    have hfile := (hsettled.answered answer hanswer).1
    rw [hkey, (hsettled.answered answer' hanswer').1] at hfile
    exact (Option.some.inj hfile).symm
  · intro w request lock hw answer hanswer hkey
    obtain ⟨hfile, hlong⟩ := hsettled.answered answer hanswer
    have hshort : (WorkerState.inside request lock .compiling).Settled host s :=
      hw ▸ hsettled.workers w
    rw [hkey] at hfile
    exact absurd hlong (not_le.mpr (hshort _ hfile))
  · intro w w' hw hw'
    obtain ⟨lock, hw⟩ := Option.isSome_iff_exists.mp hw
    obtain ⟨lock', hw'⟩ := Option.isSome_iff_exists.mp hw'
    exact hsettled.exclusive hw hw'

end Agreement

theorem answers_agree_race : ∃ s, runEvents (cacheStep raceHost) race (.start fun _ => none) =
    some s ∧ s.answers = [(raceRequest, List.replicate 17 2), (raceRequest, List.replicate 17 2)] ∧
      (∀ answer ∈ s.answers, ∀ answer' ∈ s.answers,
        raceHost.key answer.1 = raceHost.key answer'.1 → answer.2 = answer'.2) ∧
      (∀ w request lock, s.workers w = .inside request lock .compiling →
        ∀ answer ∈ s.answers, raceHost.key answer.1 ≠ raceHost.key request) ∧
      ∀ w w', (s.workers w).lock?.isSome → (s.workers w').lock?.isSome → w = w' := by
  obtain ⟨s, hrun, hanswers⟩ := Option.map_eq_some_iff.mp answers_race
  exact ⟨s, hrun, hanswers, answers_agree hrun (by decide)⟩

end Knok
