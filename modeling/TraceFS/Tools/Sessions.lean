import Mathlib.Logic.Function.Basic
import TraceFS.Lib.Layers
import TraceFS.Tools.MemDump

/-!
`main` of `mem_loader` and of `mem_dump`, and sessions of the two on the core's
memories.

Between two runs anything else may change the files of the host, and the core, once
it is out of reset, its memories.
-/
namespace TraceFS.Sessions
open ByteMemory (Byte)
open MemLoader (Window windowSize Outcome Message image padding)

inductive Memory
  | itcm | bram
  deriving DecidableEq, Repr

abbrev Board := Memory → Window

abbrev Files := String → Option (List Byte)

/-- What `mem_loader` prints; a line about a window comes with the path of the file. -/
inductive Note
  | usage
  | openMemFailed
  | window (m : Memory) (path : String) (message : Message)
  deriving DecidableEq, Repr

/-- What the system answers to the `open` of `main` and during either load. -/
structure LoaderEnv where
  openMem : Bool
  load : Memory → MemLoader.Env

def LoaderEnv.ok : LoaderEnv := { openMem := true, load := fun _ => .ok }

structure Exit where
  status : Int
  notes : List Note
  board : Board

/-- A file that is not there cannot be opened. -/
def loadPath (env : MemLoader.Env) (files : Files) (path : String) (map : Window) : Outcome :=
  match files path with
  | some file => MemLoader.loadFileToWindow env file map
  | none => MemLoader.loadFileToWindow { env with fopenMagic := false, fopen := false } [] map

def loadInto (env : LoaderEnv) (files : Files) (m : Memory) (path : String) (b : Board) : Exit :=
  let out := loadPath (env.load m) files path (b m)
  { status := out.status
    notes := out.messages.map (.window m path)
    board := Function.update b m out.window }

/-- `main` of `mem_loader`, with `argc` the length of `argv`. -/
def loaderMain (env : LoaderEnv) (files : Files) (argv : List String) (b : Board) : Exit :=
  if argv.length ≠ 2 ∧ argv.length ≠ 3 then ⟨1, [.usage], b⟩
  else if !env.openMem then ⟨1, [.openMemFailed], b⟩
  else
    let itcm := loadInto env files .itcm (argv.getD 1 "") b
    if itcm.status ≠ 0 then ⟨1, itcm.notes, itcm.board⟩
    else if argv.length = 3 then
      let bram := loadInto env files .bram (argv.getD 2 "") itcm.board
      if bram.status ≠ 0 then ⟨1, itcm.notes ++ bram.notes, bram.board⟩
      else ⟨0, itcm.notes ++ bram.notes, bram.board⟩
    else ⟨0, itcm.notes, itcm.board⟩

def dumpPath : String := "itcm-dump.bin"

/-- `main` of `mem_dump`, which does not look at the result of `read_dev_mem`. -/
def dumpMain (env : MemDump.Env) (files : Files) (b : Board) : Int × Files :=
  match MemDump.readDevMem env (b .itcm) 0x8000 false with
  | some (_, some binFile) => (0, Function.update files dumpPath (some binFile))
  | some (_, none) => (0, files)
  -- the assertion aborts behind the `fopen` that empties the file
  | none => (134, Function.update files dumpPath (some []))

structure World where
  board : Board
  files : Files

inductive Act
  | loader (env : LoaderEnv) (argv : List String)
  | dump (env : MemDump.Env)
  | host (path : String) (file : Option (List Byte))
  | core (board : Board)

def World.act (w : World) : Act → World × List Note
  | .loader env argv =>
      let exit := loaderMain env w.files argv w.board
      ({ w with board := exit.board }, exit.notes)
  | .dump env => ({ w with files := (dumpMain env w.files w.board).2 }, [])
  | .host path file => ({ w with files := Function.update w.files path file }, [])
  | .core board => ({ w with board := board }, [])

def session (w : World) (acts : List Act) : World := acts.foldl (fun w a => (w.act a).1) w

/-! What the lines of a session say. -/

/-- The file that the line says is now in the memory. -/
def Note.file (files : Files) (m : Memory) : Note → Option (List Byte)
  | .window m' path (.loaded _) => if m' = m then files path else none
  | _ => none

def loadedBy (files : Files) (m : Memory) (notes : List Note) : List (List Byte) :=
  notes.filterMap (Note.file files m)

/-- The files that the lines of a session say were put into the memory, in order. -/
def loaded (m : Memory) (w : World) : List Act → List (List Byte)
  | [] => []
  | a :: acts => loadedBy w.files m (w.act a).2 ++ loaded m (w.act a).1 acts

/-- A load puts the file and its padding over the front of the memory. -/
def layer (file : List Byte) : List Byte := file ++ padding file

/-! A load either fails and says so, or its last line tells of the file. -/

def tellsLoad : Message → Bool
  | .loaded _ => true
  | _ => false

def Outcome.Told (out : Outcome) (fileSize : Nat) (map : Window) : Prop :=
  out.Failed map ∧ out.messages.filter tellsLoad = [] ∨
    out.status = 0 ∧ out.messages.filter tellsLoad = [.loaded fileSize]

theorem told_loadSized (env : MemLoader.Env) (file : List Byte) (fileSize : Nat) (map : Window) :
    Outcome.Told (MemLoader.loadSized env file fileSize map) fileSize map := by
  unfold MemLoader.loadSized
  split
  case isTrue => exact .inl ⟨⟨rfl, rfl⟩, rfl⟩
  case isFalse =>
    split
    case isTrue => exact .inl ⟨⟨rfl, rfl⟩, rfl⟩
    case isFalse =>
      split
      case isTrue => exact .inl ⟨⟨rfl, rfl⟩, rfl⟩
      case isFalse =>
        split
        case isTrue => exact .inl ⟨⟨rfl, rfl⟩, rfl⟩
        case isFalse =>
          dsimp only
          split
          case isTrue => exact .inl ⟨⟨rfl, rfl⟩, rfl⟩
          case isFalse =>
            refine .inr ⟨rfl, ?_⟩
            split
            · rfl
            · rfl

theorem told_load (env : MemLoader.Env) (file : List Byte) (map : Window) :
    Outcome.Told (MemLoader.loadFileToWindow env file map) file.length map := by
  unfold MemLoader.loadFileToWindow
  split
  case isTrue => exact .inl ⟨⟨rfl, rfl⟩, rfl⟩
  case isFalse =>
    split
    case isTrue => exact .inl ⟨⟨rfl, rfl⟩, rfl⟩
    case isFalse =>
      split
      case isTrue => exact .inl ⟨⟨rfl, rfl⟩, rfl⟩
      case isFalse =>
        split
        case isTrue => exact .inl ⟨⟨rfl, rfl⟩, rfl⟩
        case isFalse =>
          cases env.ftell with
          | false => exact .inl ⟨⟨rfl, rfl⟩, rfl⟩
          | true =>
              have hlen : ¬ (file.length : Int) < 0 := by omega
              dsimp only
              rw [if_pos rfl, if_neg hlen, Int.toNat_natCast]
              exact told_loadSized env file file.length map

/-- A file that is not there fails before the window is reached. -/
theorem load_absent (env : MemLoader.Env) (map : Window) :
    (MemLoader.loadFileToWindow { env with fopenMagic := false, fopen := false } [] map).Failed
      map := by
  cases env.mmap <;> exact ⟨rfl, rfl⟩

theorem loadedBy_append (files : Files) (m : Memory) (xs ys : List Note) :
    loadedBy files m (xs ++ ys) = loadedBy files m xs ++ loadedBy files m ys :=
  List.filterMap_append

theorem loadedBy_window (files : Files) (m m' : Memory) (path : String) (messages : List Message) :
    loadedBy files m (messages.map (.window m' path)) =
      if m' = m then (messages.filter tellsLoad).filterMap fun _ => files path else [] := by
  induction messages with
  | nil => simp [loadedBy]
  | cons message messages ih =>
      rw [loadedBy] at ih ⊢
      cases message with
      | loaded n =>
          rw [List.filter_cons_of_pos rfl, List.filterMap_cons, List.map_cons, List.filterMap_cons,
            ih]
          by_cases h : m' = m
          · simp only [Note.file, if_pos h]
          · simp only [Note.file, if_neg h]
      | _ => exact ih

theorem loadPath_cases (env : MemLoader.Env) (files : Files) (path : String) (map : Window) :
    let out := loadPath env files path map
    out.Failed map ∧ out.messages.filter tellsLoad = [] ∨
      ∃ file, files path = some file ∧ out.status = 0 ∧ out.window.bytes = image file map ∧
        out.messages.filter tellsLoad = [.loaded file.length] := by
  rw [loadPath]
  cases hfile : files path with
  | none =>
      have failed := load_absent env map
      cases told_load { env with fopenMagic := false, fopen := false } [] map with
      | inl told => exact .inl told
      | inr told =>
          rw [failed.1] at told
          cases told.1
  | some file =>
      cases told_load env file map with
      | inl told => exact .inl told
      | inr told =>
          exact .inr ⟨file, rfl, told.1, (MemLoader.image_of_load told.1).2.2, told.2⟩

/-- The file at the path is in the memory, and the other memory is as it was. -/
def LoadedInto (files : Files) (m : Memory) (path : String) (b b' : Board) : Prop :=
  ∃ file, files path = some file ∧ (b' m).bytes = image file (b m) ∧ ∀ m', m' ≠ m → b' m' = b m'

/-- The lines about a board say what is in its memories. -/
def Tells (files : Files) (notes : List Note) (b b' : Board) : Prop :=
  ∀ m, (b' m).bytes = ((loadedBy files m notes).map layer).foldl Layers.put (b m).bytes

theorem Tells.trans {files : Files} {xs ys : List Note} {b b' b'' : Board}
    (first : Tells files xs b b') (second : Tells files ys b' b'') :
    Tells files (xs ++ ys) b b'' := by
  intro m
  rw [second m, first m, loadedBy_append, List.map_append, List.foldl_append]

theorem tells_nil {files : Files} {notes : List Note} {b : Board}
    (h : ∀ m, loadedBy files m notes = []) : Tells files notes b b := by
  intro m
  rw [h m]
  rfl

theorem loadInto_cases (env : LoaderEnv) (files : Files) (m : Memory) (path : String) (b : Board) :
    let e := loadInto env files m path b
    Tells files e.notes b e.board ∧
      (e.status = 1 ∧ e.board = b ∨ e.status = 0 ∧ LoadedInto files m path b e.board) := by
  intro e
  have notes (m' : Memory) : loadedBy files m' e.notes =
      if m = m' then
        ((loadPath (env.load m) files path (b m)).messages.filter tellsLoad).filterMap
          fun _ => files path
      else [] := loadedBy_window files m' m path _
  cases loadPath_cases (env.load m) files path (b m) with
  | inl failed =>
      obtain ⟨failed, silent⟩ := failed
      have same : e.board = b := by
        change Function.update b m _ = b
        rw [failed.2, Function.update_eq_self]
      refine ⟨?_, .inl ⟨failed.1, same⟩⟩
      rw [same]
      apply tells_nil
      intro m'
      rw [notes m', silent]
      exact ite_self _
  | inr told =>
      obtain ⟨file, hfile, status, window, line⟩ := told
      have rest (m' : Memory) (h : m' ≠ m) : e.board m' = b m' := Function.update_of_ne h _ _
      have here : (e.board m).bytes = image file (b m) := by
        change (Function.update b m _ m).bytes = _
        rw [Function.update_self, window]
      refine ⟨?_, .inr ⟨status, file, hfile, here, rest⟩⟩
      intro m'
      rw [notes m', line, List.filterMap_cons, hfile, List.filterMap_nil]
      by_cases h : m = m'
      · rw [if_pos h, ← h, here]
        rfl
      · rw [if_neg h, rest m' (Ne.symm h)]
        rfl

/-- Everything the arguments name is loaded. -/
def AllLoaded (files : Files) (argv : List String) (b b' : Board) : Prop :=
  argv.length = 2 ∧ LoadedInto files .itcm (argv.getD 1 "") b b' ∨
    argv.length = 3 ∧ ∃ c, LoadedInto files .itcm (argv.getD 1 "") b c ∧
      LoadedInto files .bram (argv.getD 2 "") c b'

/-- Nothing is loaded, or of two files the first. -/
def PartLoaded (files : Files) (argv : List String) (b b' : Board) : Prop :=
  b' = b ∨ argv.length = 3 ∧ LoadedInto files .itcm (argv.getD 1 "") b b'

theorem loaderMain_cases (env : LoaderEnv) (files : Files) (argv : List String) (b : Board) :
    let e := loaderMain env files argv b
    Tells files e.notes b e.board ∧
      (e.status = 1 ∧ PartLoaded files argv b e.board ∨
        e.status = 0 ∧ AllLoaded files argv b e.board) := by
  unfold loaderMain
  split
  case isTrue => exact ⟨tells_nil fun _ => rfl, .inl ⟨rfl, .inl rfl⟩⟩
  case isFalse argc =>
    split
    case isTrue => exact ⟨tells_nil fun _ => rfl, .inl ⟨rfl, .inl rfl⟩⟩
    case isFalse =>
      have itcm := loadInto_cases env files .itcm (argv.getD 1 "") b
      generalize loadInto env files .itcm (argv.getD 1 "") b = itcmExit at itcm ⊢
      dsimp only at itcm ⊢
      obtain ⟨told, failed | done⟩ := itcm
      · rw [if_pos (by rw [failed.1]; decide)]
        exact ⟨told, .inl ⟨rfl, .inl failed.2⟩⟩
      · rw [if_neg (by rw [done.1]; decide)]
        split
        case isFalse two => exact ⟨told, .inr ⟨rfl, .inl ⟨by omega, done.2⟩⟩⟩
        case isTrue three =>
          have bram := loadInto_cases env files .bram (argv.getD 2 "") itcmExit.board
          generalize loadInto env files .bram (argv.getD 2 "") itcmExit.board = bramExit at bram ⊢
          dsimp only at bram ⊢
          obtain ⟨told', failed | done'⟩ := bram
          · rw [if_pos (by rw [failed.1]; decide)]
            refine ⟨told.trans told', .inl ⟨rfl, .inr ⟨three, ?_⟩⟩⟩
            rw [failed.2]
            exact done.2
          · rw [if_neg (by rw [done'.1]; decide)]
            exact ⟨told.trans told', .inr ⟨rfl, .inr ⟨three, _, done.2, done'.2⟩⟩⟩

/-! When every call of the system succeeds, the files alone decide. -/

def Present (files : Files) (path : String) : Prop :=
  ∃ file, files path = some file ∧ MemLoader.Loadable file

theorem loadInto_ok (files : Files) (m : Memory) (path : String) (b : Board) :
    (loadInto .ok files m path b).status = 0 ↔ Present files path := by
  change (loadPath .ok files path (b m)).status = 0 ↔ _
  unfold loadPath Present
  cases files path with
  | none =>
      refine ⟨fun h => ?_, fun ⟨_, h, _⟩ => by cases h⟩
      rw [(load_absent .ok (b m)).1] at h
      cases h
  | some file =>
      constructor
      · intro h
        exact ⟨file, rfl, MemLoader.loadable_of_load h⟩
      · rintro ⟨_, hfile, h⟩
        cases hfile
        exact (MemLoader.load_of_loadable h (b m)).1

theorem loaderMain_ok (files : Files) (argv : List String) (b : Board) :
    (loaderMain .ok files argv b).status = 0 ↔
      (argv.length = 2 ∨ argv.length = 3) ∧ ∀ path ∈ argv.tail, Present files path := by
  have opened : LoaderEnv.ok.openMem = true := rfl
  match argv with
  | [] | [_] | _ :: _ :: _ :: _ :: _ => simp [loaderMain]
  | [_, itcmFile] =>
      have itcm := loadInto_ok files .itcm itcmFile b
      by_cases h : (loadInto .ok files .itcm itcmFile b).status = 0
      · simp [loaderMain, opened, h, itcm.mp h]
      · simp [loaderMain, opened, h, mt itcm.mpr h]
  | [_, itcmFile, bramFile] =>
      have itcm := loadInto_ok files .itcm itcmFile b
      have bram := loadInto_ok files .bram bramFile (loadInto .ok files .itcm itcmFile b).board
      by_cases h : (loadInto .ok files .itcm itcmFile b).status = 0
      · by_cases h' : (loadInto .ok files .bram bramFile
            (loadInto .ok files .itcm itcmFile b).board).status = 0
        · simp [loaderMain, opened, h, h', itcm.mp h, bram.mp h']
        · simp [loaderMain, opened, h, h', mt bram.mpr h']
      · simp [loaderMain, opened, h, mt itcm.mpr h]

/-! Sessions -/

/-- The core is in reset, so that only the tools write its memories. -/
def Act.fromHost : Act → Bool
  | .core _ => false
  | _ => true

theorem tells_act (w : World) {a : Act} (held : a.fromHost = true) :
    Tells w.files (w.act a).2 w.board (w.act a).1.board := by
  cases a with
  | loader env argv => exact (loaderMain_cases env w.files argv w.board).1
  | dump env | host path file => exact tells_nil fun _ => rfl
  | core board => cases held

theorem session_eq_layers (m : Memory) {acts : List Act} (held : ∀ a ∈ acts, a.fromHost = true)
    (w : World) :
    ((session w acts).board m).bytes =
      ((loaded m w acts).map layer).foldl Layers.put (w.board m).bytes := by
  induction acts generalizing w with
  | nil => rfl
  | cons a acts ih =>
      have told := tells_act w (held a List.mem_cons_self) m
      rw [loaded, List.map_append, List.foldl_append, ← told]
      exact ih (fun a ha => held a (List.mem_cons_of_mem _ ha)) (w.act a).1

theorem getElem?_layer (file : List Byte) {k : Nat} (h : k < MemLoader.paddedSize file.length) :
    (layer file)[k]? = some (file.getD k 0) := by
  rw [MemLoader.paddedSize_eq] at h
  by_cases hk : k < file.length
  · rw [layer, List.getElem?_append_left hk, List.getD_eq_getElem _ _ hk,
      List.getElem?_eq_getElem hk]
  · rw [layer, List.getElem?_append_right (Nat.le_of_not_lt hk), padding,
      List.getElem?_replicate_of_lt (by omega), List.getD_eq_default _ _ (Nat.le_of_not_lt hk)]

/-- The exit status of `mem_loader` is that of the whole run: 0 when every memory named
holds its file, 1 when the BRAM and, unless only the second of two loads failed, the ITCM
are untouched. -/
theorem loader_exit (env : LoaderEnv) (files : Files) (argv : List String) (b : Board) :
    let e := loaderMain env files argv b
    (e.status = 0 ∧ AllLoaded files argv b e.board ∨
      e.status = 1 ∧ e.board .bram = b .bram ∧ PartLoaded files argv b e.board) ∧
    ((loaderMain .ok files argv b).status = 0 ↔
      (argv.length = 2 ∨ argv.length = 3) ∧ ∀ path ∈ argv.tail, Present files path) := by
  intro e
  refine ⟨?_, loaderMain_ok files argv b⟩
  obtain ⟨-, ⟨status, part⟩ | done⟩ := loaderMain_cases env files argv b
  · refine .inr ⟨status, ?_, part⟩
    obtain same | ⟨-, _, -, -, rest⟩ := part
    · exact congrFun same .bram
    · exact rest .bram (by decide)
  · exact .inl done

theorem covering_layers (loads : List (List Byte)) (k : Nat) :
    Layers.covering (loads.map layer) k =
      (loads.reverse.find? fun file => decide (k < MemLoader.paddedSize file.length)).map layer := by
  rw [Layers.covering, ← List.map_reverse, List.find?_map]
  have reach : ((fun layer : List Byte => decide (k < layer.length)) ∘ layer) =
      fun file => decide (k < MemLoader.paddedSize file.length) := by
    funext file
    rw [Function.comp_apply, layer, MemLoader.length_padded]
  rw [reach]

/-- With the core in reset, a byte of either memory is that of the last file that was
loaded and reaches so far, 0 in its padding, or the one from before the session. -/
theorem memory_of_session (w : World) {acts : List Act} (held : ∀ a ∈ acts, a.fromHost = true)
    (m : Memory) (k : Nat) :
    ((session w acts).board m).bytes.getD k 0 =
      match (loaded m w acts).reverse.find?
        fun file => decide (k < MemLoader.paddedSize file.length) with
      | some file => file.getD k 0
      | none => (w.board m).bytes.getD k 0 := by
  rw [session_eq_layers m held, List.getD_eq_getElem?_getD, Layers.getElem?_foldl_put,
    covering_layers]
  cases hfind : (loaded m w acts).reverse.find?
      fun file => decide (k < MemLoader.paddedSize file.length) with
  | none => rw [Option.map_none, Option.getD_none, List.getD_eq_getElem?_getD]
  | some file =>
      have reach := List.find?_some hfind
      rw [decide_eq_true_eq] at reach
      rw [Option.map_some, Option.getD_some, getElem?_layer file reach, Option.getD_some]

/-- A boot image of sixteen bytes and one of four to try. -/
def host : World where
  board := fun _ => MemDump.counting
  files := fun path =>
    if path = "boot-emsa5.bin" then some (List.replicate 16 0x13)
    else if path = "patch.bin" then some [1, 2, 3, 4]
    else none

def patched : List Act :=
  [.loader .ok ["mem_loader", "boot-emsa5.bin"], .loader .ok ["mem_loader", "patch.bin"]]

/-- The second file and its padding lie over the first. -/
theorem memory_of_session_patched :
    ((session host patched).board .itcm).bytes.getD 2 0 = 3 ∧
      ((session host patched).board .itcm).bytes.getD 5 0 = 0 ∧
      ((session host patched).board .itcm).bytes.getD 9 0 = 0x13 := by
  have held : ∀ a ∈ patched, a.fromHost = true := by simp [patched, Act.fromHost]
  have loads : loaded .itcm host patched = [List.replicate 16 0x13, [1, 2, 3, 4]] := by
    decide +kernel
  refine ⟨?_, ?_, ?_⟩
  · rw [memory_of_session host held .itcm 2, loads]
    rfl
  · rw [memory_of_session host held .itcm 5, loads]
    rfl
  · rw [memory_of_session host held .itcm 9, loads]
    rfl

/-! The dump as a copy to go back to. -/

def Act.keepsDump : Act → Bool
  | .dump _ => false
  | .host path _ => path != dumpPath
  | _ => true

theorem session_keepsDump {acts : List Act} (kept : ∀ a ∈ acts, a.keepsDump = true) (w : World) :
    (session w acts).files dumpPath = w.files dumpPath := by
  induction acts generalizing w with
  | nil => rfl
  | cons a acts ih =>
      have step : (w.act a).1.files dumpPath = w.files dumpPath := by
        have keeps := kept a List.mem_cons_self
        cases a with
        | loader env argv | core board => rfl
        | dump env => cases keeps
        | host path file => exact Function.update_of_ne (Ne.symm (bne_iff_ne.mp keeps)) _ _
      exact (ih (fun a ha => kept a (List.mem_cons_of_mem _ ha)) (w.act a).1).trans step

theorem dumped_file (w : World) :
    (w.act (.dump .ok)).1.files dumpPath = some (w.board .itcm).bytes := by
  have whole : (w.board .itcm).bytes.take (4 * ((0x8000 : BitVec 32).toNat / 4)) =
      (w.board .itcm).bytes :=
    List.take_of_length_le (Nat.le_of_eq (w.board .itcm).size)
  change (dumpMain .ok w.files w.board).2 dumpPath = _
  rw [dumpMain, MemDump.readDevMem_words _ (by decide), whole]
  exact Function.update_self dumpPath _ w.files

theorem window_ext {x y : Window} (h : x.bytes = y.bytes) : x = y := by
  cases x
  cases y
  cases h
  rfl

theorem loadable_window (map : Window) :
    MemLoader.Loadable map.bytes ↔ ¬ MemLoader.elfMagic <+: map.bytes := by
  rw [MemLoader.Loadable, map.size]
  exact and_iff_left ⟨by decide, Nat.le_refl _⟩

/-- A file of the size of the window replaces it. -/
theorem image_window (x y : Window) : image x.bytes y = x.bytes := by
  have nothing : padding x.bytes = [] := by
    rw [padding, x.size]
    rfl
  have same : y.bytes.length ≤ x.bytes.length := Nat.le_of_eq (y.size.trans x.size.symm)
  rw [image, nothing, List.append_nil, List.drop_of_length_le same, List.append_nil]

/-- Loading the dump brings the ITCM back to what it was when it was dumped, whatever has
been loaded or computed since, unless it began like an ELF file; then nothing happens.
The BRAM stays as it is. -/
theorem restore_of_dump (w : World) {acts : List Act} (kept : ∀ a ∈ acts, a.keepsDump = true)
    (program : String) :
    let later := session (w.act (.dump .ok)).1 acts
    let e := loaderMain .ok later.files [program, dumpPath] later.board
    (¬ MemLoader.elfMagic <+: (w.board .itcm).bytes →
      e.status = 0 ∧ e.board .itcm = w.board .itcm) ∧
    (MemLoader.elfMagic <+: (w.board .itcm).bytes →
      e.status = 1 ∧ e.board .itcm = later.board .itcm) ∧
    e.board .bram = later.board .bram := by
  intro later e
  have hfile : later.files dumpPath = some (w.board .itcm).bytes :=
    (session_keepsDump kept _).trans (dumped_file w)
  have hstatus : e.status = 0 ↔ ¬ MemLoader.elfMagic <+: (w.board .itcm).bytes := by
    rw [loaderMain_ok]
    simp [Present, hfile, loadable_window]
  obtain ⟨-, ⟨status, part⟩ | ⟨status, all⟩⟩ :=
    loaderMain_cases .ok later.files [program, dumpPath] later.board
  · have same : e.board = later.board := part.resolve_right fun h => absurd h.1 (by simp)
    have refused : ¬ e.status = 0 := by
      intro h
      rw [status] at h
      cases h
    exact ⟨fun h => absurd (hstatus.mpr h) refused, fun _ => ⟨status, congrFun same .itcm⟩,
      congrFun same .bram⟩
  · obtain ⟨file, found, bytes, rest⟩ := (all.resolve_right fun h => absurd h.1 (by simp)).2
    have hwhole : file = (w.board .itcm).bytes := Option.some.inj (found.symm.trans hfile)
    rw [hwhole, image_window] at bytes
    exact ⟨fun _ => ⟨status, window_ext bytes⟩, fun h => absurd h (hstatus.mp status),
      rest .bram (by decide)⟩

/-- The core scribbles over both memories and another image is tried. -/
def tried : List Act :=
  [.core fun _ => ⟨List.replicate windowSize 0xff, List.length_replicate⟩,
    .loader .ok ["mem_loader", "patch.bin"], .host "patch.bin" none]

theorem restore_of_dump_tried :
    let later := session (host.act (.dump .ok)).1 tried
    let e := loaderMain .ok later.files ["mem_loader", dumpPath] later.board
    e.status = 0 ∧ e.board .itcm = MemDump.counting := by
  have kept : ∀ a ∈ tried, a.keepsDump = true := by simp [tried, Act.keepsDump, dumpPath]
  have first : (host.board .itcm).bytes[0]? = some 0 := by
    rw [host, MemDump.counting, List.getElem?_map, List.getElem?_range (by decide)]
    rfl
  have plain : ¬ MemLoader.elfMagic <+: (host.board .itcm).bytes := by
    rintro ⟨rest, magic⟩
    rw [← magic, List.getElem?_append_left (by decide)] at first
    exact absurd first (by decide)
  exact (restore_of_dump host kept "mem_loader").1 plain

end TraceFS.Sessions
