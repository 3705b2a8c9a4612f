import Speakeasy.RegistryPaths
import Mathlib.Data.List.Basic
import Speakeasy.Glob

namespace Speakeasy

/-- `path.replace("/", "\\")`. -/
def replaceAltSep (path : PyStr) : PyStr := path.map fun c => if c = '/' then '\\' else c

def uncPrefix : PyStr := ['\\', '\\', '?', '\\', 'U', 'N', 'C', '\\']

/-- `path.find("\\", start)`. -/
def findSep (path : PyStr) (start : Nat) : Option Nat :=
  ((path.drop start).findIdx? (· = '\\')).map (· + start)

/-- `ntpath.splitroot`: the drive, the root and the rest. -/
def splitroot (path : PyStr) : PyStr × PyStr × PyStr :=
  let normp := replaceAltSep path
  match normp with
  | '\\' :: '\\' :: _ =>
    let start := if (normp.take 8).map Char.toUpper = uncPrefix then 8 else 2
    match findSep normp start with
    | none => (path, [], [])
    | some index =>
      match findSep normp (index + 1) with
      | none => (path, [], [])
      | some index2 => (path.take index2, (path.drop index2).take 1, path.drop (index2 + 1))
  | '\\' :: _ => ([], path.take 1, path.drop 1)
  | _ :: ':' :: '\\' :: _ => (path.take 2, (path.drop 2).take 1, path.drop 3)
  | _ :: ':' :: _ => (path.take 2, [], path.drop 2)
  | _ => ([], [], path)

/-- The loop of `ntpath.normpath`. `done` has the components that stay, the last one first. -/
def normComps (rooted : Bool) : List PyStr → List PyStr → List PyStr
  | done, [] => done.reverse
  | done, comp :: comps =>
    if comp = [] ∨ comp = ['.'] then normComps rooted done comps
    else if comp = ['.', '.'] then
      match done with
      | d :: ds =>
        if d = ['.', '.'] then normComps rooted (comp :: d :: ds) comps else normComps rooted ds comps
      | [] => if rooted then normComps rooted [] comps else normComps rooted [comp] comps
    else normComps rooted (comp :: done) comps

def normpath (path : PyStr) : PyStr :=
  let (drive, root, rest) := splitroot (replaceAltSep path)
  let comps := normComps (root ≠ []) [] (rest.splitOn '\\')
  if drive ++ root = [] ∧ comps = [] then ['.'] else drive ++ root ++ ['\\'].intercalate comps

/-- `ntpath.isabs` of Python 3.13: a UNC or device path, or one with a drive and a root. Before 3.13 one leading slash is
enough. -/
def isabs (path : PyStr) : Bool :=
  match replaceAltSep (path.take 3) with
  | '\\' :: '\\' :: _ => true
  | _ :: ':' :: '\\' :: _ => true
  | _ => false

def isSep (c : Char) : Bool := c = '\\' || c = '/'

/-- `ntpath.join` of two paths. -/
def joinPath (lc : LowerCase) (path p : PyStr) : PyStr :=
  let (drive, root, rest) := splitroot path
  let (pDrive, pRoot, pPath) := splitroot p
  let (drive, root, rest) : PyStr × PyStr × PyStr :=
    if pRoot ≠ [] then (if pDrive ≠ [] ∨ drive = [] then pDrive else drive, pRoot, pPath)
    else if pDrive ≠ [] ∧ lc.str pDrive ≠ lc.str drive then (pDrive, pRoot, pPath)
    else
      (if pDrive ≠ [] then pDrive else drive, root,
        (if rest ≠ [] ∧ ¬ (rest.getLast?.any isSep) then rest ++ ['\\'] else rest) ++ pPath)
  if rest ≠ [] ∧ root = [] ∧ drive ≠ [] ∧ ¬ (drive.getLast?.any fun c => isSep c || c = ':') then
    drive ++ '\\' :: rest
  else drive ++ root ++ rest

/-- `ntpath.splitext(path)[1].strip(".")`. -/
def pathExtension (path : PyStr) : PyStr :=
  let name := (path.reverse.takeWhile fun c => ¬ isSep c).reverse
  let ext := (name.reverse.takeWhile (· ≠ '.')).reverse
  let stem := name.take (name.length - ext.length - 1)
  if '.' ∈ name ∧ stem.any (· ≠ '.') then ext else []

def getPathKey (lc : LowerCase) (path : PyStr) : PyStr := lc.str (rstripSep (normpath path))

def nullDevicePrefixes : List PyStr := [['\\', '\\', '.', '\\'], ['\\', '?', '?', '\\']]

/-- `is_null_device`. -/
def isNullDevice (lc : LowerCase) (path : PyStr) : Bool :=
  let rest := match nullDevicePrefixes.find? fun x => decide (x <+: path) with
    | some x => path.drop x.length
    | none => path
  decide (lc.str rest = ['n', 'u', 'l'])

section

inductive FileMode
  | fullPath (emuPath : PyStr)
  | byExt (ext : PyStr)
  | default
deriving DecidableEq, Repr

/-- An entry of the file configuration, with its host file or its byte fill. -/
structure FileEntry where
  mode : FileMode
  path : Option PyStr
  byteFill : Option (UInt8 × Nat)
deriving DecidableEq, Repr

/-- A file object: two files are the same if they have the same `id`. -/
structure EmuFile where
  id : Nat
  path : PyStr
  data : List UInt8
deriving DecidableEq, Repr

/-- The configuration of the emulator, and the host files that it names. -/
structure FileEnv where
  lc : LowerCase
  currentDir : PyStr
  entries : List FileEntry
  modulePaths : List PyStr
  emulatedBinname : PyStr
  processPath : Option PyStr
  hostExists : PyStr → Bool
  hostData : PyStr → List UInt8

structure FileManager where
  files : List EmuFile
  deletedPaths : List PyStr
  nextId : Nat

inductive FileError
  | fileSystemEmu (path : PyStr)
deriving DecidableEq, Repr

namespace FileEnv

variable (env : FileEnv)

/-- `get_full_path`. -/
def getFullPath (path : PyStr) : PyStr :=
  if isabs path then path else normpath (joinPath env.lc env.currentDir path)

/-- The key of a path, as the deleted paths and the directories use it. -/
def key (path : PyStr) : PyStr := getPathKey env.lc (env.getFullPath path)

/-- `handle_file_data`. -/
def entryData (e : FileEntry) : List UInt8 :=
  if e.path.getD [] ≠ [] then env.hostData (e.path.getD [])
  else match e.byteFill with
    | some (byte, size) => List.replicate size byte
    | none => []

end FileEnv

namespace FileManager

variable (env : FileEnv) (s : FileManager)

/-- `is_image_alias`. -/
def isImageAlias (path : PyStr) : Bool :=
  match s.files with
  | [] => false
  | f :: _ => decide (env.emulatedBinname ≠ [] ∧
      env.lc.str path = env.lc.str (env.getFullPath env.emulatedBinname) ∧
        env.processPath.map env.lc.str = some (env.lc.str f.path))

def getFileFromPath (path : PyStr) : Option EmuFile :=
  let path := env.getFullPath path
  match s.files.find? fun f => decide (env.lc.str f.path = env.lc.str path) with
  | some f => some f
  | none => if s.isImageAlias env path then s.files.head? else none

def appendFile (path : PyStr) (data : List UInt8) : EmuFile × FileManager :=
  let f : EmuFile := ⟨s.nextId, path, data⟩
  (f, { s with files := s.files ++ [f], nextId := s.nextId + 1 })

def dropFile (path : PyStr) : Option EmuFile × FileManager :=
  match s.getFileFromPath env path with
  | some f => (some f, { s with files := s.files.erase f })
  | none => (none, s)

/-- `create_file`, with the data that the caller adds. -/
def createFile (path : PyStr) (data : List UInt8) : EmuFile × FileManager :=
  let s := (s.dropFile env path).2
  let s := { s with deletedPaths := s.deletedPaths.filter (· ≠ env.key path) }
  s.appendFile path data

def removeFile (path : PyStr) : Option EmuFile × FileManager :=
  let s := { s with deletedPaths := env.key path :: s.deletedPaths }
  s.dropFile env path

/-- `get_emu_file`: a full path entry, then a configured module, then an extension, then the default. -/
def getEmuFile (path : PyStr) : Option FileEntry :=
  let path := env.getFullPath path
  if getPathKey env.lc path ∈ s.deletedPaths then none
  else
    match env.entries.find? fun e => match e.mode with
      | .fullPath emuPath => fnmatch (env.lc.str path) (env.lc.str emuPath)
      | _ => false with
    | some e => some e
    | none =>
      if path ∈ env.modulePaths then some ⟨.fullPath path, none, none⟩
      else
        let ext := pathExtension path
        match env.entries.find? fun e => decide (ext ≠ [] ∧ e.mode = .byExt (env.lc.str ext)) with
        | some e => some e
        | none => env.entries.find? fun e => decide (e.mode = .default)

def doesFileExist (path : PyStr) : Bool :=
  isNullDevice env.lc path || (s.getFileFromPath env path).isSome || (s.getEmuFile env path).isSome

def deleteFile (path : PyStr) : Bool × FileManager :=
  (s.doesFileExist env path, (s.removeFile env path).2)

/-- `get_file_by_path`: the file of a configuration entry is added. -/
def getFileByPath (path : PyStr) : Except FileError (Option EmuFile × FileManager) :=
  let path := env.getFullPath path
  match s.getFileFromPath env path with
  | some f => .ok (some f, s)
  | none =>
    match s.getEmuFile env path with
    | none => .ok (none, s)
    | some e =>
      let realPath := e.path.getD []
      if realPath ≠ [] ∧ ¬ env.hostExists realPath then .error (.fileSystemEmu realPath)
      else
        let (f, s) := s.appendFile path (env.entryData e)
        .ok (some f, s)

def copyFile (src dst : PyStr) : Except FileError (Option EmuFile × FileManager) :=
  match s.getFileByPath env src with
  | .error e => .error e
  | .ok (none, s) => .ok (none, s)
  | .ok (some sf, s) =>
    let (df, s) := s.createFile env (env.getFullPath dst) sf.data
    .ok (some df, s)

def moveFile (src dst : PyStr) : Except FileError (Option EmuFile × FileManager) :=
  match s.copyFile env src dst with
  | .error e => .error e
  | .ok (none, s) => .ok (none, s)
  | .ok (some df, s) => .ok (some df, (s.removeFile env src).2)

/-- The object that the new handle of `file_open` refers to. A duplicate shares the data of its
origin. -/
inductive OpenedFile
  | nullDevice
  | file (f : EmuFile)
  | duplicate (origin : EmuFile)
deriving DecidableEq, Repr

def fileOpen (path : PyStr) (create : Bool) : Except FileError (Option OpenedFile × FileManager) :=
  if isNullDevice env.lc path then .ok (some .nullDevice, s)
  else if create then
    let (f, s) := s.createFile env (env.getFullPath path) []
    .ok (some (.file f), s)
  else
    match s.getFileFromPath env path with
    | some f => .ok (some (.duplicate f), s)
    | none =>
      match s.getFileByPath env path with
      | .error e => .error e
      | .ok (f, s) => .ok (f.map .file, s)

end FileManager

inductive FileOp
  | createFile (path : PyStr)
  | fileOpen (path : PyStr) (create : Bool)
  | copyFile (src dst : PyStr)
  | moveFile (src dst : PyStr)
  | removeFile (path : PyStr)
  | deleteFile (path : PyStr)
  | getFileByPath (path : PyStr)
deriving DecidableEq, Repr

def FileOp.paths : FileOp → List PyStr
  | .createFile path => [path]
  | .fileOpen path _ => [path]
  | .copyFile src dst => [src, dst]
  | .moveFile src dst => [src, dst]
  | .removeFile path => [path]
  | .deleteFile path => [path]
  | .getFileByPath path => [path]

/-- A file that was created at the key of a path, or that the path was deleted. -/
structure FileChange where
  key : PyStr
  created : Option Nat
deriving DecidableEq, Repr

namespace FileManager

/-- A call, with what it created and deleted, the last change first. A call that raises does neither. -/
def step (env : FileEnv) (s : FileManager) : FileOp → FileManager × List FileChange
  | .createFile path =>
    let (f, s) := s.createFile env path []
    (s, [⟨env.key path, some f.id⟩])
  | .fileOpen path create =>
    match s.fileOpen env path create with
    | .ok (some (.file f), s') => (s', if create then [⟨env.key path, some f.id⟩] else [])
    | .ok (_, s') => (s', [])
    | .error _ => (s, [])
  | .copyFile src dst =>
    match s.copyFile env src dst with
    | .ok (some f, s') => (s', [⟨env.key dst, some f.id⟩])
    | .ok (none, s') => (s', [])
    | .error _ => (s, [])
  | .moveFile src dst =>
    match s.moveFile env src dst with
    | .ok (some f, s') => (s', [⟨env.key src, none⟩, ⟨env.key dst, some f.id⟩])
    | .ok (none, s') => (s', [])
    | .error _ => (s, [])
  | .removeFile path => ((s.removeFile env path).2, [⟨env.key path, none⟩])
  | .deleteFile path => ((s.deleteFile env path).2, [⟨env.key path, none⟩])
  | .getFileByPath path =>
    match s.getFileByPath env path with
    | .ok (_, s') => (s', [])
    | .error _ => (s, [])

/-- A new file manager, with the sample as its first file when it is a program. -/
def initial (image : Option EmuFile) : FileManager where
  files := image.toList
  deletedPaths := []
  nextId := image.toList.length

end FileManager

/-- The last change of the paths with a key. -/
def lastChange (changes : List FileChange) (key : PyStr) : Option (Option Nat) :=
  (changes.find? fun c => decide (c.key = key)).map FileChange.created

/-- The files respect the equality of the paths. -/
structure FilesRespectKeys (env : FileEnv) (paths : PyStr → Prop) (s : FileManager)
    (changes : List FileChange) : Prop where
  created : ∀ q, paths q → ∀ id, lastChange changes (env.key q) = some (some id) →
    s.doesFileExist env q = true ∧ ∃ f, s.getFileFromPath env q = some f ∧ f.id = id
  deleted : ∀ q, paths q → lastChange changes (env.key q) = some none →
    s.doesFileExist env q = false
  unique : ∀ p, paths p →
    (s.files.filter fun f => decide (env.key f.path = env.key p)).length ≤ 1

end

end Speakeasy
