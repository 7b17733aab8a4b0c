import FileTransfer.Server.Types

/-! # `server_file_api.c` -/

namespace FileTransfer

open Foundation Posix

def dbDir : Bytes := ascii ".cape"
def dbName : Bytes := ascii ".cape/.cape.db"
def dbHash : Bytes := ascii ".cape/.cape.hash"

def slashPlusNull : Nat := 2

/-! ## Joining and resolving -/

/-- `p_root[root_length]` is the terminator when the length is that of the
string, so the slash it is tested for is one that follows a shorter length. The
decrement is one of an unsigned size. -/
def joinPaths (root : Bytes) (rootLength : Nat) (child : Bytes) (childLength : Nat) :
    Except Fault Bytes :=
  let omitRoot := root[rootLength]? = some slash
  let omitChild := child.head? = some slash
  let newPath :=
    root.take (if omitRoot then (rootLength + (2 ^ 64 - 1)) % 2 ^ 64 else rootLength)
      ++ (if omitChild then [] else [slash]) ++ child.take childLength
  if pathMax ≤ newPath.length then .error .bufferOverflow else .ok newPath

def joinAndResolvePaths (tree : FileTree) (root : Bytes) (rootLength : Nat)
    (child : Bytes) (childLength : Nat) : Except Fault (Option Bytes) := do
  let newPath ← joinPaths root rootLength child childLength
  return tree.realpath newPath

def fSetHomeDir (tree : FileTree) (homeDir : Bytes) (dirSize : Nat) :
    Except Fault (Option VerifiedPath) := do
  return (← joinAndResolvePaths tree homeDir dirSize [] 0).map VerifiedPath.mk

def withinHome (homeDir path : Bytes) : Bool := homeDir.isPrefixOf path

def fPathResolve (tree : FileTree) (homeDir : Bytes) (child : CString) :
    Except Fault (Option VerifiedPath) :=
  if homeDir.length + child.length + slashPlusNull > pathMax then .ok none
  else do
    match ← joinAndResolvePaths tree homeDir homeDir.length child.bytes child.length with
    | none => return none
    | some joinPath =>
        if withinHome homeDir joinPath then return some ⟨joinPath⟩ else return none

def fValidResolve (tree : FileTree) (homeDir : Bytes) (child : CString) :
    Except Fault (Option VerifiedPath) := do
  let childDir := dirname child.bytes
  match ← joinAndResolvePaths tree homeDir homeDir.length childDir childDir.length with
  | none => return none
  | some joinPath =>
      let childBasename := basename child.bytes
      if childBasename = dot then return none
      else
        let finalPath ← joinPaths joinPath joinPath.length childBasename
          childBasename.length
        if withinHome homeDir finalPath then return some ⟨finalPath⟩ else return none

def fVerPathResolve (tree : FileTree) (homeDir : VerifiedPath) :
    Option CString → Except Fault (Option VerifiedPath)
  | none => .ok none
  | some child => fPathResolve tree homeDir.path child

def fVerValidResolve (tree : FileTree) (homeDir : VerifiedPath) :
    Option CString → Except Fault (Option VerifiedPath)
  | none => .ok none
  | some child => fValidResolve tree homeDir.path child

/-! ## Files -/

def fCreateDir (env : Env) (tree : FileTree) (path : VerifiedPath) :
    RetCode × FileTree :=
  match tree.mkdir env.mkdir path.path with
  | .ok tree => (.opSuccess, tree)
  | .error .exists => (.opDirExists, tree)
  | .error _ => (.opFailure, tree)

/-- The loop over `readdir` counts in eight bits and stops at the fourth entry. -/
def countFiles : (entries : List Dirent) → (fileCount : UInt8) → UInt8
  | [], fileCount => fileCount
  | _ :: entries, fileCount =>
      if fileCount < 4 then countFiles entries (fileCount + 1) else fileCount

/-- A directory that cannot be opened is handed to `readdir` all the same. -/
def fDelFile (env : Env) (tree : FileTree) (path : VerifiedPath) :
    Except Fault (RetCode × FileTree) :=
  match tree.stat env.dirSize path.path with
  | .error _ => .ok (.opFailure, tree)
  | .ok stat =>
      match stat.kind with
      | .regular =>
          match tree.unlink env.unlink path.path with
          | .ok tree => .ok (.opSuccess, tree)
          | .error _ => .ok (.opFailure, tree)
      | .directory =>
          match tree.readDirectory env.opendir env.entries path.path with
          | .error _ => .error .badPointer
          | .ok entries =>
              let fileCount := countFiles entries 0
              if fileCount > 2 then .ok (.opDirNotEmpty, tree)
              else
                match tree.rmdir env.rmdir path.path with
                | .ok tree => .ok (.opSuccess, tree)
                | .error _ => .ok (.opFailure, tree)
      | _ => .ok (.opFailure, tree)

def fOpenError : Errno → RetCode
  | .notDir => .opPathNotFile
  | _ => .opFailure

def fWriteFile (outcome : WriteOutcome) (tree : FileTree) (path : VerifiedPath) :
    (stream : Option Bytes) → RetCode × FileTree
  | none => (.opFailure, tree)
  | some stream =>
      match tree.writeFile outcome path.path stream with
      | .error code => (fOpenError code, tree)
      | .ok (written, tree) =>
          if written ≠ stream.length then (.opFailure, tree) else (.opSuccess, tree)

/-- `fread` of as many bytes as `ftell` told, and `fclose`. After a short count the file is
closed once more. -/
def readWhole (handle : ReadHandle) (fileSize : Nat) : Except Fault Bytes :=
  if handle.bytes.length = fileSize then .ok handle.bytes else .error .doubleClose

def readOpened (outcome : ReadOutcome) (tree : FileTree) (path : VerifiedPath) :
    Except Fault (Except RetCode Bytes) := do
  match tree.openRead outcome path.path with
  | .error _ => return .error .opIoError
  | .ok handle =>
      if handle.seeks = false then return .error .opIoError
      else
        match handle.tells with
        | none => return .error .opIoError
        | some fileSize =>
            match handle.allocation with
            | .refused => return .error .opFailure
            | .aborts => throw .allocationAbort
            | .granted => return .ok (← readWhole handle fileSize)

def fReadFile (env : Env) (sha : Sha256) (tree : FileTree) (path : VerifiedPath) :
    Except Fault (RetCode × Option FileContent) :=
  match tree.stat env.dirSize path.path with
  | .error _ => .ok (.opIoError, none)
  | .ok stat =>
      if stat.kind ≠ .regular then .ok (.opPathNotFile, none)
      else do
        match ← readOpened env.read tree path with
        | .error code => return (code, none)
        | .ok stream => return (.opSuccess, some ⟨sha.digest stream, stream, path.path⟩)

/-! ## Listing a directory -/

def listed (entry : Dirent) : Bool :=
  (entry.kind = .regular || entry.kind = .directory) &&
    (entry.name ≠ dot && entry.name ≠ dotDot && entry.name ≠ dbDir &&
      entry.name ≠ dbHash && entry.name ≠ dbName)

def countDigits (sizeCopy : Nat) (numLen : UInt16) : UInt16 :=
  if numLen > 9 then countDigits (sizeCopy / 10) (numLen + 1) else numLen
termination_by if numLen > 9 then 65536 - numLen.toNat else 0
decreasing_by
  -- The counter comes nearer to its largest value, behind which it is zero.
  have grows : (numLen + 1).toNat = (numLen.toNat + 1) % 65536 := UInt16.toNat_add numLen 1
  have bound := numLen.toNat_lt
  split
  · rename_i next
    have above : 9 < (numLen + 1).toNat := UInt16.lt_iff_toNat_lt.mp next
    omega
  · omega

theorem countDigits_one (sizeCopy : Nat) : countDigits sizeCopy 1 = 1 := by
  rw [countDigits, if_neg (by decide)]

def getFileSize (env : Env) (tree : FileTree) (path : VerifiedPath) (name : Bytes) :
    Except Fault (Nat × Nat) :=
  let fullPath := path.path ++ slash :: name
  if pathMax ≤ fullPath.length then .error .bufferOverflow
  else
    match tree.stat env.dirSize fullPath with
    | .error _ => .ok (0, 0)
    | .ok stat => .ok (stat.size, (countDigits stat.size 1).toNat)

def listLine (kind : FileKind) (size : Nat) (name : Bytes) : Bytes :=
  ascii "[" ++ ascii (if kind = .regular then "F" else "D") ++ ascii "]:" ++
    decimal size ++ ascii ":" ++ name ++ ascii "\n"

def listEntries (env : Env) (tree : FileTree) (path : VerifiedPath) :
    List Dirent → (text : Bytes) → (buffSize : Nat) → Except Fault Bytes
  | [], text, _ => .ok text
  | entry :: entries, text, buffSize =>
      if listed entry then do
        let (fileSize, numLength) ← getFileSize env tree path entry.name
        let buffSize :=
          if entry.name.length + text.length + numLength + 4 ≥ buffSize then buffSize * 2
          else buffSize
        let line := listLine entry.kind fileSize entry.name
        if buffSize < text.length + line.length + 1 then throw .bufferOverflow
        listEntries env tree path entries (text ++ line) buffSize
      else listEntries env tree path entries text buffSize

def fListDir (env : Env) (sha : Sha256) (tree : FileTree) (path : VerifiedPath) :
    Except Fault (RetCode × Option FileContent) :=
  match tree.stat env.dirSize path.path with
  | .error _ => .ok (.opIoError, none)
  | .ok stat =>
      if stat.kind ≠ .directory then .ok (.opPathNotDir, none)
      else
        match tree.readDirectory env.opendir env.entries path.path with
        | .error _ => .ok (.opIoError, none)
        | .ok entries => do
            let text ← listEntries env tree path entries [] 1024
            return (.opSuccess, some ⟨sha.digest text, text, path.path⟩)

end FileTransfer
