/-
The filesystem extension (`filesystem.cpp`): resources to list, read, write, delete and hash the files under a base
path, and the checks they share.

- `resolvePath`, `isWithinBasePath`, `validateResolvedPath`, `resolveAndValidatePath`: from the path of a request to a
  path the request may use.
- `handleGet`, `handlePut`, `handleDelete`, `handleHash`: the handlers. Each gives back the disk, also when it throws,
  and its reply; the payload of a response is null when a handler starts. Modes and times of files are left out.
- `createDownload`, `openDownload`, `createUpload`, `openUpload`: `create_session` and the part of `start` of the two
  transfer sessions that uses the disk.
-/
import Mathlib.Tactic
import Iotmp.Fs.Disk
import Iotmp.Fs.Download
import Iotmp.Fs.Upload

namespace Iotmp

/-! ## Replies -/

/-- what a handler leaves in its output -/
structure Reply where
  success : Bool := true
  code : Int32 := 0
  data : Json := .null

namespace Reply

def object (members : List (String × Json)) : Json :=
  .object (members.foldl (fun ms m => SortedMap.insert (text m.1) m.2 ms) [])

def ofText (s : String) : Json := .string (text s)

/-- `set_error(message)` -/
def error (message : String) : Reply where
  success := false
  data := object [("error", ofText message)]

/-- `set_error(code, message)` -/
def errorCode (code : Int32) (message : String) : Reply where
  success := false
  code := code
  data := object [("error", ofText message)]

def fields (members : List (String × Json)) : Reply where
  data := object members

/-- `out["size"]` and `out["max_size"]` after error 413 -/
def tooLarge (size max : ℕ) : Reply where
  success := false
  code := 413
  data := object [("error", ofText "File too large for inline transfer"),
    ("size", .numberUnsigned (.ofNat size)), ("max_size", .numberUnsigned (.ofNat max))]

end Reply

def MAX_INLINE_FILE_SIZE : ℕ := 64 * 1024

/-! ## Parameters -/

/-- the member of an object -/
def member (key : String) : Json → Option Json
  | .object ms => SortedMap.find (text key) ms
  | _ => none

/-- `get_value(json, key, "")` -/
def getText (json : Json) (key : String) : Bytes :=
  match member key json with
  | some (.string s) => s
  | _ => []

/-- `get_value(json, key, default)` for a flag -/
def getFlag (json : Json) (key : String) (default : Bool) : Bool :=
  match member key json with
  | some (.boolean b) => b
  | _ => default

/-- `get_value(json, key, default)` for a size -/
def getSize (json : Json) (key : String) (default : ℕ) : ℕ :=
  ((member key json).bind Json.getSize).elim default UInt64.toNat

/-- `json[key]` -/
def subscript (json : Json) (key : String) : Call Json :=
  match json with
  | .object ms => .returns ((SortedMap.find (text key) ms).getD .null)
  | .null => .returns .null
  | _ => .throws

namespace Input

/-- `in.get_params()` -/
def getParams (input : Input) : Json := input.params.getD (.object [])

/-- `in.path(key, "")` -/
def pathText (input : Input) (key : String) : Bytes := getText (input.path.getD .null) key

/-- the path of a request: what the wildcard matched, or else a text in the payload -/
def requestPath (input : Input) (key : String) : Call Bytes :=
  if input.pathText key ≠ [] then .returns (input.pathText key)
  else
    match subscript input.data key with
    | .throws => .throws
    | .returns (.string s) => .returns s
    | .returns _ => .returns []

end Input

/-! ## Paths under the base path -/

structure Filesystem where
  basePath : Path

namespace Filesystem

def resolvePath (fs : Filesystem) (d : Disk) (inputPath : Bytes) : Path :=
  if inputPath = [] then if fs.basePath.isEmpty then .ofLocation d.cwd else fs.basePath
  else
    let path := Path.ofBytes inputPath
    if !fs.basePath.isEmpty then
      let path := if path.root then path.relativeToRoot else path
      (fs.basePath.append path).lexicallyNormal
    else if !path.root then ((Path.make true [] false).append path).lexicallyNormal
    else path.lexicallyNormal

def isWithinBasePath (fs : Filesystem) (d : Disk) (path : Path) : Call Bool :=
  if fs.basePath.isEmpty then .returns true
  else
    match d.canonical fs.basePath with
    | .throws => .throws
    | .returns canonicalBase =>
      match d.weaklyCanonical path with
      | .throws => .throws
      | .returns canonicalPath =>
        .returns (canonicalPath.root && decide (canonicalBase.map FileName.element <+: canonicalPath.elements))

def validateResolvedPath (fs : Filesystem) (d : Disk) (path : Path) : Call Bool :=
  if dotDot.1 <:+: path.string then .returns false
  else if !fs.basePath.isEmpty then fs.isWithinBasePath d path
  else .returns true

/-- the path a request may use, or the error it gets -/
def resolveAndValidatePath (fs : Filesystem) (d : Disk) (input : Input) (key : String) (checkExists : Bool) :
    Call (Except Reply Path) :=
  match input.requestPath key with
  | .throws => .throws
  | .returns pathStr =>
    let path := fs.resolvePath d pathStr
    match fs.validateResolvedPath d path with
    | .throws => .throws
    | .returns false => .returns (.error (.errorCode 403 "Access denied: path outside allowed directory"))
    | .returns true =>
      if checkExists then
        match d.existsAt path with
        | .throws => .throws
        | .returns false => .returns (.error (.errorCode 404 "Path does not exist"))
        | .returns true => .returns (.ok path)
      else .returns (.ok path)

/-- a handler goes on with the path it may use -/
def withPath (fs : Filesystem) (d : Disk) (input : Input) (key : String) (checkExists : Bool)
    (next : Path → Disk × Call Reply) : Disk × Call Reply :=
  match fs.resolveAndValidatePath d input key checkExists with
  | .throws => (d, .throws)
  | .returns (.error reply) => (d, .returns reply)
  | .returns (.ok path) => next path

/-! ## Reading -/

/-- `get_file_type` of a status that follows links -/
def getFileType : FileTree.Node FileName Bytes → String
  | .directory => "directory"
  | .file _ => "file"
  | .link _ => "symlink"
  | .special => "unknown"

/-- an element of a listing; nothing for a hidden name, or a link that leads nowhere -/
def listEntry (d : Disk) (path : Path) (includeHidden : Bool) (name : FileName) : Option Json :=
  if !includeHidden && name.1.head? = some 0x2E then none
  else
    match d.lookup (path.append (Path.make false [name.element] false)) with
    | .found loc =>
      (d.tree.node loc).map fun node =>
        let size : ℕ := match node with
          | .file content => content.length
          | _ => 0
        Reply.object [("name", .string name.1), ("type", Reply.ofText (getFileType node)),
          ("size", .numberUnsigned (.ofNat size))]
    | _ => none

def handleList (fs : Filesystem) (d : Disk) (input : Input) : Disk × Call Reply :=
  fs.withPath d input "path" true fun path =>
    if !d.isDirectory path then (d, .returns (.errorCode 400 "Path is not a directory"))
    else
      match d.lookup path with
      | .found loc =>
        let names := (d.tree.children loc).filterMap (listEntry d path (getFlag input.getParams "include_hidden" false))
        (d.openDirectory path, .returns { data := .array names })
      | _ => (d, .returns { data := .array [] })

def handleDownload (fs : Filesystem) (d : Disk) (input : Input) : Disk × Call Reply :=
  fs.withPath d input "path" true fun path =>
    if !d.isRegularFile path then (d, .returns (.errorCode 400 "Not a regular file"))
    else if (d.content path).length > MAX_INLINE_FILE_SIZE then
      (d, .returns (.tooLarge (d.content path).length MAX_INLINE_FILE_SIZE))
    else
      match d.openIn path with
      | (none, d) => (d, .returns (.error "Failed to open file"))
      | (some content, d) => (d, .returns { data := .binary content none })

def handleGet (fs : Filesystem) (d : Disk) (input : Input) : Disk × Call Reply :=
  if input.describe then (d, .returns { data := .array [] })
  else
    fs.withPath d input "path" true fun path =>
      if d.isDirectory path then fs.handleList d input
      else if d.isRegularFile path then fs.handleDownload d input
      else (d, .returns (.errorCode 400 "Path is neither a regular file nor a directory"))

/-- what `toLower` gives the digest of, for the three algorithms there are -/
def hashAlgorithm (algorithm : Bytes) : Option Bytes :=
  let lower := (if algorithm = [] then text "sha256" else algorithm).map fun c =>
    if 0x41 ≤ c ∧ c ≤ 0x5A then c + 0x20 else c
  if lower ∈ [text "sha256", text "sha1", text "md5"] then some lower else none

def hexChars : Bytes := text "0123456789abcdef"

def hex (digest : Bytes) : Bytes :=
  digest.flatMap fun b => [hexChars.getD (b.toNat / 16) 0, hexChars.getD (b.toNat % 16) 0]

/-- `digest`: the message digests of OpenSSL -/
def handleHash (digest : Bytes → Bytes → Bytes) (fs : Filesystem) (d : Disk) (input : Input) : Disk × Call Reply :=
  if input.describe then
    (d, .returns (.fields [("path", .string []), ("algorithm", Reply.ofText "sha256"), ("hash", .string []),
      ("size", .numberInteger 0), ("mtime", .numberInteger 0)]))
  else
    fs.withPath d input "path" true fun path =>
      if !d.isRegularFile path then (d, .returns (.errorCode 400 "path is not a regular file"))
      else
        match hashAlgorithm (getText input.getParams "algorithm") with
        | none => (d, .returns (.errorCode 400 "unsupported hash algorithm"))
        | some algorithm =>
          match d.openIn path with
          | (none, d) => (d, .returns (.errorCode 403 "permission denied"))
          | (some content, d) =>
            (d, .returns (.fields [("path", .string (Path.cChars path.string)), ("algorithm", .string algorithm),
              ("hash", .string (hex (digest algorithm content))), ("size", .numberUnsigned (.ofNat content.length))]))

/-! ## Writing -/

/-- whether an existing file is overwritten: true unless the parameter says otherwise; a value that is no flag throws -/
def overwriteFlag (params : Json) : Call Bool :=
  match subscript params "overwrite" with
  | .throws => .throws
  | .returns .null => .returns true
  | .returns (.boolean b) => .returns b
  | .returns _ => .throws

def stored (path : Path) (type : String) (more : List (String × Json)) : Reply :=
  .fields ([("success", .boolean true), ("path", .string (Path.cChars path.string)), ("type", Reply.ofText type)] ++
    more)

/-- the bytes of a request -/
def payloadBytes (input : Input) : Bytes :=
  match input.data with
  | .binary data _ => data
  | _ => []

/-- `ofstream`, `write`, `close` -/
def writeFile (d : Disk) (path : Path) (data : Bytes) : Disk × Reply :=
  match d.openOut path with
  | (none, d) => (d, .error "Failed to create file")
  | (some loc, d) =>
    let reply := stored path "file" [("size", .numberUnsigned (.ofNat data.length))]
    if data = [] then (d, reply)
    else
      match d.faults.write with
      | .none => ({ d with tree := d.tree.write loc data }, reply)
      | .atClose bytes => ({ d with tree := d.tree.write loc bytes }, reply)
      | .atWrite bytes =>
        let d := { d with tree := d.tree.write loc bytes }
        ((d.remove path).2, .error "Failed to write file")

/-- the parent directories, then the file -/
def putFile (d : Disk) (path : Path) (data : Bytes) : Disk × Reply :=
  match d.createDirectories path.parentPath with
  | (some e, d) => (d, .error e.message)
  | (none, d) => writeFile d path data

def putDirectory (d : Disk) (path : Path) : Disk × Reply :=
  match d.createDirectories path with
  | (some e, d) => (d, .error e.message)
  | (none, d) => (d, stored path "directory" [])

/-- whether the path of the request ends with a slash -/
def namesDirectory (input : Input) : Bool := (input.pathText "path").getLast? = some preferredSeparator

def handlePut (fs : Filesystem) (d : Disk) (input : Input) : Disk × Call Reply :=
  if input.describe then
    (d, .returns (.fields [("success", .boolean true), ("path", .string []), ("type", .string [])]))
  else
    fs.withPath d input "path" false fun path =>
      if (payloadBytes input).length > MAX_INLINE_FILE_SIZE then
        (d, .returns (.tooLarge (payloadBytes input).length MAX_INLINE_FILE_SIZE))
      else
        match overwriteFlag input.getParams with
        | .throws => (d, .throws)
        | .returns overwrite =>
          if d.isFound path && namesDirectory input then
            if d.isDirectory path then
              (d, .returns (stored path "directory" [("message", Reply.ofText "Directory already exists")]))
            else (d, .returns (.errorCode 409 "A file exists at this path"))
          else if d.isFound path && !overwrite then
            (d, .returns (.errorCode 409 "File already exists (overwrite=false)"))
          else
            let done := if namesDirectory input then putDirectory d path else putFile d path (payloadBytes input)
            (done.1, .returns done.2)

/-! ## Deleting -/

/-- the guard of the base path and its parent -/
def isBaseOrParent (fs : Filesystem) (path : Path) : Bool :=
  decide (path = fs.basePath) || decide (path = fs.basePath.parentPath)

/-- what `handle_delete` takes away, and the error it meets -/
def deletePath (d : Disk) (path : Path) (recursive : Bool) : Option Errno × Disk :=
  if d.isDirectory path && recursive then d.removeAll path else d.remove path

def handleDelete (fs : Filesystem) (d : Disk) (input : Input) : Disk × Call Reply :=
  if input.describe then (d, .returns (.fields [("success", .boolean true), ("deleted", .string [])]))
  else
    fs.withPath d input "path" true fun path =>
      if fs.isBaseOrParent path then (d, .returns (.errorCode 403 "Cannot delete base or parent directory"))
      else
        match deletePath d path (getFlag input.getParams "recursive" false) with
        | (some e, d) => (d, .returns (.error e.message))
        | (none, d) =>
          (d, .returns (.fields [("success", .boolean true), ("deleted", .string (Path.cChars path.string))]))

/-! ## Transfer sessions -/

/-- `max_bandwidth_mbps`: a value that is no number throws -/
def bandwidth (parameters : Json) : Call ℕ :=
  match subscript parameters "max_bandwidth_mbps" with
  | .throws => .throws
  | .returns .null => .returns 0
  | .returns v =>
    match Json.getSize v with
    | none => .throws
    | some n => .returns n.toNat

/-- `filesystem_downloads::create_session`: the file and the configuration, or no session -/
def createDownload (fs : Filesystem) (d : Disk) (parameters : Json) : Call (Option (Path × TransferConfig)) :=
  if getText parameters "path" = [] then .returns none
  else
    let path := fs.resolvePath d (getText parameters "path")
    match fs.validateResolvedPath d path with
    | .throws => .throws
    | .returns false => .returns none
    | .returns true =>
      match bandwidth parameters with
      | .throws => .throws
      | .returns mbps =>
        let windowSize := getSize parameters "window_size" DEFAULT_WINDOW_SIZE
        .returns (some (path, { windowSize := windowSize, maxBandwidthMbps := mbps }))

/-- what `file_download_session::start` finds; it opens the file if it is a regular one -/
def openDownload (d : Disk) (path : Path) : Disk × Call FileProbe :=
  match d.existsAt path with
  | .throws => (d, .throws)
  | .returns false => (d, .returns ⟨false, false, false, 0⟩)
  | .returns true =>
    if !d.isRegularFile path then (d, .returns ⟨true, false, false, 0⟩)
    else
      match d.openIn path with
      | (none, d) => (d, .returns ⟨true, true, false, 0⟩)
      | (some content, d) => (d, .returns ⟨true, true, true, content.length⟩)

/-- `filesystem_uploads::create_session`; `available`: the free space, where the directory of the file is -/
def createUpload (fs : Filesystem) (d : Disk) (parameters : Json) (available : ℕ) :
    Call (Option (Path × TransferConfig)) :=
  if getText parameters "path" = [] then .returns none
  else if getSize parameters "size" 0 = 0 then .returns none
  else
    let path := fs.resolvePath d (getText parameters "path")
    match fs.validateResolvedPath d path with
    | .throws => .throws
    | .returns false => .returns none
    | .returns true =>
      if !d.isFound path.parentPath then .returns none
      else if available < getSize parameters "size" 0 then .returns none
      else
        match bandwidth parameters with
        | .throws => .throws
        | .returns mbps =>
          .returns (some (path, { expectedSize := getSize parameters "size" 0, maxBandwidthMbps := mbps }))

/-- the start of `file_upload_session::start`: whether the file opens; `create_directories` throws on an error -/
def openUpload (d : Disk) (path : Path) : Disk × Call Bool :=
  match d.createDirectories path.parentPath with
  | (some _, d) => (d, .throws)
  | (none, d) =>
    match d.openOut path with
    | (none, d) => (d, .returns false)
    | (some _, d) => (d, .returns true)

end Filesystem

end Iotmp
