/-
The disk under the filesystem extension: a tree of files, and the operations of `std::filesystem` and of file streams on
it, as libstdc++ has them on POSIX.

- `lookup`: what the system finds at a path, following symbolic links; `entry`: the same, but not following the last
  one.
- `canonical`, `weaklyCanonical`: they throw where the library does.
- `openIn`, `openOut`, `createDir`, `createDirectories`, `remove`, `removeAll`. `touched` logs every location that is
  opened, created, read or truncated.
- `Faults`: what can go wrong besides: a directory that cannot be created, a file that cannot be opened, bytes that do
  not reach it. Permissions appear only there.
-/
import Mathlib.Tactic
import Iotmp.Fs.Path
import Iotmp.Core.Resource

namespace Iotmp

open FileTree (Outcome Step Node)

/-! ## Errors -/

inductive Errno where
  | ENOENT
  | EEXIST
  | ENOTDIR
  | ENOTEMPTY
  | EINVAL
  | EBUSY
  | ELOOP
  | EACCES
deriving DecidableEq, Repr

/-- `error_code::message()` -/
def Errno.message : Errno → String
  | .ENOENT => "No such file or directory"
  | .EEXIST => "File exists"
  | .ENOTDIR => "Not a directory"
  | .ENOTEMPTY => "Directory not empty"
  | .EINVAL => "Invalid argument"
  | .EBUSY => "Device or resource busy"
  | .ELOOP => "Too many levels of symbolic links"
  | .EACCES => "Permission denied"

/-- when the bytes written to a file do not reach it, and what does -/
inductive WriteFault where
  | none
  | atWrite (stored : Bytes)
  | atClose (stored : Bytes)
deriving DecidableEq, Repr

structure Faults where
  mkdir : Option Errno := none
  opens : Bool := true
  write : WriteFault := .none

/-! ## The disk -/

abbrev Location := List FileName

structure Disk where
  tree : FileTree FileName Bytes
  cwd : Location := []
  faults : Faults := {}
  touched : List Location := []

namespace Disk

def touch (d : Disk) (loc : Location) : Disk := { d with touched := d.touched ++ [loc] }

/-- the limit of the system on symbolic links in one path -/
def maxLinks : ℕ := 40

def start (d : Disk) (p : Path) : Location := if p.root then [] else d.cwd

/-- the outcome of `stat` -/
def lookup (d : Disk) (p : Path) : Outcome FileName :=
  if !p.root && (Path.cString p.elements p.trailing).1.isEmpty then .notFound
  else (d.tree.walk maxLinks (d.start p) (Path.steps p.elements p.trailing)).1

/-- what is at the last component of a path, a final separator aside -/
def entry (d : Disk) (p : Path) : Outcome FileName :=
  let c := Path.cString p.elements p.trailing
  match c.1.getLast? with
  | some (.into a) =>
    match (d.tree.walk maxLinks (d.start p) c.1.dropLast).1 with
    | .found dir =>
      if !d.tree.isDirectory dir then .notFound
      else if d.tree.node (dir ++ [a]) = none then .missing dir a
      else .found (dir ++ [a])
    | .loop => .loop
    | _ => .notFound
  | _ => d.lookup p

/-- the outcome of `lstat`: a final separator makes the system follow a link -/
def linkEntry (d : Disk) (p : Path) : Outcome FileName :=
  if (Path.cString p.elements p.trailing).2 then d.lookup p else d.entry p

/-! ## Status -/

/-- `exists(p)` -/
def existsAt (d : Disk) (p : Path) : Call Bool :=
  match d.lookup p with
  | .found _ => .returns true
  | .loop => .throws
  | _ => .returns false

/-- `exists(p, ec)` -/
def isFound (d : Disk) (p : Path) : Bool := d.existsAt p = .returns true

/-- `is_directory(p, ec)` -/
def isDirectory (d : Disk) (p : Path) : Bool :=
  match d.lookup p with
  | .found loc => d.tree.isDirectory loc
  | _ => false

/-- `is_regular_file(p, ec)` -/
def isRegularFile (d : Disk) (p : Path) : Bool :=
  match d.lookup p with
  | .found loc => d.tree.isFile loc
  | _ => false

/-- the content of a regular file -/
def content (d : Disk) (p : Path) : Bytes :=
  match d.lookup p with
  | .found loc =>
    match d.tree.node loc with
    | some (.file content) => content
    | _ => []
  | _ => []

/-! ## Canonical paths -/

/-- `canonical` -/
def canonical (d : Disk) (p : Path) : Call Location :=
  match d.lookup p with
  | .found loc => .returns loc
  | _ => .throws

/-- the leading elements that exist, and the others -/
def leading (d : Disk) (root : Bool) : List Element → List Element → Call (List Element × List Element)
  | done, [] => .returns (done, [])
  | done, e :: todo =>
    match d.existsAt (Path.make root (done ++ [e]) false) with
    | .throws => .throws
    | .returns true => leading d root (done ++ [e]) todo
    | .returns false => .returns (done, e :: todo)

/-- `weakly_canonical` -/
def weaklyCanonical (d : Disk) (p : Path) : Call Path :=
  match d.lookup p with
  | .loop => .throws
  | .found loc => .returns (Path.ofLocation loc)
  | _ =>
    match d.leading p.root [] p.elements with
    | .throws => .throws
    | .returns (done, todo) =>
      let first := Path.make p.root done false
      if first.isEmpty then .returns (Path.make false todo p.trailing).lexicallyNormal
      else
        match d.canonical first with
        | .throws => .throws
        | .returns loc =>
          .returns (Path.make true (loc.map FileName.element ++ todo) p.trailing).lexicallyNormal

/-! ## Opening -/

/-- an `ifstream` on a path -/
def openIn (d : Disk) (p : Path) : Option Bytes × Disk :=
  match d.lookup p with
  | .found loc => if d.faults.opens then (some (d.content p), d.touch loc) else (none, d)
  | _ => (none, d)

/-- an `ofstream` on a path, truncating: where the file is -/
def openOut (d : Disk) (p : Path) : Option Location × Disk :=
  if !d.faults.opens then (none, d)
  else
    match d.lookup p with
    | .found loc =>
      if d.tree.isDirectory loc then (none, d) else (some loc, { d with tree := d.tree.write loc [] }.touch loc)
    | .missing dir name =>
      (some (dir ++ [name]), { d with tree := d.tree.add dir name (.file []) }.touch (dir ++ [name]))
    | _ => (none, d)

/-- the directory at a path is opened for its entries -/
def openDirectory (d : Disk) (p : Path) : Disk :=
  match d.lookup p with
  | .found loc => d.touch loc
  | _ => d

/-! ## Directories -/

/-- `mkdir`, where a directory that is there is no error -/
def createDir (d : Disk) (p : Path) : Option Errno × Disk :=
  match d.entry p with
  | .missing dir name =>
    match d.faults.mkdir with
    | some e => (some e, d)
    | none => (none, { d with tree := d.tree.add dir name .directory }.touch (dir ++ [name]))
  | .found _ => if d.isDirectory p then (none, d) else (some .EEXIST, d)
  | .notFound => (some .ENOENT, d)
  | .loop => (some .ELOOP, d)

/-- the paths to create for a path that is not found, outermost first; the elements come last first -/
def missingPaths (d : Disk) (root : Bool) : List Element → Except Errno (List Path)
  | [] => .ok []
  | e :: outer =>
    let missing := if e = dot ∨ e = dotDot then [] else [Path.make root (e :: outer).reverse false]
    if outer.isEmpty then .ok missing
    else
      match d.lookup (Path.make root outer.reverse false) with
      | .found loc => if d.tree.isDirectory loc then .ok missing else .error .ENOTDIR
      | .loop => .ok missing
      | _ =>
        match missingPaths d root outer with
        | .error e => .error e
        | .ok paths => .ok (paths ++ missing)

def createAll (d : Disk) : List Path → Option Errno × Disk
  | [] => (none, d)
  | p :: paths =>
    match d.createDir p with
    | (some e, d) => (some e, d)
    | (none, d) => createAll d paths

/-- `create_directories` -/
def createDirectories (d : Disk) (p : Path) : Option Errno × Disk :=
  if p.isEmpty then (some .EINVAL, d)
  else
    match d.lookup p with
    | .found loc => if d.tree.isDirectory loc then (none, d) else (some .ENOTDIR, d)
    | .loop => (some .ELOOP, d)
    | _ =>
      match d.missingPaths p.root p.elements.reverse with
      | .error e => (some e, d)
      | .ok paths => d.createAll paths

/-! ## Removal -/

/-- `rmdir` of the directory at `loc` -/
def rmdir (d : Disk) (p : Path) (loc : Location) : Option Errno × Disk :=
  match (Path.cString p.elements p.trailing).1.getLast? with
  | none => (some .EBUSY, d)
  | some .here => (some .EINVAL, d)
  | some .up => (some .ENOTEMPTY, d)
  | some (.into _) =>
    -- the directory behind a link has another name
    if d.entry p ≠ .found loc then (some .ENOTDIR, d)
    else if d.tree.hasChildren loc then (some .ENOTEMPTY, d)
    else (none, { d with tree := d.tree.remove loc })

/-- `remove` -/
def remove (d : Disk) (p : Path) : Option Errno × Disk :=
  match d.linkEntry p with
  | .found loc => if d.tree.isDirectory loc then d.rmdir p loc else (none, { d with tree := d.tree.remove loc })
  | .loop => (some .ELOOP, d)
  | _ => (none, d)

/-- `remove_all`: a directory is emptied first -/
def removeAll (d : Disk) (p : Path) : Option Errno × Disk :=
  match d.linkEntry p with
  | .found loc => if d.tree.isDirectory loc then { d with tree := d.tree.clear loc }.remove p else d.remove p
  | _ => d.remove p

end Disk

end Iotmp
