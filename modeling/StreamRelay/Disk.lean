/-
  StreamRelay/Disk.lean
  =====================
  **The files that a run reads and writes.**

  A disk holds regular files and folders under their names, and what the program has open. A path is
  followed name by name from the folder that the program runs in, or from the root if it starts with
  a slash. A name may be a link, so a place is known by its trail from the root and not by the path
  that led there.

  What is open has a number, and a name of its own by that number. Standard input is open from the
  start, and is a regular file under a name of its own.
-/
import StreamRelay.Disk.System

namespace StreamRelay

/-- Regular files with their contents, folders besides those of every system, the folder that the
    program runs in, and the places that are open, by number. The name of a file in the folder that
    the program runs in is its path from there; any other name is a path from the root. -/
structure Disk where
  files : List (String × Array UInt8)
  folders : List String
  workingFolder : Trail
  descriptors : List Disk.Place
deriving DecidableEq, Repr

namespace Disk

/-! ### Contents -/

/-- A folder for temporary files, under a name that no path spells. -/
def unnamedFolder : Trail := ["tmp", ""]

/-- A disk with the given files in the folder that the program runs in. Standard input is empty, and
    nothing is open but the standard streams. -/
def ofFiles (files : List (String × Bytes)) : Disk where
  files := files.map fun file => (file.1, file.2.toArray)
  folders := []
  workingFolder := unnamedFolder
  descriptors := [.device .null, .device (.stream .output), .device (.stream .error)]

def find? (disk : Disk) (name : String) : Option (Array UInt8) := disk.files.lookup name

/-- The contents of a file; a file that is not there is empty. -/
def contents (disk : Disk) (name : String) : Bytes := ((disk.find? name).getD #[]).toList

def slice (disk : Disk) (name : String) (offset count : Nat) : Bytes :=
  (((disk.find? name).getD #[]).extract offset (offset + count)).toList

def put (disk : Disk) (name : String) (bytes : Array UInt8) : Disk :=
  match disk.find? name with
  | none => { disk with files := disk.files ++ [(name, bytes)] }
  | some _ =>
    { disk with files := disk.files.map fun file => if file.1 = name then (name, bytes) else file }

def standardInput : String := "/dev/stdin"

def withStandardInput (disk : Disk) (bytes : Bytes) : Disk :=
  { disk.put standardInput bytes.toArray with
    descriptors := disk.descriptors.set 0 (.file standardInput) }

def listing (disk : Disk) : List (String × Bytes) :=
  (disk.files.filter fun file => !file.1.toList.contains '/').map fun file =>
    (file.1, file.2.toList)

def changes (before after : Disk) : List (String × Bytes) :=
  (after.files.filter fun file => before.find? file.1 != some file.2).map fun file =>
    (file.1, file.2.toList)

/-! ### Following a path -/

def nameOf (disk : Disk) (trail : Trail) : String :=
  if trail.isWithin disk.workingFolder then "/".intercalate (trail.drop disk.workingFolder.length)
  else trail.path

/-- The trail that a link at the end of a trail leads to; the trail itself if there is no link. -/
def target (disk : Disk) (trail : Trail) : Trail :=
  if trail.path = workingFolderLink then disk.workingFolder
  else (systemLinks.lookup trail.path).getD trail

/-- There is a folder at the end of a trail: where the program runs, above that, or elsewhere. -/
def hasFolder (disk : Disk) (trail : Trail) : Bool :=
  disk.workingFolder.isWithin trail || systemFolders.contains trail.path ||
    disk.folders.contains (disk.nameOf trail)

/-- What is open under the number at the end of a trail, or what the system tells of it. -/
def descriptor? (disk : Disk) (trail : Trail) : Option Place :=
  disk.descriptors.zipIdx.findSome? fun (place, number) =>
    if trail = descriptorFolder ++ [toString number] then some place
    else if trail = descriptorAccounts ++ [toString number] then
      some (.device (.account .invalidArgument))
    else none

def lookAt (disk : Disk) (trail : Trail) : Place :=
  let trail := disk.target trail
  if disk.hasFolder trail then .folder trail
  else
    match disk.descriptor? trail, devices.lookup trail.path with
    | some place, _ => place
    | none, some device => .device device
    | none, none =>
      let name := disk.nameOf trail
      if (disk.find? name).isSome || systemFiles.contains trail.path then .file name
      else .missing trail

/-- Follow names from a place. Only a folder has names in it. -/
def follow (disk : Disk) : Place → List String → Except Fault Place
  | place, [] => .ok place
  | .folder trail, name :: names =>
    if trail.limitsNames && decide (Path.maxName < name.utf8ByteSize) then .error .nameTooLong
    else disk.follow (disk.lookAt (trail.step name)) names
  | .missing _, _ :: _ => .error .noSuchFile
  | _, _ :: _ => .error .notFolder

/-- Follow some of the names of a path, provided that the whole path can be followed at all. -/
def walk (disk : Disk) (path : String) (names : List String) : Except Fault Place :=
  if path.toList.contains '\x00' then .error .nulInPath
  else if path.isEmpty then .error .noSuchFile
  else if Path.tooLong ≤ path.utf8ByteSize then .error .nameTooLong
  else disk.follow (.folder (if Path.isAbsolute path then [] else disk.workingFolder)) names

def locate (disk : Disk) (path : String) : Except Fault Place := disk.walk path (Path.names path)

/-! ### Opening -/

/-- Keep a place open, under the next number. -/
def hold (disk : Disk) (place : Place) : Disk :=
  { disk with descriptors := disk.descriptors ++ [place] }

def openAt (disk : Disk) : Place → Except Fault (Place × Disk)
  | .missing _ => .error .noSuchFile
  | .device .terminal => .error .noSuchDevice
  | place => .ok (place, disk.hold place)

/-- **Open a path for reading.** Only a folder may have a slash behind its name. -/
def openToRead (disk : Disk) (path : String) : Except Fault (Place × Disk) :=
  match disk.locate path with
  | .error fault => .error fault
  | .ok (.folder trail) => disk.openAt (.folder trail)
  | .ok (.missing trail) => disk.openAt (.missing trail)
  | .ok place => if Path.namesFolder path then .error .notFolder else disk.openAt place

def openEmpty (disk : Disk) (name : String) : Target × Disk :=
  (.file name, (disk.put name #[]).hold (.file name))

/-- Open a place for writing. A file is created if it is missing, and emptied if it is there. -/
def createAt (disk : Disk) : Place → Except Fault (Target × Disk)
  | .folder _ => .error .isFolder
  | .file name => .ok (disk.openEmpty name)
  | .missing trail =>
    match trail.refusal? with
    | some fault => .error fault
    | none => .ok (disk.openEmpty (disk.nameOf trail))
  | .device .terminal => .error .noSuchDevice
  | .device .program => .error .busy
  | .device device => .ok (.device device, disk.hold (.device device))

/-- **Open a path for writing.** A path that asks for a folder is refused before its last name is
    looked at. -/
def create (disk : Disk) (path : String) : Except Fault (Target × Disk) :=
  if Path.asksForFolder path then
    match disk.walk path (Path.names path).dropLast with
    | .error fault => .error fault
    | .ok place => .error place.refusal
  else
    match disk.locate path with
    | .error fault => .error fault
    | .ok place => disk.createAt place

/-! ### Writing -/

/-- Contents with bytes written over them at an offset; a gap before the offset is filled with
    zeros. -/
def splice (contents : Array UInt8) (offset : Nat) (bytes : Bytes) : Array UInt8 :=
  contents.extract 0 offset ++ Array.replicate (offset - contents.size) 0 ++ bytes.toArray
    ++ contents.extract (offset + bytes.length) contents.size

/-- Write bytes at an offset of a target. Writing nothing always succeeds. -/
def write (disk : Disk) (target : Target) (offset : Nat) (bytes : Bytes) : Except Fault Disk :=
  if bytes.isEmpty then .ok disk
  else
    match target with
    | .file name => .ok (disk.put name (splice ((disk.find? name).getD #[]) offset bytes))
    | .device .full => .error .noSpace
    | .device (.account refusal) => .error refusal
    | .device _ => .ok disk

end Disk

end StreamRelay
