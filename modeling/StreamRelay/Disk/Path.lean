/-
  StreamRelay/Disk/Path.lean
  ==========================
  **Paths, and trails from the root.**

  A path is text with slashes in it. A trail is the list of names on the way from the root to a
  place, with no detours in it; a path leads along a trail that grows by a name or goes back by one.
-/

namespace StreamRelay

/-! ### Paths -/

namespace Path

/-- The names between the slashes of a path, empty ones included. -/
def split : List Char → List (List Char)
  | [] => [[]]
  | c :: rest =>
    match split rest with
    | [] => [[c]]
    | name :: names => if c = '/' then [] :: name :: names else (c :: name) :: names

/-- The names of a path in order; repeated slashes count as one. -/
def names (path : String) : List String :=
  ((split path.toList).filter fun name => !name.isEmpty).map String.ofList

def isAbsolute (path : String) : Bool := path.toList.head? == some '/'

def namesFolder (path : String) : Bool := path.toList.getLast? == some '/'

/-- A path whose last name could be a new one, but with a slash behind it. -/
def asksForFolder (path : String) : Bool :=
  match (names path).getLast? with
  | none => false
  | some name => namesFolder path && name != "." && name != ".."

def maxName : Nat := 255

/-- The length in bytes at which a path is too long. -/
def tooLong : Nat := 4096

end Path

/-! ### Trails -/

abbrev Trail := List String

namespace Trail

/-- One name further: `.` stays, and `..` goes to the folder above. The root is its own folder
    above. -/
def step (trail : Trail) (name : String) : Trail :=
  if name = "." then trail else if name = ".." then trail.dropLast else trail ++ [name]

def path (trail : Trail) : String := "/" ++ "/".intercalate trail

def isWithin (trail folder : Trail) : Bool := folder.isPrefixOf trail

end Trail

end StreamRelay
