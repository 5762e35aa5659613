import QueryForecast.Storage.Path

/-!
# File storage

A tree of directories and files as a value. Logs and artifacts are kept in one, so that what an
operation leaves behind, also when it fails, can be computed and reasoned about.

Paths start at the working directory. Every piece of a path but the last has to lead to a directory,
also where `..` goes back from it. The directories above the working directory and the root are
there as well, but nothing in them is known.
-/

namespace QueryForecast

/-- What a location leads to. -/
inductive Stored where
  | file (bytes : List UInt8)
  | directory
  deriving DecidableEq, Repr

/-- The names on the way from the working directory to something stored. -/
abbrev Location := List String

/-- Why a path does not lead where it has to. -/
inductive Denial where
  /-- Something on the way is not there. -/
  | missing
  /-- Something on the way is a file. -/
  | notDirectory
  /-- The end of the way is taken already. -/
  | taken
  /-- The path, or a name in it, cannot be looked up. -/
  | unusable
  deriving DecidableEq, Repr

namespace Location

/-- The working directory. -/
def start : Location := []

/-- The root of all directories. -/
def root : Location := ["/"]

/-- Whether a location is the working directory, one above it, or the root. -/
def isGiven (location : Location) : Bool :=
  location == root || location.all (· == "..")

/-- The location one level up. -/
def up (location : Location) : Location :=
  if location = root then root
  else if location.all (· == "..") then location ++ [".."]
  else location.dropLast

end Location

/-- A tree of directories and files: what each location leads to, other than those that are given.
-/
structure Storage where
  entries : List (Location × Stored) := []
  deriving Repr, Inhabited

namespace Storage

/-- What a location leads to. -/
def stored? (s : Storage) (location : Location) : Option Stored :=
  if Location.isGiven location then some .directory else s.entries.lookup location

/-- The storage with something put at a location. -/
def put (s : Storage) (location : Location) (what : Stored) : Storage :=
  ⟨(location, what) :: s.entries.filter fun entry => entry.1 ≠ location⟩

/-- The storage without what is at a location. -/
def remove (s : Storage) (location : Location) : Storage :=
  ⟨s.entries.filter fun entry => entry.1 ≠ location⟩

theorem stored?_put (s : Storage) {location : Location} (what : Stored)
    (h : Location.isGiven location = false) :
    (s.put location what).stored? location = some what := by
  simp [stored?, put, h]

/-- Follows pieces of a path from a location. What the last of them leads to need not be there. -/
def follow (s : Storage) : Location → List String → Except Denial Location
  | location, [] => .ok location
  | location, piece :: rest =>
    match s.stored? location with
    | none => .error .missing
    | some (.file _) => .error .notDirectory
    | some .directory =>
      if Path.stays piece then s.follow location rest
      else if piece = ".." then s.follow (Location.up location) rest
      else if Path.maxNameSize < piece.utf8ByteSize then .error .unusable
      else s.follow (location ++ [piece]) rest

/-- The location that a path leads to, or could lead to if something were put there. -/
def locate (s : Storage) (p : Path) : Except Denial Location :=
  if p.isUsable then s.follow (if p.rooted then Location.root else Location.start) p.pieces
  else .error .unusable

/-- What a path leads to. -/
def find? (s : Storage) (p : Path) : Option Stored :=
  match s.locate p with
  | .ok location => s.stored? location
  | .error _ => none

/-- Whether a path leads to something. -/
def contains (s : Storage) (path : String) : Bool :=
  (s.find? (.ofString path)).isSome

/-- The bytes of the file that a path leads to. -/
def read? (s : Storage) (path : String) : Option (List UInt8) :=
  match s.find? (.ofString path) with
  | some (.file bytes) => some bytes
  | _ => none

/-- A file that can be read is there. -/
theorem contains_of_read? {s : Storage} {path : String} {bytes : List UInt8}
    (h : s.read? path = some bytes) : s.contains path = true := by
  unfold read? at h
  unfold contains
  cases hf : s.find? (.ofString path) with
  | none => simp [hf] at h
  | some what => rfl

end Storage

/-- The bytes of a text. -/
def bytesOf (text : String) : List UInt8 :=
  text.toUTF8.toList

end QueryForecast
