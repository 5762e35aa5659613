import QueryForecast.Storage.Basic

/-!
# Changes of a storage

Directories are made, files are added to or given new content. Each operation says whether it was
done and what it leaves: one that fails half-way leaves the directories that it has made. `append`
and `replace` make the directories above a file when they are missing.
-/

namespace QueryForecast.Storage

/-- Makes a directory at the end of a path, whose other pieces have to be there. -/
def makeDirectory (s : Storage) (p : Path) : Except Denial Storage :=
  match s.locate p with
  | .error denial => .error denial
  | .ok location =>
    match s.stored? location with
    | some _ => .error .taken
    | none => .ok (s.put location .directory)

/-- Makes a directory that may be there already. -/
def ensureDirectory (s : Storage) (p : Path) : Except Denial Storage :=
  match s.makeDirectory p with
  | .error .taken => if s.find? p = some .directory then .ok s else .error .taken
  | result => result

/-- Makes a directory and those above it; the paths are those of the directory and of what it lies
in, the longest first. The search for one that can be made goes up as long as something is missing;
then those below it are made. -/
def makeDirectories (s : Storage) : List Path → Bool × Storage
  | [] => (true, s)
  | p :: above =>
    match s.ensureDirectory p with
    | .ok s => (true, s)
    | .error .missing =>
      match s.makeDirectories above with
      | (true, s) =>
        match s.ensureDirectory p with
        | .ok s => (true, s)
        | .error _ => (false, s)
      | (false, s) => (false, s)
    | .error _ => (false, s)

/-- Changes the file that a path leads to, making it when it is missing. -/
def modify (s : Storage) (p : Path) (change : List UInt8 → List UInt8) : Option Storage :=
  match s.locate p with
  | .error _ => none
  | .ok location =>
    match s.stored? location with
    | some .directory => none
    | some (.file bytes) => some (s.put location (.file (change bytes)))
    | none => some (s.put location (.file (change [])))

/-- Adds bytes at the end of a file. -/
def append (s : Storage) (path : String) (bytes : List UInt8) : Bool × Storage :=
  let p := Path.ofString path
  match s.makeDirectories p.directories with
  | (false, s) => (false, s)
  | (true, s) =>
    match s.modify p (· ++ bytes) with
    | some s => (true, s)
    | none => (false, s)

/-- Takes away the file that a path leads to. -/
def discard (s : Storage) (p : Path) : Storage :=
  match s.locate p with
  | .ok location => s.remove location
  | .error _ => s

/-- Gives a file new content in one step: the content is written to a file beside it, which then
takes its place. Nothing is left of that file when it cannot. -/
def replace (s : Storage) (path : String) (bytes : List UInt8) : Bool × Storage :=
  let p := Path.ofString path
  match s.makeDirectories p.directories with
  | (false, s) => (false, s)
  | (true, s) =>
    match s.modify p.staging fun _ => bytes with
    | none => (false, s)
    | some staged =>
      let s := staged.discard p.staging
      match s.modify p fun _ => bytes with
      | some s => (true, s)
      | none => (false, s)

end QueryForecast.Storage
