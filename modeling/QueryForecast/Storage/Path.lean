/-!
# Paths

A path is read as the pieces between its slashes. An empty piece and `.` stay where they are, `..`
leads one level up, and any other piece is a name to look up. What a path means depends on what it
leads through, so no piece cancels another before the path is followed.
-/

namespace QueryForecast

/-- A path, as its pieces between the slashes. -/
structure Path where
  /-- Whether the path starts with a slash. -/
  rooted : Bool
  pieces : List String
  deriving DecidableEq, Repr

namespace Path

/-- The pieces of a text between its slashes. -/
def piecesOf (text : List Char) : List String :=
  (text.splitOn '/').map String.ofList

/-- The path that a text denotes. -/
def ofString (text : String) : Path :=
  match text.toList with
  | '/' :: rest => ⟨true, piecesOf rest⟩
  | rest => ⟨false, piecesOf rest⟩

/-- The text that denotes a path. -/
def text (p : Path) : String :=
  (if p.rooted then "/" else "") ++ String.intercalate "/" p.pieces

/-- Whether a piece leads nowhere else. -/
def stays (piece : String) : Bool :=
  piece == "" || piece == "."

/-- The bytes that a path takes, one for its end included. -/
def size (p : Path) : Nat :=
  p.pieces.foldl (fun n piece => n + piece.utf8ByteSize + 1) (if p.rooted then 1 else 0)

/-- The most bytes that a path may take. -/
def maxSize : Nat := 4096

/-- The most bytes that a name may take. -/
def maxNameSize : Nat := 255

/-- Whether a path has no text. -/
def isEmpty (p : Path) : Bool :=
  !p.rooted && p.pieces == [""]

/-- Whether a path can be followed at all: it is not empty, not too long, and has no zero character.
-/
def isUsable (p : Path) : Bool :=
  !p.isEmpty && p.size ≤ maxSize
    && p.pieces.all fun piece => piece.toList.all fun c => c.toNat ≠ 0

/-- The pieces from the last one that leads somewhere back to the first. -/
def backwards (p : Path) : List String :=
  p.pieces.reverse.dropWhile stays

/-- The paths that end in a piece that leads somewhere, the longest first; the pieces are given from
the last to the first. -/
def ancestors (rooted : Bool) : List String → List Path
  | [] => []
  | piece :: rest =>
    if stays piece then ancestors rooted rest
    else ⟨rooted, (piece :: rest).reverse⟩ :: ancestors rooted rest

/-- The paths of the directories that a path leads through, the longest first. -/
def directories (p : Path) : List Path :=
  ancestors p.rooted p.backwards.tail

/-- The path of the file that new content of a file is written to first: its name with `.tmp` at the
end, in the same directory. -/
def staging (p : Path) : Path :=
  match p.backwards with
  | name :: rest =>
    if name = ".." then ⟨p.rooted, p.pieces ++ [".tmp"]⟩
    else ⟨p.rooted, rest.reverse ++ [name ++ ".tmp"]⟩
  | [] => ⟨p.rooted, p.pieces ++ [".tmp"]⟩

end Path

end QueryForecast
