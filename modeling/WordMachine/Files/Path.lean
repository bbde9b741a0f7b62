import WordMachine.Text.Basic

/-!
# Paths

Names of files, separated by slashes. The operations are on the text of a path alone: `clean` makes
it shortest, `dir` and `base` cut it at its last slash, and `join` puts two parts together again.
-/

namespace WordMachine.Path

open Text (byte)

/-- The name of the current directory. -/
def here : Text := "."

/-- The name of the parent directory. -/
def up : Text := ".."

/-- The root of all directories. -/
def root : Text := "/"

/-- Does the path start at the root, with a slash? -/
def isRooted (path : Text) : Bool :=
  path.head? == some (byte '/')

/-- The names between the slashes of a path; neighbouring slashes have the empty name `[]` between
them. -/
def names (path : Text) : List Text :=
  path.splitOn (byte '/')

/-- Follows `name` from a `place`, which is given by the names that lead to it, the last one first.
The empty name and `here` stay there, `up` leaves it, and the parent of a `rooted` start is the
start. -/
def follow (rooted : Bool) (place : List Text) (name : Text) : List Text :=
  if name.isEmpty || name == here then place
  else if name == up then
    match place with
    | [] => if rooted then [] else [up]
    | last :: rest => if last == up then up :: place else rest
  else name :: place

/-- The shortest path to the same place, if every name of `path` is that of a directory. -/
def clean (path : Text) : Text :=
  let place := (names path).foldl (follow (isRooted path)) []
  let joined := Text.join root place.reverse
  if isRooted path then byte '/' :: joined
  else if joined.isEmpty then here
  else joined

/-- The directory of a path: what stands before its last slash, made shortest. -/
def dir (path : Text) : Text :=
  clean ((path.reverse.dropWhile (· != byte '/')).reverse)

/-- The last name of a path, without the slashes after it; it is `here` for the empty path, and
`root` if there are only slashes. -/
def base (path : Text) : Text :=
  if path.isEmpty then here
  else
    let last := ((path.reverse.dropWhile (· == byte '/')).takeWhile (· != byte '/')).reverse
    if last.isEmpty then root else last

/-- The path to `name` in the directory `dir`, made shortest. -/
def join (dir name : Text) : Text :=
  clean (dir ++ byte '/' :: name)

end WordMachine.Path
