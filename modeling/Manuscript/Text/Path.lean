/-! Slash-separated paths. A clean path has no empty, `.` or inner `..` segments. -/

namespace Manuscript.Path

/-- The parts between slashes. -/
def segments : List Char → List (List Char)
  | [] => [[]]
  | c :: rest =>
    if c = '/' then [] :: segments rest
    else match segments rest with
      | segment :: others => (c :: segment) :: others
      | [] => [[c]]

/-- One step of cleaning; `kept` holds the segments so far, latest first. Above a root there is nothing. -/
def cleanStep (rooted : Bool) (kept : List String) (segment : String) : List String :=
  if segment = "" || segment = "." then kept
  else if segment = ".." then
    match kept with
    | [] => if rooted then [] else [".."]
    | last :: rest => if last = ".." then ".." :: kept else rest
  else segment :: kept

/-- The segments of a clean path, in order. -/
def cleanSegments (path : String) : List String :=
  (((segments path.toList).map String.ofList).foldl (cleanStep (path.toList.head? = some '/')) []).reverse

/-- The shortest equivalent path, by its text alone. -/
def clean (path : String) : String :=
  let joined := "/".intercalate (cleanSegments path)
  if path.toList.head? = some '/' then "/" ++ joined else if joined = "" then "." else joined

/-- Joins two paths; an empty one does not count. -/
def join (first second : String) : String :=
  if first = "" && second = "" then ""
  else if first = "" then clean second
  else if second = "" then clean first
  else clean (first ++ "/" ++ second)

/-- The longest end of a text in which no character satisfies a test. -/
def takeLastWhile (test : Char → Bool) (chars : List Char) : List Char := (chars.reverse.takeWhile test).reverse

/-- All but the last element of a path, clean. -/
def dir (path : String) : String :=
  clean (String.ofList (path.toList.reverse.dropWhile (· ≠ '/')).reverse)

/-- The last element of a path. -/
def base (path : String) : String :=
  if path = "" then "."
  else
    let trimmed := (path.toList.reverse.dropWhile (· = '/')).reverse
    if trimmed.isEmpty then "/" else String.ofList (takeLastWhile (· ≠ '/') trimmed)

/-- The part of the last element from its last point on. -/
def ext (path : String) : String :=
  let last := takeLastWhile (· ≠ '/') path.toList
  if last.contains '.' then String.ofList ('.' :: takeLastWhile (· ≠ '.') last) else ""

/-- A text without an ending, if it has that ending. -/
def dropEnding (text ending : String) : String :=
  if ending.toList.isSuffixOf text.toList then String.ofList (text.toList.take (text.length - ending.length)) else text

/-- A text without a beginning, if it has that beginning. -/
def dropBeginning (text beginning : String) : String :=
  if beginning.toList.isPrefixOf text.toList then String.ofList (text.toList.drop beginning.length) else text

end Manuscript.Path
