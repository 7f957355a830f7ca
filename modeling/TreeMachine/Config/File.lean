import TreeMachine.Config.Format

/-!
# The configuration file

What is around a run, and how the configuration file is found there. It can be named with or without
its extension. A name that is that of a file means this file, and its extension must tell the
format. Otherwise the extensions of all formats are tried in turn, and the first file that is there
counts.

Files are functions from paths to texts here, or to the reason why there is no text
(`Surroundings`). They do not change while a file is looked for. Among the reasons, those that say
that the file is there but cannot be read end the search without a result, while the others let it
go on (`FileError.isFile`).

Before extensions are added, marks at the end of a path that do not matter are taken off, such as a
slash or a single point after a slash. A path that ends in two points has no name that could have an
extension (`stemFrom?`). A name that begins with a point, and has no other, has no extension.
-/

namespace TreeMachine

/-- Why a file cannot be read as text. -/
inductive FileError
  | notFound
  | notDirectory
  | isDirectory
  | nameTooLong
  | denied
  | invalidUtf8
  deriving DecidableEq, Repr

/-- The text of a file error. -/
def FileError.message : FileError → String
  | .notFound => "No such file or directory (os error 2)"
  | .denied => "Permission denied (os error 13)"
  | .notDirectory => "Not a directory (os error 20)"
  | .isDirectory => "Is a directory (os error 21)"
  | .nameTooLong => "File name too long (os error 36)"
  | .invalidUtf8 => "stream did not contain valid UTF-8"

/-- Whether there is a file although it cannot be read. -/
def FileError.isFile : FileError → Bool
  | .denied | .invalidUtf8 => true
  | .notFound | .notDirectory | .isDirectory | .nameTooLong => false

/-- What is around a run: the files and the environment variables. -/
structure Surroundings where
  contents : String → Except FileError String
  environment : List (String × String)

/-! ### Names -/

/-- The part of a path before its last component, and this component. -/
def splitPath (path : List Char) : List Char × List Char :=
  let last := (path.reverse.takeWhile (· != '/')).reverse
  (path.take (path.length - last.length), last)

/-- The extension of a file name: what follows its last point, which must not be the first
character. -/
def extension? (name : List Char) : Option (List Char) :=
  match name.reverse.span (· != '.') with
  | (rev, _ :: _ :: _) => some rev.reverse
  | _ => none

/-- The format that the name of a file tells. -/
def Format.ofPath? (path : String) : Option Format :=
  (extension? (splitPath path.toList).2).bind fun e => Format.extensions.lookup (.ofList e)

/-- A path without the marks at its end that do not matter for which file it means, if it ends in
the name of a file then. Characters are last first. -/
def stemFrom? : List Char → Option (List Char)
  | '/' :: rev => stemFrom? rev
  | '.' :: '/' :: rev => stemFrom? ('/' :: rev)
  | rev =>
    let name := rev.takeWhile (· != '/')
    if name ∈ [[], ['.'], ['.', '.']] then none else some rev

/-- The paths at which a file is looked for when there is none at a given path: with the extension
of each format. -/
def candidates (path : String) : List (String × Format) :=
  match stemFrom? path.toList.reverse with
  | some rev => Format.extensions.map fun e => (.ofList rev.reverse ++ "." ++ e.1, e.2)
  | none => []

/-! ### Finding the file -/

/-- The first file among candidates, if it can be read. -/
def findCandidate (around : Surroundings) : List (String × Format) → Option (Format × String)
  | [] => none
  | (path, format) :: rest =>
    match around.contents path with
    | .ok text => some (format, text)
    | .error e => if e.isFile then none else findCandidate around rest

/-- The format and the text of the file that a path means. -/
def findFile (around : Surroundings) (path : String) : Option (Format × String) :=
  match around.contents path with
  | .ok text => (Format.ofPath? path).map fun format => (format, text)
  | .error e => if e.isFile then none else findCandidate around (candidates path)

end TreeMachine
