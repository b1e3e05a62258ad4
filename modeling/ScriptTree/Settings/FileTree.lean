import ScriptTree.Settings.Path

namespace ScriptTree

/-- The names from the top directory down to a file or directory. -/
abbrev Location := List Text

/-- The tree is given by what was made in it, in order. Above the top directory, and along paths that
start at the root of all directories, nothing is known but that every directory has one above it and
none holds settings. -/
structure FileTree where
  directories : List Location
  /-- The files with their contents; of two at one location the first counts. -/
  files : List (Location × Text)
  top : Text

namespace FileTree

def file? (t : FileTree) (l : Location) : Option Text :=
  (t.files.find? fun f => f.1 = l).map Prod.snd

def isDirectory (t : FileTree) (l : Location) : Bool :=
  l.isEmpty || (t.directories.any fun d => l.isPrefixOf d) ||
    (t.files.any fun f => l.isPrefixOf f.1 && l ≠ f.1)

/-- The location that a path leads to when every name on it is made a directory on the way, and
these directories. A path that leads above the top makes nothing further. -/
def madeAlong (l : Location) : List Text → Location × List Location
  | [] => (l, [])
  | name :: names =>
    if Path.isStay name then madeAlong l names
    else if Path.isBack name then if l.isEmpty then (l, []) else madeAlong l.dropLast names
    else
      let next := l ++ [name]
      let (last, made) := madeAlong next names
      (last, next :: made)

def makeDirectory (t : FileTree) (path : Text) : FileTree :=
  { t with directories := t.directories ++ (madeAlong [] (Path.parts path)).2 }

def writeFile (t : FileTree) (path contents : Text) : FileTree :=
  let names := Path.parts path
  let (above, made) := madeAlong [] names.dropLast
  let location := above ++ names.getLast?.toList
  { t with
    directories := t.directories ++ made
    files := (location, contents) :: t.files }

def ofPaths (directories : List Text) (files : List (Text × Text)) (top : Text) : FileTree :=
  files.foldl (fun t f => t.writeFile f.1 f.2) (directories.foldl makeDirectory ⟨[], [], top⟩)

theorem file?_writeFile (t : FileTree) (name contents : Text) (h : '/' ∉ name) :
    (t.writeFile name contents).file? [name] = some contents := by
  simp [writeFile, Path.parts_of_not_mem h, madeAlong, file?]

/-- Where the way along a path has come to: below the top, or where nothing more is known. -/
inductive Place
  | below (l : Location)
  | outside
  deriving DecidableEq

/-- One step along a path; only a directory can be left. -/
def step? (t : FileTree) (p : Place) (name : Text) : Option Place :=
  match p with
  | .outside => if Path.isBack name || Path.isStay name then some .outside else none
  | .below l =>
    if !t.isDirectory l then none
    else if Path.isStay name then some (.below l)
    else if Path.isBack name then some (if l.isEmpty then .outside else .below l.dropLast)
    else
      let next := l ++ [name]
      if t.isDirectory next || (t.file? next).isSome then some (.below next) else none

def resolve? (t : FileTree) (path : Text) : Option Place :=
  let start : Place := if Path.isAbsolute path then .outside else .below []
  (Path.parts path).foldlM t.step? start

/-- The path as it is shown: from the top directory, unless it starts at the root. -/
def shown (t : FileTree) (path : Text) : Text :=
  if Path.isAbsolute path then path else t.top ++ '/' :: path

def shownLocation (t : FileTree) (l : Location) : Text :=
  t.top ++ l.flatMap fun name => '/' :: name

end FileTree

end ScriptTree
