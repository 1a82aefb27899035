import KeosGrader.Ignore
import KeosGrader.Tree

/-! `check_directory_integrity`: walk one directory of the repository with `os.walk`, pruning
subdirectories as the loop body does, compare every remaining file with its counterpart in the
reference template, and report or restore what differs. The digest `get_file_hash` computes is
a parameter: nothing below depends on which function it is. -/

namespace KeosGrader

/-- What `check_directory_integrity` reads besides its arguments: the components of
`get_repository_root()`, the repository's directory tree, and the tree of the reference template
`Path('../../.cargo/template').resolve()`. Both trees are ones a file system can hold. -/
@[ext] structure Checkout where
  root : List String
  work : Node
  template : Node
  workValid : work.valid = true
  templateValid : template.valid = true

/-- `str` of an absolute path given by its components. -/
def rootPath (root : List String) : List Char :=
  root.flatMap fun c => '/' :: c.toList

/-- `str(rel_path)` for the components of a relative path. -/
def relString (rel : List String) : List Char :=
  List.intercalate ['/'] (rel.map String.toList)

/-- A file `os.walk` reports: `str(file_path)`, the components of its path below the scanned
directory, and its bytes. -/
structure Visit where
  path : List Char
  rel : List String
  bytes : List UInt8

/-- The `files` of one `os.walk` triple, in listing order. -/
def filesOf (root : List Char) (rel : List String) (es : List (String × Node)) : List Visit :=
  es.filterMap fun
    | (f, .file b) => some ⟨root ++ '/' :: f.toList, rel ++ [f], b⟩
    | (_, .dir _) => none

mutual
/-- `os.walk` top-down from the directory at absolute path `root`, `rel` below the scanned one,
with the loop body replacing `dirs` by those `keep root d` accepts: the directory's files, then
the walk of each subdirectory kept, in listing order. -/
def walkNode (keep : List Char → String → Bool) (root : List Char) (rel : List String) :
    Node → List Visit
  | .file _ => []
  | .dir es => filesOf root rel es ++ walkEntries keep root rel es
def walkEntries (keep : List Char → String → Bool) (root : List Char) (rel : List String) :
    List (String × Node) → List Visit
  | [] => []
  | (d, n) :: rest =>
    (match n with
     | .dir _ => if keep root d then walkNode keep (root ++ '/' :: d.toList) (rel ++ [d]) n else []
     | .file _ => []) ++ walkEntries keep root rel rest
end

/-- `range(1, current_project_num + 1)`. -/
def stages (currentProjectNum : Int) : List Nat :=
  (List.range currentProjectNum.toNat).map (· + 1)

/-- The stage filter of the loop body: in `keos-projects` at a positive stage a directory
`keos-project<k>` passes when `int` reads a `k` at most the stage, and every other directory
passes. -/
def stageAdmits (directoryName : String) (currentProjectNum : Int) (d : String) : Bool :=
  if directoryName = "keos-projects" ∧ currentProjectNum > 0 ∧ "keos-project".toList <+: d.toList
  then
    match pyInt (replace d.toList "keos-project".toList []) with
    | some k => decide (k ≤ currentProjectNum)
    | none => false
  else true

/-- The `dirs` filter of the loop body: a directory is kept when it is not ignored and the stage
filter admits it. -/
def keepDir (directoryName : String) (currentProjectNum : Int) (root : List Char) (d : String) :
    Bool :=
  !isIgnored (root ++ '/' :: d.toList) && stageAdmits directoryName currentProjectNum d

/-- The whitelist test: some stage's prefix starts the relative path, and the path with every
occurrence of that prefix removed is whitelisted. -/
def isWhitelisted (directoryName : String) (cumulativeWhitelist : List String)
    (currentProjectNum : Int) (projectRelPath : List Char) : Bool :=
  directoryName == "keos-projects" &&
    (stages currentProjectNum).any fun k =>
      let projectPrefix := "keos-project".toList ++ (toString k).toList ++ ['/']
      decide (projectPrefix <+: projectRelPath) &&
        decide (String.mk (replace projectRelPath projectPrefix []) ∈ cumulativeWhitelist)

/-- The exception that escapes the scan: `open` of a reference counterpart that is a
directory raises `IsADirectoryError`, which `get_file_hash` does not catch. -/
inductive Fault where
  | isADirectory (path : List String)
  deriving DecidableEq

/-- One entry of `violations`: `file_path` below the repository root, `rel_path`, and
`original_file` below the template. -/
structure Violation where
  filePath : List String
  relPath : List Char
  originalFile : List String
  deriving DecidableEq

section Scan

variable {Digest : Type} [DecidableEq Digest] (digest : List UInt8 → Digest)

/-- The body of the `for file in files` loop. -/
def inspect (template : Node) (directoryName : String) (cumulativeWhitelist : List String)
    (currentProjectNum : Int) (v : Visit) : Except Fault (Option Violation) :=
  if isIgnored v.path then .ok none
  else if isWhitelisted directoryName cumulativeWhitelist currentProjectNum (relString v.rel) then
    .ok none
  else
    match template.lookup (directoryName :: v.rel) with
    | none => .ok none
    | some (.dir _) => .error (.isADirectory (directoryName :: v.rel))
    | some (.file b) =>
      if digest v.bytes ≠ digest b then
        .ok (some ⟨directoryName :: v.rel, relString v.rel, directoryName :: v.rel⟩)
      else .ok none

/-- The accumulation of the walk loop: `violations.append` for each file in walk order, until
the first exception. -/
def collect (check : Visit → Except Fault (Option Violation)) :
    List Visit → Except Fault (List Violation)
  | [] => .ok []
  | u :: us =>
    match check u with
    | .error f => .error f
    | .ok x => (x.toList ++ ·) <$> collect check us

/-- `CHECKED_DIRECTORIES` of `check_three_directory_integrity`. -/
def checkedDirectories : List String := ["fs", "keos", "keos-projects"]

/-- `check_dir`. -/
def checkDir (root : List String) (directoryName : String) : List Char :=
  rootPath root ++ '/' :: directoryName.toList

/-- The violations `check_directory_integrity` collects, in walk order; `os.walk` of a missing
directory or of a file yields nothing. -/
def scan (co : Checkout) (directoryName : String) (cumulativeWhitelist : List String)
    (currentProjectNum : Int) : Except Fault (List Violation) :=
  match co.work.lookup [directoryName] with
  | some n =>
    collect (inspect digest co.template directoryName cumulativeWhitelist currentProjectNum)
      (walkNode (keepDir directoryName currentProjectNum) (checkDir co.root directoryName) [] n)
  | none => .ok []

end Scan

/-- What one `shutil.copy2` call did: copied, or raised with an error text after leaving the
destination holding `left` (untouched, truncated or partly written). -/
inductive Copy where
  | copied
  | failed (error : String) (left : List UInt8)
  deriving DecidableEq

/-- How `check_directory_integrity` ended. -/
inductive Ending where
  | returned (relPaths : List (List Char))
  | exited (code : Nat)
  | raised (fault : Fault)
  deriving DecidableEq

structure Outcome where
  printed : List String
  work : Node
  ending : Ending

/-- `shutil.copy2(original_file, file_path)` when it succeeds. -/
def copyFile (template : Node) (v : Violation) (work : Node) : Node :=
  match template.lookup v.originalFile with
  | some (.file b) => work.write v.filePath b
  | _ => work

/-- The `for violation in violations` loop: its printed lines, the tree after it, and whether
it ended in `sys.exit(1)`. -/
def handle (copy2 : List String → Copy) (template : Node) (mode : String) :
    Node → List Violation → List String × Node × Bool
  | work, [] => ([], work, false)
  | work, v :: vs =>
    if mode = "warn" then
      let r := handle copy2 template mode work vs
      (("  " ++ String.mk v.relPath ++ " (MODIFIED)") :: r.1, r.2)
    else if mode = "override" then
      match copy2 v.filePath with
      | .copied =>
        let r := handle copy2 template mode (copyFile template v work) vs
        (("  RESTORED: " ++ String.mk v.relPath ++ " (restored)") :: r.1, r.2)
      | .failed e left =>
        (["  ERROR: " ++ String.mk v.relPath ++ " (restore failed: " ++ e ++ ")",
          "ERROR: File restoration failed. Aborting."], work.write v.filePath left, true)
    else handle copy2 template mode work vs

def checkDirectoryIntegrity {Digest : Type} [DecidableEq Digest] (digest : List UInt8 → Digest)
    (co : Checkout) (directoryName : String) (cumulativeWhitelist : List String)
    (currentProjectNum : Int) (mode : String) (copy2 : List String → Copy) : Outcome :=
  match scan digest co directoryName cumulativeWhitelist currentProjectNum with
  | .error f => ⟨[], co.work, .raised f⟩
  | .ok vs =>
    if vs = [] then ⟨[], co.work, .returned []⟩
    else
      let r := handle copy2 co.template mode co.work vs
      ⟨("\n" ++ directoryName ++ "/ - " ++ toString vs.length ++ " violation(s):") :: r.1, r.2.1,
        if r.2.2 then .exited 1 else .returned (vs.map (·.relPath))⟩

/-- A checkout at `root` whose `keos/a.rs` differs from the template's. -/
def driftedAt (root : List String) : Checkout :=
  ⟨root, .dir [("keos", .dir [("a.rs", .file [1])])],
    .dir [("keos", .dir [("a.rs", .file [2])])], by decide, by decide⟩

end KeosGrader
