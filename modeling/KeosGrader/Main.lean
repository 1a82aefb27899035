import KeosGrader.Compliance
import KeosGrader.Summary
import KeosGrader.Command

/-! `main` and the run it starts: the checks on the arguments, the working directory and running
emulators, then the dispatch on the first argument to the pre-check and batch grading, to
interactive grading on project 5, or to a boot of the kernel. Preparing the boot image, the
signal handler and reading `.grade-target` are left out. -/

namespace KeosGrader

/-- `current_path.split('/')[-2]`, the name of the project directory. -/
def parentName (currentPath : List Char) : Option (List Char) :=
  (currentPath.splitOn '/').reverse[1]?

/-- `int(current_path.split('/')[-2][-1])`: the last character of that name, read as a number;
`none` is the `IndexError` or `ValueError` it raises. -/
def projectDigit (currentPath : List Char) : Option Int := do
  let parent ← parentName currentPath
  let c ← parent.getLast?
  pyInt [c]

/-- How `main` ends, or what it hands over to: an exception, a `sys.exit` after the lines it
prints, or one of the three runs, with the project number, the filter or the kernel arguments, and
whether `GDB` set up a debugging session. -/
inductive Dispatch where
  | crashed
  | exited (lines : List String) (code : Nat)
  | grade (pj : Int)
  | gradeLive (pj : Int) (filt : List String) (debug : Bool)
  | run (pj : Int) (kernelArgs : String) (debug : Bool)
  deriving DecidableEq

def usageLines : List String := ["Usage: cargo [run|grade] [test-arg]"]

def wrongDirectoryLines : List String :=
  ["\n\x1b[46m\x1b[1;93mPlease run a grader on each grader's own directory.\x1b[0m\n",
    "e.g. keos-project1/grader (O)", "     keos-project1/grader/src (X)",
    "     keos-project1 (X)\n"]

/-- The report of running emulators; its plural endings are those of the source, which puts them
on the case of a single process. -/
def qemuLines (pids : List Nat) : List String :=
  ("\nError: \x1b[46m\x1b[1;93mRunning instance" ++ (if pids.length = 1 then "s" else "") ++
      " of QEMU\x1b[0m is detected:") ::
    pids.map (fun pid => " - " ++ toString pid) ++
    ["Please stop above process" ++ (if pids.length = 1 then "es" else "") ++
      " before running the grader."]

def gdbLines : List String :=
  ["Error: You can only use the GDB when running a single test. Please provide the test's name."]

/-- `main`, with `argv` for `sys.argv`, `currentPath` for `os.path.realpath('.')`, `qemuPids` for
what `find_qemu_pids` returns and `gdb` for whether `GDB` is in the environment. -/
def main (argv : List String) (currentPath : List Char) (qemuPids : List Nat) (gdb : Bool) :
    Dispatch :=
  if argv.length < 2 then .exited usageLines 1
  else if ¬ "grader".toList <:+: currentPath.drop (currentPath.length - 8) then
    .exited wrongDirectoryLines 1
  else if qemuPids ≠ [] then .exited (qemuLines qemuPids) 1
  else
    match projectDigit currentPath with
    | none => .crashed
    | some pj =>
      let mode := (argv.drop 2).headD "run"
      let filt := if mode ≠ "grade" then argv.drop 2 else []
      if gdb ∧ filt = [] then .exited gdbLines 1
      else if mode = "grade" then .grade pj
      else if pj = 5 then .gradeLive pj filt gdb
      else .run pj (" ".intercalate (argv.drop 2)) gdb

/-- What a run of `run.py` amounts to: stopped before any grading; the pre-check, with the summary
of the results when grading went on; the results of interactive grading; or a boot of the kernel. -/
inductive Session where
  | stopped (d : Dispatch)
  | graded (check : Compliance) (summary : Option (Except String Report))
  | gradedLive (results : Option (List (String × List (String × (Bool × List Char)))))
  | booted (kernelArgs : String)

section Session

variable {Digest : Type} [DecidableEq Digest] (digest : List UInt8 → Digest)
  (projectWhitelist : Nat → List String) (co : Checkout) (keosFileCheck : Option String)
  (freshness : Freshness) (copy2 : List String → Copy) (b : Behaviour)
  (rubrics : List (String × Rubric))

/-- A run of `run.py`, from loading it to the end of what `main` hands over to. -/
def session (argv : List String) (currentPath : List Char) (qemuPids : List Nat) (gdb : Bool) :
    Session :=
  if argv.length < 2 then .stopped .crashed
  else
    match main argv currentPath qemuPids gdb with
    | .grade _ =>
      let c := checkWhitelistCompliance digest projectWhitelist co keosFileCheck
        (String.mk ((parentName currentPath).getD [])) freshness copy2
      .graded c (if c.ending.continues then (grade b none rubrics).map (summarize rubrics) else none)
    | .gradeLive _ filt _ => .gradedLive (grade b (some filt) rubrics)
    | .run _ kernelArgs _ => .booted kernelArgs
    | .crashed => .stopped .crashed
    | .exited lines code => .stopped (.exited lines code)

theorem length_ge_two (script kernel : String) (args : List String) :
    ¬ (script :: kernel :: args).length < 2 := by
  simp

variable {currentPath : List Char} {pj : Int}
  (hdir : "grader".toList <:+: currentPath.drop (currentPath.length - 8))
  (hpj : projectDigit currentPath = some pj)
include hdir hpj

/-- Past its checks, `main` dispatches on the arguments after the kernel image. -/
theorem main_dispatch (script kernel : String) (args : List String) (gdb : Bool) :
    main (script :: kernel :: args) currentPath [] gdb =
      if gdb ∧ (if args.headD "run" ≠ "grade" then args else []) = [] then .exited gdbLines 1
      else if args.headD "run" = "grade" then .grade pj
      else if pj = 5 then .gradeLive pj (if args.headD "run" ≠ "grade" then args else []) gdb
      else .run pj (" ".intercalate args) gdb := by
  rw [main, if_neg (by simp), if_neg (not_not.mpr hdir), if_neg (not_not.mpr rfl), hpj]
  rfl

/-- The first argument `grade` runs the pre-check and, when it returns, grades every test of every
rubric in batch mode and summarizes the results, whatever test names follow; with `GDB` set the
run is refused. -/
theorem session_grade (script kernel : String) (names : List String) :
    session digest projectWhitelist co keosFileCheck freshness copy2 b rubrics
        (script :: kernel :: "grade" :: names) currentPath [] false =
      .graded (checkWhitelistCompliance digest projectWhitelist co keosFileCheck
          (String.mk ((parentName currentPath).getD [])) freshness copy2)
        (if (checkWhitelistCompliance digest projectWhitelist co keosFileCheck
            (String.mk ((parentName currentPath).getD [])) freshness copy2).ending.continues then
          some (summarize rubrics (batchResults b rubrics))
        else none) ∧
    session digest projectWhitelist co keosFileCheck freshness copy2 b rubrics
        (script :: kernel :: "grade" :: names) currentPath [] true = .stopped (.exited gdbLines 1) := by
  refine ⟨?_, ?_⟩ <;> rw [session, if_neg (length_ge_two _ _ _), main_dispatch hdir hpj] <;>
    simp [grade_batch_results]

/-- Any other first argument, or none, grades interactively on project 5 and nowhere else. There
the arguments are the filter: the tests they name run, live and in order, every test when there is
no argument, and the run returns nothing after the first whose output, the text kept after the
last clear-screen line once its emulator exits, holds `panic`. On every other project the kernel
boots once, with the arguments. -/
theorem session_interactive (script kernel : String) (args : List String) {gdb : Bool}
    (hmode : args.head? ≠ some "grade") (hgdb : gdb = true → args ≠ []) :
    session digest projectWhitelist co keosFileCheck freshness copy2 b rubrics
        (script :: kernel :: args) currentPath [] gdb =
      if pj = 5 then
        .gradedLive (if PanicIn b args rubrics then none else some (liveResults b args rubrics))
      else .booted (" ".intercalate args) := by
  have hrun : args.headD "run" ≠ "grade" := by
    cases args with
    | nil => decide
    | cons a rest => simpa using hmode
  have hfilt : ¬ (gdb = true ∧ args = []) := fun h => hgdb h.1 h.2
  rw [session, if_neg (length_ge_two _ _ _), main_dispatch hdir hpj, if_pos hrun, if_neg hfilt,
    if_neg hrun]
  by_cases h5 : pj = 5 <;> simp [h5, grade_filtered]

end Session

/-- A run whose emulator never finishes and prints nothing. -/
def silentRun : Behaviour :=
  ⟨fun _ _ _ => .timedOut, fun _ _ _ => [], fun _ _ _ _ => .timedOut⟩

/-- The rubric of two tests. -/
def twoTests : List (String × Rubric) :=
  [("core", ⟨10, [("t1", ⟨none, none, none, none⟩), ("t2", ⟨none, none, none, none⟩)]⟩)]

theorem session_grade_names :
    ("grader".toList <:+: "/home/u/keos-project5/grader".toList.drop
        ("/home/u/keos-project5/grader".toList.length - 8) ∧
      projectDigit "/home/u/keos-project5/grader".toList = some 5) ∧
    (session id (fun _ => []) (driftedAt ["home"]) none .fresh (fun _ => .copied) silentRun twoTests
        ["run.py", "kernel", "grade", "t1"] "/home/u/keos-project5/grader".toList [] false =
      .graded (checkWhitelistCompliance id (fun _ => []) (driftedAt ["home"]) none
          (String.mk ((parentName "/home/u/keos-project5/grader".toList).getD [])) .fresh
          (fun _ => .copied))
        (if (checkWhitelistCompliance id (fun _ => []) (driftedAt ["home"]) none
            (String.mk ((parentName "/home/u/keos-project5/grader".toList).getD [])) .fresh
            (fun _ => .copied)).ending.continues then
          some (summarize twoTests (batchResults silentRun twoTests))
        else none) ∧
    session id (fun _ => []) (driftedAt ["home"]) none .fresh (fun _ => .copied) silentRun twoTests
        ["run.py", "kernel", "grade", "t1"] "/home/u/keos-project5/grader".toList [] true =
      .stopped (.exited gdbLines 1)) :=
  ⟨⟨by decide, by decide⟩, session_grade id (fun _ => []) (driftedAt ["home"]) none .fresh
    (fun _ => .copied) silentRun twoTests (by decide)
    (show projectDigit "/home/u/keos-project5/grader".toList = some 5 by decide) "run.py" "kernel"
    ["t1"]⟩

/-- An emulator whose console shows `panic`, then a clear-screen line, then `ok`. -/
def panicThenReset : Behaviour :=
  ⟨fun _ _ _ => .timedOut,
    fun _ _ _ => lines ("panic\n\x1bc\nok\n".toList.map fun c => c.toNat.toUInt8),
    fun _ _ _ _ => .timedOut⟩

theorem session_interactive_panic_before_reset :
    (("grader".toList <:+: "/home/u/keos-project5/grader".toList.drop
        ("/home/u/keos-project5/grader".toList.length - 8) ∧
      projectDigit "/home/u/keos-project5/grader".toList = some 5) ∧
      ["t1"].head? ≠ some "grade" ∧ (false = true → ["t1"] ≠ [])) ∧
    session id (fun _ => []) (driftedAt ["home"]) none .fresh (fun _ => .copied) panicThenReset
        twoTests ["run.py", "kernel", "t1"] "/home/u/keos-project5/grader".toList [] false =
      (if (5 : Int) = 5 then
        .gradedLive (if PanicIn panicThenReset ["t1"] twoTests then none
          else some (liveResults panicThenReset ["t1"] twoTests))
      else .booted (" ".intercalate ["t1"])) ∧
    "panic".toList.map (fun c => c.toNat.toUInt8) <:+:
        (liveLoop (panicThenReset.live "core" "t1"
          (invocation "t1" ⟨none, none, none, none⟩))).console ∧
      ¬ PanicIn panicThenReset ["t1"] twoTests :=
  ⟨⟨⟨by decide, by decide⟩, by decide, by decide⟩,
    session_interactive id (fun _ => []) (driftedAt ["home"]) none .fresh (fun _ => .copied)
      panicThenReset twoTests (by decide) (by decide) "run.py" "kernel" ["t1"] (by decide)
      (by decide),
    by decide, by decide⟩

end KeosGrader
