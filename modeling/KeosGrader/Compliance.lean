import Mathlib
import KeosGrader.Integrity

/-! `check_whitelist_compliance`, the integrity pre-check of `grade`, and
`ensure_template_freshness`. The pre-check lists every stage's whitelist, runs the three directory
checks, and closes with the number of violations: a prompt in `warn` mode, and in every other mode
a count of files restored, whether or not they were. -/

namespace KeosGrader

/-- `int(project_name.split('project')[1])`; `none` is the `IndexError` or `ValueError` the call
catches. -/
def projectNumber (projectName : List Char) : Option Int :=
  (split projectName "project".toList)[1]? >>= pyInt

/-- The whitelist listing: each stage up to `n` with a nonempty whitelist, in order, with its files
sorted. -/
def whitelistListing (projectWhitelist : Nat → List String) (n : Int) : List String :=
  match (stages n).filter fun k => !(projectWhitelist k).isEmpty with
  | [] => []
  | details => "Whitelisted Files:" :: details.flatMap fun k =>
    ("  Project " ++ toString k ++ ":") ::
      ((projectWhitelist k).insertionSort (· ≤ ·)).map fun file => "    - " ++ file

/-- What `ensure_template_freshness` met: a missing template, a template that is not a git
repository, a git command that failed or another exception, with its text; or success, after
which the template is the checkout's. -/
inductive Freshness where
  | missing
  | notGit
  | gitFailed (error : String)
  | unexpected (error : String)
  | fresh
  deriving DecidableEq

/-- The line `ensure_template_freshness` prints before its `sys.exit(1)`. -/
def Freshness.error : Freshness → Option String
  | .missing => some "ERROR: Template directory does not exist"
  | .notGit => some "ERROR: Template directory is not a git repository"
  | .gitFailed e => some ("ERROR: Failed to update template repository: " ++ e)
  | .unexpected e => some ("ERROR: Unexpected error updating template: " ++ e)
  | .fresh => none

/-- How one `subprocess.run(..., check=True)` in the template ended: with its return code, or in
an exception before the command ran (no `git` on the path), with its text. -/
inductive CommandRun where
  | returned (code : Int)
  | raised (error : String)
  deriving DecidableEq

/-- `repr` of a list of strings that hold no quote and no backslash. -/
def pyListRepr (xs : List String) : String :=
  "[" ++ ", ".intercalate (xs.map fun x => "'" ++ x ++ "'") ++ "]"

/-- `str(e)` of the `CalledProcessError` of `cmd` with the nonzero return code `code`;
`signalName k` is `repr(signal.Signals(k))` when `k` names a signal. -/
def calledProcessErrorText (signalName : Nat → Option String) (cmd : List String) (code : Int) :
    String :=
  if code < 0 then
    match signalName code.natAbs with
    | some s => "Command '" ++ pyListRepr cmd ++ "' died with " ++ s ++ "."
    | none =>
      "Command '" ++ pyListRepr cmd ++ "' died with unknown signal " ++ toString code.natAbs ++ "."
  else "Command '" ++ pyListRepr cmd ++ "' returned non-zero exit status " ++ toString code ++ "."

/-- The commands `ensure_template_freshness` runs in the template, in order. -/
def templateCommands : List (List String) :=
  [["git", "reset", "--hard", "HEAD"], ["git", "clean", "-fd"], ["git", "fetch", "origin"],
    ["git", "reset", "--hard", "origin/main"]]

/-- The commands of the `try` block from `cmds` on: the first that does not return 0 ends it. -/
def refreshTemplate (signalName : Nat → Option String) (git : List String → CommandRun) :
    List (List String) → Freshness
  | [] => .fresh
  | cmd :: rest =>
    match git cmd with
    | .returned 0 => refreshTemplate signalName git rest
    | .returned code => .gitFailed (calledProcessErrorText signalName cmd code)
    | .raised e => .unexpected e

/-- `ensure_template_freshness`, from whether the template and its `.git` exist, the error text
of the `getcwd` and `chdir` into the template and of the `chdir` back, if they fail, and the runs
of the commands. -/
def ensureTemplateFreshness (templateExists gitExists : Bool) (chdirIn chdirBack : Option String)
    (signalName : Nat → Option String) (git : List String → CommandRun) : Freshness :=
  if ¬ templateExists then .missing
  else if ¬ gitExists then .notGit
  else
    match chdirIn with
    | some e => .unexpected e
    | none =>
      match refreshTemplate signalName git templateCommands with
      | .fresh => match chdirBack with
        | some e => .unexpected e
        | none => .fresh
      | r => r

/-- The commands succeed in order up to the first that fails, which names the outcome: a
nonzero return code its `CalledProcessError` text, an exception its own text. -/
theorem refreshTemplate_spec (signalName : Nat → Option String) (git : List String → CommandRun) :
    ∀ cmds : List (List String),
      (refreshTemplate signalName git cmds = .fresh ↔ ∀ cmd ∈ cmds, git cmd = .returned 0) ∧
      ∀ e, (refreshTemplate signalName git cmds = .gitFailed e ∨
          refreshTemplate signalName git cmds = .unexpected e) →
        ∃ pre cmd post, cmds = pre ++ cmd :: post ∧ (∀ c ∈ pre, git c = .returned 0) ∧
          ((∃ code, code ≠ 0 ∧ git cmd = .returned code ∧
              refreshTemplate signalName git cmds = .gitFailed
                (calledProcessErrorText signalName cmd code)) ∨
            (git cmd = .raised e ∧ refreshTemplate signalName git cmds = .unexpected e))
  | [] => ⟨by simp [refreshTemplate], fun e h => by simp [refreshTemplate] at h⟩
  | cmd :: rest => by
    obtain ⟨ihf, ihe⟩ := refreshTemplate_spec signalName git rest
    cases hg : git cmd with
    | returned code =>
      by_cases hc : code = 0
      · subst hc
        simp only [refreshTemplate, hg, List.forall_mem_cons, true_and, ihf]
        intro e h
        obtain ⟨pre, c, post, rfl, hpre, hc⟩ := ihe e h
        exact ⟨cmd :: pre, c, post, rfl, List.forall_mem_cons.mpr ⟨hg, hpre⟩, hc⟩
      · have hr : refreshTemplate signalName git (cmd :: rest) =
            .gitFailed (calledProcessErrorText signalName cmd code) := by
          simp only [refreshTemplate, hg]
        rw [hr]
        refine ⟨by simp [hg, hc], fun e _ => ⟨[], cmd, rest, rfl, by simp, .inl ⟨code, hc, hg, rfl⟩⟩⟩
    | raised err =>
      simp only [refreshTemplate, hg]
      refine ⟨by simp [hg], fun e h => ?_⟩
      simp only [reduceCtorEq, Freshness.unexpected.injEq, false_or] at h
      subst h
      exact ⟨[], cmd, rest, rfl, by simp, .inr ⟨hg, rfl⟩⟩

theorem ensureTemplateFreshness_eq_fresh {templateExists gitExists : Bool}
    {chdirIn chdirBack : Option String} {signalName : Nat → Option String}
    {git : List String → CommandRun} :
    ensureTemplateFreshness templateExists gitExists chdirIn chdirBack signalName git = .fresh ↔
      templateExists = true ∧ gitExists = true ∧ chdirIn = none ∧ chdirBack = none ∧
        refreshTemplate signalName git templateCommands = .fresh := by
  unfold ensureTemplateFreshness
  cases templateExists <;> cases gitExists <;> cases chdirIn <;>
    simp only [Bool.false_eq_true, not_false_eq_true, not_true_eq_false, if_true, if_false,
      reduceCtorEq, false_and, and_false, true_and]
  cases refreshTemplate signalName git templateCommands <;> cases chdirBack <;> simp

theorem refreshTemplate_of_gitFailed {templateExists gitExists : Bool}
    {chdirIn chdirBack : Option String} {signalName : Nat → Option String}
    {git : List String → CommandRun} {e : String}
    (h : ensureTemplateFreshness templateExists gitExists chdirIn chdirBack signalName git =
      .gitFailed e) :
    refreshTemplate signalName git templateCommands = .gitFailed e := by
  unfold ensureTemplateFreshness at h
  split_ifs at h
  cases chdirIn with
  | some err => cases h
  | none =>
    revert h
    cases refreshTemplate signalName git templateCommands <;> cases chdirBack <;> simp

/-- The template counts as fresh exactly when it is a git repository the script can enter and
leave and all four commands return 0. A git failure is reported with the `CalledProcessError`
text of the first command that returned nonzero, after every command before it succeeded. -/
theorem ensureTemplateFreshness_spec (templateExists gitExists : Bool)
    (chdirIn chdirBack : Option String) (signalName : Nat → Option String)
    (git : List String → CommandRun) :
    (ensureTemplateFreshness templateExists gitExists chdirIn chdirBack signalName git = .fresh ↔
      templateExists = true ∧ gitExists = true ∧ chdirIn = none ∧ chdirBack = none ∧
        ∀ cmd ∈ templateCommands, git cmd = .returned 0) ∧
    ∀ e, ensureTemplateFreshness templateExists gitExists chdirIn chdirBack signalName git =
        .gitFailed e →
      ∃ pre cmd post code, templateCommands = pre ++ cmd :: post ∧
        (∀ c ∈ pre, git c = .returned 0) ∧ code ≠ 0 ∧ git cmd = .returned code ∧
        e = calledProcessErrorText signalName cmd code := by
  obtain ⟨hfresh, hfail⟩ := refreshTemplate_spec signalName git templateCommands
  refine ⟨by rw [ensureTemplateFreshness_eq_fresh, hfresh], fun e he => ?_⟩
  have hr := refreshTemplate_of_gitFailed he
  obtain ⟨pre, cmd, post, hsplit, hpre, ⟨code, hc, hg, hcode⟩ | ⟨-, hbad⟩⟩ := hfail e (.inl hr)
  · rw [hr, Freshness.gitFailed.injEq] at hcode
    exact ⟨pre, cmd, post, code, hsplit, hpre, hc, hg, hcode⟩
  · rw [hr] at hbad
    cases hbad

/-- How `check_whitelist_compliance` ended: returning, after asking the operator to confirm or
not; in a `sys.exit`; or in the exception of a scan, which nothing catches. -/
inductive ComplianceEnding where
  | returned (prompted : Bool)
  | exited (code : Nat)
  | raised (fault : Fault)
  deriving DecidableEq

/-- Whether grading goes on after the pre-check. -/
def ComplianceEnding.continues : ComplianceEnding → Bool
  | .returned _ => true
  | _ => false

structure Compliance where
  printed : List String
  work : Node
  ending : ComplianceEnding

/-- The closing lines for `total_violations`: none when it is zero; otherwise, in `warn` mode, the
count and the prompt of `input`, and in every other mode a count of files restored. -/
def closingLines (mode : String) (total : Nat) : List String :=
  if total = 0 then []
  else "----------------" ::
    if mode = "warn" then
      ["\nTotal " ++ toString total ++ " violation(s) found:",
        "   These modifications will be ignored during official grading",
        "[*] Type enter to continue:"]
    else ["\n" ++ toString total ++ " file(s) restored to original versions"]

section Compliance

variable {Digest : Type} [DecidableEq Digest] (digest : List UInt8 → Digest)
  (projectWhitelist : Nat → List String)

/-- `check_whitelist_compliance`, with `keosFileCheck` the value of `KEOS_FILE_CHECK` when it is
set and `projectName` the name of the project directory. Its argument `whitelist` is unused: the
whitelist is rebuilt from every stage's configuration. -/
def checkWhitelistCompliance (co : Checkout) (keosFileCheck : Option String) (projectName : String)
    (freshness : Freshness) (copy2 : List String → Copy) : Compliance :=
  let mode := keosFileCheck.getD "warn"
  if ¬ "keos-project".toList <+: projectName.toList then
    ⟨["ERROR: Invalid project directory: " ++ projectName], co.work, .exited 1⟩
  else
    match projectNumber projectName.toList with
    | none => ⟨["ERROR: Cannot parse project number from " ++ projectName], co.work, .exited 1⟩
    | some n =>
      let listing := whitelistListing projectWhitelist n
      match freshness.error with
      | some e => ⟨listing ++ [e], co.work, .exited 1⟩
      | none =>
        let c := checkThreeDirectoryIntegrity digest (buildCumulativeWhitelist projectWhitelist n) n
          co mode copy2
        match c.ending with
        | .returned allViolations =>
          let total := (allViolations.map fun e => e.2.length).sum
          ⟨listing ++ c.printed ++ closingLines mode total, c.work,
            .returned (decide (mode = "warn" ∧ total ≠ 0))⟩
        | .exited code => ⟨listing ++ c.printed, c.work, .exited code⟩
        | .raised f => ⟨listing ++ c.printed, c.work, .raised f⟩

theorem sum_entries (vss : String → List Violation) (ds : List String) :
    ((ds.filterMap fun d => if vss d = [] then none else some (d, (vss d).map (·.relPath))).map
      fun e => e.2.length).sum = (ds.map fun d => (vss d).length).sum := by
  induction ds with
  | nil => rfl
  | cons d ds ih => by_cases h : vss d = [] <;> simp [h, ih]

end Compliance

/-- The violations of `driftedAt`, by directory. -/
def driftedViolations (d : String) : List Violation :=
  if d = "keos" then [⟨["keos", "a.rs"], "a.rs".toList, ["keos", "a.rs"]⟩] else []

theorem scans_driftedViolations :
    ∀ d ∈ checkedDirectories, scan id (driftedAt ["home"]) d
      (scanArgs (buildCumulativeWhitelist (fun _ => []) 1) 1 d).1
      (scanArgs (buildCumulativeWhitelist (fun _ => []) 1) 1 d).2 = .ok (driftedViolations d) := by
  intro d hd
  simp only [checkedDirectories, List.mem_cons, List.mem_singleton, List.not_mem_nil,
    or_false] at hd
  rcases hd with rfl | rfl | rfl <;> rfl

end KeosGrader
