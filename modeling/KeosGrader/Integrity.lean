import Mathlib.Data.List.Dedup
import KeosGrader.Restore

/-! What `check_directory_integrity` reports, file by file, and the driver around it:
`build_cumulative_whitelist` and `check_three_directory_integrity`. The walk applies the stage
filter to every directory it meets, nested ones included, and the whitelist test removes the
stage prefix wherever it occurs in the relative path. -/

namespace KeosGrader

section Verdict

variable {Digest : Type} [DecidableEq Digest] (digest : List UInt8 → Digest) (co : Checkout)
  (directoryName : String) (cumulativeWhitelist : List String) (currentProjectNum : Int)

/-- The file at `xs` below `directoryName` is one the scan compares: every directory on its path
passes the `dirs` filter, and neither `is_ignored` nor the whitelist passes over the file. -/
def Compared (xs : List String) : Prop :=
  xs ≠ [] ∧ (co.work.bytesAt (directoryName :: xs)).isSome ∧
    keptAlong (keepDir directoryName currentProjectNum) (checkDir co.root directoryName) xs ∧
    isIgnored (checkDir co.root directoryName ++ rootPath xs) = false ∧
    isWhitelisted directoryName cumulativeWhitelist currentProjectNum (relString xs) = false

/-- A compared file whose counterpart in the template is a regular file of another digest. -/
def Drifted (xs : List String) : Prop :=
  Compared co directoryName cumulativeWhitelist currentProjectNum xs ∧
    ∃ b b', co.work.bytesAt (directoryName :: xs) = some b ∧
      co.template.bytesAt (directoryName :: xs) = some b' ∧ digest b ≠ digest b'

/-- The entry of `violations` for the file at `xs`. -/
def violationAt (xs : List String) : Violation :=
  ⟨directoryName :: xs, relString xs, directoryName :: xs⟩

variable {co directoryName cumulativeWhitelist currentProjectNum}

theorem inspect_eq_ok_some (template : Node) {u : Visit} {v : Violation} :
    inspect digest template directoryName cumulativeWhitelist currentProjectNum u = .ok (some v) ↔
      isIgnored u.path = false ∧
      isWhitelisted directoryName cumulativeWhitelist currentProjectNum (relString u.rel) = false ∧
      (∃ b', template.bytesAt (directoryName :: u.rel) = some b' ∧ digest u.bytes ≠ digest b') ∧
      v = violationAt directoryName u.rel := by
  unfold inspect
  cases isIgnored u.path <;>
    cases isWhitelisted directoryName cumulativeWhitelist currentProjectNum (relString u.rel) <;>
    simp only [Bool.false_eq_true, if_false, if_true, Except.ok.injEq, reduceCtorEq, false_and,
      true_and, and_false]
  cases hl : template.lookup (directoryName :: u.rel) with
  | none => simp [Node.bytesAt, hl]
  | some n =>
    cases n with
    | dir _ => simp [Node.bytesAt, hl]
    | file b =>
      by_cases hd : digest u.bytes = digest b
      · simp [Node.bytesAt, hl, hd]
      · simp only [Node.bytesAt, hl, ne_eq, hd, not_false_eq_true, if_true, Except.ok.injEq,
          Option.some.injEq, Option.some_inj, exists_eq_left', true_and, violationAt]
        exact eq_comm

theorem inspect_isOk (template : Node) (u : Visit) :
    (∃ x, inspect digest template directoryName cumulativeWhitelist currentProjectNum u = .ok x) ↔
      ¬ (isIgnored u.path = false ∧
        isWhitelisted directoryName cumulativeWhitelist currentProjectNum (relString u.rel) = false ∧
        ∃ cs, template.lookup (directoryName :: u.rel) = some (.dir cs)) := by
  unfold inspect
  cases isIgnored u.path <;>
    cases isWhitelisted directoryName cumulativeWhitelist currentProjectNum (relString u.rel) <;>
    simp only [Bool.false_eq_true, Bool.true_eq_false, if_false, if_true, false_and, true_and,
      and_false, not_false_eq_true, iff_true]
  · cases hl : template.lookup (directoryName :: u.rel) with
    | none => simp
    | some n =>
      cases n with
      | dir _ => simp
      | file b => by_cases hd : digest u.bytes = digest b <;> simp [hd]
  all_goals exact ⟨none, rfl⟩

theorem bytesAt_of_lookup_none {work : Node} {d : String} (h : work.lookup [d] = none)
    (r : List String) : work.bytesAt (d :: r) = none := by
  cases work with
  | file f => rfl
  | dir es =>
    have hl : es.lookup d = none := by simpa [Node.lookup] using h
    rw [bytesAt_cons_dir, hl]
    rfl

/-- What `check_directory_integrity` returns when its scan completes: the entries of the drifted
files, each once. -/
theorem scan_reports {vs : List Violation}
    (hs : scan digest co directoryName cumulativeWhitelist currentProjectNum = .ok vs) :
    (vs.map (·.filePath)).Nodup ∧ ∀ v, v ∈ vs ↔
      ∃ xs, Drifted digest co directoryName cumulativeWhitelist currentProjectNum xs ∧
        v = violationAt directoryName xs := by
  unfold scan at hs
  cases hn : co.work.lookup [directoryName] with
  | none =>
    rw [hn] at hs
    cases hs
    refine ⟨List.nodup_nil, fun v => ⟨fun h => (nomatch h), ?_⟩⟩
    rintro ⟨xs, ⟨-, b, -, hb, -⟩, -⟩
    rw [bytesAt_of_lookup_none hn] at hb
    cases hb
  | some n =>
    rw [hn] at hs
    have hv := valid_of_lookup co.workValid hn
    have hwalk := mem_walkNode (keepDir directoryName currentProjectNum)
      (checkDir co.root directoryName) [] hv
    refine ⟨?_, fun v => ⟨fun hmem => ?_, ?_⟩⟩
    · have hnd := (walkNode_nodup (keepDir directoryName currentProjectNum)
        (checkDir co.root directoryName) [] n hv).map (List.cons_injective (a := directoryName))
      rw [List.map_map] at hnd
      exact (collect_sublist (f := fun u => directoryName :: u.rel)
        (fun _ _ h => (inspect_some digest h).1) hs).nodup hnd
    · obtain ⟨u, hu, hi⟩ := collect_mem_some hs hmem
      obtain ⟨xs, b, hne, hb, hk, rfl⟩ := (hwalk u).mp hu
      obtain ⟨hig, hwl, ⟨b', hb', hd⟩, rfl⟩ := (inspect_eq_ok_some digest _).mp hi
      rw [List.nil_append] at hwl hb' ⊢
      exact ⟨xs, ⟨⟨hne, by rw [bytesAt_of_lookup hn, hb]; rfl, hk, hig, hwl⟩, b, b',
        by rw [bytesAt_of_lookup hn, hb], hb', hd⟩, rfl⟩
    · rintro ⟨xs, ⟨⟨hne, -, hk, hig, hwl⟩, b, b', hb, hb', hd⟩, rfl⟩
      rw [bytesAt_of_lookup hn] at hb
      have hu := (hwalk _).mpr ⟨xs, b, hne, hb, hk, rfl⟩
      have hi := (inspect_eq_ok_some digest co.template
        (u := ⟨checkDir co.root directoryName ++ rootPath xs, [] ++ xs, b⟩)).mpr
        ⟨hig, by rwa [List.nil_append], ⟨b', by rwa [List.nil_append], hd⟩, by rw [List.nil_append]⟩
      rcases collect_ok_mem hs hu with h | ⟨v, hv, h⟩
      · rw [hi] at h
        cases h
      · rw [hi] at h
        cases h
        exact hv

/-- The scan raises exactly when a file it compares has a directory as template counterpart. -/
theorem scan_completes_iff :
    (∃ vs, scan digest co directoryName cumulativeWhitelist currentProjectNum = .ok vs) ↔
      ¬ ∃ xs cs, Compared co directoryName cumulativeWhitelist currentProjectNum xs ∧
        co.template.lookup (directoryName :: xs) = some (.dir cs) := by
  unfold scan
  cases hn : co.work.lookup [directoryName] with
  | none =>
    refine ⟨fun _ => ?_, fun _ => ⟨[], rfl⟩⟩
    rintro ⟨xs, cs, ⟨-, hb, -⟩, -⟩
    rw [bytesAt_of_lookup_none hn] at hb
    cases hb
  | some n =>
    have hv := valid_of_lookup co.workValid hn
    have hwalk := mem_walkNode (keepDir directoryName currentProjectNum)
      (checkDir co.root directoryName) [] hv
    dsimp only
    rw [collect_isOk]
    constructor
    · rintro hok ⟨xs, cs, ⟨hne, hb, hk, hig, hwl⟩, hl⟩
      rw [bytesAt_of_lookup hn] at hb
      obtain ⟨b, hb⟩ := Option.isSome_iff_exists.mp hb
      have hu := (hwalk _).mpr ⟨xs, b, hne, hb, hk, rfl⟩
      refine (inspect_isOk digest co.template _).mp (hok _ hu) ⟨hig, ?_, cs, ?_⟩ <;>
        rwa [List.nil_append]
    · intro hno u hu
      obtain ⟨xs, b, hne, hb, hk, rfl⟩ := (hwalk u).mp hu
      refine (inspect_isOk digest co.template _).mpr fun ⟨hig, hwl, cs, hl⟩ => hno ?_
      rw [List.nil_append] at hwl hl
      exact ⟨xs, cs, ⟨hne, by rw [bytesAt_of_lookup hn, hb]; rfl, hk, hig, hwl⟩, hl⟩

end Verdict

theorem scan_reports_drifted :
    scan id (driftedAt ["home"]) "keos" [] 0 = .ok [violationAt "keos" ["a.rs"]] ∧
      ([violationAt "keos" ["a.rs"]].map (·.filePath)).Nodup ∧
      ∀ v, v ∈ [violationAt "keos" ["a.rs"]] ↔
        ∃ xs, Drifted id (driftedAt ["home"]) "keos" [] 0 xs ∧ v = violationAt "keos" xs :=
  ⟨rfl, scan_reports id rfl⟩

/-- A stage-1 checkout with two stage directories nested in `keos-project1`, each holding a file
that differs from the template's. -/
def nestedStages : Checkout :=
  ⟨["home"],
    .dir [("keos-projects", .dir [("keos-project1", .dir [
      ("keos-project2", .dir [("a.txt", .file [1])]),
      ("keos-project1", .dir [("x", .file [1])])])])],
    .dir [("keos-projects", .dir [("keos-project1", .dir [
      ("keos-project2", .dir [("a.txt", .file [2])]),
      ("keos-project1", .dir [("x", .file [2])])])])], by decide, by decide⟩

/-- At stage 1 with the whitelist `["x"]` the scan reports neither drifted file: the walk prunes
the nested `keos-project2`, and removing every `keos-project1/` from
`keos-project1/keos-project1/x` leaves the whitelisted `x`. -/
theorem checkDirectoryIntegrity_nested_stages :
    stageAdmits "keos-projects" 1 "keos-project2" = false ∧
      replace "keos-project1/keos-project1/x".toList "keos-project1/".toList [] = "x".toList ∧
      (checkDirectoryIntegrity id nestedStages "keos-projects" ["x"] 1 "warn"
        fun _ => .copied).ending = .returned [] :=
  ⟨by decide, by decide, rfl⟩

theorem mem_stages {k : Nat} {currentProjectNum : Int} :
    k ∈ stages currentProjectNum ↔ 1 ≤ k ∧ (k : Int) ≤ currentProjectNum := by
  simp only [stages, List.mem_map, List.mem_range]
  constructor
  · rintro ⟨j, hj, rfl⟩
    omega
  · rintro ⟨h1, h2⟩
    exact ⟨k - 1, by omega, by omega⟩

/-- `build_cumulative_whitelist`: the union of the whitelists of the stages
`1..current_project_num`, where `projectWhitelist k` is what `get_project_whitelist(k)` reads
(the `whitelist` of stage `k`'s `.grade-target`, `[]` when the file is missing or not JSON).
`list(set(...))` fixes no order, and nothing reads one. -/
def buildCumulativeWhitelist (projectWhitelist : Nat → List String) (currentProjectNum : Int) :
    List String :=
  ((stages currentProjectNum).flatMap projectWhitelist).dedup

/-- How `check_three_directory_integrity` ended: returning `all_violations`, the directories with
violations and their relative paths, in the order of the loop; or in the `sys.exit` or the
exception of one of its scans. -/
inductive ThreeEnding where
  | returned (allViolations : List (String × List (List Char)))
  | exited (code : Nat)
  | raised (fault : Fault)
  deriving DecidableEq

structure Checked where
  printed : List String
  work : Node
  ending : ThreeEnding

/-- The whitelist and stage the loop passes for a directory: the cumulative ones for
`keos-projects`, `[]` and `0` for the others. -/
def scanArgs (cumulativeWhitelist : List String) (currentProjectNum : Int) (directory : String) :
    List String × Int :=
  if directory = "keos-projects" then (cumulativeWhitelist, currentProjectNum) else ([], 0)

section Three

variable {Digest : Type} [DecidableEq Digest] (digest : List UInt8 → Digest)
  (cumulativeWhitelist : List String) (currentProjectNum : Int)

/-- The loop of `check_three_directory_integrity` over the directories left, from the checkout as
the calls before left it. -/
def checkDirectories (mode : String) (copy2 : List String → Copy) :
    Checkout → List String → Checked
  | co, [] => ⟨[], co.work, .returned []⟩
  | co, directory :: rest =>
    let args := scanArgs cumulativeWhitelist currentProjectNum directory
    let o := checkDirectoryIntegrity digest co directory args.1 args.2 mode copy2
    match o.ending with
    | .returned violations =>
      let r := checkDirectories mode copy2
        (afterCheck digest co directory args.1 args.2 mode copy2) rest
      ⟨o.printed ++ r.printed, r.work,
        match r.ending with
        | .returned all =>
          .returned (if violations = [] then all else (directory, violations) :: all)
        | e => e⟩
    | .exited code => ⟨o.printed, o.work, .exited code⟩
    | .raised f => ⟨o.printed, o.work, .raised f⟩

/-- `check_three_directory_integrity`, after `ensure_template_freshness`: the template is the
checkout's. -/
def checkThreeDirectoryIntegrity (co : Checkout) (mode : String) (copy2 : List String → Copy) :
    Checked :=
  checkDirectories digest cumulativeWhitelist currentProjectNum mode copy2 co checkedDirectories

theorem lookup_write_ne (work : Node) {d d' : String} (h : d' ≠ d) (r : List String)
    (b : List UInt8) : (work.write (d :: r) b).lookup [d'] = work.lookup [d'] := by
  cases work with
  | file f => rfl
  | dir es =>
    simp only [Node.write, Node.lookup, lookup_map_write, if_neg h]
    cases es.lookup d' <;> rfl

/-- The restore loop writes only below the scanned directory. -/
theorem handle_lookup_ne (copy2 : List String → Copy) (template : Node) (mode : String)
    {d d' : String} (h : d' ≠ d) :
    ∀ (vs : List Violation), (∀ v ∈ vs, ∃ r, v.filePath = d :: r) → ∀ work : Node,
      (handle copy2 template mode work vs).2.1.lookup [d'] = work.lookup [d']
  | [], _, _ => rfl
  | v :: vs, hvs, work => by
    have ih := handle_lookup_ne copy2 template mode h vs fun w hw => hvs w (List.mem_cons_of_mem _ hw)
    obtain ⟨r, hr⟩ := hvs v (List.mem_cons_self _ _)
    unfold handle
    split
    · exact ih work
    · split
      · split
        · rw [ih]
          unfold copyFile
          split
          · rw [hr, lookup_write_ne _ h]
          · rfl
        · rw [hr, lookup_write_ne _ h]
      · exact ih work

theorem checkDirectoryIntegrity_lookup_ne (co : Checkout) {d d' : String} (h : d' ≠ d)
    (wl : List String) (n : Int) (mode : String) (copy2 : List String → Copy) :
    (checkDirectoryIntegrity digest co d wl n mode copy2).work.lookup [d'] = co.work.lookup [d'] := by
  unfold checkDirectoryIntegrity
  cases hs : scan digest co d wl n with
  | error f => rfl
  | ok vs =>
    dsimp only
    split
    · rfl
    · exact handle_lookup_ne copy2 co.template mode h vs
        (fun v hv => (scan_reported digest hs v hv).1) co.work

/-- The loop leaves the directories it does not check as they were. -/
theorem checkDirectories_lookup_ne (mode : String) (copy2 : List String → Copy) {d' : String} :
    ∀ (co : Checkout) (ds : List String), d' ∉ ds →
      (checkDirectories digest cumulativeWhitelist currentProjectNum mode copy2 co ds).work.lookup
        [d'] = co.work.lookup [d']
  | _, [], _ => rfl
  | co, d :: rest, h => by
    have hne : d' ≠ d := fun he => h (he ▸ List.mem_cons_self _ _)
    have hrest : d' ∉ rest := fun hm => h (List.mem_cons_of_mem _ hm)
    have hone := checkDirectoryIntegrity_lookup_ne digest co hne
      (scanArgs cumulativeWhitelist currentProjectNum d).1
      (scanArgs cumulativeWhitelist currentProjectNum d).2 mode copy2
    unfold checkDirectories
    dsimp only
    split
    · rw [checkDirectories_lookup_ne mode copy2 _ rest hrest]
      exact hone
    · exact hone
    · exact hone

theorem checkDirectories_valid (mode : String) (copy2 : List String → Copy) :
    ∀ (co : Checkout) (ds : List String),
      (checkDirectories digest cumulativeWhitelist currentProjectNum mode copy2 co ds).work.valid =
        true
  | co, [] => co.workValid
  | co, d :: rest => by
    unfold checkDirectories
    dsimp only
    split
    · exact checkDirectories_valid mode copy2 _ rest
    · exact checkDirectoryIntegrity_valid _ _ _ _ _ _ _
    · exact checkDirectoryIntegrity_valid _ _ _ _ _ _ _

theorem scan_congr (co co' : Checkout) (hroot : co.root = co'.root)
    (htemplate : co.template = co'.template) {d : String}
    (hwork : co.work.lookup [d] = co'.work.lookup [d]) (wl : List String) (n : Int) :
    scan digest co d wl n = scan digest co' d wl n := by
  simp only [scan, hroot, htemplate, hwork]

section Calls

variable {co : Checkout} {d : String} {wl : List String} {n : Int}

theorem checkDirectoryIntegrity_of_scan_nil (hs : scan digest co d wl n = .ok [])
    (mode : String) (copy2 : List String → Copy) :
    checkDirectoryIntegrity digest co d wl n mode copy2 = ⟨[], co.work, .returned []⟩ := by
  simp only [checkDirectoryIntegrity, hs, if_true]

theorem afterCheck_of_scan_nil (hs : scan digest co d wl n = .ok []) (mode : String)
    (copy2 : List String → Copy) : afterCheck digest co d wl n mode copy2 = co :=
  Checkout.ext rfl (by simp only [afterCheck, checkDirectoryIntegrity_of_scan_nil digest hs]) rfl

/-- What a call prints for a directory whose scan found `vs`, in a mode that restores nothing: the
header when there are violations, then a line per file in `warn` mode. -/
def reportLines (mode d : String) (vs : List Violation) : List String :=
  if vs = [] then []
  else ("\n" ++ d ++ "/ - " ++ toString vs.length ++ " violation(s):") ::
    if mode = "warn" then vs.map fun v => "  " ++ String.mk v.relPath ++ " (MODIFIED)" else []

theorem checkDirectoryIntegrity_report {vs : List Violation} (hs : scan digest co d wl n = .ok vs)
    {mode : String} (ho : mode ≠ "override") (copy2 : List String → Copy) :
    checkDirectoryIntegrity digest co d wl n mode copy2 =
      ⟨reportLines mode d vs, co.work, .returned (vs.map (·.relPath))⟩ := by
  by_cases hnil : vs = [] <;>
    simp [checkDirectoryIntegrity, hs, hnil, handle_report _ _ _ ho, reportLines]

theorem afterCheck_report {vs : List Violation} (hs : scan digest co d wl n = .ok vs)
    {mode : String} (ho : mode ≠ "override") (copy2 : List String → Copy) :
    afterCheck digest co d wl n mode copy2 = co :=
  Checkout.ext rfl (by simp only [afterCheck, checkDirectoryIntegrity_report digest hs ho]) rfl

theorem checkDirectoryIntegrity_warn {vs : List Violation} (hs : scan digest co d wl n = .ok vs)
    (copy2 : List String → Copy) :
    (checkDirectoryIntegrity digest co d wl n "warn" copy2).ending = .returned (vs.map (·.relPath)) ∧
      afterCheck digest co d wl n "warn" copy2 = co :=
  ⟨by rw [checkDirectoryIntegrity_report digest hs (by decide)],
    afterCheck_report digest hs (by decide) copy2⟩

theorem checkDirectoryIntegrity_copied {vs : List Violation} (hs : scan digest co d wl n = .ok vs)
    {copy2 : List String → Copy} (copied : ∀ p, copy2 p = .copied) :
    (checkDirectoryIntegrity digest co d wl n "override" copy2).ending =
        .returned (vs.map (·.relPath)) ∧
      (afterCheck digest co d wl n "override" copy2).work =
        vs.foldl (fun w v => copyFile co.template v w) co.work := by
  by_cases hnil : vs = [] <;>
    simp [afterCheck, checkDirectoryIntegrity, hs, hnil, handle_copied copied]

end Calls

/-- The entry of `all_violations` a directory's scan gives: its relative paths, when there are
some. -/
def entryOf (d : String) : Except Fault (List Violation) → Option (String × List (List Char))
  | .ok vs => if vs = [] then none else some (d, vs.map (·.relPath))
  | .error _ => none

/-- In `warn` mode, when every scan completes, the loop changes no file and returns the entries of
the directories with violations, each the list its scan found. -/
theorem checkDirectories_warn (copy2 : List String → Copy) :
    ∀ (co : Checkout) (ds : List String),
      (∀ d ∈ ds, ∃ vs, scan digest co d (scanArgs cumulativeWhitelist currentProjectNum d).1
        (scanArgs cumulativeWhitelist currentProjectNum d).2 = .ok vs) →
      (checkDirectories digest cumulativeWhitelist currentProjectNum "warn" copy2 co ds).work =
          co.work ∧
        (checkDirectories digest cumulativeWhitelist currentProjectNum "warn" copy2 co ds).ending =
          .returned (ds.filterMap fun d => entryOf d (scan digest co d
            (scanArgs cumulativeWhitelist currentProjectNum d).1
            (scanArgs cumulativeWhitelist currentProjectNum d).2))
  | _, [], _ => ⟨rfl, rfl⟩
  | co, d :: rest, hok => by
    obtain ⟨vs, hs⟩ := hok d (List.mem_cons_self _ _)
    obtain ⟨hend, hafter⟩ := checkDirectoryIntegrity_warn digest hs copy2
    obtain ⟨hw, he⟩ := checkDirectories_warn copy2 co rest
      fun d' hd' => hok d' (List.mem_cons_of_mem _ hd')
    simp only [checkDirectories, hend, hafter, hw, he, List.filterMap_cons, hs, entryOf]
    by_cases hnil : vs = [] <;> simp [hnil]

/-- In a mode that restores nothing, when every scan completes, the loop prints each directory's
report, changes nothing, and returns the directories with violations. -/
theorem checkDirectories_report {mode : String} (ho : mode ≠ "override") (copy2 : List String → Copy)
    (co : Checkout) (vss : String → List Violation) :
    ∀ ds : List String,
      (∀ d ∈ ds, scan digest co d (scanArgs cumulativeWhitelist currentProjectNum d).1
        (scanArgs cumulativeWhitelist currentProjectNum d).2 = .ok (vss d)) →
      checkDirectories digest cumulativeWhitelist currentProjectNum mode copy2 co ds =
        ⟨ds.flatMap fun d => reportLines mode d (vss d), co.work,
          .returned (ds.filterMap fun d =>
            if vss d = [] then none else some (d, (vss d).map (·.relPath)))⟩
  | [], _ => rfl
  | d :: rest, hok => by
    have hs := hok d (List.mem_cons_self _ _)
    simp only [checkDirectories, checkDirectoryIntegrity_report digest hs ho,
      afterCheck_report digest hs ho, List.flatMap_cons, List.filterMap_cons,
      checkDirectories_report ho copy2 co vss rest fun d' h => hok d' (List.mem_cons_of_mem _ h)]
    by_cases hnil : vss d = [] <;> simp [hnil]

/-- Restoring is idempotent over the whole loop: when every scan completes and every copy
succeeds, the `override` run returns, and a second run over the tree it leaves, in any mode,
prints nothing, changes nothing and returns no violation. -/
theorem checkDirectories_override_idempotent (copy2 : List String → Copy)
    (copied : ∀ p, copy2 p = .copied) :
    ∀ (co : Checkout) (ds : List String), ds.Nodup →
      (∀ d ∈ ds, ∃ vs, scan digest co d (scanArgs cumulativeWhitelist currentProjectNum d).1
        (scanArgs cumulativeWhitelist currentProjectNum d).2 = .ok vs) →
      (∃ all, (checkDirectories digest cumulativeWhitelist currentProjectNum "override" copy2 co
        ds).ending = .returned all) ∧
      ∀ co' : Checkout, co'.root = co.root → co'.template = co.template →
        co'.work = (checkDirectories digest cumulativeWhitelist currentProjectNum "override" copy2
          co ds).work →
        ∀ mode copy2', checkDirectories digest cumulativeWhitelist currentProjectNum mode copy2'
          co' ds = ⟨[], co'.work, .returned []⟩
  | _, [], _, _ => ⟨⟨[], rfl⟩, fun _ _ _ _ _ _ => rfl⟩
  | co, d :: rest, hnd, hok => by
    obtain ⟨hd, hnd'⟩ := List.nodup_cons.mp hnd
    obtain ⟨vs, hs⟩ := hok d (List.mem_cons_self _ _)
    obtain ⟨hend, hwork⟩ := checkDirectoryIntegrity_copied digest hs copied
    set co1 := afterCheck digest co d (scanArgs cumulativeWhitelist currentProjectNum d).1
      (scanArgs cumulativeWhitelist currentProjectNum d).2 "override" copy2
    have hok1 : ∀ d' ∈ rest, ∃ vs, scan digest co1 d'
        (scanArgs cumulativeWhitelist currentProjectNum d').1
        (scanArgs cumulativeWhitelist currentProjectNum d').2 = .ok vs := fun d' hd' => by
      have hne : d' ≠ d := fun he => hd (he ▸ hd')
      rw [scan_congr digest co1 co rfl rfl (checkDirectoryIntegrity_lookup_ne digest co hne _ _ _ _)]
      exact hok d' (List.mem_cons_of_mem _ hd')
    obtain ⟨⟨all, hall⟩, hsecond⟩ :=
      checkDirectories_override_idempotent copy2 copied co1 rest hnd' hok1
    have hco1 : scan digest co1 d (scanArgs cumulativeWhitelist currentProjectNum d).1
        (scanArgs cumulativeWhitelist currentProjectNum d).2 = .ok [] := by
      have hvalid : (vs.foldl (fun w v => copyFile co.template v w) co.work).valid = true :=
        hwork ▸ co1.workValid
      rw [show co1 = ⟨co.root, _, co.template, hvalid, co.templateValid⟩ from
        Checkout.ext rfl hwork rfl]
      exact scan_restored hs hvalid
    simp only [checkDirectories, hend, hall]
    refine ⟨⟨_, rfl⟩, fun co' hroot htemplate hw mode copy2' => ?_⟩
    have hnil : scan digest co' d (scanArgs cumulativeWhitelist currentProjectNum d).1
        (scanArgs cumulativeWhitelist currentProjectNum d).2 = .ok [] := by
      have hl := checkDirectories_lookup_ne digest cumulativeWhitelist currentProjectNum
        "override" copy2 co1 rest hd
      rw [← hw] at hl
      exact (scan_congr digest co' co1 hroot htemplate hl _ _).trans hco1
    simp only [checkDirectories, checkDirectoryIntegrity_of_scan_nil digest hnil,
      afterCheck_of_scan_nil digest hnil, hsecond co' hroot htemplate hw, List.append_nil,
      if_true]

/-- `check_three_directory_integrity` restores idempotently: after an `override` run whose scans
complete and whose copies succeed, a second run over the tree it leaves finds nothing and changes
nothing. -/
theorem checkThreeDirectoryIntegrity_override_idempotent (co : Checkout)
    (copy2 : List String → Copy) (copied : ∀ p, copy2 p = .copied)
    (hok : ∀ d ∈ checkedDirectories, ∃ vs, scan digest co d
      (scanArgs cumulativeWhitelist currentProjectNum d).1
      (scanArgs cumulativeWhitelist currentProjectNum d).2 = .ok vs) :
    (∃ all, (checkThreeDirectoryIntegrity digest cumulativeWhitelist currentProjectNum co
      "override" copy2).ending = .returned all) ∧
    ∀ co' : Checkout, co'.root = co.root → co'.template = co.template →
      co'.work = (checkThreeDirectoryIntegrity digest cumulativeWhitelist currentProjectNum co
        "override" copy2).work →
      ∀ mode copy2', checkThreeDirectoryIntegrity digest cumulativeWhitelist currentProjectNum co'
        mode copy2' = ⟨[], co'.work, .returned []⟩ :=
  checkDirectories_override_idempotent digest cumulativeWhitelist currentProjectNum copy2 copied co
    checkedDirectories (by decide) hok

end Three

/-- The scans of `driftedAt ["home"]` at stage 1 complete. -/
theorem scans_complete_drifted :
    ∀ d ∈ checkedDirectories, ∃ vs, scan id (driftedAt ["home"]) d (scanArgs [] 1 d).1
      (scanArgs [] 1 d).2 = .ok vs := by
  intro d hd
  simp only [checkedDirectories, List.mem_cons, List.mem_singleton, List.not_mem_nil,
    or_false] at hd
  rcases hd with rfl | rfl | rfl <;> exact ⟨_, rfl⟩

theorem checkDirectories_warn_drifted :
    (∀ d ∈ checkedDirectories, ∃ vs, scan id (driftedAt ["home"]) d (scanArgs [] 1 d).1
      (scanArgs [] 1 d).2 = .ok vs) ∧
    (checkDirectories id [] 1 "warn" (fun _ => .copied) (driftedAt ["home"])
        checkedDirectories).work = (driftedAt ["home"]).work ∧
      (checkDirectories id [] 1 "warn" (fun _ => .copied) (driftedAt ["home"])
        checkedDirectories).ending =
        .returned (checkedDirectories.filterMap fun d => entryOf d (scan id (driftedAt ["home"]) d
          (scanArgs [] 1 d).1 (scanArgs [] 1 d).2)) :=
  ⟨scans_complete_drifted, checkDirectories_warn id [] 1 (fun _ => .copied) (driftedAt ["home"])
    checkedDirectories scans_complete_drifted⟩

theorem checkThreeDirectoryIntegrity_restores_drifted :
    ((∀ p, (fun _ => Copy.copied : List String → Copy) p = .copied) ∧
      ∀ d ∈ checkedDirectories, ∃ vs, scan id (driftedAt ["home"]) d (scanArgs [] 1 d).1
        (scanArgs [] 1 d).2 = .ok vs) ∧
    (∃ all, (checkThreeDirectoryIntegrity id [] 1 (driftedAt ["home"]) "override"
      fun _ => .copied).ending = .returned all) ∧
    ∀ co' : Checkout, co'.root = (driftedAt ["home"]).root →
      co'.template = (driftedAt ["home"]).template →
      co'.work = (checkThreeDirectoryIntegrity id [] 1 (driftedAt ["home"]) "override"
        fun _ => .copied).work →
      ∀ mode copy2', checkThreeDirectoryIntegrity id [] 1 co' mode copy2' =
        ⟨[], co'.work, .returned []⟩ :=
  ⟨⟨fun _ => rfl, scans_complete_drifted⟩,
    checkThreeDirectoryIntegrity_override_idempotent id [] 1 (driftedAt ["home"])
      (fun _ => .copied) (fun _ => rfl) scans_complete_drifted⟩

end KeosGrader
