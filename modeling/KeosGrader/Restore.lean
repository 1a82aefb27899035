import KeosGrader.Walk

/-! Restoration in `override` mode. A copy changes one file's bytes and nothing the walk or the
per-file test looks at, so the walk of a restored tree visits the same files, and a restored
file matches its reference. -/

namespace KeosGrader

/-- What a violation of a scan of `directoryName` records: its file and its counterpart are at
the same path below that directory, and the counterpart is a regular file. -/
def Reported (template : Node) (directoryName : String) (v : Violation) : Prop :=
  (∃ r, v.filePath = directoryName :: r) ∧ v.originalFile = v.filePath ∧
    ∃ b, template.lookup v.filePath = some (.file b)

section Inspect

variable {Digest : Type} [DecidableEq Digest] (digest : List UInt8 → Digest)
  {template : Node} {directoryName : String} {cumulativeWhitelist : List String}
  {currentProjectNum : Int}

theorem inspect_some {u : Visit} {v : Violation}
    (h : inspect digest template directoryName cumulativeWhitelist currentProjectNum u =
      .ok (some v)) :
    v.filePath = directoryName :: u.rel ∧ Reported template directoryName v := by
  unfold inspect at h
  split at h
  · cases h
  split at h
  · cases h
  split at h
  · cases h
  · cases h
  · rename_i b hb
    split at h
    · cases h; exact ⟨rfl, ⟨_, rfl⟩, rfl, b, hb⟩
    · cases h

/-- A file holding its reference's bytes is not reported. -/
theorem inspect_restored {u : Visit} {b : List UInt8}
    (h : template.lookup (directoryName :: u.rel) = some (.file b)) :
    inspect digest template directoryName cumulativeWhitelist currentProjectNum
      { u with bytes := b } = .ok none := by
  unfold inspect
  split
  · rfl
  split
  · rfl
  simp [h]

theorem scan_reported {co : Checkout} {vs : List Violation}
    (h : scan digest co directoryName cumulativeWhitelist currentProjectNum = .ok vs) :
    ∀ v ∈ vs, Reported co.template directoryName v := by
  intro v hv
  unfold scan at h
  split at h
  · obtain ⟨u, -, hu⟩ := collect_mem_some h hv
    exact (inspect_some digest hu).2
  · cases h; cases hv

end Inspect

/-- In a mode that does not restore, the loop changes nothing, and prints a line per violation in
`warn` mode and nothing in any other. -/
theorem handle_report (copy2 : List String → Copy) (template work : Node) {mode : String}
    (ho : mode ≠ "override") (vs : List Violation) :
    handle copy2 template mode work vs =
      (if mode = "warn" then vs.map fun v => "  " ++ String.mk v.relPath ++ " (MODIFIED)" else [],
        work, false) := by
  induction vs with
  | nil => simp [handle]
  | cons v vs ih =>
    by_cases hw : mode = "warn"
    · subst hw
      simp [handle, ih]
    · simp [handle, ih, hw, ho]

theorem handle_warn (copy2 : List String → Copy) (template work : Node) (vs : List Violation) :
    handle copy2 template "warn" work vs =
      (vs.map fun v => "  " ++ String.mk v.relPath ++ " (MODIFIED)", work, false) := by
  simpa using handle_report copy2 template work (by decide) vs

/-- While its copies succeed, the `override` loop restores file after file. -/
theorem handle_override_append {copy2 : List String → Copy} (template : Node)
    {pre : List Violation} (hpre : ∀ v ∈ pre, copy2 v.filePath = .copied)
    (rest : List Violation) (work : Node) :
    handle copy2 template "override" work (pre ++ rest) =
      ((pre.map fun v => "  RESTORED: " ++ String.mk v.relPath ++ " (restored)") ++
          (handle copy2 template "override" (pre.foldl (fun w v => copyFile template v w) work)
            rest).1,
        (handle copy2 template "override" (pre.foldl (fun w v => copyFile template v w) work)
          rest).2) := by
  induction pre generalizing work with
  | nil => rfl
  | cons v pre ih =>
    simp [handle, hpre v (List.mem_cons_self _ _),
      ih fun u hu => hpre u (List.mem_cons_of_mem _ hu)]

theorem handle_copied {copy2 : List String → Copy} (copied : ∀ p, copy2 p = .copied)
    (template work : Node) (vs : List Violation) :
    handle copy2 template "override" work vs =
      (vs.map fun v => "  RESTORED: " ++ String.mk v.relPath ++ " (restored)",
        vs.foldl (fun w v => copyFile template v w) work, false) := by
  simpa [handle] using handle_override_append template (fun v (_ : v ∈ vs) => copied v.filePath) [] work

/-- The first failing copy ends the loop: the files before it are restored, its own file holds
what the failed copy left, and the loop asks for `sys.exit(1)`. -/
theorem handle_abort {copy2 : List String → Copy} (template : Node) {pre : List Violation}
    (hpre : ∀ v ∈ pre, copy2 v.filePath = .copied) {v : Violation} {e : String}
    {left : List UInt8} (hv : copy2 v.filePath = .failed e left) (post : List Violation)
    (work : Node) :
    handle copy2 template "override" work (pre ++ v :: post) =
      ((pre.map fun v => "  RESTORED: " ++ String.mk v.relPath ++ " (restored)") ++
          ["  ERROR: " ++ String.mk v.relPath ++ " (restore failed: " ++ e ++ ")",
            "ERROR: File restoration failed. Aborting."],
        (pre.foldl (fun w v => copyFile template v w) work).write v.filePath left, true) := by
  rw [handle_override_append template hpre]
  simp [handle, hv]

/-- The bytes a successful copy gives a violation's file. -/
def refBytes (template : Node) (v : Violation) : List UInt8 :=
  (template.bytesAt v.originalFile).getD []

theorem copyFile_reported {template : Node} {d : String} {v : Violation}
    (h : Reported template d v) (work : Node) :
    copyFile template v work = work.write v.filePath (refBytes template v) := by
  obtain ⟨-, ho, b, hb⟩ := h
  simp [copyFile, refBytes, Node.bytesAt, ho, hb]

theorem bytesAt_restore {template : Node} {d : String} {vs : List Violation}
    (hrep : ∀ v ∈ vs, Reported template d v) :
    ∀ (work : Node), (∀ v ∈ vs, (work.bytesAt v.filePath).isSome) → ∀ q,
      (vs.foldl (fun w v => copyFile template v w) work).bytesAt q =
        if q ∈ vs.map (·.filePath) then template.bytesAt q else work.bytesAt q := by
  induction vs with
  | nil => simp
  | cons v vs ih =>
    intro work hfile q
    have hv := hrep v (List.mem_cons_self _ _)
    have href : template.bytesAt v.filePath = some (refBytes template v) := by
      obtain ⟨-, ho, b, hb⟩ := hv
      simp [refBytes, Node.bytesAt, ho, hb]
    have hsome := hfile v (List.mem_cons_self _ _)
    rw [List.foldl_cons, copyFile_reported hv,
      ih (fun v hv => hrep v (List.mem_cons_of_mem _ hv)) _ (fun w hw => by
        rw [bytesAt_write]; split
        · rfl
        · exact hfile w (List.mem_cons_of_mem _ hw)), bytesAt_write]
    by_cases hq : q = v.filePath
    · subst hq; simp [hsome, href]
    · by_cases hm : q ∈ vs.map (·.filePath) <;> simp [hq, hm]

theorem lookup_write_cons (work : Node) (d : String) (r : List String) (b : List UInt8) :
    (work.write (d :: r) b).lookup [d] = (work.lookup [d]).map (·.write r b) := by
  cases work with
  | file f => rfl
  | dir es =>
    simp only [Node.write, Node.lookup, lookup_map_write, if_true]
    cases es.lookup d <;> rfl

theorem lookup_restore {template : Node} {d : String} {vs : List Violation}
    (hrep : ∀ v ∈ vs, Reported template d v) (work : Node) :
    (vs.foldl (fun w v => copyFile template v w) work).lookup [d] =
      (work.lookup [d]).map fun n =>
        vs.foldl (fun n v => n.write v.filePath.tail (refBytes template v)) n := by
  induction vs generalizing work with
  | nil => cases h : work.lookup [d] <;> simp [h]
  | cons v vs ih =>
    have hv := hrep v (List.mem_cons_self _ _)
    obtain ⟨r, hr⟩ := hv.1
    rw [List.foldl_cons, ih (fun w hw => hrep w (List.mem_cons_of_mem _ hw)),
      copyFile_reported hv, hr, lookup_write_cons, Option.map_map]
    congr 1
    funext n
    simp [hr]

theorem walkNode_restore (keep : List Char → String → Bool) (root : List Char) (template : Node)
    (vs : List Violation) (n : Node) :
    walkNode keep root [] (vs.foldl (fun n v => n.write v.filePath.tail (refBytes template v)) n) =
      (walkNode keep root [] n).map fun u =>
        vs.foldl (fun u v => u.overwrite v.filePath.tail (refBytes template v)) u := by
  induction vs generalizing n with
  | nil => simp
  | cons v vs ih =>
    rw [List.foldl_cons, ih, walkNode_write, List.nil_append, List.map_map]
    rfl

theorem overwrite_restore {template : Node} {d : String} {vs : List Violation}
    (hrep : ∀ v ∈ vs, Reported template d v) (u : Visit) :
    vs.foldl (fun u v => u.overwrite v.filePath.tail (refBytes template v)) u =
      if d :: u.rel ∈ vs.map (·.filePath) then
        { u with bytes := (template.bytesAt (d :: u.rel)).getD [] }
      else u := by
  induction vs generalizing u with
  | nil => simp
  | cons v vs ih =>
    obtain ⟨⟨r, hr⟩, ho, -⟩ := hrep v (List.mem_cons_self _ _)
    rw [List.foldl_cons, ih (fun w hw => hrep w (List.mem_cons_of_mem _ hw))]
    have hrel : (u.overwrite v.filePath.tail (refBytes template v)).rel = u.rel := by
      unfold Visit.overwrite; split <;> rfl
    rw [hrel]
    by_cases hm : d :: u.rel ∈ vs.map (·.filePath)
    · simp only [hm, if_true, List.map_cons, List.mem_cons, or_true]
      unfold Visit.overwrite; split <;> rfl
    · simp only [hm, if_false, List.map_cons, List.mem_cons, or_false, hr, List.cons.injEq,
        true_and, List.tail_cons, Visit.overwrite, refBytes, ho]
      by_cases he : u.rel = r
      · subst he; simp
      · simp [he, Ne.symm he]

theorem bytesAt_of_lookup {work n : Node} {d : String} (h : work.lookup [d] = some n)
    (r : List String) : work.bytesAt (d :: r) = n.bytesAt r := by
  cases work with
  | file f => cases h
  | dir es =>
    have hl : es.lookup d = some n := by simpa [Node.lookup] using h
    rw [bytesAt_cons_dir, hl]
    rfl

theorem valid_of_lookup {work n : Node} {d : String} (hv : work.valid = true)
    (h : work.lookup [d] = some n) : n.valid = true := by
  cases work with
  | file f => cases h
  | dir es =>
    have hl : es.lookup d = some n := by simpa [Node.lookup] using h
    obtain ⟨l₁, l₂, rfl, -⟩ := List.lookup_eq_some_iff.mp hl
    exact ((valid_dir _).mp hv).2 (d, n) (by simp) |>.2

theorem handle_valid (copy2 : List String → Copy) (template : Node) (mode : String)
    (vs : List Violation) : ∀ work : Node, work.valid = true →
      (handle copy2 template mode work vs).2.1.valid = true := by
  induction vs with
  | nil => exact fun _ => id
  | cons v vs ih =>
    intro work hw
    unfold handle
    split
    · exact ih work hw
    · split
      · split
        · refine ih _ ?_
          unfold copyFile
          split
          · exact valid_write _ _ _ hw
          · exact hw
        · exact valid_write _ _ _ hw
      · exact ih work hw

section Override

variable {Digest : Type} [DecidableEq Digest] (digest : List UInt8 → Digest) (co : Checkout)
  (directoryName : String) (cumulativeWhitelist : List String) (currentProjectNum : Int)

theorem checkDirectoryIntegrity_valid (mode : String) (copy2 : List String → Copy) :
    (checkDirectoryIntegrity digest co directoryName cumulativeWhitelist currentProjectNum mode
      copy2).work.valid = true := by
  unfold checkDirectoryIntegrity
  split
  · exact co.workValid
  · split
    · exact co.workValid
    · exact handle_valid _ _ _ _ _ co.workValid

/-- The checkout as a `check_directory_integrity` call left it. -/
def afterCheck (mode : String) (copy2 : List String → Copy) : Checkout :=
  { co with
    work := (checkDirectoryIntegrity digest co directoryName cumulativeWhitelist currentProjectNum
      mode copy2).work
    workValid := checkDirectoryIntegrity_valid digest co directoryName cumulativeWhitelist
      currentProjectNum mode copy2 }

variable {digest co directoryName cumulativeWhitelist currentProjectNum}

theorem scan_files {vs : List Violation}
    (h : scan digest co directoryName cumulativeWhitelist currentProjectNum = .ok vs) :
    ∀ v ∈ vs, (co.work.bytesAt v.filePath).isSome := by
  intro v hv
  unfold scan at h
  split at h
  · rename_i n hn
    obtain ⟨u, hu, hi⟩ := collect_mem_some h hv
    obtain ⟨r, hr, hb⟩ := walkNode_bytesAt _ _ _ n (valid_of_lookup co.workValid hn) u hu
    rw [(inspect_some digest hi).1, bytesAt_of_lookup hn, hr, List.nil_append, hb]
    rfl
  · cases h; cases hv

/-- After the copies, a scan against the same template finds nothing. -/
theorem scan_restored {vs : List Violation}
    (h : scan digest co directoryName cumulativeWhitelist currentProjectNum = .ok vs)
    (valid : (vs.foldl (fun w v => copyFile co.template v w) co.work).valid = true) :
    scan digest ⟨co.root, vs.foldl (fun w v => copyFile co.template v w) co.work, co.template,
      valid, co.templateValid⟩ directoryName cumulativeWhitelist currentProjectNum = .ok [] := by
  have hrep := scan_reported digest h
  unfold scan at h ⊢
  simp only [lookup_restore hrep]
  cases hn : co.work.lookup [directoryName] with
  | none => rfl
  | some n =>
    simp only [hn] at h
    simp only [Option.map_some', walkNode_restore]
    refine collect_all_none fun u' hu' => ?_
    obtain ⟨u, hu, rfl⟩ := List.mem_map.mp hu'
    rw [overwrite_restore hrep]
    split
    · rename_i hm
      obtain ⟨v, hv, hfp⟩ := List.mem_map.mp hm
      obtain ⟨-, -, b, hb⟩ := hrep v hv
      rw [hfp] at hb
      simp only [Node.bytesAt, hb, Option.getD_some]
      exact inspect_restored digest hb
    · rename_i hm
      rcases collect_ok_mem h hu with hi | ⟨v, hv, hi⟩
      · exact hi
      · exact absurd (List.mem_map.mpr ⟨v, hv, (inspect_some digest hi).1⟩) hm

variable (digest co directoryName cumulativeWhitelist currentProjectNum)

/-- What an `override` scan does when its copies succeed: it ends as the `warn` scan does, and
when the scan returns, it has given each listed file its reference's bytes and changed no other
file, and a second scan of the restored tree against the same template, in any mode, finds
nothing. -/
def OverrideRestores (copy2 : List String → Copy) : Prop :=
  (checkDirectoryIntegrity digest co directoryName cumulativeWhitelist currentProjectNum
      "override" copy2).ending =
    (checkDirectoryIntegrity digest co directoryName cumulativeWhitelist currentProjectNum
      "warn" copy2).ending ∧
  (checkDirectoryIntegrity digest co directoryName cumulativeWhitelist currentProjectNum
      "warn" copy2).work = co.work ∧
  ∀ vs, scan digest co directoryName cumulativeWhitelist currentProjectNum = .ok vs →
    (checkDirectoryIntegrity digest co directoryName cumulativeWhitelist currentProjectNum
        "override" copy2).ending = .returned (vs.map (·.relPath)) ∧
    (∀ q, (checkDirectoryIntegrity digest co directoryName cumulativeWhitelist currentProjectNum
        "override" copy2).work.bytesAt q =
      if q ∈ vs.map (·.filePath) then co.template.bytesAt q else co.work.bytesAt q) ∧
    ∀ mode copy2', checkDirectoryIntegrity digest
        (afterCheck digest co directoryName cumulativeWhitelist currentProjectNum "override" copy2)
        directoryName cumulativeWhitelist currentProjectNum mode copy2' =
      ⟨[], (checkDirectoryIntegrity digest co directoryName cumulativeWhitelist
        currentProjectNum "override" copy2).work, .returned []⟩

theorem override_restores_idempotent (copy2 : List String → Copy)
    (copied : ∀ p, copy2 p = .copied) :
    OverrideRestores digest co directoryName cumulativeWhitelist currentProjectNum copy2 := by
  unfold OverrideRestores
  cases hs : scan digest co directoryName cumulativeWhitelist currentProjectNum with
  | error f =>
    simp only [checkDirectoryIntegrity, hs]
    exact ⟨trivial, trivial, fun vs h => nomatch h⟩
  | ok vs =>
    by_cases hnil : vs = []
    · subst hnil
      have hsame : afterCheck digest co directoryName cumulativeWhitelist currentProjectNum
          "override" copy2 = co := by simp only [afterCheck, checkDirectoryIntegrity, hs, if_true]
      simp only [checkDirectoryIntegrity, hs, hsame, if_true]
      refine ⟨trivial, trivial, fun vs h => ?_⟩
      cases h
      exact ⟨rfl, fun q => by rw [List.map_nil, if_neg (List.not_mem_nil q)], fun _ _ => trivial⟩
    · have hwork : (checkDirectoryIntegrity digest co directoryName cumulativeWhitelist
          currentProjectNum "override" copy2).work =
            vs.foldl (fun w v => copyFile co.template v w) co.work := by
        simp only [checkDirectoryIntegrity, hs, hnil, if_false, handle_copied copied]
      have hvalid := checkDirectoryIntegrity_valid digest co directoryName cumulativeWhitelist
        currentProjectNum "override" copy2
      rw [hwork] at hvalid
      have hafter : afterCheck digest co directoryName cumulativeWhitelist currentProjectNum
          "override" copy2 = ⟨co.root, vs.foldl (fun w v => copyFile co.template v w) co.work,
            co.template, hvalid, co.templateValid⟩ := by
        simp only [afterCheck, hwork]
      simp only [checkDirectoryIntegrity, hs, hnil, if_false, handle_warn, handle_copied copied,
        Bool.false_eq_true]
      refine ⟨trivial, trivial, fun vs' h => ?_⟩
      cases h
      refine ⟨rfl, bytesAt_restore (scan_reported digest hs) _ (scan_files hs), fun mode copy2' => ?_⟩
      rw [hafter]
      simp only [scan_restored hs hvalid, ↓reduceIte]

/-- What an `override` scan leaves when a copy fails: it exits with status 1 after printing the
header, a line for each file restored before the failure and the two error lines; the files
before the failing one hold their reference's bytes, the failing one holds what the failed copy
left, and every other file is unchanged. -/
theorem override_abort_state (copy2 : List String → Copy) {vs pre post : List Violation}
    {v : Violation} {e : String} {left : List UInt8}
    (hs : scan digest co directoryName cumulativeWhitelist currentProjectNum = .ok vs)
    (hsplit : vs = pre ++ v :: post) (hpre : ∀ u ∈ pre, copy2 u.filePath = .copied)
    (hv : copy2 v.filePath = .failed e left) :
    (checkDirectoryIntegrity digest co directoryName cumulativeWhitelist currentProjectNum
        "override" copy2).ending = .exited 1 ∧
    (checkDirectoryIntegrity digest co directoryName cumulativeWhitelist currentProjectNum
        "override" copy2).printed =
      ("\n" ++ directoryName ++ "/ - " ++ toString vs.length ++ " violation(s):") ::
        ((pre.map fun u => "  RESTORED: " ++ String.mk u.relPath ++ " (restored)") ++
          ["  ERROR: " ++ String.mk v.relPath ++ " (restore failed: " ++ e ++ ")",
            "ERROR: File restoration failed. Aborting."]) ∧
    ∀ q, (checkDirectoryIntegrity digest co directoryName cumulativeWhitelist currentProjectNum
        "override" copy2).work.bytesAt q =
      if q = v.filePath then some left
      else if q ∈ pre.map (·.filePath) then co.template.bytesAt q else co.work.bytesAt q := by
  have hrep := scan_reported digest hs
  have hfiles := scan_files hs
  subst hsplit
  have hpre_rep : ∀ u ∈ pre, Reported co.template directoryName u :=
    fun u hu => hrep u (List.mem_append_left _ hu)
  have hpre_files : ∀ u ∈ pre, (co.work.bytesAt u.filePath).isSome :=
    fun u hu => hfiles u (List.mem_append_left _ hu)
  have hvmem : v ∈ pre ++ v :: post := List.mem_append_right _ (List.mem_cons_self _ _)
  have hsome : ((pre.foldl (fun w u => copyFile co.template u w) co.work).bytesAt
      v.filePath).isSome := by
    rw [bytesAt_restore hpre_rep _ hpre_files]
    split
    · obtain ⟨-, -, b, hb⟩ := hrep v hvmem
      simp [Node.bytesAt, hb]
    · exact hfiles v hvmem
  have hout : checkDirectoryIntegrity digest co directoryName cumulativeWhitelist
      currentProjectNum "override" copy2 =
        ⟨("\n" ++ directoryName ++ "/ - " ++ toString (pre ++ v :: post).length ++
            " violation(s):") ::
          ((pre.map fun u => "  RESTORED: " ++ String.mk u.relPath ++ " (restored)") ++
            ["  ERROR: " ++ String.mk v.relPath ++ " (restore failed: " ++ e ++ ")",
              "ERROR: File restoration failed. Aborting."]),
          (pre.foldl (fun w u => copyFile co.template u w) co.work).write v.filePath left,
          .exited 1⟩ := by
    simp only [checkDirectoryIntegrity, hs, List.append_ne_nil_of_right_ne_nil pre
      (List.cons_ne_nil v post), if_false, handle_abort co.template hpre hv, if_true]
  rw [hout]
  refine ⟨rfl, rfl, fun q => ?_⟩
  rw [bytesAt_write]
  by_cases hq : q = v.filePath
  · subst hq; simp [hsome]
  · simp only [hq, false_and, if_false]
    exact bytesAt_restore hpre_rep _ hpre_files q

end Override

theorem override_restores_drifted :
    (∀ p, (fun _ => Copy.copied : List String → Copy) p = .copied) ∧
      OverrideRestores id (driftedAt ["home"]) "keos" [] 0 fun _ => .copied :=
  ⟨fun _ => rfl, override_restores_idempotent id (driftedAt ["home"]) "keos" [] 0 _ fun _ => rfl⟩


/-- A checkout whose `keos/a.rs` and `keos/b.rs` both differ from the template's. -/
def driftedPair : Checkout :=
  ⟨["home"], .dir [("keos", .dir [("a.rs", .file [1]), ("b.rs", .file [1])])],
    .dir [("keos", .dir [("a.rs", .file [2]), ("b.rs", .file [2])])], by decide, by decide⟩

/-- `shutil.copy2` failing on `keos/b.rs` after truncating it. -/
def failOnB (p : List String) : Copy :=
  if p = ["keos", "b.rs"] then .failed "[Errno 28] No space left on device" [] else .copied

theorem override_abort_state_pair :
    scan id driftedPair "keos" [] 0 =
        .ok [⟨["keos", "a.rs"], "a.rs".toList, ["keos", "a.rs"]⟩,
          ⟨["keos", "b.rs"], "b.rs".toList, ["keos", "b.rs"]⟩] ∧
      (checkDirectoryIntegrity id driftedPair "keos" [] 0 "override" failOnB).ending = .exited 1 ∧
      ∀ q, (checkDirectoryIntegrity id driftedPair "keos" [] 0 "override" failOnB).work.bytesAt q =
        if q = ["keos", "b.rs"] then some []
        else if q ∈ [["keos", "a.rs"]] then driftedPair.template.bytesAt q
        else driftedPair.work.bytesAt q :=
  have hs : scan id driftedPair "keos" [] 0 =
      .ok [⟨["keos", "a.rs"], "a.rs".toList, ["keos", "a.rs"]⟩,
        ⟨["keos", "b.rs"], "b.rs".toList, ["keos", "b.rs"]⟩] := rfl
  have hsplit : [(⟨["keos", "a.rs"], "a.rs".toList, ["keos", "a.rs"]⟩ : Violation),
      ⟨["keos", "b.rs"], "b.rs".toList, ["keos", "b.rs"]⟩] =
      [⟨["keos", "a.rs"], "a.rs".toList, ["keos", "a.rs"]⟩] ++
        ⟨["keos", "b.rs"], "b.rs".toList, ["keos", "b.rs"]⟩ :: [] := rfl
  have h := override_abort_state id driftedPair "keos" [] 0 failOnB hs hsplit (by decide) rfl
  ⟨hs, h.1, h.2.2⟩

/-- The failure on `keos/b.rs` comes after `keos/a.rs` was already overwritten. -/
theorem override_abort_restored_first :
    (checkDirectoryIntegrity id driftedPair "keos" [] 0 "override" failOnB).ending = .exited 1 ∧
      driftedPair.work.bytesAt ["keos", "a.rs"] = some [1] ∧
      (checkDirectoryIntegrity id driftedPair "keos" [] 0 "override" failOnB).work.bytesAt
        ["keos", "a.rs"] = some [2] := by
  decide

end KeosGrader
