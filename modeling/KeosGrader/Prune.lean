import KeosGrader.Walk

/-! Pruning against per-file filtering. The two agree below an ignored directory except on the
files `is_ignored` keeps inside `rootfs`: the rule that keeps them ignores `rootfs` itself, so
the walk never reaches them. -/

namespace KeosGrader

/-- The walk with the stage filter alone, leaving `is_ignored` to the per-file test. -/
def perFileWalk (co : Checkout) (directoryName : String) (currentProjectNum : Int) :
    List Visit :=
  match co.work.lookup [directoryName] with
  | some n => walkNode (fun _ => stageAdmits directoryName currentProjectNum)
      (checkDir co.root directoryName) [] n
  | none => []

/-- The scan filtering per file: what the pruning is meant to agree with. -/
def scanPerFile {Digest : Type} [DecidableEq Digest] (digest : List UInt8 → Digest)
    (co : Checkout) (directoryName : String) (cumulativeWhitelist : List String)
    (currentProjectNum : Int) : Except Fault (List Violation) :=
  collect (inspect digest co.template directoryName cumulativeWhitelist currentProjectNum)
    (perFileWalk co directoryName currentProjectNum)

/-- A file `is_ignored` keeps inside `rootfs`. -/
def KeptRootfsFile (p : List Char) : Prop :=
  InRootfs p ∧ ¬ "/rootfs".toList <:+ p ∧ KeptInRootfs (name p)

instance (p : List Char) : Decidable (KeptRootfsFile p) := by
  unfold KeptRootfsFile; infer_instance

/-- Pruning ignored directories finds what filtering each file finds, on every tree where the
walk with the stage filter alone reaches no file that `is_ignored` keeps inside `rootfs`. -/
theorem scan_eq_scanPerFile {Digest : Type} [DecidableEq Digest] (digest : List UInt8 → Digest)
    (co : Checkout) (directoryName : String) (cumulativeWhitelist : List String)
    (currentProjectNum : Int)
    (hkept : ∀ u ∈ perFileWalk co directoryName currentProjectNum, ¬ KeptRootfsFile u.path) :
    scan digest co directoryName cumulativeWhitelist currentProjectNum =
      scanPerFile digest co directoryName cumulativeWhitelist currentProjectNum := by
  unfold scan scanPerFile perFileWalk at *
  cases hl : co.work.lookup [directoryName] with
  | none => rfl
  | some n =>
    simp only [hl] at hkept ⊢
    refine collect_walkNode_prune (fun r e h => ?_) _ _ n fun u hu r e hk' hk hpre => ?_
    · simp only [keepDir, Bool.and_eq_true] at h
      exact h.2
    · have hign : isIgnored (r ++ '/' :: e.toList) = true := by
        simpa [keepDir, hk'] using hk
      obtain ⟨z, hz⟩ := hpre
      have hpath : u.path = (r ++ '/' :: e.toList) ++ '/' :: z := by
        rw [← hz]; simp
      rcases isIgnored_extend z hign with h | h
      · unfold inspect
        rw [if_pos (hpath ▸ h)]
      · exact absurd (hpath ▸ h) (hkept u hu)

/-- A checkout whose `keos/a.rs` differs from the template's, beside a build directory
`keos/target` whose file differs too. -/
def driftedBesideBuild : Checkout :=
  ⟨["home"], .dir [("keos", .dir [("a.rs", .file [1]), ("target", .dir [("x", .file [1])])])],
    .dir [("keos", .dir [("a.rs", .file [2]), ("target", .dir [("x", .file [2])])])],
    by decide, by decide⟩

/-- The walk prunes `keos/target`, the per-file filter drops `keos/target/x`, and both report only
`a.rs`. -/
theorem scan_eq_scanPerFile_drifted :
    (∀ u ∈ perFileWalk driftedBesideBuild "keos" 0, ¬ KeptRootfsFile u.path) ∧
      scan id driftedBesideBuild "keos" [] 0 = scanPerFile id driftedBesideBuild "keos" [] 0 ∧
      isIgnored "/home/keos/target".toList = true ∧
      scan id driftedBesideBuild "keos" [] 0 =
        .ok [⟨["keos", "a.rs"], "a.rs".toList, ["keos", "a.rs"]⟩] :=
  ⟨by decide, scan_eq_scanPerFile id _ "keos" [] 0 (by decide), by decide, rfl⟩

/-- A checkout whose `keos/rootfs/hello` differs from the template's. -/
def rootfsDrift : Checkout :=
  ⟨["home"], .dir [("keos", .dir [("rootfs", .dir [("hello", .file [1])])])],
    .dir [("keos", .dir [("rootfs", .dir [("hello", .file [2])])])], by decide, by decide⟩

/-- `is_ignored` keeps `rootfs/hello` but ignores `rootfs`, so the pruning scan never reaches the
drifted file that filtering each file reports. -/
theorem scan_prunes_kept_rootfs :
    isIgnored "/home/keos/rootfs".toList = true ∧
      isIgnored "/home/keos/rootfs/hello".toList = false ∧
      scan id rootfsDrift "keos" [] 0 = .ok [] ∧
      scanPerFile id rootfsDrift "keos" [] 0 =
        .ok [⟨["keos", "rootfs", "hello"], "rootfs/hello".toList, ["keos", "rootfs", "hello"]⟩] :=
  ⟨by decide, by decide, rfl, rfl⟩

end KeosGrader
