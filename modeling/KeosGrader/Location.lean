import KeosGrader.Walk

/-! Where the repository is checked out. `is_ignored` sees absolute paths, so a root with a
component `build` or `target`, or holding `.o` or `keos_kernel`, hides the whole tree; a root
holding none of its words leaves every decision, and the scan, as at `/`. -/

namespace KeosGrader

theorem checkedDirectories_head {d : String} (hd : d ∈ checkedDirectories) :
    ∃ c, d.toList.head? = some c ∧ (c = 'f' ∨ c = 'k') := by
  simp only [checkedDirectories, List.mem_cons, List.mem_singleton, List.not_mem_nil,
    or_false] at hd
  rcases hd with rfl | rfl | rfl <;> exact ⟨_, rfl, by decide⟩

section Relocate

variable {X : List Char} (hX : NeutralRoot X) {d : String} {c : Char}
  (hd : d.toList.head? = some c) (hc : c = 'f' ∨ c = 'k')
include hX hd hc

theorem keepDir_relocate (currentProjectNum : Int) {r : List Char} (hr : '/' :: d.toList <+: r)
    (e : String) : keepDir d currentProjectNum (X ++ r) e = keepDir d currentProjectNum r e := by
  obtain ⟨w, rfl⟩ := hr
  have hy : (d.toList ++ (w ++ '/' :: e.toList)).head? = some c := by
    rw [List.head?_append, hd]; rfl
  simp only [keepDir, List.append_assoc, List.cons_append, isIgnored_below_root hX hy hc]

theorem inspect_relocate {Digest : Type} [DecidableEq Digest] (digest : List UInt8 → Digest)
    (template : Node) (cumulativeWhitelist : List String) (currentProjectNum : Int) {u : Visit}
    {w : List Char} (hu : u.path = '/' :: (d.toList ++ w)) :
    inspect digest template d cumulativeWhitelist currentProjectNum (u.relocate X) =
      inspect digest template d cumulativeWhitelist currentProjectNum u := by
  have hy : (d.toList ++ w).head? = some c := by rw [List.head?_append, hd]; rfl
  have hign : isIgnored (X ++ u.path) = isIgnored u.path := by
    rw [hu]; exact isIgnored_below_root hX hy hc
  simp only [inspect, Visit.relocate, hign]

end Relocate

/-- A checkout at a root `is_ignored` cannot see scans as the same checkout at `/`. -/
theorem scan_relocate {Digest : Type} [DecidableEq Digest] (digest : List UInt8 → Digest)
    {co : Checkout} (hX : NeutralRoot (rootPath co.root)) {directoryName : String}
    (hd : directoryName ∈ checkedDirectories) (cumulativeWhitelist : List String)
    (currentProjectNum : Int) :
    scan digest co directoryName cumulativeWhitelist currentProjectNum =
      scan digest { co with root := [] } directoryName cumulativeWhitelist currentProjectNum := by
  obtain ⟨c, hc0, hc⟩ := checkedDirectories_head hd
  unfold scan
  cases hl : co.work.lookup [directoryName] with
  | none => rfl
  | some n =>
    dsimp only
    rw [show checkDir co.root directoryName = rootPath co.root ++ checkDir [] directoryName from rfl,
      walkNode_relocate _ (checkDir [] directoryName) [] n fun r e hr =>
        keepDir_relocate hX hc0 hc currentProjectNum hr e]
    refine collect_map_congr fun u hu => ?_
    obtain ⟨x, xs, -, hp⟩ := walkNode_rel _ _ _ _ u hu
    exact inspect_relocate hX hc0 hc digest _ _ _ hp

end KeosGrader
