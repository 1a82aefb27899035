import KeosGrader.Text

/-! `is_ignored`: which paths the integrity scan leaves out. The function receives absolute
paths, and every test it makes is a substring or suffix test on the whole path string, so what
it decides depends on every component, the repository root's included. -/

namespace KeosGrader

open List

/-- `IGNORED_PATTERNS`, in the order the loop of `is_ignored` tries them. -/
def ignoredPatterns : List (List Char) :=
  ["target/", "build/", "build_objects/", "keos_kernel", "ffs.bin", "sfs.bin", ".o", "kelibc.a",
    ".cargo/template/", "Cargo.lock"].map String.toList

/-- `ROOTFS_EXCEPTIONS`. -/
def rootfsExceptions : List (List Char) :=
  ["hello", "os-release", "simple_fs.tar"].map String.toList

/-- `fnmatch.fnmatch(name, pattern)` for patterns of literal characters, `?` and `*`. -/
def fnmatch : List Char → List Char → Bool
  | n, [] => n.isEmpty
  | n, '*' :: p => n.tails.any fun t => fnmatch t p
  | _ :: n, '?' :: p => fnmatch n p
  | c :: n, d :: p => c == d && fnmatch n p
  | [], _ :: _ => false

/-- One turn of the pattern loop: a pattern ending in `/` names a directory, one holding `*` is
a glob on the file name, and any other is a substring of the whole path. -/
def patternMatches (path pattern : List Char) : Bool :=
  if ['/'] <:+ pattern then
    decide ('/' :: pattern.dropLast ++ ['/'] <:+: path) || decide ('/' :: pattern.dropLast <:+ path)
  else if '*' ∈ pattern then fnmatch (name path) pattern
  else decide (pattern <:+: path)

/-- One turn of the exception loop: `hello` stands for every name it starts. -/
def exceptionMatches (fileName exception : List Char) : Bool :=
  (exception == "hello".toList && decide ("hello".toList <+: fileName)) || exception == fileName

def isIgnored (path : List Char) : Bool :=
  if "/rootfs/".toList <:+: path ∨ "/rootfs".toList <:+ path then
    if "/rootfs".toList <:+ path then true
    else !(rootfsExceptions.any (exceptionMatches (name path)))
  else ignoredPatterns.any (patternMatches path)

/-- The directories named by the `/`-terminated patterns. -/
def ignoredDirs : List (List Char) :=
  ["target", "build", "build_objects", ".cargo/template"].map String.toList

/-- The patterns tested as substrings of the whole path. -/
def ignoredSubstrings : List (List Char) :=
  ["keos_kernel", "ffs.bin", "sfs.bin", ".o", "kelibc.a", "Cargo.lock"].map String.toList

/-- `p` is a `rootfs` directory or lies in one, as `is_ignored` tests it. -/
def InRootfs (p : List Char) : Prop :=
  "/rootfs/".toList <:+: p ∨ "/rootfs".toList <:+ p

/-- A file name `is_ignored` keeps inside `rootfs`. -/
def KeptInRootfs (n : List Char) : Prop :=
  "hello".toList <+: n ∨ n = "os-release".toList ∨ n = "simple_fs.tar".toList

/-- A build rule: a directory pattern as a component, or a pattern anywhere in the string. -/
def BuildMatch (p : List Char) : Prop :=
  (∃ d ∈ ignoredDirs, '/' :: d ++ ['/'] <:+: p ∨ '/' :: d <:+ p) ∨ ∃ s ∈ ignoredSubstrings, s <:+: p

instance (p : List Char) : Decidable (InRootfs p) := by unfold InRootfs; infer_instance
instance (n : List Char) : Decidable (KeptInRootfs n) := by unfold KeptInRootfs; infer_instance
instance (p : List Char) : Decidable (BuildMatch p) := by unfold BuildMatch; infer_instance

theorem rootfsExceptions_any (n : List Char) :
    rootfsExceptions.any (exceptionMatches n) = true ↔ KeptInRootfs n := by
  simp +decide [rootfsExceptions, exceptionMatches, KeptInRootfs, @eq_comm _ _ n]
  constructor
  · rintro ((h | rfl) | h | h)
    exacts [.inl h, .inl (List.prefix_refl _), .inr (.inl h), .inr (.inr h)]
  · rintro (h | h | h)
    exacts [.inl (.inl h), .inr (.inl h), .inr (.inr h)]

theorem patternMatches_dir (p d : List Char) :
    patternMatches p (d ++ ['/']) = (decide ('/' :: d ++ ['/'] <:+: p) || decide ('/' :: d <:+ p)) := by
  rw [patternMatches, if_pos (List.suffix_append _ _), List.dropLast_concat]

theorem patternMatches_substring {p s : List Char} (h : ¬ ['/'] <:+ s ∧ '*' ∉ s) :
    patternMatches p s = decide (s <:+: p) := by
  rw [patternMatches, if_neg h.1, if_neg h.2]

/-- The patterns are the directory patterns and the substring patterns, in another order. -/
theorem ignoredPatterns_perm :
    ignoredPatterns.Perm (ignoredDirs.map (· ++ ['/']) ++ ignoredSubstrings) := by
  decide

theorem ignoredPatterns_any (p : List Char) :
    ignoredPatterns.any (patternMatches p) = true ↔ BuildMatch p := by
  have hsub : ∀ s ∈ ignoredSubstrings, ¬ ['/'] <:+ s ∧ '*' ∉ s := by decide
  rw [List.any_eq_true, BuildMatch]
  simp only [ignoredPatterns_perm.mem_iff, List.mem_append, or_and_right, exists_or, List.mem_map,
    exists_exists_and_eq_and, patternMatches_dir, Bool.or_eq_true, decide_eq_true_eq]
  refine or_congr Iff.rfl (exists_congr fun s => and_congr_right fun hs => ?_)
  rw [patternMatches_substring (hsub s hs), decide_eq_true_eq]

/-- The ignore rule: inside `rootfs` only the exceptions are kept, and the build rules are not
consulted there; elsewhere a path is ignored exactly when a build rule matches it. -/
theorem isIgnored_iff (p : List Char) :
    isIgnored p = true ↔
      (InRootfs p ∧ ("/rootfs".toList <:+ p ∨ ¬ KeptInRootfs (name p))) ∨
      (¬ InRootfs p ∧ BuildMatch p) := by
  unfold isIgnored
  by_cases hr : InRootfs p
  · have hr' : "/rootfs/".toList <:+: p ∨ "/rootfs".toList <:+ p := hr
    rw [if_pos hr']
    by_cases hs : "/rootfs".toList <:+ p
    · rw [if_pos hs]
      exact iff_of_true rfl (.inl ⟨hr, .inl hs⟩)
    · rw [if_neg hs, Bool.not_eq_true', ← Bool.not_eq_true, rootfsExceptions_any]
      simp only [hr, hs, not_true, true_and, false_or, not_false_eq_true, false_and, or_false]
  · have hr' : ¬ ("/rootfs/".toList <:+: p ∨ "/rootfs".toList <:+ p) := hr
    rw [if_neg hr', ignoredPatterns_any]
    simp only [hr, false_and, not_false_eq_true, true_and, false_or]

/-- An ignore rule over path components: a path is left out when a whole component or its file
name matches, and the build rules win over the `rootfs` exceptions. -/
def IgnoredByComponents (p : List Char) : Prop :=
  ("rootfs".toList ∈ p.splitOn '/' ∧ ¬ KeptInRootfs (name p)) ∨
    (∃ d ∈ ["target", "build", "build_objects"].map String.toList, d ∈ p.splitOn '/') ∨
    [".cargo".toList, "template".toList] <:+: p.splitOn '/' ∨
    ".o".toList <:+ name p ∨
    name p ∈ ["keos_kernel", "ffs.bin", "sfs.bin", "kelibc.a", "Cargo.lock"].map String.toList

instance (p : List Char) : Decidable (IgnoredByComponents p) := by
  unfold IgnoredByComponents; infer_instance

theorem isIgnored_not_by_components :
    (isIgnored "/r/target/rootfs/hello".toList = false ∧
      IgnoredByComponents "/r/target/rootfs/hello".toList) ∧
    (isIgnored "/r/src/foo.old/x.rs".toList = true ∧
      ¬ IgnoredByComponents "/r/src/foo.old/x.rs".toList) := by
  decide

theorem inRootfs_extend {D : List Char} (x : List Char) (h : InRootfs D) :
    InRootfs (D ++ '/' :: x) := by
  rcases h with h | h
  · exact .inl (h.trans (List.prefix_append D _).isInfix)
  · obtain ⟨s, rfl⟩ := h
    exact .inl ⟨s, x, by simp⟩

theorem buildMatch_extend {D : List Char} (x : List Char) (h : BuildMatch D) :
    BuildMatch (D ++ '/' :: x) := by
  rcases h with ⟨d, hd, h | ⟨s, rfl⟩⟩ | ⟨w, hw, h⟩
  · exact .inl ⟨d, hd, .inl (h.trans (List.prefix_append _ _).isInfix)⟩
  · exact .inl ⟨d, hd, .inl ⟨s, x, by simp⟩⟩
  · exact .inr ⟨w, hw, h.trans (List.prefix_append _ _).isInfix⟩

/-- Below an ignored directory every path is ignored, except a path inside `rootfs` whose file
name is one of the exceptions. -/
theorem isIgnored_extend {D : List Char} (x : List Char) (hD : isIgnored D = true) :
    isIgnored (D ++ '/' :: x) = true ∨
      (InRootfs (D ++ '/' :: x) ∧ ¬ "/rootfs".toList <:+ D ++ '/' :: x ∧
        KeptInRootfs (name (D ++ '/' :: x))) := by
  rw [isIgnored_iff] at hD ⊢
  by_cases hr : InRootfs (D ++ '/' :: x)
  · by_cases hk : "/rootfs".toList <:+ D ++ '/' :: x ∨ ¬ KeptInRootfs (name (D ++ '/' :: x))
    · exact .inl (.inl ⟨hr, hk⟩)
    · exact .inr ⟨hr, fun h => hk (.inl h), not_not.mp fun h => hk (.inr h)⟩
  · rcases hD with ⟨hD, -⟩ | ⟨-, hb⟩
    · exact absurd (inRootfs_extend x hD) hr
    · exact .inl (.inr ⟨hr, buildMatch_extend x hb⟩)

/-- The reference template's own directory is ignored wherever it lies, so a scan of
`keos-projects` never walks into `.cargo/template`. -/
theorem isIgnored_template (D : List Char) : isIgnored (D ++ "/.cargo/template".toList) = true := by
  rw [isIgnored_iff]
  by_cases hr : InRootfs (D ++ "/.cargo/template".toList)
  · refine .inl ⟨hr, .inr ?_⟩
    rw [show D ++ "/.cargo/template".toList = (D ++ "/.cargo".toList) ++ '/' :: "template".toList
      by simp, name_append_component _ (by decide)]
    decide
  · exact .inr ⟨hr, .inl ⟨".cargo/template".toList, by decide, .inr (List.suffix_append _ _)⟩⟩

/-- The words `is_ignored` looks for anywhere in a path. -/
def infixTests : List (List Char) :=
  "/rootfs/".toList :: (ignoredDirs.map fun d => '/' :: d ++ ['/']) ++ ignoredSubstrings

/-- The words `is_ignored` looks for at the end of a path. -/
def suffixTests : List (List Char) :=
  "/rootfs".toList :: ignoredDirs.map ('/' :: ·)

/-- Paths that agree on every test of `is_ignored` and have the same file name are decided
alike. -/
theorem isIgnored_congr {p q : List Char} (hinf : ∀ w ∈ infixTests, w <:+: p ↔ w <:+: q)
    (hsuf : ∀ w ∈ suffixTests, w <:+ p ↔ w <:+ q) (hname : name p = name q) :
    isIgnored p = isIgnored q := by
  have hroot := hsuf _ (List.mem_cons_self _ _)
  have hr : InRootfs p ↔ InRootfs q := or_congr (hinf _ (List.mem_cons_self _ _)) hroot
  have hb : BuildMatch p ↔ BuildMatch q :=
    or_congr (exists_congr fun d => and_congr_right fun hd =>
        or_congr (hinf _ (List.mem_cons_of_mem _ (List.mem_append_left _ (List.mem_map_of_mem _ hd))))
          (hsuf _ (List.mem_cons_of_mem _ (List.mem_map_of_mem _ hd))))
      (exists_congr fun w => and_congr_right fun hw =>
        hinf _ (List.mem_cons_of_mem _ (List.mem_append_right _ hw)))
  rw [Bool.eq_iff_iff, isIgnored_iff, isIgnored_iff, hr, hb, hname, hroot]

/-- A repository root that `is_ignored` cannot see: no word it looks for anywhere occurs in the
root's path followed by `/`. -/
def NeutralRoot (root : List Char) : Prop :=
  ∀ w ∈ infixTests, ¬ w <:+: root ++ ['/']

instance (root : List Char) : Decidable (NeutralRoot root) := by
  unfold NeutralRoot; infer_instance

/-- No test word holds a `/` followed by the first letter of `fs`, `keos` or `keos-projects`. -/
theorem tests_no_sep {c : Char} (hc : c = 'f' ∨ c = 'k') :
    (∀ w ∈ infixTests, ¬ ['/', c] <:+: w) ∧ ∀ w ∈ suffixTests, ¬ ['/', c] <:+: w := by
  rcases hc with rfl | rfl <;> decide

theorem infix_below_root {root y w : List Char} {c : Char} (hroot : NeutralRoot root)
    (hw : w ∈ infixTests) (hy : y.head? = some c) (hc : c = 'f' ∨ c = 'k') :
    w <:+: root ++ '/' :: y ↔ w <:+: y := by
  rw [show root ++ '/' :: y = (root ++ ['/']) ++ y by simp,
    infix_append_sep (by simp) hy ((tests_no_sep hc).1 w hw)]
  exact or_iff_right (hroot w hw)

theorem suffix_below_root (root : List Char) {y w : List Char} {c : Char} (hw : w ∈ suffixTests)
    (hy : y.head? = some c) (hc : c = 'f' ∨ c = 'k') :
    w <:+ root ++ '/' :: y ↔ w <:+ '/' :: y := by
  obtain ⟨y', rfl⟩ := List.head?_eq_some_iff.mp hy
  exact suffix_append_sep rfl ((tests_no_sep hc).2 w hw)

theorem name_below_root (root : List Char) {y : List Char} {c : Char} (hy : y.head? = some c)
    (hc : c = 'f' ∨ c = 'k') : name (root ++ '/' :: y) = name ('/' :: y) := by
  obtain ⟨y, rfl⟩ := List.head?_eq_some_iff.mp hy
  obtain ⟨l, ls, hl⟩ := List.exists_cons_of_ne_nil (List.splitOnP_ne_nil (· == '/') y)
  have hsep : (c == '/') = false := by rcases hc with rfl | rfl <;> rfl
  have hdot : c :: l ≠ ['.'] := by rcases hc with rfl | rfl <;> simp
  have hname : ∀ a, name (a ++ '/' :: c :: y) =
      (ls.filter fun s => s ≠ [] ∧ s ≠ ['.']).getLastD (c :: l) := fun a => by
    simp only [name, List.splitOn, @splitOnP_append_cons _ (· == '/') '/' (beq_self_eq_true _),
      List.splitOnP_cons, hsep, hl, List.modifyHead_cons, List.filter_append, List.filter_cons,
      hdot, ne_eq, reduceCtorEq, not_false_eq_true, and_self, decide_True, if_true,
      List.getLastD_eq_getLast?, List.getLast?_append, List.getLast?_cons, Option.or_some,
      Option.getD_some, Bool.false_eq_true, ite_false]
  exact (hname root).trans (hname []).symm

/-- Below a root that `is_ignored` cannot see, it decides a path under `fs`, `keos` or
`keos-projects` as it would with the repository at `/`. -/
theorem isIgnored_below_root {root y : List Char} {c : Char} (hroot : NeutralRoot root)
    (hy : y.head? = some c) (hc : c = 'f' ∨ c = 'k') :
    isIgnored (root ++ '/' :: y) = isIgnored ('/' :: y) := by
  have hempty : NeutralRoot [] := by decide
  refine isIgnored_congr (fun w hw => ?_) (fun w hw => ?_) (name_below_root root hy hc)
  · rw [infix_below_root hroot hw hy hc, ← infix_below_root hempty hw hy hc, List.nil_append]
  · rw [suffix_below_root root hw hy hc, ← suffix_below_root [] hw hy hc, List.nil_append]

end KeosGrader
