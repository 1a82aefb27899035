import KeosGrader.Integrity

/-! `get_project_whitelist` and `build_cumulative_whitelist` over whatever JSON each stage's
`.grade-target` holds, read as Python reads it: `.get` on objects only, truthiness, and
`set.update`, which takes a string's characters and an object's keys and raises on a value it
cannot iterate or an item it cannot hash. -/

namespace KeosGrader

/-- A JSON value as `json.load` returns it. Of a number the functions below read only whether it
is zero. -/
inductive Json where
  | null
  | bool (b : Bool)
  | num (nonzero : Bool)
  | str (s : String)
  | arr (items : List Json)
  | obj (fields : List (String × Json))

/-- Python's truth value of a JSON value. -/
def Json.truthy : Json → Bool
  | .null => false
  | .bool b => b
  | .num nonzero => nonzero
  | .str s => !s.toList.isEmpty
  | .arr items => !items.isEmpty
  | .obj fields => !fields.isEmpty

/-- What reading a stage's `.grade-target` gives: no file; a file `json.load` rejects with a
`JSONDecodeError`; a file whose reading raises another error (no permission, a directory, bytes
that are not text); or the value the file parses to. -/
inductive Declaration where
  | missing
  | malformed
  | unreadable
  | parsed (config : Json)

/-- `config.get('whitelist', [])`, where the last of repeated keys counts. -/
def whitelistField (fields : List (String × Json)) : Json :=
  (fields.reverse.lookup "whitelist").getD (.arr [])

/-- `get_project_whitelist`; `none` is the exception that escapes it, from the read or from `.get`
on a value that is not an object. -/
def getProjectWhitelist : Declaration → Option Json
  | .missing => some (.arr [])
  | .malformed => some (.arr [])
  | .unreadable => none
  | .parsed (.obj fields) => some (whitelistField fields)
  | .parsed _ => none

/-- The strings one item of a whitelist list adds to the set; the set also takes numbers,
Booleans and `null`, which no relative path equals. `none` is the `TypeError` of an item that is
not hashable. -/
def itemStrings : Json → Option (List String)
  | .str s => some [s]
  | .arr _ | .obj _ => none
  | _ => some []

def itemsStrings : List Json → Option (List String)
  | [] => some []
  | x :: xs => do
    let a ← itemStrings x
    let b ← itemsStrings xs
    pure (a ++ b)

/-- The strings `set.update(w)` adds; `none` is the `TypeError` of a value that cannot be
iterated or holds an item that is not hashable. -/
def updateStrings : Json → Option (List String)
  | .str s => some (s.toList.map fun c => String.mk [c])
  | .arr items => itemsStrings items
  | .obj fields => some (fields.map (·.1))
  | _ => none

/-- The strings one stage adds, after the truthiness test. -/
def stageStrings (d : Declaration) : Option (List String) := do
  let w ← getProjectWhitelist d
  if w.truthy then updateStrings w else pure []

/-- The loop of `build_cumulative_whitelist` over the stages. -/
def cumulate (decls : Nat → Declaration) : List Nat → Option (List String)
  | [] => some []
  | k :: ks => do
    let a ← stageStrings (decls k)
    let b ← cumulate decls ks
    pure (a ++ b)

/-- `list(cumulative_whitelist)` of `build_cumulative_whitelist(n)`, from the declarations of the
stages; `none` is the exception that escapes it. -/
def buildCumulativeWhitelistFrom (decls : Nat → Declaration) (n : Int) : Option (List String) :=
  (cumulate decls (stages n)).map List.dedup

/-- A declaration exempts `s`: its whitelist is a list holding the string `s`, an object with the
key `s`, or a string of which `s` is one character. -/
def Exempts (d : Declaration) (s : String) : Prop :=
  match getProjectWhitelist d with
  | some (.arr items) => .str s ∈ items
  | some (.obj fields) => s ∈ fields.map (·.1)
  | some (.str t) => ∃ c ∈ t.toList, String.mk [c] = s
  | _ => False

/-- A declaration that makes `build_cumulative_whitelist` raise: one that cannot be read or is not
an object, or whose whitelist is a nonzero number, `true`, or a list holding a list or an
object. -/
def Raises (d : Declaration) : Prop :=
  match getProjectWhitelist d with
  | none => True
  | some (.num nonzero) => nonzero = true
  | some (.bool b) => b = true
  | some (.arr items) => ∃ x ∈ items, (∃ ys, x = .arr ys) ∨ ∃ fs, x = .obj fs
  | _ => False

theorem itemsStrings_eq_none (items : List Json) :
    itemsStrings items = none ↔ ∃ x ∈ items, (∃ ys, x = .arr ys) ∨ ∃ fs, x = .obj fs := by
  induction items with
  | nil => simp [itemsStrings]
  | cons x xs ih =>
    rw [List.exists_mem_cons_iff, ← ih]
    simp only [itemsStrings, bind, pure]
    cases x <;> cases itemsStrings xs <;> simp [itemStrings]

theorem mem_itemsStrings {items : List Json} {xs : List String} (h : itemsStrings items = some xs)
    (s : String) : s ∈ xs ↔ .str s ∈ items := by
  induction items generalizing xs with
  | nil =>
    cases h
    simp
  | cons x rest ih =>
    simp only [itemsStrings, bind, pure, Option.bind_eq_some, Option.some.injEq] at h
    obtain ⟨a, ha, b, hb, rfl⟩ := h
    rw [List.mem_append, ih hb, List.mem_cons]
    cases x <;> simp only [itemStrings, Option.some.injEq, reduceCtorEq] at ha <;> subst ha <;>
      simp [eq_comm]

theorem stageStrings_eq_none (d : Declaration) : stageStrings d = none ↔ Raises d := by
  unfold stageStrings Raises
  cases getProjectWhitelist d with
  | none => simp
  | some w =>
    simp only [bind, Option.some_bind]
    cases w with
    | arr items => cases items <;> simp [Json.truthy, updateStrings, itemsStrings_eq_none]
    | _ =>
      simp only [Json.truthy, updateStrings]
      split <;> simp_all

theorem mem_stageStrings {d : Declaration} {xs : List String} (h : stageStrings d = some xs)
    (s : String) : s ∈ xs ↔ Exempts d s := by
  unfold stageStrings at h
  unfold Exempts
  cases hw : getProjectWhitelist d with
  | none => simp [hw] at h
  | some w =>
    simp only [hw, bind, Option.some_bind] at h
    split at h
    · cases w with
      | str t =>
        cases h
        simp
      | arr items => exact mem_itemsStrings h s
      | obj fields =>
        cases h
        rfl
      | _ => cases h
    · rename_i hfalse
      cases h
      cases w <;> simp_all [Json.truthy]

theorem cumulate_eq_none (decls : Nat → Declaration) (ks : List Nat) :
    cumulate decls ks = none ↔ ∃ k ∈ ks, Raises (decls k) := by
  induction ks with
  | nil => simp [cumulate]
  | cons k ks ih =>
    rw [List.exists_mem_cons_iff, ← ih, ← stageStrings_eq_none]
    simp only [cumulate, bind, pure]
    cases stageStrings (decls k) <;> cases cumulate decls ks <;> simp

theorem mem_cumulate {decls : Nat → Declaration} {ks : List Nat} {xs : List String}
    (h : cumulate decls ks = some xs) (s : String) :
    s ∈ xs ↔ ∃ k ∈ ks, Exempts (decls k) s := by
  induction ks generalizing xs with
  | nil =>
    cases h
    simp
  | cons k ks ih =>
    simp only [cumulate, bind, pure, Option.bind_eq_some, Option.some.injEq] at h
    obtain ⟨a, ha, b, hb, rfl⟩ := h
    rw [List.mem_append, mem_stageStrings ha, ih hb, List.exists_mem_cons_iff]

/-- `build_cumulative_whitelist` raises exactly when some stage up to `n` has a declaration that
cannot be read, is not an object, or has a whitelist that is a nonzero number, `true`, or a list
holding a list or an object; a missing file or one that is not JSON never makes it raise. When it
returns, a string is in the whitelist exactly when some stage up to `n` lists it, has it as a key
of an object whitelist, or has it as one character of a string whitelist. -/
theorem buildCumulativeWhitelistFrom_spec (decls : Nat → Declaration) (n : Int) :
    (buildCumulativeWhitelistFrom decls n = none ↔
      ∃ k : Nat, 1 ≤ k ∧ (k : Int) ≤ n ∧ Raises (decls k)) ∧
    ∀ wl, buildCumulativeWhitelistFrom decls n = some wl →
      ∀ s, s ∈ wl ↔ ∃ k : Nat, 1 ≤ k ∧ (k : Int) ≤ n ∧ Exempts (decls k) s := by
  refine ⟨?_, fun wl h s => ?_⟩
  · simp only [buildCumulativeWhitelistFrom, Option.map_eq_none', cumulate_eq_none, mem_stages,
      and_assoc]
  · obtain ⟨xs, hxs, rfl⟩ := Option.map_eq_some'.mp h
    simp only [List.mem_dedup, mem_cumulate hxs, mem_stages, and_assoc]

example : buildCumulativeWhitelistFrom
    (fun k => if k = 1 then .parsed (.obj [("whitelist", .str "ab")]) else .malformed) 2 =
      some ["a", "b"] := by
  decide

/-- A declaration of the documented shape: missing, not JSON, or an object whose whitelist, when
present, is a list of strings. -/
def Documented : Declaration → Prop
  | .missing | .malformed => True
  | .parsed (.obj fields) => ∃ paths : List String, whitelistField fields = .arr (paths.map .str)
  | _ => False

/-- The string a whitelist item names, if it is one. -/
def Json.asStr : Json → Option String
  | .str s => some s
  | _ => none

/-- The relative paths a declaration of the documented shape lists. -/
def documentedPaths : Declaration → List String
  | .parsed (.obj fields) =>
    match whitelistField fields with
    | .arr items => items.filterMap Json.asStr
    | _ => []
  | _ => []

theorem itemsStrings_strs (paths : List String) :
    itemsStrings (paths.map .str) = some paths := by
  induction paths with
  | nil => rfl
  | cons p ps ih => simp [itemsStrings, itemStrings, ih]

theorem filterMap_asStr_strs (paths : List String) : (paths.map .str).filterMap Json.asStr = paths := by
  induction paths <;> simp [Json.asStr, *]

theorem stageStrings_documented {d : Declaration} (h : Documented d) :
    stageStrings d = some (documentedPaths d) := by
  match d, h with
  | .missing, _ => rfl
  | .malformed, _ => rfl
  | .parsed (.obj fields), ⟨paths, hp⟩ =>
    have hd : documentedPaths (.parsed (.obj fields)) = paths := by
      simp only [documentedPaths, hp, filterMap_asStr_strs]
    simp only [hd, stageStrings, getProjectWhitelist, hp, bind, Option.some_bind]
    cases paths with
    | nil => rfl
    | cons p ps => exact itemsStrings_strs (p :: ps)

theorem cumulate_documented (decls : Nat → Declaration) :
    ∀ ks : List Nat, (∀ k ∈ ks, Documented (decls k)) →
      cumulate decls ks = some (ks.flatMap fun k => documentedPaths (decls k))
  | [], _ => rfl
  | k :: ks, h => by
    simp only [cumulate, stageStrings_documented (h k (List.mem_cons_self _ _)),
      cumulate_documented decls ks fun k' hk => h k' (List.mem_cons_of_mem _ hk),
      bind, Option.some_bind, List.flatMap_cons]
    rfl

/-- On declarations of the documented shape the resolver never raises and is the list-level
`buildCumulativeWhitelist` of the paths they list. -/
theorem buildCumulativeWhitelistFrom_documented (decls : Nat → Declaration) (n : Int)
    (h : ∀ k : Nat, 1 ≤ k → (k : Int) ≤ n → Documented (decls k)) :
    buildCumulativeWhitelistFrom decls n =
      some (buildCumulativeWhitelist (fun k => documentedPaths (decls k)) n) := by
  rw [buildCumulativeWhitelistFrom, cumulate_documented decls _ fun k hk => ?_]
  · rfl
  · obtain ⟨h1, h2⟩ := mem_stages.mp hk
    exact h k h1 h2

/-- Stage 1 lists one file; stage 2 has no configuration. -/
def oneListedFile (k : Nat) : Declaration :=
  if k = 1 then .parsed (.obj [("whitelist", .arr [.str "kernel/src/lib.rs"])]) else .missing

theorem buildCumulativeWhitelistFrom_one_listed :
    (∀ k : Nat, 1 ≤ k → (k : Int) ≤ 2 → Documented (oneListedFile k)) ∧
      buildCumulativeWhitelistFrom oneListedFile 2 =
        some (buildCumulativeWhitelist (fun k => documentedPaths (oneListedFile k)) 2) := by
  have h : ∀ k : Nat, 1 ≤ k → (k : Int) ≤ 2 → Documented (oneListedFile k) := by
    intro k _ _
    by_cases hk : k = 1
    · simp only [oneListedFile, hk, if_true]
      exact ⟨["kernel/src/lib.rs"], rfl⟩
    · simp only [oneListedFile, hk, if_false]
      trivial
  exact ⟨h, buildCumulativeWhitelistFrom_documented oneListedFile 2 h⟩

end KeosGrader
