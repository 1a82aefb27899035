import KeosGrader.Summary
import KeosGrader.Walk

/-! The diagnostics that end `summarize`'s report, one `TEST` line per entry of `failed`. The
dictionary keeps one entry per name and a later failure overwrites it, so a test that fails twice
is reported once, with the output of its last failure. -/

namespace KeosGrader

/-- `c in string.printable`: ASCII digits, letters and punctuation, the space, and
`\t\n\r\x0b\x0c`. -/
def isPrintable (c : Char) : Bool :=
  (0x20 ≤ c.toNat && c.toNat ≤ 0x7E) || (0x09 ≤ c.toNat && c.toNat ≤ 0x0D)

/-- `strip_unprintable`. -/
def stripUnprintable (s : List Char) : List Char := s.filter isPrintable

/-- The diagnostic of one entry of `failed`, its output passed through `strip_unprintable`. -/
def diagnosticLine (entry : String × List Char) : String :=
  "TEST `" ++ entry.1 ++ "`: " ++ String.mk (stripUnprintable entry.2)

/-- The lines `summarize` prints last: a rule and one diagnostic per entry, when any test
failed. -/
def diagnosticLines (failed : List (String × List Char)) : List String :=
  if failed.length > 0 then "----------------" :: failed.map diagnosticLine else []

/-- The output of the last failed result named `n`. -/
def lastFailure : List (String × (Bool × List Char)) → String → Option (List Char)
  | [], _ => none
  | (name, (result, output)) :: rest, n =>
    (lastFailure rest n).or (if name = n ∧ result = false then some output else none)

theorem lastFailure_append (xs ys : List (String × (Bool × List Char))) (n : String) :
    lastFailure (xs ++ ys) n = (lastFailure ys n).or (lastFailure xs n) := by
  induction xs with
  | nil => simp [lastFailure]
  | cons x xs ih =>
    obtain ⟨name, result, output⟩ := x
    rw [List.cons_append, lastFailure, lastFailure, ih, Option.or_assoc]

theorem lookup_map_overwrite (failed : List (String × List Char)) (name n : String)
    (output : List Char) :
    (failed.map fun e => if e.1 = name then (name, output) else e).lookup n =
      if name = n ∧ ∃ e ∈ failed, e.1 = name then some output else failed.lookup n := by
  induction failed with
  | nil => simp
  | cons e rest ih =>
    obtain ⟨k, v⟩ := e
    by_cases hk : k = name
    · subst hk
      by_cases hn : k = n
      · subst hn
        simp
      · have hb : (n == k) = false := beq_false_of_ne (Ne.symm hn)
        simp [hn, List.lookup_cons, hb, ih]
    · by_cases hn : n = k
      · subst hn
        simp [hk, Ne.symm hk]
      · have hb : (n == k) = false := beq_false_of_ne hn
        have hex : (∃ e ∈ (k, v) :: rest, e.1 = name) ↔ ∃ e ∈ rest, e.1 = name := by
          simp only [List.exists_mem_cons_iff, hk, false_or]
        simp only [List.map_cons, hk, if_false, List.lookup_cons, hb, ih, hex]

/-- `failed[name] = output`, read back at any name. -/
theorem lookup_recordFailure (failed : List (String × List Char)) (name n : String)
    (output : List Char) :
    (recordFailure failed name output).lookup n =
      (if name = n then some output else none).or (failed.lookup n) := by
  unfold recordFailure
  split_ifs with hany hn hn
  · have hex : ∃ e ∈ failed, e.1 = name := by simpa using hany
    rw [lookup_map_overwrite, if_pos ⟨hn, hex⟩]
    rfl
  · rw [lookup_map_overwrite, if_neg fun h => hn h.1, Option.none_or]
  · subst hn
    have hnone : failed.lookup name = none := by
      cases hl : failed.lookup name with
      | none => rfl
      | some o => exact absurd (List.any_eq_true.mpr ⟨_, mem_of_lookup hl, by simp⟩) hany
    simp [List.lookup_append, hnone]
  · have hb : (n == name) = false := beq_false_of_ne (Ne.symm hn)
    simp [List.lookup_append, List.lookup_cons, hb]

/-- The loop over one rubric's results leaves each name the output of its last failure there,
or what it had before. -/
theorem lookup_recordFailures (failed : List (String × List Char))
    (rs : List (String × (Bool × List Char))) (n : String) :
    (recordFailures failed rs).lookup n = (lastFailure rs n).or (failed.lookup n) := by
  induction rs generalizing failed with
  | nil => simp [recordFailures, lastFailure]
  | cons x rest ih =>
    obtain ⟨name, result, output⟩ := x
    rw [recordFailures, ih, lastFailure, Option.or_assoc]
    cases result
    · simp [lookup_recordFailure]
    · simp

theorem nodup_recordFailures {failed : List (String × List Char)} (h : (failed.map (·.1)).Nodup)
    (rs : List (String × (Bool × List Char))) : ((recordFailures failed rs).map (·.1)).Nodup := by
  induction rs generalizing failed with
  | nil => exact h
  | cons x rest ih =>
    obtain ⟨name, result, output⟩ := x
    cases result
    · exact ih (recordFailure_keys h name output).1
    · exact ih h

/-- The outer loop keeps one entry per name and leaves each name the output of its last failure
across the rubrics, or what it had before. -/
theorem summarizeFrom_failed (rubrics : List (String × Rubric)) :
    ∀ (t : Tally) (results : List (String × List (String × (Bool × List Char)))) (t' : Tally),
      summarizeFrom rubrics t results = .ok t' → (t.failed.map (·.1)).Nodup →
      (t'.failed.map (·.1)).Nodup ∧
        ∀ n, t'.failed.lookup n = (lastFailure (results.flatMap (·.2)) n).or (t.failed.lookup n)
  | t, [], t', h, hnd => by
    cases h
    exact ⟨hnd, fun n => by simp [lastFailure]⟩
  | t, (rname, results) :: rest, t', h, hnd => by
    unfold summarizeFrom at h
    split at h
    · cases h
    · split_ifs at h
      obtain ⟨hnd', hlook⟩ :=
        summarizeFrom_failed rubrics _ rest t' h (nodup_recordFailures hnd results)
      refine ⟨hnd', fun n => ?_⟩
      rw [hlook, List.flatMap_cons, lastFailure_append, lookup_recordFailures, Option.or_assoc]

/-- With one entry per name, the entries of a name are its lookup. -/
theorem filter_key_eq_lookup {β : Type} (n : String) :
    ∀ {l : List (String × β)}, (l.map (·.1)).Nodup →
      l.filter (fun e => e.1 = n) = ((l.lookup n).map fun o => (n, o)).toList
  | [], _ => rfl
  | (k, v) :: l, h => by
    rw [List.map_cons, List.nodup_cons] at h
    by_cases hk : k = n
    · subst hk
      have hnone : l.filter (fun e => e.1 = k) = [] := List.filter_eq_nil_iff.mpr
        fun e he hek => h.1 (List.mem_map.mpr ⟨e, he, by simpa using hek⟩)
      simp [List.filter_cons, hnone]
    · have hb : (n == k) = false := beq_eq_false_iff_ne.mpr (Ne.symm hk)
      simp [List.filter_cons, hk, List.lookup_cons, hb, filter_key_eq_lookup n h.2]

/-- Whenever `summarize` completes, `failed` holds exactly one entry for each name that failed,
with the output of its last failure across all rubrics, and none for a name that never failed;
the diagnostics print that entry's line, so an earlier failure of the name is never shown. -/
theorem summarize_last_failure {rubrics : List (String × Rubric)}
    {results : List (String × List (String × (Bool × List Char)))} {rep : Report}
    (h : summarize rubrics results = .ok rep) (n : String) :
    rep.tally.failed.filter (fun e => e.1 = n) =
        ((lastFailure (results.flatMap (·.2)) n).map fun o => (n, o)).toList ∧
      ∀ o, lastFailure (results.flatMap (·.2)) n = some o →
        diagnosticLine (n, o) ∈ diagnosticLines rep.tally.failed := by
  unfold summarize at h
  cases ht : summarizeFrom rubrics ⟨[], 0, 0, 0, 0, []⟩ results with
  | error e => simp [ht, Except.map] at h
  | ok t =>
    simp only [ht, Except.map, Except.ok.injEq] at h
    subst h
    obtain ⟨hnd, hlook⟩ := summarizeFrom_failed rubrics _ results t ht List.nodup_nil
    have hlast : t.failed.lookup n = lastFailure (results.flatMap (·.2)) n :=
      (hlook n).trans Option.or_none
    refine ⟨by rw [filter_key_eq_lookup n hnd, hlast], fun o ho => ?_⟩
    have hmem : (n, o) ∈ t.failed := mem_of_lookup (hlast.trans ho)
    rw [diagnosticLines, if_pos (List.length_pos_of_mem hmem)]
    exact List.mem_cons_of_mem _ (List.mem_map_of_mem diagnosticLine hmem)

/-- The test `t1` of `sharedName` fails in both rubrics; the second output resets the console. -/
def failedTwice : List (String × List (String × (Bool × List Char))) :=
  [("core", [("t1", (false, "first".toList))]), ("extra", [("t1", (false, "second\x1bc".toList))])]

theorem summarize_last_failure_twice :
    ∃ rep, summarize sharedName failedTwice = .ok rep ∧
      (rep.tally.failed.filter (fun e => e.1 = "t1") =
          ((lastFailure (failedTwice.flatMap (·.2)) "t1").map fun o => ("t1", o)).toList ∧
        ∀ o, lastFailure (failedTwice.flatMap (·.2)) "t1" = some o →
          diagnosticLine ("t1", o) ∈ diagnosticLines rep.tally.failed) ∧
      lastFailure (failedTwice.flatMap (·.2)) "t1" = some "second\x1bc".toList ∧
      diagnosticLine ("t1", "second\x1bc".toList) = "TEST `t1`: secondc" := by
  obtain ⟨t, ht, -⟩ := summarizeFrom_ok sharedName ⟨[], 0, 0, 0, 0, []⟩ failedTwice (by decide)
  have h : summarize sharedName failedTwice = .ok ⟨t, t.passed == t.tests⟩ := by
    rw [summarize, ht]
    rfl
  exact ⟨_, h, summarize_last_failure h "t1", by decide, by decide⟩

end KeosGrader
