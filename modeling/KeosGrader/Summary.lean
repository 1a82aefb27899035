import Mathlib
import KeosGrader.Grade

/-! `summarize`. It walks the results rubric by rubric, counts passes, scores each rubric as
`rscore / float(len(rubric.items())) * rmaxscore`, and collects the failed tests in a dictionary
keyed by test name. Scores are computed here in exact rationals; the Python floats round them.
A rubric without tests divides by zero, and two failed tests of one name share one slot. -/

namespace KeosGrader

/-- What `summarize` has accumulated: the `failed` dictionary in insertion order, `max_score`,
`score`, `tests`, `passed`, and each rubric's printed score and maximum. -/
structure Tally where
  failed : List (String × List Char)
  maxScore : ℚ
  score : ℚ
  tests : Nat
  passed : Nat
  rubricScores : List (String × ℚ × ℚ)
  deriving DecidableEq

/-- `failed[name] = output`: a new name is appended, a known one keeps its place and takes the
new output. -/
def recordFailure (failed : List (String × List Char)) (name : String) (output : List Char) :
    List (String × List Char) :=
  if failed.any (·.1 == name) then failed.map fun e => if e.1 = name then (name, output) else e
  else failed ++ [(name, output)]

/-- The inner loop over one rubric's results: the failures it records. -/
def recordFailures (failed : List (String × List Char)) :
    List (String × (Bool × List Char)) → List (String × List Char)
  | [] => failed
  | (name, (result, output)) :: rest =>
    recordFailures (if result then failed else recordFailure failed name output) rest

/-- The number of passes among one rubric's results, `rscore`. -/
def passCount (results : List (String × (Bool × List Char))) : Nat :=
  (results.filter (·.2.1)).length

/-- The outer loop over `grading_result`. -/
def summarizeFrom (rubrics : List (String × Rubric)) :
    Tally → List (String × List (String × (Bool × List Char))) → Except String Tally
  | t, [] => .ok t
  | t, (rname, results) :: rest =>
    match rubrics.lookup rname with
    | none => .error ("KeyError: '" ++ rname ++ "'")
    | some r =>
      if results.length = 0 then .error "float division by zero"
      else
        summarizeFrom rubrics
          { failed := recordFailures t.failed results
            maxScore := t.maxScore + r.score
            score := t.score + (passCount results : ℚ) / results.length * r.score
            tests := t.tests + results.length
            passed := t.passed + passCount results
            rubricScores := t.rubricScores ++
              [(rname, (passCount results : ℚ) / results.length * r.score, r.score)] } rest

/-- The report `summarize` prints: its tally, and whether the perfect-score banner shows. -/
structure Report where
  tally : Tally
  perfect : Bool
  deriving DecidableEq

def summarize (rubrics : List (String × Rubric))
    (results : List (String × List (String × (Bool × List Char)))) : Except String Report :=
  (summarizeFrom rubrics ⟨[], 0, 0, 0, 0, []⟩ results).map fun t => ⟨t, t.passed == t.tests⟩

theorem keys_recordFailure (failed : List (String × List Char)) (name : String)
    (output : List Char) :
    (recordFailure failed name output).map (·.1) =
      if name ∈ failed.map (·.1) then failed.map (·.1) else failed.map (·.1) ++ [name] := by
  unfold recordFailure
  by_cases h : name ∈ failed.map (·.1)
  · obtain ⟨e, he, rfl⟩ := List.mem_map.mp h
    have hany : (failed.any fun x => x.1 == e.1) = true :=
      List.any_eq_true.mpr ⟨e, he, beq_self_eq_true _⟩
    rw [hany, if_pos rfl, if_pos h, List.map_map]
    refine List.map_congr_left fun x _ => ?_
    by_cases hx : x.1 = e.1 <;> simp [hx]
  · have hany : failed.any (·.1 == name) = false := by
      simpa using fun x hx heq => h (List.mem_map.mpr ⟨x, hx, heq⟩)
    rw [hany, if_neg Bool.false_ne_true, if_neg h, List.map_append]
    rfl

/-- Recording a failure keeps one entry per name and adds the name. -/
theorem recordFailure_keys {failed : List (String × List Char)} (h : (failed.map (·.1)).Nodup)
    (name : String) (output : List Char) :
    ((recordFailure failed name output).map (·.1)).Nodup ∧
      ∀ n, n ∈ (recordFailure failed name output).map (·.1) ↔ n ∈ failed.map (·.1) ∨ n = name := by
  rw [keys_recordFailure]
  split
  · rename_i hmem
    exact ⟨h, fun n => ⟨.inl, by rintro (h | rfl) <;> assumption⟩⟩
  · rename_i hmem
    refine ⟨List.nodup_append.mpr ⟨h, List.nodup_singleton _, ?_⟩, fun n => by simp⟩
    intro a ha hb
    rw [List.mem_singleton] at hb
    exact hmem (hb ▸ ha)

/-- The loop over the results keeps one entry per name, and its names are those recorded before
and those of the failed tests. -/
theorem foldl_recordFailures_keys (results : List (String × List (String × (Bool × List Char)))) :
    ∀ failed : List (String × List Char), (failed.map (·.1)).Nodup →
      ((results.foldl (fun f r => recordFailures f r.2) failed).map (·.1)).Nodup ∧
        ∀ n, n ∈ (results.foldl (fun f r => recordFailures f r.2) failed).map (·.1) ↔
          n ∈ failed.map (·.1) ∨ ∃ r ∈ results, ∃ x ∈ r.2, x.2.1 = false ∧ x.1 = n := by
  suffices hone : ∀ (rs : List (String × (Bool × List Char))) (failed : List (String × List Char)),
      (failed.map (·.1)).Nodup → ((recordFailures failed rs).map (·.1)).Nodup ∧
        ∀ n, n ∈ (recordFailures failed rs).map (·.1) ↔
          n ∈ failed.map (·.1) ∨ ∃ x ∈ rs, x.2.1 = false ∧ x.1 = n by
    induction results with
    | nil => exact fun failed h => ⟨h, fun n => by simp⟩
    | cons r rest ih =>
      intro failed h
      obtain ⟨hnd, hmem⟩ := hone r.2 failed h
      obtain ⟨hnd', hmem'⟩ := ih _ hnd
      refine ⟨hnd', fun n => ?_⟩
      rw [List.foldl_cons, hmem', hmem]
      simp only [List.mem_cons, exists_eq_or_imp, or_assoc]
  intro rs
  induction rs with
  | nil => exact fun failed h => ⟨h, fun n => by simp [recordFailures]⟩
  | cons x rest ih =>
    intro failed h
    obtain ⟨name, result, output⟩ := x
    cases result
    · obtain ⟨hnd, hmem⟩ := recordFailure_keys h name output
      obtain ⟨hnd', hmem'⟩ := ih _ hnd
      refine ⟨hnd', fun n => ?_⟩
      rw [recordFailures, if_neg Bool.false_ne_true, hmem', hmem]
      simp only [List.mem_cons, exists_eq_or_imp, or_assoc, eq_comm, true_and]
    · obtain ⟨hnd', hmem'⟩ := ih failed h
      refine ⟨hnd', fun n => ?_⟩
      rw [recordFailures, if_pos rfl, hmem']
      simp

theorem lookup_isSome_of_mem {β : Type} {l : List (String × β)} {r : String × β} (h : r ∈ l) :
    (l.lookup r.1).isSome := by
  induction l with
  | nil => cases h
  | cons e l ih =>
    rw [List.lookup_cons]
    split
    · rfl
    · rename_i hne
      rcases List.mem_cons.mp h with rfl | h
      · simp at hne
      · exact ih h

theorem summarizeFrom_raises (b : Behaviour) (rubrics : List (String × Rubric)) :
    ∀ (t : Tally) (rs : List (String × Rubric)), (∀ r ∈ rs, r ∈ rubrics) →
      (∃ r ∈ rs, r.2.tests = []) →
      summarizeFrom rubrics t (batchResults b rs) = .error "float division by zero"
  | _, [], _, ⟨_, h, _⟩ => nomatch h
  | t, r :: rest, hsub, ⟨r', hr', hempty⟩ => by
    obtain ⟨rb, hrb⟩ := Option.isSome_iff_exists.mp
      (lookup_isSome_of_mem (hsub r (List.mem_cons_self _ _)))
    simp only [batchResults, List.map_cons, summarizeFrom, hrb, List.length_map]
    by_cases hr : r.2.tests = []
    · rw [if_pos (by rw [hr]; rfl)]
    · rw [if_neg (by simpa using hr)]
      refine summarizeFrom_raises b rubrics _ rest (fun x hx => hsub x (List.mem_cons_of_mem _ hx))
        ⟨r', ?_, hempty⟩
      rcases List.mem_cons.mp hr' with rfl | h
      · exact absurd hempty hr
      · exact h

/-- Whatever the emulator does, a configuration with a rubric without tests makes `summarize`
raise `ZeroDivisionError`. -/
theorem summarize_raises_on_empty_rubric (b : Behaviour) (rubrics : List (String × Rubric))
    (hempty : ∃ r ∈ rubrics, r.2.tests = []) :
    summarize rubrics (batchResults b rubrics) = .error "float division by zero" := by
  rw [summarize, summarizeFrom_raises b rubrics _ rubrics (fun _ => id) hempty]
  rfl

/-- A rubric without tests. -/
def emptyCore : List (String × Rubric) := [("core", ⟨10, []⟩)]

theorem summarize_raises_on_empty_core :
    (∃ r ∈ emptyCore, r.2.tests = []) ∧
      summarize emptyCore (batchResults markerThenInvalid emptyCore) =
        .error "float division by zero" :=
  ⟨⟨_, List.mem_cons_self _ _, rfl⟩, summarize_raises_on_empty_rubric markerThenInvalid emptyCore
    ⟨_, List.mem_cons_self _ _, rfl⟩⟩

/-- The score `summarize` gives one rubric's results. -/
def rubricScore (rubrics : List (String × Rubric))
    (r : String × List (String × (Bool × List Char))) : ℚ :=
  match rubrics.lookup r.1 with
  | some rb => (passCount r.2 : ℚ) / r.2.length * rb.score
  | none => 0

theorem passCount_le (results : List (String × (Bool × List Char))) :
    passCount results ≤ results.length :=
  List.length_filter_le _ _

/-- When every rubric is found and none is empty, `summarize`'s loop completes and adds up the
rubrics' scores, tests and passes. -/
theorem summarizeFrom_ok (rubrics : List (String × Rubric)) :
    ∀ (t : Tally) (results : List (String × List (String × (Bool × List Char)))),
      (∀ r ∈ results, (rubrics.lookup r.1).isSome ∧ r.2 ≠ []) →
      ∃ t', summarizeFrom rubrics t results = .ok t' ∧
        t'.score = t.score + (results.map (rubricScore rubrics)).sum ∧
        t'.tests = t.tests + (results.map (·.2.length)).sum ∧
        t'.passed = t.passed + (results.map (passCount ·.2)).sum ∧
        t'.failed = results.foldl (fun f r => recordFailures f r.2) t.failed
  | t, [], _ => ⟨t, rfl, by simp, by simp, by simp, rfl⟩
  | t, (rname, results) :: rest, h => by
    obtain ⟨hfound, hne⟩ := h _ (List.mem_cons_self _ _)
    obtain ⟨rb, hrb⟩ := Option.isSome_iff_exists.mp hfound
    have hlen : results.length ≠ 0 := by simpa using hne
    obtain ⟨t', ht', hscore, htests, hpassed, hfailed⟩ :=
      summarizeFrom_ok rubrics _ rest fun r hr => h r (List.mem_cons_of_mem _ hr)
    refine ⟨t', ?_, ?_, ?_, ?_, ?_⟩
    · simp only [summarizeFrom, hrb, hlen, if_false]
      exact ht'
    · rw [hscore, List.map_cons, List.sum_cons, rubricScore, hrb, add_assoc]
    · rw [htests, List.map_cons, List.sum_cons, add_assoc]
    · rw [hpassed, List.map_cons, List.sum_cons, add_assoc]
    · rw [hfailed]; rfl

theorem sum_eq_sum_of_le {α : Type} (l : List α) (f g : α → Nat) (hle : ∀ x ∈ l, f x ≤ g x) :
    (l.map f).sum = (l.map g).sum ↔ ∀ x ∈ l, f x = g x := by
  induction l with
  | nil => simp
  | cons x xs ih =>
    have hx := hle x (List.mem_cons_self _ _)
    have hxs : (xs.map f).sum ≤ (xs.map g).sum :=
      List.sum_le_sum fun y hy => hle y (List.mem_cons_of_mem _ hy)
    rw [List.map_cons, List.map_cons, List.sum_cons, List.sum_cons, List.forall_mem_cons,
      ← ih fun y hy => hle y (List.mem_cons_of_mem _ hy)]
    omega

/-- The names of the tests that fail in batch mode, rubric by rubric, repetitions included. -/
def failedNames (b : Behaviour) (rubrics : List (String × Rubric)) : List String :=
  rubrics.flatMap fun r => (r.2.tests.filter fun t => !(batchTest b r.1 t.1 t.2).1).map (·.1)

/-- On a configuration with distinct rubric names and no rubric without tests, `summarize`
completes on the batch results; its total is the sum of each rubric's score times its share of
passes, the perfect-score banner shows exactly when every test passed, and the diagnostics name
each failed test's name once, so two failed tests of one name share one diagnostic. -/
theorem summarize_batch (b : Behaviour) (rubrics : List (String × Rubric))
    (hnodup : (rubrics.map (·.1)).Nodup) (hne : ∀ r ∈ rubrics, r.2.tests ≠ []) :
    ∃ rep, summarize rubrics (batchResults b rubrics) = .ok rep ∧
      rep.tally.score = ((batchResults b rubrics).map (rubricScore rubrics)).sum ∧
      (rep.perfect = true ↔ ∀ r ∈ rubrics, ∀ t ∈ r.2.tests, (batchTest b r.1 t.1 t.2).1 = true) ∧
      (rep.tally.failed.map (·.1)).Perm (failedNames b rubrics).dedup := by
  have hok : ∀ r ∈ batchResults b rubrics, (rubrics.lookup r.1).isSome ∧ r.2 ≠ [] := by
    intro r hr
    obtain ⟨r, hmem, rfl⟩ := List.mem_map.mp hr
    refine ⟨by rw [lookup_of_mem hnodup hmem]; rfl, ?_⟩
    simpa using hne r hmem
  obtain ⟨t', ht', hscore, htests, hpassed, hfailed⟩ :=
    summarizeFrom_ok rubrics ⟨[], 0, 0, 0, 0, []⟩ _ hok
  refine ⟨⟨t', t'.passed == t'.tests⟩, by rw [summarize, ht']; rfl, by simpa using hscore, ?_, ?_⟩
  · rw [beq_iff_eq, hpassed, htests, Nat.zero_add, Nat.zero_add,
      sum_eq_sum_of_le _ _ _ fun r _ => passCount_le r.2]
    simp only [batchResults, List.forall_mem_map, passCount]
    refine forall₂_congr fun r _ => ?_
    rw [List.filter_length_eq_length]
    exact List.forall_mem_map
  · obtain ⟨hnd, hmem⟩ := foldl_recordFailures_keys (batchResults b rubrics) [] List.nodup_nil
    rw [hfailed]
    refine (List.perm_ext_iff_of_nodup hnd (List.nodup_dedup _)).mpr fun n => ?_
    rw [hmem, List.mem_dedup]
    simp only [batchResults, failedNames, List.mem_map, List.mem_flatMap, List.mem_filter,
      exists_exists_and_eq_and, List.map_nil, List.mem_nil_iff, false_and, exists_false,
      false_or, Bool.not_eq_true', and_assoc]

/-- Two rubrics with a test of the same name. -/
def sharedName : List (String × Rubric) :=
  [("core", ⟨10, [("t1", ⟨none, none, none, none⟩)]⟩),
    ("extra", ⟨5, [("t1", ⟨none, none, none, none⟩)]⟩)]

theorem summarize_batch_shared_name :
    (sharedName.map (·.1)).Nodup ∧ (∀ r ∈ sharedName, r.2.tests ≠ []) ∧
      ∃ rep, summarize sharedName (batchResults markerThenInvalid sharedName) = .ok rep ∧
        rep.tally.score =
          ((batchResults markerThenInvalid sharedName).map (rubricScore sharedName)).sum ∧
        (rep.perfect = true ↔ ∀ r ∈ sharedName, ∀ t ∈ r.2.tests,
          (batchTest markerThenInvalid r.1 t.1 t.2).1 = true) ∧
        (rep.tally.failed.map (·.1)).Perm (failedNames markerThenInvalid sharedName).dedup :=
  ⟨by decide, by decide, summarize_batch markerThenInvalid sharedName (by decide) (by decide)⟩

end KeosGrader
