import Mathlib.Data.Rat.Defs
import KeosGrader.Capture

/-! `grade` and the batch branch of `grade_single`. The emulator is the environment: for each test
of each rubric it runs once, and how that run ends (with its captured streams and exit status,
or at the timeout) is a parameter, as is the run of each post-hook. Nothing below depends on what
those runs do. -/

namespace KeosGrader

/-- A test's entry in `.grade-target`: `timeout`, `mem` and `cpu` when given, and `post-hook`
when it is a list (any other value counts as absent). -/
structure TestConf where
  timeout : Option Nat
  mem : Option String
  cpu : Option Nat
  postHook : Option (List String)
  deriving DecidableEq

/-- A rubric: its `score` and its `tests`, in the order of the configuration. -/
structure Rubric where
  score : ℚ
  tests : List (String × TestConf)
  deriving DecidableEq

/-- What `grade` hands the emulator for one test: the test's name, which `setup_kernel_arguments`
passes to the kernel, and the resources, defaulting to 4 CPUs, `512M` and 30 seconds. -/
structure Invocation where
  target : String
  cpu : Nat
  mem : String
  timeout : Nat
  deriving DecidableEq

def invocation (name : String) (conf : TestConf) : Invocation :=
  ⟨name, conf.cpu.getD 4, conf.mem.getD "512M", conf.timeout.getD 30⟩

/-- How a supervised process ended: within its timeout, with its exit status and captured
streams, or not (killed at the timeout, or never started). -/
inductive Run where
  | finished (status : Int) (stdout stderr : List UInt8)
  | timedOut
  | failedToStart
  deriving DecidableEq

/-- The runs of the environment: the emulator's run and live reads for each test of each rubric,
and the run of each post-hook. -/
structure Behaviour where
  emulator : String → String → Invocation → Run
  live : String → String → Invocation → List (List UInt8)
  hook : String → String → List String → Nat → Run

/-- `'test result: ok. 1 passed; 0 failed'`. -/
def successMarker : List Char := "test result: ok. 1 passed; 0 failed".toList

/-- The batch branch of `grade_single`: `subprocess.run(..., capture_output=True, text=True,
timeout=...)`, whose decoding of either stream may raise; every exception gives `'timeout'`. -/
def gradeSingleBatch : Run → List Char
  | .finished _ out err =>
    match decodeText out, decodeText err with
    | some o, some _ => o
    | _, _ => "timeout".toList
  | _ => "timeout".toList

/-- The post-hook block of `grade`, after a primary pass: the hook's exit status decides, a
failure appends the hook's standard error to the output, and an exception fails the test. -/
def postHookResult (hook : List String) (output : List Char) : Run → Bool × List Char
  | .finished status out err =>
    match decodeText out, decodeText err with
    | some _, some e =>
      if status = 0 then (true, output)
      else (false, output ++ "\nPOST-HOOK [`".toList ++ (" ".intercalate hook).toList ++
        "`] Failed: ".toList ++ e)
    | _, _ => (false, output)
  | _ => (false, output)

/-- The filter test of `grade`: a filter other than `[]` skips the tests it does not name. -/
def skipped (filt : Option (List String)) (name : String) : Bool :=
  match filt with
  | some f => decide (name ∉ f) && !f.isEmpty
  | none => false

section Grade

variable (b : Behaviour)

/-- `grade_single` for one test: the batch branch without a filter, the live one with. -/
def testOutput (filt : Option (List String)) (rname name : String) (conf : TestConf) : List Char :=
  match filt with
  | none => gradeSingleBatch (b.emulator rname name (invocation name conf))
  | some _ => liveText (b.live rname name (invocation name conf))

/-- The classification of an output: the marker decides, then a configured post-hook may
overturn a pass. -/
def classify (rname name : String) (conf : TestConf) (output : List Char) : Bool × List Char :=
  match decide (successMarker <:+: output), conf.postHook with
  | true, some hook => postHookResult hook output (b.hook rname name hook (conf.timeout.getD 30))
  | passed, _ => (passed, output)

variable (filt : Option (List String))

/-- One test that runs: its flag and output, or `none` when the interactive mode meets a panic and
`grade` returns. -/
def runTest (rname name : String) (conf : TestConf) : Option (Bool × List Char) :=
  if filt.isSome ∧ "panic".toList <:+: testOutput b filt rname name conf then none
  else some (classify b rname name conf (testOutput b filt rname name conf))

/-- The inner loop of `grade` over one rubric's tests. -/
def gradeTests (rname : String) : List (String × TestConf) →
    Option (List (String × (Bool × List Char)))
  | [] => some []
  | (name, conf) :: rest =>
    if skipped filt name then gradeTests rname rest
    else do
      let r ← runTest b filt rname name conf
      let rs ← gradeTests rname rest
      pure ((name, r) :: rs)

/-- `grade`: the results of every rubric, or `none` when it returns early. -/
def grade : List (String × Rubric) → Option (List (String × List (String × (Bool × List Char))))
  | [] => some []
  | (rname, rubric) :: rest => do
    let t ← gradeTests b filt rname rubric.tests
    let u ← grade rest
    pure ((rname, t) :: u)

end Grade

section Batch

variable (b : Behaviour)

/-- The result of one test in batch mode. -/
def batchTest (rname name : String) (conf : TestConf) : Bool × List Char :=
  classify b rname name conf (gradeSingleBatch (b.emulator rname name (invocation name conf)))

/-- The results of batch mode: every rubric, and every test of it, once, in order. -/
def batchResults (rubrics : List (String × Rubric)) :
    List (String × List (String × (Bool × List Char))) :=
  rubrics.map fun r => (r.1, r.2.tests.map fun t => (t.1, batchTest b r.1 t.1 t.2))

/-- When a test passes in batch mode: the emulator finished within the timeout, both captured
streams are valid UTF-8 and the standard output holds the marker's bytes; and a configured
post-hook finished within the timeout with status 0 and valid UTF-8 on both streams. -/
def BatchPass (rname name : String) (conf : TestConf) : Prop :=
  (∃ status out err, b.emulator rname name (invocation name conf) = .finished status out err ∧
    (decodeUtf8 out).isSome ∧ (decodeUtf8 err).isSome ∧ encodeUtf8 successMarker <:+: out) ∧
  ∀ hook, conf.postHook = some hook → ∃ out err,
    b.hook rname name hook (conf.timeout.getD 30) = .finished 0 out err ∧
      (decodeUtf8 out).isSome ∧ (decodeUtf8 err).isSome

theorem gradeTests_batch (rname : String) (tests : List (String × TestConf)) :
    gradeTests b none rname tests = some (tests.map fun t => (t.1, batchTest b rname t.1 t.2)) := by
  induction tests with
  | nil => rfl
  | cons t rest ih =>
    obtain ⟨name, conf⟩ := t
    simp only [gradeTests, skipped, runTest, Option.isSome_none, Bool.false_eq_true, false_and,
      if_false, ih]
    rfl

theorem grade_batch_results (rubrics : List (String × Rubric)) :
    grade b none rubrics = some (batchResults b rubrics) := by
  induction rubrics with
  | nil => rfl
  | cons r rest ih =>
    obtain ⟨rname, rubric⟩ := r
    simp only [grade, gradeTests_batch, ih]
    rfl

theorem successMarker_ascii : ∀ c ∈ successMarker, IsAscii c := by decide

theorem successMarker_no_newline : ∀ c ∈ successMarker, isNewline c = false := by decide

/-- The marker occurs in the decoded, newline-translated text exactly when its bytes occur in the
stream. -/
theorem successMarker_infix_decodeText {out : List UInt8} {o : List Char}
    (h : decodeText out = some o) : successMarker <:+: o ↔ encodeUtf8 successMarker <:+: out := by
  obtain ⟨cs, hcs, rfl⟩ := Option.map_eq_some'.mp h
  rw [infix_translateNewlines (by decide) successMarker_no_newline,
    (encodeUtf8_of_decodeUtf8 hcs).symm, infix_encodeUtf8 successMarker_ascii (by decide)]

theorem successMarker_not_timeout : ¬ successMarker <:+: "timeout".toList := by decide

theorem exists_finished_iff {status : Int} {out err : List UInt8}
    {P : Int → List UInt8 → List UInt8 → Prop} :
    (∃ s o e, Run.finished status out err = .finished s o e ∧ P s o e) ↔ P status out err :=
  ⟨fun ⟨_, _, _, h, hp⟩ => by cases h; exact hp, fun hp => ⟨_, _, _, rfl, hp⟩⟩

theorem decodeText_isSome (bs : List UInt8) : (decodeText bs).isSome = (decodeUtf8 bs).isSome := by
  unfold decodeText; cases decodeUtf8 bs <;> rfl

/-- The flag of the batch branch before any post-hook. -/
theorem marker_gradeSingleBatch (r : Run) :
    successMarker <:+: gradeSingleBatch r ↔ ∃ status out err, r = .finished status out err ∧
      (decodeUtf8 out).isSome ∧ (decodeUtf8 err).isSome ∧ encodeUtf8 successMarker <:+: out := by
  cases r with
  | finished status out err =>
    rw [exists_finished_iff, gradeSingleBatch, ← decodeText_isSome, ← decodeText_isSome]
    cases ho : decodeText out with
    | none => simpa using successMarker_not_timeout
    | some o =>
      cases he : decodeText err with
      | none => simpa using successMarker_not_timeout
      | some e => simp [successMarker_infix_decodeText ho]
  | timedOut => simpa [gradeSingleBatch] using successMarker_not_timeout
  | failedToStart => simpa [gradeSingleBatch] using successMarker_not_timeout

theorem postHookResult_passed (hook : List String) (output : List Char) (r : Run) :
    (postHookResult hook output r).1 = true ↔
      ∃ out err, r = .finished 0 out err ∧ (decodeUtf8 out).isSome ∧ (decodeUtf8 err).isSome := by
  cases r with
  | finished status out err =>
    have hrun : (∃ o e, Run.finished status out err = .finished 0 o e ∧ (decodeUtf8 o).isSome ∧
        (decodeUtf8 e).isSome) ↔ status = 0 ∧ (decodeUtf8 out).isSome ∧ (decodeUtf8 err).isSome :=
      ⟨fun ⟨_, _, h, hp⟩ => by cases h; exact ⟨rfl, hp⟩,
        fun ⟨hs, hp⟩ => ⟨_, _, by rw [hs], hp⟩⟩
    rw [hrun, postHookResult, ← decodeText_isSome, ← decodeText_isSome]
    cases decodeText out <;> cases decodeText err <;> by_cases hs : status = 0 <;> simp [hs]
  | timedOut => simp [postHookResult]
  | failedToStart => simp [postHookResult]

theorem batchTest_passed (rname name : String) (conf : TestConf) :
    (batchTest b rname name conf).1 = true ↔ BatchPass b rname name conf := by
  unfold batchTest classify BatchPass
  rw [← marker_gradeSingleBatch]
  cases hm : decide (successMarker <:+: gradeSingleBatch (b.emulator rname name
    (invocation name conf))) <;> cases hh : conf.postHook <;>
    simp_all [postHookResult_passed]

/-- A run that prints the marker and then a byte no UTF-8 text holds. -/
def markerThenInvalid : Behaviour :=
  ⟨fun _ _ _ => .finished 0 (encodeUtf8 successMarker ++ [0xFF]) [], fun _ _ _ => [],
    fun _ _ _ _ => .timedOut⟩

/-- Batch mode grades every test of every rubric once, in order, and a test passes exactly when
its run finished in time with valid UTF-8 on both streams and the marker's bytes in its standard
output, and its post-hook, when configured, finished in time with status 0 and valid UTF-8. -/
theorem grade_batch (rubrics : List (String × Rubric)) :
    grade b none rubrics = some (batchResults b rubrics) ∧
      ∀ rname name conf, (batchTest b rname name conf).1 = true ↔ BatchPass b rname name conf :=
  ⟨grade_batch_results b rubrics, batchTest_passed b⟩

end Batch

/-- The marker on the standard output of a run that finished in time, and the test fails: the
stray byte makes the decoding raise, and the output becomes `'timeout'`. -/
theorem grade_marker_invalid_byte :
    encodeUtf8 successMarker <:+: encodeUtf8 successMarker ++ [0xFF] ∧
      grade markerThenInvalid none [("core", ⟨10, [("t1", ⟨none, none, none, none⟩)]⟩)] =
        some [("core", [("t1", (false, "timeout".toList))])] :=
  ⟨(List.prefix_append _ _).isInfix, rfl⟩

/-- The tests a filter runs: those it names, or every test when it is `[]`. -/
def Selected (f : List String) (name : String) : Prop := f = [] ∨ name ∈ f

instance (f : List String) (name : String) : Decidable (Selected f name) := by
  unfold Selected; infer_instance

theorem skipped_some (f : List String) (name : String) :
    skipped (some f) name = !decide (Selected f name) := by
  by_cases h : f = [] <;> simp [skipped, Selected, h]

section Interactive

variable (b : Behaviour) (f : List String)

/-- The result of one test in interactive mode, classified from its live output. -/
def liveTest (rname name : String) (conf : TestConf) : Bool × List Char :=
  classify b rname name conf (liveText (b.live rname name (invocation name conf)))

/-- A test whose output as `grade_single` returns it, the text after the last clear-screen line
once the emulator has exited, holds `panic`. -/
def Panics (rname name : String) (conf : TestConf) : Prop :=
  "panic".toList <:+: liveText (b.live rname name (invocation name conf))

instance (rname name : String) (conf : TestConf) : Decidable (Panics b rname name conf) := by
  unfold Panics; infer_instance

/-- Some test the filter runs panics. -/
def PanicIn (rubrics : List (String × Rubric)) : Prop :=
  ∃ r ∈ rubrics, ∃ t ∈ r.2.tests, Selected f t.1 ∧ Panics b r.1 t.1 t.2

instance (rubrics : List (String × Rubric)) : Decidable (PanicIn b f rubrics) := by
  unfold PanicIn; infer_instance

/-- What interactive mode returns when no test it runs panics: each rubric, with the tests the
filter runs, in order. -/
def liveResults (rubrics : List (String × Rubric)) :
    List (String × List (String × (Bool × List Char))) :=
  rubrics.map fun r =>
    (r.1, (r.2.tests.filter fun t => decide (Selected f t.1)).map fun t =>
      (t.1, liveTest b r.1 t.1 t.2))

theorem runTest_live (rname name : String) (conf : TestConf) :
    runTest b (some f) rname name conf =
      if Panics b rname name conf then none else some (liveTest b rname name conf) := by
  simp only [runTest, testOutput, Option.isSome_some, true_and, Panics, liveTest]

theorem gradeTests_filtered (rname : String) (tests : List (String × TestConf)) :
    gradeTests b (some f) rname tests =
      if ∃ t ∈ tests, Selected f t.1 ∧ Panics b rname t.1 t.2 then none
      else some ((tests.filter fun t => decide (Selected f t.1)).map fun t =>
        (t.1, liveTest b rname t.1 t.2)) := by
  induction tests with
  | nil => simp [gradeTests]
  | cons t rest ih =>
    obtain ⟨name, conf⟩ := t
    simp only [List.exists_mem_cons_iff]
    by_cases hs : Selected f name
    · by_cases hp : Panics b rname name conf
      · simp [gradeTests, skipped_some, hs, runTest_live, hp]
      · simp only [gradeTests, skipped_some, hs, runTest_live, hp, ih, decide_True, Bool.not_true,
          Bool.false_eq_true, if_false, and_false, false_or]
        split <;> simp [hs]
    · simp only [gradeTests, skipped_some, hs, decide_False, Bool.not_false, if_true, ih, false_and,
        false_or, List.filter_cons, Bool.false_eq_true, if_false]

theorem panicIn_cons (r : String × Rubric) (rest : List (String × Rubric)) :
    PanicIn b f (r :: rest) ↔
      (∃ t ∈ r.2.tests, Selected f t.1 ∧ Panics b r.1 t.1 t.2) ∨ PanicIn b f rest :=
  List.exists_mem_cons_iff _ _ _

/-- Interactive mode grades, from their live output, exactly the tests the filter runs, each once
and in order, and returns nothing once the returned output of one of them holds `panic`. -/
theorem grade_filtered (rubrics : List (String × Rubric)) :
    grade b (some f) rubrics =
      if PanicIn b f rubrics then none else some (liveResults b f rubrics) := by
  induction rubrics with
  | nil => simp [grade, PanicIn, liveResults]
  | cons r rest ih =>
    obtain ⟨rname, rubric⟩ := r
    simp only [grade, gradeTests_filtered, ih, panicIn_cons]
    by_cases h1 : ∃ t ∈ rubric.tests, Selected f t.1 ∧ Panics b rname t.1 t.2
    · simp [h1]
    · by_cases h2 : PanicIn b f rest
      · simp [h1, h2]
      · simp [h1, h2, liveResults]

end Interactive

end KeosGrader
