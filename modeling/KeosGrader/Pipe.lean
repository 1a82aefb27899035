import KeosGrader.Capture

/-! The live loop and the emulator as two processes sharing a pipe, interleaved freely. The
emulator writes chunks and exits; the loop polls and, while the emulator runs, reads a whole line
or what is left. It returns at the first poll that sees the exit, whatever the pipe holds. -/

namespace KeosGrader

/-- Where the loop stands: before `p.poll()`, before `p.stdout.readline()`, or returned. -/
inductive Pc where
  | poll
  | read
  | done
  deriving DecidableEq

/-- The two processes and the pipe between them. -/
structure Live where
  /-- The chunks the emulator has still to write. -/
  script : List (List UInt8)
  /-- Bytes written and not yet read. -/
  pipe : List UInt8
  exited : Bool
  pc : Pc
  /-- The lines `readline` returned, in order. -/
  reads : List (List UInt8)
  capture : Capture
  deriving DecidableEq

inductive Actor where
  | emulator
  | loop
  deriving DecidableEq

def Live.start (script : List (List UInt8)) : Live :=
  ⟨script, [], false, .poll, [], ⟨[], []⟩⟩

/-- `readline` on the pipe: the bytes up to and including the first `\n`; at end of file what is
left, possibly nothing; `none` while it blocks. -/
def readline (pipe : List UInt8) (exited : Bool) : Option (List UInt8 × List UInt8) :=
  if 0x0A ∈ pipe then
    some (pipe.takeWhile (· != 0x0A) ++ [0x0A], (pipe.dropWhile (· != 0x0A)).tail)
  else if exited then some (pipe, [])
  else none

/-- One step of one process, or `none` when it cannot move. -/
def Live.step (s : Live) : Actor → Option Live
  | .emulator =>
    if s.exited then none
    else match s.script with
      | c :: cs => some { s with script := cs, pipe := s.pipe ++ c }
      | [] => some { s with exited := true }
  | .loop =>
    match s.pc with
    | .poll => some { s with pc := if s.exited then .done else .read }
    | .read =>
      match readline s.pipe s.exited with
      | some (out, rest) =>
        some { s with
          pipe := rest
          reads := s.reads ++ [out]
          pc := .poll
          capture := liveStep s.capture out }
      | none => none
    | .done => none

/-- The states some schedule reaches from the start. -/
inductive Reachable (script : List (List UInt8)) : Live → Prop where
  | start : Reachable script (Live.start script)
  | step {s s' : Live} (a : Actor) : Reachable script s → s.step a = some s' → Reachable script s'

/-- The interleaving invariant: nothing is lost, duplicated or reordered between the emulator's
output and what the loop read, the loop's state is the capture fold over its reads, and the loop
returns only after the exit, which comes only after the last write. -/
structure Live.Inv (script : List (List UInt8)) (s : Live) : Prop where
  conserved : s.reads.flatten ++ s.pipe ++ s.script.flatten = script.flatten
  captured : s.capture = liveLoop s.reads
  exited_script : s.exited = true → s.script = []
  done_exited : s.pc = .done → s.exited = true

theorem Live.inv_start (script : List (List UInt8)) : (Live.start script).Inv script :=
  ⟨by simp [Live.start], rfl, fun h => (by cases h), fun h => (by cases h)⟩

theorem readline_conserved {pipe : List UInt8} {exited : Bool} {out rest : List UInt8}
    (h : readline pipe exited = some (out, rest)) : out ++ rest = pipe := by
  unfold readline at h
  split at h
  · rename_i hmem
    cases h
    have hd : pipe.dropWhile (· != 0x0A) = 0x0A :: (pipe.dropWhile (· != 0x0A)).tail := by
      cases hdw : pipe.dropWhile (· != 0x0A) with
      | nil =>
        rw [List.dropWhile_eq_nil_iff] at hdw
        simpa using hdw _ hmem
      | cons x xs =>
        have hx := List.head_dropWhile_not (· != 0x0A) pipe (by simp [hdw])
        simp only [hdw, List.head_cons, bne_eq_false_iff_eq] at hx
        rw [hx]; rfl
    rw [List.append_assoc, List.singleton_append, ← hd, List.takeWhile_append_dropWhile]
  · split at h
    · cases h; exact List.append_nil _
    · cases h

/-- What an emulator step can do: write its next chunk, or exit once it has written all. -/
theorem Live.step_emulator {s s' : Live} (h : s.step .emulator = some s') :
    s.exited = false ∧
      ((∃ c cs, s.script = c :: cs ∧ s' = { s with script := cs, pipe := s.pipe ++ c }) ∨
        (s.script = [] ∧ s' = { s with exited := true })) := by
  rw [Live.step] at h
  cases hex : s.exited
  · cases hs : s.script with
    | nil =>
      simp only [hex, hs, Bool.false_eq_true, if_false, Option.some.injEq] at h
      exact ⟨rfl, .inr ⟨rfl, h.symm⟩⟩
    | cons c cs =>
      simp only [hex, hs, Bool.false_eq_true, if_false, Option.some.injEq] at h
      exact ⟨rfl, .inl ⟨c, cs, rfl, h.symm⟩⟩
  · simp [hex] at h

/-- What a loop step can do: poll, or take one line from the pipe. -/
theorem Live.step_loop {s s' : Live} (h : s.step .loop = some s') :
    (s.pc = .poll ∧ s' = { s with pc := if s.exited then .done else .read }) ∨
      (s.pc = .read ∧ ∃ out rest, readline s.pipe s.exited = some (out, rest) ∧
        s' = { s with
          pipe := rest
          reads := s.reads ++ [out]
          pc := .poll
          capture := liveStep s.capture out }) := by
  cases hpc : s.pc <;> simp only [Live.step, hpc, Option.some.injEq, reduceCtorEq] at h
  · exact .inl ⟨rfl, h.symm⟩
  · cases hr : readline s.pipe s.exited with
    | none => simp [hr] at h
    | some r =>
      obtain ⟨out, rest⟩ := r
      simp only [hr, Option.some.injEq] at h
      exact .inr ⟨rfl, out, rest, rfl, h.symm⟩

/-- Every step keeps the invariant. -/
theorem Live.inv_step {script : List (List UInt8)} {s s' : Live} {a : Actor} (hi : s.Inv script)
    (h : s.step a = some s') : s'.Inv script := by
  cases a with
  | emulator =>
    obtain ⟨hex, ⟨c, cs, hs, rfl⟩ | ⟨hs, rfl⟩⟩ := Live.step_emulator h
    · refine ⟨?_, hi.captured, fun he => by simp_all, fun hp => by simp_all [hi.done_exited hp]⟩
      rw [← hi.conserved, hs]
      simp [List.append_assoc]
    · exact ⟨hi.conserved, hi.captured, fun _ => hs, fun _ => rfl⟩
  | loop =>
    obtain ⟨-, rfl⟩ | ⟨-, out, rest, hr, rfl⟩ := Live.step_loop h
    · refine ⟨hi.conserved, hi.captured, hi.exited_script, fun hp => ?_⟩
      cases hex : s.exited <;> simp_all
    · refine ⟨?_, ?_, hi.exited_script, fun hp => by cases hp⟩
      · rw [← hi.conserved, ← readline_conserved hr]
        simp [List.append_assoc]
      · rw [hi.captured, liveLoop, liveLoop, List.foldl_append]
        rfl

/-- The invariant holds in every reachable state. -/
theorem Live.inv_reachable {script : List (List UInt8)} {s : Live} (h : Reachable script s) :
    s.Inv script := by
  induction h with
  | start => exact Live.inv_start script
  | step a _ hs ih => exact Live.inv_step ih hs

/-- However the two processes are scheduled, when the loop returns it has read a prefix of the
emulator's whole output, in order, its capture is the fold over exactly those lines, and the rest
of the output is still in the pipe. -/
theorem Live.done_reads_prefix {script : List (List UInt8)} {s : Live} (h : Reachable script s)
    (hdone : s.pc = .done) :
    s.reads.flatten ++ s.pipe = script.flatten ∧ s.capture = liveLoop s.reads := by
  have hi := Live.inv_reachable h
  have hs := hi.exited_script (hi.done_exited hdone)
  refine ⟨?_, hi.captured⟩
  simpa [hs] using hi.conserved

/-- The schedule where the loop reads the only line before the emulator exits. -/
def oneLineRead : Live := ⟨[], [], true, .done, [[0x61, 0x0A]], ⟨[0x61, 0x0A], [0x61, 0x0A]⟩⟩

theorem Live.reachable_one_line : Reachable [[0x61, 0x0A]] oneLineRead :=
  .step .loop (.step .emulator (.step .loop (.step .loop (.step .emulator .start rfl) rfl) rfl)
    rfl) rfl

theorem Live.done_reads_one_line :
    (Reachable [[0x61, 0x0A]] oneLineRead ∧ oneLineRead.pc = .done) ∧
      oneLineRead.reads.flatten ++ oneLineRead.pipe = [[0x61, 0x0A]].flatten ∧
      oneLineRead.capture = liveLoop oneLineRead.reads :=
  ⟨⟨Live.reachable_one_line, rfl⟩, Live.done_reads_prefix Live.reachable_one_line rfl⟩

/-- What `readline` returns: a line with its `\n`, or at end of file the rest, which holds none. -/
theorem readline_shape {pipe : List UInt8} {exited : Bool} {out rest : List UInt8}
    (h : readline pipe exited = some (out, rest)) :
    (∃ x, out = x ++ [0x0A] ∧ 0x0A ∉ x) ∨ (0x0A ∉ out ∧ rest = [] ∧ exited = true) := by
  unfold readline at h
  split at h
  · cases h
    refine .inl ⟨_, rfl, fun hm => ?_⟩
    simpa using List.mem_takeWhile_imp hm
  · rename_i hmem
    split at h
    · cases h
      exact .inr ⟨hmem, rfl, by assumption⟩
    · cases h

/-- The loop's reads follow the stream's lines: cut into lines, what it read is its nonempty
reads, and what it read ends at a line break unless the emulator has exited, the pipe is drained
and the loop will not read again. -/
structure Live.Aligned (s : Live) : Prop where
  lines_reads : lines s.reads.flatten = s.reads.filter fun r => !r.isEmpty
  at_break : s.reads.flatten = [] ∨ s.reads.flatten.getLast? = some 0x0A ∨
    (s.exited = true ∧ s.pipe = [] ∧ s.pc ≠ .read)

theorem Live.aligned_start (script : List (List UInt8)) : (Live.start script).Aligned :=
  ⟨rfl, .inl rfl⟩

theorem Live.aligned_step {s s' : Live} {a : Actor} (ha : s.Aligned) (h : s.step a = some s') :
    s'.Aligned := by
  cases a with
  | emulator =>
    obtain ⟨hex, hs'⟩ := Live.step_emulator h
    have hreads : s'.reads = s.reads := by rcases hs' with ⟨c, cs, -, rfl⟩ | ⟨-, rfl⟩ <;> rfl
    refine ⟨hreads ▸ ha.lines_reads, ?_⟩
    rw [hreads]
    rcases ha.at_break with h | h | ⟨h, -⟩
    exacts [.inl h, .inr (.inl h), absurd h (by simp [hex])]
  | loop =>
    obtain ⟨-, rfl⟩ | ⟨hpc, out, rest, hr, rfl⟩ := Live.step_loop h
    · refine ⟨ha.lines_reads, ?_⟩
      rcases ha.at_break with h | h | ⟨h, hp, -⟩
      exacts [.inl h, .inr (.inl h), .inr (.inr ⟨h, hp, by simp [h]⟩)]
    · have hcut : s.reads.flatten = [] ∨ s.reads.flatten.getLast? = some 0x0A := by
        rcases ha.at_break with h | h | ⟨-, -, h⟩
        exacts [.inl h, .inr h, absurd hpc h]
      have hflat : (s.reads ++ [out]).flatten = s.reads.flatten ++ out := by
        rw [List.flatten_append, List.flatten_singleton]
      refine ⟨?_, ?_⟩ <;> dsimp only <;> rw [hflat]
      · rw [lines_append hcut, ha.lines_reads, List.filter_append]
        rcases readline_shape hr with ⟨x, rfl, hx⟩ | ⟨hout, -, -⟩
        · rw [(lines_single hx).1]
          simp
        · by_cases hne : out = []
          · subst hne
            rfl
          · rw [(lines_single hout).2 hne]
            simp [hne]
      · rcases readline_shape hr with ⟨x, rfl, hx⟩ | ⟨hout, rfl, hex⟩
        · refine .inr (.inl ?_)
          rw [← List.append_assoc, List.getLast?_append_of_ne_nil _ (List.cons_ne_nil _ _)]
          rfl
        · by_cases hne : out = []
          · subst hne
            rw [List.append_nil]
            exact hcut.elim .inl (.inr ∘ .inl)
          · exact .inr (.inr ⟨hex, rfl, by simp⟩)

theorem Live.aligned_reachable {script : List (List UInt8)} {s : Live}
    (h : Reachable script s) : s.Aligned := by
  induction h with
  | start => exact Live.aligned_start script
  | step a _ hs ih => exact Live.aligned_step ih hs

/-- When the loop returns with the pipe drained, whatever the schedule, it has mirrored and kept
exactly what reading the emulator's whole output line by line does: losing lines is the only way
the live loop departs from the stream. -/
theorem Live.done_drained {script : List (List UInt8)} {s : Live} (h : Reachable script s)
    (hdone : s.pc = .done) (hpipe : s.pipe = []) :
    s.capture = liveLoop (lines script.flatten) := by
  have hi := Live.inv_reachable h
  have hflat : s.reads.flatten = script.flatten := by
    simpa [hpipe, hi.exited_script (hi.done_exited hdone)] using hi.conserved
  rw [hi.captured, ← hflat, (Live.aligned_reachable h).lines_reads, liveLoop_filter]

theorem Live.done_drained_one_line :
    (Reachable [[0x61, 0x0A]] oneLineRead ∧ oneLineRead.pc = .done ∧ oneLineRead.pipe = []) ∧
      oneLineRead.capture = liveLoop (lines [[0x61, 0x0A]].flatten) :=
  ⟨⟨Live.reachable_one_line, rfl, rfl⟩, Live.done_drained Live.reachable_one_line rfl rfl⟩

/-- The emulator's output in two lines. -/
def twoLines : List (List UInt8) := [[0x61, 0x0A], [0x62, 0x0A]]

/-- The schedule where the emulator writes its last line and exits between a `readline` and the
next `poll`: the loop returns with that line still in the pipe. -/
theorem Live.done_with_unread_line :
    Reachable twoLines ⟨[], [0x62, 0x0A], true, .done, [[0x61, 0x0A]],
      ⟨[0x61, 0x0A], [0x61, 0x0A]⟩⟩ :=
  .step .loop (.step .emulator (.step .emulator (.step .loop (.step .loop
    (.step .emulator .start rfl) rfl) rfl) rfl) rfl) rfl

end KeosGrader
