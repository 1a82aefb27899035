import KeosGrader.Utf8

/-! The live branch of `grade_single`. A `readline` line holding the reset `ESC c` empties
`output` and is neither mirrored nor kept; any other line is mirrored and kept, and `output` is
decoded at the end. Text sharing a line with a reset is lost with it. -/

namespace KeosGrader

/-- `b'\x1bc'`. -/
def clearScreen : List UInt8 := [0x1B, 0x63]

/-- The loop's state: the bytes mirrored to the console so far, and `output`. -/
structure Capture where
  console : List UInt8
  output : List UInt8
  deriving DecidableEq

/-- One turn of the loop body on the line `readline` returned. -/
def liveStep (st : Capture) (out : List UInt8) : Capture :=
  if clearScreen <:+: out then { st with output := [] }
  else ⟨st.console ++ out, st.output ++ out⟩

/-- The loop over the lines it read, from `output = b''`. -/
def liveLoop (reads : List (List UInt8)) : Capture := reads.foldl liveStep ⟨[], []⟩

/-- What the live branch returns: `output.decode('utf-8')`, or the sentinel `'timeout'` when the
decoding raises. -/
def liveText (reads : List (List UInt8)) : List Char :=
  (decodeUtf8 (liveLoop reads).output).getD "timeout".toList

/-- The lines `readline` returns from a stream read to its end: each up to and including its
`\n`, the last one without when the stream does not end in `\n`. -/
def lines : List UInt8 → List (List UInt8)
  | [] => []
  | b :: bs =>
    if b = 0x0A then [0x0A] :: lines bs
    else match lines bs with
      | [] => [[b]]
      | l :: ls => (b :: l) :: ls

/-- The lines after the last one holding the reset; all lines when none does. -/
def afterLastClear (reads : List (List UInt8)) : List (List UInt8) :=
  (reads.reverse.takeWhile fun l => !decide (clearScreen <:+: l)).reverse

theorem console_foldl_liveStep (reads : List (List UInt8)) (st : Capture) :
    (reads.foldl liveStep st).console =
      st.console ++ (reads.filter fun l => !decide (clearScreen <:+: l)).flatten := by
  induction reads generalizing st with
  | nil => simp
  | cons r rs ih =>
    rw [List.foldl_cons, ih, List.filter_cons]
    unfold liveStep
    by_cases h : clearScreen <:+: r <;> simp [h]

theorem afterLastClear_concat (reads : List (List UInt8)) (r : List UInt8) :
    afterLastClear (reads ++ [r]) =
      if clearScreen <:+: r then [] else afterLastClear reads ++ [r] := by
  unfold afterLastClear
  by_cases h : clearScreen <:+: r <;> simp [h]

/-- After the loop, `output` holds the lines after the last reset. -/
theorem output_liveLoop (reads : List (List UInt8)) :
    (liveLoop reads).output = (afterLastClear reads).flatten := by
  unfold liveLoop
  induction reads using List.reverseRecOn with
  | nil => rfl
  | append_singleton rs r ih =>
    rw [List.foldl_append, List.foldl_cons, List.foldl_nil, afterLastClear_concat, liveStep]
    by_cases h : clearScreen <:+: r
    · rw [if_pos h, if_pos h]; rfl
    · rw [if_neg h, if_neg h, List.flatten_append, ← ih]; simp

theorem afterLastClear_suffix (reads : List (List UInt8)) :
    ∃ pre, reads = pre ++ afterLastClear reads := by
  refine ⟨(reads.reverse.dropWhile fun l => !decide (clearScreen <:+: l)).reverse, ?_⟩
  rw [afterLastClear, ← List.reverse_append, List.takeWhile_append_dropWhile,
    List.reverse_reverse]

@[simp] theorem flatten_lines (s : List UInt8) : (lines s).flatten = s := by
  induction s with
  | nil => rfl
  | cons b bs ih =>
    unfold lines
    split
    · rename_i h; rw [List.flatten_cons, ih, h]; rfl
    · split
      · rename_i hl; rw [hl] at ih; cases ih; rfl
      · rename_i l ls hl; rw [hl, List.flatten_cons] at ih; rw [List.flatten_cons, ← ih]; rfl

theorem lines_ne_nil {s : List UInt8} (h : s ≠ []) : lines s ≠ [] := by
  cases s with
  | nil => exact absurd rfl h
  | cons b bs =>
    unfold lines
    split
    · exact List.cons_ne_nil _ _
    · split <;> exact List.cons_ne_nil _ _

/-- A stream cut right after a `\n` splits into the lines before the cut and those after. -/
theorem lines_append {a : List UInt8} (ha : a = [] ∨ a.getLast? = some 0x0A) (b : List UInt8) :
    lines (a ++ b) = lines a ++ lines b := by
  induction a with
  | nil => rfl
  | cons x xs ih =>
    have hlast : xs = [] → x = 0x0A := by
      rintro rfl
      rcases ha with h | h
      · cases h
      · simpa using h
    have ih : lines (xs ++ b) = lines xs ++ lines b := by
      cases xs with
      | nil => rfl
      | cons y ys => exact ih (.inr (by rcases ha with h | h; cases h; simpa using h))
    rw [List.cons_append]
    simp only [lines]
    by_cases hx : x = 0x0A
    · rw [if_pos hx, if_pos hx, ih]
      rfl
    · rw [if_neg hx, if_neg hx, ih]
      obtain ⟨l, ls, hl⟩ := List.exists_cons_of_ne_nil (lines_ne_nil fun h => hx (hlast h))
      rw [hl]
      rfl

/-- A line with its `\n`, and the last piece of a stream without one, are one line each. -/
theorem lines_single {x : List UInt8} (hx : 0x0A ∉ x) :
    lines (x ++ [0x0A]) = [x ++ [0x0A]] ∧ (x ≠ [] → lines x = [x]) := by
  induction x with
  | nil => exact ⟨rfl, fun h => absurd rfl h⟩
  | cons y ys ih =>
    have hy : y ≠ 0x0A := fun h => hx (h ▸ List.mem_cons_self _ _)
    obtain ⟨ih1, ih2⟩ := ih fun h => hx (List.mem_cons_of_mem _ h)
    refine ⟨?_, fun _ => ?_⟩
    · rw [List.cons_append, lines, if_neg hy, ih1]
    · rw [lines, if_neg hy]
      cases ys with
      | nil => rfl
      | cons z zs => rw [ih2 (List.cons_ne_nil _ _)]

@[simp] theorem liveStep_nil (st : Capture) : liveStep st [] = st := by
  simp [liveStep, clearScreen]

/-- Empty reads change nothing. -/
theorem liveLoop_filter (reads : List (List UInt8)) :
    liveLoop (reads.filter fun r => !r.isEmpty) = liveLoop reads := by
  unfold liveLoop
  generalize (⟨[], []⟩ : Capture) = st
  induction reads generalizing st with
  | nil => rfl
  | cons r rs ih =>
    cases r with
    | nil => simpa using ih st
    | cons b bs => simpa using ih _

/-- Every line but the last ends with `\n`. -/
theorem lines_getLast {s : List UInt8} :
    ∀ {A : List (List UInt8)} {l : List UInt8} {B : List (List UInt8)},
      lines s = A ++ l :: B → B ≠ [] → l.getLast? = some 0x0A := by
  induction s with
  | nil => intro A l B h; cases A <;> cases h
  | cons b bs ih =>
    intro A l B h hB
    unfold lines at h
    split at h
    · rename_i hb
      cases A with
      | nil => cases h; rfl
      | cons a A => exact ih (List.cons.inj h).2 hB
    · split at h
      · cases A with
        | nil => cases h; exact absurd rfl hB
        | cons a A => cases A <;> cases h
      · rename_i l' ls hl
        cases A with
        | nil =>
          obtain ⟨rfl, rfl⟩ := List.cons.inj h
          have hl' := ih (A := []) hl hB
          obtain ⟨ys, hys⟩ := List.getLast?_eq_some_iff.mp hl'
          rw [hys, ← List.cons_append, List.getLast?_append_of_ne_nil _ (List.cons_ne_nil _ _)]
          rfl
        | cons a A =>
          obtain ⟨-, rfl⟩ := List.cons.inj h
          exact ih (A := l' :: A) (by rw [hl]; rfl) hB

/-- A stream cut after a whole line: what precedes the cut is empty or ends with `\n`. -/
theorem lines_cut {s : List UInt8} {A B : List (List UInt8)} (h : lines s = A ++ B)
    (hB : B ≠ []) : A.flatten = [] ∨ ∃ x, A.flatten.getLast? = some x ∧ x.toNat < 0x80 := by
  rcases A.eq_nil_or_concat with rfl | ⟨A', l, rfl⟩
  · exact .inl rfl
  · obtain ⟨b, B', rfl⟩ := List.exists_cons_of_ne_nil hB
    have hl := lines_getLast (A := A') (by rw [h, List.concat_eq_append, List.append_assoc]; rfl)
      (List.cons_ne_nil b B')
    refine .inr ⟨0x0A, ?_, by decide⟩
    obtain ⟨ys, rfl⟩ := List.getLast?_eq_some_iff.mp hl
    rw [List.concat_eq_append, List.flatten_append, List.flatten_singleton, ← List.append_assoc,
      List.getLast?_append_of_ne_nil _ (List.cons_ne_nil _ _)]
    rfl

/-- The live branch on a valid UTF-8 stream read to its end: the console receives the lines
without a reset, and the returned text is the decoding, which cannot fail, of the lines after the
last reset. -/
theorem liveText_stream {s : List UInt8} (hs : (decodeUtf8 s).isSome) :
    (liveLoop (lines s)).console =
        ((lines s).filter fun l => !decide (clearScreen <:+: l)).flatten ∧
      decodeUtf8 (afterLastClear (lines s)).flatten = some (liveText (lines s)) := by
  refine ⟨by rw [liveLoop, console_foldl_liveStep]; rfl, ?_⟩
  obtain ⟨cs, hcs⟩ := Option.isSome_iff_exists.mp hs
  obtain ⟨pre, hpre⟩ := afterLastClear_suffix (lines s)
  have hsplit : encodeUtf8 cs = pre.flatten ++ (afterLastClear (lines s)).flatten := by
    rw [← List.flatten_append, ← hpre, flatten_lines, (encodeUtf8_of_decodeUtf8 hcs).symm]
  have hdec : ∃ cb, decodeUtf8 (afterLastClear (lines s)).flatten = some cb := by
    by_cases hB : afterLastClear (lines s) = []
    · exact ⟨[], by rw [hB]; rfl⟩
    · obtain ⟨-, cb, -, -, hcb⟩ := encodeUtf8_eq_append hsplit (lines_cut hpre hB)
      exact ⟨cb, hcb ▸ decodeUtf8_encodeUtf8 cb⟩
  obtain ⟨cb, hcb⟩ := hdec
  rw [hcb, liveText, output_liveLoop, hcb]
  rfl

/-- A line, a reset on a line of its own, and a line: the bytes of `a\n\x1bc\nb\n`. -/
def resetBetween : List UInt8 := [0x61, 0x0A, 0x1B, 0x63, 0x0A, 0x62, 0x0A]

theorem liveText_stream_reset_between :
    (decodeUtf8 resetBetween).isSome ∧
      ((liveLoop (lines resetBetween)).console =
          ((lines resetBetween).filter fun l => !decide (clearScreen <:+: l)).flatten ∧
        decodeUtf8 (afterLastClear (lines resetBetween)).flatten =
          some (liveText (lines resetBetween))) :=
  ⟨by decide, liveText_stream (by decide)⟩

/-- A reset with text after it on the same line: the text is neither returned nor mirrored,
nor is the line. -/
theorem liveText_reset_line :
    lines ("line1\n\x1bcline2\n".toList.map fun c => c.toNat.toUInt8) =
        ["line1\n".toList.map fun c => c.toNat.toUInt8,
          "\x1bcline2\n".toList.map fun c => c.toNat.toUInt8] ∧
      liveText (lines ("line1\n\x1bcline2\n".toList.map fun c => c.toNat.toUInt8)) = [] ∧
      (liveLoop (lines ("line1\n\x1bcline2\n".toList.map fun c => c.toNat.toUInt8))).console =
        "line1\n".toList.map fun c => c.toNat.toUInt8 := by
  decide

end KeosGrader
