import Mathlib.Data.List.Infix
import Mathlib.Data.List.Basic

/-! Python's `str` operations as the grader applies them to paths and directory names, over
`List Char`. `a in s`, `s.startswith(a)` and `s.endswith(a)` are the list relations
`a <:+: s`, `a <+: s` and `a <:+ s`; the operations below need a definition of their own. -/

namespace KeosGrader

open List

/-- `PurePosixPath(p).name`: the last component, where empty and `.` components do not count. -/
def name (p : List Char) : List Char :=
  ((p.splitOn '/').filter fun c => c ≠ [] ∧ c ≠ ['.']).getLastD []

/-- A name `os.scandir` can return: nonempty, without `/`, and neither `.` nor `..`. -/
def Component (c : List Char) : Prop :=
  c ≠ [] ∧ '/' ∉ c ∧ c ≠ ['.'] ∧ c ≠ ['.', '.']

instance (c : List Char) : Decidable (Component c) := by
  unfold Component; infer_instance

/-- `s.replace(old, new)` for a nonempty `old`, as at both call sites: occurrences are found left
to right and do not overlap; `skip` counts the characters left of the occurrence being replaced. -/
def replaceFrom (old new : List Char) : Nat → List Char → List Char
  | _, [] => []
  | skip + 1, _ :: s => replaceFrom old new skip s
  | 0, c :: s =>
    if old ≠ [] ∧ old <+: c :: s then new ++ replaceFrom old new (old.length - 1) s
    else c :: replaceFrom old new 0 s

def replace (s old new : List Char) : List Char := replaceFrom old new 0 s

/-- `s.split(sep)` for a nonempty `sep`: the pieces between the occurrences of `sep`, found left to
right without overlap as by `replace`; `piece` holds the piece being read. -/
def splitFrom (sep : List Char) : Nat → List Char → List Char → List (List Char)
  | _, piece, [] => [piece]
  | skip + 1, piece, _ :: s => splitFrom sep skip piece s
  | 0, piece, c :: s =>
    if sep ≠ [] ∧ sep <+: c :: s then piece :: splitFrom sep (sep.length - 1) [] s
    else splitFrom sep 0 (piece ++ [c]) s

def split (s sep : List Char) : List (List Char) := splitFrom sep 0 [] s

example : split "keos-project3".toList "project".toList = ["keos-".toList, "3".toList] ∧
    split "ab".toList "ab".toList = [[], []] := by
  decide

/-- The whitespace `int()` strips around a literal. -/
def isSpace (c : Char) : Bool :=
  c = ' ' || c = '\t' || c = '\n' || c = '\r' || c = '\x0b' || c = '\x0c'

/-- `s.strip()` with the whitespace of `isSpace`. -/
def strip (s : List Char) : List Char :=
  ((s.dropWhile isSpace).reverse.dropWhile isSpace).reverse

def digitValue (c : Char) : Nat := c.toNat - '0'.toNat

/- The digits of an `int()` literal after its first one, accumulated in `acc`; a single
underscore may stand between two digits. -/
def parseDigits : List Char → Nat → Option Nat
  | [], acc => some acc
  | '_' :: d :: rest, acc => if d.isDigit then parseDigits rest (10 * acc + digitValue d) else none
  | d :: rest, acc => if d.isDigit then parseDigits rest (10 * acc + digitValue d) else none

def parseUnsigned : List Char → Option Nat
  | d :: rest => if d.isDigit then parseDigits rest (digitValue d) else none
  | [] => none

/-- `int(s)` of a `str` in base 10: surrounding whitespace, an optional sign, and decimal digits
with single underscores between them; `none` is the `ValueError`. -/
def pyInt (s : List Char) : Option Int :=
  match strip s with
  | '-' :: ds => (fun n : Nat => -(n : Int)) <$> parseUnsigned ds
  | '+' :: ds => (fun n : Nat => (n : Int)) <$> parseUnsigned ds
  | ds => (fun n : Nat => (n : Int)) <$> parseUnsigned ds

example : pyInt " 07 ".toList = some 7 ∧ pyInt "1_0".toList = some 10 ∧
    pyInt "-3".toList = some (-3) ∧ pyInt "2a".toList = none ∧ pyInt "1__0".toList = none := by
  decide

theorem splitOnP_append_cons {p : α → Bool} {sep : α} (hsep : p sep = true) (xs as : List α) :
    (xs ++ sep :: as).splitOnP p = xs.splitOnP p ++ as.splitOnP p := by
  induction xs with
  | nil => simp [hsep]
  | cons x xs ih =>
    by_cases hx : p x = true
    · simp [hx, ih]
    · obtain ⟨l, ls, hl⟩ := List.exists_cons_of_ne_nil (List.splitOnP_ne_nil p xs)
      simp [hx, ih, hl]

theorem splitOn_component {c : List Char} (hc : Component c) : c.splitOn '/' = [c] :=
  List.splitOnP_eq_single _ _ fun x hx h => hc.2.1 (by rwa [beq_iff_eq.mp h] at hx)

theorem name_append_component (p : List Char) {c : List Char} (hc : Component c) :
    name (p ++ '/' :: c) = c := by
  have hsplit : (p ++ '/' :: c).splitOn '/' = p.splitOn '/' ++ [c] := by
    rw [List.splitOn, splitOnP_append_cons (by simp), ← List.splitOn, ← List.splitOn,
      splitOn_component hc]
  simp [name, hsplit, hc.1, hc.2.2.1, List.getLastD_eq_getLast?]

/-- An occurrence in `a ++ b` lies in `a`, lies in `b`, or starts in `a` and ends in `b`. -/
theorem infix_append_cases {w a b : List α} (h : w <:+: a ++ b) :
    w <:+: a ∨ w <:+: b ∨ ∃ u v, w = u ++ v ∧ u ≠ [] ∧ v ≠ [] ∧ u <:+ a ∧ v <+: b := by
  obtain ⟨s, t, hst⟩ := h
  rw [List.append_assoc, List.append_eq_append_iff] at hst
  rcases hst with ⟨a', rfl, hw⟩ | ⟨c', rfl, hb⟩
  · rcases List.append_eq_append_iff.mp hw with ⟨x, rfl, rfl⟩ | ⟨y, rfl, rfl⟩
    · exact .inl ⟨s, x, by simp⟩
    · by_cases ha : a' = []
      · subst ha; exact .inr (.inl ⟨[], t, by simp⟩)
      by_cases hy : y = []
      · subst hy; exact .inl ⟨s, [], by simp⟩
      · exact .inr (.inr ⟨a', y, rfl, ha, hy, ⟨s, rfl⟩, ⟨t, rfl⟩⟩)
  · exact .inr (.inl ⟨c', t, by simp [hb]⟩)

theorem pair_infix_of_last_head {u v : List α} {x y : α} (hu : u.getLast? = some x)
    (hv : v.head? = some y) : [x, y] <:+: u ++ v := by
  obtain ⟨u', rfl⟩ := List.getLast?_eq_some_iff.mp hu
  obtain ⟨v', rfl⟩ := List.head?_eq_some_iff.mp hv
  exact ⟨u', v', by simp⟩

/-- Across a `/` that ends `a` and a `c` that starts `b`, only a word holding `/` followed by `c`
can occur without occurring in `a` or in `b`. -/
theorem infix_append_sep {w a b : List Char} {c : Char} (ha : a.getLast? = some '/')
    (hb : b.head? = some c) (hw : ¬ ['/', c] <:+: w) : w <:+: a ++ b ↔ w <:+: a ∨ w <:+: b := by
  refine ⟨fun h => ?_, fun h => h.elim (·.trans (List.prefix_append a b).isInfix)
    (·.trans (List.suffix_append a b).isInfix)⟩
  rcases infix_append_cases h with h | h | ⟨u, v, rfl, hu, hv, hua, hvb⟩
  · exact .inl h
  · exact .inr h
  · refine absurd (pair_infix_of_last_head ?_ ?_) hw
    · obtain ⟨s, rfl⟩ := hua
      rw [List.getLast?_append] at ha
      cases hlast : u.getLast? with
      | none => exact absurd (List.getLast?_eq_none_iff.mp hlast) hu
      | some z => simpa [hlast] using ha
    · obtain ⟨s, rfl⟩ := hvb
      cases hv' : v with
      | nil => exact absurd hv' hv
      | cons z zs => simpa [hv'] using hb

/-- A suffix of `a ++ b` is a suffix of `b`, or is `b` preceded by a suffix of `a`. -/
theorem suffix_append_cases {w a b : List α} (h : w <:+ a ++ b) :
    w <:+ b ∨ ∃ u, w = u ++ b ∧ u <:+ a := by
  obtain ⟨s, hs⟩ := h
  rcases List.append_eq_append_iff.mp hs with ⟨a', rfl, rfl⟩ | ⟨c', rfl, rfl⟩
  · exact .inr ⟨a', rfl, ⟨s, rfl⟩⟩
  · exact .inl ⟨c', rfl⟩

theorem suffix_append_sep {w a b : List Char} {c : Char} (hb : b.take 2 = ['/', c])
    (hw : ¬ ['/', c] <:+: w) : w <:+ a ++ b ↔ w <:+ b := by
  refine ⟨fun h => ?_, fun h => h.trans (List.suffix_append a b)⟩
  rcases suffix_append_cases h with h | ⟨u, rfl, -⟩
  · exact h
  · exact absurd ⟨u, b.drop 2, by rw [← hb, List.append_assoc, List.take_append_drop]⟩ hw

/-- A key of a list without repeated keys finds its own entry. -/
theorem lookup_of_mem {β : Type} {es : List (String × β)} (h : (es.map (·.1)).Nodup) {k : String}
    {n : β} (hm : (k, n) ∈ es) : es.lookup k = some n := by
  induction es with
  | nil => cases hm
  | cons e es ih =>
    obtain ⟨k', n'⟩ := e
    rw [List.map_cons, List.nodup_cons] at h
    rcases List.mem_cons.mp hm with he | hmem
    · cases he; simp
    · have hk : (k == k') = false := by
        simp only [beq_eq_false_iff_ne]
        rintro rfl
        exact h.1 (List.mem_map_of_mem (·.1) hmem)
      simp [List.lookup_cons, hk, ih h.2 hmem]

theorem replaceFrom_skip (old new : List Char) :
    ∀ (k : Nat) (s : List Char), replaceFrom old new k s = replaceFrom old new 0 (s.drop k)
  | 0, _ => rfl
  | _ + 1, [] => rfl
  | k + 1, _ :: s => replaceFrom_skip old new k s

theorem replace_append_of_prefix {old : List Char} (hold : old ≠ []) (new u : List Char) :
    replace (old ++ u) old new = new ++ replace u old new := by
  obtain ⟨o, os, rfl⟩ := List.exists_cons_of_ne_nil hold
  rw [replace, List.cons_append, replaceFrom, if_pos ⟨hold, List.prefix_append _ _⟩,
    replaceFrom_skip, List.length_cons, Nat.add_sub_cancel, List.drop_left]
  rfl

theorem replace_cons_skip {old : List Char} {c : Char} {t : List Char}
    (h : ¬ old <+: c :: t) (new : List Char) :
    replace (c :: t) old new = c :: replace t old new := by
  rw [replace, replaceFrom, if_neg fun h' => h h'.2]
  rfl

section Separators

variable {p : Char → Bool} {w : List Char} (hws : ∀ c ∈ w, p c = false)
include hws

/-- A word holding no separator never starts at a separator. -/
theorem prefix_sep_cons (hw : w ≠ []) {x : Char} (hx : p x = true) (rest : List Char) :
    ¬ w <+: x :: rest := by
  obtain ⟨a, w', rfl⟩ := List.exists_cons_of_ne_nil hw
  rw [List.cons_prefix_cons]
  rintro ⟨rfl, -⟩
  simp [hws a (List.mem_cons_self _ _)] at hx

theorem infix_seps_append (hw : w ≠ []) {xs : List Char} (hxs : ∀ c ∈ xs, p c = true)
    (rest : List Char) : w <:+: xs ++ rest ↔ w <:+: rest := by
  induction xs with
  | nil => rfl
  | cons x xs ih =>
    rw [List.cons_append, List.infix_cons_iff,
      or_iff_right (prefix_sep_cons hws hw (hxs x (List.mem_cons_self _ _)) _)]
    exact ih fun c hc => hxs c (List.mem_cons_of_mem _ hc)

variable {old new : List Char} (hold : old ≠ []) (hnew : new ≠ [])
  (hsold : ∀ c ∈ old, p c = true) (hsnew : ∀ c ∈ new, p c = true)
include hold hnew hsold hsnew

theorem prefix_replace (s : List Char) : w <+: replace s old new ↔ w <+: s := by
  induction s generalizing w with
  | nil => rfl
  | cons c t ih =>
    by_cases hp : old <+: c :: t
    · obtain ⟨u, hu⟩ := hp
      obtain ⟨o, os, rfl⟩ := List.exists_cons_of_ne_nil hold
      obtain ⟨x, xs, rfl⟩ := List.exists_cons_of_ne_nil hnew
      rw [← hu, replace_append_of_prefix hold, List.cons_append, List.cons_append]
      cases w with
      | nil => exact iff_of_true List.nil_prefix List.nil_prefix
      | cons a w' =>
        have hw : a :: w' ≠ [] := List.cons_ne_nil _ _
        exact iff_of_false (prefix_sep_cons hws hw (hsnew x (List.mem_cons_self _ _)) _)
          (prefix_sep_cons hws hw (hsold o (List.mem_cons_self _ _)) _)
    · rw [replace_cons_skip hp]
      cases w with
      | nil => exact iff_of_true List.nil_prefix List.nil_prefix
      | cons a w' =>
        simp only [List.cons_prefix_cons]
        exact and_congr_right fun _ => ih fun b hb => hws b (List.mem_cons_of_mem _ hb)

/-- Replacing runs of separators by runs of separators keeps every occurrence of a word that
holds none. -/
theorem infix_replace (hw : w ≠ []) (s : List Char) : w <:+: replace s old new ↔ w <:+: s := by
  match s with
  | [] => rfl
  | c :: t =>
    by_cases hp : old <+: c :: t
    · obtain ⟨u, hu⟩ := hp
      have hlen : u.length < t.length + 1 := by
        have := congrArg List.length hu
        simp only [List.length_append, List.length_cons] at this
        have := List.length_pos.mpr hold
        omega
      rw [← hu, replace_append_of_prefix hold, infix_seps_append hws hw hsnew,
        infix_seps_append hws hw hsold, infix_replace hw u]
    · rw [replace_cons_skip hp, List.infix_cons_iff, List.infix_cons_iff,
        infix_replace hw t, ← replace_cons_skip hp new,
        prefix_replace hws hold hnew hsold hsnew]
termination_by s.length

end Separators

end KeosGrader
