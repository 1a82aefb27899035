import Mathlib.Data.List.Nodup
import KeosGrader.Scan

/-! The walk and its accumulation loop: which files a walk reports and where they lie, what a
write to the tree changes in a walk, and the order-preserving accumulation of per-file results. -/

namespace KeosGrader

theorem collect_ok_mem {check : Visit → Except Fault (Option Violation)} {us : List Visit}
    {vs : List Violation} (h : collect check us = .ok vs) {u : Visit} (hu : u ∈ us) :
    check u = .ok none ∨ ∃ v ∈ vs, check u = .ok (some v) := by
  induction us generalizing vs with
  | nil => cases hu
  | cons w ws ih =>
    unfold collect at h
    cases hw : check w with
    | error f => simp [hw] at h
    | ok x =>
      rw [hw] at h
      cases hr : collect check ws with
      | error f => simp [hr] at h
      | ok rest =>
        simp only [hr] at h
        cases h
        rcases List.mem_cons.mp hu with rfl | hu
        · cases x with
          | none => exact .inl hw
          | some v => exact .inr ⟨v, by simp, hw⟩
        · rcases ih hr hu with h | ⟨v, hv, h⟩
          · exact .inl h
          · exact .inr ⟨v, List.mem_append_right _ hv, h⟩

theorem collect_all_none {check : Visit → Except Fault (Option Violation)} {us : List Visit}
    (h : ∀ u ∈ us, check u = .ok none) : collect check us = .ok [] := by
  induction us with
  | nil => rfl
  | cons w ws ih =>
    simp only [collect, h w (List.mem_cons_self _ _)]
    rw [ih fun u hu => h u (List.mem_cons_of_mem _ hu)]
    rfl

/-- `u` with the bytes `b` when its relative path is `p`. -/
def Visit.overwrite (p : List String) (b : List UInt8) (u : Visit) : Visit :=
  if u.rel = p then { u with bytes := b } else u

theorem map_overwrite_of_ne {us : List Visit} {p : List String} (b : List UInt8)
    (h : ∀ u ∈ us, u.rel ≠ p) : us.map (Visit.overwrite p b) = us :=
  (List.map_congr_left fun u hu => by simp [Visit.overwrite, h u hu]).trans (List.map_id us)

theorem filesOf_rel {root : List Char} {rel : List String} {es : List (String × Node)} {u : Visit}
    (hu : u ∈ filesOf root rel es) :
    ∃ e ∈ es, u.rel = rel ++ [e.1] ∧ u.path = root ++ rootPath [e.1] := by
  obtain ⟨⟨f, n⟩, he, hf⟩ := List.mem_filterMap.mp hu
  cases n with
  | file b => cases hf; exact ⟨_, he, rfl, by simp [rootPath]⟩
  | dir _ => cases hf

mutual
/-- Every file a walk reports lies strictly below the directory it starts from, and its path is
that directory's followed by its components below it. -/
theorem walkNode_rel (keep : List Char → String → Bool) :
    ∀ (root : List Char) (rel : List String) (n : Node), ∀ u ∈ walkNode keep root rel n,
      ∃ x xs, u.rel = rel ++ x :: xs ∧ u.path = root ++ rootPath (x :: xs)
  | _, _, .file _, u, hu => by simp [walkNode] at hu
  | root, rel, .dir es, u, hu => by
    rcases List.mem_append.mp hu with hu | hu
    · obtain ⟨e, -, h⟩ := filesOf_rel hu
      exact ⟨e.1, [], h⟩
    · obtain ⟨e, -, xs, h⟩ := walkEntries_rel keep root rel es u hu
      exact ⟨e.1, xs, h⟩
theorem walkEntries_rel (keep : List Char → String → Bool) :
    ∀ (root : List Char) (rel : List String) (es : List (String × Node)),
      ∀ u ∈ walkEntries keep root rel es,
        ∃ e ∈ es, ∃ xs, u.rel = rel ++ e.1 :: xs ∧ u.path = root ++ rootPath (e.1 :: xs)
  | _, _, [], u, hu => by simp [walkEntries] at hu
  | root, rel, (d, n) :: rest, u, hu => by
    simp only [walkEntries, List.mem_append] at hu
    rcases hu with hu | hu
    · cases n with
      | file _ => simp at hu
      | dir cs =>
        by_cases hk : keep root d = true
        · simp only [hk, if_true] at hu
          obtain ⟨x, xs, h, hp⟩ := walkNode_rel keep _ _ (.dir cs) u hu
          exact ⟨(d, .dir cs), List.mem_cons_self _ _, x :: xs, by simp [h], by simp [hp, rootPath]⟩
        · simp [hk] at hu
    · obtain ⟨e, he, xs, h⟩ := walkEntries_rel keep root rel rest u hu
      exact ⟨e, List.mem_cons_of_mem _ he, xs, h⟩
end

theorem write_file (f : List UInt8) (p : List String) (b : List UInt8) :
    (Node.file f).write p b = if p = [] then .file b else .file f := by
  cases p <;> rfl

/-- The entries of a directory after a write at `c :: cs` below it. -/
def writeEntry (c : String) (cs : List String) (b : List UInt8) (e : String × Node) :
    String × Node :=
  if e.1 = c then (e.1, e.2.write cs b) else e

theorem filesOf_write (root : List Char) (rel : List String) (c : String) (cs : List String)
    (b : List UInt8) (es : List (String × Node)) :
    filesOf root rel (es.map (writeEntry c cs b)) =
      (filesOf root rel es).map (Visit.overwrite (rel ++ c :: cs) b) := by
  induction es with
  | nil => rfl
  | cons e es ih =>
    obtain ⟨k, n⟩ := e
    cases n with
    | dir ds =>
      by_cases hk : k = c
      · cases cs <;> simpa [filesOf, writeEntry, hk, Node.write] using ih
      · simpa [filesOf, writeEntry, hk] using ih
    | file f =>
      by_cases hk : k = c
      · subst hk
        cases cs <;> simpa [filesOf, writeEntry, write_file, Visit.overwrite] using ih
      · simpa [filesOf, writeEntry, hk, Visit.overwrite, Ne.symm hk] using ih

theorem write_dir (ds : List (String × Node)) (p : List String) (b : List UInt8) :
    ∃ ds', (Node.dir ds).write p b = .dir ds' := by
  cases p with
  | nil => exact ⟨ds, rfl⟩
  | cons c cs => exact ⟨_, rfl⟩

theorem write_dir_cons (ds : List (String × Node)) (c : String) (cs : List String)
    (b : List UInt8) : (Node.dir ds).write (c :: cs) b = .dir (ds.map (writeEntry c cs b)) :=
  rfl

theorem walkEntries_write (keep : List Char → String → Bool) (b : List UInt8) (c : String)
    (cs : List String) (ih : ∀ root rel n, walkNode keep root rel (n.write cs b) =
      (walkNode keep root rel n).map (Visit.overwrite (rel ++ cs) b))
    (root : List Char) (rel : List String) (es : List (String × Node)) :
    walkEntries keep root rel (es.map (writeEntry c cs b)) =
      (walkEntries keep root rel es).map (Visit.overwrite (rel ++ c :: cs) b) := by
  induction es with
  | nil => rfl
  | cons e es ihes =>
    obtain ⟨k, n⟩ := e
    by_cases hk : k = c
    · subst hk
      rw [List.map_cons, show writeEntry k cs b (k, n) = (k, n.write cs b) by simp [writeEntry]]
      simp only [walkEntries, List.map_append, ihes]
      congr 1
      cases n with
      | file f => cases cs <;> rfl
      | dir ds =>
        obtain ⟨ds', hds⟩ := write_dir ds cs b
        simp only [hds]
        split
        · rw [← hds, ih]; simp
        · rfl
    · rw [List.map_cons, show writeEntry c cs b (k, n) = (k, n) by simp [writeEntry, hk]]
      simp only [walkEntries, List.map_append, ihes]
      congr 1
      refine (map_overwrite_of_ne b fun u hu => ?_).symm
      cases n with
      | file f => simp at hu
      | dir ds =>
        by_cases hkeep : keep root k = true
        · simp only [hkeep, if_true] at hu
          obtain ⟨x, xs, h, -⟩ := walkNode_rel keep _ _ _ u hu
          simp [h, hk]
        · simp [hkeep] at hu

/-- Writing a file changes the bytes of the one visit at its path and nothing else of a walk. -/
theorem walkNode_write (keep : List Char → String → Bool) (b : List UInt8) :
    ∀ (p : List String) (root : List Char) (rel : List String) (n : Node),
      walkNode keep root rel (n.write p b) =
        (walkNode keep root rel n).map (Visit.overwrite (rel ++ p) b)
  | [], _, _, .file _ => rfl
  | [], root, rel, .dir es => (map_overwrite_of_ne b fun u hu => by
      obtain ⟨x, xs, h, -⟩ := walkNode_rel keep root rel _ u hu
      simp [h]).symm
  | _ :: _, _, _, .file _ => rfl
  | c :: cs, root, rel, .dir es => by
    rw [write_dir_cons, walkNode, walkNode, List.map_append, filesOf_write,
      walkEntries_write keep b c cs (walkNode_write keep b cs)]

theorem filesOf_bytesAt {root : List Char} {rel : List String} {es : List (String × Node)}
    (h : (es.map (·.1)).Nodup) {u : Visit} (hu : u ∈ filesOf root rel es) :
    ∃ r, u.rel = rel ++ r ∧ (Node.dir es).bytesAt r = some u.bytes := by
  obtain ⟨⟨f, n⟩, he, hf⟩ := List.mem_filterMap.mp hu
  cases n with
  | file b =>
    cases hf
    refine ⟨[f], rfl, ?_⟩
    simp [bytesAt_cons_dir, lookup_of_mem h he, Node.bytesAt, Node.lookup]
  | dir _ => cases hf

mutual
/-- In a tree a file system can hold, every visit of a walk is the file at its path. -/
theorem walkNode_bytesAt (keep : List Char → String → Bool) :
    ∀ (root : List Char) (rel : List String) (n : Node), n.valid = true →
      ∀ u ∈ walkNode keep root rel n, ∃ r, u.rel = rel ++ r ∧ n.bytesAt r = some u.bytes
  | _, _, .file _, _, u, hu => by simp [walkNode] at hu
  | root, rel, .dir es, hv, u, hu => by
    rw [valid_dir] at hv
    have hvalid : entriesValid es = true := by
      rw [entriesValid_eq, List.all_eq_true]
      intro e he
      simp only [Bool.and_eq_true, decide_eq_true_eq]
      exact hv.2 e he
    rcases List.mem_append.mp hu with hu | hu
    · exact filesOf_bytesAt hv.1 hu
    · obtain ⟨e, he, r, hr, hb⟩ := walkEntries_bytesAt keep root rel es hvalid u hu
      refine ⟨e.1 :: r, hr, ?_⟩
      rw [bytesAt_cons_dir, lookup_of_mem hv.1 he]
      exact hb
theorem walkEntries_bytesAt (keep : List Char → String → Bool) :
    ∀ (root : List Char) (rel : List String) (es : List (String × Node)), entriesValid es = true →
      ∀ u ∈ walkEntries keep root rel es, ∃ e ∈ es, ∃ r, u.rel = rel ++ e.1 :: r ∧
        e.2.bytesAt r = some u.bytes
  | _, _, [], _, u, hu => by simp [walkEntries] at hu
  | root, rel, (d, n) :: rest, hv, u, hu => by
    simp only [entriesValid, Bool.and_eq_true] at hv
    simp only [walkEntries, List.mem_append] at hu
    rcases hu with hu | hu
    · cases n with
      | file _ => simp at hu
      | dir cs =>
        by_cases hk : keep root d = true
        · simp only [hk, if_true] at hu
          obtain ⟨r, hr, hb⟩ := walkNode_bytesAt keep _ _ (.dir cs) hv.1.2 u hu
          exact ⟨(d, .dir cs), List.mem_cons_self _ _, r, by simp [hr], hb⟩
        · simp [hk] at hu
    · obtain ⟨e, he, r, hr, hb⟩ := walkEntries_bytesAt keep root rel rest hv.2 u hu
      exact ⟨e, List.mem_cons_of_mem _ he, r, hr, hb⟩
end

theorem collect_mem_some {check : Visit → Except Fault (Option Violation)} {us : List Visit}
    {vs : List Violation} (h : collect check us = .ok vs) {v : Violation} (hv : v ∈ vs) :
    ∃ u ∈ us, check u = .ok (some v) := by
  induction us generalizing vs with
  | nil => cases h; cases hv
  | cons w ws ih =>
    unfold collect at h
    cases hw : check w with
    | error f => simp [hw] at h
    | ok x =>
      rw [hw] at h
      cases hr : collect check ws with
      | error f => simp [hr] at h
      | ok rest =>
        simp only [hr] at h
        cases h
        rcases List.mem_append.mp hv with hv | hv
        · cases x with
          | none => cases hv
          | some y => cases List.mem_singleton.mp hv; exact ⟨w, List.mem_cons_self _ _, hw⟩
        · obtain ⟨u, hu, hc⟩ := ih hr hv
          exact ⟨u, List.mem_cons_of_mem _ hu, hc⟩

theorem collect_map_congr {check check' : Visit → Except Fault (Option Violation)}
    {f : Visit → Visit} {us : List Visit} (h : ∀ u ∈ us, check (f u) = check' u) :
    collect check (us.map f) = collect check' us := by
  induction us with
  | nil => rfl
  | cons u us ih =>
    simp only [List.map_cons, collect, h u (List.mem_cons_self _ _),
      ih fun w hw => h w (List.mem_cons_of_mem _ hw)]

theorem collect_append (check : Visit → Except Fault (Option Violation)) (a b : List Visit) :
    collect check (a ++ b) =
      (collect check a >>= fun x => collect check b >>= fun y => pure (x ++ y)) := by
  induction a with
  | nil => cases h : collect check b <;> simp [collect, h] <;> rfl
  | cons u us ih =>
    cases hu : check u with
    | error f => rw [List.cons_append]; simp only [collect, hu]; rfl
    | ok x =>
      rw [List.cons_append]
      simp only [collect, hu]
      rw [ih]
      cases collect check us <;> cases collect check b
      · rfl
      · rfl
      · rfl
      · exact congrArg Except.ok (List.append_assoc _ _ _).symm

/-- The accumulation completes exactly when no visit raises. -/
theorem collect_isOk {check : Visit → Except Fault (Option Violation)} :
    ∀ {us : List Visit}, (∃ vs, collect check us = .ok vs) ↔ ∀ u ∈ us, ∃ x, check u = .ok x
  | [] => ⟨fun _ _ h => (nomatch h), fun _ => ⟨[], rfl⟩⟩
  | w :: ws => by
    rw [List.forall_mem_cons, ← collect_isOk]
    simp only [collect]
    cases check w with
    | error f => exact ⟨fun ⟨_, h⟩ => (nomatch h), fun ⟨⟨_, h⟩, _⟩ => (nomatch h)⟩
    | ok x =>
      cases collect check ws with
      | error f => exact ⟨fun ⟨_, h⟩ => (nomatch h), fun ⟨_, _, h⟩ => (nomatch h)⟩
      | ok r => exact ⟨fun _ => ⟨⟨x, rfl⟩, r, rfl⟩, fun _ => ⟨_, rfl⟩⟩

/-- Each violation the accumulation collects comes from its own visit, in walk order. -/
theorem collect_sublist {check : Visit → Except Fault (Option Violation)}
    {f : Visit → List String} (hf : ∀ u v, check u = .ok (some v) → v.filePath = f u) :
    ∀ {us : List Visit} {vs : List Violation}, collect check us = .ok vs →
      (vs.map (·.filePath)).Sublist (us.map f)
  | [], _, h => by cases h; exact List.Sublist.slnil
  | w :: ws, vs, h => by
    unfold collect at h
    cases hw : check w with
    | error e => simp [hw] at h
    | ok x =>
      rw [hw] at h
      cases hr : collect check ws with
      | error e => simp [hr] at h
      | ok rest =>
        simp only [hr] at h
        cases h
        cases x with
        | none => exact (collect_sublist hf hr).cons _
        | some v =>
          simp only [Option.toList_some, List.singleton_append, List.map_cons, hf w v hw]
          exact (collect_sublist hf hr).cons₂ _

mutual
/-- A walk that prunes more gives the same accumulation as one that prunes less, when every
file below a directory only the first prunes is passed over. -/
theorem collect_walkNode_prune {check : Visit → Except Fault (Option Violation)}
    {keep keep' : List Char → String → Bool} (hle : ∀ r e, keep r e = true → keep' r e = true) :
    ∀ (root : List Char) (rel : List String) (n : Node),
      (∀ u ∈ walkNode keep' root rel n, ∀ r e, keep' r e = true → keep r e = false →
        r ++ '/' :: e.toList ++ ['/'] <+: u.path → check u = .ok none) →
      collect check (walkNode keep root rel n) = collect check (walkNode keep' root rel n)
  | _, _, .file _, _ => rfl
  | root, rel, .dir es, h => by
    simp only [walkNode] at h ⊢
    rw [collect_append, collect_append, collect_walkEntries_prune hle root rel es
      fun u hu => h u (List.mem_append_right _ hu)]
theorem collect_walkEntries_prune {check : Visit → Except Fault (Option Violation)}
    {keep keep' : List Char → String → Bool} (hle : ∀ r e, keep r e = true → keep' r e = true) :
    ∀ (root : List Char) (rel : List String) (es : List (String × Node)),
      (∀ u ∈ walkEntries keep' root rel es, ∀ r e, keep' r e = true → keep r e = false →
        r ++ '/' :: e.toList ++ ['/'] <+: u.path → check u = .ok none) →
      collect check (walkEntries keep root rel es) = collect check (walkEntries keep' root rel es)
  | _, _, [], _ => rfl
  | root, rel, (d, n) :: rest, h => by
    simp only [walkEntries] at h ⊢
    rw [collect_append, collect_append, collect_walkEntries_prune hle root rel rest
      fun u hu => h u (List.mem_append_right _ hu)]
    cases n with
    | file _ => rfl
    | dir cs =>
      have hsub := fun u hu => h u (List.mem_append_left _ hu)
      cases hk' : keep' root d with
      | false =>
        have hk : keep root d = false := by
          cases hk : keep root d
          · rfl
          · exact absurd (hle _ _ hk) (by simp [hk'])
        simp only [hk, hk', Bool.false_eq_true, if_false]
      | true =>
        simp only [hk', if_true] at hsub ⊢
        cases hk : keep root d with
        | true =>
          simp only [if_true]
          rw [collect_walkNode_prune hle _ _ (.dir cs) hsub]
        | false =>
          rw [collect_all_none fun u (hu : u ∈ walkNode keep' _ _ (.dir cs)) => by
            obtain ⟨x, xs, -, hp⟩ := walkNode_rel keep' _ _ _ u hu
            exact hsub u hu root d hk' hk ⟨x.toList ++ rootPath xs, by simp [hp, rootPath]⟩]
          rfl
end

/-- Every directory on the path `xs` below `root` passes `keep`; the last component, the file's
own name, is not tested. -/
def keptAlong (keep : List Char → String → Bool) (root : List Char) : List String → Bool
  | [] | [_] => true
  | d :: e :: rest => keep root d && keptAlong keep (root ++ '/' :: d.toList) (e :: rest)

theorem mem_of_lookup {β : Type} {es : List (String × β)} {k : String} {n : β}
    (h : es.lookup k = some n) : (k, n) ∈ es := by
  induction es with
  | nil => cases h
  | cons e es ih =>
    obtain ⟨k', n'⟩ := e
    rw [List.lookup_cons] at h
    split at h
    · rename_i hk
      cases h
      rw [beq_iff_eq.mp hk]
      exact List.mem_cons_self _ _
    · exact List.mem_cons_of_mem _ (ih h)

theorem valid_dir_entries {es : List (String × Node)} (h : (Node.dir es).valid = true) :
    (es.map (·.1)).Nodup ∧ entriesValid es = true := by
  simpa [Node.valid] using h

@[simp] theorem bytesAt_file_cons (f : List UInt8) (c : String) (cs : List String) :
    (Node.file f).bytesAt (c :: cs) = none := rfl

theorem bytesAt_nil {n : Node} {b : List UInt8} (h : n.bytesAt [] = some b) : n = .file b := by
  cases n <;> simp_all [Node.bytesAt, Node.lookup]

theorem mem_filesOf {root : List Char} {rel : List String} {es : List (String × Node)}
    {u : Visit} :
    u ∈ filesOf root rel es ↔
      ∃ f b, (f, Node.file b) ∈ es ∧ u = ⟨root ++ '/' :: f.toList, rel ++ [f], b⟩ := by
  unfold filesOf
  rw [List.mem_filterMap]
  constructor
  · rintro ⟨⟨f, n⟩, he, hf⟩
    cases n with
    | file b => cases hf; exact ⟨f, b, he, rfl⟩
    | dir _ => cases hf
  · rintro ⟨f, b, he, rfl⟩
    exact ⟨_, he, rfl⟩

theorem mem_walkEntries {keep : List Char → String → Bool} {root : List Char}
    {rel : List String} {es : List (String × Node)} {u : Visit} :
    u ∈ walkEntries keep root rel es ↔ ∃ d cs, (d, Node.dir cs) ∈ es ∧ keep root d = true ∧
      u ∈ walkNode keep (root ++ '/' :: d.toList) (rel ++ [d]) (.dir cs) := by
  induction es with
  | nil => simp [walkEntries]
  | cons e rest ih =>
    obtain ⟨d, n⟩ := e
    simp only [walkEntries, List.mem_append]
    rw [ih]
    cases n with
    | file _ => simp
    | dir cs =>
      by_cases hk : keep root d = true
      · simp only [hk, if_true, List.mem_cons, Prod.mk.injEq, Node.dir.injEq]
        constructor
        · rintro (h | ⟨d', cs', h1, h2, h3⟩)
          · exact ⟨d, cs, .inl ⟨rfl, rfl⟩, hk, h⟩
          · exact ⟨d', cs', .inr h1, h2, h3⟩
        · rintro ⟨d', cs', (⟨rfl, rfl⟩ | h1), h2, h3⟩
          · exact .inl h3
          · exact .inr ⟨d', cs', h1, h2, h3⟩
      · simp only [Bool.not_eq_true] at hk
        simp only [hk, Bool.false_eq_true, if_false, List.not_mem_nil, false_or, List.mem_cons,
          Prod.mk.injEq, Node.dir.injEq]
        constructor
        · rintro ⟨d', cs', h1, h2, h3⟩
          exact ⟨d', cs', .inr h1, h2, h3⟩
        · rintro ⟨d', cs', (⟨rfl, rfl⟩ | h1), h2, h3⟩
          · exact absurd h2 (by simp [hk])
          · exact ⟨d', cs', h1, h2, h3⟩

/-- A walk visits every file below where it starts whose directories `keep` passes. -/
theorem mem_walkNode_of_bytesAt {keep : List Char → String → Bool} :
    ∀ {xs : List String} {n : Node} {root : List Char} {rel : List String} {b : List UInt8},
      xs ≠ [] → n.bytesAt xs = some b → keptAlong keep root xs = true →
      ⟨root ++ rootPath xs, rel ++ xs, b⟩ ∈ walkNode keep root rel n
  | [], _, _, _, _, h, _, _ => absurd rfl h
  | [f], .file _, _, _, _, _, hb, _ => by simp at hb
  | [f], .dir es, root, rel, b, _, hb, _ => by
    rw [bytesAt_cons_dir] at hb
    obtain ⟨m, hm, hmb⟩ := Option.bind_eq_some.mp hb
    cases bytesAt_nil hmb
    exact List.mem_append_left _ (mem_filesOf.mpr ⟨f, b, mem_of_lookup hm, by simp [rootPath]⟩)
  | _ :: _ :: _, .file _, _, _, _, _, hb, _ => by simp at hb
  | d :: e :: rest, .dir es, root, rel, b, _, hb, hk => by
    rw [bytesAt_cons_dir] at hb
    obtain ⟨m, hm, hmb⟩ := Option.bind_eq_some.mp hb
    simp only [keptAlong, Bool.and_eq_true] at hk
    have hv := @mem_walkNode_of_bytesAt keep _ _ _ (rel ++ [d]) _ (List.cons_ne_nil e rest) hmb hk.2
    cases m with
    | file _ => simp at hmb
    | dir cs =>
      refine List.mem_append_right _ (mem_walkEntries.mpr ⟨d, cs, mem_of_lookup hm, hk.1, ?_⟩)
      simpa [rootPath] using hv

mutual
/-- Every visit of a walk lies below a path whose directories `keep` passes. -/
theorem walkNode_keptAlong (keep : List Char → String → Bool) :
    ∀ (root : List Char) (rel : List String) (n : Node), ∀ u ∈ walkNode keep root rel n,
      ∃ xs, u.rel = rel ++ xs ∧ keptAlong keep root xs = true
  | _, _, .file _, u, hu => by simp [walkNode] at hu
  | root, rel, .dir es, u, hu => by
    rcases List.mem_append.mp hu with hu | hu
    · obtain ⟨f, b, -, rfl⟩ := mem_filesOf.mp hu
      exact ⟨[f], rfl, rfl⟩
    · exact walkEntries_keptAlong keep root rel es u hu
theorem walkEntries_keptAlong (keep : List Char → String → Bool) :
    ∀ (root : List Char) (rel : List String) (es : List (String × Node)),
      ∀ u ∈ walkEntries keep root rel es, ∃ xs, u.rel = rel ++ xs ∧ keptAlong keep root xs = true
  | _, _, [], u, hu => by simp [walkEntries] at hu
  | root, rel, (d, n) :: rest, u, hu => by
    simp only [walkEntries, List.mem_append] at hu
    rcases hu with hu | hu
    · cases n with
      | file _ => simp at hu
      | dir cs =>
        by_cases hk : keep root d = true
        · simp only [hk, if_true] at hu
          obtain ⟨xs, hxs, hka⟩ := walkNode_keptAlong keep _ _ (.dir cs) u hu
          obtain ⟨x, ys, hrel, -⟩ := walkNode_rel keep _ _ (.dir cs) u hu
          obtain rfl : xs = x :: ys := List.append_cancel_left (hxs.symm.trans hrel)
          exact ⟨d :: x :: ys, by simp [hxs], by rw [keptAlong, hk, hka]; rfl⟩
        · simp [hk] at hu
    · exact walkEntries_keptAlong keep root rel rest u hu
end

/-- What a walk of a tree a file system can hold visits: exactly the files below where it starts
whose directories `keep` passes, each at its own path and with its own bytes. -/
theorem mem_walkNode (keep : List Char → String → Bool) (root : List Char) (rel : List String)
    {n : Node} (hv : n.valid = true) (u : Visit) :
    u ∈ walkNode keep root rel n ↔ ∃ xs b, xs ≠ [] ∧ n.bytesAt xs = some b ∧
      keptAlong keep root xs = true ∧ u = ⟨root ++ rootPath xs, rel ++ xs, b⟩ := by
  constructor
  · intro hu
    obtain ⟨x, xs, hrel, hpath⟩ := walkNode_rel keep root rel n u hu
    obtain ⟨r, hr, hb⟩ := walkNode_bytesAt keep root rel n hv u hu
    obtain ⟨ys, hys, hk⟩ := walkNode_keptAlong keep root rel n u hu
    obtain rfl : r = x :: xs := List.append_cancel_left (hr.symm.trans hrel)
    obtain rfl : ys = x :: xs := List.append_cancel_left (hys.symm.trans hrel)
    refine ⟨x :: xs, u.bytes, List.cons_ne_nil _ _, hb, hk, ?_⟩
    cases u
    simp_all
  · rintro ⟨xs, b, hne, hb, hk, rfl⟩
    exact mem_walkNode_of_bytesAt hne hb hk

theorem filesOf_nodup {root : List Char} {rel : List String} {es : List (String × Node)}
    (h : (es.map (·.1)).Nodup) : ((filesOf root rel es).map (·.rel)).Nodup := by
  induction es with
  | nil => exact List.nodup_nil
  | cons e rest ih =>
    obtain ⟨f, n⟩ := e
    rw [List.map_cons, List.nodup_cons] at h
    cases n with
    | dir _ => exact ih h.2
    | file b =>
      refine List.nodup_cons.mpr ⟨fun hm => ?_, ih h.2⟩
      obtain ⟨u, hu, hrel⟩ := List.mem_map.mp hm
      obtain ⟨e', he', hu1, -⟩ := filesOf_rel hu
      rw [hu1, List.append_cancel_left_eq, List.singleton_inj] at hrel
      exact h.1 (hrel ▸ List.mem_map_of_mem (·.1) he')

mutual
/-- A walk of a tree a file system can hold visits each file once. -/
theorem walkNode_nodup (keep : List Char → String → Bool) :
    ∀ (root : List Char) (rel : List String) (n : Node), n.valid = true →
      ((walkNode keep root rel n).map (·.rel)).Nodup
  | _, _, .file _, _ => List.nodup_nil
  | root, rel, .dir es, hv => by
    obtain ⟨hnd, hev⟩ := valid_dir_entries hv
    rw [walkNode, List.map_append, List.nodup_append]
    refine ⟨filesOf_nodup hnd, walkEntries_nodup keep root rel es hev hnd, fun r h1 h2 => ?_⟩
    obtain ⟨u, hu, rfl⟩ := List.mem_map.mp h1
    obtain ⟨w, hw, hrel⟩ := List.mem_map.mp h2
    obtain ⟨e, -, hu1, -⟩ := filesOf_rel hu
    obtain ⟨d, cs, -, -, hw⟩ := mem_walkEntries.mp hw
    obtain ⟨x, xs, hw1, -⟩ := walkNode_rel keep _ _ (.dir cs) w hw
    have := congrArg List.length (hw1.symm.trans (hrel.trans hu1))
    simp at this
theorem walkEntries_nodup (keep : List Char → String → Bool) :
    ∀ (root : List Char) (rel : List String) (es : List (String × Node)), entriesValid es = true →
      (es.map (·.1)).Nodup → ((walkEntries keep root rel es).map (·.rel)).Nodup
  | _, _, [], _, _ => List.nodup_nil
  | root, rel, (d, n) :: rest, hv, hnd => by
    simp only [entriesValid, Bool.and_eq_true] at hv
    rw [List.map_cons, List.nodup_cons] at hnd
    simp only [walkEntries, List.map_append]
    rw [List.nodup_append]
    refine ⟨?_, walkEntries_nodup keep root rel rest hv.2 hnd.2, fun r h1 h2 => ?_⟩
    · cases n with
      | file _ => exact List.nodup_nil
      | dir cs =>
        dsimp only
        split
        · exact walkNode_nodup keep _ _ (.dir cs) hv.1.2
        · exact List.nodup_nil
    · obtain ⟨u, hu, rfl⟩ := List.mem_map.mp h1
      obtain ⟨w, hw, hrel⟩ := List.mem_map.mp h2
      obtain ⟨e, he, xs, hw1, -⟩ := walkEntries_rel keep root rel rest w hw
      cases n with
      | file _ => simp at hu
      | dir cs =>
        dsimp only at hu
        split at hu
        · obtain ⟨x, ys, hu1, -⟩ := walkNode_rel keep _ _ (.dir cs) u hu
          rw [hw1, hu1, List.append_assoc, List.append_cancel_left_eq, List.singleton_append,
            List.cons.injEq] at hrel
          exact hnd.1 (hrel.1 ▸ List.mem_map_of_mem (·.1) he)
        · simp at hu
end

/-- `u` as a walk reports it from the directory at `X ++ root`. -/
def Visit.relocate (X : List Char) (u : Visit) : Visit := { u with path := X ++ u.path }

theorem filesOf_relocate (X root : List Char) (rel : List String) (es : List (String × Node)) :
    filesOf (X ++ root) rel es = (filesOf root rel es).map (Visit.relocate X) := by
  induction es with
  | nil => rfl
  | cons e es ih =>
    obtain ⟨f, n⟩ := e
    cases n <;> simp [filesOf, Visit.relocate] at ih ⊢ <;> exact ih

mutual
/-- A walk from `X ++ root` visits the files the walk from `root` visits, with `X` before each
path, when the two pruning tests agree below `root`. -/
theorem walkNode_relocate (X : List Char) {keep keep' : List Char → String → Bool} :
    ∀ (root : List Char) (rel : List String) (n : Node),
      (∀ r d, root <+: r → keep (X ++ r) d = keep' r d) →
      walkNode keep (X ++ root) rel n = (walkNode keep' root rel n).map (Visit.relocate X)
  | _, _, .file _, _ => rfl
  | root, rel, .dir es, h => by
    rw [walkNode, walkNode, List.map_append, filesOf_relocate,
      walkEntries_relocate X root rel es h]
theorem walkEntries_relocate (X : List Char) {keep keep' : List Char → String → Bool} :
    ∀ (root : List Char) (rel : List String) (es : List (String × Node)),
      (∀ r d, root <+: r → keep (X ++ r) d = keep' r d) →
      walkEntries keep (X ++ root) rel es = (walkEntries keep' root rel es).map (Visit.relocate X)
  | _, _, [], _ => rfl
  | root, rel, (d, n) :: rest, h => by
    simp only [walkEntries, List.map_append, walkEntries_relocate X root rel rest h]
    congr 1
    cases n with
    | file _ => rfl
    | dir es =>
      simp only [h root d (List.prefix_refl _)]
      split
      · rw [List.append_assoc, walkNode_relocate X _ _ (.dir es) fun r e hr =>
          h r e ((List.prefix_append _ _).trans hr)]
      · rfl
end

end KeosGrader
