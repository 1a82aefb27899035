import KeosGrader.Text

/-! Directory trees as `os.walk`, `Path.exists`, `open` and `shutil.copy2` see them: regular
files with their bytes, and directories listing named entries in the order `os.scandir` returns
them. Paths are lists of components below the tree's root. -/

namespace KeosGrader

inductive Node where
  | file (bytes : List UInt8)
  | dir (entries : List (String × Node))

mutual
/-- A tree a file system can hold: each directory lists distinct names, each a `Component`. -/
def Node.valid : Node → Bool
  | .file _ => true
  | .dir es => decide (es.map (·.1)).Nodup && entriesValid es
def entriesValid : List (String × Node) → Bool
  | [] => true
  | (c, n) :: rest => decide (Component c.toList) && n.valid && entriesValid rest
end

/-- The node at a path, as `Path.exists` and `open` find it. -/
def Node.lookup : Node → List String → Option Node
  | n, [] => some n
  | .file _, _ :: _ => none
  | .dir es, c :: cs => (es.lookup c).bind (·.lookup cs)

/-- The bytes of the regular file at a path. -/
def Node.bytesAt (n : Node) (p : List String) : Option (List UInt8) :=
  match n.lookup p with
  | some (.file b) => some b
  | _ => none

/-- `shutil.copy2` onto the file at a path: it now holds `b`. -/
def Node.write : Node → List String → List UInt8 → Node
  | .file _, [], b => .file b
  | .dir es, [], _ => .dir es
  | .dir es, c :: cs, b => .dir (es.map fun e => if e.1 = c then (e.1, e.2.write cs b) else e)
  | .file f, _ :: _, _ => .file f

theorem lookup_map_write (es : List (String × Node)) (c c' : String) (cs : List String)
    (b : List UInt8) :
    (es.map fun e => if e.1 = c then (e.1, e.2.write cs b) else e).lookup c' =
      (es.lookup c').map fun m => if c' = c then m.write cs b else m := by
  induction es with
  | nil => rfl
  | cons e es ih =>
    obtain ⟨k, m⟩ := e
    by_cases h : c' = k
    · subst h
      by_cases hk : c' = c <;> simp [hk]
    · have hb : (c' == k) = false := by simpa using h
      by_cases hk : k = c
      · subst hk; simp [List.lookup_cons, hb, h, ih]
      · simp [List.lookup_cons, hb, hk, ih]

theorem bytesAt_cons_dir (es : List (String × Node)) (c : String) (cs : List String) :
    (Node.dir es).bytesAt (c :: cs) = (es.lookup c).bind (·.bytesAt cs) := by
  cases h : es.lookup c <;> simp [Node.bytesAt, Node.lookup, h]

/-- A write changes the bytes at its own path, when a file is there, and nothing else. -/
theorem bytesAt_write (n : Node) (p q : List String) (b : List UInt8) :
    (n.write p b).bytesAt q = if q = p ∧ (n.bytesAt p).isSome then some b else n.bytesAt q := by
  induction p generalizing n q with
  | nil =>
    cases n with
    | file f => cases q <;> simp [Node.write, Node.bytesAt, Node.lookup]
    | dir es => cases q <;> simp [Node.write, Node.bytesAt, Node.lookup]
  | cons c cs ih =>
    cases n with
    | file f => simp [Node.write, Node.bytesAt, Node.lookup]
    | dir es =>
      cases q with
      | nil => simp [Node.write, Node.bytesAt, Node.lookup]
      | cons c' cs' =>
        simp only [Node.write, bytesAt_cons_dir, lookup_map_write]
        by_cases hc : c' = c
        · subst hc
          cases es.lookup c' <;> simp [ih]
        · cases es.lookup c' <;> simp [hc]

theorem entriesValid_eq (es : List (String × Node)) :
    entriesValid es = es.all fun e => decide (Component e.1.toList) && e.2.valid := by
  induction es with
  | nil => rfl
  | cons e es ih => simp [entriesValid, ih, Bool.and_assoc]

theorem valid_dir (es : List (String × Node)) :
    (Node.dir es).valid = true ↔
      (es.map (·.1)).Nodup ∧ ∀ e ∈ es, Component e.1.toList ∧ e.2.valid = true := by
  simp [Node.valid, entriesValid_eq]

/-- Writing a file keeps every name, so the tree stays one a file system can hold. -/
theorem valid_write (n : Node) (p : List String) (b : List UInt8) (h : n.valid = true) :
    (n.write p b).valid = true := by
  induction p generalizing n with
  | nil => cases n <;> simp_all [Node.write, Node.valid]
  | cons c cs ih =>
    cases n with
    | file f => simpa [Node.write] using h
    | dir es =>
      rw [valid_dir] at h
      rw [Node.write, valid_dir]
      have hnames : ((es.map fun e => if e.1 = c then (e.1, e.2.write cs b) else e).map (·.1)) =
          es.map (·.1) := by
        rw [List.map_map]
        exact List.map_congr_left fun e _ => by by_cases he : e.1 = c <;> simp [he]
      refine ⟨hnames ▸ h.1, fun e he => ?_⟩
      obtain ⟨e, hmem, rfl⟩ := List.mem_map.mp he
      have hv := h.2 e hmem
      by_cases hc : e.1 = c
      · simpa [hc] using And.intro (hc ▸ hv.1) (ih e.2 hv.2)
      · simpa [hc] using hv

end KeosGrader
