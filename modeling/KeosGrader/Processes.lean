import KeosGrader.Utf8

/-! `find_qemu_pids`: for every numbered entry of `/proc`, the `cmdline` bytes with NULs turned
into spaces, decoded as strict UTF-8 and stripped, are searched for the two words of the
emulator's signature. The listing of `/proc` and the reads are the environment. -/

namespace KeosGrader

/-- The characters `str.isspace()` accepts, which `str.strip()` removes. -/
def isPyWhitespace (c : Char) : Bool :=
  (0x09 ≤ c.toNat && c.toNat ≤ 0x0D) || (0x1C ≤ c.toNat && c.toNat ≤ 0x20) || c.toNat = 0x85 ||
    c.toNat = 0xA0 || c.toNat = 0x1680 || (0x2000 ≤ c.toNat && c.toNat ≤ 0x200A) ||
    c.toNat = 0x2028 || c.toNat = 0x2029 || c.toNat = 0x202F || c.toNat = 0x205F ||
    c.toNat = 0x3000

/-- `str.strip()`. -/
def pyStrip (s : List Char) : List Char :=
  ((s.dropWhile isPyWhitespace).reverse.dropWhile isPyWhitespace).reverse

/-- `bytes.replace(b'\x00', b' ')`. -/
def nulToSpace (bs : List UInt8) : List UInt8 := bs.map fun b => if b = 0 then 0x20 else b

/-- An entry of `/proc`: its name, and the bytes of its `cmdline` when the file exists, is
readable and reads without an `OSError`. -/
structure ProcEntry where
  name : List Char
  cmdline : Option (List UInt8)

def qemuSignature : List Char := "qemu-system-x86_64".toList

def isoSignature : List Char := "kernel.iso".toList

/-- The body of `find_qemu_pids`'s loop for one entry: its pid when the entry is reported. A name
passes `isdigit()` when it is a nonempty run of digits; a read error or a `UnicodeDecodeError`
skips the entry. -/
def qemuPidOf (e : ProcEntry) : Option Nat :=
  if !e.name.isEmpty && e.name.all Char.isDigit then
    match e.cmdline with
    | none => none
    | some bytes =>
      match decodeUtf8 (nulToSpace bytes) with
      | none => none
      | some s =>
        if qemuSignature <:+: pyStrip s ∧ isoSignature <:+: pyStrip s then parseUnsigned e.name
        else none
  else none

/-- `find_qemu_pids`, over the entries of `/proc` in listing order. -/
def findQemuPids (procs : List ProcEntry) : List Nat := procs.filterMap qemuPidOf

section Strip

variable {w : List Char} (hne : w ≠ []) (hws : ∀ c ∈ w, isPyWhitespace c = false)
include hne hws

theorem infix_dropWhile (s : List Char) : w <:+: s.dropWhile isPyWhitespace ↔ w <:+: s := by
  conv_rhs => rw [← List.takeWhile_append_dropWhile isPyWhitespace s]
  exact (infix_seps_append hws hne (fun c hc => List.mem_takeWhile_imp hc) _).symm

/-- Stripping keeps every occurrence of a word that holds no whitespace. -/
theorem infix_pyStrip (s : List Char) : w <:+: pyStrip s ↔ w <:+: s := by
  have hrev : w.reverse ≠ [] := by simpa using hne
  have hwsr : ∀ c ∈ w.reverse, isPyWhitespace c = false := fun c hc => hws c (List.mem_reverse.mp hc)
  rw [pyStrip, ← List.reverse_reverse w, List.reverse_infix, infix_dropWhile hrev hwsr,
    ← List.reverse_infix, List.reverse_reverse, List.reverse_reverse, infix_dropWhile hne hws]

end Strip

/-- The character a NUL byte of an ASCII text becomes. -/
def nulToSpaceChar (c : Char) : Char := if c = '\x00' then ' ' else c

theorem nulToSpace_append (a b : List UInt8) : nulToSpace (a ++ b) = nulToSpace a ++ nulToSpace b :=
  List.map_append _ _ _

theorem nulToSpace_of_ne {bs : List UInt8} (h : ∀ y ∈ bs, y ≠ 0) : nulToSpace bs = bs := by
  conv_rhs => rw [← List.map_id bs]
  exact List.map_congr_left fun y hy => if_neg (h y hy)

theorem nulToSpace_encodeChar (c : Char) : nulToSpace (encodeChar c) = encodeChar (nulToSpaceChar c) := by
  by_cases hnul : c = '\x00'
  · subst hnul
    decide
  rw [nulToSpaceChar, if_neg hnul]
  refine nulToSpace_of_ne fun y hy => ?_
  by_cases ha : IsAscii c
  · rw [encodeChar_ascii ha, List.mem_singleton] at hy
    rintro rfl
    exact hnul ((ascii_byte_eq ha (by decide : IsAscii '\x00')).mp hy.symm)
  · obtain ⟨x, xs, hx, hhigh⟩ := encodeChar_high ha
    rw [hx] at hy
    have := hhigh y hy
    rintro rfl
    exact absurd this (by decide)

theorem nulToSpace_encodeUtf8 (cs : List Char) :
    nulToSpace (encodeUtf8 cs) = encodeUtf8 (cs.map nulToSpaceChar) := by
  induction cs with
  | nil => rfl
  | cons c cs ih => rw [encodeUtf8_cons, nulToSpace_append, nulToSpace_encodeChar, ih]; rfl

/-- The bytes whose NULs become the encoding of a character are the encoding of a character. -/
theorem nulToSpace_eq_encodeChar {bs : List UInt8} {d : Char} (h : nulToSpace bs = encodeChar d) :
    ∃ c, encodeChar c = bs := by
  by_cases ha : IsAscii d
  · rw [encodeChar_ascii ha] at h
    obtain ⟨x, rest, rfl, hx, hrest⟩ := List.map_eq_cons_iff.mp h
    obtain rfl := List.map_eq_nil_iff.mp hrest
    refine ⟨Char.ofNat x.toNat, encodeChar_one ?_⟩
    by_cases h0 : x = 0
    · subst h0
      decide
    · rw [if_neg h0] at hx
      rw [hx, toNat_toUInt8 (by unfold IsAscii at ha; omega)]
      exact ha
  · obtain ⟨x, xs, hx, hhigh⟩ := encodeChar_high ha
    refine ⟨d, ?_⟩
    rw [← h, nulToSpace_of_ne]
    intro y hy h0
    have hm : (if y = 0 then (0x20 : UInt8) else y) ∈ x :: xs := by
      rw [← hx, ← h]
      exact List.mem_map_of_mem _ hy
    have := hhigh _ hm
    rw [if_pos h0] at this
    exact absurd this (by decide)

theorem nulToSpace_eq_encodeUtf8 : ∀ {ds : List Char} {bs : List UInt8},
    nulToSpace bs = encodeUtf8 ds → ∃ cs, encodeUtf8 cs = bs
  | [], bs, h => ⟨[], (List.map_eq_nil_iff.mp h).symm⟩
  | d :: ds, bs, h => by
    rw [encodeUtf8_cons] at h
    obtain ⟨b1, b2, rfl, h1, h2⟩ := List.map_eq_append_iff.mp h
    obtain ⟨c, hc⟩ := nulToSpace_eq_encodeChar h1
    obtain ⟨cs, hcs⟩ := nulToSpace_eq_encodeUtf8 h2
    exact ⟨c :: cs, by rw [encodeUtf8_cons, hc, hcs]⟩

/-- Turning NULs into spaces neither makes nor breaks valid UTF-8. -/
theorem decodeUtf8_nulToSpace_isSome (bs : List UInt8) :
    (decodeUtf8 (nulToSpace bs)).isSome = (decodeUtf8 bs).isSome := by
  cases hd : decodeUtf8 bs with
  | some cs =>
    rw [← encodeUtf8_of_decodeUtf8 hd, nulToSpace_encodeUtf8, decodeUtf8_encodeUtf8]
    rfl
  | none =>
    cases hn : decodeUtf8 (nulToSpace bs) with
    | none => rfl
    | some ds =>
      obtain ⟨cs, rfl⟩ := nulToSpace_eq_encodeUtf8 (encodeUtf8_of_decodeUtf8 hn).symm
      rw [decodeUtf8_encodeUtf8] at hd
      cases hd

/-- Turning NULs into spaces keeps and makes no occurrence of a word that holds neither. -/
theorem infix_nulToSpace {u : List UInt8} (h0 : 0 ∉ u) (h20 : 0x20 ∉ u) (bs : List UInt8) :
    u <:+: nulToSpace bs ↔ u <:+: bs := by
  constructor
  · rintro ⟨s, t, h⟩
    obtain ⟨st', t', rfl, hst, -⟩ := List.map_eq_append_iff.mp h.symm
    obtain ⟨s', u', rfl, -, hu⟩ := List.map_eq_append_iff.mp hst
    have hfix : nulToSpace u' = u' := nulToSpace_of_ne fun y hy h => by
      have hm : (if y = 0 then (0x20 : UInt8) else y) ∈ u := hu ▸ List.mem_map_of_mem _ hy
      rw [if_pos h] at hm
      exact h20 hm
    have hu' : u' = u := hfix.symm.trans hu
    exact ⟨s', t', by rw [hu']⟩
  · intro h
    have hfix : nulToSpace u = u := nulToSpace_of_ne fun y hy h => h0 (h ▸ hy)
    have hm := h.map fun b : UInt8 => if b = 0 then (0x20 : UInt8) else b
    rwa [show List.map (fun b : UInt8 => if b = 0 then (0x20 : UInt8) else b) u = u from hfix] at hm

/-- A word of the signature occurs in the command line as `find_qemu_pids` reads it exactly when
its bytes occur in the raw `cmdline`. -/
theorem signature_infix_iff {w : List Char} (hne : w ≠ []) (hascii : ∀ c ∈ w, IsAscii c)
    (hws : ∀ c ∈ w, isPyWhitespace c = false) (h0 : 0 ∉ encodeUtf8 w)
    (h20 : 0x20 ∉ encodeUtf8 w) {bs : List UInt8} {s : List Char}
    (hs : decodeUtf8 (nulToSpace bs) = some s) : w <:+: pyStrip s ↔ encodeUtf8 w <:+: bs := by
  rw [infix_pyStrip hne hws, ← infix_encodeUtf8 hascii hne, encodeUtf8_of_decodeUtf8 hs,
    infix_nulToSpace h0 h20]

/-- An entry is reported exactly when it is named by a number, its command line can be read, is
valid UTF-8, and holds the bytes of both words of the signature. -/
theorem qemuPidOf_eq_some (e : ProcEntry) (pid : Nat) :
    qemuPidOf e = some pid ↔ ∃ bytes, e.cmdline = some bytes ∧
      (e.name ≠ [] ∧ ∀ c ∈ e.name, c.isDigit = true) ∧ parseUnsigned e.name = some pid ∧
      (decodeUtf8 bytes).isSome ∧
      encodeUtf8 qemuSignature <:+: bytes ∧ encodeUtf8 isoSignature <:+: bytes := by
  have hq := @signature_infix_iff qemuSignature (by decide) (by decide) (by decide) (by decide)
    (by decide)
  have hi := @signature_infix_iff isoSignature (by decide) (by decide) (by decide) (by decide)
    (by decide)
  unfold qemuPidOf
  by_cases hname : e.name ≠ [] ∧ ∀ c ∈ e.name, c.isDigit = true
  · have hb : (!e.name.isEmpty && e.name.all Char.isDigit) = true := by
      simpa [List.isEmpty_iff] using hname
    rw [if_pos hb]
    cases hc : e.cmdline with
    | none => simp
    | some bytes =>
      simp only [Option.some.injEq, exists_eq_left', eq_true hname, true_and]
      rw [← decodeUtf8_nulToSpace_isSome]
      cases hs : decodeUtf8 (nulToSpace bytes) with
      | none => simp
      | some s =>
        simp only [Option.isSome_some, true_and, hq hs, hi hs]
        split_ifs with h <;> simp [h]
  · have hb : (!e.name.isEmpty && e.name.all Char.isDigit) = false := by
      simpa [List.isEmpty_iff] using hname
    simp [hb, hname]

/-- The processes `find_qemu_pids` reports are exactly those named by a number whose command line
can be read, is valid UTF-8, and holds the bytes of both words of the signature: a process is
reported whatever else its command line holds, and never when it is not valid UTF-8. -/
theorem mem_findQemuPids (procs : List ProcEntry) (pid : Nat) :
    pid ∈ findQemuPids procs ↔ ∃ e ∈ procs, ∃ bytes, e.cmdline = some bytes ∧
      (e.name ≠ [] ∧ ∀ c ∈ e.name, c.isDigit = true) ∧ parseUnsigned e.name = some pid ∧
      (decodeUtf8 bytes).isSome ∧
      encodeUtf8 qemuSignature <:+: bytes ∧ encodeUtf8 isoSignature <:+: bytes := by
  simp only [findQemuPids, List.mem_filterMap, qemuPidOf_eq_some]

example : findQemuPids [⟨"42".toList, some (encodeUtf8 "qemu-system-x86_64 kernel.iso".toList)⟩,
    ⟨"43".toList, some (encodeUtf8 "qemu-system-x86_64 kernel.iso".toList ++ [0xFF])⟩] = [42] := by
  decide

end KeosGrader
