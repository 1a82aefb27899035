import KeosGrader.Text

/-! Python's strict UTF-8 codec, which `bytes.decode('utf-8')` and `text=True` both run: it
accepts exactly the well-formed UTF-8 sequences and raises `UnicodeDecodeError` on anything else.
The encoder is the standard one, used to state what the decoder accepts. -/

namespace KeosGrader

/-- A continuation byte, `80..BF`. -/
def Tail (b : UInt8) : Prop := 0x80 ≤ b.toNat ∧ b.toNat ≤ 0xBF

instance (b : UInt8) : Decidable (Tail b) := inferInstanceAs (Decidable (_ ∧ _))

/-- The first two bytes of a three-byte sequence: `E0 A0..BF`, `E1..EC 80..BF`, `ED 80..9F`
(no surrogates), `EE..EF 80..BF`. -/
def Lead3 (b0 b1 : UInt8) : Prop :=
  (b0.toNat = 0xE0 ∧ 0xA0 ≤ b1.toNat ∧ b1.toNat ≤ 0xBF) ∨
    ((0xE1 ≤ b0.toNat ∧ b0.toNat ≤ 0xEC ∨ 0xEE ≤ b0.toNat ∧ b0.toNat ≤ 0xEF) ∧ Tail b1) ∨
    (b0.toNat = 0xED ∧ 0x80 ≤ b1.toNat ∧ b1.toNat ≤ 0x9F)

/-- The first two bytes of a four-byte sequence: `F0 90..BF`, `F1..F3 80..BF`, `F4 80..8F`
(nothing above `U+10FFFF`). -/
def Lead4 (b0 b1 : UInt8) : Prop :=
  (b0.toNat = 0xF0 ∧ 0x90 ≤ b1.toNat ∧ b1.toNat ≤ 0xBF) ∨
    (0xF1 ≤ b0.toNat ∧ b0.toNat ≤ 0xF3 ∧ Tail b1) ∨
    (b0.toNat = 0xF4 ∧ 0x80 ≤ b1.toNat ∧ b1.toNat ≤ 0x8F)

instance (b0 b1 : UInt8) : Decidable (Lead3 b0 b1) := by unfold Lead3; infer_instance
instance (b0 b1 : UInt8) : Decidable (Lead4 b0 b1) := by unfold Lead4; infer_instance

/-- Python's strict `utf-8` codec; `none` is the `UnicodeDecodeError`. -/
def decodeUtf8 : List UInt8 → Option (List Char)
  | [] => some []
  | b0 :: bs =>
    if b0.toNat < 0x80 then (Char.ofNat b0.toNat :: ·) <$> decodeUtf8 bs
    else match bs with
    | [] => none
    | b1 :: bs1 =>
      if 0xC2 ≤ b0.toNat ∧ b0.toNat ≤ 0xDF ∧ Tail b1 then
        (Char.ofNat ((b0.toNat - 0xC0) * 64 + (b1.toNat - 0x80)) :: ·) <$> decodeUtf8 bs1
      else match bs1 with
      | [] => none
      | b2 :: bs2 =>
        if Lead3 b0 b1 ∧ Tail b2 then
          (Char.ofNat ((b0.toNat - 0xE0) * 4096 + (b1.toNat - 0x80) * 64 + (b2.toNat - 0x80)) ::
            ·) <$> decodeUtf8 bs2
        else match bs2 with
        | [] => none
        | b3 :: bs3 =>
          if Lead4 b0 b1 ∧ Tail b2 ∧ Tail b3 then
            (Char.ofNat ((b0.toNat - 0xF0) * 262144 + (b1.toNat - 0x80) * 4096 +
              (b2.toNat - 0x80) * 64 + (b3.toNat - 0x80)) :: ·) <$> decodeUtf8 bs3
          else none

/-- The UTF-8 encoding of one scalar value. -/
def encodeChar (c : Char) : List UInt8 :=
  if c.toNat < 0x80 then [c.toNat.toUInt8]
  else if c.toNat < 0x800 then [(0xC0 + c.toNat / 64).toUInt8, (0x80 + c.toNat % 64).toUInt8]
  else if c.toNat < 0x10000 then
    [(0xE0 + c.toNat / 4096).toUInt8, (0x80 + c.toNat / 64 % 64).toUInt8,
      (0x80 + c.toNat % 64).toUInt8]
  else
    [(0xF0 + c.toNat / 262144).toUInt8, (0x80 + c.toNat / 4096 % 64).toUInt8,
      (0x80 + c.toNat / 64 % 64).toUInt8, (0x80 + c.toNat % 64).toUInt8]

def encodeUtf8 (cs : List Char) : List UInt8 := cs.flatMap encodeChar

example : decodeUtf8 [0x61, 0xC3, 0xA9, 0xE2, 0x82, 0xAC, 0xF0, 0x9F, 0x98, 0x80] =
      some ['a', 'é', '€', '😀'] ∧
    decodeUtf8 [0xFF] = none ∧ decodeUtf8 [0xC0, 0x80] = none ∧
    decodeUtf8 [0xED, 0xA0, 0x80] = none := by
  decide

@[simp] theorem encodeUtf8_nil : encodeUtf8 [] = [] := rfl

@[simp] theorem encodeUtf8_cons (c : Char) (cs : List Char) :
    encodeUtf8 (c :: cs) = encodeChar c ++ encodeUtf8 cs := rfl

theorem encodeUtf8_append (a b : List Char) :
    encodeUtf8 (a ++ b) = encodeUtf8 a ++ encodeUtf8 b := List.flatMap_append _ _ _

theorem toNat_toUInt8 {n : Nat} (h : n < 256) : n.toUInt8.toNat = n :=
  UInt8.toNat_ofNat_of_lt h

theorem toNat_lt_256 (b : UInt8) : b.toNat < 256 := b.toBitVec.isLt

theorem toUInt8_eq {n : Nat} {b : UInt8} (h : n = b.toNat) : n.toUInt8 = b :=
  UInt8.eq_of_val_eq (Fin.ext ((toNat_toUInt8 (h ▸ toNat_lt_256 b)).trans h))

theorem toNat_ofNat_of_valid {n : Nat} (h : n < 0xD800 ∨ (0xDFFF < n ∧ n < 0x110000)) :
    (Char.ofNat n).toNat = n := by
  unfold Char.ofNat
  rw [dif_pos (by unfold Nat.isValidChar; omega)]
  simp [Char.ofNatAux, Char.toNat, UInt32.toNat]

theorem toNat_valid (c : Char) : c.toNat < 0xD800 ∨ (0xDFFF < c.toNat ∧ c.toNat < 0x110000) :=
  c.valid

theorem decodeUtf8_one {b : UInt8} (h : b.toNat < 0x80) (bs : List UInt8) :
    decodeUtf8 (b :: bs) = (Char.ofNat b.toNat :: ·) <$> decodeUtf8 bs := by
  rw [decodeUtf8.eq_def]; dsimp only; rw [if_pos h]

theorem decodeUtf8_two {b0 b1 : UInt8} (h : 0xC2 ≤ b0.toNat ∧ b0.toNat ≤ 0xDF ∧ Tail b1)
    (bs : List UInt8) :
    decodeUtf8 (b0 :: b1 :: bs) =
      (Char.ofNat ((b0.toNat - 0xC0) * 64 + (b1.toNat - 0x80)) :: ·) <$> decodeUtf8 bs := by
  rw [decodeUtf8.eq_def]; dsimp only; rw [if_neg (by omega), if_pos h]

theorem decodeUtf8_three {b0 b1 b2 : UInt8} (h : Lead3 b0 b1 ∧ Tail b2) (bs : List UInt8) :
    decodeUtf8 (b0 :: b1 :: b2 :: bs) =
      (Char.ofNat ((b0.toNat - 0xE0) * 4096 + (b1.toNat - 0x80) * 64 + (b2.toNat - 0x80)) ::
        ·) <$> decodeUtf8 bs := by
  have h0 : 0xE0 ≤ b0.toNat := by unfold Lead3 at h; omega
  rw [decodeUtf8.eq_def]; dsimp only; rw [if_neg (by omega), if_neg (by omega), if_pos h]

theorem decodeUtf8_four {b0 b1 b2 b3 : UInt8} (h : Lead4 b0 b1 ∧ Tail b2 ∧ Tail b3)
    (bs : List UInt8) :
    decodeUtf8 (b0 :: b1 :: b2 :: b3 :: bs) =
      (Char.ofNat ((b0.toNat - 0xF0) * 262144 + (b1.toNat - 0x80) * 4096 +
        (b2.toNat - 0x80) * 64 + (b3.toNat - 0x80)) :: ·) <$> decodeUtf8 bs := by
  have h0 : 0xF0 ≤ b0.toNat := by unfold Lead4 at h; omega
  rw [decodeUtf8.eq_def]; dsimp only
  rw [if_neg (by omega), if_neg (by omega), if_neg (by unfold Lead3; omega), if_pos h]

/-- A byte at least `k`, as `k` plus its offset. -/
theorem exists_offset (b : UInt8) {k : Nat} (h : k ≤ b.toNat) : ∃ x, b.toNat = x + k :=
  ⟨_, (Nat.sub_add_cancel h).symm⟩

theorem encodeChar_one {b : UInt8} (h : b.toNat < 0x80) : encodeChar (Char.ofNat b.toNat) = [b] := by
  have hn := toNat_ofNat_of_valid (by omega : b.toNat < 0xD800 ∨ _)
  unfold encodeChar
  rw [hn, if_pos h, toUInt8_eq rfl]

theorem encodeChar_two {b0 b1 : UInt8} (h : 0xC2 ≤ b0.toNat ∧ b0.toNat ≤ 0xDF ∧ Tail b1) :
    encodeChar (Char.ofNat ((b0.toNat - 0xC0) * 64 + (b1.toNat - 0x80))) = [b0, b1] := by
  unfold Tail at h
  obtain ⟨x0, hx0⟩ := exists_offset b0 (by omega : 0xC0 ≤ b0.toNat)
  obtain ⟨x1, hx1⟩ := exists_offset b1 h.2.2.1
  rw [hx0, hx1] at h ⊢
  simp only [Nat.add_sub_cancel]
  unfold encodeChar
  rw [toNat_ofNat_of_valid (by omega), if_neg (by omega), if_pos (by omega),
    toUInt8_eq (b := b0) (by omega), toUInt8_eq (b := b1) (by omega)]

/-- The offsets of a three-byte sequence's bytes give a scalar of three bytes, not a surrogate. -/
theorem encodeChar_three {b0 b1 b2 : UInt8} (h : Lead3 b0 b1 ∧ Tail b2) :
    encodeChar (Char.ofNat ((b0.toNat - 0xE0) * 4096 + (b1.toNat - 0x80) * 64 +
      (b2.toNat - 0x80))) = [b0, b1, b2] := by
  unfold Lead3 Tail at h
  obtain ⟨x0, hx0⟩ := exists_offset b0 (by omega : 0xE0 ≤ b0.toNat)
  obtain ⟨x1, hx1⟩ := exists_offset b1 (by omega : 0x80 ≤ b1.toNat)
  obtain ⟨x2, hx2⟩ := exists_offset b2 h.2.1
  rw [hx0, hx1, hx2] at h ⊢
  simp only [Nat.add_sub_cancel]
  have hr : x1 < 64 ∧ x2 < 64 ∧ 0x800 ≤ x0 * 4096 + x1 * 64 + x2 ∧
      x0 * 4096 + x1 * 64 + x2 < 0x10000 ∧
      (x0 * 4096 + x1 * 64 + x2 < 0xD800 ∨ 0xDFFF < x0 * 4096 + x1 * 64 + x2) := by
    omega
  clear h
  unfold encodeChar
  rw [toNat_ofNat_of_valid (by omega), if_neg (by omega), if_neg (by omega), if_pos hr.2.2.2.1,
    toUInt8_eq (b := b0) (by omega), toUInt8_eq (b := b1) (by omega),
    toUInt8_eq (b := b2) (by omega)]

theorem encodeChar_four {b0 b1 b2 b3 : UInt8} (h : Lead4 b0 b1 ∧ Tail b2 ∧ Tail b3) :
    encodeChar (Char.ofNat ((b0.toNat - 0xF0) * 262144 + (b1.toNat - 0x80) * 4096 +
      (b2.toNat - 0x80) * 64 + (b3.toNat - 0x80))) = [b0, b1, b2, b3] := by
  unfold Lead4 Tail at h
  obtain ⟨x0, hx0⟩ := exists_offset b0 (by omega : 0xF0 ≤ b0.toNat)
  obtain ⟨x1, hx1⟩ := exists_offset b1 (by omega : 0x80 ≤ b1.toNat)
  obtain ⟨x2, hx2⟩ := exists_offset b2 h.2.1.1
  obtain ⟨x3, hx3⟩ := exists_offset b3 h.2.2.1
  rw [hx0, hx1, hx2, hx3] at h ⊢
  simp only [Nat.add_sub_cancel]
  have hr : x1 < 64 ∧ x2 < 64 ∧ x3 < 64 ∧
      0x10000 ≤ x0 * 262144 + x1 * 4096 + x2 * 64 + x3 ∧
      x0 * 262144 + x1 * 4096 + x2 * 64 + x3 < 0x110000 := by
    omega
  clear h
  unfold encodeChar
  rw [toNat_ofNat_of_valid (by omega), if_neg (by omega), if_neg (by omega), if_neg (by omega),
    toUInt8_eq (b := b0) (by omega), toUInt8_eq (b := b1) (by omega),
    toUInt8_eq (b := b2) (by omega), toUInt8_eq (b := b3) (by omega)]

/- A scalar split into its six-bit groups, so that the arithmetic left to `omega` is linear. -/

theorem digits_two (n : Nat) : n = n / 64 * 64 + n % 64 ∧ n % 64 < 64 :=
  ⟨(Nat.div_add_mod' n 64).symm, Nat.mod_lt _ (by decide)⟩

theorem digits_three (n : Nat) :
    n = n / 4096 * 4096 + n / 64 % 64 * 64 + n % 64 ∧ n / 64 % 64 < 64 ∧ n % 64 < 64 := by
  omega

theorem digits_four (n : Nat) :
    n = n / 262144 * 262144 + n / 4096 % 64 * 4096 + n / 64 % 64 * 64 + n % 64 ∧
      n / 4096 % 64 < 64 ∧ n / 64 % 64 < 64 ∧ n % 64 < 64 := by
  omega

/-- Decoding reads the encoding of one scalar back as that scalar and goes on after it. -/
theorem decodeUtf8_encodeChar_append (c : Char) (rest : List UInt8) :
    decodeUtf8 (encodeChar c ++ rest) = (c :: ·) <$> decodeUtf8 rest := by
  have hv := toNat_valid c
  have hc := Char.ofNat_toNat c
  unfold encodeChar
  split
  · rename_i h
    rw [List.singleton_append, decodeUtf8_one (by rw [toNat_toUInt8 (by omega)]; exact h),
      toNat_toUInt8 (by omega), hc]
  split
  · rename_i h h'
    obtain ⟨hn, h1⟩ := digits_two c.toNat
    generalize c.toNat / 64 = x0 at hn
    generalize c.toNat % 64 = x1 at hn h1 ⊢
    have e0 := toNat_toUInt8 (by omega : 0xC0 + x0 < 256)
    have e1 := toNat_toUInt8 (by omega : 0x80 + x1 < 256)
    rw [List.cons_append, List.cons_append, List.nil_append,
      decodeUtf8_two (by unfold Tail; omega), e0, e1, Nat.add_sub_cancel_left,
      Nat.add_sub_cancel_left, ← hn, hc]
  split
  · rename_i h h' h''
    obtain ⟨hn, h1, h2⟩ := digits_three c.toNat
    generalize c.toNat / 4096 = x0 at hn
    generalize c.toNat / 64 % 64 = x1 at hn h1 ⊢
    generalize c.toNat % 64 = x2 at hn h2 ⊢
    have e0 := toNat_toUInt8 (by omega : 0xE0 + x0 < 256)
    have e1 := toNat_toUInt8 (by omega : 0x80 + x1 < 256)
    have e2 := toNat_toUInt8 (by omega : 0x80 + x2 < 256)
    rw [List.cons_append, List.cons_append, List.cons_append, List.nil_append,
      decodeUtf8_three (by unfold Lead3 Tail; omega), e0, e1, e2, Nat.add_sub_cancel_left,
      Nat.add_sub_cancel_left, Nat.add_sub_cancel_left, ← hn, hc]
  · rename_i h h' h''
    obtain ⟨hn, h1, h2, h3⟩ := digits_four c.toNat
    generalize c.toNat / 262144 = x0 at hn
    generalize c.toNat / 4096 % 64 = x1 at hn h1 ⊢
    generalize c.toNat / 64 % 64 = x2 at hn h2 ⊢
    generalize c.toNat % 64 = x3 at hn h3 ⊢
    have e0 := toNat_toUInt8 (by omega : 0xF0 + x0 < 256)
    have e1 := toNat_toUInt8 (by omega : 0x80 + x1 < 256)
    have e2 := toNat_toUInt8 (by omega : 0x80 + x2 < 256)
    have e3 := toNat_toUInt8 (by omega : 0x80 + x3 < 256)
    rw [List.cons_append, List.cons_append, List.cons_append, List.cons_append, List.nil_append,
      decodeUtf8_four (by unfold Lead4 Tail; omega), e0, e1, e2, e3, Nat.add_sub_cancel_left,
      Nat.add_sub_cancel_left, Nat.add_sub_cancel_left, Nat.add_sub_cancel_left, ← hn, hc]

theorem decodeUtf8_encodeUtf8 (cs : List Char) : decodeUtf8 (encodeUtf8 cs) = some cs := by
  induction cs with
  | nil => rfl
  | cons c cs ih => rw [encodeUtf8_cons, decodeUtf8_encodeChar_append, ih]; rfl

theorem encodeUtf8_of_decodeUtf8 {s : List UInt8} : ∀ {cs : List Char},
    decodeUtf8 s = some cs → encodeUtf8 cs = s := by
  induction s using decodeUtf8.induct with
  | case1 => intro cs h; cases h; rfl
  | case2 b bs h ih =>
    intro cs hs
    rw [decodeUtf8_one h] at hs
    obtain ⟨cs, hcs, rfl⟩ := Option.map_eq_some'.mp hs
    rw [encodeUtf8_cons, encodeChar_one h, ih hcs]; rfl
  | case4 b0 _ b1 bs h ih =>
    intro cs hs
    rw [decodeUtf8_two h] at hs
    obtain ⟨cs, hcs, rfl⟩ := Option.map_eq_some'.mp hs
    rw [encodeUtf8_cons, encodeChar_two h, ih hcs]; rfl
  | case6 b0 _ b1 _ b2 bs h ih =>
    intro cs hs
    rw [decodeUtf8_three h] at hs
    obtain ⟨cs, hcs, rfl⟩ := Option.map_eq_some'.mp hs
    rw [encodeUtf8_cons, encodeChar_three h, ih hcs]; rfl
  | case8 b0 _ b1 _ b2 _ b3 bs h ih =>
    intro cs hs
    rw [decodeUtf8_four h] at hs
    obtain ⟨cs, hcs, rfl⟩ := Option.map_eq_some'.mp hs
    rw [encodeUtf8_cons, encodeChar_four h, ih hcs]; rfl
  | case3 b h =>
    intro cs hs
    rw [decodeUtf8.eq_def] at hs; dsimp only at hs; rw [if_neg h] at hs; cases hs
  | case5 b0 h0 b1 h1 =>
    intro cs hs
    rw [decodeUtf8.eq_def] at hs; dsimp only at hs; rw [if_neg h0, if_neg h1] at hs; cases hs
  | case7 b0 h0 b1 h1 b2 h2 =>
    intro cs hs
    rw [decodeUtf8.eq_def] at hs; dsimp only at hs
    rw [if_neg h0, if_neg h1, if_neg h2] at hs; cases hs
  | case9 b0 h0 b1 h1 b2 h2 b3 bs h3 =>
    intro cs hs
    rw [decodeUtf8.eq_def] at hs; dsimp only at hs
    rw [if_neg h0, if_neg h1, if_neg h2, if_neg h3] at hs; cases hs

/-- The strict codec accepts exactly the encodings of scalar sequences, and reads each back as
the sequence it encodes. -/
theorem decodeUtf8_eq_some_iff (s : List UInt8) (cs : List Char) :
    decodeUtf8 s = some cs ↔ s = encodeUtf8 cs :=
  ⟨fun h => (encodeUtf8_of_decodeUtf8 h).symm, fun h => h ▸ decodeUtf8_encodeUtf8 cs⟩

/-- A character of the ASCII range, encoded as the one byte of the same value. -/
def IsAscii (c : Char) : Prop := c.toNat < 0x80

instance (c : Char) : Decidable (IsAscii c) := inferInstanceAs (Decidable (_ < _))

theorem encodeChar_ascii {c : Char} (h : IsAscii c) : encodeChar c = [c.toNat.toUInt8] := by
  unfold encodeChar; rw [if_pos (show c.toNat < 0x80 from h)]

/-- Every byte of a character outside ASCII is at least `0x80`. -/
theorem encodeChar_high {c : Char} (h : ¬ IsAscii c) :
    ∃ x xs, encodeChar c = x :: xs ∧ ∀ y ∈ x :: xs, 0x80 ≤ y.toNat := by
  unfold IsAscii at h
  have hv := toNat_valid c
  unfold encodeChar
  rw [if_neg h]
  split
  · refine ⟨_, _, rfl, ?_⟩
    simp only [List.mem_cons, List.mem_singleton, List.not_mem_nil, or_false]
    rintro y (rfl | rfl) <;> rw [toNat_toUInt8 (by omega)] <;> omega
  split
  · refine ⟨_, _, rfl, ?_⟩
    simp only [List.mem_cons, List.mem_singleton, List.not_mem_nil, or_false]
    rintro y (rfl | rfl | rfl) <;> rw [toNat_toUInt8 (by omega)] <;> omega
  · refine ⟨_, _, rfl, ?_⟩
    simp only [List.mem_cons, List.mem_singleton, List.not_mem_nil, or_false]
    rintro y (rfl | rfl | rfl | rfl) <;> rw [toNat_toUInt8 (by omega)] <;> omega

theorem ascii_byte_eq {a c : Char} (ha : IsAscii a) (hc : IsAscii c) :
    a.toNat.toUInt8 = c.toNat.toUInt8 ↔ a = c := by
  unfold IsAscii at ha hc
  refine ⟨fun h => ?_, fun h => h ▸ rfl⟩
  have := congrArg UInt8.toNat h
  rw [toNat_toUInt8 (by omega), toNat_toUInt8 (by omega)] at this
  rw [← Char.ofNat_toNat a, this, Char.ofNat_toNat]

section Ascii

variable {w : List Char} (hw : ∀ a ∈ w, IsAscii a)
include hw

theorem prefix_encodeUtf8 (cs : List Char) : encodeUtf8 w <+: encodeUtf8 cs ↔ w <+: cs := by
  induction w generalizing cs with
  | nil => exact iff_of_true List.nil_prefix List.nil_prefix
  | cons a w ih =>
    have ha := hw a (List.mem_cons_self _ _)
    have ih := ih fun b hb => hw b (List.mem_cons_of_mem _ hb)
    cases cs with
    | nil => simp [encodeChar_ascii ha]
    | cons c cs =>
      rw [encodeUtf8_cons, encodeUtf8_cons, encodeChar_ascii ha, List.singleton_append]
      by_cases hc : IsAscii c
      · rw [encodeChar_ascii hc, List.singleton_append]
        simp only [List.cons_prefix_cons, ascii_byte_eq ha hc, ih]
      · obtain ⟨x, xs, hx, hhigh⟩ := encodeChar_high hc
        have hne : a.toNat.toUInt8 ≠ x := fun h => by
          have := hhigh x (List.mem_cons_self _ _)
          rw [← h, toNat_toUInt8 (by unfold IsAscii at ha; omega)] at this
          unfold IsAscii at ha; omega
        rw [hx, List.cons_append]
        simp only [List.cons_prefix_cons]
        exact iff_of_false (fun h => hne h.1) fun h => hc (h.1 ▸ ha)

/-- Bytes of `0x80` and above never hold an occurrence of an ASCII word's encoding. -/
theorem infix_high_append (hne : w ≠ []) {xs : List UInt8} (hxs : ∀ y ∈ xs, 0x80 ≤ y.toNat)
    (rest : List UInt8) : encodeUtf8 w <:+: xs ++ rest ↔ encodeUtf8 w <:+: rest := by
  obtain ⟨a, w', rfl⟩ := List.exists_cons_of_ne_nil hne
  have ha := hw a (List.mem_cons_self _ _)
  induction xs with
  | nil => rfl
  | cons x xs ih =>
    rw [List.cons_append, List.infix_cons_iff]
    refine (or_iff_right fun h => ?_).trans (ih fun y hy => hxs y (List.mem_cons_of_mem _ hy))
    rw [encodeUtf8_cons, encodeChar_ascii ha, List.singleton_append, List.cons_prefix_cons] at h
    have := hxs x (List.mem_cons_self _ _)
    rw [← h.1, toNat_toUInt8 (by unfold IsAscii at ha; omega)] at this
    unfold IsAscii at ha; omega

/-- An ASCII word occurs in a decoded text exactly when its bytes occur in the encoded bytes. -/
theorem infix_encodeUtf8 (hne : w ≠ []) (cs : List Char) :
    encodeUtf8 w <:+: encodeUtf8 cs ↔ w <:+: cs := by
  induction cs with
  | nil =>
    obtain ⟨a, w', rfl⟩ := List.exists_cons_of_ne_nil hne
    simp [encodeChar_ascii (hw a (List.mem_cons_self _ _))]
  | cons c cs ih =>
    rw [List.infix_cons_iff, ← ih, ← prefix_encodeUtf8 hw, encodeUtf8_cons]
    by_cases hc : IsAscii c
    · rw [encodeChar_ascii hc, List.singleton_append, List.infix_cons_iff]
    · obtain ⟨x, xs, hx, hhigh⟩ := encodeChar_high hc
      rw [hx, infix_high_append hw hne hhigh]
      refine (or_iff_right fun h => ?_).symm
      obtain ⟨a, w', rfl⟩ := List.exists_cons_of_ne_nil hne
      have ha := hw a (List.mem_cons_self _ _)
      rw [encodeUtf8_cons, encodeChar_ascii ha, List.singleton_append, List.cons_append,
        List.cons_prefix_cons] at h
      have := hhigh x (List.mem_cons_self _ _)
      rw [← h.1, toNat_toUInt8 (by unfold IsAscii at ha; omega)] at this
      unfold IsAscii at ha; omega

end Ascii

/-- The newline translation of `text=True`: `\r\n`, then every remaining `\r`, become `\n`. -/
def translateNewlines (s : List Char) : List Char :=
  replace (replace s ['\r', '\n'] ['\n']) ['\r'] ['\n']

/-- `subprocess.run(..., text=True)` on one captured stream: strict decoding, then newline
translation. -/
def decodeText (bs : List UInt8) : Option (List Char) := translateNewlines <$> decodeUtf8 bs

/-- A line break. -/
def isNewline (c : Char) : Bool := c = '\r' || c = '\n'

/-- Newline translation keeps every occurrence of a word without line breaks. -/
theorem infix_translateNewlines {w : List Char} (hw : w ≠ []) (hws : ∀ c ∈ w, isNewline c = false)
    (s : List Char) : w <:+: translateNewlines s ↔ w <:+: s := by
  unfold translateNewlines
  rw [infix_replace hws (by simp) (by simp) (by decide) (by decide) hw,
    infix_replace hws (by simp) (by simp) (by decide) (by decide) hw]

/-- ASCII bytes are character boundaries: a valid stream cut right after one decodes on both
sides. -/
theorem encodeUtf8_eq_append {cs : List Char} {a b : List UInt8} (h : encodeUtf8 cs = a ++ b)
    (ha : a = [] ∨ ∃ x, a.getLast? = some x ∧ x.toNat < 0x80) :
    ∃ ca cb, cs = ca ++ cb ∧ encodeUtf8 ca = a ∧ encodeUtf8 cb = b := by
  induction cs generalizing a with
  | nil =>
    obtain ⟨rfl, rfl⟩ := List.append_eq_nil.mp h.symm
    exact ⟨[], [], rfl, rfl, rfl⟩
  | cons c cs ih =>
    rcases ha with rfl | ⟨x, hx, hxa⟩
    · exact ⟨[], c :: cs, rfl, rfl, h⟩
    rw [encodeUtf8_cons] at h
    rcases List.append_eq_append_iff.mp h with ⟨a', rfl, hrest⟩ | ⟨c', hc, rfl⟩
    · -- the cut lies after `c`
      have ha' : a' = [] ∨ ∃ x, a'.getLast? = some x ∧ x.toNat < 0x80 := by
        by_cases hne : a' = []
        · exact .inl hne
        · exact .inr ⟨x, by rwa [List.getLast?_append_of_ne_nil _ hne] at hx, hxa⟩
      obtain ⟨ca, cb, rfl, hca, hcb⟩ := ih hrest ha'
      exact ⟨c :: ca, cb, rfl, by rw [encodeUtf8_cons, hca], hcb⟩
    · -- the cut lies inside the encoding of `c`, which no ASCII byte ends
      by_cases hc' : c' = []
      · subst hc'
        rw [List.append_nil] at hc
        exact ⟨[c], cs, rfl, by rw [encodeUtf8_cons, encodeUtf8_nil, List.append_nil, hc], rfl⟩
      exfalso
      obtain ⟨ys, rfl⟩ := List.getLast?_eq_some_iff.mp hx
      by_cases hasc : IsAscii c
      · have := congrArg List.length hc
        rw [encodeChar_ascii hasc] at this
        simp only [List.length_singleton, List.length_append, List.length_cons] at this
        have := List.length_pos.mpr hc'
        omega
      · obtain ⟨z, zs, hz, hhigh⟩ := encodeChar_high hasc
        have := hhigh x (by rw [← hz, hc]; simp)
        omega

end KeosGrader
