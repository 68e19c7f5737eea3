/-
  SingleFile.Proofs.Text.Cuts — WHERE A TEXT IS CUT
  ─────────────────────────────────────────────────
  An offset is a place of a text exactly if the text has a beginning of that
  many bytes.  So a cut is a way to write the text as two parts, a slice is a
  way to write it as three, and cutting twice is cutting once.

  Main results:
    * `splitAt?_eq_some_iff` — what a cut is.
    * `slice?_eq_some` — what a slice is.
    * `startsWith_iff` — what a beginning is.
    * `upTo_append_add` — the beginning of a text, up to an offset in its
      second part.
-/
import SingleFile.Text.Span

namespace SingleFile.Text

/-! ## §1. Cuts -/

theorem byteLength_pos {cs : List Char} (h : cs ≠ []) : 0 < byteLength cs := by
  cases cs with
  | nil => exact absurd rfl h
  | cons c cs =>
    have hc := c.utf8Size_pos
    rw [byteLength_cons]
    omega

/-- A text is cut behind a part of it. -/
theorem splitAt?_byteLength (a b : List Char) : splitAt? (a ++ b) (byteLength a) = some (a, b) := by
  induction a with
  | nil => cases b <;> rfl
  | cons c a ih =>
    have hc := c.utf8Size_pos
    obtain ⟨n, hn⟩ : ∃ n, byteLength (c :: a) = n + 1 :=
      ⟨byteLength (c :: a) - 1, by rw [byteLength_cons]; omega⟩
    rw [hn, List.cons_append, splitAt?]
    rw [byteLength_cons] at hn
    rw [if_pos (by omega), show n + 1 - c.utf8Size = byteLength a by omega, ih]
    rfl

/-- **What a cut is**: two parts that make up the text, the first as long as the offset says. -/
theorem splitAt?_eq_some_iff {cs a b : List Char} {n : Nat} :
    splitAt? cs n = some (a, b) ↔ a ++ b = cs ∧ byteLength a = n := by
  constructor
  · intro h
    exact ⟨splitAt?_append h, byteLength_of_splitAt? h⟩
  · rintro ⟨rfl, rfl⟩
    exact splitAt?_byteLength a b

/-- A cut behind a cut is one cut. -/
theorem splitAt?_add {cs a b c d : List Char} {n m : Nat} (h : splitAt? cs n = some (a, b))
    (h' : splitAt? b m = some (c, d)) : splitAt? cs (n + m) = some (a ++ c, d) := by
  obtain ⟨rfl, rfl⟩ := splitAt?_eq_some_iff.mp h
  obtain ⟨rfl, rfl⟩ := splitAt?_eq_some_iff.mp h'
  exact splitAt?_eq_some_iff.mpr ⟨List.append_assoc .., byteLength_append ..⟩

/-! ## §2. Slices -/

/-- The text between two cuts is a slice. -/
theorem slice?_of_splitAt? {cs a b c d : List Char} {start stop : Nat} (hle : start ≤ stop)
    (h : splitAt? cs start = some (a, b)) (h' : splitAt? b (stop - start) = some (c, d)) :
    slice? cs start stop = some c := by
  rw [slice?, if_pos hle, h]
  show (splitAt? b (stop - start)).bind _ = _
  rw [h']
  rfl

/-- The range of a text that a slice is taken from stands the right way round. -/
theorem le_of_slice? {source t : List Char} {start stop : Nat}
    (h : slice? source start stop = some t) : start ≤ stop := by
  rw [slice?] at h
  split at h
  · assumption
  · simp at h

/-- What a slice is: the part of the text between two others. -/
theorem slice?_eq_some {cs middle : List Char} {start stop : Nat}
    (h : slice? cs start stop = some middle) :
    ∃ a b, cs = a ++ middle ++ b ∧ byteLength a = start ∧ byteLength (a ++ middle) = stop := by
  have hle := le_of_slice? h
  rw [slice?, if_pos hle] at h
  obtain ⟨⟨a, behind⟩, ha, h⟩ := Option.bind_eq_some_iff.mp h
  obtain ⟨⟨c, b⟩, hc, h⟩ := Option.bind_eq_some_iff.mp h
  obtain rfl := Option.some.inj h
  obtain ⟨rfl, rfl⟩ := splitAt?_eq_some_iff.mp ha
  obtain ⟨rfl, hlength⟩ := splitAt?_eq_some_iff.mp hc
  refine ⟨a, b, (List.append_assoc ..).symm, rfl, ?_⟩
  rw [byteLength_append]
  omega

/-- A part of a text is the slice where it stands. -/
theorem slice?_append (a middle b : List Char) :
    slice? (a ++ middle ++ b) (byteLength a) (byteLength a + byteLength middle) = some middle := by
  have hstart := splitAt?_byteLength a (middle ++ b)
  have hstop := splitAt?_byteLength middle b
  rw [← List.append_assoc] at hstart
  rw [← Nat.add_sub_cancel_left (n := byteLength a) (m := byteLength middle)] at hstop
  exact slice?_of_splitAt? (Nat.le_add_right ..) hstart hstop

/-! ## §3. Beginnings -/

/-- Of two beginnings of a text the longer one begins with the shorter one. -/
theorem exists_append_of_byteLength_le {a b c d : List Char} (h : a ++ b = c ++ d)
    (hle : byteLength a ≤ byteLength c) : ∃ e, c = a ++ e ∧ b = e ++ d := by
  rcases List.append_eq_append_iff.mp h with ⟨e, hc, hb⟩ | ⟨e, ha, hd⟩
  · exact ⟨e, hc, hb⟩
  · cases e with
    | nil => exact ⟨[], by rw [ha, List.append_nil, List.append_nil], hd.symm⟩
    | cons x e =>
      -- The first beginning is the longer one, and has something more.
      have hpos := byteLength_pos (List.cons_ne_nil x e)
      rw [ha, byteLength_append] at hle
      omega

theorem startsWith_iff {cs start : List Char} :
    startsWith cs start = true ↔ ∃ rest, cs = start ++ rest := by
  rw [startsWith, Option.isSome_iff_exists]
  induction start generalizing cs with
  | nil => exact ⟨fun _ => ⟨cs, rfl⟩, fun _ => ⟨cs, rfl⟩⟩
  | cons p ps ih =>
    cases cs with
    | nil => simp [afterPrefix?]
    | cons c cs =>
      rw [afterPrefix?]
      split
      · next heq => simp [heq, ih]
      · next hne =>
        constructor
        · rintro ⟨rest, hrest⟩
          exact absurd hrest (by simp)
        · rintro ⟨rest, hrest⟩
          exact absurd (List.cons.inj hrest).1.symm hne

/-- **The beginning of two texts**, up to an offset in the second one. -/
theorem upTo_append_add (text rest : List Char) (n : Nat) :
    upTo (text ++ rest) (byteLength text + n) = text ++ upTo rest n := by
  induction text with
  | nil => rw [byteLength_nil, Nat.zero_add, List.nil_append, List.nil_append]
  | cons c cs ih =>
    have hpos := c.utf8Size_pos
    have hbehind : c.utf8Size + byteLength cs + n - c.utf8Size = byteLength cs + n := by omega
    rw [List.cons_append, byteLength_cons, upTo, if_neg (by omega), hbehind, ih, List.cons_append]

theorem upTo_zero (text : List Char) : upTo text 0 = [] := by
  cases text <;> rfl

theorem upTo_append (text rest : List Char) : upTo (text ++ rest) (byteLength text) = text := by
  have hwhole := upTo_append_add text rest 0
  rwa [Nat.add_zero, upTo_zero, List.append_nil] at hwhole

theorem upTo_of_splitAt? {cs a b : List Char} {n : Nat} (h : splitAt? cs n = some (a, b)) :
    upTo cs n = a := by
  obtain ⟨rfl, rfl⟩ := splitAt?_eq_some_iff.mp h
  exact upTo_append a b

/-- What stands behind a text has no part in its beginnings. -/
theorem upTo_append_of_le {text : List Char} {n : Nat} (h : n ≤ byteLength text)
    (rest : List Char) : upTo (text ++ rest) n = upTo text n := by
  induction text generalizing n with
  | nil =>
    obtain rfl := Nat.le_zero.mp h
    exact upTo_zero _
  | cons c cs ih =>
    rw [byteLength_cons] at h
    rw [List.cons_append, upTo, upTo, ih (by omega)]

end SingleFile.Text
