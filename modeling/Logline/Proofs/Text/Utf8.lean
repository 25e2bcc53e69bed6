import Mathlib.Tactic.SplitIfs
import Logline.Text.Utf8
/-!
The bytes of a text read as the characters of the text (`symbols_utf8`), case
by case for the four lengths of an encoding.
-/
namespace Logline.Utf8

theorem continuation?_ofNat {n : Nat} (h : n < 64) :
    continuation? (UInt8.ofNat (n + 128)) = some n := by
  have hbyte : (UInt8.ofNat (n + 128)).toNat = n + 128 := by
    rw [UInt8.toNat_ofNat']
    omega
  rw [continuation?, hbyte, if_pos (by omega), Nat.add_sub_cancel]

theorem scalar?_eq_some {low code : Nat} {c : Char} (hlow : low ≤ c.toNat)
    (hcode : code = c.toNat) : scalar? low code = some c := by
  subst hcode
  rw [scalar?, if_pos ⟨hlow, c.valid⟩, Char.ofNat_toNat]

variable {b x y z : UInt8} {rest : Bytes} {n i j k : Nat} {c : Char}

theorem leading?_two (hb : b.toNat = n + 0xC0) (hn : 2 ≤ n) (hn' : n < 32)
    (hx : continuation? x = some i) (hc : scalar? 0x80 (n * 64 + i) = some c) :
    leading? b (x :: rest) = some (c, 1) := by
  rw [leading?, if_neg (by omega), if_neg (by omega), if_pos (by omega), hb,
    Nat.add_sub_cancel]
  exact Option.bind_eq_some_iff.mpr
    ⟨i, hx, Option.bind_eq_some_iff.mpr ⟨c, hc, rfl⟩⟩

theorem leading?_three (hb : b.toNat = n + 0xE0) (hn : n < 16)
    (hx : continuation? x = some i) (hy : continuation? y = some j)
    (hc : scalar? 0x800 (n * 4096 + i * 64 + j) = some c) :
    leading? b (x :: y :: rest) = some (c, 2) := by
  rw [leading?, if_neg (by omega), if_neg (by omega), if_neg (by omega),
    if_pos (by omega), hb, Nat.add_sub_cancel]
  exact Option.bind_eq_some_iff.mpr ⟨i, hx, Option.bind_eq_some_iff.mpr ⟨j, hy,
    Option.bind_eq_some_iff.mpr ⟨c, hc, rfl⟩⟩⟩

theorem leading?_four (hb : b.toNat = n + 0xF0) (hn : n < 5)
    (hx : continuation? x = some i) (hy : continuation? y = some j)
    (hz : continuation? z = some k)
    (hc : scalar? 0x10000 (n * 262144 + i * 4096 + j * 64 + k) = some c) :
    leading? b (x :: y :: z :: rest) = some (c, 3) := by
  rw [leading?, if_neg (by omega), if_neg (by omega), if_neg (by omega),
    if_neg (by omega), if_pos (by omega), hb, Nat.add_sub_cancel]
  exact Option.bind_eq_some_iff.mpr ⟨i, hx, Option.bind_eq_some_iff.mpr ⟨j, hy,
    Option.bind_eq_some_iff.mpr ⟨k, hz,
      Option.bind_eq_some_iff.mpr ⟨c, hc, rfl⟩⟩⟩⟩

/-- The first byte of an encoding tells the character, and how many bytes of it
follow. -/
theorem leading?_utf8EncodeChar (c : Char) (rest : Bytes) :
    ∃ first more, String.utf8EncodeChar c = first :: more ∧
      leading? first (more ++ rest) = some (c, more.length) := by
  have hvalid : c.toNat < 0x110000 := by
    obtain hlow | ⟨-, hhigh⟩ : c.toNat < 0xD800 ∨ 0xDFFF < c.toNat ∧
      c.toNat < 0x110000 := c.valid
    · omega
    · exact hhigh
  have hbyte : ∀ n < 256, (UInt8.ofNat n).toNat = n := by
    intro n hn
    rw [UInt8.toNat_ofNat', Nat.mod_eq_of_lt hn]
  rw [String.utf8EncodeChar]
  obtain ⟨v, hv, hval⟩ : ∃ v, c.toNat = v ∧ c.val.toNat = v := ⟨_, rfl, rfl⟩
  rw [hv] at hvalid
  simp only [hval]
  split_ifs with hone htwo hthree
  · refine ⟨_, _, rfl, ?_⟩
    simp only [leading?, hbyte v (by omega), if_pos (Nat.lt_succ_of_le hone)]
    rw [← hv, Char.ofNat_toNat]
    rfl
  · refine ⟨_, _, rfl, leading?_two (hbyte _ (by omega)) (by omega) (by omega)
      (continuation?_ofNat (by omega)) (scalar?_eq_some ?_ ?_)⟩ <;> omega
  · refine ⟨_, _, rfl, leading?_three (hbyte _ (by omega)) (by omega)
      (continuation?_ofNat (by omega)) (continuation?_ofNat (by omega))
      (scalar?_eq_some ?_ ?_)⟩ <;> omega
  · refine ⟨_, _, rfl, leading?_four (hbyte _ (by omega)) (by omega)
      (continuation?_ofNat (by omega)) (continuation?_ofNat (by omega))
      (continuation?_ofNat (by omega)) (scalar?_eq_some ?_ ?_)⟩ <;> omega

theorem symbolsFrom_append (more rest : Bytes) :
    symbolsFrom more.length (more ++ rest) = symbolsFrom 0 rest := by
  induction more with
  | nil => rfl
  | cons b more ih => exact ih

/-- A text is read from its bytes. -/
theorem symbols_utf8 (t : Text) : symbols t.utf8 = t.map some := by
  induction t with
  | nil => rfl
  | cons c t ih =>
      obtain ⟨first, more, hencoding, hleading⟩ :=
        leading?_utf8EncodeChar c (Text.utf8 t)
      rw [Text.utf8_cons, hencoding, List.cons_append, symbols,
        symbolsFrom, hleading]
      exact congrArg (some c :: ·)
        ((symbolsFrom_append more (Text.utf8 t)).trans ih)

end Logline.Utf8
