import Mathlib.Algebra.Group.Nat.Defs
import Logline.Proofs.Text.OneLine
/-!
Decimal digits: what numbers with and without leading zeros look like, and that
they are read back.
-/
namespace Logline.Text

theorem digitsValue_ofNat (n : Nat) : digitsValue (ofNat n) = n :=
  Nat.ofDigitChars_ten_toDigits

theorem ofNat_ne_nil (n : Nat) : ofNat n ≠ [] :=
  Nat.toDigits_ne_nil

/-- Only zero is written with a leading zero. -/
theorem head_ofNat {n : Nat} (hn : 0 < n) :
    ∃ c rest, ofNat n = c :: rest ∧ c ≠ '0' := by
  induction n using Nat.base_induction 10 (by decide) with
  | single m hm =>
      refine ⟨m.digitChar, [], Nat.toDigits_of_lt_base hm, ?_⟩
      simpa using Nat.pos_iff_ne_zero.mp hn
  | digit m k hk hm ih =>
      obtain ⟨c, rest, hrest, hc⟩ := ih hm
      refine ⟨c, rest ++ Nat.toDigits 10 k, ?_, hc⟩
      rw [ofNat, ← Nat.toDigits_append_toDigits (by decide) hm hk]
      exact congrArg (· ++ Nat.toDigits 10 k) hrest

theorem length_le_size (t : Text) : t.length ≤ size t := by
  induction t with
  | nil => exact Nat.le_refl 0
  | cons c t ih =>
      have hc := c.utf8Size_pos
      rw [List.length_cons, size_cons]
      omega

/-! ### Where digits end -/

/-- No digit comes next. -/
def EndsDigits (t : Text) : Prop :=
  ∀ c ∈ t.head?, c.isDigit = false

theorem ofNat_append_inj {m n : Nat} {s t : Text} (hs : EndsDigits s)
    (ht : EndsDigits t) (h : ofNat m ++ s = ofNat n ++ t) : m = n ∧ s = t := by
  have hdigits : ∀ (k : Nat) {rest : Text}, EndsDigits rest →
      (ofNat k ++ rest).takeWhile Char.isDigit = ofNat k := by
    intro k rest hrest
    rw [List.takeWhile_append_of_pos fun c hc => isDigit_of_mem_ofNat hc]
    cases rest with
    | nil => exact List.append_nil _
    | cons c rest =>
        rw [List.takeWhile_cons_of_neg (by simp [hrest c rfl]), List.append_nil]
  have hsame : ofNat m = ofNat n := by
    rw [← hdigits m hs, h, hdigits n ht]
  have hvalue := congrArg digitsValue hsame
  rw [digitsValue_ofNat, digitsValue_ofNat] at hvalue
  rw [hsame] at h
  exact ⟨hvalue, List.append_cancel_left h⟩

theorem ofNat_append_ne_minus (n : Nat) (s t : Text) :
    ofNat n ++ s ≠ '-' :: t := by
  intro h
  obtain ⟨c, rest, hrest⟩ := List.exists_cons_of_ne_nil (ofNat_ne_nil n)
  have hc : c.isDigit = true :=
    isDigit_of_mem_ofNat (hrest ▸ List.mem_cons_self)
  rw [hrest, List.cons_append, List.cons.injEq] at h
  rw [h.1] at hc
  contradiction

theorem ofInt_append_inj {m n : Int} {s t : Text} (hs : EndsDigits s)
    (ht : EndsDigits t) (h : ofInt m ++ s = ofInt n ++ t) : m = n ∧ s = t := by
  cases m with
  | ofNat m =>
      cases n with
      | ofNat n => exact (ofNat_append_inj hs ht h).imp (congrArg _) id
      | negSucc n => exact absurd h (ofNat_append_ne_minus m s _)
  | negSucc m =>
      cases n with
      | ofNat n => exact absurd h.symm (ofNat_append_ne_minus n t _)
      | negSucc n =>
          obtain ⟨heq, hrest⟩ := ofNat_append_inj hs ht (List.cons.inj h).2
          rw [Nat.succ.inj heq]
          exact ⟨rfl, hrest⟩

/-! ### Leading zeros -/

theorem le_length_zeroPadded (width n : Nat) :
    width ≤ (zeroPadded width n).length := by
  rw [zeroPadded, padLeft, List.length_append, List.length_replicate]
  omega

theorem length_zeroPadded {width n : Nat} (hwidth : 0 < width)
    (h : n < 10 ^ width) :
    (zeroPadded width n).length = width := by
  have hle := (Nat.length_toDigits_le_iff (by decide : 1 < 10) hwidth).mpr h
  rw [zeroPadded, padLeft, List.length_append, List.length_replicate, ofNat]
  omega

theorem digitsValue_zeroPadded (width n : Nat) :
    digitsValue (zeroPadded width n) = n := by
  rw [digitsValue, zeroPadded, padLeft, Nat.ofDigitChars_append,
    Nat.ofDigitChars_replicate_zero, Nat.mul_zero]
  exact digitsValue_ofNat n

theorem isDigit_of_mem_zeroPadded {width n : Nat} {c : Char}
    (h : c ∈ zeroPadded width n) :
    c.isDigit = true := by
  rcases List.mem_append.mp h with h | h
  · rw [List.eq_of_mem_replicate h]
    rfl
  · exact isDigit_of_mem_ofNat h

/-- The last digit stands behind the others. -/
theorem zeroPadded_succ {width : Nat} (hwidth : 0 < width) (n : Nat) :
    zeroPadded (width + 1) n = zeroPadded width (n / 10) ++
      [Nat.digitChar (n % 10)] := by
  by_cases hn : n < 10
  · have hzero : n / 10 = 0 := Nat.div_eq_of_lt hn
    rw [hzero, Nat.mod_eq_of_lt hn, zeroPadded, zeroPadded, ofNat, ofNat,
      Nat.toDigits_of_lt_base hn, Nat.toDigits_zero]
    obtain ⟨k, rfl⟩ := Nat.exists_eq_add_of_lt hwidth
    simp [padLeft, List.replicate_succ']
  · rw [zeroPadded, zeroPadded, ofNat,
      Nat.toDigits_of_base_le (by decide) (Nat.le_of_not_lt hn)]
    simp [padLeft, ofNat]

theorem zeroPadded_one {n : Nat} (hn : n < 10) :
    zeroPadded 1 n = [Nat.digitChar n] := by
  rw [zeroPadded, ofNat, Nat.toDigits_of_lt_base hn]
  rfl

theorem zeroPadded_two {n : Nat} (hn : n < 100) :
    zeroPadded 2 n = [Nat.digitChar (n / 10), Nat.digitChar (n % 10)] := by
  rw [zeroPadded_succ (by decide), zeroPadded_one (by omega)]
  rfl

theorem zeroPadded_four (n : Nat) :
    zeroPadded 4 n = zeroPadded 2 (n / 100) ++ zeroPadded 2 (n % 100) := by
  have hrest := zeroPadded_two (Nat.mod_lt n (by decide : 0 < 100))
  have hhundreds : n / 10 / 10 = n / 100 := by omega
  have htens : n / 10 % 10 = n % 100 / 10 := by omega
  have hunits : n % 10 = n % 100 % 10 := by omega
  rw [zeroPadded_succ (by decide), zeroPadded_succ (by decide), hrest,
    hhundreds, htens, hunits, List.append_assoc]
  rfl

end Logline.Text
