import Mathlib.Algebra.Group.Nat.Defs
import Mathlib.Data.List.TakeWhile
import Mathlib.Tactic.SplitIfs
import Logline.Number.Shortest
import Logline.Proofs.Text.Digits
/-!
Integers that are kept as doubles.  From the 63rd power of two on doubles are
at least 2048 apart, and between the reals that round to one of them there is a
multiple of 1000.  So the shortest decimal is on that grid or on a coarser one,
and such an integer is written with the digits of a multiple of 1000, its own
or another one (`plainText_ofNat`).
-/
namespace Logline

/-- The integer that a decimal without negative exponent stands for. -/
def Decimal.toNat (d : Decimal) : Nat :=
  d.digits * 10 ^ d.exponent.toNat

/-! ### Zeros at the end -/

namespace Text

/-- A number times a power of ten has zeros behind its digits. -/
theorem ofNat_mul_pow {n : Nat} (hn : 0 < n) (k : Nat) :
    ofNat (n * 10 ^ k) = ofNat n ++ List.replicate k '0' := by
  induction k with
  | zero => simp
  | succ k ih =>
      have hpos : 0 < n * 10 ^ k := Nat.mul_pos hn (Nat.pow_pos (by decide))
      have hnext : n * 10 ^ (k + 1) = 10 * (n * 10 ^ k) + 0 := by
        rw [Nat.pow_succ, Nat.add_zero, ← Nat.mul_assoc, Nat.mul_comm]
      rw [hnext, ofNat, ← Nat.toDigits_append_toDigits
        (by decide) hpos (by decide)]
      change ofNat (n * 10 ^ k) ++ ['0'] = _
      rw [ih, List.replicate_succ', List.append_assoc]

/-- The zeros that are dropped are as many as the text gets shorter. -/
theorem dropTrailingZeros_append (t : Text) :
    ∃ count, dropTrailingZeros t ++ List.replicate count '0' = t := by
  have hzeros : t.reverse.takeWhile (· == '0') =
      List.replicate (t.reverse.takeWhile (· == '0')).length '0' := by
    rw [List.eq_replicate_iff]
    refine ⟨rfl, fun c hc => ?_⟩
    simpa using List.mem_takeWhile_imp hc
  have hparts := List.takeWhile_append_dropWhile (p := (· == '0'))
    (l := t.reverse)
  rw [hzeros] at hparts
  have hreversed := congrArg List.reverse hparts
  rw [List.reverse_append, List.reverse_reverse, List.reverse_replicate]
    at hreversed
  exact ⟨_, hreversed⟩

end Text

/-- In plain notation the decimal has no point, and zeros take the place of its
exponent. -/
theorem Decimal.positional_text {digits : Nat} (hdigits : 0 < digits)
    (k : Nat) :
    Double.positional (Decimal.mk digits k).text
      (Decimal.mk digits k).leadingExponent =
      (Text.ofNat (Decimal.mk digits k).toNat, []) := by
  obtain ⟨count, hcount⟩ := Text.dropTrailingZeros_append (Text.ofNat digits)
  have hlength := congrArg List.length hcount
  rw [List.length_append, List.length_replicate] at hlength
  have hne := List.length_pos_iff.mpr (Text.ofNat_ne_nil digits)
  have hexponent : (Decimal.mk digits k).leadingExponent =
      (k + (Text.ofNat digits).length - 1 : Nat) := by
    change (k : Int) + (Text.ofNat digits).length - 1 = _
    omega
  have hwhole : k + (Text.ofNat digits).length - 1 + 1 =
      (Text.dropTrailingZeros (Text.ofNat digits)).length + (count + k) := by
    omega
  rw [Double.positional, hexponent, if_neg (by omega), Int.toNat_natCast,
    hwhole, text, toNat, Int.toNat_natCast, Text.ofNat_mul_pow hdigits]
  dsimp only
  rw [List.take_of_length_le (by omega), List.drop_of_length_le (by omega),
    Nat.add_sub_cancel_left, ← List.replicate_append_replicate,
    ← List.append_assoc, hcount]

namespace Double

variable {d : Double} {tie : Tie}

/-! ### The shortest decimal -/

theorem onGrid?_pos {k : Int} {n : Nat} (h : d.onGrid? tie k = some n)
    (hpos : 0 < d.significand) : 0 < n := by
  unfold onGrid? at h
  extract_lets m q unit grid low inside value floor rest nearer at h
  replace hpos : 0 < m := hpos
  clear_value m
  have hlow : 0 < low := by
    simp only [low]
    split_ifs <;> omega
  have hunit : 0 < unit :=
    Nat.mul_pos (Nat.pow_pos (by decide)) (Nat.pow_pos (by decide))
  have hinside : inside 0 = false := by
    have hedge := Nat.mul_pos hlow hunit
    simp only [inside, Nat.zero_mul, Nat.not_le_of_lt hedge,
      Nat.not_lt_zero, decide_false, Bool.false_and, ite_self]
  have hinside (n : Nat) (hn : inside n = true) : 0 < n := by
    refine Nat.pos_of_ne_zero fun hzero => ?_
    rw [hzero, hinside] at hn
    contradiction
  split_ifs at h with hboth hfloor hnext
  · obtain ⟨hfloor, hnext⟩ := Bool.and_eq_true_iff.mp hboth
    have hnearer : nearer = floor ∨ nearer = floor + 1 := by
      cases tie <;> simp only [nearer] <;> split_ifs <;> simp
    obtain rfl := Option.some.inj h
    obtain hn | hn := hnearer
    · exact hn ▸ hinside floor hfloor
    · exact hn ▸ hinside (floor + 1) hnext
  · exact Option.some.inj h ▸ hinside floor hfloor
  · exact Option.some.inj h ▸ hinside (floor + 1) hnext

theorem onGrid?_thousands (tie : Tie) (h : 11 ≤ d.exponent) :
    ∃ digits, d.onGrid? tie 3 = some digits := by
  unfold onGrid?
  extract_lets m q unit grid low inside value floor rest nearer
  clear_value m
  have hgrid : grid = 1000 := by
    have hq : (-q).toNat = 0 := by omega
    change Nat.pow 2 (-q).toNat * Nat.pow 10 3 = 1000
    rw [hq]
  have hunit : 512 ≤ unit := by
    have hq : 9 ≤ q.toNat := by omega
    have hpow : Nat.pow 2 9 ≤ Nat.pow 2 q.toNat :=
      Nat.pow_le_pow_right (by decide) hq
    change 512 ≤ Nat.pow 2 q.toNat * 1
    rw [Nat.mul_one]
    exact hpow
  have hfloor : value < (floor + 1) * 1000 ∧
      (floor + 1) * 1000 ≤ value + 1000 := by
    change value < (value / grid + 1) * 1000 ∧
      (value / grid + 1) * 1000 ≤ value + 1000
    rw [hgrid]
    omega
  have hlow : low * unit ≤ value := by
    refine Nat.mul_le_mul_right unit ?_
    simp only [low]
    split_ifs <;> omega
  have hhigh : (4 * m + 2) * unit = value + 2 * unit := Nat.add_mul _ _ _
  have hinside : inside (floor + 1) = true := by
    simp only [inside, hgrid, hhigh]
    split_ifs <;> simp only [Bool.and_eq_true, decide_eq_true_eq] <;> omega
  split_ifs with hboth hnear
  · exact ⟨nearer, rfl⟩
  · exact ⟨floor, rfl⟩
  · exact ⟨floor + 1, rfl⟩

theorem searchGrids_spec {ceiling k : Int} {digits : Nat}
    (hk : d.onGrid? tie k = some digits) {budget n j : Nat}
    (hj : ceiling - n = k + j) (hbudget : j < budget) :
    ∃ found e, k ≤ e ∧ d.onGrid? tie e = some found ∧
      d.searchGrids tie ceiling budget n = ⟨found, e⟩ := by
  induction budget generalizing n j with
  | zero => contradiction
  | succ budget ih =>
      rw [searchGrids]
      cases hgrid : d.onGrid? tie (ceiling - n) with
      | some found => exact ⟨found, ceiling - n, by omega, hgrid, rfl⟩
      | none =>
          have hne : j ≠ 0 := by
            rintro rfl
            rw [hj, Int.natCast_zero, Int.add_zero, hk] at hgrid
            contradiction
          exact ih (n := n + 1) (j := j - 1) (by omega) (by omega)


/-- A double in plain notation, where its shortest decimal is an integer. -/
theorem plainText_of_shortest {digits k : Nat} (hdigits : 0 < digits)
    (hnan : d.isNaN = false) (hfinite : d.isFinite = true)
    (hnegative : d.isNegative = false) (hzero : d.isZero = false)
    (hshortest : d.shortest .up = ⟨digits, k⟩) :
    d.plainText = Text.ofNat (Decimal.mk digits k).toNat := by
  simp [plainText, hnan, hfinite, hnegative, hzero, hshortest,
    Decimal.positional_text hdigits]

/-- A double that is a large integer has a shortest decimal on the grid of
thousands. -/
theorem exists_shortest (tie : Tie) {value : Nat} (hexponent : 11 ≤ d.exponent)
    (hratio : d.ratio = (value, 1)) (hlow : 10 ^ 10 ≤ value)
    (hhigh : value < 10 ^ 20) :
    ∃ digits k : Nat, 0 < digits ∧ 3 ≤ k ∧ d.shortest tie = ⟨digits, k⟩ := by
  have hlength : 10 < (Text.ofNat value).length ∧
      (Text.ofNat value).length ≤ 20 := by
    refine ⟨Nat.lt_of_not_le fun h => ?_, ?_⟩
    · exact Nat.not_lt_of_le hlow
        ((Nat.length_toDigits_le_iff (by decide) (by decide)).mp h)
    · exact (Nat.length_toDigits_le_iff (by decide) (by decide)).mpr hhigh
  obtain ⟨digits, hdigits⟩ := onGrid?_thousands tie hexponent
  have hceiling : 10 ≤ d.decimalCeiling ∧ d.decimalCeiling ≤ 20 := by
    have hone : (Text.ofNat 1).length = 1 := rfl
    rw [decimalCeiling, hratio]
    dsimp only
    rw [hone]
    split_ifs <;> omega
  obtain ⟨j, hj, hbudget⟩ :
      ∃ j : Nat, d.decimalCeiling - (1 : Nat) = 3 + j ∧ j < 17 :=
    ⟨(d.decimalCeiling - 4).toNat, by omega, by omega⟩
  obtain ⟨found, e, he, hfound, hshortest⟩ :=
    searchGrids_spec hdigits hj hbudget
  have hpos : 0 < d.significand := by
    refine Nat.pos_of_ne_zero fun hzero => ?_
    rw [ratio, hzero, Nat.zero_mul] at hratio
    have hvalue : 0 = value := (Prod.mk.inj hratio).1
    omega
  refine ⟨found, e.toNat, onGrid?_pos hfound hpos, by omega, ?_⟩
  rw [shortest, hshortest, Int.toNat_of_nonneg (by omega)]

/-! ### Nearest doubles of integers -/

/-- The word of a positive number, by its exponent and the other bits of its
significand. -/
structure IsWord (d : Double) (e bits : Nat) : Prop where
  eq : d = ofWord false (e * hiddenBit + bits)
  exponent_pos : 0 < e
  exponent_lt : e < 2047
  bits_lt : bits < hiddenBit

namespace IsWord

variable {e bits : Nat}

theorem toNat_bits (h : IsWord d e bits) :
    d.bits.toNat = e * hiddenBit + bits := by
  have hlt := h.bits_lt
  have he := h.exponent_lt
  rw [h.eq, ofWord, if_neg Bool.false_ne_true, UInt64.toNat_ofNat']
  refine Nat.mod_eq_of_lt ?_
  simp only [hiddenBit] at hlt ⊢
  omega

theorem magnitude_eq (h : IsWord d e bits) :
    d.magnitude = e * hiddenBit + bits := by
  have hlt := h.bits_lt
  have he := h.exponent_lt
  rw [magnitude, h.toNat_bits]
  refine Nat.mod_eq_of_lt ?_
  simp only [hiddenBit, signBit] at hlt ⊢
  omega

theorem isNegative_eq (h : IsWord d e bits) : d.isNegative = false := by
  have hlt := h.bits_lt
  have he := h.exponent_lt
  rw [isNegative, h.toNat_bits]
  refine decide_eq_false ?_
  simp only [hiddenBit, signBit] at hlt ⊢
  omega

theorem isFinite_eq (h : IsWord d e bits) : d.isFinite = true := by
  have hlt := h.bits_lt
  have he := h.exponent_lt
  rw [isFinite, h.magnitude_eq]
  refine decide_eq_true ?_
  simp only [hiddenBit, infinityWord] at hlt ⊢
  omega

theorem isNaN_eq (h : IsWord d e bits) : d.isNaN = false := by
  have hfinite := of_decide_eq_true h.isFinite_eq
  exact decide_eq_false (Nat.not_lt_of_lt hfinite)

theorem isZero_eq (h : IsWord d e bits) : d.isZero = false := by
  have he := h.exponent_pos
  rw [isZero, h.magnitude_eq, beq_eq_false_iff_ne]
  simp only [hiddenBit]
  omega

theorem significand_eq (h : IsWord d e bits) :
    d.significand = hiddenBit + bits := by
  have he := h.exponent_pos
  have hnormal : ¬ e * hiddenBit + bits < hiddenBit := by
    simp only [hiddenBit]
    omega
  rw [significand, h.magnitude_eq, if_neg hnormal, Nat.mul_add_mod_self_right,
    Nat.mod_eq_of_lt h.bits_lt]

theorem exponent_eq (h : IsWord d e bits) : d.exponent = (e : Int) - 1075 := by
  have he := h.exponent_pos
  have hnormal : ¬ e * hiddenBit + bits < hiddenBit := by
    simp only [hiddenBit]
    omega
  have hunits : (e * hiddenBit + bits) / hiddenBit = e := by
    have hlt := h.bits_lt
    simp only [hiddenBit] at hlt ⊢
    omega
  rw [exponent, h.magnitude_eq, if_neg hnormal, hunits]

/-- A number whose last bit weighs two or more is an integer. -/
theorem ratio_eq (h : IsWord d e bits) {k : Nat} (hk : e = 1075 + k) :
    d.ratio = ((hiddenBit + bits) * 2 ^ k, 1) := by
  have htoNat : d.exponent.toNat = k := by
    rw [h.exponent_eq]
    omega
  have hneg : (-d.exponent).toNat = 0 := by
    rw [h.exponent_eq]
    omega
  rw [ratio, htoNat, hneg, h.significand_eq]
  rfl

end IsWord

/-- Integers of 64 bits from the 63rd power of two on. -/
def IsHigh (n : Nat) : Prop :=
  0x8000_0000_0000_0000 ≤ n ∧ n < 0x1_0000_0000_0000_0000

theorem scale_one {n : Nat} (h : IsHigh n) : scale n 1 = 11 := by
  obtain ⟨hlow, hhigh⟩ := h
  have hlog : n.log2 = 63 := (Nat.log2_eq_iff (by omega)).mpr ⟨hlow, hhigh⟩
  have hlarge : ¬ n * Nat.pow 2 (-10 : Int).toNat <
      2 * hiddenBit * (1 * Nat.pow 2 (10 : Int).toNat) := by
    change ¬ n * 1 < 2 * 0x0010_0000_0000_0000 * (1 * 1024)
    omega
  rw [scale, hlog]
  exact if_neg hlarge

theorem roundDiv_bounds {n : Nat} (h : IsHigh n) :
    hiddenBit ≤ roundDiv n 2048 ∧ roundDiv n 2048 ≤ 2 * hiddenBit := by
  obtain ⟨hlow, hhigh⟩ := h
  rw [roundDiv]
  simp only [hiddenBit]
  split_ifs <;> omega

theorem ofNat_eq {n : Nat} (h : IsHigh n) :
    ofNat n = ofWord false (1085 * hiddenBit + roundDiv n 2048) := by
  have hbounds := roundDiv_bounds h
  have hpos : n ≠ 0 := by
    have hlow := h.1
    omega
  have hfinite : 1085 * hiddenBit + roundDiv n 2048 ≤ infinityWord := by
    simp only [hiddenBit, infinityWord] at hbounds ⊢
    omega
  rw [ofNat, ofRatio, if_neg hpos, scale_one h]
  dsimp only
  have hround : roundDiv (n * Nat.pow 2 (-11 : Int).toNat)
      (1 * Nat.pow 2 (11 : Int).toNat) =
      roundDiv n 2048 := congrArg (roundDiv · 2048) (Nat.mul_one n)
  have hshift : (11 + 1074 : Int).toNat = 1085 := rfl
  rw [hround, hshift, Nat.min_eq_left hfinite]

/-- The last bit of the nearest double weighs 2048, or 4096 where rounding
carries. -/
theorem exists_isWord {n : Nat} (h : IsHigh n) :
    ∃ k bits, IsWord (ofNat n) (1075 + k) bits ∧ 11 ≤ k ∧
      (hiddenBit + bits) * 2 ^ k ≤ 0x1_0000_0000_0000_0000 := by
  have hbounds := roundDiv_bounds h
  by_cases hcarry : roundDiv n 2048 = 2 * hiddenBit
  · refine ⟨12, 0, ⟨?_, by decide, by decide, by decide⟩, by decide, by decide⟩
    rw [ofNat_eq h, hcarry]
    rfl
  · have hbits : roundDiv n 2048 - hiddenBit < hiddenBit := by omega
    refine ⟨11, roundDiv n 2048 - hiddenBit, ⟨?_, by decide, by decide, hbits⟩,
      by decide, ?_⟩
    · rw [ofNat_eq h]
      refine congrArg (ofWord false) ?_
      omega
    · simp only [hiddenBit] at hbits ⊢
      omega

/-- An integer of 64 bits that is at least the 63rd power of two is written, as
its nearest double, with the digits of a multiple of 1000. -/
theorem plainText_ofNat {n : Nat} (h : IsHigh n) :
    (ofNat n).plainText = Text.ofNat ((ofNat n).shortest .up).toNat ∧
      1000 ∣ ((ofNat n).shortest .up).toNat := by
  obtain ⟨k, bits, hword, hk, hhigh⟩ := exists_isWord h
  have hlow : hiddenBit * 1 ≤ (hiddenBit + bits) * 2 ^ k :=
    Nat.mul_le_mul (Nat.le_add_right _ _) (Nat.pow_pos (by decide))
  have hexponent : 11 ≤ (ofNat n).exponent := by
    rw [hword.exponent_eq]
    omega
  obtain ⟨digits, zeros, hdigits, hzeros, hshortest⟩ :=
    exists_shortest .up hexponent (hword.ratio_eq rfl)
      (Nat.le_trans (by decide) hlow) (Nat.lt_of_le_of_lt hhigh (by decide))
  refine ⟨?_, ?_⟩
  · rw [hshortest]
    exact plainText_of_shortest hdigits hword.isNaN_eq hword.isFinite_eq
      hword.isNegative_eq
      hword.isZero_eq hshortest
  · rw [hshortest, Decimal.toNat, Int.toNat_natCast]
    exact Nat.dvd_mul_left_of_dvd (Nat.pow_dvd_pow 10 hzeros) digits

end Double

end Logline
