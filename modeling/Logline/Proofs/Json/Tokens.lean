import Logline.Json.Token
import Logline.Outcome
import Logline.Proofs.Text.Digits
/-!
The tokens of what is written.  A quoted text is one string token with that
text, and an integer of 64 bits one number token, if what follows does not go
on with the number.
-/
namespace Logline.Json

theorem tokensFrom_append (used rest : List Symbol) :
    tokensFrom used.length (used ++ rest) = tokensFrom 0 rest := by
  induction used with
  | nil => rfl
  | cons s used ih => exact ih

theorem tokensFrom_lexeme {c : Char} {used rest : List Symbol} {token : Token}
    (hspace : isSpace c = false) (hbroken : token.isBroken = false)
    (h : lexeme c (used ++ rest) = (token, used.length)) :
    tokensFrom 0 (some c :: used ++ rest) = token :: tokensFrom 0 rest := by
  rw [List.cons_append, tokensFrom, if_neg (by simp [hspace])]
  simp only [h, hbroken, tokensFrom_append]
  rfl

/-! ### Strings -/

theorem scanString_plain {c : Char} (hquote : c ≠ '"') (hslash : c ≠ '\\')
    (hcontrol : ¬ c.toNat < 32) (rest : List Symbol) :
    scanString (some c :: rest) = (scanString rest).after
      (.symbol (some c)) 1 := by
  rw [scanString, if_neg hcontrol]
  all_goals simp [hquote, hslash]

/-- A written character is one piece, which stands for the character. -/
theorem scanString_escaped (c : Char) :
    ∃ piece, (∀ rest, scanString ((escaped c).map some ++ rest) =
        (scanString rest).after piece (escaped c).length) ∧
      ∀ pieces, decodePieces none (piece :: pieces) =
        (decodePieces none pieces).map (c :: ·) := by
  rw [escaped]
  split_ifs with hquote hslash hfeed hreturn htab hback hform hcontrol
  · subst hquote
    exact ⟨.symbol (some '"'), fun _ => rfl, fun _ => rfl⟩
  · subst hslash
    exact ⟨.symbol (some '\\'), fun _ => rfl, fun _ => rfl⟩
  · subst hfeed
    exact ⟨.symbol (some '\n'), fun _ => rfl, fun _ => rfl⟩
  · subst hreturn
    exact ⟨.symbol (some '\r'), fun _ => rfl, fun _ => rfl⟩
  · subst htab
    exact ⟨.symbol (some '\t'), fun _ => rfl, fun _ => rfl⟩
  · obtain rfl : c = '\x08' := Char.toNat_inj.mp hback
    exact ⟨.symbol (some '\x08'), fun _ => rfl, fun _ => rfl⟩
  · obtain rfl : c = '\x0c' := Char.toNat_inj.mp hform
    exact ⟨.symbol (some '\x0c'), fun _ => rfl, fun _ => rfl⟩
  · have hunit : ∀ n < 32, hexUnit? (some '0') (some '0')
        (some (Nat.digitChar (n / 16)))
        (some (Nat.digitChar (n % 16))) = some n := by decide
    refine ⟨.unit c.toNat, fun rest => ?_, fun pieces => ?_⟩
    · simp only [hexByte, List.map_cons, List.map_nil, List.cons_append,
        List.nil_append, scanString, hunit c.toNat hcontrol]
      rfl
    · have hlow : isLowSurrogate c.toNat = false := by
        simp [isLowSurrogate]
        omega
      have hhigh : isHighSurrogate c.toNat = false := by
        simp [isHighSurrogate]
        omega
      rw [decodePieces.eq_def]
      simp only [hlow, hhigh, Bool.false_eq_true, if_false, Char.ofNat_toNat]
  · exact ⟨.symbol (some c), scanString_plain hquote hslash hcontrol,
      fun _ => rfl⟩

theorem scanString_flatMap_escaped (t : Text) (rest : List Symbol) :
    ∃ pieces, scanString ((t.flatMap escaped).map some ++ some '"' :: rest) =
        ⟨pieces, none, (t.flatMap escaped).length + 1⟩ ∧
      decodePieces none pieces = .ok t := by
  induction t with
  | nil => exact ⟨[], rfl, rfl⟩
  | cons c t ih =>
      obtain ⟨pieces, hscan, hdecode⟩ := ih
      obtain ⟨piece, hpiece, hcons⟩ := scanString_escaped c
      refine ⟨piece :: pieces, ?_, ?_⟩
      · rw [List.flatMap_cons, List.map_append, List.append_assoc,
          hpiece, hscan, StringScan.after, List.length_append, Nat.add_assoc]
      · rw [hcons, hdecode]
        rfl

/-- A quoted text is a token. -/
theorem tokensFrom_quoted (t : Text) (rest : List Symbol) :
    tokensFrom 0 ((quoted t).map some ++ rest) =
      .string (.ok t) :: tokensFrom 0 rest := by
  obtain ⟨pieces, hscan, hdecode⟩ := scanString_flatMap_escaped t rest
  have hquoted : (quoted t).map some ++ rest =
      some '"' :: ((t.flatMap escaped).map some ++ [some '"']) ++ rest := by
    simp [quoted]
  rw [hquoted]
  apply tokensFrom_lexeme rfl rfl
  rw [List.append_assoc, List.singleton_append, lexeme, stringToken, hscan]
  simp only [StringScan.text, hdecode]
  simp

/-! ### Integers -/

/-- The symbols do not go on with an integer. -/
def EndsInteger : List Symbol → Prop
  | some c :: _ => c.isDigit = false ∧ c ≠ '.' ∧ c ≠ 'e' ∧ c ≠ 'E'
  | _ => True

theorem digits_append {t : Text} (ht : ∀ c ∈ t, c.isDigit = true)
    {rest : List Symbol} (hrest : EndsInteger rest) :
    digits (t.map some ++ rest) = (t, rest) := by
  induction t with
  | nil =>
      rcases rest with _ | ⟨_ | c, rest⟩
      · rfl
      · rfl
      · simp [digits, hrest.1]
  | cons c t ih =>
      have hnext := ih fun d hd => ht d (List.mem_cons_of_mem c hd)
      rw [List.map_cons, List.cons_append, digits,
        if_pos (ht c List.mem_cons_self), hnext]

/-- Integers of 64 bits, with or without sign. -/
def InRange (n : Int) : Prop :=
  -0x8000_0000_0000_0000 ≤ n ∧ n < 0x1_0000_0000_0000_0000

namespace NumberText

theorem scanWhole_ofNat (n : Nat) {rest : List Symbol}
    (hrest : EndsInteger rest) :
    scanWhole ((Text.ofNat n).map some ++ rest) = .ok (Text.ofNat n, rest) := by
  rw [scanWhole, digits_append (fun _ => Text.isDigit_of_mem_ofNat) hrest]
  rcases Nat.eq_zero_or_pos n with rfl | hn
  · rfl
  · obtain ⟨c, more, hc, hzero⟩ := Text.head_ofNat hn
    rw [hc]
    split
    · rename_i hpair
      exact absurd (Prod.mk.inj hpair).1 (List.cons_ne_nil c more)
    · rename_i hpair
      exact absurd (List.cons.inj (Prod.mk.inj hpair).1).1 hzero
    · rename_i hpair
      rw [hpair]

theorem scanFraction_of_endsInteger {rest : List Symbol}
    (hrest : EndsInteger rest) :
    scanFraction rest = .ok (none, rest) := by
  rw [scanFraction.eq_def]
  split
  · exact absurd rfl hrest.2.1
  · rfl

theorem scanExponent_of_endsInteger {rest : List Symbol}
    (hrest : EndsInteger rest) :
    scanExponent rest = .ok none := by
  rcases rest with _ | ⟨_ | c, rest⟩
  · rfl
  · rfl
  · rw [scanExponent, if_neg]
    exact fun h => h.elim hrest.2.2.1 hrest.2.2.2

/-- An integer as it is written. -/
def ofInt : Int → NumberText
  | .ofNat n => ⟨false, Text.ofNat n, none, none⟩
  | .negSucc n => ⟨true, Text.ofNat (n + 1), none, none⟩

theorem scan_ofInt (n : Int) {rest : List Symbol} (hrest : EndsInteger rest) :
    scan ((Text.ofInt n).map some ++ rest) = .ok (ofInt n) := by
  have hfraction := scanFraction_of_endsInteger hrest
  have hexponent := scanExponent_of_endsInteger hrest
  cases n with
  | ofNat n =>
      have hwhole := scanWhole_ofNat n hrest
      obtain ⟨c, more, hc⟩ := List.exists_cons_of_ne_nil (Text.ofNat_ne_nil n)
      have hminus : c ≠ '-' := by
        rintro rfl
        have hdigit := Text.isDigit_of_mem_ofNat (hc ▸ List.mem_cons_self)
        contradiction
      rw [hc] at hwhole
      rw [Text.ofInt, ofInt, hc]
      rw [List.map_cons, List.cons_append] at hwhole ⊢
      rw [scan.eq_def]
      split
      rename_i signed hsigned
      split at hsigned
      · rename_i hhead
        exact absurd (Option.some.inj (List.cons.inj hhead).1) hminus
      · cases hsigned
        simp only [hwhole, hfraction, hexponent, Except.ok_bind]
        rfl
  | negSucc n =>
      have hwhole := scanWhole_ofNat (n + 1) hrest
      rw [Text.ofInt, List.map_cons, List.cons_append, scan.eq_def]
      simp only [hwhole, hfraction, hexponent, Except.ok_bind]
      rfl

theorem absorb_eq {m : Nat} {t : Text}
    (h : Nat.ofDigitChars 10 t m < UInt64.size) :
    absorb m t = (Nat.ofDigitChars 10 t m, 0) := by
  induction t generalizing m with
  | nil => rfl
  | cons c t ih =>
      rw [Nat.ofDigitChars_cons] at h ⊢
      have hle : 10 * m + (c.toNat - '0'.toNat) < UInt64.size := by
        rw [Nat.ofDigitChars_eq_ofDigitChars_zero] at h
        have hpow := Nat.pow_pos (n := t.length) (show 0 < 10 by decide)
        have hmul := Nat.le_mul_of_pos_left
          (10 * m + (c.toNat - '0'.toNat)) hpow
        omega
      rw [absorb, if_pos hle]
      exact ih h

theorem absorb_ofNat {n : Nat} (h : n < UInt64.size) :
    absorb 0 (Text.ofNat n) = (n, 0) := by
  have hvalue : Nat.ofDigitChars 10 (Text.ofNat n) 0 = n :=
    Text.digitsValue_ofNat n
  rw [absorb_eq (hvalue.symm ▸ h), hvalue]

theorem value_ofInt {n : Int} (h : InRange n) :
    (ofInt n).value = .ok (.integer n) := by
  obtain ⟨hlow, hhigh⟩ := h
  cases n with
  | ofNat n =>
      have hsize : n < UInt64.size := Int.ofNat_lt.mp hhigh
      simp only [value, ofInt, absorb_ofNat hsize]
      rfl
  | negSucc n =>
      have hsize : n + 1 < UInt64.size := by
        simp only [UInt64.size]
        omega
      have hsigned : 0 < n + 1 ∧ n + 1 ≤ 0x8000_0000_0000_0000 := by omega
      simp only [value, ofInt, absorb_ofNat hsize, Option.isNone_none,
        and_self, if_true, Bool.not_true, Bool.false_eq_true, if_false,
        if_pos hsigned]
      rfl

theorem length_ofInt (n : Int) : (ofInt n).length = (Text.ofInt n).length := by
  cases n with
  | ofNat n => simp [length, ofInt, Text.ofInt]
  | negSucc n =>
      simp only [length, ofInt, Text.ofInt, List.length_cons, if_true]
      omega

end NumberText

theorem isSpace_of_number {c : Char} (h : c.isDigit = true ∨ c = '-') :
    isSpace c = false := by
  rw [isSpace]
  rcases h with h | rfl
  · simp only [Bool.or_eq_false_iff, beq_eq_false_iff_ne]
    refine ⟨⟨⟨?_, ?_⟩, ?_⟩, ?_⟩ <;> rintro rfl <;> contradiction
  · rfl

theorem lexeme_of_number {c : Char} (h : c.isDigit = true ∨ c = '-')
    (rest : List Symbol) :
    lexeme c rest = numberToken (some c :: rest) := by
  rw [lexeme.eq_def]
  split
  case h_11 => exact if_pos h
  all_goals exact absurd h (by decide)

/-- An integer is a token, if it ends there. -/
theorem tokensFrom_ofInt {n : Int} (hn : InRange n) {rest : List Symbol}
    (hrest : EndsInteger rest) :
    tokensFrom 0 ((Text.ofInt n).map some ++ rest) =
      .number (.ok (.integer n)) :: tokensFrom 0 rest := by
  have hscan := NumberText.scan_ofInt n hrest
  have hlength := NumberText.length_ofInt n
  obtain ⟨c, more, hc, hfirst⟩ : ∃ c more, Text.ofInt n = c :: more ∧
      (c.isDigit = true ∨ c = '-') := by
    cases n with
    | ofNat n =>
        obtain ⟨c, more, hc⟩ := List.exists_cons_of_ne_nil (Text.ofNat_ne_nil n)
        exact ⟨c, more, hc,
          .inl (Text.isDigit_of_mem_ofNat (hc ▸ List.mem_cons_self))⟩
    | negSucc n => exact ⟨'-', _, rfl, .inr rfl⟩
  rw [hc] at hscan hlength
  rw [hc, List.map_cons]
  apply tokensFrom_lexeme (isSpace_of_number hfirst) rfl
  rw [lexeme_of_number hfirst, numberToken, ← List.cons_append,
    ← List.map_cons, hscan]
  simp only [NumberText.value_ofInt hn, hlength, List.length_cons,
    List.length_map, Nat.add_sub_cancel]

end Logline.Json
