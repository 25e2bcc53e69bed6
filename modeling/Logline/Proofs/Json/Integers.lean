import Logline.Proofs.Entries
import Logline.Proofs.Json.Exact
import Logline.Proofs.Json.Tokens
/-!
The integers of a document.  A number token is an integer only if it fits into
64 bits, with or without sign (`fits_of_mem_tokens`), and every integer of a
document is one of its tokens; so all of them fit (`inRange_of_read`).
-/
namespace Logline.Json

/-! ### Integers of 64 bits -/

namespace NumberText

theorem absorb_lt {m : Nat} (h : m < UInt64.size) (t : Text) :
    (absorb m t).1 < UInt64.size := by
  induction t generalizing m with
  | nil => exact h
  | cons c t ih =>
      rw [absorb]
      split
      · rename_i hnext
        exact ih hnext
      · exact h

/-- A number that is an integer fits into 64 bits, with or without sign. -/
theorem inRange_of_value {n : NumberText} {m : Int}
    (h : n.value = .ok (.integer m)) :
    InRange m := by
  have hlt := absorb_lt (show 0 < UInt64.size by decide) n.whole
  rw [value] at h
  dsimp only at h
  split at h
  · split at h
    · obtain rfl := Number.integer.inj (Except.ok.inj h)
      exact ⟨by omega, Int.ofNat_lt.mpr hlt⟩
    · split at h
      · rename_i hsigned
        obtain rfl := Number.integer.inj (Except.ok.inj h)
        exact ⟨by omega, by omega⟩
      · cases Except.ok.inj h
  · obtain ⟨d, -, h⟩ := Except.bind_eq_ok h
    cases Except.ok.inj h

end NumberText

/-- The token is no integer beyond 64 bits. -/
def Token.Fits : Token → Prop
  | .number (.ok (.integer n)) => InRange n
  | _ => True

theorem fits_numberToken (s : List Symbol) : (numberToken s).1.Fits := by
  rw [numberToken]
  split
  · rename_i text hscan
    cases hvalue : text.value with
    | error fault => trivial
    | ok number =>
        cases number with
        | integer n => exact text.inRange_of_value hvalue
        | double d => trivial
  · trivial
  · trivial

theorem fits_wordToken (token : Token) (h : token.Fits) (word : Text)
    (rest : List Symbol) :
    (wordToken token word rest).1.Fits := by
  rw [wordToken]
  split
  · exact h
  · trivial

theorem fits_stringToken (rest : List Symbol) : (stringToken rest).1.Fits := by
  simp only [stringToken]
  split <;> trivial

theorem fits_lexeme (c : Char) (rest : List Symbol) :
    (lexeme c rest).1.Fits := by
  rw [lexeme.eq_def]
  split
  case h_7 => exact fits_stringToken rest
  case h_8 => exact fits_wordToken .null trivial "ull".toList rest
  case h_9 => exact fits_wordToken (.bool true) trivial "rue".toList rest
  case h_10 => exact fits_wordToken (.bool false) trivial "alse".toList rest
  case h_11 =>
    split
    · exact fits_numberToken _
    · trivial
  all_goals trivial

theorem fits_tokensFrom (skip : Nat) (s : List Symbol) :
    ∀ token ∈ tokensFrom skip s, token.Fits := by
  induction s generalizing skip with
  | nil =>
      rw [tokensFrom]
      exact List.forall_mem_nil _
  | cons symbol rest ih =>
      cases skip with
      | succ skip => exact ih skip
      | zero =>
          cases symbol with
          | none => exact List.forall_mem_cons.mpr ⟨trivial, ih 0⟩
          | some c =>
              rw [tokensFrom]
              split
              · exact ih 0
              · dsimp only
                split
                · exact List.forall_mem_singleton.mpr (fits_lexeme c rest)
                · exact List.forall_mem_cons.mpr ⟨fits_lexeme c rest, ih _⟩

theorem fits_of_mem_tokens {payload : Bytes} {token : Token}
    (h : token ∈ tokens payload) :
    token.Fits :=
  fits_tokensFrom 0 (Utf8.symbols payload) token h

/-! ### The integers of a value -/

mutual

/-- The integers of a value outside of objects. -/
def integers : Json → List Int
  | .number (.integer n) => [n]
  | .array items => integersAll items
  | _ => []

def integersAll : List Json → List Int
  | [] => []
  | v :: rest => integers v ++ integersAll rest

end

theorem integersAll_eq (items : List Json) :
    integersAll items = items.flatMap integers := by
  induction items with
  | nil => rfl
  | cons v rest ih => rw [integersAll, ih, List.flatMap_cons]

theorem Token.Fits.inRange {token : Token} {v : Json} (h : token.Fits)
    (hscalar : token.scalar? = some v) : ∀ n ∈ v.integers, InRange n := by
  cases token with
  | number value =>
      cases value with
      | ok number =>
          obtain rfl := Option.some.inj hscalar
          cases number with
          | integer n => exact List.forall_mem_singleton.mpr h
          | double d => exact List.forall_mem_nil _
      | error fault => contradiction
  | string value =>
      cases value with
      | ok t =>
          obtain rfl := Option.some.inj hscalar
          exact List.forall_mem_nil _
      | error fault => contradiction
  | null | bool b =>
      obtain rfl := Option.some.inj hscalar
      exact List.forall_mem_nil _
  | _ => contradiction

theorem Spells.inRange {depth : Nat} {ts : List Token} {v : Json}
    (h : Spells depth ts v) (hts : ∀ token ∈ ts, token.Fits) :
    ∀ n ∈ v.integers, InRange n := by
  induction h with
  | scalar hscalar => exact (hts _ List.mem_cons_self).inRange hscalar
  | @array _ items _ ih =>
      rw [integers, integersAll_eq, List.forall_mem_flatMap,
        List.forall_mem_map]
      exact fun item hitem => ih item hitem fun token htoken => hts token <|
        List.mem_cons_of_mem _ <| List.mem_append_left _ <|
          subset_separated (List.mem_map_of_mem hitem) htoken
  | object _ _ => exact List.forall_mem_nil _

theorem inRange_of_read {payload : Bytes} {entries : Entries Json}
    (h : Json.read payload = .ok (.object entries)) :
    ∀ entry ∈ entries, ∀ n ∈ entry.2.integers, InRange n := by
  obtain ⟨members, htokens, hspells, rfl⟩ := ofTokens_eq_object_iff.mp h
  intro entry hentry
  obtain hnone | hmember := Entries.mem_insertAll hentry
  · contradiction
  · obtain ⟨member, hmem, rfl⟩ := List.mem_map.mp hmember
    have hvalue : ∀ token ∈ member.2.1, token ∈ tokens payload := by
      intro token htoken
      rw [htokens]
      refine List.mem_cons_of_mem _ (List.mem_append_left _ ?_)
      exact subset_separated (List.mem_map_of_mem hmem)
        (List.mem_cons_of_mem _ (List.mem_cons_of_mem _ htoken))
    exact (hspells member hmem).inRange fun token htoken =>
      fits_of_mem_tokens (hvalue token htoken)

end Logline.Json
