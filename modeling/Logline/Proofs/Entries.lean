import Mathlib.Data.List.Induction
import Mathlib.Tactic.SplitIfs
import Logline.Entries
/-!
Maps with insertion order: looking up what has been inserted, and inserting
rows of entries, of which the new keys come last and the others take the place
of what was there.  A map holds each key that was inserted once, in the order
of first insertion, with the value inserted last
(`insertAll_insertion_ordered`).
-/
namespace Logline.Entries

variable {α : Type}

theorem get?_insert (key other : Text) (value : α) (entries : Entries α) :
    get? key (insert other value entries) =
      if other = key then some value else get? key entries := by
  induction entries with
  | nil => rfl
  | cons entry rest ih =>
      obtain ⟨k, v⟩ := entry
      rw [insert]
      by_cases hother : k = other
      · subst hother
        rw [if_pos rfl, get?, get?]
        split_ifs <;> rfl
      · rw [if_neg hother, get?, get?, ih]
        split_ifs with hkey hother' hother'
        · exact absurd (hkey.trans hother'.symm) hother
        · rfl
        · rfl
        · rfl

theorem get?_of_not_mem {key : Text} {entries : Entries α}
    (h : key ∉ entries.map Prod.fst) :
    get? key entries = none := by
  induction entries with
  | nil => rfl
  | cons entry rest ih =>
      obtain ⟨k, v⟩ := entry
      rw [List.map_cons, List.mem_cons, not_or] at h
      rw [get?, if_neg (Ne.symm h.1), ih h.2]

/-- A new key comes last. -/
theorem insert_of_not_mem {key : Text} {entries : Entries α}
    (h : key ∉ entries.map Prod.fst) (value : α) :
    insert key value entries = entries ++ [(key, value)] := by
  induction entries with
  | nil => rfl
  | cons entry rest ih =>
      obtain ⟨k, v⟩ := entry
      rw [List.map_cons, List.mem_cons, not_or] at h
      rw [insert, if_neg (Ne.symm h.1), ih h.2, List.cons_append]

theorem insertAll_of_nodup {entries new : Entries α}
    (h : ((entries ++ new).map Prod.fst).Nodup) :
    insertAll entries new = entries ++ new := by
  induction new generalizing entries with
  | nil => rw [insertAll, List.foldl_nil, List.append_nil]
  | cons entry new ih =>
      have hfresh : entry.1 ∉ entries.map Prod.fst := by
        intro hmem
        rw [List.map_append, List.nodup_append] at h
        exact h.2.2 entry.1 hmem entry.1 (by simp) rfl
      have hsplit : entries ++ entry :: new = (entries ++ [entry]) ++ new := by
        simp
      rw [hsplit] at h ⊢
      rw [← ih h, insertAll, insertAll, List.foldl_cons,
        insert_of_not_mem hfresh]

theorem insertAll_nil {new : Entries α} (h : (new.map Prod.fst).Nodup) :
    insertAll [] new = new :=
  insertAll_of_nodup h

/-! ### Rows of entries -/

/-- An entry that comes in under a key of the map takes the place of what was
there. -/
theorem map_fst_insert (key : Text) (value : α) (entries : Entries α) :
    (insert key value entries).map Prod.fst =
      if key ∈ entries.map Prod.fst then entries.map Prod.fst
      else entries.map Prod.fst ++ [key] := by
  induction entries with
  | nil => rfl
  | cons entry rest ih =>
      obtain ⟨k, v⟩ := entry
      rw [insert]
      by_cases hk : k = key
      · subst hk
        simp
      · have hkey : key ≠ k := Ne.symm hk
        simp only [if_neg hk, List.map_cons, ih, List.mem_cons, hkey, false_or]
        split_ifs <;> rfl

theorem nodup_insert {entries : Entries α} (h : (entries.map Prod.fst).Nodup)
    (key : Text) (value : α) :
    ((insert key value entries).map Prod.fst).Nodup := by
  rw [map_fst_insert]
  split_ifs with hmem
  · exact h
  · rw [List.nodup_append]
    refine ⟨h, by simp, ?_⟩
    rintro k hk k' hk' rfl
    exact hmem (List.mem_singleton.mp hk' ▸ hk)

theorem nodup_insertAll {entries : Entries α} (h : (entries.map Prod.fst).Nodup)
    (new : Entries α) : ((insertAll entries new).map Prod.fst).Nodup := by
  induction new generalizing entries with
  | nil => exact h
  | cons entry new ih => exact ih (nodup_insert h entry.1 entry.2)

theorem mem_insert {key : Text} {value : α} {entries : Entries α}
    {entry : Text × α} (h : entry ∈ insert key value entries) :
    entry = (key, value) ∨ entry ∈ entries := by
  induction entries with
  | nil => exact .inl (List.mem_singleton.mp h)
  | cons first rest ih =>
      obtain ⟨k, v⟩ := first
      rw [insert] at h
      split_ifs at h with hk
      · rcases List.mem_cons.mp h with rfl | hrest
        · exact .inl (by rw [hk])
        · exact .inr (List.mem_cons_of_mem _ hrest)
      · rcases List.mem_cons.mp h with rfl | hrest
        · exact .inr List.mem_cons_self
        · exact (ih hrest).imp id (List.mem_cons_of_mem _)

theorem mem_insertAll {entries new : Entries α} {entry : Text × α}
    (h : entry ∈ insertAll entries new) : entry ∈ entries ∨ entry ∈ new := by
  induction new generalizing entries with
  | nil => exact .inl h
  | cons first new ih =>
      rcases ih h with hold | hnew
      · rcases mem_insert hold with rfl | hentry
        · exact .inr List.mem_cons_self
        · exact .inl hentry
      · exact .inr (List.mem_cons_of_mem _ hnew)

/-- What a row of entries has under a key hides what the map had there. -/
theorem get?_insertAll {new : Entries α} (h : (new.map Prod.fst).Nodup)
    (key : Text) (entries : Entries α) :
    get? key (insertAll entries new) =
      (get? key new).or (get? key entries) := by
  induction new generalizing entries with
  | nil => rfl
  | cons entry new ih =>
      obtain ⟨k, v⟩ := entry
      rw [List.map_cons, List.nodup_cons] at h
      change get? key (insertAll (insert k v entries) new) = _
      rw [ih h.2, get?_insert, get?]
      by_cases hk : k = key
      · subst hk
        rw [get?_of_not_mem h.1, if_pos rfl, if_pos rfl, Option.none_or,
          Option.some_or]
      · rw [if_neg hk, if_neg hk]

theorem filter_insert (p : Text → Bool) (key : Text) (value : α)
    (entries : Entries α) :
    (insert key value entries).filter (fun entry => p entry.1) =
      if p key then insert key value (entries.filter fun entry => p entry.1)
      else entries.filter fun entry => p entry.1 := by
  induction entries with
  | nil => cases hp : p key <;> simp [insert, hp]
  | cons entry rest ih =>
      obtain ⟨k, v⟩ := entry
      rw [insert]
      by_cases hk : k = key
      · subst hk
        cases hp : p k <;> simp [insert, hp]
      · rw [if_neg hk, List.filter_cons, List.filter_cons, ih]
        cases hp : p key <;> cases hpk : p k <;> simp [insert, hk]

/-- Keys can be left out before or after the row is inserted. -/
theorem filter_insertAll (p : Text → Bool) (entries new : Entries α) :
    (insertAll entries new).filter (fun entry => p entry.1) =
      insertAll (entries.filter fun entry => p entry.1)
        (new.filter fun entry => p entry.1) := by
  induction new generalizing entries with
  | nil => rfl
  | cons entry new ih =>
      change (insertAll (insert entry.1 entry.2 entries) new).filter _ = _
      rw [ih, filter_insert, List.filter_cons]
      split_ifs <;> rfl

/-- Leaving out keys one by one leaves the entries that are under none of
them. -/
theorem foldl_erase (keys : List Text) (entries : Entries α) :
    keys.foldl (fun entries key => entries.erase key) entries =
      entries.filter fun entry => !keys.contains entry.1 := by
  induction keys generalizing entries with
  | nil => exact (List.filter_eq_self.mpr fun _ _ => rfl).symm
  | cons key keys ih =>
      rw [List.foldl_cons, ih, erase, List.filter_filter]
      apply List.filter_congr
      intro entry _
      by_cases hkey : entry.1 = key <;> simp [hkey]

theorem get?_eq_some_iff {entries : Entries α}
    (h : (entries.map Prod.fst).Nodup) {key : Text} {value : α} :
    get? key entries = some value ↔ (key, value) ∈ entries := by
  induction entries with
  | nil => simp [get?]
  | cons entry rest ih =>
      obtain ⟨k, v⟩ := entry
      rw [List.map_cons, List.nodup_cons] at h
      rw [get?, List.mem_cons, Prod.mk.injEq, eq_comm (a := key),
        eq_comm (a := value)]
      by_cases hk : k = key
      · subst hk
        have hfresh : (k, value) ∉ rest := fun hmem =>
          h.1 (List.mem_map.mpr ⟨_, hmem, rfl⟩)
        simp [hfresh]
      · simp [hk, ih h.2]

/-- The order of the entries does not matter for looking one up. -/
theorem get?_eq_of_perm {a b : Entries α} (h : a.Perm b)
    (ha : (a.map Prod.fst).Nodup) (key : Text) : get? key a = get? key b := by
  have hb : (b.map Prod.fst).Nodup := (h.map Prod.fst).nodup_iff.mp ha
  ext value
  rw [get?_eq_some_iff ha, get?_eq_some_iff hb, h.mem_iff]

theorem get?_filter {p : Text → Bool} {key : Text} (hkey : p key = true)
    (entries : Entries α) :
    get? key (entries.filter fun entry => p entry.1) = get? key entries := by
  induction entries with
  | nil => rfl
  | cons entry rest ih =>
      obtain ⟨k, v⟩ := entry
      rw [List.filter_cons, get?, ← ih]
      by_cases hk : k = key
      · subst hk
        rw [if_pos hkey, if_pos rfl, get?, if_pos rfl]
      · rw [if_neg hk]
        split_ifs
        · rw [get?, if_neg hk]
        · rfl

/-! ### Order of insertion -/

theorem insertAll_snoc (entries new : Entries α) (entry : Text × α) :
    insertAll entries (new ++ [entry]) =
      insert entry.1 entry.2 (insertAll entries new) := by
  rw [insertAll, List.foldl_append]
  rfl

/-- The keys of a map stand in the order of first insertion. -/
theorem map_fst_insertAll (new : Entries α) :
    (insertAll [] new).map Prod.fst = (new.map Prod.fst).eraseDups := by
  induction new using List.reverseRecOn with
  | nil => rfl
  | append_singleton new entry ih =>
      rw [insertAll_snoc, map_fst_insert, ih, List.map_append,
        List.eraseDups_append]
      by_cases hold : entry.1 ∈ new.map Prod.fst
      · simp [List.removeAll, hold]
      · simp [List.removeAll, hold, List.eraseDups_cons]

/-- The last entry of the row under the key has the value. -/
def LastUnder (new : Entries α) (key : Text) (value : α) : Prop :=
  ∃ before after, new = before ++ (key, value) :: after ∧
    key ∉ after.map Prod.fst

theorem lastUnder_cons_iff {entry : Text × α} {new : Entries α} {key : Text}
    {value : α} :
    LastUnder (entry :: new) key value ↔
      LastUnder new key value ∨ entry = (key, value) ∧
        key ∉ new.map Prod.fst := by
  constructor
  · rintro ⟨_ | ⟨first, before⟩, after, hnew, hlast⟩
    · obtain ⟨rfl, rfl⟩ := List.cons.inj hnew
      exact .inr ⟨rfl, hlast⟩
    · obtain ⟨rfl, rfl⟩ := List.cons.inj hnew
      exact .inl ⟨before, after, rfl, hlast⟩
  · rintro (⟨before, after, rfl, hlast⟩ | ⟨rfl, hlast⟩)
    · exact ⟨entry :: before, after, rfl, hlast⟩
    · exact ⟨[], new, rfl, hlast⟩

/-- The value inserted last is found, or else what was there before. -/
theorem get?_insertAll_eq_some_iff {entries new : Entries α} {key : Text}
    {value : α} :
    get? key (insertAll entries new) = some value ↔
      LastUnder new key value ∨ key ∉ new.map Prod.fst ∧
        get? key entries = some value := by
  induction new generalizing entries with
  | nil => simp [insertAll, LastUnder]
  | cons entry new ih =>
      obtain ⟨k, v⟩ := entry
      change get? key (insertAll (insert k v entries) new) = some value ↔ _
      rw [ih, get?_insert, lastUnder_cons_iff, List.map_cons, List.mem_cons,
        not_or, or_assoc]
      by_cases hk : k = key
      · subst hk
        simp [and_comm]
      · simp [hk, Ne.symm hk]

/-- An entry under another key keeps its value and its position. -/
theorem getElem?_insert_of_ne {key other : Text} (h : other ≠ key) (value v : α)
    (entries : Entries α) (i : Nat) :
    (insert key value entries)[i]? = some (other, v) ↔
      entries[i]? = some (other, v) := by
  induction entries generalizing i with
  | nil => cases i <;> simp [insert, Ne.symm h]
  | cons entry rest ih =>
      obtain ⟨k, old⟩ := entry
      rw [insert]
      split_ifs with hk
      · have hother : k ≠ other := fun heq => h (heq.symm.trans hk)
        cases i <;> simp [hother]
      · cases i with
        | zero => rfl
        | succ i => exact ih i

/-- A map into which a row of entries has been inserted holds each of their
keys once, in the order of first insertion, with the value that was inserted
last.  A key is looked up as it stands among the entries.  One more insertion
makes the map of the longer row, and every entry under another key stays where
it is. -/
theorem insertAll_insertion_ordered (new : Entries α) :
    ((insertAll [] new).map Prod.fst = (new.map Prod.fst).eraseDups ∧
      ((insertAll [] new).map Prod.fst).Nodup) ∧
    (∀ key value, (key, value) ∈ insertAll [] new ↔ LastUnder new key value) ∧
    (∀ key value, get? key (insertAll [] new) = some value ↔
      (key, value) ∈ insertAll [] new) ∧
    ∀ key value, insert key value (insertAll [] new) =
      insertAll [] (new ++ [(key, value)]) ∧
      ∀ (other : Text) (v : α) (i : Nat), other ≠ key →
        ((insert key value (insertAll [] new))[i]? = some (other, v) ↔
          (insertAll [] new)[i]? = some (other, v)) := by
  have hnone : (([] : Entries α).map Prod.fst).Nodup := List.nodup_nil
  have hnodup : ((insertAll [] new).map Prod.fst).Nodup :=
    nodup_insertAll hnone new
  have hfound : ∀ key value, get? key (insertAll [] new) = some value ↔
      (key, value) ∈ insertAll [] new := fun _ _ => get?_eq_some_iff hnodup
  refine ⟨⟨map_fst_insertAll new, hnodup⟩, fun key value => ?_, hfound,
    fun key value => ?_⟩
  · rw [← hfound, get?_insertAll_eq_some_iff]
    simp [get?]
  · exact ⟨(insertAll_snoc [] new (key, value)).symm,
      fun other v i h => getElem?_insert_of_ne h value v _ i⟩

example : insertAll [] [("a".toList, 1), ("b".toList, 2), ("a".toList, 3)] =
    [("a".toList, 3), ("b".toList, 2)] := by decide

end Logline.Entries
