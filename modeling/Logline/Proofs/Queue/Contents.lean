import Mathlib.Data.Nat.ModEq
import Logline.Queue.Ring
/-!
What a ring of slots holds.  The live slots, read from the oldest one on around
the end of the ring, are the `contents` of the queue.  A ring is `Valid` if its
indices fit together and the slots that are not live are empty; a new ring is,
and every operation keeps it so.
-/
namespace Logline.Ring

/-- The index of the slot that lies so many slots after the oldest one. -/
def place (q : Ring) (offset : Nat) : Nat :=
  (q.takeIndex + offset) % q.capacity

/-- The queued payloads, the oldest first. -/
def contents (q : Ring) : List Bytes :=
  (List.range q.count).map fun offset => q.slot (q.place offset)

/-- The invariant of every queue.  Slots beyond the live ones hold nothing,
so that a payload never shows bytes of an earlier one. -/
structure Valid (q : Ring) : Prop where
  count_le : q.count ≤ q.capacity
  takeIndex_lt : q.takeIndex < q.capacity
  putIndex_eq : q.putIndex = q.place q.count
  vacant : ∀ offset, q.count ≤ offset → offset < q.capacity →
    q.slot (q.place offset) = []

@[simp] theorem contents_length (q : Ring) :
    q.contents.length = q.count := by
  simp [contents]

theorem count_lt_of_lt_remaining {q : Ring} {n : Nat}
    (hroom : n < q.remaining) :
    q.count < q.capacity :=
  Nat.lt_of_sub_pos (Nat.zero_lt_of_lt hroom)

theorem contents_eq_nil_iff (q : Ring) : q.contents = [] ↔ q.count = 0 := by
  rw [← List.length_eq_zero_iff, contents_length]

section Places

variable {q : Ring}

theorem place_zero (htake : q.takeIndex < q.capacity) :
    q.place 0 = q.takeIndex := by
  simpa [place] using Nat.mod_eq_of_lt htake

theorem place_lt (hcap : 0 < q.capacity) (offset : Nat) :
    q.place offset < q.capacity :=
  Nat.mod_lt _ hcap

theorem next_place (offset : Nat) :
    q.next (q.place offset) = q.place (offset + 1) := by
  rw [next, place, place, Nat.mod_add_mod, Nat.add_assoc]

theorem place_capacity : q.place q.capacity = q.place 0 := by
  simp [place]

/-- Less than one turn apart, different offsets are different slots. -/
theorem place_injective {i j : Nat} (hi : i < q.capacity)
    (hj : j < q.capacity) (heq : q.place i = q.place j) : i = j := by
  have hmod : i ≡ j [MOD q.capacity] := Nat.ModEq.add_left_cancel' _ heq
  exact Nat.ModEq.eq_of_lt_of_lt hmod hi hj

/-- Every slot lies some offset after the oldest one. -/
theorem exists_place_eq (htake : q.takeIndex < q.capacity) {index : Nat}
    (hindex : index < q.capacity) :
    ∃ offset < q.capacity, q.place offset = index := by
  rcases Nat.lt_or_ge index q.takeIndex with hbefore | hafter
  · refine ⟨q.capacity - q.takeIndex + index, by omega, ?_⟩
    have hsum : q.takeIndex + (q.capacity - q.takeIndex + index) =
        q.capacity + index := by omega
    rw [place, hsum, Nat.add_mod_left, Nat.mod_eq_of_lt hindex]
  · refine ⟨index - q.takeIndex, by omega, ?_⟩
    rw [place, Nat.add_sub_cancel' hafter, Nat.mod_eq_of_lt hindex]

end Places

namespace Valid

variable {q q' : Ring}

theorem capacity_pos (h : q.Valid) : 0 < q.capacity :=
  Nat.zero_lt_of_lt h.takeIndex_lt

theorem putIndex_lt (h : q.Valid) : q.putIndex < q.capacity := by
  rw [h.putIndex_eq]
  exact place_lt h.capacity_pos _

/-- Every slot that is not one of the live slots is empty. -/
theorem slot_eq_nil (h : q.Valid) {index : Nat} (hindex : index < q.capacity)
    (houtside : ∀ offset < q.count, q.place offset ≠ index) :
    q.slot index = [] := by
  obtain ⟨offset, hoffset, rfl⟩ := exists_place_eq h.takeIndex_lt hindex
  rcases Nat.lt_or_ge offset q.count with hlive | hfree
  · exact absurd rfl (houtside offset hlive)
  · exact h.vacant offset hfree hoffset

end Valid

/-! ### A new ring -/

theorem new_eq_ok {capacity : Nat} (hcap : 0 < capacity) :
    Ring.new capacity =
      .ok ⟨Array.replicate capacity [], 0, 0, 0, false⟩ := by
  rw [new, if_neg (Nat.ne_of_gt hcap)]

theorem valid_of_new {capacity : Nat} {q : Ring}
    (hnew : Ring.new capacity = .ok q) :
    q.Valid ∧ q.capacity = capacity ∧ q.contents = [] ∧ q.closed = false := by
  rcases Nat.eq_zero_or_pos capacity with rfl | hcap
  · simp [new] at hnew
  · rw [new_eq_ok hcap, Except.ok.injEq] at hnew
    subst hnew
    refine ⟨⟨Nat.zero_le _, ?_, ?_, ?_⟩, ?_, rfl, rfl⟩
    · simpa [Ring.capacity] using hcap
    · simp [place]
    · intro offset _ _
      simp [slot, Array.getElem?_replicate]
      split <;> rfl
    · simp [Ring.capacity]

/-! ### Putting -/

section Accept

variable {q : Ring} (payload : Bytes)

@[simp] theorem accept_capacity : (q.accept payload).capacity = q.capacity := by
  simp [accept, capacity]

@[simp] theorem accept_closed : (q.accept payload).closed = q.closed := rfl

@[simp] theorem accept_count : (q.accept payload).count = q.count + 1 := rfl

@[simp] theorem accept_place (offset : Nat) :
    (q.accept payload).place offset = q.place offset := by
  rw [place, accept_capacity]
  rfl

theorem accept_slot_new (h : q.Valid) :
    (q.accept payload).slot (q.place q.count) = payload := by
  have hlt : q.putIndex < q.slots.size := h.putIndex_lt
  rw [← h.putIndex_eq]
  simp [accept, slot, hlt]

theorem accept_slot_old (h : q.Valid) {offset : Nat}
    (hoffset : offset < q.capacity) (hroom : q.count < q.capacity)
    (hne : offset ≠ q.count) :
    (q.accept payload).slot (q.place offset) = q.slot (q.place offset) := by
  have hplace : q.putIndex ≠ q.place offset := by
    rw [h.putIndex_eq]
    exact fun heq => hne (place_injective hroom hoffset heq).symm
  simp [accept, slot, hplace]

theorem accept_contents (h : q.Valid) (hroom : q.count < q.capacity) :
    (q.accept payload).contents = q.contents ++ [payload] := by
  have hold : (List.range q.count).map
        (fun offset => (q.accept payload).slot (q.place offset)) =
      q.contents := by
    apply List.map_congr_left
    intro offset hoffset
    rw [List.mem_range] at hoffset
    exact accept_slot_old payload h (by omega) hroom (by omega)
  simp only [contents, accept_count, accept_place, List.range_succ,
    List.map_append, List.map_cons, List.map_nil, accept_slot_new payload h]
  rw [hold, contents]

theorem accept_valid (h : q.Valid) (hroom : q.count < q.capacity) :
    (q.accept payload).Valid where
  count_le := by
    rw [accept_count, accept_capacity]
    exact hroom
  takeIndex_lt := by
    rw [accept_capacity]
    exact h.takeIndex_lt
  putIndex_eq := by
    rw [accept_place, accept_count, ← next_place, ← h.putIndex_eq]
    rfl
  vacant offset hfree hoffset := by
    rw [accept_count] at hfree
    rw [accept_capacity] at hoffset
    rw [accept_place, accept_slot_old payload h hoffset hroom (by omega)]
    exact h.vacant offset (by omega) hoffset

end Accept

/-! ### Taking -/

section Advance

variable {q : Ring} (buffer : Bytes)

@[simp] theorem advance_capacity :
    (q.advance buffer).capacity = q.capacity := by
  simp [advance, capacity]

@[simp] theorem advance_closed : (q.advance buffer).closed = q.closed := rfl

@[simp] theorem advance_count : (q.advance buffer).count = q.count - 1 := rfl

@[simp] theorem advance_place (offset : Nat) :
    (q.advance buffer).place offset = q.place (offset + 1) := by
  have hindex : (q.advance buffer).takeIndex = q.next q.takeIndex := rfl
  rw [place, advance_capacity, hindex, next, Nat.mod_add_mod, place]
  congr 1
  omega

theorem advance_slot_front (htake : q.takeIndex < q.capacity) :
    (q.advance buffer).slot (q.place 0) = buffer := by
  have hlt : q.takeIndex < q.slots.size := htake
  rw [place_zero htake]
  simp [advance, slot, hlt]

theorem advance_slot_other (htake : q.takeIndex < q.capacity) {offset : Nat}
    (hpos : 0 < offset) (hoffset : offset < q.capacity) :
    (q.advance buffer).slot (q.place offset) = q.slot (q.place offset) := by
  have hplace : q.takeIndex ≠ q.place offset := by
    rw [← place_zero htake]
    intro heq
    have := place_injective (by omega) hoffset heq
    omega
  simp [advance, slot, hplace]

/-- The oldest payload leaves, whatever buffer takes its place. -/
theorem contents_eq_front_cons (h : q.Valid) (hcount : q.count ≠ 0) :
    q.contents = q.front :: (q.advance buffer).contents := by
  obtain ⟨n, hn⟩ := Nat.exists_eq_succ_of_ne_zero hcount
  have hle := h.count_le
  have hfront : q.slot (q.place 0) = q.front := by
    rw [place_zero h.takeIndex_lt, front]
  simp only [contents, advance_count, advance_place, hn,
    Nat.succ_eq_add_one, Nat.add_sub_cancel, List.range_succ_eq_map,
    List.map_cons, List.map_map, hfront, List.cons.injEq, true_and]
  apply List.map_congr_left
  intro offset hoffset
  rw [List.mem_range] at hoffset
  exact (advance_slot_other buffer h.takeIndex_lt (by omega)
    (by omega)).symm

/-- The invariant survives because the buffer that is left in the ring has
been cleared. -/
theorem advance_valid (h : q.Valid) (hcount : q.count ≠ 0) :
    (q.advance buffer.cleared).Valid where
  count_le := by
    have := h.count_le
    rw [advance_capacity, advance_count]
    omega
  takeIndex_lt := by
    rw [advance_capacity]
    exact Nat.mod_lt _ h.capacity_pos
  putIndex_eq := by
    have hput : (q.advance buffer.cleared).putIndex = q.putIndex := rfl
    rw [hput, advance_place, advance_count,
      Nat.sub_add_cancel (Nat.one_le_iff_ne_zero.mpr hcount), h.putIndex_eq]
  vacant offset hfree hoffset := by
    rw [advance_count] at hfree
    rw [advance_capacity] at hoffset
    rw [advance_place]
    rcases Nat.lt_or_ge (offset + 1) q.capacity with hlt | hge
    · rw [advance_slot_other _ h.takeIndex_lt (by omega) hlt]
      exact h.vacant (offset + 1) (by omega) hlt
    · -- one turn further on is the slot that has just been taken
      have hturn : offset + 1 = q.capacity := by omega
      rw [hturn, place_capacity, advance_slot_front _ h.takeIndex_lt,
        Bytes.cleared_eq]

end Advance

/-! ### Closing -/

theorem close_valid {q : Ring} (h : q.Valid) : q.close.Valid :=
  ⟨h.count_le, h.takeIndex_lt, h.putIndex_eq, h.vacant⟩

theorem close_of_closed {q : Ring} (hclosed : q.closed = true) :
    q.close = q := by
  rw [close, ← hclosed]

end Logline.Ring
