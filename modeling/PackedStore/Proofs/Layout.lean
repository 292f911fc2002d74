import PackedStore.BurstBuffer

/-!
# Laying a buffer out

Copying the bursts one behind the other fills a destination of the buffer's size with all elements
in order, and a destination of another size stays as it is.
-/

namespace PackedStore

namespace BurstBuffer

variable {α : Type}

/-- A buffer counts its elements rightly. -/
def WellFormed (buffer : BurstBuffer α) : Prop :=
  buffer.size = buffer.toList.length

theorem wellFormed_empty : (empty : BurstBuffer α).WellFormed := rfl

theorem WellFormed.append {buffer : BurstBuffer α} (wellFormed : buffer.WellFormed)
    (burst : List α) : (buffer.append burst).WellFormed := by
  rw [WellFormed, size_append, toList_append, List.length_append, wellFormed]

/-! ## Copying -/

/-- A burst replaces as many elements as it has and keeps those around them. -/
theorem writeBurst_append (front : List α) {middle burst : List α} (back : List α)
    (same : middle.length = burst.length) :
    writeBurst (front ++ middle ++ back).toArray front.length burst =
      (front ++ burst ++ back).toArray := by
  induction burst generalizing front middle with
  | nil =>
      obtain rfl := List.length_eq_zero_iff.mp same
      rfl
  | cons element burst induction =>
      cases middle with
      | nil => exact nomatch same
      | cons old middle =>
          have replaced : (front ++ old :: middle ++ back).toArray.setIfInBounds front.length
              element = (front ++ [element] ++ middle ++ back).toArray := by
            simp
          have rest := induction (front ++ [element]) (Nat.succ.inj same)
          rw [List.length_append, List.length_singleton] at rest
          rw [writeBurst, replaced, rest]
          simp

/-- Bursts copied one behind the other replace as many elements as they have and keep those around
them. -/
theorem foldlM_copyBurst (bursts : List (List α)) (front : List α) {middle : List α} (back : List α)
    (same : middle.length = bursts.flatten.length) :
    bursts.foldlM copyBurst front.length (front ++ middle ++ back).toArray =
      .ok (front.length + middle.length) (front ++ bursts.flatten ++ back).toArray := by
  induction bursts generalizing front middle with
  | nil =>
      obtain rfl := List.length_eq_zero_iff.mp same
      rfl
  | cons burst bursts induction =>
      rw [List.flatten_cons, List.length_append] at same
      obtain ⟨first, rest, rfl, first_length, rest_length⟩ :
          ∃ first rest, middle = first ++ rest ∧ first.length = burst.length ∧
            rest.length = bursts.flatten.length := by
        refine ⟨_, _, (List.take_append_drop burst.length middle).symm, ?_, ?_⟩
        · rw [List.length_take]
          omega
        · rw [List.length_drop]
          omega
      have copied : copyBurst front.length burst (front ++ (first ++ rest) ++ back).toArray =
          .ok (front ++ burst).length (front ++ burst ++ rest ++ back).toArray := by
        have written := writeBurst_append front (rest ++ back) first_length
        rw [copyBurst, if_neg]
        · rw [← List.append_assoc front, List.append_assoc _ rest, written]
          simp
        · simp only [List.size_toArray, List.length_append]
          omega
      have remaining := induction (front ++ burst) rest_length
      rw [List.foldlM_cons]
      simp only [bind, EStateM.bind, copied]
      refine remaining.trans ?_
      simp only [List.length_append, first_length, List.flatten_cons, List.append_assoc,
        Nat.add_assoc]

theorem layOut_eq (buffer : BurstBuffer α) (destination : Array α) :
    buffer.layOut destination =
      (if destination.size ≠ buffer.size then
        throw (.capacityMismatch buffer.size destination.size)
      else
        buffer.bursts.foldlM copyBurst 0 >>= fun _ => pure () : EStateM Error (Array α) Unit)
        destination := rfl

/-- Copying all bursts of a buffer ends right behind the last element of a destination of its
size. -/
theorem WellFormed.foldlM_copyBurst_of_size_eq {buffer : BurstBuffer α}
    (wellFormed : buffer.WellFormed) {destination : Array α}
    (same : destination.size = buffer.size) :
    (buffer.bursts.foldlM copyBurst 0 : EStateM Error (Array α) Nat) destination =
      .ok buffer.size buffer.toList.toArray := by
  have total : destination.toList.length = buffer.bursts.toList.flatten.length := by
    rw [Array.length_toList, same]
    exact wellFormed
  have copied := foldlM_copyBurst buffer.bursts.toList [] [] total
  rwa [List.nil_append, List.append_nil, Array.toArray_toList, Array.foldlM_toList,
    List.length_nil, Array.length_toList, Nat.zero_add, List.nil_append, List.append_nil,
    same] at copied

/-- A destination of the buffer's size receives all elements in order. -/
theorem WellFormed.layOut_of_size_eq {buffer : BurstBuffer α} (wellFormed : buffer.WellFormed)
    {destination : Array α} (same : destination.size = buffer.size) :
    buffer.layOut destination = .ok () buffer.toList.toArray := by
  rw [layOut_eq, if_neg (not_not_intro same)]
  simp only [bind, EStateM.bind, wellFormed.foldlM_copyBurst_of_size_eq same]
  rfl

/-- A destination of another size stays as it is. -/
theorem layOut_of_size_ne {buffer : BurstBuffer α} {destination : Array α}
    (other : destination.size ≠ buffer.size) :
    buffer.layOut destination =
      .error (.capacityMismatch buffer.size destination.size) destination := by
  rw [layOut_eq, if_pos other]
  rfl

end BurstBuffer

end PackedStore
