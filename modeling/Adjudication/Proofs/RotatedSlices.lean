import Adjudication.Fill
import Mathlib.Data.List.Rotate

namespace Adjudication

variable {missing : List Address} {count i j p : Nat}

/-- Where in the list the slice of a peer begins. -/
def sliceStart (missing : List Address) (index count : Nat) : Nat := index * missing.length / count

theorem rotatedSlice_eq (missing : List Address) (index : Nat) (hcount : 0 < count) :
    rotatedSlice missing index count =
      (missing.rotate (sliceStart missing index count)).take Limits.maxMissing := by
  have hmax : max count 1 = count := by omega
  rw [rotatedSlice, List.rotate_eq_drop_append_take_mod, hmax]
  rfl

theorem sliceStart_lt (hne : missing ≠ []) (hi : i < count) :
    sliceStart missing i count < missing.length := by
  have hlength : 0 < missing.length := List.length_pos_of_ne_nil hne
  rw [sliceStart, Nat.div_lt_iff_lt_mul (by omega), Nat.mul_comm missing.length]
  exact Nat.mul_lt_mul_of_pos_right hi hlength

/-- With no more peers than addresses, a later peer begins further on. -/
theorem sliceStart_lt_sliceStart (hcount : 0 < count) (hfew : count ≤ missing.length) (hij : i < j) :
    sliceStart missing i count < sliceStart missing j count := by
  have hfloor : sliceStart missing i count * count ≤ i * missing.length := Nat.div_mul_le_self _ _
  have hnext : (i + 1) * missing.length ≤ j * missing.length := Nat.mul_le_mul_right _ hij
  rw [Nat.lt_iff_add_one_le, sliceStart.eq_def missing j, Nat.le_div_iff_mul_le hcount]
  rw [Nat.add_mul] at hnext ⊢
  omega

/-- Every place of the list comes fewer than `limit` places after one where a slice begins, if the slices
of `limit` addresses are together as long as the list. -/
theorem exists_sliceStart {limit : Nat} (hcount : 0 < count) (hp : p < missing.length)
    (henough : missing.length ≤ limit * count) :
    ∃ i < count, sliceStart missing i count ≤ p ∧ p < sliceStart missing i count + limit := by
  have hlength : 0 < missing.length := by omega
  have hbefore : count * (p + 1) ≤ count * missing.length := Nat.mul_le_mul_left _ hp
  have hpositive : 0 < count * (p + 1) := Nat.mul_pos hcount (by omega)
  -- the last peer whose slice begins no later than `p`
  obtain ⟨i, hlower, hupper⟩ : ∃ i, i * missing.length ≤ count * (p + 1) - 1 ∧
      count * (p + 1) - 1 < i * missing.length + missing.length :=
    ⟨_, Nat.div_mul_le_self _ _, Nat.lt_div_mul_add hlength⟩
  have hi : i < count := Nat.lt_of_mul_lt_mul_right (a := missing.length) (by omega)
  refine ⟨i, hi, ?_, ?_⟩
  · have hlt : sliceStart missing i count < p + 1 := by
      rw [sliceStart, Nat.div_lt_iff_lt_mul hcount, Nat.mul_comm (p + 1)]
      omega
    omega
  · have hle : p + 1 - limit ≤ sliceStart missing i count := by
      rw [sliceStart, Nat.le_div_iff_mul_le hcount, Nat.sub_mul, Nat.mul_comm (p + 1)]
      omega
    omega

theorem length_rotatedSlice (missing : List Address) (index : Nat) (hcount : 0 < count) :
    (rotatedSlice missing index count).length = min missing.length Limits.maxMissing := by
  rw [rotatedSlice_eq missing index hcount, List.length_take, List.length_rotate, Nat.min_comm]

theorem getElem?_rotatedSlice (hcount : 0 < count) (hj : j < min missing.length Limits.maxMissing) :
    (rotatedSlice missing i count)[j]? =
      missing[(sliceStart missing i count + j) % missing.length]? := by
  have hlimits := Nat.lt_min.mp hj
  rw [rotatedSlice_eq missing i hcount, List.getElem?_take_of_lt hlimits.2,
    List.getElem?_rotate hlimits.1, Nat.add_comm]

/-- The first of a slice is the address where it begins. -/
theorem head?_rotatedSlice (hne : missing ≠ []) (hi : i < count) :
    (rotatedSlice missing i count).head? = missing[sliceStart missing i count]? := by
  have hlength : 0 < missing.length := List.length_pos_of_ne_nil hne
  have hfirst : 0 < min missing.length Limits.maxMissing := Nat.lt_min.mpr ⟨hlength, by decide⟩
  rw [List.head?_eq_getElem?, getElem?_rotatedSlice (by omega) hfirst, Nat.add_zero,
    Nat.mod_eq_of_lt (sliceStart_lt hne hi)]

/-- The slices of a missing list for a number of peers. -/
structure Spread (missing : List Address) (count : Nat) : Prop where
  length : ∀ i < count,
    (rotatedSlice missing i count).length = min missing.length Limits.maxMissing
  distinct : ∀ i < count, (rotatedSlice missing i count).Nodup
  /-- A slice goes on at the first address after the last. -/
  consecutive : ∀ i < count, ∃ start < missing.length, ∀ j < min missing.length Limits.maxMissing,
    (rotatedSlice missing i count)[j]? = missing[(start + j) % missing.length]?
  whole : missing.length ≤ Limits.maxMissing → ∀ i < count, (rotatedSlice missing i count).Perm missing
  covered : missing.length ≤ Limits.maxMissing * count →
    ∀ x ∈ missing, ∃ i < count, x ∈ rotatedSlice missing i count
  starts : count ≤ missing.length → ∀ i < count, ∀ j < count, i ≠ j →
    (rotatedSlice missing i count).head? ≠ (rotatedSlice missing j count).head?

/-- A list without repetitions is spread over the slices of any number of peers. -/
theorem spread_of_nodup (hnodup : missing.Nodup) (hne : missing ≠ []) (hcount : 0 < count) :
    Spread missing count where
  length i _ := length_rotatedSlice missing i hcount
  distinct i _ := by
    rw [rotatedSlice_eq missing i hcount]
    exact (List.nodup_rotate.mpr hnodup).sublist (List.take_sublist _ _)
  consecutive i hi :=
    ⟨sliceStart missing i count, sliceStart_lt hne hi, fun _ hj => getElem?_rotatedSlice hcount hj⟩
  whole hshort i _ := by
    rw [rotatedSlice_eq missing i hcount, List.take_of_length_le (by rwa [List.length_rotate])]
    exact List.rotate_perm _ _
  covered henough x hx := by
    obtain ⟨p, hp, rfl⟩ := List.getElem_of_mem hx
    obtain ⟨i, hi, hle, hlt⟩ := exists_sliceStart hcount hp henough
    refine ⟨i, hi, List.mem_of_getElem? (i := p - sliceStart missing i count) ?_⟩
    have hplace : p - sliceStart missing i count < min missing.length Limits.maxMissing := by omega
    rw [getElem?_rotatedSlice hcount hplace, Nat.add_sub_cancel' hle, Nat.mod_eq_of_lt hp]
    exact List.getElem?_eq_getElem hp
  starts hfew i hi j hj hij hsame := by
    have hlt := sliceStart_lt hne hi
    have hlt' := sliceStart_lt hne hj
    rw [head?_rotatedSlice hne hi, head?_rotatedSlice hne hj, List.getElem?_eq_getElem hlt,
      List.getElem?_eq_getElem hlt', Option.some.injEq, hnodup.getElem_inj_iff] at hsame
    rcases Nat.lt_or_gt_of_ne hij with hbefore | hafter
    · have hstarts := sliceStart_lt_sliceStart hcount hfew hbefore
      omega
    · have hstarts := sliceStart_lt_sliceStart hcount hfew hafter
      omega

/-- Two peers that are asked for three addresses. -/
theorem spread_three : ["a", "b", "c"].Nodup ∧ ["a", "b", "c"] ≠ [] ∧ 0 < 2 ∧
    Spread ["a", "b", "c"] 2 := by
  have hnodup : ["a", "b", "c"].Nodup := by decide
  have hne : ["a", "b", "c"] ≠ [] := by decide
  exact ⟨hnodup, hne, by decide, spread_of_nodup hnodup hne (by decide)⟩

end Adjudication
