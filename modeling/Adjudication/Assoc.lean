namespace Adjudication.Assoc

variable {κ ν : Type}

def keys (xs : List (κ × ν)) : List κ := xs.map (·.1)

section Order

variable [LT κ] {xs ys : List (κ × ν)}

/-- In ascending order of key, which leaves each key once. -/
def Ascending (xs : List (κ × ν)) : Prop := xs.Pairwise fun x y => x.1 < y.1

theorem Ascending.sublist (h : Ascending ys) (hs : xs.Sublist ys) : Ascending xs :=
  List.Pairwise.sublist hs h

theorem Ascending.keys_pairwise (h : Ascending xs) : (keys xs).Pairwise (· < ·) :=
  List.pairwise_map.mpr h

theorem ascending_of_keys (h : (keys xs).Pairwise (· < ·)) : Ascending xs := List.pairwise_map.mp h

theorem Ascending.keys_nodup [Std.Irrefl (α := κ) (· < ·)] (h : Ascending xs) : (keys xs).Nodup := by
  refine h.keys_pairwise.imp ?_
  rintro a b hab rfl
  exact Std.Irrefl.irrefl a hab

end Order

variable [DecidableEq κ]

def get? (k : κ) : List (κ × ν) → Option ν
  | [] => none
  | (k', v) :: xs => if k = k' then some v else get? k xs

def erase (k : κ) (xs : List (κ × ν)) : List (κ × ν) := xs.filter fun x => x.1 ≠ k

def contains (k : κ) (xs : List (κ × ν)) : Bool := (get? k xs).isSome

theorem get?_erase_self (k : κ) (xs : List (κ × ν)) : get? k (erase k xs) = none := by
  induction xs with
  | nil => rfl
  | cons x xs ih =>
    by_cases h : x.1 = k
    · simpa [erase, h] using ih
    · have h' : k ≠ x.1 := fun e => h e.symm
      simpa [erase, h, get?, h'] using ih

theorem get?_erase_of_ne {k k₀ : κ} (h : k₀ ≠ k) (xs : List (κ × ν)) :
    get? k₀ (erase k xs) = get? k₀ xs := by
  induction xs with
  | nil => rfl
  | cons x xs ih =>
    by_cases hx : x.1 = k
    · have h' : k₀ ≠ x.1 := fun e => h (e.trans hx)
      simpa [erase, hx, get?, h, h'] using ih
    · simp only [erase, hx, ne_eq, not_false_eq_true, decide_true, List.filter_cons_of_pos, get?] at ih ⊢
      rw [ih]

theorem get?_eq_none_iff {k : κ} {xs : List (κ × ν)} : get? k xs = none ↔ k ∉ keys xs := by
  induction xs with
  | nil => simp [get?, keys]
  | cons x xs ih =>
    by_cases h : k = x.1
    · simp [get?, keys, h]
    · simpa [get?, keys, h] using ih

theorem get?_isSome_iff {k : κ} {xs : List (κ × ν)} : (get? k xs).isSome ↔ k ∈ keys xs := by
  rw [← Option.ne_none_iff_isSome, ne_eq, get?_eq_none_iff, Decidable.not_not]

theorem mem_of_get? {k : κ} {v : ν} {xs : List (κ × ν)} (h : get? k xs = some v) : (k, v) ∈ xs := by
  induction xs with
  | nil => simp [get?] at h
  | cons x xs ih =>
    by_cases hk : k = x.1
    · obtain ⟨k', v'⟩ := x
      simp_all [get?]
    · exact List.mem_cons_of_mem _ (ih (by simpa [get?, hk] using h))

theorem Ascending.get?_of_mem [LT κ] [Std.Irrefl (α := κ) (· < ·)] {k : κ} {v : ν} {xs : List (κ × ν)}
    (h : Ascending xs) (hx : (k, v) ∈ xs) : get? k xs = some v := by
  induction xs with
  | nil => cases hx
  | cons x xs ih =>
    obtain ⟨hfirst, hrest⟩ := List.pairwise_cons.mp h
    rcases List.mem_cons.mp hx with rfl | hx
    · simp [get?]
    · have hlt : x.1 < k := hfirst _ hx
      have hne : k ≠ x.1 := by
        rintro rfl
        exact Std.Irrefl.irrefl _ hlt
      rw [get?, if_neg hne]
      exact ih hrest hx

variable [LT κ] [DecidableLT κ]

/-- Puts `v` under `k`, in place of what was there. -/
def insert (k : κ) (v : ν) : List (κ × ν) → List (κ × ν)
  | [] => [(k, v)]
  | (k', v') :: xs =>
    if k = k' then (k, v) :: xs
    else if k < k' then (k, v) :: (k', v') :: xs
    else (k', v') :: insert k v xs

theorem get?_insert_self (k : κ) (v : ν) (xs : List (κ × ν)) : get? k (insert k v xs) = some v := by
  fun_induction insert k v xs with
  | case1 => simp [get?]
  | case2 => simp [get?]
  | case3 => simp [get?]
  | case4 k' v' xs hne _ ih => simpa [get?, hne] using ih

theorem get?_insert_of_ne {k k₀ : κ} (h : k₀ ≠ k) (v : ν) (xs : List (κ × ν)) :
    get? k₀ (insert k v xs) = get? k₀ xs := by
  fun_induction insert k v xs with
  | case1 => simp [get?, h]
  | case2 v' xs => simp [get?, h]
  | case3 k' v' xs => simp [get?, h]
  | case4 k' v' xs _ _ ih => simp only [get?, ih]

theorem mem_keys_insert {k k₀ : κ} {v : ν} {xs : List (κ × ν)} :
    k₀ ∈ keys (insert k v xs) ↔ k₀ = k ∨ k₀ ∈ keys xs := by
  fun_induction insert k v xs with
  | case1 => simp [keys]
  | case2 v' xs => simp [keys]
  | case3 k' v' xs => simp [keys]
  | case4 k' v' xs _ _ ih =>
    simp only [keys, List.map_cons, List.mem_cons] at ih ⊢
    rw [ih]
    exact or_left_comm

theorem mem_insert {k : κ} {v : ν} {x : κ × ν} {xs : List (κ × ν)} (h : x ∈ insert k v xs) :
    x = (k, v) ∨ x ∈ xs := by
  fun_induction insert k v xs with
  | case1 => exact Or.inl (List.mem_singleton.mp h)
  | case2 v' xs =>
    exact (List.mem_cons.mp h).imp_right (List.mem_cons_of_mem _)
  | case3 k' v' xs =>
    exact List.mem_cons.mp h
  | case4 k' v' xs _ _ ih =>
    rcases List.mem_cons.mp h with rfl | h
    · exact Or.inr List.mem_cons_self
    · exact (ih h).imp_right (List.mem_cons_of_mem _)

theorem insert_ne_nil (k : κ) (v : ν) (xs : List (κ × ν)) : insert k v xs ≠ [] := by
  fun_cases insert k v xs with
  | case1 => exact List.cons_ne_nil _ _
  | case2 => exact List.cons_ne_nil _ _
  | case3 => exact List.cons_ne_nil _ _
  | case4 => exact List.cons_ne_nil _ _

theorem Ascending.insert [Trans (α := κ) (· < ·) (· < ·) (· < ·)]
    [Std.Trichotomous (α := κ) (· < ·)] {xs : List (κ × ν)} (h : Ascending xs) (k : κ) (v : ν) :
    Ascending (insert k v xs) := by
  fun_induction Assoc.insert k v xs with
  | case1 => exact List.pairwise_singleton _ _
  | case2 v' xs => exact List.pairwise_cons.mpr (List.pairwise_cons.mp h)
  | case3 k' v' xs _ hlt =>
    refine List.pairwise_cons.mpr ⟨fun y hy => ?_, h⟩
    rcases List.mem_cons.mp hy with rfl | hy
    · exact hlt
    · exact Trans.trans hlt ((List.pairwise_cons.mp h).1 y hy)
  | case4 k' v' xs hne hlt ih =>
    obtain ⟨hhead, htail⟩ := List.pairwise_cons.mp h
    refine List.pairwise_cons.mpr ⟨fun y hy => ?_, ih htail⟩
    rcases mem_insert hy with rfl | hy
    · exact Decidable.byContradiction fun hle => hne (Std.Trichotomous.trichotomous _ _ hlt hle)
    · exact hhead y hy

end Adjudication.Assoc
