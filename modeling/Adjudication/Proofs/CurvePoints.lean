import Adjudication.Proofs.CurveLaw

namespace Adjudication.Ed25519

namespace Point

/-- Extended coordinates of a point of the curve. -/
structure Denotes (p : Point) (P : CurvePoint) : Prop where
  x_lt : p.x < prime
  t_lt : p.t < prime
  z_ne : (p.z : ZMod prime) ≠ 0
  x_eq : (p.x : ZMod prime) = P.x * p.z
  y_eq : (p.y : ZMod prime) = P.y * p.z
  t_eq : (p.t : ZMod prime) = P.x * P.y * p.z

variable {p q : Point} {P Q : CurvePoint}

theorem denotes_zero : zero.Denotes 0 where
  x_lt := prime_pos
  t_lt := prime_pos
  z_ne := by simp [zero]
  x_eq := by simp [zero, CurvePoint.zero_x]
  y_eq := by simp [zero, CurvePoint.zero_y]
  t_eq := by simp [zero, CurvePoint.zero_x]

theorem Denotes.neg (h : p.Denotes P) : p.neg.Denotes (-P) where
  x_lt := subMod_lt _ _
  t_lt := subMod_lt _ _
  z_ne := h.z_ne
  x_eq := by
    rw [Point.neg, cast_subMod h.x_lt.le, h.x_eq, CurvePoint.neg_x]
    push_cast
    ring
  y_eq := h.y_eq
  t_eq := by
    rw [Point.neg, cast_subMod h.t_lt.le, h.t_eq, CurvePoint.neg_x, CurvePoint.neg_y]
    push_cast
    ring

/-- The last step of an addition and of a doubling: four factors, of which two are denominators. -/
theorem denotes_of_factors {e f g h : Nat} {R : CurvePoint} (hf : (f : ZMod prime) ≠ 0)
    (hg : (g : ZMod prime) ≠ 0) (hx : R.x * g = e) (hy : R.y * f = h) :
    Denotes ⟨mulMod e f, mulMod g h, mulMod f g, mulMod e h⟩ R where
  x_lt := mulMod_lt _ _
  t_lt := mulMod_lt _ _
  z_ne := by
    rw [cast_mulMod]
    exact mul_ne_zero hf hg
  x_eq := by
    rw [cast_mulMod, cast_mulMod, ← hx]
    ring
  y_eq := by
    rw [cast_mulMod, cast_mulMod, ← hy]
    ring
  t_eq := by
    rw [cast_mulMod, cast_mulMod, ← hx, ← hy]
    ring

theorem Denotes.add (hp : p.Denotes P) (hq : q.Denotes Q) : (p.add q).Denotes (P + Q) := by
  have hz : (2 * p.z * q.z : ZMod prime) ≠ 0 := mul_ne_zero (mul_ne_zero two_ne_zero hp.z_ne) hq.z_ne
  have ha : (mulMod (subMod p.y p.x) (subMod q.y q.x) : ZMod prime) =
      (P.y - P.x) * (Q.y - Q.x) * (p.z * q.z) := by
    rw [cast_mulMod, cast_subMod hp.x_lt.le, cast_subMod hq.x_lt.le, hp.x_eq, hp.y_eq, hq.x_eq, hq.y_eq]
    ring
  have hb : (mulMod (p.y + p.x) (q.y + q.x) : ZMod prime) =
      (P.y + P.x) * (Q.y + Q.x) * (p.z * q.z) := by
    rw [cast_mulMod]
    push_cast
    rw [hp.x_eq, hp.y_eq, hq.x_eq, hq.y_eq]
    ring
  have hc : (mulMod (mulMod p.t (2 * curveD % prime)) q.t : ZMod prime) =
      P.twist Q * (2 * p.z * q.z) := by
    rw [cast_mulMod, cast_mulMod, ZMod.natCast_mod, hp.t_eq, hq.t_eq, CurvePoint.twist]
    push_cast
    ring
  have hd : (mulMod (2 * p.z) q.z : ZMod prime) = 2 * p.z * q.z := by
    rw [cast_mulMod]
    push_cast
    ring
  refine denotes_of_factors ?_ ?_ ?_ ?_
  · rw [cast_subMod (mulMod_lt _ _).le, hc, hd, ← one_sub_mul]
    exact mul_ne_zero (P.one_sub_twist_ne_zero Q) hz
  · rw [Nat.cast_add, hc, hd, ← one_add_mul]
    exact mul_ne_zero (P.one_add_twist_ne_zero Q) hz
  · rw [Nat.cast_add, cast_subMod (mulMod_lt _ _).le, ha, hb, hc, hd]
    linear_combination 2 * p.z * q.z * P.add_x_mul Q
  · rw [Nat.cast_add, cast_subMod (mulMod_lt _ _).le, ha, hb, hc, hd]
    linear_combination 2 * p.z * q.z * P.add_y_mul Q

theorem Denotes.double (hp : p.Denotes P) : p.double.Denotes (P + P) := by
  have hcurve := P.onCurve
  have hz : (p.z * p.z : ZMod prime) ≠ 0 := mul_ne_zero hp.z_ne hp.z_ne
  have htwist : P.twist P = P.y ^ 2 - P.x ^ 2 - 1 := by
    rw [CurvePoint.twist]
    linear_combination -hcurve
  have ha : (mulMod p.x p.x : ZMod prime) = P.x ^ 2 * (p.z * p.z) := by
    rw [cast_mulMod, hp.x_eq]
    ring
  have hb : (mulMod p.y p.y : ZMod prime) = P.y ^ 2 * (p.z * p.z) := by
    rw [cast_mulMod, hp.y_eq]
    ring
  have hsum : (mulMod (p.x + p.y) (p.x + p.y) : ZMod prime) = (P.x + P.y) ^ 2 * (p.z * p.z) := by
    rw [cast_mulMod]
    push_cast
    rw [hp.x_eq, hp.y_eq]
    ring
  have hg : (subMod (mulMod p.x p.x) (mulMod p.y p.y) : ZMod prime) =
      -(1 + P.twist P) * (p.z * p.z) := by
    rw [cast_subMod (mulMod_lt _ _).le, ha, hb, htwist]
    ring
  have hf : ((2 * mulMod p.z p.z + subMod (mulMod p.x p.x) (mulMod p.y p.y) : Nat) : ZMod prime) =
      (1 - P.twist P) * (p.z * p.z) := by
    push_cast
    rw [hg, cast_mulMod]
    ring
  refine denotes_of_factors ?_ ?_ ?_ ?_
  · rw [hf]
    exact mul_ne_zero (P.one_sub_twist_ne_zero P) hz
  · rw [hg]
    exact mul_ne_zero (neg_ne_zero.mpr (P.one_add_twist_ne_zero P)) hz
  · rw [hg, cast_subMod (mulMod_lt _ _).le, Nat.cast_add, ha, hb, hsum]
    linear_combination -(p.z * p.z) * P.add_x_mul P
  · rw [hf, Nat.cast_add, ha, hb]
    linear_combination p.z * p.z * P.add_y_mul P

theorem val_of_cast_eq {n : Nat} {a : ZMod prime} (hn : n < prime) (h : (n : ZMod prime) = a) :
    n = a.val := by
  rw [← h, ZMod.val_natCast_of_lt hn]

theorem Denotes.encode_eq (h : p.Denotes P) :
    p.encode = littleEndian 32 (P.y.val + P.x.val % 2 * Nat.pow 2 255) := by
  have hx : mulMod p.x (invMod p.z) = P.x.val := by
    refine val_of_cast_eq (mulMod_lt _ _) ?_
    rw [cast_mulMod, cast_invMod h.z_ne, h.x_eq, mul_inv_cancel_right₀ h.z_ne]
  have hy : mulMod p.y (invMod p.z) = P.y.val := by
    refine val_of_cast_eq (mulMod_lt _ _) ?_
    rw [cast_mulMod, cast_invMod h.z_ne, h.y_eq, mul_inv_cancel_right₀ h.z_ne]
  simp only [encode, hx, hy]

/-- Of an element and its opposite one is even and one is odd, so a point's encoding tells it from its
mirror image. -/
theorem Denotes.encode_inj (hp : p.Denotes P) (hq : q.Denotes Q) (h : p.encode = q.encode) : P = Q := by
  have hwidth : ∀ R : CurvePoint, R.y.val + R.x.val % 2 * Nat.pow 2 255 < wordCount 32 := by
    intro R
    have hy := ZMod.val_lt R.y
    have hprime : prime < 2 ^ 255 := by decide +kernel
    simp only [wordCount, Nat.pow_eq]
    omega
  rw [hp.encode_eq, hq.encode_eq, littleEndian_inj (hwidth P) (hwidth Q)] at h
  have hparts : P.y.val = Q.y.val ∧ P.x.val % 2 = Q.x.val % 2 := by
    have hy := ZMod.val_lt P.y
    have hy' := ZMod.val_lt Q.y
    have hprime : prime < 2 ^ 255 := by decide +kernel
    simp only [Nat.pow_eq] at h
    omega
  have hy := ZMod.val_injective prime hparts.1
  rcases CurvePoint.x_eq_or_eq_neg hy with hx | hx
  · exact CurvePoint.ext hx hy
  · refine CurvePoint.ext ?_ hy
    by_cases hzero : Q.x = 0
    · rw [hx, hzero, neg_zero]
    · have hopposite := ZMod.neg_val Q.x
      rw [if_neg hzero, ← hx] at hopposite
      have hlt := ZMod.val_lt Q.x
      have hodd : prime % 2 = 1 := by decide +kernel
      omega

/-- Two points in the same relation to each other as all that is computed from them by the same sums. -/
structure Parallel (R : Point → Point → Prop) : Prop where
  zero : R zero zero
  add : ∀ {a b c d}, R a b → R c d → R (a.add c) (b.add d)
  double : ∀ {a b}, R a b → R a.double b.double

variable {R : Point → Point → Prop}

theorem Parallel.getD (hR : Parallel R) {as bs : List Point} (h : List.Forall₂ R as bs) (i : Nat) :
    R (as.toArray.getD i .zero) (bs.toArray.getD i .zero) := by
  induction h generalizing i with
  | nil => exact hR.zero
  | cons hab _ ih =>
    cases i with
    | zero => exact hab
    | succ i => simpa using ih i

theorem Parallel.multiples (hR : Parallel R) (h : R p q) : List.Forall₂ R p.multiples q.multiples := by
  have hfold : ∀ (steps : List Nat) {as bs : List Point}, List.Forall₂ R as bs →
      List.Forall₂ R (steps.foldl (fun acc _ => ((acc.headD .zero).add p) :: acc) as)
        (steps.foldl (fun acc _ => ((acc.headD .zero).add q) :: acc) bs) := by
    intro steps
    induction steps with
    | nil => exact id
    | cons _ steps ih =>
      intro as bs hab
      refine ih (.cons (hR.add ?_ h) hab)
      cases hab with
      | nil => exact hR.zero
      | cons hhead _ => exact hhead
  exact List.forall₂_reverse_iff.mpr (hfold _ (.cons hR.zero .nil))

theorem Parallel.scale (hR : Parallel R) (h : R p q) (k : Nat) : R (p.scale k) (q.scale k) := by
  have hfold : ∀ (digits : List Nat) {a b : Point}, R a b →
      R (digits.foldl (fun acc n =>
          acc.double.double.double.double.add (p.multiples.toArray.getD n .zero)) a)
        (digits.foldl (fun acc n =>
          acc.double.double.double.double.add (q.multiples.toArray.getD n .zero)) b) := by
    intro digits
    induction digits with
    | nil => exact id
    | cons n digits ih =>
      intro a b hab
      have hquadruple := hR.double (hR.double (hR.double (hR.double hab)))
      exact ih (hR.add hquadruple (hR.getD (hR.multiples h) n))
  rw [Point.scale, Point.scale]
  exact hfold (nibbles 64 k) hR.zero

def OnCurve (p : Point) : Prop := ∃ P, p.Denotes P

/-- Mirror images of each other. -/
def Mirrored (p q : Point) : Prop := ∃ P, p.Denotes P ∧ q.Denotes (-P)

theorem parallel_mirrored : Parallel Mirrored where
  zero := ⟨0, denotes_zero, by rw [CurvePoint.neg_zero]; exact denotes_zero⟩
  add := by
    rintro a b c d ⟨A, ha, hb⟩ ⟨C, hc, hd⟩
    exact ⟨A + C, ha.add hc, CurvePoint.neg_add_eq A C ▸ hb.add hd⟩
  double := by
    rintro a b ⟨A, ha, hb⟩
    exact ⟨A + A, ha.double, CurvePoint.neg_add_eq A A ▸ hb.double⟩

theorem OnCurve.mirrored_scale (h : p.OnCurve) (k : Nat) : (p.scale k).Mirrored (p.neg.scale k) := by
  obtain ⟨P, hP⟩ := h
  exact parallel_mirrored.scale ⟨P, hP, hP.neg⟩ k

theorem onCurve_ofAffine {x y : Nat} (hx : x < prime)
    (h : (y : ZMod prime) ^ 2 - (x : ZMod prime) ^ 2 = 1 + curveD * (x : ZMod prime) ^ 2 * (y : ZMod prime) ^ 2) :
    (ofAffine x y).OnCurve := by
  refine ⟨⟨x, y, h⟩, hx, mulMod_lt _ _, ?_, ?_, ?_, ?_⟩ <;> simp [ofAffine]

theorem onCurve_basePoint : basePoint.OnCurve := by
  refine onCurve_ofAffine (by decide +kernel) ?_
  have hcast : ((basePoint.y ^ 2 : Nat) : ZMod prime) =
      ((basePoint.x ^ 2 + 1 + curveD * basePoint.x ^ 2 * basePoint.y ^ 2 : Nat) : ZMod prime) :=
    (ZMod.natCast_eq_natCast_iff' _ _ _).mpr (by decide +kernel)
  push_cast at hcast
  simp only [basePoint, ofAffine] at hcast
  linear_combination hcast

theorem onCurve_zero : zero.OnCurve := ⟨0, denotes_zero⟩

theorem parallel_onCurve : Parallel fun p _ => p.OnCurve where
  zero := onCurve_zero
  add := fun ⟨_, ha⟩ ⟨_, hb⟩ => ⟨_, ha.add hb⟩
  double := fun ⟨_, ha⟩ => ⟨_, ha.double⟩

theorem OnCurve.getD_multiples (h : p.OnCurve) (i : Nat) :
    (p.multiples.toArray.getD i .zero).OnCurve :=
  parallel_onCurve.getD (parallel_onCurve.multiples (p := p) (q := p) h) i

/-- All entries of the table are on the curve, and so is the point from which the next row is made. -/
theorem onCurve_baseTable (i j : Nat) : ((baseTable.getD i #[]).getD j .zero).OnCurve := by
  have hfold : ∀ (places : List Nat) (acc : Array (Array Point) × Point),
      (∀ i j, ((acc.1.getD i #[]).getD j .zero).OnCurve) → acc.2.OnCurve →
      ∀ i j, (((places.foldl (fun (acc : Array (Array Point) × Point) _ =>
        (acc.1.push acc.2.multiples.toArray, acc.2.double.double.double.double)) acc).1.getD i #[]).getD
          j .zero).OnCurve := by
    intro places
    induction places with
    | nil => exact fun acc htable _ => htable
    | cons _ places ih =>
      intro acc htable hpoint
      refine ih _ ?_ ?_
      · intro i j
        have hrows := htable i j
        have hnew := hpoint.getD_multiples j
        simp only [Array.getD_eq_getD_getElem?, Array.getElem?_push] at hrows hnew ⊢
        split
        · exact hnew
        · exact hrows
      · obtain ⟨P, hP⟩ := hpoint
        exact ⟨_, hP.double.double.double.double⟩
  refine hfold (List.range 64) (#[], basePoint) (fun i j => ?_) onCurve_basePoint i j
  simpa using onCurve_zero

theorem onCurve_scaleBase (k : Nat) : (scaleBase k).OnCurve := by
  have hfold : ∀ (places : List Nat) (acc : Point), acc.OnCurve →
      (places.foldl (fun acc i => acc.add
        ((baseTable.getD i #[]).getD ((k >>> (4 * i)) % 16) .zero)) acc).OnCurve := by
    intro places
    induction places with
    | nil => exact fun _ h => h
    | cons i places ih =>
      rintro acc ⟨P, hP⟩
      obtain ⟨Q, hQ⟩ := onCurve_baseTable i ((k >>> (4 * i)) % 16)
      exact ih _ ⟨P + Q, hP.add hQ⟩
  exact hfold _ _ onCurve_zero

theorem onCurve_of_decode? {bs : Bytes} (h : decode? bs = some p) : p.OnCurve := by
  unfold decode? at h
  split at h
  next => cases h
  next =>
    dsimp only at h
    split at h
    next => cases h
    next x hroot =>
      have hlt := sqrtRatio?_lt hroot
      have hroot := cast_sqrtRatio? (subMod_lt _ _).le hroot
      rw [cast_subMod prime_prime.one_lt.le, cast_addMod, cast_mulMod, cast_mulMod] at hroot
      rw [← Option.some.inj h]
      refine onCurve_ofAffine ?_ ?_
      · split
        · exact subMod_lt _ _
        · exact hlt
      · split
        · rw [cast_subMod hlt.le]
          push_cast at hroot ⊢
          linear_combination -hroot
        · push_cast at hroot ⊢
          linear_combination -hroot

end Point

end Adjudication.Ed25519
