import Canonmark.Options
import Canonmark.Proofs.Outcome

/-! Options that have passed their check, and the style that they give. -/
namespace Canonmark.Options

variable {c : OptionClass} {o o' : Options} {base : Option Options} {given : Members}

/-- What a check lets pass: one of the three bullets, and no fence of less than three backticks. -/
structure Sound (o : Options) : Prop where
  bullet : ∀ v, o.values.get? "bullet_symbol" = some v → v.isText "-" ∨ v.isText "*" ∨ v.isText "+"
  fence : ∀ i, o.values.get? "code_fence_min" = some (.int i) → 3 ≤ i

theorem check_eq_ok (h : o.check = .ok o') : o' = o ∧ o.Sound := by
  simp only [check, bind, Except.bind] at h
  have hsame : o' = o := by
    repeat' split at h
    all_goals first | exact (Except.ok.inj h).symm | cases h
  refine ⟨hsame, fun v hv => ?_, fun i hi => Int.not_lt.mp fun hlow => ?_⟩
  · simp only [hv] at h
    split at h
    · rename_i htext
      simpa [or_assoc] using htext
    · cases h
  · simp only [hi, hlow, if_true] at h
    split at h
    · cases h
    · split at h <;> cases h

theorem sound_of_construct (h : construct c given = .ok o) : o.Sound := by
  unfold construct at h
  split at h
  · cases h
  · obtain ⟨rfl, hsound⟩ := check_eq_ok h
    exact hsound

theorem sound_of_update (h : o.update given = .ok o') : o'.Sound := by
  unfold update at h
  split at h
  · cases h
  · obtain ⟨rfl, hsound⟩ := check_eq_ok h
    exact hsound

/-- What is given for the fields of a class. -/
def known (c : OptionClass) (given : Members) : Members :=
  given.filter fun (n, _) => c.fieldNames.contains n

/-- All that overrides can lead to: new options, the options that are there, or a copy of them. -/
theorem merge_cases (h : merge c base given = .ok o) :
    construct c (known c given) = .ok o ∨
      base = some o ∨ ∃ b ∈ base, b.update (known c given) = .ok o := by
  unfold merge at h
  dsimp only at h
  split at h
  · cases h
  · split at h
    · exact .inl h
    · split at h
      · cases h
        exact .inr (.inl rfl)
      · split at h
        · cases h
          exact .inr (.inl rfl)
        · exact .inr (.inr ⟨_, rfl, h⟩)

/-- Overrides keep options sound. -/
theorem sound_of_merge (hbase : ∀ o ∈ base, o.Sound)
    (h : merge c base given = .ok o) : o.Sound := by
  obtain h | rfl | ⟨b, -, h⟩ := merge_cases h
  · exact sound_of_construct h
  · exact hbase o rfl
  · exact sound_of_update h

theorem check_of_construct (h : construct c given = .ok o) : o.check = .ok o := by
  unfold construct at h
  split at h
  · cases h
  · obtain ⟨rfl, -⟩ := check_eq_ok h
    exact h

theorem check_of_update (h : o.update given = .ok o') : o'.check = .ok o' := by
  unfold update at h
  split at h
  · cases h
  · obtain ⟨rfl, -⟩ := check_eq_ok h
    exact h

/-- Options pass their check again after overrides. -/
theorem check_of_merge (hbase : ∀ o ∈ base, o.check = .ok o) (h : merge c base given = .ok o) :
    o.check = .ok o := by
  obtain h | rfl | ⟨b, -, h⟩ := merge_cases h
  · exact check_of_construct h
  · exact hbase o rfl
  · exact check_of_update h

/-- A sound style has one of the three bullets. -/
theorem Sound.style_bullet (h : o.Sound) : o.style.bullet ∈ ['-', '*', '+'] := by
  unfold style
  dsimp only
  split
  · rename_i s hs
    have htext : ∀ {t : String}, (Json.str s).isText t → s = t := fun h => beq_iff_eq.mp h
    obtain h | h | h := h.bullet _ hs <;> rw [htext h] <;> decide
  · decide

/-- A sound style has fences of three backticks or more. -/
theorem Sound.style_fenceMin (h : o.Sound) {k : Nat}
    (hk : o.style.fenceMin = .whole k) : 3 ≤ k := by
  unfold style at hk
  dsimp only at hk
  split at hk
  · rename_i i hi
    cases hk
    have hlow := h.fence i hi
    omega
  · cases hk
  · cases hk
    exact Nat.le_refl 3

theorem lessThanInt_of_check (h : o.check = .ok o) {x : Binary64}
    (hx : o.values.get? "code_fence_min" = some (.float x)) : x.lessThanInt 3 = false := by
  simp only [check, bind, Except.bind, hx] at h
  cases hlow : x.lessThanInt 3 with
  | false => rfl
  | true =>
    rw [hlow] at h
    split at h
    · cases h
    · split at h <;> cases h

/-- A number between two whole ones keeps them apart. -/
theorem lt_of_lessThanInt {x : Binary64} {i j : Int} (hi : x.lessThanInt i = false)
    (hj : x.lessThanInt j) : i < j := by
  cases x with
  | notANumber => cases hj
  | infinite negative =>
    rw [Binary64.lessThanInt] at hi hj
    rw [hi] at hj
    cases hj
  | finite negative m e =>
    simp only [Binary64.lessThanInt, Binary64.lessScaled, decide_eq_false_iff_not,
      decide_eq_true_eq, Int.not_lt] at hi hj
    exact Int.lt_of_mul_lt_mul_right (Int.lt_of_le_of_lt hi hj) (Int.natCast_nonneg _)

/-- The fences of checked options are three backticks long or longer. -/
theorem three_le_fence (h : o.check = .ok o) {m n : Nat}
    (hn : o.style.fenceMin.lengthFor? m = some n) : 3 ≤ n := by
  cases hmin : o.style.fenceMin with
  | whole k =>
    have hlong := (check_eq_ok h).2.style_fenceMin hmin
    rw [hmin] at hn
    obtain rfl := Option.some.inj hn
    exact Nat.le_trans hlong (Nat.le_max_left k m)
  | float x =>
    have hvalue : o.values.get? "code_fence_min" = some (.float x) := by
      unfold style at hmin
      dsimp only at hmin
      split at hmin
      · cases hmin
      · cases hmin
        assumption
      · cases hmin
    rw [hmin] at hn
    obtain ⟨hless, heq⟩ := Option.ite_none_right_eq_some.mp hn
    have hlt := lt_of_lessThanInt (lessThanInt_of_check h hvalue) hless
    obtain rfl := Option.some.inj heq
    omega

end Canonmark.Options
