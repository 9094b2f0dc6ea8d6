import Mathlib.Data.List.Forall2

/-! Lists whose members are related one by one. -/
namespace Canonmark

variable {α β : Type} {R : α → β → Prop} {as : List α} {bs : List β}

theorem exists_forall₂ (h : ∀ a ∈ as, ∃ b, R a b) :
    ∃ bs, List.Forall₂ R as bs := by
  induction as with
  | nil => exact ⟨[], .nil⟩
  | cons a as ih =>
    obtain ⟨hfirst, hrest⟩ := List.forall_mem_cons.mp h
    obtain ⟨b, hb⟩ := hfirst
    obtain ⟨bs, hbs⟩ := ih hrest
    exact ⟨b :: bs, .cons hb hbs⟩

theorem forall_left_of_forall₂ {P : α → Prop} (h : List.Forall₂ R as bs) (hP : ∀ a b, R a b → P a) :
    ∀ a ∈ as, P a := by
  induction h with
  | nil => simp
  | cons hab _ ih => exact List.forall_mem_cons.mpr ⟨hP _ _ hab, ih⟩

theorem forall_right_of_forall₂ {P : β → Prop} (h : List.Forall₂ R as bs)
    (hP : ∀ a b, R a b → P b) : ∀ b ∈ bs, P b := by
  induction h with
  | nil => simp
  | cons hab _ ih => exact List.forall_mem_cons.mpr ⟨hP _ _ hab, ih⟩

theorem forall₂_concat {b : β} (h : List.Forall₂ R as (bs ++ [b])) :
    ∃ init a, as = init ++ [a] ∧ List.Forall₂ R init bs ∧ R a b := by
  obtain ⟨a, rest, hab, hrest, hdrop⟩ :=
    List.forall₂_cons_right_iff.mp (List.forall₂_drop_append _ _ _ h)
  obtain rfl := List.forall₂_nil_right_iff.mp hrest
  exact ⟨_, a, by rw [← hdrop, List.take_append_drop], List.forall₂_take_append _ _ _ h, hab⟩

end Canonmark
