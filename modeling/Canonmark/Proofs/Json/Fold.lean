import Canonmark.Proofs.Json.Members

/-! Recursion over objects that hold a list of others under one name, and values that differ only in
the order of members. -/
namespace Canonmark

namespace Members

/-- The member of a name, if it is a text. -/
def text? (ms : Members) (name : String) : Option String :=
  match ms.get? name with
  | some (.str s) => some s
  | _ => none

end Members

namespace Json

/-- The items of the list of a name. -/
def itemsAt (key : String) (ms : Members) : List Json :=
  match ms.get? key with
  | some (.arr vs) => vs
  | _ => []

theorem sizeOf_lt_of_mem_itemsAt {key : String} {ms : Members} {v : Json} (h : v ∈ itemsAt key ms) :
    sizeOf v < sizeOf (obj ms) := by
  rw [itemsAt] at h
  split at h
  · rename_i vs hget
    have hitem := List.sizeOf_lt_of_mem h
    have hmember := List.sizeOf_lt_of_mem (Members.mem_of_get? hget)
    simp only [Prod.mk.sizeOf_spec, arr.sizeOf_spec, obj.sizeOf_spec] at hmember ⊢
    omega
  · cases h

/-- Induction over an object and the objects below it. -/
theorem inductionOnItems (key : String) {motive : Json → Prop}
    (obj : ∀ ms, (∀ v ∈ itemsAt key ms, motive v) → motive (.obj ms))
    (other : ∀ v, (∀ ms, v ≠ .obj ms) → motive v) (v : Json) : motive v := by
  cases v with
  | obj ms => exact obj ms fun w hw => inductionOnItems key obj other w
  | _ => exact other _ nofun
termination_by sizeOf v
decreasing_by exact sizeOf_lt_of_mem_itemsAt hw

section Fold

variable {α : Type} (key : String) (f : Members → List α → List α)

mutual

/-- What an object and the objects below it amount to, if `f` tells it from the members of an object
and what the items below it amount to. -/
def fold : Json → List α
  | .obj ms => f ms (foldIn ms)
  | _ => []

def foldIn : List (String × Json) → List α
  | [] => []
  | (name, v) :: ms => if name == key then foldItems v else foldIn ms

def foldItems : Json → List α
  | .arr vs => foldAll vs
  | _ => []

def foldAll : List Json → List α
  | [] => []
  | v :: vs => fold v ++ foldAll vs

end

theorem foldIn_eq (ms : Members) : foldIn key f ms = foldAll key f (itemsAt key ms) := by
  induction ms with
  | nil => rfl
  | cons p ms ih =>
    obtain ⟨name, v⟩ := p
    rw [foldIn, itemsAt, Members.get?_cons]
    by_cases hname : name = key
    · rw [if_pos (by simpa using hname), if_pos hname.symm]
      cases v <;> rfl
    · rw [if_neg (by simpa using hname), if_neg (Ne.symm hname), ih, itemsAt]

theorem foldAll_itemsAt (ms : Members) :
    foldAll key f (itemsAt key ms) = ((ms.get? key).map (foldItems key f)).getD [] := by
  rw [itemsAt]
  cases ms.get? key with
  | none => rfl
  | some v => cases v <;> rfl

theorem foldAll_eq_flatMap (vs : List Json) : foldAll key f vs = vs.flatMap (fold key f) := by
  induction vs with
  | nil => rfl
  | cons v vs ih => rw [foldAll, ih, List.flatMap_cons]

theorem fold_obj (ms : Members) : fold key f (.obj ms) = f ms (foldAll key f (itemsAt key ms)) := by
  rw [fold, foldIn_eq]

end Fold

/-- Values that are equal but for the order of members. -/
inductive Alike : Json → Json → Prop
  | refl (v : Json) : Alike v v
  | arr {vs ws : List Json} (length : vs.length = ws.length)
      (items : ∀ (i : Nat) (v w : Json), vs[i]? = some v → ws[i]? = some w → Alike v w) :
      Alike (.arr vs) (.arr ws)
  | obj {ms ps : Members} (names : ∀ n, (ms.get? n).isSome = (ps.get? n).isSome)
      (values : ∀ n v w, ms.get? n = some v → ps.get? n = some w → Alike v w) :
      Alike (.obj ms) (.obj ps)

theorem get?_cases_of_isSome {ms ps : Members} {n : String}
    (h : (ms.get? n).isSome = (ps.get? n).isSome) :
    (ms.get? n = none ∧ ps.get? n = none) ∨
      ∃ v w, ms.get? n = some v ∧ ps.get? n = some w := by
  cases hv : ms.get? n with
  | none =>
    rw [hv, Option.isSome_none, Eq.comm, Option.isSome_eq_false_iff,
      Option.isNone_iff_eq_none] at h
    exact .inl ⟨rfl, h⟩
  | some v =>
    rw [hv, Option.isSome_some, Eq.comm, Option.isSome_iff_exists] at h
    obtain ⟨w, hw⟩ := h
    exact .inr ⟨v, w, rfl, hw⟩

theorem text?_eq_of_values {ms ps : Members} (names : ∀ n, (ms.get? n).isSome = (ps.get? n).isSome)
    (values : ∀ n v w, ms.get? n = some v → ps.get? n = some w → Alike v w) :
    ms.text? = ps.text? := by
  funext n
  rw [Members.text?, Members.text?]
  obtain ⟨hv, hw⟩ | ⟨v, w, hv, hw⟩ := get?_cases_of_isSome (names n)
  · rw [hv, hw]
  · rw [hv, hw]
    have halike := values n v w hv hw
    cases halike <;> rfl

theorem foldAll_congr {α : Type} (key : String) (f : Members → List α → List α) {vs ws : List Json}
    (length : vs.length = ws.length)
    (items : ∀ (i : Nat) (v w : Json), vs[i]? = some v → ws[i]? = some w →
      fold key f v = fold key f w) : foldAll key f vs = foldAll key f ws := by
  induction vs generalizing ws with
  | nil =>
    cases ws with
    | nil => rfl
    | cons w ws => cases length
  | cons v vs ih =>
    cases ws with
    | nil => cases length
    | cons w ws =>
      have hfirst := items 0 v w rfl rfl
      have hrest : foldAll key f vs = foldAll key f ws :=
        ih (Nat.succ.inj length) fun i u x hu hx => items (i + 1) u x hu hx
      rw [foldAll, foldAll, hfirst, hrest]

/-- What is under one name in objects that are alike amounts to the same. -/
theorem foldAll_itemsAt_congr {α : Type} {key : String} {f : Members → List α → List α}
    {ms ps : Members} (names : ∀ n, (ms.get? n).isSome = (ps.get? n).isSome)
    (items : ∀ v w, ms.get? key = some v → ps.get? key = some w →
      foldItems key f v = foldItems key f w) :
    foldAll key f (itemsAt key ms) = foldAll key f (itemsAt key ps) := by
  rw [foldAll_itemsAt, foldAll_itemsAt]
  obtain ⟨hv, hw⟩ | ⟨v, w, hv, hw⟩ := get?_cases_of_isSome (names key)
  · rw [hv, hw]
  · rw [hv, hw, Option.map_some, Option.map_some, items v w hv hw]

/-- A fold that looks at texts only does not depend on the order of members. -/
theorem fold_eq_of_alike {α : Type} (key : String) (g : (String → Option String) → List α → List α)
    {v w : Json} (h : Alike v w) :
    fold key (fun ms => g ms.text?) v = fold key (fun ms => g ms.text?) w ∧
      foldItems key (fun ms => g ms.text?) v = foldItems key (fun ms => g ms.text?) w := by
  induction h with
  | refl v => exact ⟨rfl, rfl⟩
  | arr length items ih =>
    exact ⟨rfl, foldAll_congr key _ length fun i u x hu hx => (ih i u x hu hx).1⟩
  | @obj ms ps names values ih =>
    have hitems := foldAll_itemsAt_congr names fun v w hv hw => (ih key v w hv hw).2
    refine ⟨?_, rfl⟩
    rw [fold_obj, fold_obj, hitems, text?_eq_of_values names values]

theorem foldAll_itemsAt_of_alike {α : Type} (key : String)
    (g : (String → Option String) → List α → List α) {ms ps : Members}
    (h : Alike (.obj ms) (.obj ps)) :
    foldAll key (fun ms => g ms.text?) (itemsAt key ms) =
      foldAll key (fun ms => g ms.text?) (itemsAt key ps) := by
  cases h with
  | refl => rfl
  | obj names values =>
    exact foldAll_itemsAt_congr names fun v w hv hw =>
      (fold_eq_of_alike key g (values key v w hv hw)).2

end Json
end Canonmark
