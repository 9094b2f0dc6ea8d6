import Canonmark.Proofs.Json.Fold

/-! Members that are left out or given another value, and the revision of all objects that hang
together by lists of one name. -/
namespace Canonmark

namespace Members

variable {ms : Members} {m n : String}

theorem erase_cons (k : String) (w : Json) (ms : Members) (n : String) :
    Members.erase ((k, w) :: ms) n = if k = n then ms.erase n else (k, w) :: ms.erase n := by
  by_cases hk : k = n <;> simp [Members.erase, hk]

theorem get?_erase_ne (h : m ≠ n) (ms : Members) : get? (ms.erase n) m = get? ms m := by
  induction ms with
  | nil => rfl
  | cons p ms ih =>
    obtain ⟨k, w⟩ := p
    rw [erase_cons]
    by_cases hk : k = n
    · rw [if_pos hk, ih, get?_cons_ne (hk ▸ h)]
    · rw [if_neg hk, get?_cons, get?_cons, ih]

theorem erase_of_not_mem (h : n ∉ names ms) : ms.erase n = ms := by
  rw [Members.erase, List.filter_eq_self]
  intro p hp
  have hne : p.1 ≠ n := fun heq => h (heq ▸ List.mem_map_of_mem hp)
  simpa using hne

theorem erase_set_self (ms : Members) (n : String) (v : Json) :
    (ms.set n v).erase n = ms.erase n := by
  induction ms with
  | nil => simp [set, Members.erase]
  | cons p ms ih =>
    obtain ⟨k, w⟩ := p
    by_cases hk : k = n
    · simp [set, erase_cons, hk]
    · simp [set, erase_cons, hk, ih]

theorem erase_set_ne (h : m ≠ n) (ms : Members) (v : Json) :
    (ms.set m v).erase n = (ms.erase n).set m v := by
  induction ms with
  | nil => simp [set, Members.erase, h]
  | cons p ms ih =>
    obtain ⟨k, w⟩ := p
    by_cases hm : k = m
    · simp [set, erase_cons, hm, h]
    · by_cases hn : k = n
      · simp [set, erase_cons, hn, Ne.symm h, ih]
      · simp [set, erase_cons, hm, hn, ih]

theorem set_set_self (ms : Members) (n : String) (v w : Json) :
    (ms.set n v).set n w = ms.set n w := by
  induction ms with
  | nil => simp [set]
  | cons p ms ih =>
    obtain ⟨k, u⟩ := p
    by_cases hk : k = n
    · simp [set, hk]
    · simp [set, hk, ih]

/-- A member that is there already is given its value before or after another. -/
theorem set_comm (h : m ≠ n) (here : n ∈ names ms) (v w : Json) :
    (ms.set m v).set n w = (ms.set n w).set m v := by
  induction ms with
  | nil => simp at here
  | cons p ms ih =>
    obtain ⟨k, u⟩ := p
    by_cases hm : k = m
    · subst hm
      simp [set, h]
    · by_cases hn : k = n
      · subst hn
        simp [set, hm]
      · have hrest : n ∈ names ms := by simpa [Ne.symm hn] using here
        simp [set, hm, hn, ih hrest]

theorem mem_names_foldl_set {others : Members} :
    m ∈ names (others.foldl (fun ms (n, v) => set ms n v) ms) ↔
    m ∈ names ms ∨ m ∈ names others := by
  induction others generalizing ms with
  | nil => simp
  | cons p others ih =>
    obtain ⟨k, w⟩ := p
    rw [List.foldl_cons, ih, mem_names_set, names_cons, List.mem_cons, or_assoc]

theorem get?_foldl_set_of_not_mem {others : Members} (h : n ∉ names others) :
    get? (others.foldl (fun ms (n, v) => set ms n v) ms) n = get? ms n := by
  induction others generalizing ms with
  | nil => rfl
  | cons p others ih =>
    obtain ⟨k, w⟩ := p
    rw [names_cons, List.mem_cons, not_or] at h
    rw [List.foldl_cons, ih h.2, get?_set_ne h.1]

theorem get?_foldl_set_of_forall {others : Members} {v : Json}
    (same : ∀ w, (n, w) ∈ others → w = v) (here : get? ms n = some v) :
    get? (others.foldl (fun ms (n, v) => set ms n v) ms) n = some v := by
  induction others generalizing ms with
  | nil => exact here
  | cons p others ih =>
    obtain ⟨k, w⟩ := p
    rw [List.foldl_cons]
    refine ih (fun u hu => same u (List.mem_cons_of_mem _ hu)) ?_
    by_cases hk : k = n
    · subst hk
      rw [get?_set_self, same w List.mem_cons_self]
    · rw [get?_set_ne (Ne.symm hk), here]

end Members

namespace Json

variable (key : String) (g : Members → Members)

mutual

/-- An object with its members revised by `g`, and the items of its list of a name before them. -/
def revise : Json → Json
  | .obj ms => .obj (g (reviseIn ms))
  | v => v

def reviseIn : List (String × Json) → List (String × Json)
  | [] => []
  | (name, v) :: ms => if name == key then (name, reviseItems v) :: ms else (name, v) :: reviseIn ms

def reviseItems : Json → Json
  | .arr vs => .arr (reviseAll vs)
  | v => v

def reviseAll : List Json → List Json
  | [] => []
  | v :: vs => revise v :: reviseAll vs

end

theorem reviseIn_of_not_mem {ms : Members} (h : key ∉ ms.names) : reviseIn key g ms = ms := by
  induction ms with
  | nil => rfl
  | cons p ms ih =>
    obtain ⟨name, v⟩ := p
    rw [Members.names_cons, List.mem_cons, not_or] at h
    rw [reviseIn, if_neg (by simpa using Ne.symm h.1), ih h.2]

/-- The items of a list are revised as the list is set. -/
theorem reviseIn_set (ms : Members) (v : Json) :
    reviseIn key g (ms.set key v) = ms.set key (reviseItems key g v) := by
  induction ms with
  | nil => simp [Members.set, reviseIn]
  | cons p ms ih =>
    obtain ⟨name, w⟩ := p
    by_cases hname : name = key
    · simp [Members.set, reviseIn, hname]
    · simp [Members.set, reviseIn, hname, ih]

theorem reviseAll_concat (vs : List Json) (v : Json) :
    reviseAll key g (vs ++ [v]) = reviseAll key g vs ++ [revise key g v] := by
  induction vs with
  | nil => rfl
  | cons w vs ih => rw [List.cons_append, reviseAll, ih, reviseAll, List.cons_append]

end Json
end Canonmark
