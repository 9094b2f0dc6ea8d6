import Canonmark.Json.Value

/-! What looking up and setting do to the members of an object. A name that is new is set at the
end; a name that is there keeps its place. -/
namespace Canonmark.Members

variable {ms : Members} {m n : String}

@[simp] theorem get?_nil (n : String) : get? [] n = none := rfl

theorem get?_cons (n m : String) (v : Json) (ms : Members) :
    get? ((n, v) :: ms) m = if m = n then some v else get? ms m := by
  unfold get?
  rw [List.lookup_cons]
  by_cases h : m = n
  · simp [h]
  · rw [beq_eq_false_iff_ne.mpr h, if_neg h]

@[simp] theorem get?_cons_self (n : String) (v : Json) (ms : Members) :
    get? ((n, v) :: ms) n = some v := by
  rw [get?_cons, if_pos rfl]

theorem get?_cons_ne (h : m ≠ n) (v : Json) (ms : Members) :
    get? ((n, v) :: ms) m = get? ms m := by
  rw [get?_cons, if_neg h]

theorem get?_append (ms others : Members) (n : String) :
    get? (ms ++ others) n = (get? ms n).or (get? others n) :=
  List.lookup_append

@[simp] theorem names_nil : names [] = [] := rfl

@[simp] theorem names_cons (n : String) (v : Json) (ms : Members) :
    names ((n, v) :: ms) = n :: names ms := rfl

@[simp] theorem names_append (ms others : Members) :
    names (ms ++ others) = names ms ++ names others :=
  List.map_append

theorem get?_eq_none_iff : get? ms n = none ↔ n ∉ names ms := by
  induction ms with
  | nil => simp
  | cons p ms ih =>
    obtain ⟨k, w⟩ := p
    rw [get?_cons, names_cons]
    by_cases h : n = k <;> simp [h, ih]

theorem mem_of_get? {v : Json} (h : get? ms n = some v) : (n, v) ∈ ms := by
  induction ms with
  | nil => cases h
  | cons p ms ih =>
    obtain ⟨k, w⟩ := p
    rw [get?_cons] at h
    by_cases hn : n = k
    · rw [if_pos hn, Option.some.injEq] at h
      simp [hn, h]
    · rw [if_neg hn] at h
      exact List.mem_cons_of_mem _ (ih h)

theorem get?_of_mem {v : Json} (once : (names ms).Nodup) (h : (n, v) ∈ ms) :
    get? ms n = some v := by
  induction ms with
  | nil => cases h
  | cons p ms ih =>
    obtain ⟨k, w⟩ := p
    rw [names_cons, List.nodup_cons] at once
    cases List.mem_cons.mp h with
    | inl heq => rw [(Prod.mk.inj heq).1, (Prod.mk.inj heq).2, get?_cons_self]
    | inr hmem =>
      have hn : n ≠ k := fun heq => once.1 (heq ▸ List.mem_map_of_mem hmem)
      rw [get?_cons_ne hn, ih once.2 hmem]

/-- Members with different names can be looked up in any order. -/
theorem get?_perm {others : Members} (once : (names ms).Nodup) (perm : others.Perm ms)
    (n : String) : get? others n = get? ms n := by
  have hnames : (names others).Perm (names ms) := perm.map Prod.fst
  cases h : get? others n with
  | none =>
    rw [get?_eq_none_iff] at h
    exact (get?_eq_none_iff.mpr fun hmem => h (hnames.symm.subset hmem)).symm
  | some v => rw [get?_of_mem once (perm.subset (mem_of_get? h))]

theorem get?_of_given? {v : Json} (h : ms.given? n = some v) : ms.get? n = some v := by
  unfold given? at h
  split at h
  · cases h
  · cases h
  · rw [← h]
    assumption

theorem given?_of_get? {v : Json} (h : ms.get? n = some v) (hv : v ≠ .null) :
    ms.given? n = some v := by
  cases v with
  | null => exact absurd rfl hv
  | _ => rw [given?, h]

theorem given?_congr {others : Members} (h : ms.get? n = others.get? n) :
    ms.given? n = others.given? n := by
  rw [given?, given?, h]

theorem get?_isSome_iff : (get? ms n).isSome ↔ n ∈ names ms := by
  rw [Option.isSome_iff_ne_none, ne_eq, get?_eq_none_iff, Decidable.not_not]

@[simp] theorem get?_set_self (ms : Members) (n : String) (v : Json) :
    get? (ms.set n v) n = some v := by
  induction ms with
  | nil => rw [set, get?_cons_self]
  | cons p ms ih =>
    obtain ⟨k, w⟩ := p
    by_cases h : k = n
    · rw [set, if_pos (by simpa using h), h, get?_cons_self]
    · rw [set, if_neg (by simpa using h), get?_cons_ne (Ne.symm h), ih]

theorem get?_set_ne (h : m ≠ n) (ms : Members) (v : Json) : get? (ms.set n v) m = get? ms m := by
  induction ms with
  | nil => rw [set, get?_cons_ne h]
  | cons p ms ih =>
    obtain ⟨k, w⟩ := p
    by_cases hk : k = n
    · rw [set, if_pos (by simpa using hk), hk, get?_cons_ne h, get?_cons_ne h]
    · rw [set, if_neg (by simpa using hk), get?_cons, get?_cons, ih]

theorem mem_names_set {v : Json} : m ∈ names (ms.set n v) ↔ m ∈ names ms ∨ m = n := by
  rw [← get?_isSome_iff, ← get?_isSome_iff]
  by_cases h : m = n
  · simp [h]
  · simp [get?_set_ne h, h]

theorem set_of_not_mem (h : n ∉ names ms) (v : Json) : ms.set n v = ms ++ [(n, v)] := by
  induction ms with
  | nil => rfl
  | cons p ms ih =>
    rw [names_cons, List.mem_cons, not_or] at h
    rw [set, if_neg (by simpa using Ne.symm h.1), ih h.2, List.cons_append]

theorem set_append_of_not_mem (h : n ∉ names ms) (v w : Json) (others : Members) :
    set (ms ++ (n, w) :: others) n v = ms ++ (n, v) :: others := by
  induction ms with
  | nil => rw [List.nil_append, set, if_pos (beq_self_eq_true n), List.nil_append]
  | cons p ms ih =>
    rw [names_cons, List.mem_cons, not_or] at h
    rw [List.cons_append, set, if_neg (by simpa using Ne.symm h.1), ih h.2, List.cons_append]

/-- Members with new names, each of which occurs once, are appended as they are. -/
theorem foldl_set_of_disjoint {others : Members} (once : (names others).Nodup)
    (new : ∀ n ∈ names others, n ∉ names ms) :
    others.foldl (fun ms (n, v) => set ms n v) ms = ms ++ others := by
  induction others generalizing ms with
  | nil => simp
  | cons p others ih =>
    obtain ⟨k, w⟩ := p
    rw [names_cons, List.nodup_cons] at once
    have hk : k ∉ names ms := new k (List.mem_cons_self ..)
    have hnew : ∀ n ∈ names others, n ∉ names (ms ++ [(k, w)]) := by
      intro n hn
      have hnk : n ≠ k := fun h => once.1 (h ▸ hn)
      simp [hnk, new n (List.mem_cons_of_mem _ hn)]
    rw [List.foldl_cons]
    dsimp only
    rw [set_of_not_mem hk, ih once.2 hnew, List.append_assoc, List.singleton_append]

end Canonmark.Members
