import Canonmark.Node.Kind
import Canonmark.Proofs.Text.Lines

/-! Class tags of element names. A name of small words joined by underscores can be read back from
its class tag, where every word starts with a capital. -/
namespace Canonmark.ClassTag

/-- A word of the letters from a to z. -/
def IsWord (w : Chars) : Prop := w ≠ [] ∧ ∀ c ∈ w, c.isLower

/-- A name that is made of small words joined by underscores. -/
def SnakeCase (name : String) : Prop :=
  ∃ (w : Chars) (ws : List Chars), IsWord w ∧ (∀ v ∈ ws, IsWord v) ∧
    name.toList = w ++ ws.flatMap ('_' :: ·)

instance : DecidablePred IsWord :=
  fun w => decidable_of_iff (w ≠ [] ∧ w.all Char.isLower) (by simp [IsWord])

/-- A word with its first letter in upper case. -/
def capital : Chars → Chars
  | [] => []
  | c :: cs => c.toUpper :: cs

/-- It is enough to look at what stands between the underscores of a name. -/
theorem snakeCase_of_splitOn {name : String} (h : ∀ w ∈ name.toList.splitOn '_', IsWord w) :
    SnakeCase name := by
  have hjoin : ['_'].intercalate (name.toList.splitOn '_') = name.toList :=
    List.intercalate_splitOn '_'
  match hs : name.toList.splitOn '_' with
  | [] => exact absurd hs (List.splitOn_ne_nil _ _)
  | w :: ws =>
    rw [hs] at h hjoin
    refine ⟨w, ws, h w (by simp), fun v hv => h v (by simp [hv]), ?_⟩
    rw [← hjoin]
    exact Text.intercalate_cons ['_'] w ws

private theorem between {c : Char} (h : c.isLower) : 'a' ≤ c ∧ c ≤ 'z' := by
  have hc : (decide ('a'.val ≤ c.val) && decide (c.val ≤ 'z'.val)) = true := h
  rw [Bool.and_eq_true, decide_eq_true_iff, decide_eq_true_iff] at hc
  exact hc

private theorem toNat_bounds {c : Char} (h : c.isLower) : 97 ≤ c.toNat ∧ c.toNat ≤ 122 := by
  have hc := between h
  rw [Char.le_def, Char.le_def, UInt32.le_iff_toNat_le, UInt32.le_iff_toNat_le] at hc
  exact hc

private theorem eq_ofNat {c : Char} (h : c.isLower) : ∃ i < 26, c = Char.ofNat (97 + i) := by
  have hb := toNat_bounds h
  refine ⟨c.toNat - 97, by omega, ?_⟩
  rw [Nat.add_sub_cancel' hb.1, Char.ofNat_toNat]

private theorem toUpper_not_isLower {c : Char} (h : c.isLower) : ¬ c.toUpper.isLower := by
  obtain ⟨i, hi, rfl⟩ := eq_ofNat h
  revert i
  decide

private theorem toLower_toUpper {c : Char} (h : c.isLower) : c.toUpper.toLower = c := by
  obtain ⟨i, hi, rfl⟩ := eq_ofNat h
  revert i
  decide

private theorem ne_underscore {c : Char} (h : c.isLower) : c ≠ '_' := by
  rintro rfl
  exact absurd h (by decide)

private theorem joinWords_cons {c : Char} (h : c.isLower) (cs : Chars) :
    joinWords (c :: cs) = c :: joinWords cs := by
  cases cs with
  | nil => rfl
  | cons d cs => rw [joinWords, if_neg (by simp [ne_underscore h])]

private theorem joinWords_underscore {c : Char} (h : c.isLower) (cs : Chars) :
    joinWords ('_' :: c :: cs) = c.toUpper :: joinWords cs := by
  rw [joinWords, if_pos (by simpa using between h)]

private theorem joinWords_append {w : Chars} (hw : ∀ c ∈ w, c.isLower) (cs : Chars) :
    joinWords (w ++ cs) = w ++ joinWords cs := by
  induction w with
  | nil => rfl
  | cons c w ih =>
    rw [List.cons_append, joinWords_cons (hw c (by simp)),
      ih fun d hd => hw d (List.mem_cons_of_mem _ hd), List.cons_append]

/-- Words after the first start with a capital in place of the underscore. -/
private theorem joinWords_flatMap {ws : List Chars} (hws : ∀ v ∈ ws, IsWord v) :
    joinWords (ws.flatMap ('_' :: ·)) = ws.flatMap capital := by
  induction ws with
  | nil => rfl
  | cons v ws ih =>
    obtain ⟨hne, hv⟩ := hws v (by simp)
    cases v with
    | nil => exact absurd rfl hne
    | cons c cs =>
      rw [List.flatMap_cons, List.cons_append,
        List.cons_append, joinWords_underscore (hv c (by simp)),
        joinWords_append fun d hd => hv d (List.mem_cons_of_mem _ hd),
        ih fun u hu => hws u (List.mem_cons_of_mem _ hu)]
      rfl

/-- The class tag of a name is the words of the name, each with a capital. -/
theorem ofElement_eq {name : String} {w : Chars} {ws : List Chars} (hw : IsWord w)
    (hws : ∀ v ∈ ws, IsWord v) (hname : name.toList = w ++ ws.flatMap ('_' :: ·)) :
    ofElement name = commonStart ++ String.ofList ((w :: ws).flatMap capital) := by
  rw [ofElement, hname, joinWords_append hw.2, joinWords_flatMap hws]
  cases w with
  | nil => exact absurd rfl hw.1
  | cons c cs =>
    have hc : c.toNat < 128 := by have := toNat_bounds (hw.2 c (by simp)); omega
    simp [capitalize, capital, Text.upper, hc]

private theorem flatMap_capital_span {w : Chars} {ws : List Chars} (hw : ∀ c ∈ w, c.isLower)
    (hws : ∀ v ∈ ws, IsWord v) :
    (w ++ ws.flatMap capital).takeWhile (·.isLower) = w ∧
      (w ++ ws.flatMap capital).dropWhile (·.isLower) = ws.flatMap capital := by
  rw [List.takeWhile_append_of_pos hw, List.dropWhile_append_of_pos hw]
  cases ws with
  | nil => simp
  | cons v ws =>
    obtain ⟨hne, hv⟩ := hws v (by simp)
    cases v with
    | nil => exact absurd rfl hne
    | cons c cs =>
      have hc := toUpper_not_isLower (hv c (by simp))
      simp [List.flatMap_cons, capital, hc]

/-- Where a word starts shows in the capitals. -/
theorem flatMap_capital_inj {ws us : List Chars} (hws : ∀ v ∈ ws, IsWord v)
    (hus : ∀ v ∈ us, IsWord v) (h : ws.flatMap capital = us.flatMap capital) : ws = us := by
  induction ws generalizing us with
  | nil =>
    cases us with
    | nil => rfl
    | cons u us =>
      cases u with
      | nil => exact absurd rfl (hus [] (by simp)).1
      | cons d ds => simp [capital] at h
  | cons w ws ih =>
    obtain ⟨hne, hw⟩ := hws w (by simp)
    cases w with
    | nil => exact absurd rfl hne
    | cons c cs =>
      cases us with
      | nil => simp [capital] at h
      | cons u us =>
        obtain ⟨hune, hu⟩ := hus u (by simp)
        cases u with
        | nil => exact absurd rfl hune
        | cons d ds =>
          have hws' : ∀ v ∈ ws, IsWord v := fun v hv => hws v (List.mem_cons_of_mem _ hv)
          have hus' : ∀ v ∈ us, IsWord v := fun v hv => hus v (List.mem_cons_of_mem _ hv)
          have hcs := flatMap_capital_span (fun e he => hw e (List.mem_cons_of_mem _ he)) hws'
          have hds := flatMap_capital_span (fun e he => hu e (List.mem_cons_of_mem _ he)) hus'
          simp only [List.flatMap_cons, capital, List.cons_append, List.cons.injEq] at h
          have hcd : c = d := by
            rw [← toLower_toUpper (hw c (by simp)), h.1, toLower_toUpper (hu d (by simp))]
          rw [h.2, hds.1, hds.2] at hcs
          rw [hcd, ← hcs.1, ih hws' hus' hcs.2.symm]

/-- Different names have different class tags. -/
theorem ofElement_injOn {m n : String} (hm : SnakeCase m) (hn : SnakeCase n)
    (h : ofElement m = ofElement n) : m = n := by
  obtain ⟨w, ws, hw, hws, hwm⟩ := hm
  obtain ⟨u, us, hu, hus, hun⟩ := hn
  rw [ofElement_eq hw hws hwm, ofElement_eq hu hus hun, String.append_right_inj,
    String.ofList_inj] at h
  have hall : w :: ws = u :: us :=
    flatMap_capital_inj (by simpa using ⟨hw, hws⟩) (by simpa using ⟨hu, hus⟩) h
  obtain ⟨rfl, rfl⟩ := List.cons.inj hall
  rw [← String.toList_inj, hwm, hun]

/-- The words of a name stand between its underscores. -/
theorem splitOn_of_words {w : Chars} {ws : List Chars} (hw : IsWord w) (hws : ∀ v ∈ ws, IsWord v) :
    (w ++ ws.flatMap ('_' :: ·)).splitOn '_' = w :: ws := by
  have apart : ∀ v ∈ w :: ws, '_' ∉ v := by
    intro v hv hmem
    have hword : IsWord v := by
      obtain rfl | hv := List.mem_cons.mp hv
      · exact hw
      · exact hws v hv
    exact ne_underscore (hword.2 '_' hmem) rfl
  have hjoin : ['_'].intercalate (w :: ws) = w ++ ws.flatMap ('_' :: ·) :=
    Text.intercalate_cons ['_'] w ws
  rw [← hjoin, List.splitOn_intercalate '_' apart (List.cons_ne_nil w ws)]

private theorem ne_point_of_mem_capital {w : Chars} (hw : IsWord w) {c : Char}
    (hc : c ∈ capital w) : c ≠ '.' := by
  rintro rfl
  cases w with
  | nil => cases hc
  | cons d ds =>
    obtain hd | hds := List.mem_cons.mp hc
    · have hlower := toLower_toUpper (hw.2 d (by simp))
      rw [← hd] at hlower
      exact absurd (hw.2 d (by simp)) (by rw [← hlower]; decide)
    · exact absurd (hw.2 '.' (by simp [hds])) (by decide)

/-- What follows the last point of the class tag of a name is its words, each with a capital. -/
theorem shortName_ofElement {name : String} (h : SnakeCase name) :
    shortName (ofElement name) = String.ofList ((name.toList.splitOn '_').flatMap capital) := by
  obtain ⟨w, ws, hw, hws, hname⟩ := h
  have hall : ∀ v ∈ w :: ws, IsWord v := by simpa using ⟨hw, hws⟩
  have hletters : ∀ c ∈ (w :: ws).flatMap capital, c != '.' := by
    intro c hc
    obtain ⟨v, hv, hc⟩ := List.mem_flatMap.mp hc
    exact bne_iff_ne.mpr (ne_point_of_mem_capital (hall v hv) hc)
  have hstart : commonStart.toList = "org.accordproject.commonmark".toList ++ ['.'] := by decide
  rw [ofElement_eq hw hws hname, shortName, String.toList_append,
    String.toList_ofList, hstart, List.append_assoc, List.singleton_append,
    (Text.takeEndWhile_of_forall (by decide) _ hletters).1, hname, splitOn_of_words hw hws]

end Canonmark.ClassTag
