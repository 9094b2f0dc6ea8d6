import Canonmark.Editor.Decode
import Canonmark.Proofs.Outcome
import Mathlib.Order.Basic
import Mathlib.Data.String.Basic
import Mathlib.Tactic.SplitIfs

/-! What is known of the nodes that are decoded from a value: marks are in order, every element has
the data of its type, and a text of its own where the type needs one. -/
namespace Canonmark.Editor

/-- The data that elements of a type have. -/
def DataFits (type : String) : Option Data → Prop
  | none => type ∈ plainTypes
  | some (.list ..) => type = "ol_list" ∨ type = "ul_list"
  | some (.link _) => type = "link"
  | some (.clause ..) => type = "clause"
  | some (.templateVariable ..) => type = "variable"
  | some (.computed _) => type = "computed"

/-- A node that decoding can yield. -/
inductive Decoded : Node → Prop
  | text {marks : List String} (text : String) (sorted : marks.Pairwise (· < ·)) :
      Decoded (.text text marks)
  | element {type : String} {data : Option Data} {nodes : List Node} {text : Option String}
      (fits : DataFits type data) (own : type ∈ textTypes → text.isSome)
      (below : ∀ n ∈ nodes, Decoded n) : Decoded (.element type data nodes text)

theorem mem_addMark {mark m : String} {marks : List String} :
    m ∈ addMark mark marks ↔ m = mark ∨ m ∈ marks := by
  induction marks with
  | nil => simp [addMark]
  | cons k ks ih =>
    rw [addMark]
    split_ifs with hk hlt
    · rw [beq_iff_eq] at hk
      simp [hk]
    · simp
    · rw [List.mem_cons, ih, List.mem_cons, or_left_comm]

theorem sorted_addMark {marks : List String} (h : marks.Pairwise (· < ·)) (mark : String) :
    (addMark mark marks).Pairwise (· < ·) := by
  induction marks with
  | nil => simp [addMark]
  | cons k ks ih =>
    obtain ⟨hk, hks⟩ := List.pairwise_cons.mp h
    rw [addMark]
    split_ifs with heq hlt
    · exact h
    · refine List.pairwise_cons.mpr ⟨?_, h⟩
      intro m hm
      cases List.mem_cons.mp hm with
      | inl hm => exact hm ▸ hlt
      | inr hm => exact lt_trans hlt (hk m hm)
    · refine List.pairwise_cons.mpr ⟨?_, ih hks⟩
      intro m hm
      cases mem_addMark.mp hm with
      | inl hm =>
        rw [hm]
        exact lt_of_le_of_ne (not_lt.mp hlt) fun h => heq (by simp [h])
      | inr hm => exact hk m hm

theorem sorted_marksOf {path : String} {v : Option Json} {marks : List String}
    (h : marksOf path v = .ok marks) : marks.Pairwise (· < ·) := by
  unfold marksOf at h
  split at h
  · cases h
    exact .nil
  · cases h
    exact .nil
  · refine foldlM_keeps (P := fun marks => marks.Pairwise (· < ·)) ?_ .nil h
    intro marks v others hmarks hothers
    split at hothers
    · cases hothers
      exact sorted_addMark hmarks _
    · cases hothers
  · cases h

theorem decoded_of_plainText {path : String} {ms : Members} {ns : List Node}
    (h : plainText path ms = .ok ns) : ∀ n ∈ ns, Decoded n := by
  unfold plainText at h
  split at h
  · obtain ⟨marks, hmarks, rfl⟩ := map_eq_ok h
    intro n hn
    rw [List.mem_singleton.mp hn]
    exact .text _ (sorted_marksOf hmarks)
  · cases h

mutual

theorem decoded_of_textOfJson : ∀ {v : Json} {path : String} {ns : List Node},
    textOfJson path v = .ok ns → ∀ n ∈ ns, Decoded n
  | .obj ms, path, ns, h => by
    rw [textOfJson] at h
    split at h
    · rename_i leaves hleaves
      exact decoded_of_leavesIn hleaves h
    · exact decoded_of_plainText h
  | .null, _, _, h | .bool _, _, _, h | .int _, _, _, h | .float _, _, _, h | .str _, _, _, h
  | .arr _, _, _, h => by cases h

theorem decoded_of_leavesIn : ∀ {ms : List (String × Json)} {path : String}
    {leaves : Except Fault (List Node)} {ns : List Node},
    leavesIn path ms = some leaves → leaves = .ok ns → ∀ n ∈ ns, Decoded n
  | [], _, _, _, h, _ => by cases h
  | (name, v) :: ms, path, leaves, ns, h, hok => by
    rw [leavesIn] at h
    split_ifs at h
    · exact decoded_of_leavesOf h hok
    · exact decoded_of_leavesIn h hok

theorem decoded_of_leavesOf : ∀ {v : Json} {path : String} {leaves : Except Fault (List Node)}
    {ns : List Node}, leavesOf path v = some leaves → leaves = .ok ns → ∀ n ∈ ns, Decoded n
  | .arr vs, path, leaves, ns, h, hok => by
    rw [leavesOf, Option.some.injEq] at h
    exact decoded_of_leavesFrom (h.trans hok)
  | .null, _, _, _, h, _ | .bool _, _, _, _, h, _ | .int _, _, _, _, h, _ | .float _, _, _, _, h, _
  | .str _, _, _, _, h, _ | .obj _, _, _, _, h, _ => by cases h

theorem decoded_of_leavesFrom : ∀ {vs : List Json} {path : String} {i : Nat} {ns : List Node},
    leavesFrom path i vs = .ok ns → ∀ n ∈ ns, Decoded n
  | [], _, _, _, h => by
    cases h
    simp
  | v :: vs, path, i, ns, h => by
    rw [leavesFrom] at h
    obtain ⟨leaf, hleaf, hrest⟩ := bind_eq_ok h
    obtain ⟨leaves, hleaves, hns⟩ := bind_eq_ok hrest
    cases hns
    intro n hn
    cases List.mem_append.mp hn with
    | inl hn => exact decoded_of_textOfJson hleaf n hn
    | inr hn => exact decoded_of_leavesFrom hleaves n hn

end

theorem type_known {path : String} {ms : Members} {type : String} (h : typeOf path ms = .ok type) :
    type ∈ plainTypes ∨ type ∈ dataTypes := by
  unfold typeOf at h
  split at h
  · cases h
  · split_ifs at h with hknown
    cases h
    simpa using hknown
  · cases h

/-- Data is read as that of the type. -/
theorem fits_of_dataOf {type path : String} {ms : Members} {data : Option Data}
    (known : type ∈ plainTypes ∨ type ∈ dataTypes) (h : dataOf type path ms = .ok data) :
    DataFits type data := by
  unfold dataOf at h
  split_ifs at h with hlist hlink hclause hvariable hcomputed
  · cases h
    simpa [DataFits] using hlist
  · obtain ⟨href, _, h⟩ := bind_eq_ok h
    cases h
    simpa [DataFits] using hlink
  · obtain ⟨clauseid, _, h⟩ := bind_eq_ok h
    obtain ⟨src, _, h⟩ := bind_eq_ok h
    cases h
    simpa [DataFits] using hclause
  · obtain ⟨id, _, h⟩ := bind_eq_ok h
    obtain ⟨value, _, h⟩ := bind_eq_ok h
    cases h
    simpa [DataFits] using hvariable
  · obtain ⟨value, _, h⟩ := bind_eq_ok h
    cases h
    simpa [DataFits] using hcomputed
  · cases h
    refine known.resolve_right fun hmem => ?_
    simp only [dataTypes, List.mem_cons, List.not_mem_nil, or_false] at hmem
    rcases hmem with rfl | rfl | rfl | rfl | rfl | rfl <;> contradiction

/-- Where the type needs a text, that of the children stands in. -/
theorem isSome_collected {type : String} (nodes : List Node) (h : type ∈ textTypes) :
    (if textTypes.contains type then some (collectText nodes) else none).isSome := by
  rw [if_pos (by simpa using h)]
  rfl

theorem decoded_of_elementOf {type path : String} {data : Option Data} {nodes ns : List Node}
    {text : Option Json} (fits : DataFits type data) (below : ∀ n ∈ nodes, Decoded n)
    (h : elementOf type path data nodes text = .ok ns) : ∀ n ∈ ns, Decoded n := by
  unfold elementOf at h
  split at h
  · cases h
    simpa using Decoded.element fits (fun _ => rfl) below
  · cases h
    simpa using Decoded.element fits (isSome_collected nodes) below
  · cases h
    simpa using Decoded.element fits (isSome_collected nodes) below
  · cases h

mutual

theorem decoded_of_nodeOfJson : ∀ {v : Json} {path : String} {ns : List Node},
    nodeOfJson path v = .ok ns → ∀ n ∈ ns, Decoded n
  | .obj ms, path, ns, h => by
    rw [nodeOfJson] at h
    split_ifs at h
    · exact decoded_of_textOfJson h
    · obtain ⟨type, htype, h⟩ := bind_eq_ok h
      obtain ⟨members, _, h⟩ := bind_eq_ok h
      obtain ⟨data, hdata, h⟩ := bind_eq_ok h
      obtain ⟨nodes, hnodes, h⟩ := bind_eq_ok h
      have fits := fits_of_dataOf (type_known htype) hdata
      exact decoded_of_elementOf fits (decoded_of_nodesIn hnodes) h
  | .null, _, _, h | .bool _, _, _, h | .int _, _, _, h | .float _, _, _, h | .str _, _, _, h
  | .arr _, _, _, h => by cases h

theorem decoded_of_nodesIn : ∀ {ms : List (String × Json)} {path : String} {ns : List Node},
    nodesIn path ms = .ok ns → ∀ n ∈ ns, Decoded n
  | [], _, _, h => by
    cases h
    simp
  | (name, v) :: ms, path, ns, h => by
    rw [nodesIn] at h
    split_ifs at h
    · exact decoded_of_nodesOf h
    · exact decoded_of_nodesIn h

theorem decoded_of_nodesOf : ∀ {v : Json} {path : String} {ns : List Node},
    nodesOf path v = .ok ns → ∀ n ∈ ns, Decoded n
  | .null, _, _, h => by
    cases h
    simp
  | .arr vs, path, ns, h => by
    rw [nodesOf] at h
    exact decoded_of_nodesFrom h
  | .bool _, _, _, h | .int _, _, _, h | .float _, _, _, h | .str _, _, _, h | .obj _, _, _, h => by
    cases h

theorem decoded_of_nodesFrom : ∀ {vs : List Json} {start : String} {i : Nat} {ns : List Node},
    nodesFrom start i vs = .ok ns → ∀ n ∈ ns, Decoded n
  | [], _, _, _, h => by
    cases h
    simp
  | v :: vs, start, i, ns, h => by
    rw [nodesFrom] at h
    obtain ⟨first, hfirst, hrest⟩ := bind_eq_ok h
    obtain ⟨others, hothers, hns⟩ := bind_eq_ok hrest
    cases hns
    intro n hn
    cases List.mem_append.mp hn with
    | inl hn => exact decoded_of_nodeOfJson hfirst n hn
    | inr hn => exact decoded_of_nodesFrom hothers n hn

end

/-- All nodes that a value is decoded to are in order. -/
theorem decoded_of_ofJson {v : Json} {ns : List Node} (h : ofJson v = .ok ns) :
    ∀ n ∈ ns, Decoded n := by
  unfold ofJson at h
  split at h
  · exact decoded_of_nodesFrom h
  · cases h

end Canonmark.Editor
