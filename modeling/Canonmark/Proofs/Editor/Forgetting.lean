import Canonmark.Proofs.Editor.Conversion
import Mathlib.Data.List.Sort

/-! What the canonical form of editor nodes forgets. All that it does not forget can be read back
from the tree, so that two lists of nodes have the same tree only if they are the same after
forgetting. -/
namespace Canonmark.Editor

open Schema (classKey childrenKey)

/-- Types of elements that become leaves. -/
def leafTypes : List String := ["horizontal_rule", "code_block", "html_block", "html_inline"]

/-- Marks that count: code alone, or else bold and italic. -/
def normalMarks (marks : List String) : List String :=
  if "code" ∈ marks then ["code"] else marks.filter fun m => m = "bold" ∨ m = "italic"

/-- There are two names for quotes. -/
def normalType (type : String) : String := if type = "quote" then "block_quote" else type

/-- Only elements of the types `own` keep a text of their own. -/
def normalText (own : List String) (type : String) (text : Option String) : Option String :=
  if type ∈ own then text else none

mutual

/-- A node after forgetting all that does not count, where elements of the types `own` have a text
of their own. -/
def normal (own : List String) : Node → Node
  | .text text marks => .text text (normalMarks marks)
  | .element type data nodes text =>
    .element (normalType type) data (if type ∈ leafTypes then [] else normalAll own nodes)
      (normalText own type text)

def normalAll (own : List String) : List Node → List Node
  | [] => []
  | n :: ns => normal own n :: normalAll own ns

end

/-- A text with one more mark. -/
def marked (mark : String) : List Node → Node
  | [.text text marks] => .text text (marks ++ [mark])
  | _ => default

/-- The nodes in the paragraph of an item. -/
def itemNodes : List Node → List Node
  | [.element _ _ nodes _] => nodes
  | _ => []

def headingType (level : String) : String :=
  ((headingLevels.find? fun (_, l) => l.text == level).map Prod.fst).getD ""

/-- The node that a node of a tree comes from, told by its texts and by what its children come
from. -/
def nodeOf (text : String → Option String) (below : List Node) : Node :=
  let get (name : String) : String := (text name).getD ""
  match Kind.ofClassTag? (get classKey) with
  | some .text => .text (get "text") []
  | some .code => .text (get "text") ["code"]
  | some .strong => marked "bold" below
  | some .emph => marked "italic" below
  | some .heading => .element (headingType (get "level")) none below none
  | some .paragraph => .element "paragraph" none below none
  | some .blockQuote => .element "block_quote" none below none
  | some .item => .element "list_item" none (itemNodes below) none
  | some .thematicBreak => .element "horizontal_rule" none [] none
  | some .codeBlock => .element "code_block" none [] (some (get "text"))
  | some .htmlBlock => .element "html_block" none [] (some (get "text"))
  | some .htmlInline => .element "html_inline" none [] (some (get "text"))
  | some .list =>
    .element (if get "type" = "ordered" then "ol_list" else "ul_list")
      (some (.list (text "delimiter") (text "start") (text "tight"))) below none
  | some .link => .element "link" (some (.link (get "destination"))) below none
  | some .clause =>
    .element "clause" (some (.clause (get "clauseid") (get "src") (text "clauseText"))) below none
  | some .templateVariable =>
    .element "variable" (some (.templateVariable (get "id") (get "value"))) below none
  | some .computedVariable => .element "computed" (some (.computed (get "value"))) below none
  | _ => default

/-- The nodes that trees come from, as far as they show it. -/
def readBack (ts : List Json) : List Node :=
  Json.foldAll childrenKey (fun ms below => [nodeOf ms.text? below]) ts

variable {ms : Members} {vs : List Json}

theorem readBack_cons (t : Json) (ts : List Json) :
    readBack (t :: ts) = readBack [t] ++ readBack ts := by
  rw [readBack, readBack, readBack, Json.foldAll, Json.foldAll, Json.foldAll, List.append_nil]

theorem text?_append (childless : childrenKey ∉ ms.names) (vs : List Json) :
    Members.text? (ms ++ [(childrenKey, .arr vs)]) = ms.text? := by
  funext n
  rw [Members.text?, Members.text?, Members.get?_append]
  by_cases hn : n = childrenKey
  · rw [hn, Members.get?_eq_none_iff.mpr childless, Option.none_or, Members.get?_cons_self]
  · rw [Members.get?_cons_ne hn, Members.get?_nil, Option.or_none]

theorem readBack_obj (ms : Members) :
    readBack [.obj ms] = [nodeOf ms.text? (readBack (Json.itemsAt childrenKey ms))] := by
  rw [readBack, Json.foldAll, Json.fold_obj]
  rfl

theorem readBack_withNodes (childless : childrenKey ∉ ms.names) (vs : List Json) :
    readBack [withNodes ms vs] = [nodeOf ms.text? (readBack vs)] := by
  have hitems : Json.itemsAt childrenKey (ms ++ [(childrenKey, .arr vs)]) = vs :=
    Schema.childValues_withChildren childless vs
  rw [withNodes, readBack_obj, hitems, text?_append childless]

theorem readBack_leaf (childless : childrenKey ∉ ms.names) :
    readBack [.obj ms] = [nodeOf ms.text? []] := by
  rw [readBack_obj, Json.itemsAt, Members.get?_eq_none_iff.mpr childless]
  rfl

private theorem mem_ite_singleton {m mark : String} {marks : List String} :
    m ∈ (if mark ∈ marks then [mark] else []) ↔ m = mark ∧ mark ∈ marks := by
  split_ifs with h <;> simp [h]

/-- Of marks in order, bold comes before italic. -/
theorem filter_marks {marks : List String} (sorted : marks.Pairwise (· < ·)) :
    (marks.filter fun m => m = "bold" ∨ m = "italic") =
      (if "bold" ∈ marks then ["bold"] else []) ++
      (if "italic" ∈ marks then ["italic"] else []) := by
  have hlt : "bold" < "italic" := by decide
  have hsorted : ((if "bold" ∈ marks then ["bold"] else []) ++
      (if "italic" ∈ marks then ["italic"] else [])).Pairwise (· < ·) := by
    split_ifs
    · exact List.pairwise_pair.mpr hlt
    · exact List.pairwise_singleton ..
    · exact List.pairwise_singleton ..
    · exact .nil
  refine List.Pairwise.eq_of_mem_iff (sorted.filter _) hsorted fun m => ?_
  rw [List.mem_filter, List.mem_append, mem_ite_singleton, mem_ite_singleton, decide_eq_true_iff]
  constructor
  · rintro ⟨hm, rfl | rfl⟩
    · exact .inl ⟨rfl, hm⟩
    · exact .inr ⟨rfl, hm⟩
  · rintro (⟨rfl, hm⟩ | ⟨rfl, hm⟩)
    · exact ⟨hm, .inl rfl⟩
    · exact ⟨hm, .inr rfl⟩

theorem readBack_composeMarks {marks : List String} (sorted : marks.Pairwise (· < ·))
    (text : String) : readBack [composeMarks text marks] = [.text text (normalMarks marks)] := by
  have hplain : readBack [.obj (common "Text" [("text", .str text)])] = [.text text []] := rfl
  have hcode : readBack [.obj (common "Code" [("text", .str text)])] = [.text text ["code"]] := rfl
  have hbold :
      readBack [withNodes (common "Strong" []) [.obj (common "Text" [("text", .str text)])]] =
      [.text text ["bold"]] :=
    rfl
  rw [normalMarks, filter_marks sorted]
  unfold composeMarks
  simp only [List.contains_iff_mem]
  split_ifs
  · exact hcode
  · rfl
  · rfl
  · exact hbold
  · exact hplain

theorem composeMarks_normalMarks (text : String) (marks : List String) :
    composeMarks text (normalMarks marks) = composeMarks text marks := by
  unfold composeMarks normalMarks
  simp only [List.contains_iff_mem]
  by_cases hcode : "code" ∈ marks
  · rw [if_pos hcode, if_pos hcode, if_pos (List.mem_singleton_self _)]
  · have hnone : "code" ∉ marks.filter fun m => m = "bold" ∨ m = "italic" :=
      fun h => hcode (List.mem_of_mem_filter h)
    rw [if_neg hcode, if_neg hcode, if_neg hnone]
    simp only [List.mem_filter, decide_true, true_or, or_true, and_true]

/-- A shape from which the type, the data and the text of an element can be read back. -/
def Shape.Reads (type : String) (data : Option Data) (text : Option String) : Shape → Prop
  | .leaf ms =>
    type ∈ leafTypes ∧ ∀ below, nodeOf ms.text? below = .element (normalType type) data []
      (normalText textTypes type text)
  | .container ms =>
    type ∉ leafTypes ∧ ∀ below, nodeOf ms.text? below = .element (normalType type) data below
      (normalText textTypes type text)
  | .item => type = "list_item" ∧ data = none

/-- Every element has a shape from which it can be read back, and forgetting leaves the shape as it
is. -/
theorem reads_of_fits {type : String} {data : Option Data} {text : Option String}
    (fits : DataFits type data) (own : type ∈ textTypes → text.isSome) :
    ∃ shape, shape? type data text = some shape ∧
      shape? (normalType type) data (normalText textTypes type text) = some shape ∧
      shape.Reads type data text := by
  cases data with
  | none =>
    simp only [DataFits, plainTypes, headingLevels, List.map_cons, List.map_nil, List.cons_append,
      List.nil_append, List.mem_cons, List.not_mem_nil, or_false] at fits
    rcases fits with rfl | rfl | rfl | rfl | rfl | rfl | rfl | rfl | rfl | rfl | rfl
      | rfl | rfl | rfl
    · exact ⟨_, rfl, rfl, by decide, fun _ => rfl⟩
    · exact ⟨_, rfl, rfl, by decide, fun _ => rfl⟩
    · exact ⟨_, rfl, rfl, by decide, fun _ => rfl⟩
    · exact ⟨_, rfl, rfl, by decide, fun _ => rfl⟩
    · obtain ⟨s, rfl⟩ := Option.isSome_iff_exists.mp (own (by decide))
      exact ⟨_, rfl, rfl, by decide, fun _ => rfl⟩
    · obtain ⟨s, rfl⟩ := Option.isSome_iff_exists.mp (own (by decide))
      exact ⟨_, rfl, rfl, by decide, fun _ => rfl⟩
    · obtain ⟨s, rfl⟩ := Option.isSome_iff_exists.mp (own (by decide))
      exact ⟨_, rfl, rfl, by decide, fun _ => rfl⟩
    · exact ⟨.item, rfl, rfl, rfl, rfl⟩
    · exact ⟨_, rfl, rfl, by decide, fun _ => rfl⟩
    · exact ⟨_, rfl, rfl, by decide, fun _ => rfl⟩
    · exact ⟨_, rfl, rfl, by decide, fun _ => rfl⟩
    · exact ⟨_, rfl, rfl, by decide, fun _ => rfl⟩
    · exact ⟨_, rfl, rfl, by decide, fun _ => rfl⟩
    · exact ⟨_, rfl, rfl, by decide, fun _ => rfl⟩
  | some d =>
    cases d with
    | list delimiter start tight =>
      rcases fits with rfl | rfl
      · refine ⟨_, rfl, rfl, by decide, fun _ => ?_⟩
        cases delimiter <;> cases start <;> cases tight <;> rfl
      · refine ⟨_, rfl, rfl, by decide, fun _ => ?_⟩
        cases delimiter <;> cases start <;> cases tight <;> rfl
    | link href =>
      obtain rfl := fits
      exact ⟨_, rfl, rfl, by decide, fun _ => rfl⟩
    | clause clauseid src clauseText =>
      obtain rfl := fits
      refine ⟨_, rfl, rfl, by decide, fun _ => ?_⟩
      cases clauseText <;> rfl
    | templateVariable id value =>
      obtain rfl := fits
      exact ⟨_, rfl, rfl, by decide, fun _ => rfl⟩
    | computed value =>
      obtain rfl := fits
      exact ⟨_, rfl, rfl, by decide, fun _ => rfl⟩

theorem toTrees_eq_ok {n : Node} {ns : List Node} {ts : List Json}
    (h : toTrees (n :: ns) = .ok ts) :
    ∃ t us, toTree n = .ok t ∧ toTrees ns = .ok us ∧ ts = t :: us := by
  rw [toTrees] at h
  obtain ⟨t, ht, h⟩ := bind_eq_ok h
  obtain ⟨us, hus, h⟩ := bind_eq_ok h
  exact ⟨t, us, ht, hus, (Except.ok.inj h).symm⟩

theorem readBack_of_forall {ns : List Node} {ts : List Json} (h : toTrees ns = .ok ts)
    (each : ∀ n ∈ ns, ∀ t, toTree n = .ok t → readBack [t] = [normal textTypes n]) :
    readBack ts = normalAll textTypes ns := by
  induction ns generalizing ts with
  | nil =>
    cases h
    rfl
  | cons n ns ih =>
    obtain ⟨t, us, ht, hus, rfl⟩ := toTrees_eq_ok h
    rw [readBack_cons, each n (by simp) t ht, ih hus fun m hm => each m (by simp [hm])]
    rfl

/-- What a tree shows of a node can be read back from it. -/
theorem readBack_toTree {n : Node} (h : Decoded n) :
    ∀ t, toTree n = .ok t → readBack [t] = [normal textTypes n] := by
  induction h with
  | text text sorted =>
    intro t ht
    cases ht
    exact readBack_composeMarks sorted text
  | @element type data nodes text fits own _ ih =>
    intro t ht
    obtain ⟨shape, hshape, _, reads⟩ := reads_of_fits fits own
    obtain ⟨other, hother, sound⟩ := shape_of_fits fits text
    rw [hshape, Option.some.injEq] at hother
    subst hother
    rw [toTree, hshape] at ht
    cases shape with
    | leaf ms =>
      obtain ⟨_, _, childless⟩ := sound
      cases ht
      rw [readBack_leaf childless, reads.2, normal, if_pos reads.1]
    | container ms =>
      obtain ⟨_, _, _, childless⟩ := sound
      obtain ⟨ts, hts, rfl⟩ := map_eq_ok ht
      rw [readBack_withNodes childless, readBack_of_forall hts ih, reads.2, normal, if_neg reads.1]
    | item =>
      obtain ⟨ts, hts, rfl⟩ := map_eq_ok ht
      obtain ⟨rfl, rfl⟩ := reads
      have hparagraph : readBack [withNodes (common "Paragraph" []) ts] =
          [.element "paragraph" none (readBack ts) none] := readBack_withNodes (by decide) ts
      rw [readBack_withNodes (by decide), hparagraph, readBack_of_forall hts ih]
      rfl

theorem toTrees_normalAll {ns : List Node} (h : ∀ n ∈ ns, toTree (normal textTypes n) = toTree n) :
    toTrees (normalAll textTypes ns) = toTrees ns := by
  induction ns with
  | nil => rfl
  | cons n ns ih =>
    rw [normalAll, toTrees, toTrees, h n (by simp), ih fun m hm => h m (by simp [hm])]

/-- What is forgotten does not show in a tree. -/
theorem toTree_normal {n : Node} (h : Decoded n) : toTree (normal textTypes n) = toTree n := by
  induction h with
  | text text _ => rw [normal, toTree, toTree, composeMarks_normalMarks]
  | @element type data nodes text fits own _ ih =>
    obtain ⟨shape, hshape, hnormal, reads⟩ := reads_of_fits fits own
    rw [normal, toTree, toTree, hshape, hnormal]
    cases shape with
    | leaf ms => rfl
    | container ms =>
      rw [if_neg reads.1]
      simp only [toTrees_normalAll ih]
    | item =>
      obtain ⟨rfl, _⟩ := reads
      rw [if_neg (by decide)]
      simp only [toTrees_normalAll ih]

theorem readBack_eq_of_alike {ts us : List Json}
    (h : Json.Alike (documentOfTrees ts) (documentOfTrees us)) : readBack ts = readBack us := by
  exact Json.foldAll_itemsAt_of_alike childrenKey (fun text below => [nodeOf text below]) h

/-- Two values that can be decoded have the same document, the order of members left aside, just if
their nodes are the same after forgetting; and then the documents are equal. -/
theorem document_alike_iff {v w : Json} {ns ms : List Node} (hv : ofJson v = .ok ns)
    (hw : ofJson w = .ok ms) :
    ∃ t u, document ns = .ok t ∧ document ms = .ok u ∧
      (Json.Alike t u ↔ normalAll textTypes ns = normalAll textTypes ms) ∧
      (t = u ↔ normalAll textTypes ns = normalAll textTypes ms) := by
  have hns := decoded_of_ofJson hv
  have hms := decoded_of_ofJson hw
  obtain ⟨ts, _, hts, ht, _⟩ := document_of_decoded hns
  obtain ⟨us, _, hus, hu, _⟩ := document_of_decoded hms
  have hreadts := readBack_of_forall hts fun n hn => readBack_toTree (hns n hn)
  have hreadus := readBack_of_forall hus fun n hn => readBack_toTree (hms n hn)
  have hforget : normalAll textTypes ns = normalAll textTypes ms → ts = us := by
    intro h
    have hsame : toTrees ns = toTrees ms := by
      rw [← toTrees_normalAll fun n hn => toTree_normal (hns n hn), h,
        toTrees_normalAll fun n hn => toTree_normal (hms n hn)]
    rw [hts, hus, Except.ok.injEq] at hsame
    exact hsame
  have halike : Json.Alike (documentOfTrees ts) (documentOfTrees us) →
      normalAll textTypes ns = normalAll textTypes ms := by
    intro h
    rw [← hreadts, ← hreadus, readBack_eq_of_alike h]
  refine ⟨documentOfTrees ts, documentOfTrees us, ht, hu, ⟨halike, ?_⟩, ?_, ?_⟩
  · intro h
    rw [hforget h]
    exact .refl _
  · intro h
    exact halike (h ▸ .refl _)
  · intro h
    rw [hforget h]

/-- Two ways to write a quote of code. -/
def quotedCode : Json × Json :=
  (.obj [("nodes", .arr [.obj [("type", .str "quote"), ("text", .str "b"), ("nodes", .arr [
      .obj [("object", .str "text"), ("text", .str "a"),
        ("marks", .arr [.str "code", .str "bold"])]])]])],
    .obj [("nodes", .arr [.obj [("type", .str "block_quote"), ("nodes", .arr [
      .obj [("object", .str "text"), ("text", .str "a"),
        ("marks", .arr [.obj [("type", .str "code")]])]])]])])

theorem document_quotedCode :
    ofJson quotedCode.1 = .ok [.element "quote" none [.text "a" ["bold", "code"]] (some "b")] ∧
      ofJson quotedCode.2 = .ok [.element "block_quote" none [.text "a" ["code"]] none] ∧
      ∃ t, document [.element "quote" none [.text "a" ["bold", "code"]] (some "b")] = .ok t ∧
        document [.element "block_quote" none [.text "a" ["code"]] none] = .ok t := by
  have hfirst : ofJson quotedCode.1 =
      .ok [.element "quote" none [.text "a" ["bold", "code"]] (some "b")] := rfl
  have hsecond : ofJson quotedCode.2 =
      .ok [.element "block_quote" none [.text "a" ["code"]] none] := rfl
  obtain ⟨t, u, ht, hu, _, heq⟩ := document_alike_iff hfirst hsecond
  have htu : t = u := heq.mpr rfl
  exact ⟨hfirst, hsecond, t, ht, htu ▸ hu⟩

/-- The text of a rule is forgotten too, though other leaves keep theirs. -/
theorem document_of_rule_text :
    ofJson (.obj [("nodes", .arr [.obj [("type", .str "horizontal_rule"), ("text", .str "a")]])]) =
        .ok [.element "horizontal_rule" none [] (some "a")] ∧
      ofJson (.obj [("nodes", .arr [.obj [("type", .str "horizontal_rule")]])]) =
        .ok [.element "horizontal_rule" none [] none] ∧
      (∃ t, document [.element "horizontal_rule" none [] (some "a")] = .ok t ∧
        document [.element "horizontal_rule" none [] none] = .ok t) ∧
      normalAll leafTypes [.element "horizontal_rule" none [] (some "a")] ≠
        normalAll leafTypes [.element "horizontal_rule" none [] none] := by
  refine ⟨rfl, rfl, ⟨_, rfl, rfl⟩, ?_⟩
  intro h
  cases h

end Canonmark.Editor
