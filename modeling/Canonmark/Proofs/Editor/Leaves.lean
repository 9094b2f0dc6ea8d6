import Canonmark.Fault
import Canonmark.Proofs.Json.Fold
import Canonmark.Proofs.Outcome

/-! A text that is divided into leaves is another spelling of its leaves in a row: with the leaves
put in its place, a value is decoded to the same nodes, or refused alike. -/
namespace Canonmark

namespace Members

/-- A search along the members for a name is a lookup. -/
theorem search_eq {α : Type} {search : Members → α} {key : String}
    {found : Json → α} {missing : α} (nil : search [] = missing)
    (cons : ∀ name v ms, search ((name, v) :: ms) = if name == key then found v else search ms)
    (ms : Members) : search ms = ((ms.get? key).map found).getD missing := by
  induction ms with
  | nil => exact nil
  | cons p ms ih =>
    obtain ⟨name, v⟩ := p
    rw [cons, get?_cons]
    by_cases hname : name = key
    · rw [if_pos (by simpa using hname), if_pos hname.symm, Option.map_some, Option.getD_some]
    · rw [if_neg (by simpa using hname), if_neg (Ne.symm hname), ih]

end Members

/-- Induction over an object and the objects in its lists, whatever their names. -/
theorem Json.inductionOnLists {motive : Json → Prop}
    (obj : ∀ ms, (∀ key, ∀ v ∈ itemsAt key ms, motive v) → motive (.obj ms))
    (other : ∀ v, (∀ ms, v ≠ .obj ms) → motive v) (v : Json) : motive v := by
  cases v with
  | obj ms => exact obj ms fun key w hw => inductionOnLists obj other w
  | _ => exact other _ nofun
termination_by sizeOf v
decreasing_by exact sizeOf_lt_of_mem_itemsAt hw

namespace Editor

/-- Whether an object is a text by its members. -/
def isTextNode (ms : Members) : Bool := ((Members.get? ms "object").getD .null).isText "text"

mutual

/-- What stands for a node where no text is divided: its leaves, if it is a text with a list of
them, and else the node itself. A leaf is a text whatever else it says. -/
def spread (leaf : Bool) : Json → List Json
  | .obj ms =>
    if leaf || isTextNode ms then
      match spreadLeaves ms with
      | some leaves => leaves
      | none => [.obj (Members.set (spreadNodes ms) "object" (.str "text"))]
    else [.obj (spreadNodes ms)]
  | v => [v]

def spreadAll (leaf : Bool) : List Json → List Json
  | [] => []
  | v :: vs => spread leaf v ++ spreadAll leaf vs

/-- The leaves among the members of a text, if there is a list of them. -/
def spreadLeaves : List (String × Json) → Option (List Json)
  | [] => none
  | (name, v) :: ms => if name == "leaves" then spreadLeavesOf v else spreadLeaves ms

def spreadLeavesOf : Json → Option (List Json)
  | .arr vs => some (spreadAll true vs)
  | _ => none

/-- Members with another list of nodes. -/
def spreadNodes : List (String × Json) → List (String × Json)
  | [] => []
  | (name, v) :: ms =>
    if name == "nodes" then (name, spreadNodesOf v) :: ms else (name, v) :: spreadNodes ms

def spreadNodesOf : Json → Json
  | .arr vs => .arr (spreadAll false vs)
  | v => v

end

/-- The document in a value has its nodes spread as well. -/
def spreadDocument (ms : Members) : Members :=
  match ms.get? "document" with
  | some (.obj document) => ms.set "document" (.obj (spreadNodes document))
  | _ => ms

/-- A whole value in which no text is divided. -/
def respelled : Json → Json
  | .obj ms => .obj (spreadNodes (spreadDocument ms))
  | v => v

/-- A node in which no text that is reached through lists of nodes has a list of leaves. -/
inductive IsUndivided : Json → Prop
  | obj {ms : Members} (whole : isTextNode ms → ∀ vs, ms.get? "leaves" ≠ some (.arr vs))
      (below : ∀ v ∈ Json.itemsAt "nodes" ms, IsUndivided v) : IsUndivided (.obj ms)
  | other {v : Json} (h : ∀ ms, v ≠ .obj ms) : IsUndivided v

variable {leaf : Bool} {ms : Members} {n : String}

theorem leavesIn_eq (path : String) (ms : Members) :
    leavesIn path ms = ((ms.get? "leaves").map (leavesOf path)).getD none :=
  Members.search_eq rfl (fun _ _ _ => by rw [leavesIn]) ms

theorem nodesIn_eq (path : String) (ms : Members) :
    nodesIn path ms = ((ms.get? "nodes").map (nodesOf path)).getD (.ok []) :=
  Members.search_eq rfl (fun _ _ _ => by rw [nodesIn]) ms

theorem spreadLeaves_eq (ms : Members) :
    spreadLeaves ms = ((ms.get? "leaves").map spreadLeavesOf).getD none :=
  Members.search_eq rfl (fun _ _ _ => by rw [spreadLeaves]) ms

theorem mem_spreadAll {vs : List Json} {w : Json} :
    w ∈ spreadAll leaf vs ↔ ∃ v ∈ vs, w ∈ spread leaf v := by
  induction vs with
  | nil => simp [spreadAll]
  | cons v vs ih => simp [spreadAll, ih]

/-- A text has a list of leaves, or it is read as a whole. -/
theorem leaves_cases (ms : Members) :
    (spreadLeaves ms = some (spreadAll true (Json.itemsAt "leaves" ms)) ∧
      ∀ path, leavesIn path ms = some (leavesFrom path 0 (Json.itemsAt "leaves" ms))) ∨
    spreadLeaves ms = none ∧ (∀ path, leavesIn path ms = none) ∧
    ∀ vs, ms.get? "leaves" ≠ some (.arr vs) := by
  simp only [spreadLeaves_eq, leavesIn_eq, Json.itemsAt]
  cases ms.get? "leaves" with
  | none => exact .inr ⟨rfl, fun _ => rfl, fun _ h => by cases h⟩
  | some v =>
    cases v with
    | arr vs => exact .inl ⟨rfl, fun _ => rfl⟩
    | _ => exact .inr ⟨rfl, fun _ => rfl, fun _ h => by cases h⟩

theorem get?_spreadNodes_ne (h : n ≠ "nodes") (ms : Members) :
    Members.get? (spreadNodes ms) n = ms.get? n := by
  induction ms with
  | nil => rfl
  | cons p ms ih =>
    obtain ⟨name, v⟩ := p
    rw [spreadNodes]
    by_cases hname : name = "nodes"
    · rw [if_pos (by simpa using hname), Members.get?_cons_ne (hname ▸ h),
        Members.get?_cons_ne (hname ▸ h)]
    · rw [if_neg (by simpa using hname), Members.get?_cons, Members.get?_cons, ih]

theorem get?_spreadNodes_self (ms : Members) :
    Members.get? (spreadNodes ms) "nodes" = (ms.get? "nodes").map spreadNodesOf := by
  induction ms with
  | nil => rfl
  | cons p ms ih =>
    obtain ⟨name, v⟩ := p
    rw [spreadNodes]
    by_cases hname : name = "nodes"
    · rw [if_pos (by simpa using hname), hname, Members.get?_cons_self, Members.get?_cons_self,
        Option.map_some]
    · rw [if_neg (by simpa using hname), Members.get?_cons_ne (Ne.symm hname), ih,
        Members.get?_cons_ne (Ne.symm hname)]

theorem itemsAt_spreadNodes (ms : Members) :
    Json.itemsAt "nodes" (spreadNodes ms) = spreadAll false (Json.itemsAt "nodes" ms) := by
  rw [Json.itemsAt, get?_spreadNodes_self, Json.itemsAt]
  cases ms.get? "nodes" with
  | none => rfl
  | some v => cases v <;> rfl

/-- The members of a text that is not divided. -/
def wholeText (ms : Members) : Members := Members.set (spreadNodes ms) "object" (.str "text")

theorem get?_wholeText (hobject : n ≠ "object") (ms : Members) :
    (wholeText ms).get? n = Members.get? (spreadNodes ms) n :=
  Members.get?_set_ne hobject _ _

theorem isTextNode_wholeText (ms : Members) : isTextNode (wholeText ms) := by
  rw [isTextNode, wholeText, Members.get?_set_self]
  rfl

theorem isTextNode_spreadNodes (ms : Members) : isTextNode (spreadNodes ms) = isTextNode ms := by
  rw [isTextNode, get?_spreadNodes_ne (by simp), isTextNode]

/-- All that can stand for an object. -/
theorem spread_cases (leaf : Bool) (ms : Members) :
    ((leaf || isTextNode ms) = true ∧
      (spread leaf (.obj ms) = spreadAll true (Json.itemsAt "leaves" ms) ∧
        (∀ path, leavesIn path ms = some (leavesFrom path 0 (Json.itemsAt "leaves" ms))) ∨
      spread leaf (.obj ms) = [.obj (wholeText ms)] ∧ (∀ path, leavesIn path ms = none) ∧
        ∀ vs, ms.get? "leaves" ≠ some (.arr vs))) ∨
    (leaf || isTextNode ms) = false ∧ spread leaf (.obj ms) = [.obj (spreadNodes ms)] := by
  rw [spread]
  cases htext : leaf || isTextNode ms with
  | false => exact .inr ⟨rfl, by simp⟩
  | true =>
    rw [if_pos rfl]
    obtain ⟨hspread, hleaves⟩ | ⟨hspread, hnone, hget⟩ := leaves_cases ms
    · rw [hspread]
      exact .inl ⟨rfl, .inl ⟨rfl, hleaves⟩⟩
    · rw [hspread]
      exact .inl ⟨rfl, .inr ⟨rfl, hnone, hget⟩⟩

theorem isUndivided_of_mem_spread {v w : Json} (h : w ∈ spread leaf v) : IsUndivided w := by
  induction v using Json.inductionOnLists generalizing leaf w with
  | other v hv =>
    cases v with
    | obj ms => exact absurd rfl (hv ms)
    | _ =>
      obtain rfl := List.mem_singleton.mp h
      exact .other nofun
  | obj ms ih =>
    have hall : ∀ key leaf, ∀ w ∈ spreadAll leaf (Json.itemsAt key ms), IsUndivided w := by
      intro key leaf w hw
      obtain ⟨v, hv, hw⟩ := mem_spreadAll.mp hw
      exact ih key v hv hw
    obtain ⟨-, ⟨hspread, -⟩ | ⟨hspread, -, hwhole⟩⟩ | ⟨htext, hspread⟩ := spread_cases leaf ms
    · exact hall "leaves" true w (hspread ▸ h)
    · rw [hspread, List.mem_singleton] at h
      subst h
      refine .obj (fun _ vs => ?_) fun v hv => hall "nodes" false v ?_
      · rw [get?_wholeText (by simp), get?_spreadNodes_ne (by simp)]
        exact hwhole vs
      · rwa [Json.itemsAt, get?_wholeText (by simp), ← Json.itemsAt, itemsAt_spreadNodes] at hv
    · rw [hspread, List.mem_singleton] at h
      subst h
      refine .obj (fun hnode => ?_) fun v hv =>
        hall "nodes" false v (by rwa [itemsAt_spreadNodes] at hv)
      rw [isTextNode_spreadNodes] at hnode
      rw [hnode, Bool.or_true] at htext
      cases htext

variable {α β : Type}

/-- What a check comes to, but for where a fault is. -/
def outcome (x : Except Fault α) : Except Report α :=
  x.mapError fun f => { (Canonmark.Fault.editor f).report with message := "" }

theorem outcome_bind_congr {x y : Except Fault α} {f g : α → Except Fault β}
    (h : outcome x = outcome y) (hf : ∀ a, outcome (f a) = outcome (g a)) :
    outcome (x >>= f) = outcome (y >>= g) := by
  cases x with
  | ok a =>
    cases y with
    | ok b =>
      obtain rfl := Except.ok.inj h
      exact hf a
    | error e => cases h
  | error e =>
    cases y with
    | ok b => cases h
    | error e' => exact congrArg Except.error (Except.error.inj h)

theorem outcome_map_congr {x y : Except Fault α} (h : outcome x = outcome y) (f : α → β) :
    outcome (x.map f) = outcome (y.map f) := by
  cases x with
  | ok a =>
    cases y with
    | ok b =>
      obtain rfl := Except.ok.inj h
      rfl
    | error e => cases h
  | error e =>
    cases y with
    | ok b => cases h
    | error e' => exact congrArg Except.error (Except.error.inj h)

theorem outcome_foldlM_congr {f g : β → α → Except Fault β}
    (h : ∀ b a, outcome (f b a) = outcome (g b a)) (as : List α) (b : β) :
    outcome (as.foldlM f b) = outcome (as.foldlM g b) := by
  induction as generalizing b with
  | nil => rfl
  | cons a as ih =>
    rw [List.foldlM_cons, List.foldlM_cons]
    exact outcome_bind_congr (h b a) ih

theorem outcome_eq_ok {x : Except Fault α} {a : α} : outcome x = .ok a ↔ x = .ok a := by
  cases x with
  | ok b => exact (Except.ok.injEq ..).to_iff.trans (Except.ok.injEq ..).to_iff.symm
  | error f => exact iff_of_false (fun h => by cases h) fun h => by cases h

theorem outcome_eq_error {x : Except Fault α} {r : Report} (h : outcome x = .error r) :
    ∃ f, x = .error f ∧ { (Canonmark.Fault.editor f).report with message := "" } = r := by
  cases x with
  | ok a => cases h
  | error f => exact ⟨f, rfl, Except.error.inj h⟩

theorem outcome_marksOf (p q : String) (v : Option Json) :
    outcome (marksOf p v) = outcome (marksOf q v) := by
  unfold marksOf
  split
  · rfl
  · rfl
  · refine outcome_foldlM_congr (fun marks v => ?_) _ _
    split <;> rfl
  · rfl

theorem outcome_plainText (p q : String) {ms' : Members}
    (text : ms'.get? "text" = ms.get? "text") (marks : ms'.get? "marks" = ms.get? "marks") :
    outcome (plainText p ms') = outcome (plainText q ms) := by
  unfold plainText
  rw [text, marks]
  split
  · exact outcome_map_congr (outcome_marksOf p q _) _
  · rfl

theorem outcome_typeOf (p q : String) {ms' : Members} (h : ms'.get? "type" = ms.get? "type") :
    outcome (typeOf p ms') = outcome (typeOf q ms) := by
  unfold typeOf
  rw [Members.given?_congr h]
  split
  · rfl
  · split <;> rfl
  · rfl

theorem outcome_dataMembers (p q : String) {ms' : Members} (h : ms'.get? "data" = ms.get? "data") :
    outcome (dataMembers p ms') = outcome (dataMembers q ms) := by
  unfold dataMembers
  rw [h]
  split
  · rfl
  · split <;> rfl
  · rfl

theorem outcome_requiredData (ms : Members) (type p q key : String) :
    outcome (requiredData ms type p key) = outcome (requiredData ms type q key) := by
  unfold requiredData
  split <;> rfl

theorem outcome_dataOf (type p q : String) (ms : Members) :
    outcome (dataOf type p ms) = outcome (dataOf type q ms) := by
  have hrequired := outcome_requiredData ms type p q
  unfold dataOf
  repeat' split
  · rfl
  · exact outcome_bind_congr (hrequired "href") fun _ => rfl
  · exact outcome_bind_congr (hrequired "clauseid") fun _ =>
      outcome_bind_congr (hrequired "src") fun _ => rfl
  · exact outcome_bind_congr (hrequired "id") fun _ =>
      outcome_bind_congr (hrequired "value") fun _ => rfl
  · exact outcome_bind_congr (hrequired "value") fun _ => rfl
  · rfl

theorem outcome_elementOf (type p q : String) (data : Option Data) (nodes : List Node)
    (text : Option Json) :
    outcome (elementOf type p data nodes text) = outcome (elementOf type q data nodes text) := by
  unfold elementOf
  split <;> rfl

theorem nodesFrom_singleton (start : String) (i : Nat) (v : Json) :
    nodesFrom start i [v] = nodeOfJson (start ++ index i) v := by
  rw [nodesFrom, nodesFrom]
  cases nodeOfJson (start ++ index i) v with
  | error f => rfl
  | ok ns => simp [bind, Except.bind]

theorem nodesFrom_append (start : String) (i : Nat) (vs ws : List Json) :
    nodesFrom start i (vs ++ ws) = (do
      let ns ← nodesFrom start i vs
      let others ← nodesFrom start (i + vs.length) ws
      .ok (ns ++ others)) := by
  induction vs generalizing i with
  | nil =>
    rw [List.nil_append, nodesFrom, List.length_nil, Nat.add_zero]
    cases nodesFrom start i ws <;> rfl
  | cons v vs ih =>
    rw [List.cons_append, nodesFrom, nodesFrom, ih, List.length_cons, Nat.add_comm vs.length 1,
      ← Nat.add_assoc]
    cases nodeOfJson (start ++ index i) v with
    | error f => rfl
    | ok node =>
      cases nodesFrom start (i + 1) vs with
      | error f => rfl
      | ok ns =>
        cases nodesFrom start (i + 1 + vs.length) ws with
        | error f => simp [bind, Except.bind]
        | ok others => simp [bind, Except.bind]

/-- If each value of a list can be spread, so can the list, wherever its values stand. -/
theorem outcome_spreadAll (one : String → Json → Except Fault (List Node))
    (all : Nat → List Json → Except Fault (List Node)) {place : Nat → String}
    (nil : ∀ i, all i [] = .ok [])
    (cons : ∀ i v vs, all i (v :: vs) = (do
      let ns ← one (place i) v
      let others ← all (i + 1) vs
      .ok (ns ++ others)))
    {vs : List Json}
    (h : ∀ v ∈ vs, ∀ p i q, outcome (nodesFrom p i (spread leaf v)) = outcome (one q v))
    (p : String) (i j : Nat) :
    outcome (nodesFrom p i (spreadAll leaf vs)) = outcome (all j vs) := by
  induction vs generalizing i j with
  | nil => rw [nil]; rfl
  | cons v vs ih =>
    obtain ⟨hv, hvs⟩ := List.forall_mem_cons.mp h
    rw [spreadAll, nodesFrom_append, cons]
    exact outcome_bind_congr (hv p i _) fun ns => outcome_bind_congr (ih hvs _ _) fun others => rfl

theorem outcome_nodesIn (p q : String) (h : ∀ v ∈ Json.itemsAt "nodes" ms, ∀ p i q,
      outcome (nodesFrom p i (spread false v)) = outcome (nodeOfJson q v)) :
    outcome (nodesIn p (spreadNodes ms)) = outcome (nodesIn q ms) := by
  rw [nodesIn_eq, nodesIn_eq, get?_spreadNodes_self]
  rw [Json.itemsAt] at h
  cases hnodes : ms.get? "nodes" with
  | none => rfl
  | some v =>
    cases v with
    | arr vs =>
      rw [hnodes] at h
      exact outcome_spreadAll nodeOfJson (nodesFrom _) (fun _ => by rw [nodesFrom])
        (fun _ _ _ => by rw [nodesFrom]) h _ _ _
    | _ => rfl

theorem nodeOfJson_of_text (h : isTextNode ms) (path : String) :
    nodeOfJson path (.obj ms) = textOfJson path (.obj ms) := by
  rw [nodeOfJson]
  exact if_pos h

theorem nodeOfJson_of_element (h : isTextNode ms = false) (path : String) :
    nodeOfJson path (.obj ms) = (do
      let type ← typeOf path ms
      let data ← dataOf type path (← dataMembers path ms)
      let nodes ← nodesIn path ms
      elementOf type path data nodes (Members.get? ms "text")) := by
  rw [nodeOfJson]
  exact if_neg (by simpa [isTextNode] using h)

/-- An element is told from its members, and its children from the nodes that are spread. -/
theorem outcome_element (h : isTextNode ms = false) (p q : String)
    (below : outcome (nodesIn p (spreadNodes ms)) = outcome (nodesIn q ms)) :
    outcome (nodeOfJson p (.obj (spreadNodes ms))) = outcome (nodeOfJson q (.obj ms)) := by
  rw [nodeOfJson_of_element ((isTextNode_spreadNodes ms).trans h), nodeOfJson_of_element h]
  refine outcome_bind_congr (outcome_typeOf p q (get?_spreadNodes_ne (by simp) ms)) fun type => ?_
  refine outcome_bind_congr (outcome_dataMembers p q (get?_spreadNodes_ne (by simp) ms))
    fun members => ?_
  refine outcome_bind_congr (outcome_dataOf type p q members) fun data => ?_
  refine outcome_bind_congr below fun nodes => ?_
  rw [get?_spreadNodes_ne (by simp)]
  exact outcome_elementOf type p q data nodes _

/-- A text without a list of leaves is told from its members. -/
theorem outcome_wholeText (whole : ∀ path, leavesIn path ms = none) (p q : String) :
    outcome (nodeOfJson p (.obj (wholeText ms))) = outcome (textOfJson q (.obj ms)) := by
  have hget : ∀ n, n ≠ "object" → n ≠ "nodes" → (wholeText ms).get? n = ms.get? n := by
    intro n hobject hnodes
    rw [get?_wholeText hobject, get?_spreadNodes_ne hnodes]
  have hwhole : leavesIn p (wholeText ms) = none := by
    rw [leavesIn_eq, hget _ (by simp) (by simp), ← leavesIn_eq, whole]
  rw [nodeOfJson_of_text (isTextNode_wholeText ms), textOfJson, hwhole, textOfJson, whole]
  exact outcome_plainText p q (hget _ (by simp) (by simp)) (hget _ (by simp) (by simp))

/-- What stands for a node is decoded to what the node is decoded to, and what stands for a leaf to
what a text is decoded to. Where a node stands matters only to the message of a fault. -/
theorem outcome_spread (v : Json) :
    (∀ p i q, outcome (nodesFrom p i (spread true v)) = outcome (textOfJson q v)) ∧
      ∀ p i q, outcome (nodesFrom p i (spread false v)) = outcome (nodeOfJson q v) := by
  induction v using Json.inductionOnLists with
  | other v hv =>
    cases v with
    | obj ms => exact absurd rfl (hv ms)
    | _ =>
      simp only [spread, nodesFrom_singleton]
      exact ⟨fun _ _ _ => rfl, fun _ _ _ => rfl⟩
  | obj ms ih =>
    have htext : ∀ leaf, (leaf || isTextNode ms) = true → ∀ p i q,
        outcome (nodesFrom p i (spread leaf (.obj ms))) = outcome (textOfJson q (.obj ms)) := by
      intro leaf hleaf p i q
      obtain ⟨-, ⟨hspread, hleaves⟩ | ⟨hspread, hnone, -⟩⟩ | ⟨hnot, -⟩ := spread_cases leaf ms
      · rw [hspread, textOfJson, hleaves]
        exact outcome_spreadAll textOfJson (leavesFrom q) (fun _ => by rw [leavesFrom])
          (fun _ _ _ => by rw [leavesFrom]) (fun v hv => (ih "leaves" v hv).1) _ _ _
      · rw [hspread, nodesFrom_singleton]
        exact outcome_wholeText hnone _ _
      · rw [hleaf] at hnot
        cases hnot
    refine ⟨htext true rfl, fun p i q => ?_⟩
    obtain ⟨hnode, -⟩ | ⟨hnode, hspread⟩ := spread_cases false ms
    · rw [nodeOfJson_of_text (by simpa using hnode)]
      exact htext false hnode p i q
    · rw [hspread, nodesFrom_singleton]
      exact outcome_element (by simpa using hnode) _ _
        (outcome_nodesIn _ _ fun v hv => (ih "nodes" v hv).2)

/-- The document of a value, be it the value itself, has its nodes spread. -/
theorem documentOf_respelled (v : Json) :
    (∃ ms, documentOf v = .obj ms ∧ documentOf (respelled v) = .obj (spreadNodes ms)) ∨
      respelled v = v ∧ ∀ ms, documentOf v ≠ .obj ms := by
  cases v with
  | obj ms =>
    have hdocument : Members.get? (spreadNodes (spreadDocument ms)) "document" =
        (spreadDocument ms).get? "document" :=
      get?_spreadNodes_ne (by simp) _
    rw [documentOf, documentOf, respelled, Json.get?, Json.get?, hdocument, spreadDocument]
    cases hget : Members.get? ms "document" with
    | none => exact .inl ⟨ms, rfl, by simp only [hget]⟩
    | some document =>
      cases document with
      | obj document =>
        refine .inl ⟨document, rfl, ?_⟩
        dsimp only
        rw [Members.get?_set_self]
      | _ => exact .inl ⟨ms, rfl, by simp only [hget]⟩
  | _ => exact .inr ⟨rfl, fun _ h => by cases h⟩

theorem outcome_ofJson (v : Json) : outcome (ofJson (respelled v)) = outcome (ofJson v) := by
  obtain ⟨ms, hdocument, hrespelled⟩ | ⟨hsame, -⟩ := documentOf_respelled v
  · rw [ofJson, ofJson, hdocument, hrespelled, Json.get?, Json.get?, get?_spreadNodes_self]
    cases Members.get? ms "nodes" with
    | none => rfl
    | some w =>
      cases w with
      | arr vs =>
        exact outcome_spreadAll nodeOfJson (nodesFrom "nodes") (fun _ => by rw [nodesFrom])
          (fun _ _ _ => by rw [nodesFrom]) (fun v _ => (outcome_spread v).2) _ _ _
      | _ => rfl
  · rw [hsame]

theorem isUndivided_respelled {v : Json} {ms : Members} (h : documentOf (respelled v) = .obj ms) :
    ∀ w ∈ Json.itemsAt "nodes" ms, IsUndivided w := by
  intro w hw
  obtain ⟨ps, -, hrespelled⟩ | ⟨hsame, hnone⟩ := documentOf_respelled v
  · rw [hrespelled] at h
    cases h
    rw [itemsAt_spreadNodes] at hw
    obtain ⟨v, -, hw⟩ := mem_spreadAll.mp hw
    exact isUndivided_of_mem_spread hw
  · rw [hsame] at h
    exact absurd h (hnone ms)

/-- A value and its other spelling, in which no text is divided into leaves, are decoded to the same
nodes, or they are refused with failures of one kind, for the same field and at the same stage. -/
theorem ofJson_respelled (v : Json) :
    (∀ ms, documentOf (respelled v) = .obj ms → ∀ w ∈ Json.itemsAt "nodes" ms, IsUndivided w) ∧
      (∀ ns, ofJson (respelled v) = .ok ns ↔ ofJson v = .ok ns) ∧
      ∀ f, ofJson v = .error f → ∃ f', ofJson (respelled v) = .error f' ∧
        (Canonmark.Fault.editor f').report.family = (Canonmark.Fault.editor f).report.family ∧
        (Canonmark.Fault.editor f').report.parameter = (Canonmark.Fault.editor f).report.parameter ∧
        (Canonmark.Fault.editor f').report.stage = (Canonmark.Fault.editor f).report.stage := by
  refine ⟨fun ms => isUndivided_respelled, fun ns => ?_, fun f hf => ?_⟩
  · rw [← outcome_eq_ok, outcome_ofJson, outcome_eq_ok]
  · have houtcome := outcome_ofJson v
    rw [hf] at houtcome
    obtain ⟨f', hf', hreport⟩ := outcome_eq_error houtcome
    have hsame := Report.mk.inj hreport
    exact ⟨f', hf', hsame.1, hsame.2.2.1, hsame.2.2.2.1⟩

/-- A block of code over a text with leaves in leaves, none among them, next to its own text and
marks. -/
def dividedCode : Members := [("nodes", .arr [
  .obj [("type", .str "code_block"), ("nodes", .arr [
    .obj [("object", .str "text"), ("text", .str "unread"), ("leaves", .arr [
      .obj [("type", .str "link"), ("text", .str "a")],
      .obj [("leaves", .arr [.obj [("text", .str "b"), ("marks", .arr [.str "bold"])]])],
      .obj [("leaves", .arr [])]])]])]])]

theorem ofJson_respelled_dividedCode :
    respelled (.obj dividedCode) = .obj [("nodes", .arr [
        .obj [("type", .str "code_block"), ("nodes", .arr [
          .obj [("type", .str "link"), ("text", .str "a"), ("object", .str "text")],
          .obj [("text", .str "b"), ("marks", .arr [.str "bold"]), ("object", .str "text")]])]])] ∧
      ofJson (respelled (.obj dividedCode)) =
        .ok [.element "code_block" none [.text "a" [], .text "b" ["bold"]] (some "ab")] :=
  ⟨rfl, ((ofJson_respelled (.obj dividedCode)).2.1 _).mpr rfl⟩

end Editor
end Canonmark
