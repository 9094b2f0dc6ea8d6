import Canonmark.Fault
import Canonmark.Proofs.Node.Canonical

/-! What a value is refused for, and the node at fault. -/
namespace Canonmark

namespace Schema

variable {α β : Type} {place : Place} {kind : Kind} {ms : Members} {reason : Reason}

/-- The value below the children with these indices. -/
def nodeAt? : List Nat → Json → Option Json
  | [], v => some v
  | i :: below, .obj ms => (childValues ms)[i]?.bind (nodeAt? below)
  | _ :: _, _ => none

/-- Whether a value is an object of which the class is a list or an object. -/
def hasCompositeClass : Json → Bool
  | .obj ms => (Members.given? ms classKey).any Json.isComposite
  | _ => false

/-- A check that has a fault, if any, at the node of a place, and not for a class that is a list or
an object. -/
def FaultsAt (place : Place) (x : Except Fault α) : Prop :=
  ∀ f, x = .error f → f.place.indices = place.indices ∧ f.reason ≠ .compositeClass

theorem faultsAt_ok (a : α) : FaultsAt place (.ok a) := nofun

theorem faultsAt_fail (h : reason ≠ .compositeClass) :
    FaultsAt place (fail place reason : Except Fault α) := by
  intro f hf
  cases hf
  exact ⟨rfl, h⟩

theorem FaultsAt.bind {x : Except Fault α} {next : α → Except Fault β} (h : FaultsAt place x)
    (hnext : ∀ a, FaultsAt place (next a)) : FaultsAt place (x >>= next) := by
  intro f hf
  obtain hx | ⟨a, -, ha⟩ := bind_eq_error hf
  · exact h f hx
  · exact hnext a f ha

theorem FaultsAt.map {x : Except Fault α} (h : FaultsAt place x) (g : α → β) :
    FaultsAt place (x.map g) := by
  intro f hf
  cases x with
  | ok a => cases hf
  | error e =>
    cases hf
    exact h f rfl

/-- The tag and the attributes of a node are of that node. -/
theorem FaultsAt.part {part : Part} {x : Except Fault α} (h : FaultsAt { place with part } x) :
    FaultsAt place x :=
  h

theorem faultsAt_requireText (name : String) (v : Json) :
    FaultsAt place (requireText place name v) := by
  cases v with
  | str s => exact faultsAt_ok s
  | _ => exact faultsAt_fail (by simp)

theorem faultsAt_optional (ms : Members) (name : String) :
    FaultsAt place (optional place ms name) := by
  unfold optional
  split
  · exact faultsAt_ok none
  · exact (faultsAt_requireText name _).map some

theorem faultsAt_required (ms : Members) (name : String) :
    FaultsAt place (required place kind ms name) := by
  unfold required
  split
  · exact faultsAt_fail (by simp)
  · exact faultsAt_requireText name _

theorem faultsAt_withDefault (ms : Members) (name default : String) :
    FaultsAt place (withDefault place ms name default) :=
  (faultsAt_optional ms name).map (·.getD default)

theorem faultsAt_attributeOfJson (v : Json) : FaultsAt place (attributeOfJson place v) := by
  cases v with
  | obj ms =>
    refine (faultsAt_requireText "name" _).bind fun name => ?_
    exact (faultsAt_requireText "value" _).bind fun value => faultsAt_ok _
  | _ => exact faultsAt_fail (by simp)

theorem faultsAt_attributesOfJson (i : Nat) (vs : List Json) :
    FaultsAt place (attributesOfJson place i vs) := by
  induction vs generalizing i with
  | nil => exact faultsAt_ok []
  | cons v vs ih =>
    have hfirst : FaultsAt place (attributeOfJson { place with part := .attributeAt i } v) :=
      (faultsAt_attributeOfJson v).part
    exact hfirst.bind fun a => (ih (i + 1)).bind fun as => faultsAt_ok _

theorem faultsAt_checkTagClass (ms : Members) : FaultsAt place (checkTagClass place ms) := by
  unfold checkTagClass
  split
  · exact faultsAt_ok ()
  · split
    · exact faultsAt_ok ()
    · exact faultsAt_fail (by simp)

theorem faultsAt_tagNameOf (ms : Members) : FaultsAt place (tagNameOf place ms) := by
  unfold tagNameOf
  split
  · exact faultsAt_fail (by simp)
  · exact faultsAt_ok _

theorem faultsAt_tagAttributes (ms : Members) : FaultsAt place (tagAttributes place ms) := by
  unfold tagAttributes
  split
  · exact faultsAt_ok []
  · exact faultsAt_attributesOfJson 0 _
  · exact faultsAt_fail (by simp)

theorem faultsAt_closedOf (ms : Members) : FaultsAt place (closedOf place ms) := by
  unfold closedOf
  split
  · exact faultsAt_ok false
  · exact faultsAt_ok _
  · exact faultsAt_fail (by simp)

theorem faultsAt_tagOfJson (v : Json) : FaultsAt place (tagOfJson place v) := by
  apply FaultsAt.part
  cases v with
  | obj ms =>
    refine (faultsAt_checkTagClass ms).bind fun _ => (faultsAt_tagNameOf ms).bind fun name => ?_
    refine (faultsAt_tagAttributes ms).bind fun attributes =>
      (faultsAt_closedOf ms).bind fun closed => ?_
    refine (faultsAt_requireText "tagName" name).bind fun tagName => ?_
    refine (faultsAt_requireText "attributeString" _).bind fun attributeString => ?_
    exact (faultsAt_requireText "content" _).bind fun content => faultsAt_ok _
  | _ => exact faultsAt_fail (by simp)

theorem faultsAt_optionalTag (ms : Members) : FaultsAt place (optionalTag place ms) := by
  unfold optionalTag
  split
  · exact faultsAt_ok none
  · exact (faultsAt_tagOfJson _).map some

theorem faultsAt_checkNames (ms : Members) : FaultsAt place (checkNames place kind ms) := by
  unfold checkNames
  split
  · exact faultsAt_ok ()
  · exact faultsAt_fail (by simp)

theorem faultsAt_draftOf (kind : Kind) (ms : Members) : FaultsAt place (draftOf place kind ms) := by
  cases kind with
  | paragraph | blockQuote | item | thematicBreak | emph | strong | softbreak | linebreak =>
    exact faultsAt_ok _
  | document => exact (faultsAt_withDefault ms "xmlns" _).bind fun _ => faultsAt_ok _
  | heading => exact (faultsAt_required ms "level").bind fun _ => faultsAt_ok _
  | text | code => exact (faultsAt_withDefault ms "text" "").bind fun _ => faultsAt_ok _
  | htmlBlock | htmlInline =>
    exact (faultsAt_withDefault ms "text" "").bind fun _ =>
      (faultsAt_optionalTag ms).bind fun _ => faultsAt_ok _
  | codeBlock =>
    refine (faultsAt_withDefault ms "text" "").bind fun _ =>
      (faultsAt_optional ms "info").bind fun _ => ?_
    exact (faultsAt_optionalTag ms).bind fun _ => faultsAt_ok _
  | list =>
    refine (faultsAt_required ms "type").bind fun _ =>
      (faultsAt_optional ms "start").bind fun _ => ?_
    exact (faultsAt_optional ms "tight").bind fun _ =>
      (faultsAt_optional ms "delimiter").bind fun _ => faultsAt_ok _
  | link | image =>
    exact (faultsAt_required ms "destination").bind fun _ =>
      (faultsAt_required ms "title").bind fun _ => faultsAt_ok _
  | clause =>
    refine (faultsAt_required ms "clauseid").bind fun _ =>
      (faultsAt_required ms "src").bind fun _ => ?_
    exact (faultsAt_optional ms "clauseText").bind fun _ => faultsAt_ok _
  | templateVariable =>
    exact (faultsAt_required ms "id").bind fun _ =>
      (faultsAt_required ms "value").bind fun _ => faultsAt_ok _
  | computedVariable => exact (faultsAt_required ms "value").bind fun _ => faultsAt_ok _

theorem faultsAt_spanOf (kind : Kind) (ms : Members) : FaultsAt place (spanOf place kind ms) := by
  unfold spanOf
  split
  · exact faultsAt_ok none
  · refine (faultsAt_requireText spanKey _).bind fun text => ?_
    split
    · exact faultsAt_ok _
    · exact faultsAt_fail (by simp)

theorem faultsAt_complete (span : Option Span) (children : List Node) (draft : Draft) :
    FaultsAt place (draft.complete place span children) := by
  unfold Draft.complete
  split
  · exact faultsAt_ok _
  · exact faultsAt_ok _
  · split
    · exact faultsAt_ok _
    · exact faultsAt_fail (by simp)

/-- The class of a node is refused as composite just if it is. -/
theorem kindOf_eq_error {f : Fault} (h : kindOf place ms = .error f) :
    f.place = place ∧ (f.reason = .compositeClass ↔ hasCompositeClass (.obj ms)) := by
  rw [hasCompositeClass]
  unfold kindOf at h
  cases hgiven : ms.given? classKey with
  | none =>
    rw [hgiven] at h
    cases h
    exact ⟨rfl, by simp⟩
  | some v =>
    rw [hgiven] at h
    cases v with
    | str tag =>
      dsimp only at h
      split at h
      · cases h
      · cases h
        exact ⟨rfl, by simp [Json.isComposite]⟩
    | arr vs | obj members =>
      cases h
      exact ⟨rfl, by simp [Json.isComposite]⟩
    | _ =>
      cases h
      exact ⟨rfl, by simp [Json.isComposite]⟩

theorem not_hasCompositeClass_of_kindOf (h : kindOf place ms = .ok kind) :
    hasCompositeClass (.obj ms) = false := by
  rw [hasCompositeClass, Members.given?, kindOf_eq_ok h]
  rfl

/-- The node at fault: the one at the place of the fault, at which the class is refused as composite
just if it is. -/
structure Blames (place : Place) (v : Json) (f : Fault) (below : List Nat) (u : Json) : Prop where
  place : f.place.indices = place.indices ++ below
  node : nodeAt? below v = some u
  composite : f.reason = .compositeClass ↔ hasCompositeClass u

/-- A fault of a node itself, and not of one below it. -/
structure IsOwn (place : Place) (v : Json) (f : Fault) : Prop where
  place : f.place.indices = place.indices
  composite : f.reason = .compositeClass ↔ hasCompositeClass v

theorem FaultsAt.isOwn {x : Except Fault α} {f : Fault} {v : Json} (h : FaultsAt place x)
    (hf : x = .error f) (plain : hasCompositeClass v = false) : IsOwn place v f where
  place := (h f hf).1
  composite := iff_of_false (h f hf).2 (by simp [plain])

theorem IsOwn.blames {f : Fault} {v : Json} (h : IsOwn place v f) : Blames place v f [] v where
  place := by rw [h.place, List.append_nil]
  node := rfl
  composite := h.composite

/-- The first child that is refused; those before it are taken. -/
structure IsFirstRefused (place : Place) (vs : List Json) (j : Nat) (v : Json)
    (f : Fault) : Prop where
  here : vs[j]? = some v
  refused : nodeOfJson (place.child j) v = .error f
  before : ∀ k < j, ∃ w n, vs[k]? = some w ∧ nodeOfJson (place.child k) w = .ok n

theorem nodesOfJson_eq_error {vs : List Json} {i : Nat} {f : Fault}
    (h : nodesOfJson place i vs = .error f) :
    ∃ j v, vs[j]? = some v ∧
      nodeOfJson (place.child (i + j)) v = .error f ∧
        ∀ k < j, ∃ w n, vs[k]? = some w ∧ nodeOfJson (place.child (i + k)) w = .ok n := by
  induction vs generalizing i with
  | nil => cases h
  | cons v vs ih =>
    rw [nodesOfJson] at h
    obtain hv | ⟨n, hn, h⟩ := bind_eq_error h
    · exact ⟨0, v, rfl, hv, by simp⟩
    · obtain hvs | ⟨ns, -, h⟩ := bind_eq_error h
      · obtain ⟨j, u, hu, hf, hbefore⟩ := ih hvs
        refine ⟨j + 1, u, hu, by rwa [Nat.add_assoc, Nat.add_comm 1] at hf, fun k hk => ?_⟩
        cases k with
        | zero => exact ⟨v, n, rfl, hn⟩
        | succ k =>
          obtain ⟨w, m, hw, hm⟩ := hbefore k (Nat.lt_of_succ_lt_succ hk)
          exact ⟨w, m, hw, by rwa [Nat.add_assoc, Nat.add_comm 1] at hm⟩
      · cases h

/-- The children of a node are refused for one of them, or for being no list. -/
theorem childrenOf_eq_error {f : Fault} (h : childrenOf place ms = .error f) :
    f = ⟨place, .childrenNotList⟩ ∨ ∃ j v, IsFirstRefused place (childValues ms) j v f := by
  rw [childrenOf_eq] at h
  rw [childValues, Json.itemsAt]
  cases hget : ms.get? childrenKey with
  | none =>
    rw [hget] at h
    cases h
  | some v =>
    rw [hget] at h
    cases v with
    | arr vs =>
      obtain ⟨j, u, hu, hf, hbefore⟩ := nodesOfJson_eq_error h
      simp only [Nat.zero_add] at hf hbefore
      exact .inr ⟨j, u, hu, hf, hbefore⟩
    | _ =>
      cases h
      exact .inl rfl

/-- A node is refused for something of its own, or for the first child that is refused. -/
theorem nodeOfJson_eq_error {f : Fault} (h : nodeOfJson place (.obj ms) = .error f) :
    IsOwn place (.obj ms) f ∨ ∃ j v, IsFirstRefused place (childValues ms) j v f := by
  rw [nodeOfJson] at h
  obtain hkind | ⟨kind, hkind, h⟩ := bind_eq_error h
  · obtain ⟨rfl, hcomposite⟩ := kindOf_eq_error hkind
    exact .inl ⟨rfl, hcomposite⟩
  have hplain := not_hasCompositeClass_of_kindOf hkind
  obtain hnames | ⟨_, -, h⟩ := bind_eq_error h
  · exact .inl ((faultsAt_checkNames ms).isOwn hnames hplain)
  obtain hdraft | ⟨draft, -, h⟩ := bind_eq_error h
  · exact .inl ((faultsAt_draftOf kind ms).isOwn hdraft hplain)
  obtain hspan | ⟨span, -, h⟩ := bind_eq_error h
  · exact .inl ((faultsAt_spanOf kind ms).isOwn hspan hplain)
  by_cases room : kind.hasChildren
  · rw [if_pos room] at h
    obtain hchildren | ⟨children, -, h⟩ := bind_eq_error h
    · obtain rfl | hfirst := childrenOf_eq_error hchildren
      · exact .inl ⟨rfl, by simp [hplain]⟩
      · exact .inr hfirst
    · exact .inl ((faultsAt_complete span children draft).isOwn h hplain)
  · rw [if_neg room] at h
    exact .inl ((faultsAt_complete span [] draft).isOwn h hplain)

/-- What is no object is refused as such. -/
theorem isOwn_of_forall_ne {f : Fault} {v : Json} (other : ∀ ms, v ≠ .obj ms)
    (h : nodeOfJson place v = .error f) : IsOwn place v f := by
  have hfault : FaultsAt place (fail place (.notObject v.typeName) : Except Fault Node) :=
    faultsAt_fail (by simp)
  cases v with
  | obj ms => exact absurd rfl (other ms)
  | _ => exact hfault.isOwn h rfl

theorem Blames.child {f : Fault} {below : List Nat} {j : Nat} {u v : Json}
    (hv : (childValues ms)[j]? = some v) (h : Blames (place.child j) v f below u) :
    Blames place (.obj ms) f (j :: below) u where
  place := by rw [h.place, Place.child, List.append_assoc, List.singleton_append]
  node := by rw [nodeAt?, hv, Option.bind_some, h.node]
  composite := h.composite

/-- Whatever is refused, some node in it is at fault. -/
theorem exists_blamed (v : Json) :
    ∀ place f, nodeOfJson place v = .error f → ∃ below u, Blames place v f below u := by
  induction v using Json.inductionOnItems childrenKey with
  | other v hv =>
    intro place f h
    exact ⟨[], v, (isOwn_of_forall_ne hv h).blames⟩
  | obj ms each =>
    intro place f h
    obtain hown | ⟨j, v, hfirst⟩ := nodeOfJson_eq_error h
    · exact ⟨[], _, hown.blames⟩
    · obtain ⟨below, u, hblames⟩ := each v (List.mem_of_getElem? hfirst.here) _ f hfirst.refused
      exact ⟨j :: below, u, hblames.child hfirst.here⟩

end Schema

/-- A refusal is a failure of validation, unless a composite class is looked up. -/
theorem family_schema (f : Schema.Fault) :
    f.reason = .compositeClass ∧ (Fault.schema f).report.family = .type ∨
      f.reason ≠ .compositeClass ∧ (Fault.schema f).report.family = .failure .validation := by
  obtain ⟨place, reason⟩ := f
  cases reason with
  | compositeClass => exact .inl ⟨rfl, rfl⟩
  | _ => exact .inr ⟨by simp, rfl⟩

/-- A value is read as a typed tree, or it is refused for one of its nodes: with a failure of
validation, unless the class of that node is a list or an object. -/
theorem treeOfJson_outcome (v : Json) :
    (∃ n, treeOfJson v = .ok n ∧ n.IsTyped) ∨
    ∃ f u, treeOfJson v = .error (.schema f) ∧ Schema.nodeAt? f.place.indices v = some u ∧
      (Fault.schema f).report.family =
        if Schema.hasCompositeClass u then .type else .failure .validation := by
  cases hread : Schema.nodeOfJson .root v with
  | ok n =>
    exact .inl
      ⟨n, treeOfJson_eq_ok_iff.mpr hread, (Schema.standsFor_of_nodeOfJson v .root n hread).typed⟩
  | error f =>
    obtain ⟨below, u, hplace, hnode, hcomposite⟩ := Schema.exists_blamed v .root f hread
    have hindices : f.place.indices = below := hplace
    refine .inr ⟨f, u, ?_, by rw [hindices, hnode], ?_⟩
    · rw [treeOfJson, Schema.ofJson, hread]
      rfl
    · obtain ⟨hreason, hfamily⟩ | ⟨hreason, hfamily⟩ := family_schema f
      · rw [hfamily, if_pos (hcomposite.mp hreason)]
      · rw [hfamily, if_neg fun hclass => hreason (hcomposite.mpr hclass)]

/-- A class that is a list cannot be looked up. -/
theorem treeOfJson_of_listClass :
    ∃ f, treeOfJson (.obj [("$class", .arr [])]) = .error (.schema f) ∧
      (Fault.schema f).report.family = .type :=
  ⟨⟨.root, .compositeClass⟩, rfl, rfl⟩

end Canonmark
