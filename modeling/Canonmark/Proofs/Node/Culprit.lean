import Canonmark.Proofs.Node.Refusals

/-! Where a refusal points. The place in its message leads to a node that is refused on its own,
with the same words but for the way to it, and the nodes that stand before those on the way are
taken. -/
namespace Canonmark

namespace Schema

variable {α β : Type} {place : Place} {kind : Kind} {ms : Members}

/-- The place, if its node is read alone. -/
def Place.here (p : Place) : Place := { p with indices := [] }

/-- A fault of a node that the indices lead to. -/
def Fault.under (above : List Nat) (f : Fault) : Fault :=
  { f with place := { f.place with indices := above ++ f.place.indices } }

/-- A fault as it is found if the node at fault is read alone. -/
def Fault.alone (f : Fault) : Fault := { f with place := f.place.here }

theorem Fault.under_append (above below : List Nat) (f : Fault) :
    f.under (above ++ below) = (f.under below).under above := by
  simp [Fault.under]

/-- The way to a node from the root, as it is written in messages. -/
def nodesText (indices : List Nat) : String := String.join (indices.map Place.step)

/-- What may stand behind the way to a node: nothing, its tag, or an attribute of its tag. -/
inductive IsPartText : String → Prop
  | node : IsPartText ""
  | tag : IsPartText ".tag"
  | attribute (index : Nat) : IsPartText (".tag.attributes[" ++ Place.number index ++ "]")

theorem exists_partText (part : Part) :
    ∃ tail, IsPartText tail ∧
      ∀ indices, Place.text ⟨indices, part⟩ = "$" ++ nodesText indices ++ tail := by
  cases part with
  | node => exact ⟨_, .node, fun _ => rfl⟩
  | tag => exact ⟨_, .tag, fun _ => rfl⟩
  | attributeAt i => exact ⟨_, .attribute i, fun _ => rfl⟩

/-- A text that holds the place, and is the same at any place but for this. -/
def Quotes (text : Place → String) : Prop := ∃ before after, ∀ p, text p = before ++ p.text ++ after

theorem quotes_after (s : String) : Quotes fun p => s ++ p.text :=
  ⟨s, "", fun _ => String.append_empty.symm⟩

theorem Quotes.append {text : Place → String} (h : Quotes text) (s : String) :
    Quotes fun p => text p ++ s := by
  obtain ⟨before, after, htext⟩ := h
  exact ⟨before, after ++ s, fun p => by simp only [htext, String.append_assoc]⟩

/-- Every message says where its fault lies. -/
theorem quotes_message (reason : Reason) : Quotes fun p => Fault.message ⟨p, reason⟩ := by
  cases reason with
  | tagNotObject | tagWithoutName | attributesNotList | attributeNotObject | closedNotBoolean
      | childrenNotList
  | noClass | compositeClass => exact (quotes_after _).append _
  | notObject | notText | tagOfClass => exact ((quotes_after _).append _).append _
  | unknownClass | unknownProperties | missingProperty | badSpan => exact quotes_after _
  | badLevel => exact ((quotes_after _).append _).append _

/-- A check that knows the way to its node only to name it in its fault. -/
def IsMovable (check : Place → Except Fault α) : Prop :=
  ∀ place, check place = (check place.here).mapError (Fault.under place.indices)

theorem isMovable_ok (a : α) : IsMovable fun _ => .ok a := fun _ => rfl

theorem isMovable_fail (reason : Reason) :
    IsMovable fun place => (fail place reason : Except Fault α) := by
  intro place
  simp [fail, Except.mapError, Fault.under, Place.here]

theorem IsMovable.bind {check : Place → Except Fault α} {next : α → Place → Except Fault β}
    (h : IsMovable check) (hnext : ∀ a, IsMovable (next a)) :
    IsMovable fun place => check place >>= (next · place) := by
  intro place
  dsimp only
  rw [h place]
  cases check place.here with
  | error f => rfl
  | ok a => exact hnext a place

theorem IsMovable.map {check : Place → Except Fault α} (h : IsMovable check) (g : α → β) :
    IsMovable fun place => (check place).map g := by
  intro place
  dsimp only
  rw [h place]
  cases check place.here <;> rfl

theorem IsMovable.part {check : Place → Except Fault α} (h : IsMovable check) (part : Part) :
    IsMovable fun place => check { place with part } := fun place => h { place with part }

/-- A check of a child is moved with its parent. -/
theorem IsMovable.child {check : Place → Except Fault α} (h : IsMovable check) (i : Nat) :
    IsMovable fun place => check (place.child i) := by
  intro place
  have hhere : (place.here.child i).here = (place.child i).here := rfl
  dsimp only
  rw [h (place.child i), h (place.here.child i), hhere]
  cases check (place.child i).here with
  | ok a => rfl
  | error f => exact congrArg Except.error (Fault.under_append place.indices [i] f)

theorem isMovable_requireText (name : String) (v : Json) :
    IsMovable fun place => requireText place name v := by
  cases v with
  | str s => exact isMovable_ok s
  | _ => exact isMovable_fail _

theorem isMovable_optional (ms : Members) (name : String) :
    IsMovable fun place => optional place ms name := by
  unfold optional
  cases ms.given? name with
  | none => exact isMovable_ok none
  | some v => exact (isMovable_requireText name v).map some

theorem isMovable_required (kind : Kind) (ms : Members) (name : String) :
    IsMovable fun place => required place kind ms name := by
  unfold required
  cases ms.given? name with
  | none => exact isMovable_fail _
  | some v => exact isMovable_requireText name v

theorem isMovable_withDefault (ms : Members) (name default : String) :
    IsMovable fun place => withDefault place ms name default :=
  (isMovable_optional ms name).map (·.getD default)

theorem isMovable_kindOf (ms : Members) : IsMovable fun place => kindOf place ms := by
  unfold kindOf
  cases ms.given? classKey with
  | none => exact isMovable_fail _
  | some v =>
    cases v with
    | str tag =>
      dsimp only
      cases Kind.ofClassTag? tag with
      | none => exact isMovable_fail _
      | some kind => exact isMovable_ok kind
    | _ => exact isMovable_fail _

theorem isMovable_checkNames (kind : Kind) (ms : Members) :
    IsMovable fun place => checkNames place kind ms := by
  unfold checkNames
  cases ms.names.filter fun n => !(allowed kind).contains n with
  | nil => exact isMovable_ok ()
  | cons first others => exact isMovable_fail _

theorem isMovable_spanOf (kind : Kind) (ms : Members) :
    IsMovable fun place => spanOf place kind ms := by
  unfold spanOf
  cases ms.given? spanKey with
  | none => exact isMovable_ok none
  | some v =>
    refine (isMovable_requireText spanKey v).bind fun text => ?_
    cases Span.ofText text with
    | ok span => exact isMovable_ok (some span)
    | error refusal => exact isMovable_fail _

theorem isMovable_attributeOfJson (v : Json) : IsMovable fun place => attributeOfJson place v := by
  cases v with
  | obj ms =>
    refine (isMovable_requireText "name" _).bind fun name => ?_
    exact (isMovable_requireText "value" _).bind fun value => isMovable_ok _
  | _ => exact isMovable_fail _

theorem isMovable_attributesOfJson (i : Nat) (vs : List Json) :
    IsMovable fun place => attributesOfJson place i vs := by
  induction vs generalizing i with
  | nil => exact isMovable_ok []
  | cons v vs ih =>
    refine ((isMovable_attributeOfJson v).part (.attributeAt i)).bind fun a => ?_
    exact (ih (i + 1)).bind fun as => isMovable_ok _

theorem isMovable_checkTagClass (ms : Members) : IsMovable fun place => checkTagClass place ms := by
  unfold checkTagClass
  cases ms.get? classKey with
  | none => exact isMovable_ok ()
  | some tag =>
    dsimp only
    cases tag.isText ClassTag.tagInfo with
    | true => exact isMovable_ok ()
    | false => exact isMovable_fail _

theorem isMovable_tagNameOf (ms : Members) : IsMovable fun place => tagNameOf place ms := by
  unfold tagNameOf
  cases ms.get? "tagName" with
  | none => exact isMovable_fail _
  | some v => exact isMovable_ok v

theorem isMovable_tagAttributes (ms : Members) : IsMovable fun place => tagAttributes place ms := by
  unfold tagAttributes
  cases ms.get? "attributes" with
  | none => exact isMovable_ok []
  | some v =>
    cases v with
    | arr vs => exact isMovable_attributesOfJson 0 vs
    | _ => exact isMovable_fail _

theorem isMovable_closedOf (ms : Members) : IsMovable fun place => closedOf place ms := by
  unfold closedOf
  cases ms.get? "closed" with
  | none => exact isMovable_ok false
  | some v =>
    cases v with
    | bool b => exact isMovable_ok b
    | _ => exact isMovable_fail _

theorem isMovable_tagOfJson (v : Json) : IsMovable fun place => tagOfJson place v := by
  cases v with
  | obj ms =>
    apply @IsMovable.part _ (fun place => tagOfJson place (.obj ms)) ?_ .tag
    refine ((isMovable_checkTagClass ms).part .tag).bind fun _ => ?_
    refine ((isMovable_tagNameOf ms).part .tag).bind fun name => ?_
    refine ((isMovable_tagAttributes ms).part .tag).bind fun attributes => ?_
    refine ((isMovable_closedOf ms).part .tag).bind fun closed => ?_
    refine ((isMovable_requireText "tagName" name).part .tag).bind fun tagName => ?_
    refine ((isMovable_requireText "attributeString" _).part .tag).bind fun attributeString => ?_
    exact ((isMovable_requireText "content" _).part .tag).bind fun content => isMovable_ok _
  | _ => exact (isMovable_fail _).part .tag

theorem isMovable_optionalTag (ms : Members) : IsMovable fun place => optionalTag place ms := by
  unfold optionalTag
  cases ms.given? "tag" with
  | none => exact isMovable_ok none
  | some v => exact (isMovable_tagOfJson v).map some

theorem isMovable_draftOf (kind : Kind) (ms : Members) :
    IsMovable fun place => draftOf place kind ms := by
  cases kind with
  | paragraph | blockQuote | item | thematicBreak | emph | strong | softbreak | linebreak =>
    exact isMovable_ok _
  | document => exact (isMovable_withDefault ms "xmlns" _).bind fun _ => isMovable_ok _
  | heading => exact (isMovable_required _ ms "level").bind fun _ => isMovable_ok _
  | text | code => exact (isMovable_withDefault ms "text" "").bind fun _ => isMovable_ok _
  | htmlBlock | htmlInline =>
    exact (isMovable_withDefault ms "text" "").bind fun _ =>
      (isMovable_optionalTag ms).bind fun _ => isMovable_ok _
  | codeBlock =>
    refine (isMovable_withDefault ms "text" "").bind fun _ =>
      (isMovable_optional ms "info").bind fun _ => ?_
    exact (isMovable_optionalTag ms).bind fun _ => isMovable_ok _
  | list =>
    refine (isMovable_required _ ms "type").bind fun _ =>
      (isMovable_optional ms "start").bind fun _ => ?_
    exact (isMovable_optional ms "tight").bind fun _ =>
      (isMovable_optional ms "delimiter").bind fun _ => isMovable_ok _
  | link | image =>
    refine (isMovable_required _ ms "destination").bind fun _ => ?_
    exact (isMovable_required _ ms "title").bind fun _ => isMovable_ok _
  | clause =>
    refine (isMovable_required _ ms "clauseid").bind fun _ =>
      (isMovable_required _ ms "src").bind fun _ => ?_
    exact (isMovable_optional ms "clauseText").bind fun _ => isMovable_ok _
  | templateVariable =>
    exact (isMovable_required _ ms "id").bind fun _ =>
      (isMovable_required _ ms "value").bind fun _ => isMovable_ok _
  | computedVariable => exact (isMovable_required _ ms "value").bind fun _ => isMovable_ok _

theorem isMovable_complete (span : Option Span) (children : List Node) (draft : Draft) :
    IsMovable fun place => draft.complete place span children := by
  cases draft with
  | leaf l => exact isMovable_ok _
  | container c => exact isMovable_ok _
  | heading level =>
    unfold Draft.complete
    dsimp only
    cases Level.ofText? level with
    | none => exact isMovable_fail _
    | some l => exact isMovable_ok _

theorem isMovable_nodesOfJson {vs : List Json}
    (each : ∀ v ∈ vs, IsMovable fun place => nodeOfJson place v) (i : Nat) :
    IsMovable fun place => nodesOfJson place i vs := by
  induction vs generalizing i with
  | nil =>
    simp only [nodesOfJson]
    exact isMovable_ok []
  | cons v vs ih =>
    simp only [nodesOfJson]
    refine ((each v (by simp)).child i).bind fun n => ?_
    exact (ih (fun w hw => each w (by simp [hw])) (i + 1)).bind fun ns => isMovable_ok _

theorem isMovable_childrenOf
    (each : ∀ v ∈ childValues ms, IsMovable fun place => nodeOfJson place v) :
    IsMovable fun place => childrenOf place ms := by
  simp only [childrenOf_eq]
  rw [childValues, Json.itemsAt] at each
  cases hget : ms.get? childrenKey with
  | none => exact isMovable_ok []
  | some v =>
    rw [hget] at each
    cases v with
    | arr vs => exact isMovable_nodesOfJson each 0
    | _ => exact isMovable_fail _

/-- A tree is read alike at every place. -/
theorem isMovable_nodeOfJson (v : Json) : IsMovable fun place => nodeOfJson place v := by
  induction v using Json.inductionOnItems childrenKey with
  | other v hv =>
    cases v with
    | obj ms => exact absurd rfl (hv ms)
    | _ => exact isMovable_fail _
  | obj ms each =>
    simp only [nodeOfJson]
    refine (isMovable_kindOf ms).bind fun kind => (isMovable_checkNames kind ms).bind fun _ => ?_
    refine (isMovable_draftOf kind ms).bind fun draft =>
      (isMovable_spanOf kind ms).bind fun span => ?_
    by_cases room : kind.hasChildren
    · simp only [if_pos room]
      exact (isMovable_childrenOf each).bind fun children => isMovable_complete span children draft
    · simp only [if_neg room]
      exact isMovable_complete span [] draft

/-- The node `u` in `v` that a fault points at: it is refused alone for the same reason, and at
every level of the way to it the nodes before the one that the way goes through are taken. -/
structure Culprit (v : Json) (f : Fault) (u : Json) : Prop where
  here : nodeAt? f.place.indices v = some u
  refused : nodeOfJson .root u = .error f.alone
  before : ∀ above i below, f.place.indices = above ++ i :: below → ∀ k < i, ∃ w n,
    nodeAt? (above ++ [k]) v = some w ∧ nodeOfJson .root w = .ok n

theorem culprit_of_isOwn {v : Json} {f : Fault} (h : nodeOfJson .root v = .error f)
    (hown : IsOwn .root v f) : Culprit v f v := by
  have hindices : f.place.indices = [] := hown.place
  constructor
  · rw [hindices, nodeAt?]
  · rw [h, Fault.alone, Place.here, ← hindices]
  · intro above i below hsplit
    rw [hindices] at hsplit
    simp at hsplit

/-- The outcome for a child does not depend on the parent but for the way to it. -/
theorem nodeOfJson_child (v : Json) (j : Nat) :
    nodeOfJson (Place.root.child j) v = (nodeOfJson .root v).mapError (Fault.under [j]) :=
  isMovable_nodeOfJson v (Place.root.child j)

theorem Culprit.child {j : Nat} {v u : Json} {f : Fault} (hv : (childValues ms)[j]? = some v)
    (before : ∀ k < j, ∃ w n, (childValues ms)[k]? = some w ∧ nodeOfJson (Place.root.child k) w =
      .ok n) (h : Culprit v f u) : Culprit (.obj ms) (f.under [j]) u where
  here := by
    rw [Fault.under, List.singleton_append, nodeAt?, hv, Option.bind_some, h.here]
  refused := h.refused
  before := by
    intro above i below hsplit k hk
    rw [Fault.under, List.singleton_append] at hsplit
    cases above with
    | nil =>
      obtain ⟨rfl, -⟩ := List.cons.inj hsplit
      obtain ⟨w, n, hw, hn⟩ := before k hk
      rw [nodeOfJson_child] at hn
      cases hread : nodeOfJson .root w with
      | ok m => exact ⟨w, m, by simp [nodeAt?, hw], hread⟩
      | error e =>
        rw [hread] at hn
        cases hn
    | cons first above =>
      obtain ⟨rfl, hrest⟩ := List.cons.inj hsplit
      obtain ⟨w, n, hw, hn⟩ := h.before above i below hrest k hk
      exact ⟨w, n, by rw [List.cons_append, nodeAt?, hv, Option.bind_some, hw], hn⟩

/-- Every fault points at its culprit. -/
theorem exists_culprit (v : Json) : ∀ f, nodeOfJson .root v = .error f → ∃ u, Culprit v f u := by
  induction v using Json.inductionOnItems childrenKey with
  | other v hv =>
    intro f h
    exact ⟨v, culprit_of_isOwn h (isOwn_of_forall_ne hv h)⟩
  | obj ms each =>
    intro f h
    obtain hown | ⟨j, v, hv, hrefused, hbefore⟩ := nodeOfJson_eq_error h
    · exact ⟨_, culprit_of_isOwn h hown⟩
    · rw [nodeOfJson_child] at hrefused
      cases hread : nodeOfJson .root v with
      | ok n =>
        rw [hread] at hrefused
        cases hrefused
      | error e =>
        rw [hread] at hrefused
        cases hrefused
        obtain ⟨u, hu⟩ := each v (List.mem_of_getElem? hv) e hread
        exact ⟨u, hu.child hv hbefore⟩

end Schema

open Schema (nodesText IsPartText)

theorem message_schema (f : Schema.Fault) : (Fault.schema f).report.message = f.message := by
  obtain ⟨place, reason⟩ := f
  cases reason <;> rfl

/-- What is reported of a fault does not depend on its place, apart from the message. -/
theorem report_schema (p q : Schema.Place) (reason : Schema.Reason) :
    (Fault.schema ⟨q, reason⟩).report =
      { (Fault.schema ⟨p, reason⟩).report with message := Schema.Fault.message ⟨q, reason⟩ } := by
  cases reason <;> rfl

/-- A value that fails validation holds a culprit, which its message points at. The place in the
message is the way down the children, with the tag or an attribute of it at the end; read alone, the
culprit fails likewise, and the message is the same without the way. The nodes before it, at every
level, are read as trees. -/
theorem treeOfJson_culprit {v : Json} {e : Fault} (h : treeOfJson v = .error e)
    (invalid : e.report.family = .failure .validation) :
    ∃ f u before tail after, e = .schema f ∧ IsPartText tail ∧
      (∀ p, Schema.Fault.message ⟨p, f.reason⟩ = before ++ p.text ++ after) ∧
      e.report.message = before ++ ("$" ++ nodesText f.place.indices ++ tail) ++ after ∧
      Schema.nodeAt? f.place.indices v = some u ∧
      (∃ e', treeOfJson u = .error e' ∧
        e'.report = { e.report with message := before ++ ("$" ++ tail) ++ after }) ∧
      ∀ above i below, f.place.indices = above ++ i :: below → ∀ k < i, ∃ w n,
        Schema.nodeAt? (above ++ [k]) v = some w ∧ treeOfJson w = .ok n := by
  obtain ⟨f, hread, rfl⟩ : ∃ f, Schema.nodeOfJson .root v = .error f ∧ Fault.schema f = e := by
    unfold treeOfJson Schema.ofJson at h
    cases hread : Schema.nodeOfJson .root v with
    | ok n => simp [hread, Except.mapError] at h
    | error f => exact ⟨f, rfl, by simpa [hread, Except.mapError] using h⟩
  obtain ⟨u, here, refused, hbefore⟩ := Schema.exists_culprit v f hread
  obtain ⟨tail, htail, hplace⟩ := Schema.exists_partText f.place.part
  obtain ⟨before, after, hmessage⟩ := Schema.quotes_message f.reason
  have hway : f.message = before ++ ("$" ++ nodesText f.place.indices ++ tail) ++ after := by
    rw [← hplace]
    exact hmessage f.place
  have halone : f.alone.message = before ++ ("$" ++ tail) ++ after := by
    rw [show f.alone.message = _ from hmessage f.place.here, Schema.Place.here, hplace]
    rfl
  refine ⟨f, u, before, tail, after, rfl, htail, hmessage, (message_schema f).trans hway, here,
    ⟨.schema f.alone, ?_, ?_⟩, ?_⟩
  · rw [treeOfJson, Schema.ofJson, refused]
    rfl
  · rw [← halone]
    exact report_schema f.place f.place.here f.reason
  · intro above i below hsplit k hk
    obtain ⟨w, n, hw, hn⟩ := hbefore above i below hsplit k hk
    exact ⟨w, n, hw, treeOfJson_eq_ok_iff.mpr hn⟩

/-- An HTML element in the second paragraph of a document, the second attribute of which has a
number as its value. -/
def numberedWidth : Json :=
  .obj [("$class", .str "org.accordproject.commonmark.Document"), ("nodes", .arr [
    .obj [("$class", .str "org.accordproject.commonmark.Paragraph")],
    .obj [("$class", .str "org.accordproject.commonmark.Paragraph"), ("nodes", .arr [
      .obj [("$class", .str "org.accordproject.commonmark.HtmlInline"),
        ("text", .str "<br a=b width=1>"),
        ("tag", .obj [("tagName", .str "br"), ("attributes", .arr [
          .obj [("name", .str "a"), ("value", .str "b")],
          .obj [("name", .str "width"), ("value", .int 1)]])])]])]])]

theorem treeOfJson_numberedWidth :
    ∃ e, treeOfJson numberedWidth = .error e ∧ e.report.family = .failure .validation ∧
      e.report.message =
        "Property 'value' at $.nodes[1].nodes[0].tag.attributes[1] must be a string, got int" ∧
      ∃ f u before tail after, e = .schema f ∧ IsPartText tail ∧
        (∀ p, Schema.Fault.message ⟨p, f.reason⟩ = before ++ p.text ++ after) ∧
        e.report.message = before ++ ("$" ++ nodesText f.place.indices ++ tail) ++ after ∧
        Schema.nodeAt? f.place.indices numberedWidth = some u ∧
        (∃ e', treeOfJson u = .error e' ∧
          e'.report = { e.report with message := before ++ ("$" ++ tail) ++ after }) ∧
        ∀ above i below, f.place.indices = above ++ i :: below → ∀ k < i, ∃ w n,
          Schema.nodeAt? (above ++ [k]) numberedWidth = some w ∧ treeOfJson w = .ok n := by
  have h : treeOfJson numberedWidth =
      .error (.schema ⟨⟨[1, 0], .attributeAt 1⟩, .notText "value" "int"⟩) :=
    rfl
  exact ⟨_, h, rfl, rfl, treeOfJson_culprit h rfl⟩

end Canonmark
