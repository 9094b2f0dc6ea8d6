import Canonmark.Proofs.Builder.Element
import Canonmark.Proofs.Node.Acceptance
import Canonmark.Proofs.Outcome
import Mathlib.Data.List.DropRight
import Mathlib.Data.List.Induction

/-! A builder at work. Events come in any order, some of them are refused, and the builder can be
set back at any time. After each of these the open nodes are a way down the last children of one
tree, and the nodes of this tree are the ones that were opened, in the order in which they were. -/
namespace Canonmark.Builder

/-- What can be done with a builder. -/
inductive Action where
  | openTag (name : String) (attributes : Members)
  | text (content : String)
  | closeTag (name : String)
  | reset

namespace Action

/-- The event that an action is. A reset is none. -/
def event? : Action → Option Event
  | openTag name attributes => some (.openTag name attributes)
  | text content => some (.text content)
  | closeTag name => some (.closeTag name)
  | reset => none

def isReset : Action → Bool
  | reset => true
  | _ => false

def isOpening : Action → Bool
  | openTag .. => true
  | _ => false

/-- Attributes have one value for each name, and leave class and children to the builder. -/
def IsFit : Action → Prop
  | openTag _ attributes =>
    attributes.names.Nodup ∧ Schema.classKey ∉ attributes.names ∧
      Schema.childrenKey ∉ attributes.names
  | _ => True

instance : DecidablePred IsFit
  | openTag .. => inferInstanceAs (Decidable (_ ∧ _ ∧ _))
  | text _ | closeTag _ | reset => inferInstanceAs (Decidable True)

end Action

/-- An action and the fault that it ended in, if it did. -/
abbrev Entry := Action × Option Fault

/-- Whether an action took a node off the stack: a document stays. -/
def isClosing : Entry → Bool
  | (.closeTag name, none) => name != documentName
  | _ => false

/-- What has been done since the builder was last set back. -/
def sinceReset (record : List Entry) : List Entry := record.rtakeWhile fun e => !e.1.isReset

/-- The nodes in progress, and what has been done so far. -/
structure Session where
  stack : Stack := []
  record : List Entry := []

namespace Session

/-- Goes on with an action, also after one that has failed. -/
def perform (rules : Option TextRules) (s : Session) (a : Action) : Session :=
  let (stack, fault?) := match a.event? with
    | some e => feed rules s.stack [e]
    | none => ([], none)
  { stack, record := s.record ++ [(a, fault?)] }

def run (rules : Option TextRules) (actions : List Action) : Session :=
  actions.foldl (perform rules) {}

theorem run_concat (rules : Option TextRules) (actions : List Action) (a : Action) :
    run rules (actions ++ [a]) = (run rules actions).perform rules a := by
  rw [run, run, List.foldl_append, List.foldl_cons, List.foldl_nil]

end Session

/-- The members of a node apart from those that the builder adds. -/
def ownMembers (ms : Members) : Members := ms.filter fun m => !Element.reserved.contains m.1

/-- What a node is opened with: its class and its attributes, but for a text and a tag. -/
def label (ms : Members) : Json × Members :=
  ((ms.get? Schema.classKey).getD .null, ownMembers ms)

/-- The label of the node that an action opens. -/
def Action.label? : Action → Option (Json × Members)
  | openTag name attributes => some (.str (ClassTag.ofElement name), ownMembers attributes)
  | _ => none

/-- The members of every node of a tree, parents first. -/
def nodesOf : Json → List Members := Json.fold Schema.childrenKey fun ms below => ms :: below

/-- A node has a list of children if and only if it has a child. -/
def IsLazy (ms : Members) : Prop := ms.has Schema.childrenKey ↔ Schema.childValues ms ≠ []

/-- Lets the innermost node join the one below it. -/
def pop : Stack → Stack
  | head :: parent :: rest => parent.addChild head.node :: rest
  | _ => []

theorem length_pop (stack : Stack) : (pop stack).length = stack.length - 1 := by
  match stack with
  | [] | [_] | _ :: _ :: _ => rfl

/-- The node that each frame holds, the innermost first: what it will have become once the nodes
above it are closed. -/
def held : Stack → List Json
  | [] => []
  | head :: rest => head.node :: held (pop (head :: rest))
termination_by stack => stack.length
decreasing_by simp [length_pop]

/-- The tree that the frame at the bottom holds. -/
def tree? (stack : Stack) : Option Json := (held stack).getLast?

theorem ownMembers_set {n : String} (h : n ∈ Element.reserved) (ms : Members) (v : Json) :
    ownMembers (ms.set n v) = ownMembers ms := by
  induction ms with
  | nil => simp [Members.set, ownMembers, h]
  | cons p ms ih =>
    obtain ⟨k, w⟩ := p
    rw [Members.set]
    split_ifs with hk
    · simp [ownMembers, show k = n from beq_iff_eq.mp hk, h]
    · rw [ownMembers, ownMembers, List.filter_cons, List.filter_cons, ← ownMembers,
        ih, ← ownMembers]

theorem label_set {n : String} (h : n ∈ Element.reserved) (other : n ≠ Schema.classKey)
    (ms : Members) (v : Json) : label (ms.set n v) = label ms := by
  rw [label, label, ownMembers_set h, Members.get?_set_ne other.symm]

/-- What text may do to the members of a node. -/
structure Retold (ms ms' : Members) : Prop where
  label : label ms' = label ms
  children : Schema.childrenKey ∈ ms'.names ↔ Schema.childrenKey ∈ ms.names

theorem Retold.refl (ms : Members) : Retold ms ms := ⟨rfl, Iff.rfl⟩

theorem Retold.set {ms ms' : Members} (h : Retold ms ms') {n : String} (hn : n = "text" ∨ n = "tag")
    (v : Json) : Retold ms (ms'.set n v) where
  label := by
    rw [← h.label]
    obtain rfl | rfl := hn <;> exact label_set (by decide) (by decide) ms' v
  children := by
    rw [Members.mem_names_set, h.children]
    obtain rfl | rfl := hn <;> exact or_iff_left (by decide)

theorem Retold.addTag {ms ms' : Members} (h : Retold ms ms') (tag : String) :
    Retold ms (addTag tag ms') := by
  unfold Builder.addTag
  split
  · exact h.set (.inr rfl) _
  · exact h

theorem retold_of_addText {ms ms' : Members} {content : String} (h : addText ms content = .ok ms') :
    Retold ms ms' := by
  unfold addText at h
  split at h
  · cases h
    exact (Retold.refl ms).set (.inl rfl) _
  · cases h
    exact (Retold.refl ms).set (.inl rfl) _
  · cases h

/-- The stack after an action, and its fault: a node is opened, the innermost one is told a text or
closed, nothing changes, or all is dropped. -/
inductive Outcome (stack : Stack) : Action → Stack → Option Fault → Prop
  | opened (name : String) (attributes : Members) :
      Outcome stack (.openTag name attributes) (openTag stack name attributes) none
  | told {head : Frame} {rest : Stack} {ms : Members} (content : String)
      (here : stack = head :: rest) (retold : Retold head.members ms) :
      Outcome stack (.text content) ({ head with members := ms } :: rest) none
  | closed {name : String} (other : name ≠ documentName) (here : stack ≠ []) :
      Outcome stack (.closeTag name) (pop stack) none
  | kept {a : Action} {fault? : Option Fault} (other : ¬ a.isOpening) (noReset : ¬ a.isReset)
      (stays : ¬ isClosing (a, fault?)) : Outcome stack a stack fault?
  | dropped : Outcome stack .reset [] none

theorem text_eq_ok {rules : Option TextRules} {stack stack' : Stack} {content : String}
    (h : text rules stack content = .ok stack') :
    stack' = stack ∨ ∃ head rest ms, stack = head :: rest ∧ Retold head.members ms ∧
      stack' = { head with members := ms } :: rest := by
  cases rules with
  | none => cases h
  | some rules =>
    unfold text at h
    dsimp only at h
    generalize (if rules.trim then Text.trimString content else content) = content at h
    cases stack with
    | nil => exact .inl (Except.ok.inj h).symm
    | cons head rest =>
      dsimp only at h
      split at h
      · exact .inl (Except.ok.inj h).symm
      split at h
      · cases h
      · cases h
      · rename_i tag _
        have retold : ∃ ms, Retold head.members ms ∧ stack' =
              { head with members := if rules.tagInfo then addTag tag ms else ms } :: rest := by
          split at h
          · obtain ⟨ms, hms, hstack⟩ := bind_eq_ok h
            exact ⟨ms, retold_of_addText hms, (Except.ok.inj hstack).symm⟩
          · exact ⟨head.members, .refl _, (Except.ok.inj h).symm⟩
        obtain ⟨ms, hms, hstack⟩ := retold
        refine .inr ⟨head, rest, _, rfl, ?_, hstack⟩
        split_ifs
        · exact hms.addTag tag
        · exact hms
      · exact .inl (Except.ok.inj h).symm

theorem closeTag_eq_ok {stack stack' : Stack} {name : String}
    (h : closeTag stack name = .ok stack') :
    stack ≠ [] ∧ stack' = if name = documentName then stack else pop stack := by
  cases stack with
  | nil => cases h
  | cons head rest =>
    refine ⟨List.cons_ne_nil _ _, ?_⟩
    unfold closeTag at h
    dsimp only at h
    split at h
    · split at h
      · cases h
      split at h
      · rename_i hname
        rw [if_pos (beq_iff_eq.mp hname), Except.ok.inj h]
      · rename_i hname
        rw [if_neg fun heq => hname (beq_iff_eq.mpr heq)]
        cases rest <;> exact (Except.ok.inj h).symm
    · cases h

theorem feed_singleton (rules : Option TextRules) (stack : Stack) (e : Event) :
    feed rules stack [e] =
      match step rules stack e with
      | .ok stack => (stack, none)
      | .error f => (stack, some f) := rfl

theorem outcome_perform (rules : Option TextRules) (s : Session) (a : Action) :
    ∃ fault?, (s.perform rules a).record = s.record ++ [(a, fault?)] ∧
      Outcome s.stack a (s.perform rules a).stack fault? := by
  refine ⟨_, rfl, ?_⟩
  cases a with
  | openTag name attributes => exact .opened name attributes
  | text content =>
    simp only [Session.perform, Action.event?, feed_singleton, step]
    cases h : text rules s.stack content with
    | error f => exact .kept nofun nofun nofun
    | ok stack =>
      obtain rfl | ⟨head, rest, ms, hstack, retold, rfl⟩ := text_eq_ok h
      · exact .kept nofun nofun nofun
      · exact .told content hstack retold
  | closeTag name =>
    simp only [Session.perform, Action.event?, feed_singleton, step]
    cases h : closeTag s.stack name with
    | error f => exact .kept nofun nofun nofun
    | ok stack =>
      obtain ⟨here, rfl⟩ := closeTag_eq_ok h
      split_ifs with hname
      · exact .kept nofun nofun (by simp [isClosing, hname])
      · exact .closed hname here
  | reset => exact .dropped

/-- A frame keeps its list of children as a member once it has one, and all nodes in it are lazy. -/
structure IsGrown (f : Frame) : Prop where
  bare : f.children = none → Schema.childrenKey ∉ f.members.names
  below : ∀ v ∈ f.children.getD [], ∀ ms ∈ nodesOf v, IsLazy ms

theorem nodesOf_obj (ms : Members) :
    nodesOf (.obj ms) = ms :: (Schema.childValues ms).flatMap nodesOf := by
  rw [nodesOf, Json.fold_obj, Json.foldAll_eq_flatMap]
  rfl

theorem IsGrown.node {f : Frame} (grown : IsGrown f) :
    ∃ ms : Members, f.node = .obj ms ∧ label ms = label f.members ∧
      Schema.childValues ms = f.children.getD [] ∧
      (ms.has Schema.childrenKey ↔ f.children ≠ none) := by
  obtain ⟨ms, children⟩ := f
  cases children with
  | none =>
    have hnone : ms.get? Schema.childrenKey = none := Members.get?_eq_none_iff.mpr (grown.bare rfl)
    exact ⟨ms, rfl, rfl, by simp [Schema.childValues, Json.itemsAt, hnone],
      by simp [Members.has, hnone]⟩
  | some vs =>
    refine ⟨_, rfl, label_set (by decide) (by decide) ms _, ?_, ?_⟩
    · simp [Schema.childValues, Json.itemsAt]
    · simp [Members.has]

/-- Only a frame in which a child is open has an empty list. -/
theorem IsGrown.lazy {f : Frame} (grown : IsGrown f) (top : f.children ≠ some []) :
    ∀ ms ∈ nodesOf f.node, IsLazy ms := by
  obtain ⟨own, hnode, _, hvalues, hhas⟩ := grown.node
  intro ms hms
  rw [hnode, nodesOf_obj, List.mem_cons, hvalues] at hms
  obtain rfl | hms := hms
  · rw [IsLazy, hhas, hvalues]
    cases h : f.children with
    | none => simp
    | some vs =>
      rw [h] at top
      simpa using top
  · obtain ⟨v, hv, hms⟩ := List.mem_flatMap.mp hms
    exact grown.below v hv ms hms

theorem IsGrown.addChild {f : Frame} (grown : IsGrown f) {v : Json}
    (lazy : ∀ ms ∈ nodesOf v, IsLazy ms) : IsGrown (f.addChild v) where
  bare := nofun
  below := by
    intro w hw
    obtain hw | hw := List.mem_append.mp (show w ∈ f.children.getD [] ++ [v] from hw)
    · exact grown.below w hw
    · rw [List.mem_singleton.mp hw]
      exact lazy

theorem children_openChildren (f : Frame) :
    f.openChildren.children = some (f.children.getD []) := by
  obtain ⟨ms, children⟩ := f
  cases children <;> rfl

theorem IsGrown.openChildren {f : Frame} (grown : IsGrown f) : IsGrown f.openChildren where
  bare := by
    rw [children_openChildren]
    nofun
  below := by
    rw [children_openChildren]
    exact grown.below

/-- Every frame that another one stands on has a list of children, and no list is empty for long. -/
structure IsGrowing (stack : Stack) : Prop where
  frames : ∀ f ∈ stack, IsGrown f
  top : ∀ f ∈ stack.head?, f.children ≠ some []

theorem isGrowing_nil : IsGrowing [] := ⟨nofun, nofun⟩

theorem IsGrowing.pop {stack : Stack} (growing : IsGrowing stack) : IsGrowing (pop stack) := by
  match stack, growing with
  | [], _ | [_], _ => exact isGrowing_nil
  | head :: parent :: rest, ⟨frames, top⟩ =>
    have hhead := frames head (by simp)
    have hparent := frames parent (by simp)
    constructor
    · intro f hf
      obtain rfl | hf := List.mem_cons.mp hf
      · exact hparent.addChild (hhead.lazy (top head rfl))
      · exact frames f (by simp [hf])
    · rintro f ⟨⟩
      simp [Frame.addChild]

theorem IsGrowing.openTag {stack : Stack} (growing : IsGrowing stack) {name : String}
    {attributes : Members} (fit : (Action.openTag name attributes).IsFit) :
    IsGrowing (openTag stack name attributes) := by
  obtain ⟨once, noClass, noChildren⟩ := fit
  rw [Element.openTag_eq once noClass]
  constructor
  · intro f hf
    obtain rfl | hf := List.mem_cons.mp hf
    · refine ⟨fun _ => ?_, nofun⟩
      rw [Members.names_cons, List.mem_cons, not_or]
      exact ⟨by decide, noChildren⟩
    · cases stack with
      | nil => cases hf
      | cons parent rest =>
        obtain rfl | hf := List.mem_cons.mp hf
        · exact (growing.frames parent (by simp)).openChildren
        · exact growing.frames f (by simp [hf])
  · rintro f ⟨⟩
    nofun

theorem IsGrowing.outcome {stack stack' : Stack} {a : Action} {fault? : Option Fault}
    (h : Outcome stack a stack' fault?) (fit : a.IsFit) (growing : IsGrowing stack) :
    IsGrowing stack' := by
  cases h with
  | opened name attributes => exact growing.openTag fit
  | told content here retold =>
    subst here
    rename_i head rest ms
    have hhead := growing.frames head (by simp)
    constructor
    · intro f hf
      obtain rfl | hf := List.mem_cons.mp hf
      · exact ⟨fun h hkey => hhead.bare h (retold.children.mp hkey), hhead.below⟩
      · exact growing.frames f (by simp [hf])
    · rintro f ⟨⟩
      exact growing.top head rfl
  | closed other here => exact growing.pop
  | kept => exact growing
  | dropped => exact isGrowing_nil

theorem tree?_singleton (f : Frame) : tree? [f] = some f.node := by
  simp [tree?, held, Builder.pop]

theorem tree?_cons (head parent : Frame) (rest : Stack) :
    tree? (head :: parent :: rest) = tree? (parent.addChild head.node :: rest) := by
  simp [tree?, held, Builder.pop]

/-- What the nodes of a tree were opened with. -/
def labelsOf (v : Json) : List (Json × Members) := (nodesOf v).map label

/-- The labels of the node of a frame and of its closed children. -/
def frameLabels (f : Frame) : List (Json × Members) :=
  label f.members :: (f.children.getD []).flatMap labelsOf

def stackLabels (stack : Stack) : List (Json × Members) := stack.reverse.flatMap frameLabels

theorem stackLabels_cons (f : Frame) (rest : Stack) :
    stackLabels (f :: rest) = stackLabels rest ++ frameLabels f := by
  simp [stackLabels]

theorem labelsOf_node {f : Frame} (grown : IsGrown f) : labelsOf f.node = frameLabels f := by
  obtain ⟨ms, hnode, hlabel, hvalues, _⟩ := grown.node
  rw [labelsOf, hnode, nodesOf_obj, List.map_cons, hlabel, hvalues, List.map_flatMap]
  rfl

theorem frameLabels_addChild (f : Frame) (v : Json) :
    frameLabels (f.addChild v) = frameLabels f ++ labelsOf v := by
  simp [frameLabels, Frame.addChild]

theorem frameLabels_openChildren (f : Frame) : frameLabels f.openChildren = frameLabels f := by
  obtain ⟨ms, children⟩ := f
  cases children with
  | none =>
    simp [frameLabels, Frame.openChildren,
      label_set (n := Schema.childrenKey) (by decide) (by decide)]
  | some vs => rfl

/-- A node that is closed keeps its place. -/
theorem stackLabels_pop {head parent : Frame} {rest : Stack}
    (growing : IsGrowing (head :: parent :: rest)) :
    stackLabels (pop (head :: parent :: rest)) = stackLabels (head :: parent :: rest) := by
  rw [pop, stackLabels_cons, stackLabels_cons, stackLabels_cons, frameLabels_addChild,
    labelsOf_node (growing.frames head (by simp)), List.append_assoc]

/-- The tree has the labels of the stack, from the bottom up. -/
theorem IsGrowing.exists_tree : ∀ {stack : Stack}, IsGrowing stack → stack ≠ [] →
    ∃ t, tree? stack = some t ∧ labelsOf t = stackLabels stack ∧ ∀ ms ∈ nodesOf t, IsLazy ms
  | [], _, here => absurd rfl here
  | [f], growing, _ => by
    have grown := growing.frames f (by simp)
    refine ⟨f.node, tree?_singleton f, ?_, grown.lazy (growing.top f rfl)⟩
    rw [labelsOf_node grown]
    simp [stackLabels]
  | head :: parent :: rest, growing, _ => by
    obtain ⟨t, ht, hlabels, hlazy⟩ := growing.pop.exists_tree (List.cons_ne_nil _ _)
    refine ⟨t, (tree?_cons head parent rest).trans ht, ?_, hlazy⟩
    rw [hlabels, stackLabels_pop growing]
termination_by stack => stack.length
decreasing_by simp [length_pop]

variable {rules : Option TextRules}

/-- The actions `since` are those from the one on that opened the node at the bottom: the builder
was idle before them, and has not been so ever since. -/
structure IsSinceBottom (idle : List Action → Prop) (before since : List Action) : Prop where
  fresh : idle before
  busy : ∀ p, p ≠ [] → p <+: since → ¬ idle (before ++ p)

theorem depth_outcome {stack stack' : Stack} {a : Action} {fault? : Option Fault}
    (h : Outcome stack a stack' fault?) (noReset : ¬ a.isReset) :
    stack'.length + (if isClosing (a, fault?) then 1 else 0) =
      stack.length + if a.isOpening then 1 else 0 := by
  cases h with
  | opened name attributes => cases stack <;> rfl
  | told content here => rw [here]; rfl
  | closed other here =>
    have hpos := List.length_pos_iff.mpr here
    simp [isClosing, Action.isOpening, other, length_pop, Nat.sub_add_cancel hpos]
  | kept other _ stays => simp [other, stays]
  | dropped => exact absurd rfl noReset

theorem labels_outcome {stack stack' : Stack} {a : Action} {fault? : Option Fault}
    (h : Outcome stack a stack' fault?) (fit : a.IsFit) (growing : IsGrowing stack)
    (here : stack' ≠ []) : stackLabels stack' = stackLabels stack ++ a.label?.toList := by
  cases h with
  | opened name attributes =>
    obtain ⟨once, noClass, _⟩ := fit
    rw [Element.openTag_eq once noClass, stackLabels_cons]
    cases stack with
    | nil => simp [Element.opened, Action.label?, frameLabels, label, ownMembers, Element.reserved]
    | cons parent rest =>
      rw [Element.opened, stackLabels_cons, frameLabels_openChildren, ← stackLabels_cons]
      simp [Action.label?, frameLabels, label, ownMembers, Element.reserved]
  | told content hstack retold =>
    subst hstack
    simp [stackLabels_cons, frameLabels, retold.label, Action.label?]
  | closed other hne =>
    match stack, growing, hne, here with
    | [_], _, _, here => exact absurd rfl here
    | head :: parent :: rest, growing, _, _ =>
      rw [stackLabels_pop growing]
      simp [Action.label?]
  | kept other =>
    cases a with
    | openTag => exact absurd rfl other
    | _ => simp [Action.label?]
  | dropped => exact absurd rfl here

theorem isGrowing_run {actions : List Action} (fit : ∀ a ∈ actions, a.IsFit) :
    IsGrowing (Session.run rules actions).stack := by
  induction actions using List.reverseRecOn with
  | nil => exact isGrowing_nil
  | append_singleton actions a ih =>
    obtain ⟨_, _, houtcome⟩ := outcome_perform rules (Session.run rules actions) a
    rw [Session.run_concat]
    exact (ih fun b hb => fit b (by simp [hb])).outcome houtcome (fit a (by simp))

theorem sinceReset_concat (record : List Entry) {e : Entry} (noReset : e.1.isReset = false) :
    sinceReset (record ++ [e]) = sinceReset record ++ [e] := by
  rw [sinceReset, List.rtakeWhile_concat]
  simp [noReset, sinceReset]

theorem depth_run (actions : List Action) :
    (Session.run rules actions).stack.length +
        (sinceReset (Session.run rules actions).record).countP isClosing =
      (sinceReset (Session.run rules actions).record).countP (·.1.isOpening) := by
  induction actions using List.reverseRecOn with
  | nil => rfl
  | append_singleton actions a ih =>
    obtain ⟨fault?, hrecord, houtcome⟩ := outcome_perform rules (Session.run rules actions) a
    rw [Session.run_concat]
    cases hreset : a.isReset with
    | true =>
      cases a with
      | reset => simp [Session.perform, sinceReset, Action.event?, Action.isReset]
      | _ => cases hreset
    | false =>
      have hdepth := depth_outcome houtcome (by simp [hreset])
      rw [hrecord, sinceReset_concat _ hreset]
      simp only [List.countP_append, List.countP_singleton]
      omega

private theorem filterMap_singleton {α β : Type} (f : α → Option β) (a : α) :
    [a].filterMap f = (f a).toList := by
  cases h : f a <;> simp [h]

theorem stackLabels_run {actions : List Action} (fit : ∀ a ∈ actions, a.IsFit)
    (here : (Session.run rules actions).stack ≠ []) :
    ∃ before since, actions = before ++ since ∧
      IsSinceBottom (fun as => (Session.run rules as).stack = []) before since ∧
      stackLabels (Session.run rules actions).stack = since.filterMap Action.label? := by
  induction actions using List.reverseRecOn with
  | nil => exact absurd rfl here
  | append_singleton actions a ih =>
    have hfit : ∀ b ∈ actions, b.IsFit := fun b hb => fit b (by simp [hb])
    obtain ⟨_, _, houtcome⟩ := outcome_perform rules (Session.run rules actions) a
    rw [← Session.run_concat] at houtcome
    have hlabels := labels_outcome houtcome (fit a (by simp)) (isGrowing_run hfit) here
    by_cases hstack : (Session.run rules actions).stack = []
    · refine ⟨actions, [a], rfl, ⟨hstack, fun p hp hprefix => ?_⟩, ?_⟩
      · obtain rfl | hnil := List.prefix_concat_iff.mp (show p <+: [] ++ [a] from hprefix)
        · exact here
        · exact absurd (List.prefix_nil.mp hnil) hp
      · rw [hlabels, hstack, filterMap_singleton]
        rfl
    · obtain ⟨before, since, hsplit, hsince, hbelow⟩ := ih hfit hstack
      refine ⟨before, since ++ [a], by rw [hsplit, List.append_assoc], ⟨hsince.fresh, ?_⟩, ?_⟩
      · intro p hp hprefix
        obtain rfl | hprefix := List.prefix_concat_iff.mp hprefix
        · rwa [← List.append_assoc, ← hsplit]
        · exact hsince.busy p hp hprefix
      · rw [hlabels, hbelow, List.filterMap_append, filterMap_singleton]

end Canonmark.Builder
