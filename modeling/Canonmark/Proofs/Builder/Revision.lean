import Canonmark.Proofs.Builder.Session
import Canonmark.Proofs.Json.Revision

/-! Two builders that take in one stream side by side. If a revision of the members tells what one
of them holds from what the other one holds, and text is handled so that this stays so, it tells the
trees and the faults as well. -/
namespace Canonmark

open Schema (classKey childrenKey)

/-- A revision of members that the builder does not notice: the class stays, and children can be
given to a node before or after it. -/
structure IsUnnoticed (g : Members → Members) : Prop where
  cls : ∀ ms, (g ms).get? classKey = ms.get? classKey
  children : ∀ ms v, g (ms.set childrenKey v) = (g ms).set childrenKey v

variable {g : Members → Members}

/-- A tree with the members of all its nodes revised. -/
def reviseNodes (g : Members → Members) : Json → Json := Json.revise childrenKey g

namespace Frame

def revise (g : Members → Members) (f : Frame) : Frame :=
  ⟨g f.members, f.children.map (Json.reviseAll childrenKey g)⟩

/-- Nothing stands in the place of the children until there are some. -/
def IsBare (f : Frame) : Prop := f.children = none → childrenKey ∉ f.members.names

theorem IsBare.openChildren (f : Frame) : f.openChildren.IsBare := by
  obtain ⟨ms, children⟩ := f
  cases children <;> nofun

theorem IsBare.addChild (f : Frame) (v : Json) : (f.addChild v).IsBare := nofun

theorem get?_class {f : Frame} {tag : String} (h : f.classValue = .str tag) :
    f.members.get? classKey = some (.str tag) := by
  rw [classValue] at h
  cases hclass : f.members.get? classKey with
  | none =>
    rw [hclass] at h
    cases h
  | some v => rw [← h, hclass, Option.getD_some]

/-- The node of a frame has the members of the frame, and the children as well. -/
theorem IsBare.exists_members {f : Frame} (bare : f.IsBare) :
    ∃ ms : Members, f.node = .obj ms ∧
      Schema.childValues ms = f.children.getD [] ∧ ∀ n, n ≠ childrenKey →
      ms.get? n = f.members.get? n := by
  obtain ⟨ms, children⟩ := f
  cases children with
  | none =>
    have hnone : ms.get? childrenKey = none := Members.get?_eq_none_iff.mpr (bare rfl)
    exact ⟨ms, rfl, by simp [Schema.childValues, Json.itemsAt, hnone], fun _ _ => rfl⟩
  | some vs =>
    refine ⟨_, rfl, ?_, fun n hn => Members.get?_set_ne hn ms _⟩
    simp [Schema.childValues, Json.itemsAt]

theorem classValue_revise (unnoticed : IsUnnoticed g) (f : Frame) :
    (f.revise g).classValue = f.classValue := by
  rw [classValue, classValue, revise, unnoticed.cls]

theorem node_revise (unnoticed : IsUnnoticed g) {f : Frame} (bare : f.IsBare) :
    (f.revise g).node = reviseNodes g f.node := by
  obtain ⟨ms, children⟩ := f
  cases children with
  | none =>
    change Json.obj (g ms) = Json.obj (g (Json.reviseIn childrenKey g ms))
    rw [Json.reviseIn_of_not_mem _ _ (bare rfl)]
  | some vs =>
    change Json.obj ((g ms).set childrenKey _) =
      Json.obj (g (Json.reviseIn childrenKey g (ms.set childrenKey _)))
    rw [Json.reviseIn_set, unnoticed.children]
    rfl

theorem openChildren_revise (unnoticed : IsUnnoticed g) (f : Frame) :
    (f.revise g).openChildren = f.openChildren.revise g := by
  obtain ⟨ms, children⟩ := f
  cases children with
  | none =>
    simp only [openChildren, revise, Option.map_none, Option.map_some, unnoticed.children]
    rfl
  | some vs => rfl

theorem addChild_revise (f : Frame) (v : Json) :
    (f.revise g).addChild (reviseNodes g v) = (f.addChild v).revise g := by
  obtain ⟨ms, children⟩ := f
  cases children with
  | none => rfl
  | some vs =>
    simp only [addChild, revise, Option.map_some, Option.getD_some, Json.reviseAll_concat]
    rfl

/-- What a node is told leaves its class as it is, and its children out. -/
theorem classValue_of_retold {f : Frame} {ms : Members} (h : Builder.Retold f.members ms) :
    ({ f with members := ms } : Frame).classValue = f.classValue := congrArg Prod.fst h.label

theorem IsBare.retold {f : Frame} {ms : Members} (bare : f.IsBare)
    (h : Builder.Retold f.members ms) : ({ f with members := ms } : Frame).IsBare :=
  fun hnone hmem => bare hnone (h.children.mp hmem)

end Frame

/-- An event that opens no node with an attribute of these names. -/
def Event.Spares (names : List String) : Event → Prop
  | .openTag _ attributes => ∀ n ∈ names, n ∉ attributes.names
  | _ => True

instance (names : List String) : DecidablePred (Event.Spares names)
  | .openTag .. => inferInstanceAs (Decidable (∀ _ ∈ _, _))
  | .text _ | .value _ | .closeTag _ | .unknown _ => inferInstanceAs (Decidable True)

namespace Builder

/-- The members that a node is opened with. -/
def openedMembers (name : String) (attributes : Members) : Members :=
  attributes.foldl (fun ms (n, v) => Members.set ms n v)
    [(classKey, .str (ClassTag.ofElement name))]

theorem not_mem_openedMembers {name n : String} {attributes : Members} (other : n ≠ classKey)
    (free : n ∉ attributes.names) : n ∉ Members.names (openedMembers name attributes) := by
  rw [openedMembers, Members.mem_names_foldl_set]
  simp [other, free]

theorem isBare_opened {attributes : Members} (name : String)
    (free : childrenKey ∉ attributes.names) :
    (⟨openedMembers name attributes, none⟩ : Frame).IsBare :=
  fun _ => not_mem_openedMembers (by decide) free

theorem classValue_opened {attributes : Members}
    (name : String) (free : classKey ∉ attributes.names) :
    (⟨openedMembers name attributes, none⟩ : Frame).classValue =
    .str (ClassTag.ofElement name) := by
  rw [Frame.classValue, openedMembers, Members.get?_foldl_set_of_not_mem free,
    Members.get?_cons_self, Option.getD_some]

theorem openTag_eq_cons (stack : Stack) (name : String) (attributes : Members) :
    openTag stack name
      attributes = ⟨openedMembers name attributes, none⟩ :: Element.opened stack := by
  cases stack <;> rfl

/-- An opening changes no frame but the one below, which then has children. -/
theorem forall_openTag {P : Frame → Prop} {stack : Stack} {name : String}
    {attributes : Members} (all : ∀ f ∈ stack, P f) (room : ∀ f, P f → P f.openChildren)
    (opened : P ⟨openedMembers name attributes, none⟩) :
    ∀ f ∈ openTag stack name attributes, P f := by
  rw [openTag_eq_cons, List.forall_mem_cons]
  refine ⟨opened, ?_⟩
  cases stack with
  | nil => exact nofun
  | cons parent rest =>
    rw [List.forall_mem_cons] at all
    exact List.forall_mem_cons.mpr ⟨room parent all.1, all.2⟩

/-- Only a node of the class of the name is closed. -/
theorem classValue_of_closeTag {head : Frame} {rest next : Stack}
    {name : String} (h : closeTag (head :: rest) name = .ok next) :
    head.classValue = .str (ClassTag.ofElement name) := by
  unfold closeTag at h
  dsimp only at h
  split at h
  · rename_i tag hhead
    split at h
    · cases h
    · rename_i hsame
      rw [hhead, bne_iff_ne.not_left.mp hsame]
  · cases h

/-- A closing keeps what holds of all frames, if it is kept where a node joins another. -/
theorem forall_closeTag {P : Frame → Prop} {stack next : Stack} {name : String}
    (h : closeTag stack name = .ok next) (all : ∀ f ∈ stack, P f)
    (join : ∀ f head, P f → P head → P (f.addChild head.node)) : ∀ f ∈ next, P f := by
  obtain ⟨-, rfl⟩ := closeTag_eq_ok h
  split_ifs
  · exact all
  · match stack, all with
    | [], _ | [_], _ => exact nofun
    | head :: parent :: rest, all =>
      rw [List.forall_mem_cons, List.forall_mem_cons] at all
      obtain ⟨hhead, hparent, hrest⟩ := all
      exact List.forall_mem_cons.mpr ⟨join parent head hparent hhead, hrest⟩

def reviseStack (g : Members → Members) (stack : Stack) : Stack := stack.map (Frame.revise g)

theorem openTag_revise (unnoticed : IsUnnoticed g) {name : String} {attributes : Members}
    (fixed : g (openedMembers name attributes) = openedMembers name attributes) (stack : Stack) :
    openTag (reviseStack g stack) name attributes =
    reviseStack g (openTag stack name attributes) := by
  rw [openTag_eq_cons, openTag_eq_cons, reviseStack, reviseStack, List.map_cons]
  congr 1
  · rw [Frame.revise, fixed]
    rfl
  · cases stack with
    | nil => rfl
    | cons parent rest => exact congrArg (· :: _) (Frame.openChildren_revise unnoticed parent)

theorem closeTag_revise (unnoticed : IsUnnoticed g) {stack : Stack}
    (bare : ∀ f ∈ stack, f.IsBare) (name : String) :
    closeTag (reviseStack g stack) name = (closeTag stack name).map (reviseStack g) := by
  cases stack with
  | nil => rfl
  | cons head rest =>
    unfold closeTag
    simp only [reviseStack, List.map_cons, Frame.classValue_revise unnoticed]
    cases head.classValue with
    | str tag =>
      dsimp only
      split
      · rfl
      · split
        · rfl
        · cases rest with
          | nil => rfl
          | cons parent rest =>
            rw [List.map_cons, Frame.node_revise unnoticed (bare head (by simp))]
            exact congrArg (fun f => Except.ok (f :: _)) (Frame.addChild_revise parent head.node)
    | _ => rfl

theorem result_revise (unnoticed : IsUnnoticed g) {stack : Stack} (bare : ∀ f ∈ stack, f.IsBare) :
    result (reviseStack g stack) = (result stack).map (reviseNodes g) := by
  match stack with
  | [] => rfl
  | [root] => exact congrArg Except.ok (Frame.node_revise unnoticed (bare root (by simp)))
  | _ :: _ :: rest =>
    simp only [reviseStack, List.map_cons, result, List.length_cons, List.length_map]
    rfl

theorem value_eq_ok {rules : Option TextRules} {stack stack' : Stack} {content : Json}
    (h : value rules stack content = .ok stack') : stack' = stack := by
  unfold value at h
  grind

theorem value_revise (unnoticed : IsUnnoticed g) {rules rules' : TextRules}
    (same : rules'.trim = rules.trim) (stack : Stack) (content : Json) :
    value (some rules')
      (reviseStack g stack) content = (value (some rules) stack content).map (reviseStack g) := by
  unfold value
  dsimp only
  rw [same]
  split
  · rfl
  · cases stack with
    | nil => rfl
    | cons head rest =>
      simp only [reviseStack, List.map_cons, Frame.classValue_revise unnoticed]
      split
      · rfl
      · cases head.classValue with
        | str tag =>
          dsimp only
          split <;> rfl
        | _ => rfl

/-- The members of a node of class `tag` after `content` has been stored, if it is. -/
def storeText (tag : String) (ms : Members) (content : String) : Except Fault Members :=
  if ClassTag.storesText tag then addText ms content else .ok ms

/-- The members of a node of class `tag` after it has been given text. -/
def takeText (rules : TextRules) (tag : String) (ms : Members) (content : String) :
    Except Fault Members :=
  let content := if rules.trim then Text.trimString content else content
  if content == "" then .ok ms
  else (storeText tag ms content).map fun ms => if rules.tagInfo then addTag tag ms else ms

theorem text_cons {head : Frame} {tag : String} (hhead : head.classValue = .str tag)
    (rules : TextRules) (rest : Stack) (content : String) :
    text (some rules) (head :: rest) content =
      (takeText rules tag head.members content).map fun ms =>
      { head with members := ms } :: rest := by
  unfold text takeText storeText
  dsimp only
  generalize (if rules.trim then Text.trimString content else content) = content
  rw [hhead]
  split
  · rfl
  · by_cases stores : ClassTag.storesText tag
    · simp only [stores, if_true]
      cases addText head.members content <;> rfl
    · simp only [stores]
      rfl

theorem retold_of_storeText {tag content : String} {ms ms' : Members}
    (h : storeText tag ms content = .ok ms') : Retold ms ms' := by
  unfold storeText at h
  split at h
  · exact retold_of_addText h
  · cases h
    exact .refl ms

theorem retold_of_takeText {rules : TextRules} {tag content : String} {ms ms' : Members}
    (h : takeText rules tag ms content = .ok ms') : Retold ms ms' := by
  unfold takeText at h
  dsimp only at h
  generalize (if rules.trim then Text.trimString content else content) = content at h
  split at h
  · cases h
    exact .refl ms
  · obtain ⟨told, htold, rfl⟩ := map_eq_ok h
    split
    · exact (retold_of_storeText htold).addTag tag
    · exact retold_of_storeText htold

/-- A text commutes with a revision if it does so in the innermost node. -/
theorem text_revise (unnoticed : IsUnnoticed g) {rules rules' : TextRules} {stack : Stack}
    {content : String} (taken : ∀ head ∈ stack.head?, ∃ tag, head.classValue = .str tag ∧
      takeText rules' tag (g head.members) content =
      (takeText rules tag head.members content).map g) :
    text (some rules') (reviseStack g stack) content =
    (text (some rules) stack content).map (reviseStack g) := by
  cases stack with
  | nil => rfl
  | cons head rest =>
    obtain ⟨tag, hhead, htaken⟩ := taken head rfl
    have hrevised : (head.revise g).classValue = .str tag := by
      rw [Frame.classValue_revise unnoticed, hhead]
    rw [text_cons hhead, reviseStack, List.map_cons, text_cons hrevised, Frame.revise, htaken]
    cases takeText rules tag head.members content <;> rfl

/-- One builder follows another: as long as `inv` holds of what the second one holds and of the
events ahead, the first one does the same to what the revision makes of it. -/
structure Follows (g : Members → Members) (rules' rules : Option TextRules)
    (inv : Stack → List Event → Prop) : Prop where
  bare : ∀ stack es, inv stack es → ∀ f ∈ stack, f.IsBare
  step : ∀ stack e es, inv stack (e :: es) →
    Builder.step rules' (reviseStack g stack) e = (Builder.step rules stack e).map (reviseStack g)
  next : ∀ stack e es stack', inv stack (e :: es) → Builder.step rules stack e =
    .ok stack' → inv stack' es

variable {rules rules' : Option TextRules} {inv : Stack → List Event → Prop}

theorem Follows.feed (follows : Follows g rules' rules inv) {stack : Stack} {es : List Event}
    (h : inv stack es) :
    Builder.feed rules' (reviseStack g stack) es =
        (reviseStack g (Builder.feed rules stack es).1, (Builder.feed rules stack es).2) ∧
      ((Builder.feed rules stack es).2 = none → inv (Builder.feed rules stack es).1 []) := by
  -- on the stream, for all stacks: a fault ends both runs at once, and leaves each stack as it was
  induction es generalizing stack with
  | nil => exact ⟨rfl, fun _ => h⟩
  | cons e es ih =>
    rw [feed_cons, feed_cons, follows.step stack e es h]
    cases hstep : Builder.step rules stack e with
    | error f => exact ⟨rfl, nofun⟩
    | ok stack' => exact ih (follows.next stack e es stack' h hstep)

/-- The tree and the fault of one builder are told from those of the other. -/
theorem Follows.build (follows : Follows g rules' rules inv)
    (unnoticed : IsUnnoticed g) {es : List Event} (h : inv [] es) :
    Builder.build rules' es = (Builder.build rules es).map (reviseNodes g) := by
  obtain ⟨hfeed, hlast⟩ := follows.feed h
  unfold Builder.build
  rw [show Builder.feed rules' [] es = _ from hfeed]
  cases hrun : Builder.feed rules [] es with
  | mk stack fault? =>
    rw [hrun] at hlast
    cases fault? with
    | none => exact result_revise unnoticed (follows.bare _ _ (hlast rfl))
    | some f => rfl

theorem Follows.buildTree (follows : Follows g rules' rules inv) (unnoticed : IsUnnoticed g)
    {options' options : Option Options} (first : textRules options' = rules')
    (second : textRules options = rules) {es : List Event} (h : inv [] es) :
    Canonmark.buildTree es options' = (Canonmark.buildTree es options).map (reviseNodes g) := by
  unfold Canonmark.buildTree
  rw [first, second, follows.build unnoticed h]
  cases Builder.build rules es <;> rfl

/-- A tree that is built is the node of one frame, of which the builder keeps what it does. -/
theorem Follows.exists_root (follows : Follows g rules' rules inv) {es : List Event}
    (h : inv [] es) {options : Option Options} (second : textRules options = rules)
    {tree : Json} (built : Canonmark.buildTree es options = .ok tree) :
    ∃ root : Frame, tree = root.node ∧ inv [root] [] := by
  have hlast := (follows.feed h).2
  unfold Canonmark.buildTree Builder.build at built
  rw [second] at built
  split at built
  · rename_i stack hfeed
    rw [hfeed] at hlast
    match stack, built with
    | [root], built => exact ⟨root, (Except.ok.inj built).symm, hlast rfl⟩
  · cases built

end Builder
end Canonmark
