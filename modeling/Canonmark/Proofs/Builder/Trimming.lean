import Canonmark.Proofs.Builder.Revision

/-! Text that is trimmed as it comes, and trees that are built first and have their texts trimmed
after that. Where no node is given text twice, the trees and the faults are the same. -/
namespace Canonmark

/-- The members with the text trimmed, and without a text that is empty then. -/
def stripText (ms : Members) : Members :=
  match ms.get? "text" with
  | some (.str s) =>
    if Text.trimString s == "" then ms.erase "text" else ms.set "text" (.str (Text.trimString s))
  | _ => ms

theorem stripText_of_not_mem {ms : Members} (h : "text" ∉ ms.names) : stripText ms = ms := by
  rw [stripText, Members.get?_eq_none_iff.mpr h]

theorem get?_stripText {n : String} (apart : n ≠ "text") (ms : Members) :
    (stripText ms).get? n = ms.get? n := by
  unfold stripText
  split
  · split
    · exact Members.get?_erase_ne apart ms
    · exact Members.get?_set_ne apart ms _
  · rfl

theorem stripText_set {n : String} (apart : n ≠ "text") (ms : Members) (v : Json) :
    stripText (ms.set n v) = (stripText ms).set n v := by
  unfold stripText
  rw [Members.get?_set_ne apart.symm]
  split
  · rename_i s hs
    split
    · exact Members.erase_set_ne apart ms v
    · -- a text that is there keeps its place, whichever member is set first
      have here : "text" ∈ ms.names := Members.get?_isSome_iff.mp (by rw [hs, Option.isSome_some])
      exact Members.set_comm apart here v _
  · rfl

theorem isUnnoticed_stripText : IsUnnoticed stripText where
  cls := get?_stripText (by decide)
  children := stripText_set (by decide)

/-- What has been set as the text is trimmed, or taken away again if nothing of it is left. -/
theorem stripText_setText {ms : Members} (fresh : "text" ∉ ms.names) (s : String) :
    stripText (ms.set "text" (.str s)) =
      if Text.trimString s == "" then ms else ms.set "text" (.str (Text.trimString s)) := by
  simp only [stripText, Members.get?_set_self, Members.erase_set_self,
    Members.erase_of_not_mem fresh, Members.set_set_self]

/-- An event that brings no content but text. -/
def Event.holdsText : Event → Bool
  | .value _ => false
  | _ => true

namespace Builder

/-- The members of a node of class `tag` that had no text, with a first one if there is any to
store. -/
def firstText (tag : String) (ms : Members) (s : String) : Members :=
  if s ≠ "" ∧ ClassTag.storesText tag then ms.set "text" (.str s) else ms

theorem takeText_of_not_mem {tag : String} {ms : Members} (fresh : "text" ∉ ms.names) (trim : Bool)
    (content : String) :
    takeText ⟨trim, false⟩ tag ms content =
      .ok (firstText tag ms (if trim then Text.trimString content else content)) := by
  unfold takeText storeText addText firstText
  rw [Members.get?_eq_none_iff.mpr fresh]
  dsimp only
  generalize (if trim then Text.trimString content else content) = s
  by_cases hs : s = ""
  · simp [hs]
  · by_cases stores : ClassTag.storesText tag
    · simp [hs, stores, Except.map]
    · simp [hs, stores, Except.map]

/-- A first text can be trimmed before it is stored or after. -/
theorem stripText_firstText (tag : String) {ms : Members} (fresh : "text" ∉ ms.names) (s : String) :
    stripText (firstText tag ms s) = firstText tag ms (Text.trimString s) := by
  have hempty : Text.trimString "" = "" := rfl
  unfold firstText
  by_cases hs : s = ""
  · simp [hs, hempty, stripText_of_not_mem fresh]
  · by_cases stores : ClassTag.storesText tag
    · simp [hs, stores, stripText_setText fresh]
    · simp [stores, stripText_of_not_mem fresh]

theorem takeText_stripText (tag : String) {ms : Members} (fresh : "text" ∉ ms.names)
    (content : String) :
    takeText ⟨true, false⟩ tag (stripText ms) content =
      (takeText ⟨false, false⟩ tag ms content).map stripText := by
  rw [stripText_of_not_mem fresh, takeText_of_not_mem fresh, takeText_of_not_mem fresh, Except.map,
    stripText_firstText tag fresh]
  rfl

/-- An open node: the name that it was opened with, and whether it has been given text. -/
structure Opening where
  name : String
  told : Bool := false

/-- Whether a stream gives no node text more than once, from where some nodes are open. Events after
one that is refused reach no node. -/
def tellsOnce : List Opening → List Event → Bool
  | _, [] => true
  | opened, .openTag name _ :: es => tellsOnce (⟨name, false⟩ :: opened) es
  | [], .text _ :: es => tellsOnce [] es
  | o :: opened, .text _ :: es => !o.told && tellsOnce ({ o with told := true } :: opened) es
  | o :: opened, .closeTag name :: es =>
    if ClassTag.ofElement o.name != ClassTag.ofElement name then true
    else if name == documentName then tellsOnce (o :: opened) es
    else tellsOnce opened es
  | opened, .value _ :: es => tellsOnce opened es
  | _, _ => true

/-- A stream that gives no node text more than once, brings no other content, and leaves to the
builder what it adds itself. -/
structure IsToldOnce (opened : List Opening) (es : List Event) : Prop where
  once : tellsOnce opened es
  texts : ∀ e ∈ es, e.holdsText
  spared : ∀ e ∈ es, e.Spares Element.reserved

variable {opened : List Opening} {o : Opening} {e : Event} {es : List Event} {name : String}
    {f : Frame} {stack : Stack}

theorem IsToldOnce.tail (h : IsToldOnce opened (e :: es)) {next : List Opening}
    (once : tellsOnce next es) : IsToldOnce next es where
  once := once
  texts := (List.forall_mem_cons.mp h.texts).2
  spared := (List.forall_mem_cons.mp h.spared).2

theorem IsToldOnce.cons (h : IsToldOnce opened es) {before : List Opening}
    (once : tellsOnce before (e :: es)) (texts : e.holdsText) (spared : e.Spares Element.reserved) :
    IsToldOnce before (e :: es) where
  once := once
  texts := List.forall_mem_cons.mpr ⟨texts, h.texts⟩
  spared := List.forall_mem_cons.mpr ⟨spared, h.spared⟩

theorem IsToldOnce.openTag {attributes : Members} (h : IsToldOnce (⟨name, false⟩ :: opened) es)
    (spared : ∀ n ∈ Element.reserved, n ∉ attributes.names) :
    IsToldOnce opened (.openTag name attributes :: es) := by
  refine h.cons ?_ rfl spared
  rw [tellsOnce]
  exact h.once

theorem IsToldOnce.text (h : IsToldOnce (⟨name, true⟩ :: opened) es) (content : String) :
    IsToldOnce (⟨name, false⟩ :: opened) (.text content :: es) :=
  h.cons h.once rfl trivial

theorem IsToldOnce.closeTag (h : IsToldOnce opened es) (other : name ≠ documentName) (told : Bool) :
    IsToldOnce (⟨name, told⟩ :: opened) (.closeTag name :: es) := by
  refine h.cons ?_ rfl trivial
  rw [tellsOnce, if_neg (by simp), if_neg (by simpa using other)]
  exact h.once

/-- A frame stands for an open node. If the node has not been given text, it has none. -/
structure StandsFor (f : Frame) (o : Opening) : Prop where
  cls : f.classValue = .str (ClassTag.ofElement o.name)
  bare : f.IsBare
  fresh : o.told = false → "text" ∉ f.members.names

theorem StandsFor.openChildren (stands : StandsFor f o) : StandsFor f.openChildren o where
  cls := (Frame.classValue_openChildren f).trans stands.cls
  bare := .openChildren f
  fresh := by
    intro htold
    obtain ⟨ms, children⟩ := f
    cases children with
    | none =>
      rw [Frame.openChildren, Members.mem_names_set, not_or]
      exact ⟨stands.fresh htold, by decide⟩
    | some vs => exact stands.fresh htold

theorem StandsFor.addChild (stands : StandsFor f o) (v : Json) : StandsFor (f.addChild v) o where
  cls := stands.cls
  bare := .addChild f v
  fresh := stands.fresh

theorem StandsFor.takeText (stands : StandsFor f o) {rules : TextRules} {tag content : String}
    {ms : Members} (h : takeText rules tag f.members content = .ok ms) :
    StandsFor { f with members := ms } { o with told := true } where
  cls := (Frame.classValue_of_retold (retold_of_takeText h)).trans stands.cls
  bare := stands.bare.retold (retold_of_takeText h)
  fresh := nofun

theorem standsFor_opened {attributes : Members}
    (spared : ∀ n ∈ Element.reserved, n ∉ attributes.names) :
    StandsFor ⟨openedMembers name attributes, none⟩ ⟨name, false⟩ where
  cls := classValue_opened name (spared _ (by decide))
  bare := isBare_opened name (spared _ (by decide))
  fresh := fun _ => not_mem_openedMembers (by decide) (spared _ (by decide))

/-- A stack stands for open nodes, frame by frame. -/
def StandFor (stack : Stack) (opened : List Opening) : Prop := List.Forall₂ StandsFor stack opened

theorem StandFor.bare (h : StandFor stack opened) : ∀ f ∈ stack, f.IsBare := by
  induction h with
  | nil => exact nofun
  | cons first _ ih => exact List.forall_mem_cons.mpr ⟨first.bare, ih⟩

theorem StandFor.openTag (h : StandFor stack opened) {attributes : Members}
    (spared : ∀ n ∈ Element.reserved, n ∉ attributes.names) :
    StandFor (openTag stack name attributes) (⟨name, false⟩ :: opened) := by
  rw [openTag_eq_cons]
  refine .cons (standsFor_opened spared) ?_
  cases h with
  | nil => exact .nil
  | cons first rest => exact .cons first.openChildren rest

theorem StandFor.pop (h : StandFor stack (o :: opened)) : StandFor (pop stack) opened := by
  cases h with
  | cons first rest =>
    cases rest with
    | nil => exact .nil
    | cons second rest => exact .cons (second.addChild _) rest

/-- The node that is closed was opened with a name of the same class. -/
theorem StandFor.closeTag (h : StandFor stack opened) {next : Stack}
    (closed : closeTag stack name = .ok next) (told : IsToldOnce opened (.closeTag name :: es)) :
    ∃ others, StandFor next others ∧ IsToldOnce others es := by
  obtain ⟨hne, hnext⟩ := closeTag_eq_ok closed
  cases h with
  | nil => exact absurd rfl hne
  | @cons head o rest opened first below =>
    -- otherwise the closing would have been refused, and nothing would be known of the events after
    -- it
    have hsame : ClassTag.ofElement o.name = ClassTag.ofElement name := by
      have hclass := classValue_of_closeTag closed
      rw [first.cls, Json.str.injEq] at hclass
      exact hclass
    have honce := told.once
    rw [tellsOnce, if_neg (by simp [hsame])] at honce
    by_cases hname : name = documentName
    · rw [if_pos hname] at hnext
      rw [if_pos (by simpa using hname)] at honce
      exact ⟨o :: opened, hnext ▸ .cons first below, told.tail honce⟩
    · rw [if_neg hname] at hnext
      rw [if_neg (by simpa using hname)] at honce
      exact ⟨opened, hnext ▸ StandFor.pop (.cons first below), told.tail honce⟩

/-- What is kept where text is not trimmed: the stack stands for open nodes, and from there on the
stream gives no node text more than once. -/
def Tells (stack : Stack) (es : List Event) : Prop :=
  ∃ opened, StandFor stack opened ∧ IsToldOnce opened es

theorem follows_tells : Follows stripText (some ⟨true, false⟩) (some ⟨false, false⟩) Tells where
  bare := fun stack es ⟨opened, stand, _⟩ => stand.bare
  step := by
    intro stack e es ⟨opened, stand, told⟩
    cases e with
    | openTag name attributes =>
      have hspared : Event.Spares _ (.openTag name attributes) := told.spared _ (by simp)
      refine congrArg Except.ok
        (openTag_revise isUnnoticed_stripText (stripText_of_not_mem ?_) stack)
      exact not_mem_openedMembers (by decide) (hspared _ (by decide))
    | text content =>
      refine text_revise isUnnoticed_stripText fun head hhead => ?_
      cases stand with
      | nil => cases hhead
      | cons first rest =>
        cases hhead
        have honce := told.once
        rw [tellsOnce, Bool.and_eq_true, Bool.not_eq_true'] at honce
        exact ⟨_, first.cls, takeText_stripText _ (first.fresh honce.1) content⟩
    | value content =>
      exact absurd (told.texts _ (List.mem_cons_self ..)) (by simp [Event.holdsText])
    | closeTag name => exact closeTag_revise isUnnoticed_stripText stand.bare name
    | unknown v => rfl
  next := by
    intro stack e es stack' ⟨opened, stand, told⟩ hstep
    have honce := told.once
    cases e with
    | openTag name attributes =>
      have hspared : Event.Spares _ (.openTag name attributes) := told.spared _ (by simp)
      cases hstep
      exact ⟨_, stand.openTag hspared, told.tail honce⟩
    | text content =>
      cases stand with
      | nil =>
        cases hstep
        exact ⟨[], .nil, told.tail honce⟩
      | cons first rest =>
        rw [step, text_cons first.cls] at hstep
        obtain ⟨ms, hms, rfl⟩ := map_eq_ok hstep
        rw [tellsOnce, Bool.and_eq_true] at honce
        exact ⟨_, .cons (first.takeText hms) rest, told.tail honce.2⟩
    | value content =>
      exact absurd (told.texts _ (List.mem_cons_self ..)) (by simp [Event.holdsText])
    | closeTag name => exact stand.closeTag hstep told
    | unknown v => cases hstep

end Builder

variable {on off : Option Options}

/-- The tree with trimmed texts is the one that is built with them, for a stream that gives no node
text twice. -/
theorem buildTree_stripText (hon : textRules on = some ⟨true, false⟩)
    (hoff : textRules off = some ⟨false, false⟩)
    {events : List Event} (told : Builder.IsToldOnce [] events) :
    buildTree events on = (buildTree events off).map (reviseNodes stripText) := by
  have h : Builder.Tells [] events := ⟨[], .nil, told⟩
  exact Builder.follows_tells.buildTree isUnnoticed_stripText hon hoff h

end Canonmark
