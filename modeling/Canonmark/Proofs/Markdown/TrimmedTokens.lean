import Canonmark.Proofs.Builder.Trimming
import Canonmark.Proofs.Markdown.TokenEvents

/-! Tokens give every node its text at once, so that trimming can be left until the tree of a text
is finished. -/
namespace Canonmark.Markdown.TokenForm

open Builder (IsToldOnce documentName)

/-- Events of whole elements, in which no node is given text twice. They can stand before any
others. -/
def IsQuiet (es : List Event) : Prop :=
  ∀ opened rest, IsToldOnce opened rest → IsToldOnce opened (es ++ rest)

variable {name : String} {attributes : Members} {es ds : List Event}

theorem isQuiet_nil : IsQuiet [] := fun _ _ told => told

theorem IsQuiet.append (h : IsQuiet es) (h' : IsQuiet ds) : IsQuiet (es ++ ds) := by
  intro opened rest told
  rw [List.append_assoc]
  exact h opened _ (h' opened rest told)

theorem IsQuiet.element (h : IsQuiet es) (other : name ≠ documentName)
    (spared : ∀ n ∈ Element.reserved, n ∉ attributes.names) :
    IsQuiet (Event.element name attributes es) := by
  intro opened rest told
  have hclose := told.closeTag other false
  rw [Event.element, List.append_assoc, List.cons_append]
  exact (h _ _ hclose).openTag spared

theorem isQuiet_leaf (other : name ≠ documentName)
    (spared : ∀ n ∈ Element.reserved, n ∉ attributes.names) (text : String) :
    IsQuiet (Event.leaf name attributes text) := by
  rw [Event.leaf]
  split
  · exact isQuiet_nil.element other spared
  · intro opened rest told
    exact ((told.closeTag other true).text text).openTag spared

/-- What a walk gives, if anything, is quiet. -/
def GivesQuiet (r : Except Token.Fault (List Event)) : Prop := ∀ es, r = .ok es → IsQuiet es

theorem givesQuiet_ok (h : IsQuiet es) : GivesQuiet (.ok es) := by
  rintro _ ⟨⟩
  exact h

theorem givesQuiet_error (f : Token.Fault) : GivesQuiet (.error f) := nofun

theorem GivesQuiet.element {r : Except Token.Fault (List Event)} (h : GivesQuiet r)
    (other : name ≠ documentName) (spared : ∀ n ∈ Element.reserved, n ∉ attributes.names) :
    GivesQuiet (r.map (Event.element name attributes)) := by
  intro es hes
  obtain ⟨content, hcontent, rfl⟩ := map_eq_ok hes
  exact (h content hcontent).element other spared

variable {content : List Token} {ms : Members}

/-- No properties of a list or a code have a reserved name. -/
theorem listAttributes_spared (numbering : Option Numbering) (tight : Bool) :
    ∀ n ∈ Element.reserved, n ∉ Members.names (Token.listAttributes numbering tight) := by
  cases numbering with
  | none =>
    change ∀ n ∈ Element.reserved, n ∉ ["type", "tight"]
    decide
  | some _ =>
    change ∀ n ∈ Element.reserved, n ∉ ["type", "tight", "start", "delimiter"]
    decide

theorem infoAttributes_spared (info : String) :
    ∀ n ∈ Element.reserved, n ∉ Members.names (Token.infoAttributes info) := by
  unfold Token.infoAttributes
  dsimp only
  split
  · exact fun _ _ => nofun
  · change ∀ n ∈ Element.reserved, n ∉ ["info"]
    decide

theorem givesQuiet_verbatim (v : Verbatim) (raw : String) :
    GivesQuiet (Token.events (.verbatim v raw)) := by
  rw [Token.events]
  exact givesQuiet_ok (isQuiet_leaf (by cases v <;> decide) (by decide) raw)

theorem givesQuiet_sign (s : Sign) : GivesQuiet (Token.events (.sign s)) := by
  rw [Token.events]
  exact givesQuiet_ok (isQuiet_nil.element (by cases s <;> decide) (by decide))

theorem givesQuiet_text (raw : String) : GivesQuiet (Token.events (.text raw)) := by
  rw [Token.events]
  exact givesQuiet_ok (isQuiet_leaf (by decide) (by decide) _)

theorem givesQuiet_codeBlock (info raw : String) :
    GivesQuiet (Token.events (.codeBlock info raw)) := by
  rw [Token.events]
  exact givesQuiet_ok (isQuiet_leaf (by decide) (infoAttributes_spared info) raw)

theorem givesQuiet_wrapper (w : Wrapper) (below : GivesQuiet (Token.eventsOf content)) :
    GivesQuiet (Token.events (.wrapper w content)) := by
  rw [Token.events]
  exact below.element (by cases w <;> decide) (by decide)

theorem givesQuiet_reference (r : Reference) (destination title : Json)
    (below : GivesQuiet (Token.eventsOf content)) :
    GivesQuiet (Token.events (.reference r destination title content)) := by
  rw [Token.events]
  apply below.element
  · cases r <;> decide
  · change ∀ n ∈ Element.reserved, n ∉ ["destination", "title"]
    decide

theorem givesQuiet_heading (level : String) (below : GivesQuiet (Token.eventsOf content)) :
    GivesQuiet (Token.events (.heading level content)) := by
  rw [Token.events]
  apply below.element (by decide)
  change ∀ n ∈ Element.reserved, n ∉ ["level"]
  decide

theorem givesQuiet_list (numbering : Option Numbering)
    (tight : Bool) (below : GivesQuiet (Token.eventsOf content)) :
    GivesQuiet (Token.events (.list numbering tight content)) := by
  rw [Token.events]
  exact below.element (by decide) (listAttributes_spared numbering tight)

theorem givesQuiet_makeOf {α : Type} {part : Except Flaw α}
    {make : α → Token} (h : ∀ a, GivesQuiet (Token.events (make a))) :
    GivesQuiet (Token.events (Token.makeOf part make)) := by
  cases part with
  | error flaw =>
    rw [Token.makeOf, Token.events]
    exact givesQuiet_error _
  | ok a => exact h a

variable {raw : String}

theorem givesQuiet_ofAttributes? {type : String} {attributes : Members} {t : Token}
    (hraw : Token.memberOr ms "raw" = .str raw) (below : GivesQuiet (Token.eventsOf content))
    (h : Token.ofAttributes? type ms attributes (.ok content) = some t) :
    GivesQuiet (Token.events t) := by
  unfold Token.ofAttributes? at h
  split at h
  · cases h
    exact givesQuiet_makeOf fun title => givesQuiet_reference _ _ title below
  · cases h
    exact givesQuiet_makeOf fun level => givesQuiet_heading level below
  · cases h
    exact givesQuiet_makeOf fun numbering => givesQuiet_list numbering _ below
  · cases h
    rw [hraw]
    exact givesQuiet_makeOf fun info => givesQuiet_codeBlock info raw
  · cases h

/-- The texts of a token are texts of single nodes. -/
theorem givesQuiet_ofParts (type : String) (hraw : Token.memberOr ms "raw" = .str raw)
    (below : GivesQuiet (Token.eventsOf content)) :
    GivesQuiet (Token.events (Token.ofParts type ms (.ok content))) := by
  unfold Token.ofParts
  rw [hraw]
  split
  · exact givesQuiet_wrapper _ below
  · exact givesQuiet_verbatim _ raw
  · exact givesQuiet_sign _
  · split
    · rw [Token.events]
      exact givesQuiet_ok isQuiet_nil
    · exact givesQuiet_text raw
    · dsimp only
      split
      · rw [Token.events]
        exact givesQuiet_error _
      · rename_i t ht
        split
        · exact givesQuiet_ofAttributes? hraw below ht
        · rw [Token.events]
          exact givesQuiet_error _

theorem givesQuiet_all {vs : List Json} (h : ∀ v ∈ vs, GivesQuiet (Token.events (Token.ofJson v))) :
    GivesQuiet (Token.eventsOf (Token.ofJsons vs)) := by
  induction vs with
  | nil => exact givesQuiet_ok isQuiet_nil
  | cons v vs ih =>
    intro es hes
    rw [Token.ofJsons, Token.eventsOf] at hes
    obtain ⟨first, hfirst, hes⟩ := bind_eq_ok hes
    obtain ⟨others, hothers, hes⟩ := bind_eq_ok hes
    cases hes
    exact (h v (by simp) first hfirst).append (ih (fun w hw => h w (by simp [hw])) others hothers)

theorem givesQuiet_of_shaped {v : Json} (h : Shaped v) :
    GivesQuiet (Token.events (Token.ofJson v)) := by
  induction h with
  | @token ms shape below ih =>
    have hbelow : GivesQuiet (Token.eventsOf (Token.ofJsons (childTokens ms))) := givesQuiet_all ih
    rw [ofJson_eq, contentOf_of_shape shape]
    split
    · exact givesQuiet_ofParts _ (memberOr_eq shape.raw) hbelow
    · split_ifs
      all_goals
        rw [Token.events]
        exact givesQuiet_error _

/-- The stream of a document with shaped tokens. -/
theorem isToldOnce_documentEvents {tokens : List Json} (shaped : ∀ v ∈ tokens, Shaped v)
    {events : List Event} (h : Token.documentEvents (Token.ofJsons tokens) = .ok events) :
    IsToldOnce [] events := by
  obtain ⟨content, hcontent, rfl⟩ := map_eq_ok h
  have quiet : IsQuiet content :=
    givesQuiet_all (fun v hv => givesQuiet_of_shaped (shaped v hv)) content hcontent
  have hclose : IsToldOnce [⟨documentName, false⟩] [.closeTag documentName] :=
    ⟨rfl, by decide, by decide⟩
  refine IsToldOnce.openTag (quiet _ _ hclose) ?_
  change ∀ n ∈ Element.reserved, n ∉ ["xmlns"]
  decide

/-- Trimming text as it comes gives the tree with trimmed texts, or the same fault, for every stream
that gives no node text more than once. The tokens of a markdown text give such a stream. -/
theorem buildTree_trimmed {on off : Option Options} (hon : textRules on = some ⟨true, false⟩)
    (hoff : textRules off = some ⟨false, false⟩) :
    (∀ events, IsToldOnce [] events →
        buildTree events on = (buildTree events off).map (reviseNodes stripText)) ∧
      ∀ tokens : List Json, (∀ v ∈ tokens, Shaped v) →
        (tokenEvents (Token.tokensOf (.arr tokens)) >>= (buildTree · on)) =
          (tokenEvents (Token.tokensOf (.arr tokens)) >>= (buildTree · off)).map
          (reviseNodes stripText) := by
  refine ⟨fun events told => buildTree_stripText hon hoff told, fun tokens shaped => ?_⟩
  rw [tokenEvents, Token.tokensOf]
  cases hevents : Token.documentEvents (Token.ofJsons tokens) with
  | error f => rfl
  | ok events => exact buildTree_stripText hon hoff (isToldOnce_documentEvents shaped hevents)

/-- A paragraph with a text between blanks and a code of nothing but blanks. -/
def spacedText : List Json := [
  .obj [("type", .str "paragraph"), ("children", .arr [
    .obj [("type", .str "text"), ("raw", .str " a ")],
    .obj [("type", .str "codespan"), ("raw", .str "  ")]])]]

theorem shaped_spacedText : ∀ v ∈ spacedText, Shaped v := by
  have hleaf : ∀ type raw : String, type ∈ ["text", "codespan"] →
      Shaped (.obj [("type", .str type), ("raw", .str raw)]) := by
    intro type raw htype
    simp only [List.mem_cons, List.not_mem_nil, or_false] at htype
    refine .token ⟨?_, by rintro v ⟨⟩, by rintro v ⟨⟩, by rintro _ v ⟨⟩, ?_, by rintro _ v ⟨⟩⟩
      (by rintro v ⟨⟩)
    · rintro v ⟨⟩
      exact ⟨raw, rfl⟩
    · obtain rfl | rfl := htype <;> simp [typeOf]
  rintro _ (_ | ⟨_, ⟨⟩⟩)
  refine .token
    ⟨by rintro v ⟨⟩, by rintro v ⟨⟩, ?_, by rintro _ v ⟨⟩, by simp [typeOf], by rintro _ v ⟨⟩⟩ ?_
  · rintro v ⟨⟩
    exact .inr ⟨_, rfl⟩
  · rintro _ (_ | ⟨_, _ | ⟨_, ⟨⟩⟩⟩)
    · exact hleaf "text" " a " (by simp)
    · exact hleaf "codespan" "  " (by simp)

/-- A text before all nodes, one that is stored, and the end of a node that is not open. -/
def strayText : List Event :=
  [ .text "a", .openTag "document" [], .openTag "html_block" [], .text " <p> ",
    .closeTag "html_block", .closeTag "item"]

theorem buildTree_spacedText :
    ∃ on off, textRules on = some ⟨true, false⟩ ∧ textRules off = some ⟨false, false⟩ ∧
      (∀ v ∈ spacedText, Shaped v) ∧
      (tokenEvents (Token.tokensOf (.arr spacedText)) >>= (buildTree · on)) = .ok (.obj [
        ("$class", .str "org.accordproject.commonmark.Document"),
        ("xmlns", .str "http://commonmark.org/xml/1.0"),
        ("nodes", .arr [.obj [
          ("$class", .str "org.accordproject.commonmark.Paragraph"),
          ("nodes", .arr [
            .obj [("$class", .str "org.accordproject.commonmark.Text"), ("text", .str "a")],
            .obj [("$class", .str "org.accordproject.commonmark.Code")]])]])]) ∧
      IsToldOnce [] strayText ∧
      buildTree strayText on = .error (.builder (.mismatch "item" "Document")) := by
  have hon : textRules (some ⟨.markdownParser, [("trim_text", .bool true)]⟩) = some ⟨true, false⟩ :=
    rfl
  have hoff : textRules none = some ⟨false, false⟩ := rfl
  have told : IsToldOnce [] strayText := ⟨by decide, by decide, by decide⟩
  obtain ⟨hstream, htokens⟩ := buildTree_trimmed hon hoff
  refine ⟨_, _, hon, hoff, shaped_spacedText, ?_, told, ?_⟩
  · rw [htokens spacedText shaped_spacedText]
    rfl
  · rw [hstream strayText told]
    rfl

end Canonmark.Markdown.TokenForm
