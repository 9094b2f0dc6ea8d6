import Canonmark.Proofs.Builder.Sound
import Canonmark.Proofs.Markdown.TokenForm
import Canonmark.Proofs.Text.Numeral

/-! The events of tokens are those of the nodes that the tokens stand for, and the builder makes a
document of them, unless the walk reaches a token that it refuses. -/
namespace Canonmark.Markdown.TokenForm

open Schema (classKey)

/-- Events of sound elements whose trees are the given nodes. -/
def Converts (nodes : List Json) (r : Except Token.Fault (List Event)) : Prop :=
  ∃ es, r = .ok (Element.eventsOf es) ∧ (∀ e ∈ es, e.Sound) ∧ Element.trees es = nodes

/-- The outcome of a walk that reaches the given tokens: events of the nodes, unless a token is
refused. -/
structure Follows (tokens : List Members) (nodes : List Json)
    (r : Except Token.Fault (List Event)) : Prop where
  converts : tokens.findSome? refusal? = none → Converts nodes r
  refuses : ∀ f, tokens.findSome? refusal? = some f → r = .error f

variable {tokens others : List Members} {nodes more : List Json}
  {r q : Except Token.Fault (List Event)}

theorem trees_append (es ds : List Element) :
    Element.trees (es ++ ds) = Element.trees es ++ Element.trees ds := by
  induction es with
  | nil => rfl
  | cons e es ih => rw [List.cons_append, Element.trees, ih, Element.trees, List.cons_append]

theorem eventsOf_append (es ds : List Element) :
    Element.eventsOf (es ++ ds) = Element.eventsOf es ++ Element.eventsOf ds := by
  induction es with
  | nil => rfl
  | cons e es ih => rw [List.cons_append, Element.eventsOf, ih, Element.eventsOf, List.append_assoc]

theorem refusal?_eq_none_iff {ms : Members} :
    refusal? ms = none ↔ Handled (typeOf ms) ∧ startsLong ms = false := by
  rw [refusal?]
  split_ifs with handled long composite hlong
  all_goals simp_all

theorem refusal?_cases {ms : Members} {f : Token.Fault} (h : refusal? ms = some f) :
    f = .misshapen .longNumber ∨ f = .misshapen .wrongType ∨ ∃ type, f = .unsupported type := by
  rw [refusal?] at h
  split_ifs at h
  · exact .inl (Option.some.inj h).symm
  · exact .inr (.inl (Option.some.inj h).symm)
  · exact .inl (Option.some.inj h).symm
  · exact .inr (.inr ⟨_, (Option.some.inj h).symm⟩)

theorem follows_nil : Follows [] [] (.ok []) where
  converts := fun _ => ⟨[], rfl, by simp, rfl⟩
  refuses := nofun

/-- A walk goes on with what is next, if nothing before was refused. -/
theorem Follows.append (h : Follows tokens nodes r) (h' : Follows others more q) :
    Follows (tokens ++ others) (nodes ++ more)
      (do let first ← r; let last ← q; pure (first ++ last)) := by
  cases hfirst : tokens.findSome? refusal? with
  | some f =>
    obtain rfl := h.refuses f hfirst
    constructor
    · simp [List.findSome?_append, hfirst]
    · intro g hg
      rw [List.findSome?_append, hfirst, Option.some_or, Option.some.injEq] at hg
      rw [hg]
      rfl
  | none =>
    obtain ⟨es, rfl, hes, rfl⟩ := h.converts hfirst
    have hothers : (tokens ++ others).findSome? refusal? = others.findSome? refusal? := by
      rw [List.findSome?_append, hfirst, Option.none_or]
    constructor
    · intro hnone
      obtain ⟨ds, rfl, hds, rfl⟩ := h'.converts (hothers ▸ hnone)
      refine ⟨es ++ ds, ?_, ?_, trees_append es ds⟩
      · rw [eventsOf_append]
        rfl
      · intro e he
        cases List.mem_append.mp he with
        | inl he => exact hes e he
        | inr he => exact hds e he
    · intro f hf
      rw [h'.refuses f (hothers ▸ hf)]
      rfl

theorem Follows.cons {ms : Members} (kept : refusal? ms = none) (h : Follows tokens nodes r) :
    Follows (ms :: tokens) nodes r where
  converts := by simpa [kept] using h.converts
  refuses := by simpa [kept] using h.refuses

theorem follows_refused {ms : Members} {f : Token.Fault} (refused : refusal? ms = some f)
    (tokens : List Members) (nodes : List Json) : Follows (ms :: tokens) nodes (.error f) where
  converts := by simp [refused]
  refuses := by simp [refused]

variable {kind : Kind} {attributes : Members}

/-- An element around what a walk gives. -/
theorem Follows.branch (common : kind.isCommon) (other : kind ≠ .document) (room : kind.hasChildren)
    (suits : Element.Suits kind attributes) (plain : ClassTag.storesText kind.classTag = false)
    (h : Follows tokens nodes r) : Follows tokens (branch kind attributes nodes)
    (r.map (Event.element kind.elementName attributes))
    where
  converts := by
    intro hnone
    obtain ⟨es, rfl, hes, rfl⟩ := h.converts hnone
    refine ⟨[.mk kind.elementName attributes [] es], ?_, ?_, ?_⟩
    · rw [Element.eventsOf, Element.eventsOf, Element.events]
      simp
      rfl
    · intro e he
      rw [List.mem_singleton.mp he]
      exact Element.sound_mk common other suits (.inr room) hes
    · rw [Element.trees, Element.trees, Element.tree, Element.ofElement_elementName common]
      cases es <;> simp [branch, plain, Element.trees, Schema.childrenMember]
  refuses := by
    intro f hf
    rw [h.refuses f hf]
    rfl

/-- An element with a text alone. -/
theorem follows_leaf (common : kind.isCommon) (other : kind ≠ .document)
    (suits : Element.Suits kind attributes) {text : String}
    (stores : text ≠ "" → ClassTag.storesText kind.classTag) :
    Follows [] (leaf kind attributes text) (.ok (Event.leaf kind.elementName attributes text)) where
  converts := by
    intro _
    refine ⟨[.mk kind.elementName attributes (if text = "" then [] else [text]) []], ?_, ?_, ?_⟩
    · by_cases htext : text = ""
      · simp [Element.eventsOf, Element.events, Event.leaf, htext]
      · simp [Element.eventsOf, Element.events, Event.leaf, htext]
    · intro e he
      rw [List.mem_singleton.mp he]
      exact Element.sound_mk common other suits (.inl rfl) (by simp)
    · rw [Element.trees, Element.trees, Element.tree, Element.ofElement_elementName common]
      by_cases htext : text = ""
      · simp [leaf, htext]
      · simp [leaf, stores htext, htext]
  refuses := nofun

/-- Texts with the names of properties make a node complete. -/
theorem suits_of_names (names : List String) (hnames : attributes.names = names)
    (texts : ∀ p ∈ attributes, ∃ s, p.2 = .str s) (once : names.Nodup)
    (known : ∀ n ∈ names, n ∈ kind.properties ∧ n ∉ Element.reserved)
    (needed : ∀ n ∈ kind.needed, n ∈ names)
    (level : kind = .heading → ∃ l : Level, attributes.get? "level" = some (.str l.text)) :
    Element.Suits kind attributes := by
  subst hnames
  refine ⟨⟨?_, fun _ _ h => texts _ (Members.mem_of_get? h), needed, level⟩, once,
    fun n hn => (known n hn).2⟩
  intro n hn
  obtain ⟨hproperty, hfree⟩ := known n hn
  exact ⟨hproperty, fun h => hfree (by simp [h, Element.reserved])⟩

theorem suits_nil (needed : kind.needed = []) (other : kind ≠ .heading) :
    Element.Suits kind [] where
  toTexts := Schema.texts_nil needed other
  once := .nil
  free := nofun

theorem suits_heading (l : Level) : Element.Suits .heading [("level", .str l.text)] where
  toTexts := Schema.texts_heading l
  once := by simp
  free := by
    intro n hn
    obtain rfl : n = "level" := List.mem_singleton.mp hn
    decide

theorem suits_listProperties (ms : Members) : Element.Suits .list (listProperties ms) := by
  unfold listProperties
  dsimp only
  cases isOrdered ms with
  | true =>
    exact suits_of_names ["type", "tight", "start", "delimiter"] rfl (by simp) (by decide)
      (by decide) (by decide) (by simp)
  | false =>
    exact suits_of_names ["type", "tight"] rfl (by simp) (by decide) (by decide) (by decide)
      (by simp)

theorem suits_codeProperties (ms : Members) : Element.Suits .codeBlock (codeProperties ms) := by
  unfold codeProperties
  dsimp only
  split_ifs
  · exact suits_nil rfl (by decide)
  · exact suits_of_names ["info"] rfl (by simp) (by decide) (by decide) (by decide) (by simp)

theorem suits_targetProperties (ms : Members) (r : Reference) :
    Element.Suits r.kind (targetProperties ms) := by
  cases r with
  | link | image =>
    exact suits_of_names ["destination", "title"] rfl (by simp [targetProperties]) (by decide)
      (by decide) (by decide) (by simp [Reference.kind])

variable {ms : Members} {content : List Token}

theorem follows_wrapper (w : Wrapper) (h : Follows tokens nodes (Token.eventsOf content)) :
    Follows tokens (branch w.kind [] nodes) (Token.events (.wrapper w content)) := by
  rw [Token.events]
  cases w with
  | paragraph | blockQuote | item | emph | strong =>
    exact h.branch rfl (by decide) rfl (suits_nil rfl (by decide)) rfl

theorem follows_reference (r : Reference) (ms : Members)
    (h : Follows tokens nodes (Token.eventsOf content)) :
    Follows tokens (branch r.kind (targetProperties ms) nodes)
      (Token.events (.reference r (.str (textAt (attributesOf ms) "url"))
        (.str (textAt (attributesOf ms) "title")) content)) := by
  rw [Token.events]
  have suits := suits_targetProperties ms r
  cases r with
  | link | image => exact h.branch rfl (by decide) rfl suits rfl

theorem follows_verbatim (v : Verbatim) (raw : String) :
    Follows [] (leaf v.kind [] raw) (Token.events (.verbatim v raw)) := by
  rw [Token.events]
  cases v with
  | code | htmlInline | htmlBlock =>
    exact follows_leaf rfl (by decide) (suits_nil rfl (by decide)) fun _ => rfl

theorem follows_sign (s : Sign) : Follows [] (leaf s.kind [] "") (Token.events (.sign s)) := by
  rw [Token.events]
  cases s with
  | thematicBreak | softbreak | linebreak =>
    exact follows_leaf rfl (by decide) (suits_nil rfl (by decide)) (by simp)

theorem follows_text (raw : String) :
    Follows [] (leaf .text [] (Token.decoded raw)) (Token.events (.text raw)) := by
  rw [Token.events]
  exact follows_leaf rfl (by decide) (suits_nil rfl (by decide)) fun _ => rfl

/-- The content is that of the first member of its name. -/
theorem contentOf_eq (ms : Members) :
    Token.contentOf ms =
      match ms.get? "children" with
      | none => .ok []
      | some v => Token.listOf v := by
  induction ms with
  | nil => rfl
  | cons p ms ih =>
    obtain ⟨n, v⟩ := p
    rw [Token.contentOf, Members.get?_cons]
    by_cases hn : n = "children"
    · simp [hn]
    · simp [hn, Ne.symm hn, ih]

theorem contentOf_of_shape (shape : Shape ms) :
    Token.contentOf ms = .ok (Token.ofJsons (childTokens ms)) := by
  rw [contentOf_eq, childTokens, Json.itemsAt]
  cases hv : ms.get? "children" with
  | none => simp [Token.ofJsons]
  | some v =>
    rcases shape.children v hv with rfl | ⟨vs, rfl⟩
    · rfl
    · rfl

theorem membersOf?_of_shape (shape : Shape ms) :
    Token.membersOf? (ms.lookup "attrs") = some (attributesOf ms) := by
  change Token.membersOf? (ms.get? "attrs") = _
  rw [attributesOf]
  cases hv : ms.get? "attrs" with
  | none => rfl
  | some v =>
    rcases shape.attributes v hv with rfl | ⟨attributes, rfl⟩
    · rfl
    · rfl

theorem memberOr_eq {n : String} (h : ∀ v, ms.get? n = some v → ∃ s, v = .str s) :
    Token.memberOr ms n = .str (textAt ms n) := by
  rw [Token.memberOr, textAt, Members.text?]
  cases hv : ms.get? n with
  | none => rfl
  | some v =>
    obtain ⟨s, rfl⟩ := h v hv
    rfl

theorem ofJson_eq (ms : Members) :
    Token.ofJson (.obj ms) =
      match typeOf ms with
      | .str type => Token.ofParts type ms (Token.contentOf ms)
      | type =>
        if type.isComposite then .misshapen .wrongType
        else if type.holdsLong then .misshapen .longNumber
        else .unsupported type := by
  rw [Token.ofJson]
  rfl

theorem ofJson_of_type {t : String} (shape : Shape ms) (ht : typeOf ms = .str t) :
    Token.ofJson (.obj ms) = Token.ofParts t ms (.ok (Token.ofJsons (childTokens ms))) := by
  rw [ofJson_eq, ht, contentOf_of_shape shape]

theorem given?_cases {n : String} (h : ∀ v, ms.given? n = some v → ∃ s, v = .str s) :
    ms.get? n = none ∨ ms.get? n = some .null ∨ ∃ s, ms.get? n = some (.str s) := by
  cases hv : ms.get? n with
  | none => exact .inl rfl
  | some v =>
    by_cases hnull : v = .null
    · exact .inr (.inl (by rw [hnull]))
    · obtain ⟨s, rfl⟩ := h v (Members.given?_of_get? hv hnull)
      exact .inr (.inr ⟨s, rfl⟩)

theorem titleOf_eq (h : ∀ v, ms.given? "title" = some v → ∃ s, v = .str s) :
    Token.titleOf ms = .ok (.str (textAt ms "title")) := by
  rw [Token.titleOf, Token.memberOr, textAt, Members.text?]
  rcases given?_cases h with hv | hv | ⟨s, hv⟩
  · rw [hv]
    rfl
  · rw [hv]
    rfl
  · rw [hv]
    by_cases hs : s = ""
    · simp [hs, Json.truthy]
    · simp [hs, Json.truthy, Token.searched]

theorem infoOf_eq (h : ∀ v, ms.given? "info" = some v → ∃ s, v = .str s) :
    Token.infoOf ms = .ok (textAt ms "info") := by
  rw [Token.infoOf, Token.memberOr, textAt, Members.text?]
  rcases given?_cases h with hv | hv | ⟨s, hv⟩
  · rw [hv]
    rfl
  · rw [hv]
    rfl
  · rw [hv]
    rfl

theorem plainMember_eq {n : String} (short : (ms.get? n).any Json.holdsLong = false)
    (missing : String) : Token.plainMember ms n missing = .ok (shownOr (ms.get? n) missing) := by
  rw [Token.plainMember, shownOr]
  cases hv : ms.get? n with
  | none => rfl
  | some v =>
    rw [hv, Option.any_some] at short
    simp [short]

/-- A level is shown by its digit; no level is the first one. -/
theorem plainMember_level (h : ∀ v, ms.get? "level" = some v → ∃ l : Level, v = .int l.number) :
    ∃ l : Level, Token.plainMember ms "level" "1" = .ok l.text ∧
    shownOr (ms.get? "level") "1" = l.text := by
  rw [Token.plainMember, shownOr]
  cases hv : ms.get? "level" with
  | none => exact ⟨.one, rfl, rfl⟩
  | some v =>
    obtain ⟨l, rfl⟩ := h v hv
    exact ⟨l, by cases l <;> rfl, by cases l <;> rfl⟩

theorem startsLong_iff :
    startsLong ms ↔ typeOf ms = .str "list" ∧ isOrdered ms ∧
      ∃ v, (attributesOf ms).get? "start" = some v ∧ v.holdsLong := by
  rw [startsLong, Bool.and_eq_true, Bool.and_eq_true, isText_iff, Option.any_eq_true, and_assoc]

theorem numbering_of_long (ordered : isOrdered ms) {v : Json}
    (given : (attributesOf ms).get? "start" = some v) (long : v.holdsLong) :
    Token.numbering ms (attributesOf ms) = .error .longNumber := by
  rw [Token.numbering, ← isOrdered, if_pos ordered, Token.plainMember, given]
  simp [long, Except.map]

theorem numbering_of_short (listed : typeOf ms = .str "list") (short : startsLong ms = false) :
    ∃ numbering, Token.numbering ms (attributesOf ms) = .ok numbering ∧
      Token.listAttributes numbering (Token.isTight ms (attributesOf ms)) = listProperties ms := by
  have htight : Token.isTight ms (attributesOf ms) =
      (((ms.get? "tight").or ((attributesOf ms).get? "tight")).map Json.truthy).getD true := by
    rw [Token.isTight]
    cases ms.get? "tight" <;> rfl
  rw [startsLong, listed] at short
  rw [htight, Token.numbering, ← isOrdered]
  unfold Token.listAttributes listProperties
  cases ordered : isOrdered ms with
  | false => exact ⟨none, by simp⟩
  | true =>
    rw [ordered] at short
    rw [if_pos rfl, plainMember_eq short]
    exact ⟨_, rfl, by simp⟩

theorem infoAttributes_eq (ms : Members) :
    Token.infoAttributes (textAt (attributesOf ms) "info") = codeProperties ms := by
  unfold Token.infoAttributes codeProperties
  simp

/-- A token of any other type than these has its type looked up with its attributes. -/
theorem ofParts_of_attributes {t : String} (shape : Shape ms) (hw : Wrapper.ofType? t = none)
    (hv : Verbatim.ofType? t = none) (hs : Sign.ofType? t = none) (hblank : t ≠ "blank_line")
    (htext : t ≠ "text") (content : Except Flaw (List Token)) :
    Token.ofParts t ms content =
      (Token.ofAttributes? t ms (attributesOf ms) content).getD (.unsupported (.str t)) := by
  unfold Token.ofParts
  rw [hw, hv, hs, membersOf?_of_shape shape]
  dsimp only
  split
  · exact absurd rfl hblank
  · exact absurd rfl htext
  · rw [Option.getD_some]
    cases Token.ofAttributes? t ms (attributesOf ms) content <;> rfl

/-- Types without meaning are refused by name. -/
theorem ofParts_unsupported {t : String} (shape : Shape ms) (ht : t ∉ wrapperTypes ++ leafTypes)
    (content : Except Flaw (List Token)) : Token.ofParts t ms content = .unsupported (.str t) := by
  simp only [wrapperTypes, leafTypes, List.cons_append, List.nil_append, List.mem_cons,
    List.not_mem_nil, or_false, not_or] at ht
  have hw : Wrapper.ofType? t = none := by
    unfold Wrapper.ofType?
    split <;> simp_all
  have hv : Verbatim.ofType? t = none := by
    unfold Verbatim.ofType?
    split <;> simp_all
  have hs : Sign.ofType? t = none := by
    unfold Sign.ofType?
    split <;> simp_all
  have hr : Reference.ofType? t = none := by
    unfold Reference.ofType?
    split <;> simp_all
  have hnone : Token.ofAttributes? t ms (attributesOf ms) content = none := by
    unfold Token.ofAttributes?
    rw [hr]
    split <;> simp_all
  rw [ofParts_of_attributes shape hw hv hs (by simp [ht]) (by simp [ht]), hnone, Option.getD_none]

theorem ofJson_of_noText (other : ∀ t, typeOf ms ≠ .str t) :
    Token.ofJson (.obj ms) =
      if (typeOf ms).isComposite then .misshapen .wrongType
      else if (typeOf ms).holdsLong then .misshapen .longNumber
      else .unsupported (typeOf ms) := by
  rw [ofJson_eq]
  split
  · rename_i t ht
    exact absurd ht (other t)
  · rfl

/-- A type without meaning is refused at once. -/
theorem events_of_unhandled (shape : Shape ms) (unhandled : ¬ Handled (typeOf ms)) :
    ∃ f, refusal? ms = some f ∧ Token.events (Token.ofJson (.obj ms)) = .error f := by
  rw [refusal?, if_neg unhandled]
  by_cases htext : ∃ t, typeOf ms = .str t
  · obtain ⟨t, ht⟩ := htext
    rw [ht, handled_iff] at unhandled
    rw [ofJson_of_type shape ht, ofParts_unsupported shape (fun hmem => unhandled ⟨t, hmem, rfl⟩),
      Token.events, ht]
    exact ⟨_, rfl, rfl⟩
  · rw [ofJson_of_noText fun t ht => htext ⟨t, ht⟩]
    split_ifs
    all_goals exact ⟨_, rfl, by rw [Token.events]⟩

theorem ofParts_reference {t : String} (shape : Shape ms)
    (target : (∀ v, (attributesOf ms).get? "url" = some v → ∃ s, v = .str s) ∧
      ∀ v, (attributesOf ms).given? "title" = some v → ∃ s, v = .str s)
    (r : Reference) (hr : Reference.ofType? t = some r) (content : List Token) :
    Token.ofParts t ms (.ok content) =
      .reference r (.str (textAt (attributesOf ms) "url")) (.str (textAt (attributesOf ms) "title"))
        content := by
  have hparts : Token.ofParts t ms (.ok content) =
      (Token.ofAttributes? t ms (attributesOf ms) (.ok content)).getD (.unsupported (.str t)) := by
    unfold Reference.ofType? at hr
    split at hr
    · exact ofParts_of_attributes shape rfl rfl rfl (by decide) (by decide) _
    · exact ofParts_of_attributes shape rfl rfl rfl (by decide) (by decide) _
    · cases hr
  rw [hparts]
  unfold Token.ofAttributes?
  rw [hr]
  dsimp only
  rw [titleOf_eq target.2, memberOr_eq target.1]
  rfl

theorem ofParts_codeBlock (shape : Shape ms)
    (info : ∀ v, (attributesOf ms).given? "info" = some v → ∃ s, v = .str s)
    (content : Except Flaw (List Token)) :
    Token.ofParts "block_code" ms content =
      .codeBlock (textAt (attributesOf ms) "info") (textAt ms "raw") := by
  rw [ofParts_of_attributes shape rfl rfl rfl (by decide) (by decide)]
  change (some (Token.makeOf (Token.infoOf (attributesOf ms)) _)).getD _ = _
  rw [infoOf_eq info, Option.getD_some, Token.makeOf, memberOr_eq shape.raw]

theorem ofParts_text (shape : Shape ms) (content : Except Flaw (List Token)) :
    Token.ofParts "text" ms content = .text (textAt ms "raw") := by
  change Token.makeOf (Token.searched (Token.memberOr ms "raw")) _ = _
  rw [memberOr_eq shape.raw]
  rfl

theorem ofParts_verbatim {t : String} (shape : Shape ms) (v : Verbatim)
    (hw : Wrapper.ofType? t = none) (hv : Verbatim.ofType? t = some v)
    (content : Except Flaw (List Token)) :
    Token.ofParts t ms content = .verbatim v (textAt ms "raw") := by
  unfold Token.ofParts
  rw [hw, hv]
  dsimp only
  rw [memberOr_eq shape.raw]

/-- A list that starts with a number that is too long is refused before its items are looked at. -/
theorem events_of_startsLong (shape : Shape ms) (long : startsLong ms) :
    Token.events (Token.ofJson (.obj ms)) = .error (.misshapen .longNumber) := by
  obtain ⟨ht, ordered, v, given, hv⟩ := startsLong_iff.mp long
  rw [ofJson_of_type shape ht, ofParts_of_attributes shape rfl rfl rfl (by decide) (by decide)]
  change Token.events (Token.makeOf (Token.numbering ms (attributesOf ms)) _) = _
  rw [numbering_of_long ordered given hv, Token.makeOf, Token.events]

theorem follows_wrapperType {t : String} (shape : Shape ms) (hmem : t ∈ wrapperTypes)
    (ht : typeOf ms = .str t) (short : startsLong ms = false)
    (below : Follows tokens nodes (Token.eventsOf (Token.ofJsons (childTokens ms)))) :
    Follows (if wrapperTypes.any (typeOf ms).isText then tokens else []) (nodesOfToken ms nodes)
      (Token.events (Token.ofJson (.obj ms))) := by
  have hwalked : wrapperTypes.any (typeOf ms).isText := by
    rw [List.any_eq_true]
    exact ⟨t, hmem, isText_iff.mpr ht⟩
  rw [if_pos hwalked, ofJson_of_type shape ht, nodesOfToken, ht]
  simp only [wrapperTypes, List.mem_cons, List.not_mem_nil, or_false] at hmem
  rcases hmem with rfl | rfl | rfl | rfl | rfl | rfl | rfl | rfl | rfl | rfl
  · exact follows_wrapper .paragraph below
  · exact follows_wrapper .paragraph below
  · exact follows_wrapper .blockQuote below
  · exact follows_wrapper .item below
  · exact follows_wrapper .emph below
  · exact follows_wrapper .strong below
  · obtain ⟨l, hlevel, hshown⟩ := plainMember_level (shape.level ht)
    rw [ofParts_of_attributes shape rfl rfl rfl (by decide) (by decide)]
    change Follows tokens (branch .heading [("level", .str (shownOr _ "1"))] nodes)
      (Token.events (Token.makeOf (Token.plainMember (attributesOf ms) "level" "1") _))
    rw [hlevel, hshown, Token.makeOf, Token.makeOf, Token.events]
    exact below.branch rfl (by decide) rfl (suits_heading l) rfl
  · obtain ⟨numbering, hnumbering, hproperties⟩ := numbering_of_short ht short
    rw [ofParts_of_attributes shape rfl rfl rfl (by decide) (by decide)]
    change Follows tokens (branch .list (listProperties ms) nodes)
      (Token.events (Token.makeOf (Token.numbering ms (attributesOf ms)) _))
    rw [hnumbering, Token.makeOf, Token.makeOf, Token.events, hproperties]
    exact below.branch rfl (by decide) rfl (suits_listProperties ms) rfl
  · rw [ofParts_reference shape (shape.target (.inl ht)) .link rfl]
    exact follows_reference .link ms below
  · rw [ofParts_reference shape (shape.target (.inr ht)) .image rfl]
    exact follows_reference .image ms below

theorem follows_leafType {t : String} (shape : Shape ms) (hmem : t ∈ leafTypes)
    (ht : typeOf ms = .str t) (nodes : List Json) :
    Follows (if wrapperTypes.any (typeOf ms).isText then tokens else []) (nodesOfToken ms nodes)
      (Token.events (Token.ofJson (.obj ms))) := by
  have hwalked : ¬ wrapperTypes.any (typeOf ms).isText := by
    have hall : ∀ u ∈ leafTypes, ¬ wrapperTypes.any (Json.str u).isText := by decide
    rw [ht]
    exact hall t hmem
  rw [if_neg hwalked, ofJson_of_type shape ht, nodesOfToken, ht]
  simp only [leafTypes, List.mem_cons, List.not_mem_nil, or_false] at hmem
  rcases hmem with rfl | rfl | rfl | rfl | rfl | rfl | rfl | rfl | rfl
  · exact follows_nil
  · rw [ofParts_text shape]
    exact follows_text _
  · rw [ofParts_verbatim shape .code rfl rfl]
    exact follows_verbatim .code _
  · rw [ofParts_verbatim shape .htmlInline rfl rfl]
    exact follows_verbatim .htmlInline _
  · rw [ofParts_verbatim shape .htmlBlock rfl rfl]
    exact follows_verbatim .htmlBlock _
  · rw [ofParts_codeBlock shape (shape.info ht), Token.events, infoAttributes_eq]
    exact follows_leaf rfl (by decide) (suits_codeProperties ms) fun _ => rfl
  · exact follows_sign .thematicBreak
  · exact follows_sign .softbreak
  · exact follows_sign .linebreak

/-- What a token with tokens below it gives, if these give what they should. -/
theorem follows_token (shape : Shape ms)
    (below : Follows tokens nodes (Token.eventsOf (Token.ofJsons (childTokens ms)))) :
    Follows (reachedOfToken ms tokens) (nodesOfToken ms nodes)
      (Token.events (Token.ofJson (.obj ms))) := by
  by_cases handled : Handled (typeOf ms)
  · cases short : startsLong ms with
    | true =>
      rw [events_of_startsLong shape short]
      exact follows_refused (by rw [refusal?, if_pos handled, if_pos short]) _ _
    | false =>
      refine .cons (by simp [refusal?, handled, short]) ?_
      obtain ⟨t, hmem, ht⟩ := handled_iff.mp handled
      rw [List.mem_append] at hmem
      cases hmem with
      | inl hmem => exact follows_wrapperType shape hmem ht short below
      | inr hmem => exact follows_leafType shape hmem ht nodes
  · obtain ⟨f, refused, hevents⟩ := events_of_unhandled shape handled
    rw [hevents]
    exact follows_refused refused _ _

theorem follows_all {vs : List Json} (h : ∀ v ∈ vs, Follows (Json.fold "children" reachedOfToken v)
      (Json.fold "children" nodesOfToken v)
      (Token.events (Token.ofJson v))) :
    Follows (reached vs) (nodesOf vs) (Token.eventsOf (Token.ofJsons vs)) := by
  induction vs with
  | nil => exact follows_nil
  | cons v vs ih =>
    rw [Token.ofJsons, Token.eventsOf]
    exact (h v (by simp)).append (ih fun w hw => h w (by simp [hw]))

theorem follows_of_shaped {v : Json} (h : Shaped v) :
    Follows (Json.fold "children" reachedOfToken v) (Json.fold "children" nodesOfToken v)
      (Token.events (Token.ofJson v)) := by
  induction h with
  | token shape _ ih =>
    rw [Json.fold_obj, Json.fold_obj]
    exact follows_token shape (follows_all ih)

/-- The document around the elements of tokens. -/
def documentElement (es : List Element) : Element :=
  .mk Builder.documentName [("xmlns", .str defaultNamespace)] [] es

theorem tree_documentElement (es : List Element) :
    (documentElement es).tree =
      .obj ([(classKey, .str Kind.document.classTag), ("xmlns", .str defaultNamespace)] ++
        Schema.childrenMember (Element.trees es)) := by
  rw [documentElement, Element.tree]
  cases es <;> rfl

theorem suits_xmlns : Element.Suits .document [("xmlns", .str defaultNamespace)] :=
  suits_of_names ["xmlns"] rfl (by simp) (by decide) (by decide) (by decide) (by simp)

/-- Tokens of types that have a meaning become a document that reading takes, under any options for
markdown. Where text is left as it is, the document holds the nodes that the tokens stand for. A
token that is refused ends the conversion, the first of them if there are several: it has a type
without meaning, or a number in it cannot be shown. -/
theorem buildTree_tokenEvents {tokens : List Json} (shaped : ∀ v ∈ tokens, Shaped v) (o : Options)
    (ho : o.cls = .markdownParser) :
    ((∀ ms ∈ reached tokens, Handled (typeOf ms) ∧ startsLong ms = false) →
      ∃ events root, tokenEvents (Token.tokensOf (.arr tokens)) = .ok events ∧
        Builder.feed (textRules (some o)) [] events = ([root], none) ∧
        buildTree events (some o) = .ok root.node ∧
        (∃ n, documentOfJson root.node = .ok n) ∧
        (o.reader.trimText = false → o.reader.tagInfo = false → root.node = documentTree tokens)) ∧
    ∀ f, (reached tokens).findSome? refusal? = some f →
      (tokenEvents (Token.tokensOf (.arr tokens)) >>= (buildTree · (some o))) = .error (.token f) ∧
        ((f = .misshapen .longNumber ∧ (Fault.token f).report.family = .value) ∨
          (f = .misshapen .wrongType ∧ (Fault.token f).report.family = .type) ∨
          ∃ type, f = .unsupported type ∧ (Fault.token f).report.family = .failure .parsing) := by
  have follows := follows_all fun v hv => follows_of_shaped (shaped v hv)
  have hrules : textRules (some o) = some ⟨o.reader.trimText, o.reader.tagInfo⟩ := by
    simp [textRules, ho, OptionClass.refines]
  constructor
  · intro kept
    have hnone : (reached tokens).findSome? refusal? = none :=
      List.findSome?_eq_none_iff.mpr fun ms hms => refusal?_eq_none_iff.mpr (kept ms hms)
    obtain ⟨es, hes, sound, htrees⟩ := follows.converts hnone
    have hevents : tokenEvents (Token.tokensOf (.arr tokens)) =
        .ok (documentElement es).events := by
      rw [tokenEvents, Token.tokensOf, Token.documentEvents, hes]
      rfl
    obtain ⟨root, hfeed, hnode, hread⟩ :=
      Element.build_document ⟨o.reader.trimText, o.reader.tagInfo⟩ suits_xmlns sound
    refine ⟨(documentElement es).events, root, hevents, ?_, ?_, hread, ?_⟩
    · rw [hrules]
      exact hfeed
    · rw [buildTree, hrules, Builder.build, documentElement, hfeed]
      rfl
    · intro htrim htag
      have valid : (documentElement es).Valid := .mk [] Element.snakeCase_documentName (by decide)
        (by decide) fun e he => (sound e he).valid
      rw [hnode, htrim, htag]
      change Element.node {} (documentElement es) = _
      rw [Element.node_plain valid, tree_documentElement, htrees, documentTree]
  · intro f hf
    constructor
    · rw [tokenEvents, Token.tokensOf, Token.documentEvents, follows.refuses f hf]
      rfl
    · obtain ⟨ms, _, hms⟩ := List.exists_of_findSome?_eq_some hf
      obtain rfl | rfl | ⟨type, rfl⟩ := refusal?_cases hms
      · exact .inl ⟨rfl, rfl⟩
      · exact .inr (.inl ⟨rfl, rfl⟩)
      · exact .inr (.inr ⟨type, rfl, rfl⟩)

/-- A heading, a blank line and a paragraph with a link that has no title. -/
def titledText : List Json := [
  .obj [("type", .str "heading"), ("attrs", .obj [("level", .int 2)]),
    ("children", .arr [.obj [("type", .str "text"), ("raw", .str "Hi")]])],
  .obj [("type", .str "blank_line")],
  .obj [("type", .str "paragraph"), ("children", .arr [
    .obj [("type", .str "link"), ("attrs", .obj [("url", .str "/a"), ("title", .null)])]])]]

theorem shaped_titledText : ∀ v ∈ titledText, Shaped v := by
  have htext : Shaped (.obj [("type", .str "text"), ("raw", .str "Hi")]) := by
    refine .token ⟨?_, nofun, nofun, nofun, by simp [typeOf], nofun⟩ nofun
    rintro v ⟨⟩
    exact ⟨_, rfl⟩
  have hlink : Shaped (.obj [("type", .str "link"),
      ("attrs", .obj [("url", .str "/a"), ("title", .null)])]) := by
    refine .token ⟨nofun, ?_, nofun, nofun, ?_, nofun⟩ nofun
    · rintro v ⟨⟩
      exact .inr ⟨_, rfl⟩
    · intro _
      refine ⟨?_, nofun⟩
      rintro v ⟨⟩
      exact ⟨_, rfl⟩
  rintro _ (_ | ⟨_, _ | ⟨_, _ | ⟨_, ⟨⟩⟩⟩⟩)
  · refine .token ⟨nofun, ?_, ?_, ?_, by simp [typeOf], nofun⟩ ?_
    · rintro v ⟨⟩
      exact .inr ⟨_, rfl⟩
    · rintro v ⟨⟩
      exact .inr ⟨_, rfl⟩
    · rintro _ v ⟨⟩
      exact ⟨.two, rfl⟩
    · rintro _ (_ | ⟨_, ⟨⟩⟩)
      exact htext
  · exact .token ⟨nofun, nofun, nofun, nofun, by simp [typeOf], nofun⟩ nofun
  · refine .token ⟨nofun, nofun, ?_, nofun, by simp [typeOf], nofun⟩ ?_
    · rintro v ⟨⟩
      exact .inr ⟨_, rfl⟩
    · rintro _ (_ | ⟨_, ⟨⟩⟩)
      exact hlink

theorem buildTree_titledText :
    (∀ v ∈ titledText, Shaped v) ∧ (⟨.markdownParser, []⟩ : Options).cls = .markdownParser ∧
      ∃ events root, tokenEvents (Token.tokensOf (.arr titledText)) = .ok events ∧
        Builder.feed (textRules (some ⟨.markdownParser, []⟩)) [] events = ([root], none) ∧
        root.node = .obj [
          ("$class", .str "org.accordproject.commonmark.Document"),
          ("xmlns", .str "http://commonmark.org/xml/1.0"),
          ("nodes", .arr [
            .obj [("$class", .str "org.accordproject.commonmark.Heading"), ("level", .str "2"),
              ("nodes", .arr [
                .obj [("$class", .str "org.accordproject.commonmark.Text"), ("text", .str "Hi")]])],
            .obj [("$class", .str "org.accordproject.commonmark.Paragraph"),
              ("nodes", .arr [
                .obj [("$class", .str "org.accordproject.commonmark.Link"),
                  ("destination", .str "/a"), ("title", .str "")]])]])] := by
  have handled : ∀ ms ∈ reached titledText, Handled (typeOf ms) ∧ startsLong ms = false := by decide
  refine ⟨shaped_titledText, rfl, ?_⟩
  obtain ⟨events, root, hevents, hfeed, _, _, hplain⟩ :=
    (buildTree_tokenEvents shaped_titledText ⟨.markdownParser, []⟩ rfl).1 handled
  exact ⟨events, root, hevents, hfeed, hplain rfl rfl⟩

/-- A token that has a list for its type. -/
def listTyped : Json :=
  .obj [("type", .arr []), ("raw", .str ""), ("attrs", .obj []), ("children", .arr [])]

/-- An ordered list without items. -/
def listFrom (start : Int) : Json :=
  .obj [("type", .str "list"), ("raw", .str ""),
    ("attrs", .obj [("ordered", .bool true), ("start", .int start)]), ("children", .arr [])]

/-- A list that starts with a number of one digit more than can be shown. -/
def longList : Json := listFrom (10 ^ Text.Numeral.maxDigits : Nat)

theorem shaped_listTyped : Shaped listTyped := by
  refine .token ⟨?_, ?_, ?_, nofun, nofun, nofun⟩ nofun
  · rintro v ⟨⟩
    exact ⟨_, rfl⟩
  · rintro v ⟨⟩
    exact .inr ⟨_, rfl⟩
  · rintro v ⟨⟩
    exact .inr ⟨_, rfl⟩

theorem shaped_listFrom (start : Int) : Shaped (listFrom start) := by
  refine .token ⟨?_, ?_, ?_, nofun, by simp [typeOf], nofun⟩ nofun
  · rintro v ⟨⟩
    exact ⟨_, rfl⟩
  · rintro v ⟨⟩
    exact .inr ⟨_, rfl⟩
  · rintro v ⟨⟩
    exact .inr ⟨_, rfl⟩

theorem holdsLong_long : (Json.int (10 ^ Text.Numeral.maxDigits : Nat)).holdsLong := by
  rw [Json.holdsLong, Text.Numeral.isLong_iff]
  exact Nat.le_refl _

/-- Tokens of types that have a meaning do not always become a document, and a token of a type that
has none is not always refused for its type. -/
theorem tokenEvents_of_refused :
    (Shaped longList ∧ (∀ ms ∈ reached [longList], Handled (typeOf ms)) ∧
      tokenEvents (Token.tokensOf (.arr [longList])) = .error (.token (.misshapen .longNumber)) ∧
      (Fault.token (.misshapen .longNumber)).report.family = .value) ∧
    Shaped listTyped ∧ (∃ ms ∈ reached [listTyped], ¬ Handled (typeOf ms)) ∧
      tokenEvents (Token.tokensOf (.arr [listTyped])) = .error (.token (.misshapen .wrongType)) ∧
      (Fault.token (.misshapen .wrongType)).report.family = .type := by
  have hevents : Token.events (Token.ofJson longList) = .error (.misshapen .longNumber) := by
    rw [longList, listFrom]
    refine events_of_startsLong ?_ (startsLong_iff.mpr ⟨rfl, rfl, _, rfl, holdsLong_long⟩)
    cases shaped_listFrom _ with
    | token shape below => exact shape
  refine ⟨⟨shaped_listFrom _, ?_, ?_, rfl⟩, shaped_listTyped,
    ⟨_, List.mem_singleton.mpr rfl, by decide⟩, rfl, rfl⟩
  · intro ms hms
    obtain rfl := List.mem_singleton.mp hms
    decide
  · rw [tokenEvents, Token.tokensOf, Token.documentEvents, Token.ofJsons, Token.eventsOf, hevents]
    rfl

end Canonmark.Markdown.TokenForm
