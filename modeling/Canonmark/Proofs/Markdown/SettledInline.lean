import Canonmark.Proofs.Markdown.InkRows
import Canonmark.Proofs.Markdown.LinkRoundTrip
import Canonmark.Proofs.Markdown.ReadTree
import Canonmark.Proofs.Markdown.TextRoundTrip

/-! Inline content of every kind but HTML, and how what is written for it is read. -/
namespace Canonmark.Markdown

open Emphasis (size wrapper)
open Phrase (allInks allTokens AllStand)

variable {signed inLink within : Bool} {depth : Nat} {n a b : Node} {ns ms : List Node}
    {ts : List Token}

/-- The ink of a link or an image with the given inks in its brackets. -/
def Ink.reference (r : Reference) (dest title : Chars) (label : List Ink) : Ink :=
  .solid (referenceText r (label.flatMap written) dest title)
    (.reference r ⟨dest, title⟩ (pushed (label.flatMap strokes)).reverse)
    (.reference r (.str (String.ofList dest)) (.str (String.ofList title))
      (Emphasis.tokensOf (maxDepth - 1)
        (Piece.partsOf false (pushed (label.flatMap strokes)).reverse)))

mutual

/-- The phrase that is written for an inline node, on lines that are not indented. -/
def phraseOf : Node → Phrase
  | .leaf (.text t) _ => .ink (.text (marks t.toList))
  | .leaf (.code t) _ =>
    .ink (.solid (Writer.codeSpan t.toList) (.verbatim .code t.toList)
      (.verbatim .code (String.ofList t.toList)))
  | .leaf .softbreak _ => .ink (.solid ['\n'] (.sign .softbreak) (.sign .softbreak))
  | .leaf .linebreak _ => .ink (.solid ['\\', '\n'] (.sign .linebreak) (.sign .linebreak))
  | .branch .emph _ ns => .emphasis false (phrasesOf ns)
  | .branch .strong _ ns => .emphasis true (phrasesOf ns)
  | .branch (.link dest title) _ ns =>
    .ink (.reference .link dest.toList title.toList (allInks (phrasesOf ns)))
  | .branch (.image dest title) _ ns =>
    .ink (.reference .image dest.toList title.toList (allInks (phrasesOf ns)))
  | _ => .ink (.text [])

def phrasesOf : List Node → List Phrase
  | [] => []
  | n :: ns => phraseOf n :: phrasesOf ns

end

theorem phrasesOf_eq_map (ns : List Node) : phrasesOf ns = ns.map phraseOf := by
  induction ns with
  | nil => rfl
  | cons n ns ih => rw [phrasesOf, ih, List.map_cons]

/-- What is written for an inline node, on lines that are not indented. -/
def nodeText (n : Node) : Chars := (phraseOf n).inks.flatMap Ink.written

/-- What is written for inline content, on lines that are not indented. -/
def contentText (ns : List Node) : Chars := (allInks (phrasesOf ns)).flatMap Ink.written

def isBreak (n : Node) : Bool := n.kind? == some .softbreak || n.kind? == some .linebreak

def isEmphasis (n : Node) : Bool := n.kind? == some .emph || n.kind? == some .strong

/-- Neighbours that are not merged, nor run into each other. -/
def Unlike (a b : Node) : Prop := a.kind? = b.kind? → a.kind? = some .link ∨ a.kind? = some .image

/-- Inline nodes that can stand side by side. -/
structure Meets (a b : Node) : Prop where
  unlike : Unlike a b
  breaks : isBreak a → isBreak b = false
  emphases : isEmphasis a → isEmphasis b = false
  /-- No line ends in white space. -/
  ends : isBreak b → ∀ t span, a = .leaf (.text t) span →
    ∀ c ∈ t.toList.getLast?, Text.isBlank c = false
  /-- No line begins with white space, or with a fence. -/
  begins : isBreak a → ∀ t span, b = .leaf (.text t) span →
    (∀ c ∈ t.toList.head?, Text.isBlank c = false) ∧ ¬['~', '~', '~'] <+: t.toList
  /-- An exclamation mark would make an image of a link. -/
  bang : b.kind? = some .link → ∀ t span, a = .leaf (.text t) span → t.toList.getLast? ≠ some '!'

/-- Emphasis in emphasis stands between texts. -/
structure Frames (a b : Node) : Prop where
  before : isEmphasis b → a.kind? = some .text
  after : isEmphasis a → b.kind? = some .text

/-- What emphasis can be put around. -/
structure IsEmphasized (ns : List Node) : Prop where
  nonempty : ns ≠ []
  bounded : Text.Bounded Text.isBlank (contentText ns)
  meets : ns.IsChain Meets
  frames : ns.IsChain Frames
  ends : ∀ n, n ∈ ns.head? ∨ n ∈ ns.getLast? → isEmphasis n = false
  stand : AllStand '*' '*' (phrasesOf ns)

/-- What a link or an image can be made of. -/
structure IsLabel (ns : List Node) : Prop where
  meets : ns.IsChain Meets
  stand : AllStand '\n' '\n' (phrasesOf ns)

/-- The container of emphasis. -/
def emphasisOf (strong : Bool) : Container := if strong then .strong else .emph

/-- An inline node that is read as it was written, but for texts side by side. `signed` tells
whether there is emphasis in the content that it is in, and `depth` how deep emphasis, links and
images may be nested. -/
inductive IsSettledInline : (signed inLink : Bool) → (depth : Nat) → Node → Prop
  | text {signed inLink : Bool} {depth : Nat} {t : String}
      (nonempty : t ≠ "") (blanks : ∀ c ∈ t.toList, Text.isBlank c → c = ' ')
      (plain : HasWordUnderscore t.toList → signed) (keeps : signed → KeepsReferences t.toList) :
      IsSettledInline signed inLink depth (.leaf (.text t) none)
  | code {signed inLink : Bool} {depth : Nat} {t : String} (nonempty : t ≠ "")
      (blanks : ∀ c ∈ t.toList, Text.isBlank c → c = ' ') :
      IsSettledInline signed inLink depth (.leaf (.code t) none)
  | softbreak {signed inLink : Bool} {depth : Nat} :
      IsSettledInline signed inLink depth (.leaf .softbreak none)
  | linebreak {signed inLink : Bool} {depth : Nat} :
      IsSettledInline signed inLink depth (.leaf .linebreak none)
  | emphasis {signed inLink : Bool} {depth : Nat} (strong : Bool) {ns : List Node} (around : signed)
      (emphasized : IsEmphasized ns) (below : ∀ n ∈ ns, IsSettledInline signed inLink depth n) :
      IsSettledInline signed inLink (depth + 1) (.branch (emphasisOf strong) none ns)
  | reference {signed inLink within : Bool} {depth : Nat} (r : Reference) {dest title : String}
      {ns : List Node} (outside : r = .link → inLink = false)
      (destination : IsDestination dest.toList)
      (blanks : ∀ c ∈ title.toList, Text.isBlank c → c = ' ')
      (keeps : KeepsAllReferences title.toList) (label : IsLabel ns)
      (below : ∀ n ∈ ns, IsSettledInline within (inLink || r == .link) depth n) :
      IsSettledInline signed inLink (depth + 1) (.branch (r.container dest title) none ns)

theorem phraseOf_emphasis (strong : Bool) (ns : List Node) :
    phraseOf (.branch (emphasisOf strong) none ns) = .emphasis strong (phrasesOf ns) := by
  cases strong <;> rfl

theorem phraseOf_reference (r : Reference) (dest title : String) (ns : List Node) :
    phraseOf (.branch (r.container dest title) none ns) =
      .ink (.reference r dest.toList title.toList (allInks (phrasesOf ns))) := by
  cases r <;> rfl

/-- Nodes that become the given one when they are merged after nodes that are unlike it. -/
def BecomesOne (ms : List Node) (n : Node) : Prop := ∀ siblings : List Node,
  (∀ m ∈ siblings.getLast?, Unlike m n) → Merge.pushAll siblings ms = siblings ++ [n]

theorem pushAll_append_right (siblings ms ns : List Node) :
    Merge.pushAll siblings (ms ++ ns) = Merge.pushAll (Merge.pushAll siblings ms) ns := by
  induction ms generalizing siblings with
  | nil => rfl
  | cons m ms ih => rw [List.cons_append, Merge.pushAll, Merge.pushAll, ih]

/-- Nodes each of which is merged to one are merged to these. -/
theorem pushAll_becomes {mss : List (List Node)} (h : List.Forall₂ BecomesOne mss ns)
    (chain : ns.IsChain Unlike) {siblings : List Node}
    (first : ∀ m ∈ siblings.getLast?, ∀ n ∈ ns.head?, Unlike m n) :
    Merge.pushAll siblings mss.flatten = siblings ++ ns := by
  induction h generalizing siblings with
  | nil => rw [List.flatten_nil, Merge.pushAll, List.append_nil]
  | @cons ms n mss ns hn _ ih =>
    rw [List.flatten_cons, pushAll_append_right, hn siblings fun m hm => first m hm n rfl,
      ih chain.tail, List.append_assoc]
    · rfl
    · intro m hm k hk
      rw [List.getLast?_concat] at hm
      obtain rfl := Option.some.inj hm
      obtain ⟨ns, rfl⟩ := List.head?_eq_some_iff.mp hk
      exact chain.rel

/-- Texts join a text before them. -/
theorem pushAll_texts (siblings : List Node) (t : String) (us : List String) :
    Merge.pushAll (siblings ++ [.leaf (.text t) none]) (us.map fun u => .leaf (.text u) none) =
      siblings ++ [.leaf (.text (t ++ String.join us)) none] := by
  induction us generalizing t with
  | nil => simp [Merge.pushAll]
  | cons u us ih =>
    rw [List.map_cons, Merge.pushAll, Merge.push]
    simp only [List.getLast?_concat, List.dropLast_concat]
    rw [ih, String.join_cons, String.append_assoc]

theorem join_eq_of_flatten {text : String} {ts : List Chars} (h : ts.flatten = text.toList) :
    String.join (ts.map String.ofList) = text := by
  rw [← String.toList_inj, String.toList_join, List.flatMap_map, ← h]
  simp [List.flatMap_def]

theorem phrases_texts (ts : List Chars) :
    Token.phrases (ts.map Emphasis.textToken) =
      ts.map fun t => .leaf (.text (String.ofList (Text.decodeReferences t))) none := by
  induction ts with
  | nil => rfl
  | cons t ts ih =>
    rw [List.map_cons, Token.phrases, ih, Emphasis.textToken, Token.phrase, Token.decoded,
      String.toList_ofList]
    rfl

/-- Texts that make up a text become it. -/
theorem becomesOne_text {t : String} {us : List String} (nonempty : us ≠ [])
    (join : String.join us = t) :
    BecomesOne (us.map fun u => .leaf (.text u) none) (.leaf (.text t) none) := by
  intro siblings hunlike
  obtain ⟨u, us, rfl⟩ := List.exists_cons_of_ne_nil nonempty
  have hpush : Merge.push siblings (.leaf (.text u) none) = siblings ++ [.leaf (.text u) none] := by
    rw [Merge.push]
    split
    · rename_i s span hlast
      have hunlike := hunlike _ hlast rfl
      simp [Node.kind?, Leaf.kind] at hunlike
    · rfl
  rw [List.map_cons, Merge.pushAll, hpush, pushAll_texts, ← join, String.join_cons]

theorem becomesOne_code (t : String) :
    BecomesOne [.leaf (.code t) none] (.leaf (.code t) none) := by
  intro siblings hunlike
  rw [Merge.pushAll, Merge.pushAll, Merge.push]
  split
  · rename_i s span hlast
    have hunlike := hunlike _ hlast rfl
    simp [Node.kind?, Leaf.kind] at hunlike
  · rfl

theorem becomesOne_emphasis (strong : Bool) (h : Merge.pushAll [] ms = ns) :
    BecomesOne [.branch (emphasisOf strong) none ms] (.branch (emphasisOf strong) none ns) := by
  intro siblings hunlike
  cases strong with
  | false | true =>
    rw [Merge.pushAll, Merge.pushAll]
    simp only [emphasisOf, if_true, if_false, Bool.false_eq_true]
    rw [Merge.push]
    split
    · rename_i span before hlast
      have hunlike := hunlike _ hlast rfl
      simp [Node.kind?, Container.kind] at hunlike
    · rw [h]

theorem becomesOne_reference (r : Reference) (dest title : String) (h : Merge.pushAll [] ms = ns) :
    BecomesOne [.branch (r.container dest title) none ms]
    (.branch (r.container dest title) none ns) := by
  intro siblings _
  rw [Merge.pushAll, Merge.pushAll, Merge.push_branch siblings _
    (by cases r <;> simp [Reference.container]) (by cases r <;> simp [Reference.container]),
    Merge.merged_branch _ (by cases r <;> simp [Reference.container, Container.kind]), h]

/-- Whether what is written for a node is read as its phrase before a text that begins so. -/
def LeadsTo : Node → Option Char → Prop
  | .leaf (.text t) _, c => (t.toList.getLast? = some '!' → c ≠ some '[') ∧
      (t.toList.getLast? = some ' ' → c ≠ some ' ' ∧ c ≠ some '\n')
  | .leaf (.code _) _, c => c ≠ some '\x60'
  | .leaf _ _, c => ∀ d ∈ c, isSpace d = false
  | _, _ => True

/-- A node whose phrase is read as it was written, and as the node. -/
structure IsReadBack (signed inLink : Bool) (depth : Nat) (n : Node) : Prop where
  sound : ∀ limit, depth ≤ limit → (phraseOf n).IsSound signed limit
  shallow : ∀ t ∈ (phraseOf n).tokens, t.depth ≤ depth
  row : Ink.IsRow inLink (phraseOf n).inks
  readAt : ∀ first, LeadsTo n first → (phraseOf n).edge.IsReadAt inLink first
  spelled : ∀ ts, (phraseOf n).Spells ts → BecomesOne (Token.phrases ts) n

theorem Ink.isRow_singleton {i : Ink} (filled : i.IsFilled) (written : i.written ≠ []) :
    Ink.IsRow inLink [i] where
  filled := List.forall_mem_singleton.mpr filled
  written := List.forall_mem_singleton.mpr written
  chain := .singleton i

theorem marks_ne_nil {t : String} (nonempty : t ≠ "") : marks t.toList ≠ [] := by
  intro hnil
  have hsigns := map_sign_marks t.toList
  rw [hnil] at hsigns
  exact nonempty (String.toList_eq_nil_iff.mp hsigns.symm)

theorem escape_ne_nil {t : String} (nonempty : t ≠ "") : escape t.toList ≠ [] := by
  obtain ⟨c, cs, hcons⟩ := List.exists_cons_of_ne_nil (mt String.toList_eq_nil_iff.mp nonempty)
  obtain ⟨d, ds, hescape, -⟩ := exists_escape_cons c cs
  rw [hcons, hescape]
  exact List.cons_ne_nil d ds

theorem isReadBack_text {t : String} (nonempty : t ≠ "")
    (blanks : ∀ c ∈ t.toList, Text.isBlank c → c = ' ')
    (plain : HasWordUnderscore t.toList → signed) (keeps : signed → KeepsReferences t.toList) :
    IsReadBack signed inLink depth (.leaf (.text t) none) := by
  have hsigns := map_sign_marks t.toList
  have hsound := areSound_marks t.toList
  have hink : (Ink.text (marks t.toList)).IsSound signed :=
    .text (marks_ne_nil nonempty) hsound (by rwa [hsigns]) (by rwa [hsigns]) (by rwa [hsigns])
  refine {
    sound := fun limit _ => .ink hink
    shallow := fun k hk => ?_
    row := Ink.isRow_singleton (marks_ne_nil nonempty) ?_
    readAt := fun first hfirst => ?_
    spelled := fun ts hts => ?_ }
  · obtain ⟨s, hs, rfl⟩ := List.mem_map.mp hk
    obtain ⟨g, -, rfl⟩ := List.mem_map.mp hs
    exact Nat.zero_le depth
  · rw [Ink.written, ← escape_eq]
    exact escape_ne_nil nonempty
  · exact isReadAt_text (hsound.isReadable (by rwa [hsigns])) (by rw [hsigns]; exact hfirst.1)
      (by rw [hsigns]; exact hfirst.2)
  · cases hts with
    | @text _ us flatten decoded =>
      rw [hsigns] at flatten
      have hsame : Token.phrases (us.map Emphasis.textToken) = (us.map String.ofList).map fun u =>
          .leaf (.text u) none := by
        rw [phrases_texts, List.map_map]
        exact List.map_congr_left fun u hu => by rw [decoded u hu]; rfl
      rw [hsame]
      refine becomesOne_text (fun hnil => nonempty ?_) (join_eq_of_flatten flatten)
      rw [List.map_eq_nil_iff.mp hnil] at flatten
      exact String.toList_eq_nil_iff.mp flatten.symm

theorem isReadBack_code {t : String} (nonempty : t ≠ "")
    (blanks : ∀ c ∈ t.toList, Text.isBlank c → c = ' ') :
    IsReadBack signed inLink depth (.leaf (.code t) none) where
  sound _ _ := .ink (.solid fun _ => rfl)
  shallow := List.forall_mem_singleton.mpr (Nat.zero_le depth)
  row := Ink.isRow_singleton (fun _ => rfl)
    (by rw [Ink.written, codeSpan_cons]; exact List.cons_ne_nil _ _)
  readAt _ hfirst := isReadAt_codeSpan (mt String.toList_eq_nil_iff.mp nonempty) blanks hfirst
  spelled ts hts := by
    cases hts
    rw [String.ofList_toList]
    exact becomesOne_code t

theorem isReadBack_break {s : Sign} (hs : s = .softbreak ∨ s = .linebreak) :
    IsReadBack signed inLink depth (.leaf s.leaf none) := by
  have hbecomes : BecomesOne [.leaf s.leaf none] (.leaf s.leaf none) := by
    intro siblings _
    rw [Merge.pushAll, Merge.pushAll, Merge.push]
    all_goals
      obtain rfl | rfl := hs
      all_goals simp [Sign.leaf]
  obtain rfl | rfl := hs
  all_goals exact {
    sound := fun _ _ => .ink (.solid fun _ => rfl)
    shallow := List.forall_mem_singleton.mpr (Nat.zero_le depth)
    row := Ink.isRow_singleton (fun _ => rfl) (List.cons_ne_nil _ _)
    readAt := fun first hfirst => isReadAt_break hfirst (by simp)
    spelled := fun ts hts => by
      cases hts
      exact hbecomes }

/-- What is known of a node from the first sign that is written for it. -/
structure BeginsWith (b : Node) (c : Char) : Prop where
  bracket : c = '[' → b.kind? = some .link
  tick : c = '\x60' → b.kind? = some .code
  space : isSpace c ∨ c = '\n' → isBreak b ∨ ∃ t d, b = .leaf (.text t) none ∧ d ∈ t.toList.head? ∧
    Text.isBlank d

theorem exists_beginsWith (h : IsSettledInline signed inLink depth b) :
    ∃ c, (phraseOf b).edge.written.head? = some c ∧ BeginsWith b c := by
  cases h with
  | @text _ _ _ t nonempty _ _ _ =>
    obtain ⟨c, cs, hcons⟩ := List.exists_cons_of_ne_nil (mt String.toList_eq_nil_iff.mp nonempty)
    obtain ⟨d, ds, hescape, hd, hother⟩ := exists_escape_cons c cs
    have hwritten : (phraseOf (.leaf (.text t) none)).edge.written = d :: ds := by
      rw [← hescape, ← hcons, escape_eq]
      rfl
    refine ⟨d, by rw [hwritten]; rfl, fun h => absurd h (hother _ (by simp)), fun h =>
      absurd h (hother _ (by simp)), fun h => ?_⟩
    have hblank : Text.isBlank d := by
      obtain h | rfl := h
      · by_contra hink
        rw [isSpace_of_not_isBlank (by simpa using hink)] at h
        cases h
      · rfl
    obtain rfl | rfl := hd
    · cases hblank
    · exact .inr ⟨t, d, rfl, by rw [hcons]; rfl, hblank⟩
  | code =>
    exact ⟨'\x60', by rw [phraseOf, Phrase.edge, Ink.written, codeSpan_cons]; rfl, by simp, fun _ =>
      rfl, by simp [isSpace]⟩
  | softbreak | linebreak => exact ⟨_, rfl, by simp, by simp, fun _ => .inl rfl⟩
  | emphasis strong =>
    exact ⟨'*', by rw [phraseOf_emphasis]; cases strong <;> rfl, by simp, by simp,
      by simp [isSpace]⟩
  | reference r =>
    rw [phraseOf_reference]
    cases r with
    | link => exact ⟨'[', rfl, fun _ => rfl, by simp, by simp [isSpace]⟩
    | image => exact ⟨'!', rfl, by simp, by simp, by simp [isSpace]⟩

theorem unlike_same {a b : Node} (h : Unlike a b) (same : a.kind? = b.kind?)
    (other : a.kind? = some .text ∨ a.kind? = some .code) : False := by
  obtain hlink | himage := h same
  · rw [hlink] at other
    simp at other
  · rw [himage] at other
    simp at other

theorem leadsTo_of_meets (ha : IsSettledInline signed inLink depth a) (meets : Meets a b) {c : Char}
    (begins : BeginsWith b c) : LeadsTo a (some c) := by
  cases ha with
  | text =>
    refine ⟨fun hlast hc => ?_, fun hlast => ?_⟩
    · exact meets.bang (begins.bracket (Option.some.inj hc)) _ _ rfl hlast
    · have hnot : ¬(isSpace c ∨ c = '\n') := by
        intro hspace
        obtain hbreak | ⟨t, d, rfl, -⟩ := begins.space hspace
        · cases meets.ends hbreak _ _ rfl ' ' hlast
        · exact unlike_same meets.unlike rfl (.inl rfl)
      constructor
      · rintro ⟨⟩
        exact hnot (.inl rfl)
      · rintro ⟨⟩
        exact hnot (.inr rfl)
  | code =>
    rintro ⟨⟩
    exact unlike_same meets.unlike (begins.tick rfl).symm (.inr rfl)
  | softbreak | linebreak =>
    rintro d ⟨⟩
    rw [Bool.eq_false_iff]
    intro hspace
    obtain hbreak | ⟨t, d, rfl, hd, hblank⟩ := begins.space (.inl hspace)
    · rw [meets.breaks rfl] at hbreak
      cases hbreak
    · rw [(meets.begins rfl _ _ rfl).1 d hd] at hblank
      cases hblank
  | emphasis strong => cases strong <;> trivial
  | reference r => cases r <;> trivial

/-- Everything can stand before what is no text. -/
theorem leadsTo_of_sign (ha : IsSettledInline signed inLink depth a) {first : Option Char}
    (sign : ∀ c ∈ first, c = '*' ∨ c = ']') : LeadsTo a first := by
  have hnone : ∀ c, c ≠ '*' → c ≠ ']' → first ≠ some c := by
    rintro c hstar hclose rfl
    exact (sign c rfl).elim hstar hclose
  cases ha with
  | text =>
    exact ⟨fun _ => hnone _ (by decide) (by decide), fun _ =>
      ⟨hnone _ (by decide) (by decide), hnone _ (by decide) (by decide)⟩⟩
  | code => exact hnone _ (by decide) (by decide)
  | softbreak | linebreak =>
    intro c hc
    obtain rfl | rfl := sign c hc <;> rfl
  | emphasis strong => cases strong <;> trivial
  | reference r => cases r <;> trivial

theorem apart_of_meets (ha : IsSettledInline signed inLink depth a)
    (hb : IsSettledInline signed inLink depth b) (meets : Meets a b) :
    (phraseOf a).edge.Apart (phraseOf b).edge := by
  cases ha with
  | text =>
    cases hb with
    | text => exact absurd (unlike_same meets.unlike rfl (.inl rfl)) id
    | code | softbreak | linebreak => trivial
    | emphasis strong =>
      rw [phraseOf_emphasis]
      exact (apart_delimiter (areSound_marks _) strong).1
    | reference r =>
      rw [phraseOf_reference]
      trivial
  | code | softbreak | linebreak => trivial
  | @emphasis _ _ _ strong =>
    rw [phraseOf_emphasis]
    cases hb with
    | text => exact (apart_delimiter (areSound_marks _) strong).2
    | code | softbreak | linebreak => trivial
    | emphasis strong' =>
      have hboth := meets.emphases (by cases strong <;> rfl)
      cases strong' <;> cases hboth
    | reference r =>
      rw [phraseOf_reference]
      trivial
  | reference r =>
    rw [phraseOf_reference]
    trivial

theorem follows_of_meets (ha : IsSettledInline signed inLink depth a)
    (hb : IsSettledInline signed inLink depth b) (back : IsReadBack signed inLink depth a)
    (meets : Meets a b) : Ink.Follows inLink (phraseOf a).edge (phraseOf b).edge := by
  obtain ⟨c, hhead, hbegins⟩ := exists_beginsWith hb
  refine ⟨apart_of_meets ha hb meets, ?_⟩
  rw [hhead]
  exact back.readAt _ (leadsTo_of_meets ha meets hbegins)

theorem forall_phrasesOf {p : Phrase → Prop} (h : ∀ n ∈ ns, p (phraseOf n)) :
    ∀ x ∈ phrasesOf ns, p x := by
  rw [phrasesOf_eq_map]
  exact List.forall_mem_map.mpr h

theorem isRow_nodes (below : ∀ n ∈ ns, IsSettledInline signed inLink depth n)
    (back : ∀ n ∈ ns, IsReadBack signed inLink depth n) (meets : ns.IsChain Meets) :
    Ink.IsRow inLink (allInks (phrasesOf ns)) := by
  refine isRow_allInks (forall_phrasesOf fun n hn => (back n hn).row) ?_
  rw [phrasesOf_eq_map, List.isChain_map]
  exact meets.imp_of_mem_imp fun a b ha hb hab =>
    follows_of_meets (below a ha) (below b hb) (back a ha) hab

theorem exists_of_getLast?_inks {i : Ink} (h : i ∈ (allInks (phrasesOf ns)).getLast?) :
    ∃ n ∈ ns.getLast?, (phraseOf n).edge = i := by
  rw [getLast?_allInks, phrasesOf_eq_map, List.getLast?_map, Option.map_map] at h
  exact Option.map_eq_some_iff.mp h

/-- The last node is read also where an asterisk or a bracket follows, or nothing at all. -/
theorem isReadAt_last (below : ∀ n ∈ ns, IsSettledInline signed inLink depth n)
    (back : ∀ n ∈ ns, IsReadBack signed inLink depth n) {first : Option Char}
    (sign : ∀ c ∈ first, c = '*' ∨ c = ']') :
    ∀ i ∈ (allInks (phrasesOf ns)).getLast?, i.IsReadAt inLink first := by
  intro i hi
  obtain ⟨n, hn, rfl⟩ := exists_of_getLast?_inks hi
  have hmem := List.mem_of_getLast? hn
  exact (back n hmem).readAt _ (leadsTo_of_sign (below n hmem) sign)

theorem depth_allTokens (back : ∀ n ∈ ns, IsReadBack signed inLink depth n) :
    ∀ t ∈ allTokens (phrasesOf ns), t.depth ≤ depth := by
  induction ns with
  | nil => simp [phrasesOf, allTokens]
  | cons n ns ih =>
    obtain ⟨hn, hns⟩ := List.forall_mem_cons.mp back
    rw [phrasesOf, allTokens]
    exact List.forall_mem_append.mpr ⟨hn.shallow, ih hns⟩

theorem depthOf_le {ts : List Token} (h : ∀ t ∈ ts, t.depth ≤ depth) :
    Token.depthOf ts ≤ depth := by
  induction ts with
  | nil => exact Nat.zero_le depth
  | cons t ts ih =>
    obtain ⟨ht, hts⟩ := List.forall_mem_cons.mp h
    exact Nat.max_le.mpr ⟨ht, ih hts⟩

/-- The tokens that spell a phrase are no deeper than its own. -/
theorem Phrase.Spells.depth_le {x : Phrase} (h : x.Spells ts)
    (shallow : ∀ t ∈ x.tokens, t.depth ≤ depth) : ∀ t ∈ ts, t.depth ≤ depth := by
  cases h with
  | text _ _ =>
    intro t ht
    obtain ⟨u, -, rfl⟩ := List.mem_map.mp ht
    exact Nat.zero_le depth
  | solid => exact shallow
  | emphasis => exact List.forall_mem_singleton.mpr (shallow _ (by simp [Phrase.tokens]))

theorem depth_spelled {tss : List (List Token)} (back : ∀ n ∈ ns, IsReadBack signed inLink depth n)
    (spells : List.Forall₂ Phrase.Spells (phrasesOf ns) tss) :
    ∀ t ∈ tss.flatten, t.depth ≤ depth := by
  induction ns generalizing tss with
  | nil =>
    cases spells
    simp
  | cons n ns ih =>
    obtain ⟨hn, hns⟩ := List.forall_mem_cons.mp back
    cases spells with
    | cons hts htss =>
      rw [List.flatten_cons]
      exact List.forall_mem_append.mpr ⟨hts.depth_le hn.shallow, ih hns htss⟩

theorem phrases_flatten (tss : List (List Token)) :
    Token.phrases tss.flatten = (tss.map Token.phrases).flatten := by
  have happend : ∀ ts us : List Token, Token.phrases (ts ++ us) =
      Token.phrases ts ++ Token.phrases us := by
    intro ts us
    induction ts with
    | nil => rfl
    | cons t ts ih => rw [List.cons_append, Token.phrases, Token.phrases, ih, List.append_assoc]
  induction tss with
  | nil => rfl
  | cons ts tss ih => rw [List.flatten_cons, happend, ih, List.map_cons, List.flatten_cons]

/-- Tokens that spell nodes in a row are read as these nodes. -/
theorem pushAll_spelled {tss : List (List Token)}
    (back : ∀ n ∈ ns, IsReadBack signed inLink depth n) (meets : ns.IsChain Meets)
    (spells : List.Forall₂ Phrase.Spells (phrasesOf ns) tss) :
    Merge.pushAll [] (Token.phrases tss.flatten) = ns := by
  have hbecomes : List.Forall₂ BecomesOne (tss.map Token.phrases) ns := by
    clear meets
    induction ns generalizing tss with
    | nil =>
      cases spells
      exact .nil
    | cons n ns ih =>
      obtain ⟨hn, hns⟩ := List.forall_mem_cons.mp back
      cases spells with
      | cons hts htss => exact .cons (hn.spelled _ hts) (ih hns htss)
  rw [phrases_flatten, pushAll_becomes hbecomes (meets.imp fun _ _ h => h.unlike) (by simp),
    List.nil_append]

/-- No two texts meet. -/
theorem not_bothTexts (below : ∀ n ∈ ns, IsSettledInline signed inLink depth n)
    (meets : ns.IsChain Meets) : (phrasesOf ns).IsChain fun x y => ¬Phrase.BothTexts x y := by
  have htext : ∀ n ∈ ns, ∀ ms, phraseOf n = .ink (.text ms) → n.kind? = some .text := by
    intro n hn ms heq
    cases below n hn with
    | text => rfl
    | code | softbreak | linebreak => cases heq
    | emphasis strong => rw [phraseOf_emphasis] at heq; cases heq
    | reference r => rw [phraseOf_reference] at heq; cases heq
  rw [phrasesOf_eq_map, List.isChain_map]
  refine meets.imp_of_mem_imp fun a b ha hb hab hboth => ?_
  obtain ⟨ms, ks, hms, hks⟩ : ∃ ms ks, phraseOf a = .ink (.text ms) ∧
      phraseOf b = .ink (.text ks) := by
    generalize phraseOf a = x at hboth
    generalize phraseOf b = y at hboth
    obtain (_ | _) | _ := x <;> obtain (_ | _) | _ := y
    all_goals first | exact ⟨_, _, rfl, rfl⟩ | cases hboth
  have hkind := htext a ha ms hms
  exact unlike_same hab.unlike (hkind.trans (htext b hb ks hks).symm) (.inl hkind)

theorem exists_text_of_kind (h : IsSettledInline signed inLink depth n)
    (kind : n.kind? = some .text) : ∃ ms, phraseOf n = .ink (.text ms) := by
  cases h with
  | text => exact ⟨_, rfl⟩
  | code | softbreak | linebreak => cases kind
  | emphasis strong => cases strong <;> cases kind
  | reference r => cases r <;> cases kind

theorem isEmphasis_of_phrase (h : IsSettledInline signed inLink depth n) {strong : Bool}
    {content : List Phrase} (phrase : phraseOf n = .emphasis strong content) : isEmphasis n := by
  cases h with
  | text | code | softbreak | linebreak => cases phrase
  | emphasis strong => cases strong <;> rfl
  | reference r => rw [phraseOf_reference] at phrase; cases phrase

/-- What is no emphasis does not go on with the asterisks beside it. -/
theorem apart_of_not_emphasis (h : IsSettledInline signed inLink depth n)
    (other : isEmphasis n = false) (strong : Bool) :
    (phraseOf n).edge.Apart (delimiter strong) ∧ (delimiter strong).Apart (phraseOf n).edge := by
  cases h with
  | text => exact apart_delimiter (areSound_marks _) strong
  | code | softbreak | linebreak => exact ⟨trivial, trivial⟩
  | emphasis strong => cases strong <;> cases other
  | reference r =>
    rw [phraseOf_reference]
    exact ⟨trivial, trivial⟩

/-- The asterisks around emphasis are read apart from its content. -/
theorem isRow_emphasis (strong : Bool) (emphasized : IsEmphasized ns)
    (below : ∀ n ∈ ns, IsSettledInline signed inLink depth n)
    (back : ∀ n ∈ ns, IsReadBack signed inLink depth n) :
    Ink.IsRow inLink (Phrase.emphasis strong (phrasesOf ns)).inks := by
  obtain ⟨hfilled, hwritten⟩ := delimiter_filled strong
  have hrow := isRow_nodes below back emphasized.meets
  have hsome : allInks (phrasesOf ns) ≠ [] := by
    intro hnil
    have hhead := head?_allInks (phrasesOf ns)
    rw [hnil, phrasesOf_eq_map, List.head?_map,
      List.head?_eq_some_head emphasized.nonempty] at hhead
    cases hhead
  rw [Phrase.inks]
  refine ⟨?_, ?_, List.IsChain.cons ?_ fun i hi => ?_⟩
  · exact List.forall_mem_cons.mpr
      ⟨hfilled, List.forall_mem_append.mpr ⟨hrow.filled, by simpa using hfilled⟩⟩
  · exact List.forall_mem_cons.mpr
      ⟨hwritten, List.forall_mem_append.mpr ⟨hrow.written, by simpa using hwritten⟩⟩
  · refine hrow.chain.append (.singleton _) fun i hi j hj => ?_
    obtain rfl := Option.some.inj hj
    refine ⟨?_, isReadAt_last below back ?_ i hi⟩
    · obtain ⟨n, hn, rfl⟩ := exists_of_getLast?_inks hi
      exact (apart_of_not_emphasis (below n (List.mem_of_getLast? hn))
        (emphasized.ends n (.inr hn)) strong).1
    cases strong <;> simp [delimiter, Ink.written, size, Mark.text]
  · rw [List.head?_append_of_ne_nil _ hsome, head?_allInks, phrasesOf_eq_map, List.head?_map,
      Option.map_map] at hi
    obtain ⟨n, hn, rfl⟩ := Option.map_eq_some_iff.mp hi
    exact ⟨(apart_of_not_emphasis (below n (List.mem_of_head? hn)) (emphasized.ends n (.inl hn))
      strong).2, isReadAt_delimiter strong _⟩

/-- The tokens in emphasis spell its content. -/
theorem exists_spelled_nodes (emphasized : IsEmphasized ns)
    (below : ∀ n ∈ ns, IsSettledInline signed inLink depth n)
    (back : ∀ n ∈ ns, IsReadBack signed inLink depth n) :
    ∃ tss,
      List.Forall₂ Phrase.Spells (phrasesOf ns) tss ∧ allTokens (phrasesOf ns) = tss.flatten := by
  have hends : ∀ n, n ∈ ns.head? ∨ n ∈ ns.getLast? →
      ∀ strong content, phraseOf n ≠ .emphasis strong content := by
    intro n hn strong content heq
    have hmem : n ∈ ns := hn.elim List.mem_of_head? List.mem_of_getLast?
    have hemphasis := isEmphasis_of_phrase (below n hmem) heq
    rw [emphasized.ends n hn] at hemphasis
    cases hemphasis
  have hsets : (phrasesOf ns).IsChain Phrase.Sets := by
    rw [phrasesOf_eq_map, List.isChain_map]
    refine emphasized.frames.imp_of_mem_imp fun a b ha hb hab =>
      ⟨fun strong content heq => ?_, fun strong content heq => ?_⟩
    · exact exists_text_of_kind (below a ha) (hab.before (isEmphasis_of_phrase (below b hb) heq))
    · exact exists_text_of_kind (below b hb) (hab.after (isEmphasis_of_phrase (below a ha) heq))
  have hlast : ∀ strong content, (phrasesOf ns).getLast? ≠ some (.emphasis strong content) := by
    intro strong content heq
    rw [phrasesOf_eq_map, List.getLast?_map] at heq
    obtain ⟨n, hn, hphrase⟩ := Option.map_eq_some_iff.mp heq
    exact hends n (.inr hn) _ _ hphrase
  have hleading : Phrase.leading (phrasesOf ns) = [] := by
    obtain ⟨n, ns, rfl⟩ := List.exists_cons_of_ne_nil emphasized.nonempty
    have hfirst := hends n (.inl rfl)
    rw [phrasesOf]
    generalize phraseOf n = x at hfirst
    cases x with
    | ink i => rfl
    | emphasis strong content => exact absurd rfl (hfirst strong content)
  have hsound : ∀ n ∈ ns, (phraseOf n).IsSound signed depth :=
    fun n hn => (back n hn).sound depth (Nat.le_refl depth)
  obtain ⟨tss, hspells, htokens⟩ := exists_spelled_content (forall_phrasesOf hsound) hsets hlast
  rw [hleading, List.nil_append] at htokens
  exact ⟨tss, hspells, htokens⟩

theorem isReadBack_emphasis (strong : Bool) (around : signed)
    (emphasized : IsEmphasized ns) (below : ∀ n ∈ ns, IsSettledInline signed inLink depth n)
    (back : ∀ n ∈ ns, IsReadBack signed inLink depth n) :
    IsReadBack signed inLink (depth + 1) (.branch (emphasisOf strong) none ns) := by
  have hphrase := phraseOf_emphasis strong ns
  have hdepth : Token.depthOf (allTokens (phrasesOf ns)) ≤ depth :=
    depthOf_le (depth_allTokens back)
  have hsome : phrasesOf ns ≠ [] := by
    rw [phrasesOf_eq_map]
    exact mt List.map_eq_nil_iff.mp emphasized.nonempty
  refine {
    sound := fun limit hlimit => ?_
    shallow := ?_
    row := hphrase ▸ isRow_emphasis strong emphasized below back
    readAt := fun first _ => ?_
    spelled := fun ts hts => ?_ }
  · rw [hphrase]
    exact .emphasis around hsome
      (forall_phrasesOf fun n hn => (back n hn).sound limit (Nat.le_of_succ_le hlimit))
      emphasized.stand (Nat.lt_of_le_of_lt hdepth hlimit)
  · rw [hphrase, Phrase.tokens]
    simp only [List.forall_mem_cons, List.not_mem_nil, false_implies, implies_true, and_true]
    exact ⟨Nat.zero_le _, Nat.succ_le_succ hdepth, Nat.zero_le _⟩
  · rw [hphrase]
    exact isReadAt_delimiter strong first
  · rw [hphrase] at hts
    obtain ⟨tss, hspells, htokens⟩ := exists_spelled_nodes emphasized below back
    cases hts
    have hbranch : Token.phrases [.wrapper (wrapper strong) (allTokens (phrasesOf ns))] =
        [.branch (emphasisOf strong) none (Token.phrases tss.flatten)] := by
      rw [htokens]
      cases strong <;> rfl
    rw [hbranch]
    exact becomesOne_emphasis strong (pushAll_spelled back emphasized.meets hspells)

theorem isReadBack_reference (r : Reference) {dest title : String}
    (outside : r = .link → inLink = false) (destination : IsDestination dest.toList)
    (keeps : KeepsAllReferences title.toList) (label : IsLabel ns)
    (below : ∀ n ∈ ns, IsSettledInline within (inLink || r == .link) depth n)
    (back : ∀ n ∈ ns, IsReadBack within (inLink || r == .link) depth n)
    (room : depth + 1 ≤ maxDepth) :
    IsReadBack signed inLink (depth + 1) (.branch (r.container dest title) none ns) := by
  have hphrase := phraseOf_reference r dest title ns
  have hrow := isRow_nodes below back label.meets
  have hsound : ∀ n ∈ ns, (phraseOf n).IsSound within (maxDepth - 1) := fun n hn =>
    (back n hn).sound _ (Nat.le_sub_of_add_le room)
  obtain ⟨tss, hspells, htokens⟩ := exists_tokens (forall_phrasesOf hsound)
    (not_bothTexts below label.meets) label.stand hrow.areStrokes
  have hlast : ∀ i ∈ (allInks (phrasesOf ns)).getLast?,
      i.IsReadAt (inLink || r == .link) (some ']') := isReadAt_last below back (by simp)
  generalize hks : (allInks (phrasesOf ns)).flatMap Ink.strokes = ks at htokens
  rw [Ink.reference, hks] at hphrase
  have hpart : ∀ inLink, Piece.part inLink
    (.reference r ⟨dest.toList, title.toList⟩ (pushed ks).reverse) =
    .token (.reference r (.str (String.ofList dest.toList)) (.str (String.ofList title.toList))
        (Emphasis.tokensOf (maxDepth - 1) (Piece.partsOf false (pushed ks).reverse))) := by
    intro inLink
    rw [Piece.part, htokens, htokens]
  have hdepth :
      (Token.reference r (.str (String.ofList dest.toList)) (.str (String.ofList title.toList))
        (Emphasis.tokensOf (maxDepth - 1) (Piece.partsOf false (pushed ks).reverse))).depth ≤
      depth + 1 := by
    rw [Token.depth, htokens]
    exact Nat.succ_le_succ (depthOf_le (depth_spelled back hspells))
  have hshallow :
      (Piece.reference r ⟨dest.toList, title.toList⟩ (pushed ks).reverse).isTooDeep = false := by
    rw [Piece.isTooDeep, hpart]
    exact decide_eq_false (Nat.not_lt.mpr (hdepth.trans room))
  refine {
    sound := fun limit _ => ?_
    shallow := ?_
    row := ?_
    readAt := fun first _ => ?_
    spelled := fun ts hts => ?_ }
  all_goals rw [hphrase] at *
  · exact .ink (.solid hpart)
  · exact List.forall_mem_singleton.mpr hdepth
  · exact Ink.isRow_singleton hpart (by cases r <;> exact List.cons_ne_nil _ _)
  · rintro rest rfl
    refine .solid fun ds st hst => Inline.readFrom_referenceText destination hshallow
      (fun hlink => hst (outside hlink)) ?_ rest
    intro source after
    have hadmits : Inline.Reading.Admits (inLink || r == .link)
        { st with brackets := { kind := r, source } :: st.brackets } := by
      intro hneither
      obtain ⟨hnot, himage⟩ : inLink = false ∧ (r == .link) = false := by simpa using hneither
      refine List.forall_mem_cons.mpr ⟨?_, hst hnot⟩
      cases r with
      | link => cases himage
      | image => rfl
    have hreads :
        Ink.AreReadBefore (inLink || r == .link) (']' :: after) (allInks (phrasesOf ns)) :=
      hrow.areReadBefore hlast
    have hread := readFrom_inks hreads ds hadmits
    rw [hks, pushAll_bracket] at hread
    exact hread
  · cases hts
    rw [htokens, String.ofList_toList, String.ofList_toList]
    have hbranch : Token.phrases [.reference r (.str dest) (.str title) tss.flatten] =
        [.branch (r.container dest title) none (Token.phrases tss.flatten)] := by
      rw [Token.phrases, Token.phrase, keeps.decoded_eq]
      rfl
    rw [hbranch]
    exact becomesOne_reference r dest title (pushAll_spelled back label.meets hspells)

/-- Every settled inline node is read back, if it is not nested too deep. -/
theorem IsSettledInline.isReadBack (h : IsSettledInline signed inLink depth n)
    (room : depth ≤ maxDepth) : IsReadBack signed inLink depth n := by
  induction h with
  | text nonempty blanks plain keeps => exact isReadBack_text nonempty blanks plain keeps
  | code nonempty blanks => exact isReadBack_code nonempty blanks
  | softbreak => exact isReadBack_break (.inl rfl)
  | linebreak => exact isReadBack_break (.inr rfl)
  | emphasis strong around emphasized below ih =>
    exact isReadBack_emphasis strong around emphasized below fun n hn =>
      ih n hn (Nat.le_of_succ_le room)
  | reference r outside destination _ keeps label below ih =>
    exact isReadBack_reference r outside destination keeps label below
      (fun n hn => ih n hn (Nat.le_of_succ_le room)) room

theorem pushAll_alone (alone : ∀ n ∈ ns, BecomesOne [n] n) (meets : ns.IsChain Meets) :
    Merge.pushAll [] ns = ns := by
  have hbecomes : List.Forall₂ BecomesOne (ns.map fun n => [n]) ns := by
    rw [List.forall₂_map_left_iff, List.forall₂_same]
    exact alone
  have hflatten : (ns.map fun n => [n]).flatten = ns := by
    rw [← List.flatMap_def]
    exact List.flatMap_singleton' ns
  have hpush : Merge.pushAll [] (ns.map fun n => [n]).flatten = [] ++ ns :=
    pushAll_becomes hbecomes (meets.imp fun _ _ h => h.unlike) (by simp)
  rwa [hflatten] at hpush

/-- A settled inline node is merged already. -/
theorem IsSettledInline.becomesOne (h : IsSettledInline signed inLink depth n) :
    BecomesOne [n] n := by
  induction h with
  | @text _ _ _ t =>
    have hjoin : String.join [t] = t := by simp
    exact becomesOne_text (List.cons_ne_nil t []) hjoin
  | code => exact becomesOne_code _
  | softbreak | linebreak =>
    intro siblings _
    rw [Merge.pushAll, Merge.pushAll, Merge.push]
    all_goals simp
  | emphasis strong _ emphasized _ ih =>
    exact becomesOne_emphasis strong (pushAll_alone ih emphasized.meets)
  | reference r _ _ _ _ label _ ih =>
    exact becomesOne_reference r _ _ (pushAll_alone ih label.meets)

/-- Inline content that is read as it was written, but for texts side by side. -/
structure IsSettledContent (ns : List Node) : Prop where
  settled : ∃ signed, ∀ n ∈ ns, IsSettledInline signed false maxDepth n
  label : IsLabel ns

/-- Settled content is read as the like of it. -/
theorem IsSettledContent.exists_phrases (h : IsSettledContent ns) :
    ∃ ms, Merge.pushAll [] ms = ns ∧
      ∀ ds, Token.phrases (Inline.tokens ds (contentText ns)) = ms := by
  obtain ⟨signed, hsettled⟩ := h.settled
  have hback : ∀ n ∈ ns, IsReadBack signed false maxDepth n :=
    fun n hn => (hsettled n hn).isReadBack (Nat.le_refl _)
  have hrow := isRow_nodes hsettled hback h.label.meets
  have hsound : ∀ n ∈ ns, (phraseOf n).IsSound signed maxDepth :=
    fun n hn => (hback n hn).sound _ (Nat.le_refl _)
  obtain ⟨tss, hspells, htokens⟩ := exists_tokens (forall_phrasesOf hsound)
    (not_bothTexts hsettled h.label.meets) h.label.stand hrow.areStrokes
  have hlast : ∀ i ∈ (allInks (phrasesOf ns)).getLast?, i.IsReadAt false none :=
    isReadAt_last hsettled hback nofun
  refine ⟨Token.phrases tss.flatten, pushAll_spelled hback h.label.meets hspells, fun ds => ?_⟩
  rw [contentText, tokens_inks (hrow.areReadBefore hlast), htokens]

end Canonmark.Markdown
