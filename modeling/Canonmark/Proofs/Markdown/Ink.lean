import Canonmark.Proofs.Markdown.Delimiters
import Canonmark.Proofs.Markdown.Written

/-! The text of inline content, sign by sign: it depends on nothing but the content and the
indentation. -/
namespace Canonmark.Markdown.Writer

open Text (isBlank)

/-- A sign of written content. The bracket that a link writes is told from other signs, and whether
the link sees what stands before it. -/
inductive Ink
  | plain (c : Char)
  | bracket (sheltered : Bool)
  deriving DecidableEq, Repr

namespace Ink

def sign : Ink → Char
  | plain c => c
  | bracket _ => '['

def isBracket : Ink → Bool
  | plain _ => false
  | bracket _ => true

end Ink

/-- A text without the bracket of a link. -/
def inked (s : Chars) : List Ink := s.map .plain

def signs (s : List Ink) : Chars := s.map Ink.sign

/-- The text of chunks, the last of which comes first. -/
def inkText (out : List (List Ink)) : List Ink := out.reverse.flatten

/-- How many signs of white space a text begins with. -/
def leadLength (s : List Ink) : Nat := ((signs s).takeWhile isBlank).length

/-- A text without the white space at its ends. -/
def inkTrim (s : List Ink) : List Ink := (s.drop (leadLength s)).take (Text.trim (signs s)).length

/-- The text of emphasis. -/
def inkDelimited (delimiter : Chars) (inner : List Ink) : List Ink :=
  if (inkTrim inner).isEmpty then inner
  else
    let lead := inner.take (leadLength inner)
    let trail := inner.drop (leadLength inner + (inkTrim inner).length)
    let backslashes := (Text.takeEndWhile (· == '\\') (signs (inkTrim inner))).length
    if (signs trail).head? == some '\n' && backslashes % 2 == 1 then
      lead ++ inked delimiter ++ (inkTrim inner).dropLast ++ inked delimiter ++
        inked ['\\'] ++ trail
    else lead ++ inked delimiter ++ inkTrim inner ++ inked delimiter ++ trail

/-- The chunks before a link, an exclamation mark at the end of the last one being escaped. -/
def inkGuard (style : Style) (out : List (List Ink)) : List (List Ink) :=
  match out with
  | chunk :: rest =>
    if style.escape && (signs chunk).getLast? == some '!'
      then (chunk.dropLast ++ inked ['\\', '!']) :: rest
    else chunk :: rest
  | [] => []

/-- Whether a link that stands after the given chunks sees what stands before it: the last chunk has
something in it, or there is none and the content does not continue other content. -/
def isSheltered (continued : Bool) : List (List Ink) → Bool
  | [] => !continued
  | chunk :: _ => !chunk.isEmpty

mutual

/-- The chunks after the visit of an inline node. The content of a variable continues the content
before the variable. -/
def inkNode (style : Style) (indent : Nat) (continued : Bool) (out : List (List Ink)) :
    Node → List (List Ink)
  | .leaf (.text t) _ => inked (plainText style t) :: out
  | .leaf (.code t) _ => inked (codeSpan t.toList) :: out
  | .leaf .softbreak _ => inked (newline indent) :: out
  | .leaf .linebreak _ => inked ('\\' :: newline indent) :: out
  | .branch .emph _ children =>
    inkDelimited ['*'] (inkText (inkEach style indent false [] children)) :: out
  | .branch .strong _ children =>
    inkDelimited ['*', '*'] (inkText (inkEach style indent false [] children)) :: out
  | .branch (.link dest title) _ children =>
    (.bracket (isSheltered continued out) :: inkText (inkEach style indent false [] children) ++
      inked (']' :: '(' :: linkTarget dest.toList title.toList ++ [')'])) :: inkGuard style out
  | .leaf (.htmlInline text _) _ => inked text.toList :: out
  | .branch (.image dest title) _ children =>
    (inked ['!', '['] ++ inkText (inkEach style indent false [] children) ++
      inked (']' :: '(' :: linkTarget dest.toList title.toList ++ [')'])) :: out
  | .branch (.templateVariable _ value) _ children | .branch (.computedVariable value) _ children =>
    (if children.isEmpty then inked (plainText style value)
      else inkText (inkEach style indent (continued || !out.isEmpty) [] children)) :: out
  | _ => out

def inkEach (style : Style) (indent : Nat) (continued : Bool) (out : List (List Ink)) :
    List Node → List (List Ink)
  | [] => out
  | n :: ns => inkEach style indent continued (inkNode style indent continued out n) ns

end

/-- The text of a paragraph. -/
def paragraphInk (style : Style) (indent : Nat) (children : List Node) : List Ink :=
  inkText (inkEach style indent false [] (Merge.pushAll [] children))

@[simp] theorem signs_inked (s : Chars) : signs (inked s) = s := by
  simp [signs, inked, Function.comp_def, Ink.sign]

@[simp] theorem signs_append (s t : List Ink) : signs (s ++ t) = signs s ++ signs t :=
  List.map_append

@[simp] theorem signs_cons (i : Ink) (s : List Ink) : signs (i :: s) = i.sign :: signs s := rfl

@[simp] theorem inkText_cons (chunk : List Ink) (out : List (List Ink)) :
    inkText (chunk :: out) = inkText out ++ chunk := by simp [inkText]

theorem signs_inkText (out : List (List Ink)) :
    signs (inkText out) = (out.map signs).reverse.flatten := by
  rw [inkText, signs, List.map_flatten, List.map_reverse]
  rfl

variable {style : Style} {delimiter : Chars} {inner : List Ink}

theorem signs_take (s : List Ink) (n : Nat) : signs (s.take n) = (signs s).take n := List.map_take

theorem signs_drop (s : List Ink) (n : Nat) : signs (s.drop n) = (signs s).drop n := List.map_drop

theorem signs_dropLast (s : List Ink) : signs s.dropLast = (signs s).dropLast := List.map_dropLast

theorem drop_leadLength (h : Text.trim (signs inner) ≠ []) :
    (signs inner).drop (leadLength inner) =
      Text.trim (signs inner) ++ Text.takeEndWhile isBlank (signs inner) := by
  conv => lhs; rw [(Text.trim_parts h).1]
  rw [List.append_assoc, leadLength, List.drop_left]

@[simp] theorem signs_inkTrim (s : List Ink) : signs (inkTrim s) = Text.trim (signs s) := by
  rw [inkTrim]
  by_cases h : Text.trim (signs s) = []
  · rw [h]
    rfl
  · rw [signs_take, signs_drop, drop_leadLength h, List.take_left]

variable (delimiter) in
/-- A text is cut where its white space ends and begins. -/
theorem exists_parts (h : Text.trim (signs inner) ≠ []) :
    ∃ lead trail,
        inner = lead ++ inkTrim inner ++ trail ∧ signs lead = (signs inner).takeWhile isBlank ∧
      signs trail = Text.takeEndWhile isBlank (signs inner) ∧ inkDelimited delimiter inner =
        if (signs trail).head? == some '\n' &&
            (Text.takeEndWhile (· == '\\') (signs (inkTrim inner))).length % 2 == 1 then
          lead ++ inked delimiter ++ (inkTrim inner).dropLast ++ inked delimiter ++
            inked ['\\'] ++ trail
        else lead ++ inked delimiter ++ inkTrim inner ++ inked delimiter ++ trail := by
  have hlength : (Text.trim (signs inner)).length = (inkTrim inner).length := by
    rw [← signs_inkTrim, signs, List.length_map]
  have htrim : inkTrim inner = (inner.drop (leadLength inner)).take (inkTrim inner).length := by
    conv => lhs; rw [inkTrim, hlength]
  refine ⟨inner.take (leadLength inner), inner.drop (leadLength inner + (inkTrim inner).length),
    ?_, ?_, ?_, ?_⟩
  · have hrest : inkTrim inner ++ (inner.drop (leadLength inner)).drop (inkTrim inner).length =
        inner.drop (leadLength inner) := by
      conv => lhs; lhs; rw [htrim]
      exact List.take_append_drop _ _
    rw [← List.drop_drop, List.append_assoc, hrest, List.take_append_drop]
  · rw [signs_take]
    exact (List.prefix_iff_eq_take.mp (List.takeWhile_prefix isBlank)).symm
  · rw [signs_drop, ← List.drop_drop, drop_leadLength h, ← hlength, List.drop_left]
  · have hsome : (inkTrim inner).isEmpty = false := by
      rw [List.isEmpty_eq_false_iff, ← List.length_pos_iff, ← hlength, List.length_pos_iff]
      exact h
    rw [inkDelimited, hsome]
    rfl

theorem inkDelimited_of_blank (h : Text.trim (signs inner) = []) :
    inkDelimited delimiter inner = inner := by
  have hnil : inkTrim inner = [] := List.map_eq_nil_iff.mp ((signs_inkTrim inner).trans h)
  rw [inkDelimited, hnil]
  rfl

theorem signs_inkDelimited (delimiter : Chars) (inner : List Ink) :
    signs (inkDelimited delimiter inner) = delimited delimiter (signs inner) := by
  by_cases h : Text.trim (signs inner) = []
  · rw [inkDelimited_of_blank h, delimited, h]
    rfl
  obtain ⟨lead, trail, -, hlead, htrail, hcut⟩ := exists_parts delimiter h
  rw [hcut, delimited_of_ink h, apply_ite signs, htrail, signs_inkTrim]
  simp [hlead, htrail, signs_dropLast]

theorem guardLink_eq {out : List (List Ink)} {l : Layout} (h : l.out = out.map signs) :
    guardLink style l = .ok () { l with out := (inkGuard style out).map signs } := by
  obtain ⟨_, indent, first, tight, markers⟩ := l
  cases h
  unfold guardLink
  cases hescape : style.escape with
  | false => cases out <;> simp [inkGuard, hescape] <;> rfl
  | true =>
    cases out with
    | nil => rfl
    | cons chunk rest =>
      have hinit : signs chunk.dropLast = (signs chunk).dropLast := List.map_dropLast
      by_cases hmark : (signs chunk).getLast? = some '!'
      · change EStateM.Result.ok () (if _ then _ else _) = _
        simp [inkGuard, hescape, hmark, hinit]
      · change EStateM.Result.ok () (if _ then _ else _) = _
        simp [inkGuard, hescape, hmark]

/-- What a node writes in a layout. -/
def IsInked (style : Style) (n : Node) : Prop :=
  ∀ (l : Layout) (continued : Bool) (out : List (List Ink)), l.out = out.map signs →
    node style n l = .ok () { l with out := (inkNode style l.indent continued out n).map signs }

theorem each_inked {ns : List Node} (h : ∀ n ∈ ns, IsInked style n) (l : Layout) (continued : Bool)
    {out : List (List Ink)} (hout : l.out = out.map signs) :
    each style ns l = .ok ()
      { l with out := (inkEach style l.indent continued out ns).map signs } := by
  induction ns generalizing l out with
  | nil =>
    rw [each, inkEach, ← hout]
    rfl
  | cons n ns ih =>
    obtain ⟨hn, hns⟩ := List.forall_mem_cons.mp h
    rw [each, run_bind_of_ok (hn l continued out hout), inkEach]
    exact ih hns _ rfl

theorem inlines_of_inked {ns : List Node} (typed : ∀ n ∈ ns, n.kind?.isSome)
    (h : ∀ n ∈ ns, IsInked style n) (l : Layout) (continued : Bool) :
    inlines style ns l = .ok (signs (inkText (inkEach style l.indent continued [] ns))) l := by
  have hnil : ([] : List Chars) = ([] : List (List Ink)).map signs := rfl
  refine inlines_eq_ok typed ⟨_, each_inked h _ continued hnil, ?_⟩
  rw [signs_inkText]
  rfl

/-- The signs of inline content are what is written for it. -/
theorem isInked_of_inline {n : Node} (h : IsMadeOf isInlineKind n) : IsInked style n := by
  induction n using Node.inductionOnChildren with
  | leaf x span =>
    intro l continued out hout
    have hself := h.self
    cases x with
    | text t | code t | htmlInline t _ | softbreak | linebreak =>
      rw [node, inkNode, List.map_cons, signs_inked, ← hout]
      rfl
    | _ => cases hself
  | branch c span children ih =>
    intro l continued out hout
    have hself := h.self
    have hinlines : ∀ (l : Layout) (continued : Bool), inlines style children l =
        .ok (signs (inkText (inkEach style l.indent continued [] children))) l :=
      inlines_of_inked (fun n hn => (h.below n hn).isSome) fun n hn => ih n hn (h.below n hn)
    cases c with
    | emph | strong =>
      rw [node, run_bind_of_ok (hinlines l false), inkNode, List.map_cons,
        signs_inkDelimited, ← hout]
      rfl
    | link dest title =>
      rw [node, run_bind_of_ok (guardLink_eq hout), run_bind_of_ok (hinlines _ false), inkNode,
        List.map_cons]
      simp only [signs_append, signs_cons, signs_inked, Ink.sign, List.append_assoc]
      rw [← List.append_assoc]
      rfl
    | image dest title =>
      rw [node, run_bind_of_ok (hinlines l false), inkNode, List.map_cons, ← hout]
      simp only [signs_append, signs_inked, List.append_assoc]
      rfl
    | templateVariable _ value | computedVariable value =>
      rw [node, inkNode, List.map_cons, ← hout]
      split
      · rw [signs_inked]
        rfl
      · rw [run_bind_of_ok (hinlines l _)]
        rfl
    | _ => cases hself
  | foreign v => cases h.self

theorem inlines_inked {ns : List Node}
    (h : ∀ n ∈ ns, IsMadeOf isInlineKind n) (l : Layout) (continued : Bool) :
    inlines style ns l = .ok (signs (inkText (inkEach style l.indent continued [] ns))) l :=
  inlines_of_inked (fun n hn => (h n hn).isSome)
    (fun n hn => isInked_of_inline (h n hn)) l continued

theorem isInline_of_madeOf {n : Node} (h : IsMadeOf isInlineKind n) : isInline n := by
  have hself := h.self
  cases n with
  | leaf x span => cases x <;> first | rfl | cases hself
  | branch c span children => cases c <;> first | rfl | cases hself
  | foreign v => cases hself

variable {children : List Node}

theorem isInline_pushAll (h : ∀ n ∈ children, IsMadeOf isInlineKind n) :
    ∀ n ∈ Merge.pushAll [] children, IsMadeOf isInlineKind n := isMadeOf_pushAll rfl rfl rfl rfl h

/-- A paragraph of inline content is one text. -/
theorem node_paragraph (h : ∀ n ∈ children, IsMadeOf isInlineKind n) (span : Option Span)
    (l : Layout) :
    node style (merged (.branch .paragraph span children)) l =
      .ok () { l with out := signs (paragraphInk style l.indent children) :: l.out } := by
  rw [Merge.merged_branch .paragraph (by simp [Container.kind]), node,
    run_bind_of_ok (inlines_inked (isInline_pushAll h) l false)]
  rfl

/-- A document of a paragraph is its text, without white space at the ends. -/
theorem write_paragraph (h : ∀ n ∈ children, IsMadeOf isInlineKind n) (span : Option Span) :
    write style (documentOf [.branch .paragraph span children]) =
      .ok (String.ofList (Text.trim (signs (paragraphInk style 0 children)))) := by
  have hmerged : merged (documentOf [.branch .paragraph span children]) =
      documentOf [merged (.branch .paragraph span children)] := by
    rw [documentOf, Merge.merged_branch _ (by simp [Container.kind]), Merge.pushAll,
      Merge.push_branch _ _ (by simp) (by simp)]
    rfl
  have hnode : node style (documentOf [merged (.branch .paragraph span children)]) {} =
      .ok () { out := [signs (paragraphInk style 0 children)], first := false } := by
    have hstart : startBlock {} = .ok () { first := false } := rfl
    have hown : isTransparent (.branch .paragraph span (Merge.pushAll [] children)) = false := by
      simpa [isTransparent] using fun n hn => isInline_of_madeOf (isInline_pushAll h n hn)
    have hparagraph : node style (merged (.branch .paragraph span children)) { first := false } =
        .ok () { out := [signs (paragraphInk style 0 children)], first := false } :=
      node_paragraph h span _
    have hnone : blocks style [] = pure () := by rw [blocks]
    rw [Merge.merged_branch .paragraph (by simp [Container.kind])] at hparagraph ⊢
    rw [documentOf, node, blocks, hnone, if_neg (by simp [isInline]), block_branch hown, bind_assoc,
      run_bind_of_ok hstart, run_bind_of_ok hparagraph]
    rfl
  rw [write_of_node (by rw [hmerged, hnode])]
  simp [Layout.text]

end Canonmark.Markdown.Writer
