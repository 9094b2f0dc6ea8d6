import Canonmark.Proofs.Markdown.MarkedText
import Canonmark.Proofs.Markdown.Strokes

/-! How inline content without emphasis is read: texts and solid pieces in a row. -/
namespace Canonmark.Markdown

/-- A text, mark by mark, or a solid piece as it is written, with its token. -/
inductive Ink where
  | text (ms : List Mark)
  | solid (written : Chars) (p : Piece) (t : Token)

namespace Inline.Reading

variable {inLink : Bool} {st : Reading} {b : Bracket}

/-- Outside a link, no bracket of a link is open. So a link may be read in this state. -/
def Admits (inLink : Bool) (st : Reading) : Prop :=
  inLink = false → ∀ b ∈ st.brackets, b.kind = .image

theorem Admits.push (h : st.Admits inLink) (p : Piece) : (st.push p).Admits inLink := by
  intro outside
  have hbrackets := h outside
  obtain ⟨_ | ⟨b, bs⟩, base⟩ := st
  · exact hbrackets
  · rw [List.forall_mem_cons] at hbrackets
    exact List.forall_mem_cons.mpr hbrackets

theorem Admits.pushAll (h : st.Admits inLink) (ps : List Piece) :
    (st.pushAll ps).Admits inLink := by
  induction ps generalizing st with
  | nil => exact h
  | cons p ps ih => exact ih (h.push p)

end Inline.Reading

namespace Ink

variable {inLink : Bool}

def written : Ink → Chars
  | text ms => ms.flatMap Mark.text
  | solid s _ _ => s

def strokes : Ink → List Stroke
  | text ms => (stretches ms).map .run
  | solid _ p t => [.solid p t]

/-- The tokens of an ink, unless texts are joined. -/
def tokens (i : Ink) : List Token := i.strokes.map Stroke.token

/-- An ink that is read as its strokes where the given text follows it. -/
inductive IsReadBefore (inLink : Bool) (rest : Chars) : Ink → Prop
  | text {ms : List Mark} (readable : ∀ m ∈ ms, m.IsReadable)
      (lets : ∀ m ∈ ms.getLast?, Inline.LetsBe m rest) : IsReadBefore inLink rest (text ms)
  | solid {s : Chars} {p : Piece} {t : Token} (reads : ∀ ds (st : Inline.Reading), st.Admits
        inLink → Inline.readFrom ds 0 (s ++ rest) st = Inline.readFrom ds 0 rest (st.push p)) :
      IsReadBefore inLink rest (solid s p t)

/-- Inks that are read as their strokes where the given text follows the last of them. -/
def AreReadBefore (inLink : Bool) (rest : Chars) : List Ink → Prop
  | [] => True
  | i :: is => i.IsReadBefore inLink (is.flatMap written ++ rest) ∧ AreReadBefore inLink rest is

end Ink

open Ink (AreReadBefore)

variable {i : Ink} {is js : List Ink} {rest : Chars} {inLink : Bool}

theorem Ink.IsReadBefore.readFrom (h : i.IsReadBefore inLink rest)
    (ds : List Definition) {st : Inline.Reading} (admits : st.Admits inLink) :
    Inline.readFrom ds 0 (i.written ++ rest) st =
      Inline.readFrom ds 0 rest (st.pushAll (i.strokes.map Stroke.piece)) := by
  cases h with
  | @text ms readable lets =>
    have hpieces : ((stretches ms).map Stroke.run).map Stroke.piece =
        (stretches ms).map Group.piece := by
      rw [List.map_map]
      rfl
    have hgroups := Inline.pushAll_groups (areStretches_stretches ms).some st
    rw [marks_stretches] at hgroups
    rw [Ink.strokes, hpieces, ← hgroups]
    exact Inline.readFrom_marks ds readable lets st
  | solid reads => exact reads ds st admits

theorem readFrom_inks (h : AreReadBefore inLink rest is)
    (ds : List Definition) {st : Inline.Reading} (admits : st.Admits inLink) :
    Inline.readFrom ds 0 (is.flatMap Ink.written ++ rest) st =
      Inline.readFrom ds 0 rest (st.pushAll ((is.flatMap Ink.strokes).map Stroke.piece)) := by
  induction is generalizing st with
  | nil => rfl
  | cons i is ih =>
    rw [List.flatMap_cons, List.append_assoc, h.1.readFrom ds admits, ih h.2 (admits.pushAll _),
      List.flatMap_cons, List.map_append, Inline.pushAll_append]

/-- What is read outside of brackets. -/
theorem pushAll_base (ks : List Stroke) :
    ({} : Inline.Reading).pushAll (ks.map Stroke.piece) = { base := pushed ks } := by
  induction ks using List.reverseRecOn with
  | nil => rfl
  | append_singleton ks k ih =>
    rw [List.map_append, Inline.pushAll_append, ih, pushed_concat]
    rfl

/-- What is read after an opening bracket. -/
theorem pushAll_bracket (ks : List Stroke) (kind : Reference)
    (source : Chars) (bs : List Inline.Bracket) (base : List Piece) :
    ({ brackets := { kind, source } :: bs, base } : Inline.Reading).pushAll (ks.map Stroke.piece) =
      { brackets := { kind, source, pieces := pushed ks } :: bs, base } := by
  induction ks using List.reverseRecOn with
  | nil => rfl
  | append_singleton ks k ih =>
    rw [List.map_append, Inline.pushAll_append, ih, pushed_concat]
    rfl

theorem tokens_inks (h : AreReadBefore false [] is) (ds : List Definition) :
    Inline.tokens ds (is.flatMap Ink.written) =
    Emphasis.tokensOf maxDepth (Piece.partsOf false (pushed (is.flatMap Ink.strokes)).reverse) := by
  have hadmits : Inline.Reading.Admits false {} := by simp [Inline.Reading.Admits]
  have hread := readFrom_inks h ds hadmits
  rw [List.append_nil, pushAll_base, Inline.readFrom_nil] at hread
  rw [Inline.tokens, Inline.pieces_of_readFrom hread, Piece.tokensOf]

/-- An ink that is read as its strokes before every text that begins so. -/
def Ink.IsReadAt (inLink : Bool) (first : Option Char) (i : Ink) : Prop :=
  ∀ rest : Chars, rest.head? = first → i.IsReadBefore inLink rest

theorem areReadBefore_of_chain (written : ∀ i ∈ is, i.written ≠ [])
    (chain : is.IsChain fun i j => i.IsReadAt inLink j.written.head?)
    (last : ∀ i ∈ is.getLast?, i.IsReadAt inLink rest.head?) : AreReadBefore inLink rest is := by
  induction is with
  | nil => trivial
  | cons i is ih =>
    obtain ⟨-, his⟩ := List.forall_mem_cons.mp written
    obtain _ | ⟨j, js⟩ := is
    · exact ⟨last i rfl rest rfl, trivial⟩
    · refine ⟨chain.rel _ ?_, ih his chain.tail last⟩
      rw [List.flatMap_cons, List.append_assoc, List.head?_append_of_ne_nil _ (his j (by simp))]

/-- What an ink is worth by itself. `signed` tells whether there are signs of emphasis around it. -/
inductive Ink.IsSound (signed : Bool) : Ink → Prop
  | text {ms : List Mark} (nonempty : ms ≠ []) (sound : AreSound ms)
      (blanks : ∀ c ∈ ms.map Mark.sign, Text.isBlank c → c = ' ')
      (plain : HasWordUnderscore (ms.map Mark.sign) → signed)
      (keeps : signed → KeepsReferences (ms.map Mark.sign)) : IsSound signed (text ms)
  | solid {s : Chars} {p : Piece} {t : Token} (part : ∀ inLink, p.part inLink = .token t) :
      IsSound signed (solid s p t)

variable {signed : Bool}

/-- What an ink shows to a run of signs after it. -/
def Ink.last : Ink → Char
  | text ms => (ms.map Mark.sign).getLastD '\n'
  | solid _ _ t => Emphasis.edgeOfToken t

/-- What inks show to a run of signs before them. -/
def Ink.first : Ink → Char
  | text ms => (ms.map Mark.sign).headD '\n'
  | solid _ _ t => Emphasis.edgeOfToken t

namespace Emphasis

variable {limit : Nat} {before : Char} {tail : List Stretch} {m : Matching}

theorem endOf_stretches {ms : List Mark} (nonempty : ms ≠ []) (before : Char) :
    endOf before ((stretches ms).map Group.stretch) = (ms.map Mark.sign).getLastD '\n' := by
  have hsigns := signsOf_stretches ms
  have hsome := (areStretches_stretches ms).some
  obtain hnil | ⟨gs, g, hgs⟩ := (stretches ms).eq_nil_or_concat'
  · rw [hnil] at hsigns
    exact absurd (List.map_eq_nil_iff.mp hsigns.symm) nonempty
  · rw [hgs] at hsigns hsome ⊢
    rw [← hsigns, signsOf, List.flatMap_append, List.flatMap_singleton, endOf,
      List.map_append, List.map_singleton, List.getLast?_concat, Option.map_some,
      lastOf_stretch, List.getLastD_eq_getLast?, List.getLastD_eq_getLast?,
      List.getLast?_append_of_ne_nil _ (hsome g (by simp))]
    rfl

/-- An ink neither opens nor closes emphasis. -/
theorem fold_ink (h : i.IsSound signed) (before : Char) (tail : List Stretch) (m : Matching) :
    (elementsFrom before (i.strokes.map Stroke.stretch ++ tail)).foldl (add limit) m =
      (elementsFrom i.last tail).foldl (add limit) (m.pushAll i.tokens) := by
  cases h with
  | @text ms nonempty sound blanks _ _ =>
    have hstretches : (Ink.text ms).strokes.map Stroke.stretch =
        (stretches ms).map Group.stretch := by
      rw [Ink.strokes, List.map_map]
      rfl
    have htokens : (Ink.text ms).tokens = (stretches ms).map groupToken := by
      rw [Ink.tokens, Ink.strokes, List.map_map]
      rfl
    rw [hstretches, htokens, @fold_stretches (stretches ms) ms [] limit (sound.isWordly blanks)
      (marks_stretches ms).symm (areStretches_stretches ms) before (by simp),
      endOf_stretches nonempty]
    rfl
  | solid part => rfl

end Emphasis

/-- Texts that do not go on with one another where they meet. -/
def Ink.Apart : Ink → Ink → Prop
  | text ms, text ns => ∀ m ∈ ms.getLast?, ∀ n ∈ ns.head?, Mark.alike m n = false
  | _, _ => True

/-- A text that is not empty, or a piece with its token. -/
def Ink.IsFilled : Ink → Prop
  | text ms => ms ≠ []
  | solid _ p t => ∀ inLink, p.part inLink = .token t

theorem stretches_ne_nil {ms : List Mark} (nonempty : ms ≠ []) : stretches ms ≠ [] := by
  intro hnil
  have hmarks := marks_stretches ms
  rw [hnil] at hmarks
  exact nonempty hmarks.symm

theorem strokes_ne_nil (h : i.IsFilled) : i.strokes ≠ [] := by
  cases i with
  | text ms => simpa [Ink.strokes] using stretches_ne_nil h
  | solid s p t => exact List.cons_ne_nil _ _

/-- The last mark of the last stretch. -/
theorem getLast?_stretches {ms : List Mark} {g : Group} (hg : g ∈ (stretches ms).getLast?) :
    ∃ m ∈ ms.getLast?, m.escaped = g.escaped ∧ g.signs.getLast? = some m.sign := by
  obtain ⟨gs, hgs⟩ := List.getLast?_eq_some_iff.mp hg
  have hmarks := marks_stretches ms
  have hsome := (areStretches_stretches ms).some g (List.mem_of_getLast? hg)
  obtain ⟨signs, c, hsigns⟩ := (List.eq_nil_or_concat' g.signs).resolve_left hsome
  refine ⟨⟨c, g.escaped⟩, ?_, rfl, by rw [hsigns, List.getLast?_concat]⟩
  rw [← hmarks, hgs, List.flatMap_append, List.flatMap_singleton, Group.marks, hsigns,
    List.map_append, List.map_singleton, ← List.append_assoc]
  exact List.getLast?_concat

/-- The first mark of the first stretch. -/
theorem head?_stretches {ms : List Mark} {g : Group} (hg : g ∈ (stretches ms).head?) :
    ∃ m ∈ ms.head?, m.escaped = g.escaped ∧ g.signs.head? = some m.sign := by
  obtain ⟨gs, hgs⟩ := List.head?_eq_some_iff.mp hg
  have hmarks := marks_stretches ms
  have hsome := (areStretches_stretches ms).some g (List.mem_of_head? hg)
  obtain ⟨c, signs, hsigns⟩ := List.exists_cons_of_ne_nil hsome
  refine ⟨⟨c, g.escaped⟩, ?_, rfl, by rw [hsigns]; rfl⟩
  rw [← hmarks, hgs, List.flatMap_cons, Group.marks, hsigns]
  rfl

theorem parted_of_apart {j : Ink} (h : i.Apart j) {k l : Stroke} (hk : k ∈ i.strokes.getLast?)
    (hl : l ∈ j.strokes.head?) : k.Parted l := by
  cases i with
  | solid s p t =>
    obtain rfl := Option.some.inj hk
    trivial
  | text ms =>
    cases j with
    | solid s p t =>
      obtain rfl := Option.some.inj hl
      rw [Ink.strokes, List.getLast?_map] at hk
      obtain ⟨g, -, rfl⟩ := Option.map_eq_some_iff.mp hk
      trivial
    | text ns =>
      rw [Ink.strokes, List.getLast?_map] at hk
      rw [Ink.strokes, List.head?_map] at hl
      obtain ⟨g, hg, rfl⟩ := Option.map_eq_some_iff.mp hk
      obtain ⟨g', hg', rfl⟩ := Option.map_eq_some_iff.mp hl
      obtain ⟨m, hm, hescaped, hsign⟩ := getLast?_stretches hg
      obtain ⟨n, hn, hescaped', hsign'⟩ := head?_stretches hg'
      have halike := h m hm n hn
      intro hsame
      rw [Mark.alike, hescaped, hescaped', hsame, beq_self_eq_true, Bool.true_and,
        Bool.or_eq_false_iff] at halike
      refine ⟨hsame.trans halike.1, fun c hc d hd => ?_⟩
      rw [hsign] at hc
      rw [hsign'] at hd
      obtain rfl := Option.some.inj hc
      obtain rfl := Option.some.inj hd
      exact halike.2

theorem areStrokes_inks (h : ∀ i ∈ is, i.IsFilled) (chain : is.IsChain Ink.Apart) :
    AreStrokes (is.flatMap Ink.strokes) where
  sound := by
    intro k hk
    obtain ⟨i, hi, hk⟩ := List.mem_flatMap.mp hk
    have hfilled := h i hi
    cases i with
    | text ms => exact (areStretches_stretches ms).areStrokes.sound k hk
    | solid s p t =>
      obtain rfl := List.mem_singleton.mp hk
      exact .solid hfilled
  parted := by
    have hsome : [] ∉ is.map Ink.strokes := by
      intro hnil
      obtain ⟨i, hi, heq⟩ := List.mem_map.mp hnil
      exact strokes_ne_nil (h i hi) heq
    rw [List.flatMap_def, List.isChain_flatten hsome, List.isChain_map]
    refine ⟨List.forall_mem_map.mpr fun i _ => ?_, chain.imp fun i j hij k hk l hl =>
      parted_of_apart hij hk hl⟩
    cases i with
    | text ms =>
      have hstrokes : AreStrokes ((stretches ms).map .run) := (areStretches_stretches ms).areStrokes
      exact hstrokes.parted
    | solid s p t => exact .singleton _

end Canonmark.Markdown
