import Canonmark.Proofs.Markdown.Inks

/-! How inline content is read: inks in a row, and emphasis around some of them. -/
namespace Canonmark.Markdown

variable {signed : Bool} {i : Ink} {is js : List Ink}

namespace Emphasis

variable {limit : Nat} {before : Char} {tail : List Stretch} {m : Matching}

theorem tokens_pushAll (ts : List Token) : (({} : Matching).pushAll ts).tokens = ts := by
  have hbase : ({} : Matching).pushAll ts = { base := ts.reverse } := by
    induction ts using List.reverseRecOn with
    | nil => rfl
    | append_singleton ts t ih =>
      rw [Matching.pushAll_append, ih, List.reverse_append]
      rfl
  rw [hbase]
  simp [Matching.tokens]

/-- A run of asterisks between two characters that only opens. -/
structure Opens (before after : Char) : Prop where
  left : flanksLeft before after
  right : flanksRight before after = false

/-- A run of asterisks between two characters that only closes. -/
structure Closes (before after : Char) : Prop where
  left : flanksLeft before after = false
  right : flanksRight before after

theorem run_of_opens {after : Char} (h : Opens before after) (n : Nat) :
    Run.of '*' n before after = ⟨'*', n, true, false⟩ := by
  simp [Run.of, h.left, h.right]

theorem run_of_closes {after : Char} (h : Closes before after) (n : Nat) :
    Run.of '*' n before after = ⟨'*', n, false, true⟩ := by
  simp [Run.of, h.left, h.right]

/-- How many asterisks stand around emphasis. -/
def size (strong : Bool) : Nat := if strong then 2 else 1

def wrapper (strong : Bool) : Wrapper := if strong then .strong else .emph

/-- The frame that content is added to. -/
theorem pushAll_frame (f : Frame) (fs : List Frame) (base : List Token) (ts : List Token) :
    (Matching.mk (f :: fs) base).pushAll ts =
      ⟨{ f with content := ts.reverse ++ f.content, depth := max (Token.depthOf ts) f.depth } ::
        fs, base⟩ := by
  induction ts generalizing f with
  | nil => simp [Matching.pushAll, Token.depthOf]
  | cons t ts ih =>
    have hpush : (Matching.mk (f :: fs) base).push t =
        ⟨{ f with content := t :: f.content, depth := max t.depth f.depth } :: fs, base⟩ := rfl
    have hall : (Matching.mk (f :: fs) base).pushAll (t :: ts) =
        ((Matching.mk (f :: fs) base).push t).pushAll ts :=
      rfl
    have hdepth : max (Token.depthOf (t :: ts)) f.depth =
        max (Token.depthOf ts) (max t.depth f.depth) := by
      rw [Token.depthOf]
      omega
    rw [hall, hpush, ih, hdepth]
    simp

/-- An open run is closed by one like it, and no sign of either is left. -/
theorem closeRun_frame (strong : Bool) (content : List Token) {depth : Nat}
    (shallow : depth < limit) (fs : List Frame) (base : List Token) :
    closeRun limit ⟨'*', size strong, false, true⟩ (size strong) (size strong)
        ⟨⟨⟨'*', size strong, true, false⟩, size strong, content, depth⟩ :: fs, base⟩ =
      (((Matching.mk fs base).push (textToken [])).push (.wrapper (wrapper strong) content.reverse),
        0) := by
  have hfind : Frame.find? ⟨'*', size strong, false, true⟩
      (⟨⟨'*', size strong, true, false⟩, size strong, content, depth⟩ :: fs) =
        some (⟨⟨'*', size strong, true, false⟩, size strong, content, depth⟩, fs) := by
    rw [Frame.find?, if_pos]
    simp [Frame.closedBy]
  have hroom : ¬limit ≤ depth := Nat.not_le.mpr shallow
  cases strong with
  | false =>
    rw [show size false = 1 from rfl] at *
    rw [closeRun, hfind]
    simp [hroom, closeRun, wrap, wrapper]
  | true =>
    rw [show size true = 2 from rfl] at *
    rw [closeRun, hfind]
    simp [hroom, closeRun, wrap, wrapper]

/-- A run that closes the frame before it makes emphasis of what is in between. -/
theorem close_frame (strong : Bool) {ts : List Token} (shallow : Token.depthOf ts < limit)
    (m : Matching) :
    add limit ((add limit m (.run ⟨'*', size strong, true, false⟩)).pushAll ts)
      (.run ⟨'*', size strong, false, true⟩) =
        m.pushAll [textToken [], .wrapper (wrapper strong) ts, textToken []] := by
  have hopen : add limit m (.run ⟨'*', size strong, true, false⟩) =
      ⟨{ run := ⟨'*', size strong, true, false⟩, left := size strong } :: m.frames, m.base⟩ := by
    cases strong <;> rfl
  have hshallow : max (Token.depthOf ts) 0 < limit := by omega
  have hclose := closeRun_frame strong ts.reverse hshallow m.frames m.base
  rw [hopen, pushAll_frame, List.append_nil, add, addRun, if_pos rfl]
  dsimp only
  rw [hclose, List.reverse_reverse]
  rfl

end Emphasis

/-- An ink, or emphasis of phrases. -/
inductive Phrase where
  | ink (i : Ink)
  | emphasis (strong : Bool) (content : List Phrase)

open Emphasis (size wrapper textToken Opens Closes)

/-- The asterisks around emphasis. -/
def delimiter (strong : Bool) : Ink := .text (List.replicate (size strong) ⟨'*', false⟩)

namespace Phrase

mutual

def inks : Phrase → List Ink
  | ink i => [i]
  | emphasis strong content => delimiter strong :: (allInks content ++ [delimiter strong])

def allInks : List Phrase → List Ink
  | [] => []
  | x :: xs => inks x ++ allInks xs

end

mutual

/-- The tokens of a phrase, unless texts are joined. -/
def tokens : Phrase → List Token
  | ink i => i.tokens
  | emphasis strong content =>
    [textToken [], .wrapper (wrapper strong) (allTokens content), textToken []]

def allTokens : List Phrase → List Token
  | [] => []
  | x :: xs => tokens x ++ allTokens xs

end

def first : Phrase → Char
  | ink i => i.first
  | emphasis .. => '*'

def last : Phrase → Char
  | ink i => i.last
  | emphasis .. => '*'

/-- Where emphasis can stand: its delimiters only open and only close. -/
def Stands (before after : Char) : Phrase → Prop
  | ink _ => True
  | emphasis _ content =>
    (∀ x ∈ content.head?, Opens before x.first) ∧ ∀ x ∈ content.getLast?, Closes x.last after

/-- What phrases show to what stands before them, given what stands after them. -/
def shown (after : Char) : List Phrase → Char
  | [] => after
  | x :: _ => x.first

/-- Phrases that can stand between two characters. -/
def AllStand (after : Char) : (before : Char) → List Phrase → Prop
  | _, [] => True
  | before, x :: xs => x.Stands before (shown after xs) ∧ AllStand after x.last xs

/-- What a phrase is worth by itself. Emphasis has signs around it, and its content is not too
deep. -/
inductive IsSound (signed : Bool) (limit : Nat) : Phrase → Prop
  | ink {i : Ink} (sound : i.IsSound signed) : IsSound signed limit (ink i)
  | emphasis {strong : Bool} {content : List Phrase} (around : signed)
      (nonempty : content ≠ []) (below : ∀ x ∈ content, IsSound signed limit x)
      (stand : AllStand '*' '*' content) (shallow : Token.depthOf (allTokens content) < limit) :
      IsSound signed limit (emphasis strong content)

end Phrase

open Phrase (allInks allTokens AllStand shown)

variable {x : Phrase} {xs : List Phrase} {limit : Nat}

theorem allInks_eq (xs : List Phrase) : allInks xs = xs.flatMap Phrase.inks := by
  induction xs with
  | nil => rfl
  | cons x xs ih => rw [allInks, ih, List.flatMap_cons]

/-- The stretches of inks. -/
def inkStretches (is : List Ink) : List Emphasis.Stretch :=
  (is.flatMap Ink.strokes).map Stroke.stretch

theorem inkStretches_append (is js : List Ink) :
    inkStretches (is ++ js) = inkStretches is ++ inkStretches js := by
  rw [inkStretches, List.flatMap_append, List.map_append]
  rfl

namespace Emphasis

theorem inkStretches_delimiter (strong : Bool) :
    inkStretches [delimiter strong] = [.loose (List.replicate (size strong) '*')] := by
  cases strong <;> rfl

theorem inkStretches_emphasis (strong : Bool) (content : List Phrase) (tail : List Stretch) :
    inkStretches (Phrase.emphasis strong content).inks ++ tail =
    .loose (List.replicate (size strong) '*') ::
      (inkStretches (allInks content) ++ .loose (List.replicate (size strong) '*') :: tail) := by
  have hsplit : (Phrase.emphasis strong content).inks = [delimiter strong] ++
      (allInks content ++ [delimiter strong]) := by
    rw [Phrase.inks]
    rfl
  rw [hsplit, inkStretches_append, inkStretches_append, inkStretches_delimiter]
  simp

theorem firstOf_ink (h : i.IsSound signed) (tail : List Stretch) :
    firstOf (inkStretches [i] ++ tail) = i.first := by
  cases h with
  | @text ms nonempty _ _ _ _ =>
    obtain ⟨m, ms, rfl⟩ := List.exists_cons_of_ne_nil nonempty
    have hstretches : inkStretches [Ink.text (m :: ms)] =
        (stretches (m :: ms)).map Group.stretch := by
      rw [inkStretches, List.flatMap_singleton, Ink.strokes, List.map_map]
      rfl
    rw [hstretches, firstOf_stretches (areStretches_stretches _).some (marks_stretches _)]
    rfl
  | solid part => rfl

/-- A phrase that is read as its tokens where it can stand. -/
structure Folds (limit : Nat) (x : Phrase) : Prop where
  first : ∀ tail, firstOf (inkStretches x.inks ++ tail) = x.first
  fold : ∀ {before : Char} {tail : List Stretch}, x.Stands before (firstOf tail) → ∀ m,
    (elementsFrom before (inkStretches x.inks ++ tail)).foldl (add limit) m =
      (elementsFrom x.last tail).foldl (add limit) (m.pushAll x.tokens)

theorem firstOf_row (h : ∀ x ∈ xs, Folds limit x) (tail : List Stretch) :
    firstOf (inkStretches (allInks xs) ++ tail) = shown (firstOf tail) xs := by
  obtain _ | ⟨x, xs⟩ := xs
  · rfl
  · rw [allInks, inkStretches_append, List.append_assoc, (h x (by simp)).first]
    rfl

theorem fold_row (h : ∀ x ∈ xs, Folds limit x) {before : Char} {tail : List Stretch}
    (stand : AllStand (firstOf tail) before xs) (m : Matching) :
    (elementsFrom before (inkStretches (allInks xs) ++ tail)).foldl (add limit) m =
      (elementsFrom ((xs.getLast?.map Phrase.last).getD before) tail).foldl (add limit)
      (m.pushAll (allTokens xs)) := by
  induction xs generalizing before m with
  | nil => rfl
  | cons x xs ih =>
    obtain ⟨hx, hxs⟩ := List.forall_mem_cons.mp h
    have hend : ((x :: xs).getLast?.map Phrase.last).getD before =
        (xs.getLast?.map Phrase.last).getD x.last := by
      rw [List.getLast?_cons]
      cases xs.getLast? <;> rfl
    rw [hend, allInks, inkStretches_append, List.append_assoc,
      hx.fold (firstOf_row hxs tail ▸ stand.1), ih hxs stand.2, allTokens, Matching.pushAll_append]

theorem folds_of_isSound (h : x.IsSound signed limit) : Folds limit x := by
  induction h with
  | @ink i sound =>
    refine ⟨firstOf_ink sound, fun _ m => ?_⟩
    rw [Phrase.inks, inkStretches, List.flatMap_singleton]
    exact fold_ink sound _ _ m
  | @emphasis strong content _ nonempty _ stand shallow ih =>
    have hstar : ∀ before after,
        elementOf before after (.loose (List.replicate (size strong) '*')) =
        .run (Run.of '*' (size strong) before after) := by
      intro before after
      cases strong <;> rfl
    have hlast : lastOf (.loose (List.replicate (size strong) '*')) = '*' := by cases strong <;> rfl
    have hfirst : ∀ tail, firstOf (.loose (List.replicate (size strong) '*') :: tail) = '*' := by
      intro tail
      cases strong <;> rfl
    refine ⟨fun tail => by rw [inkStretches_emphasis, hfirst]; rfl,
      fun {before tail} stands m => ?_⟩
    obtain ⟨hopens, hcloses⟩ := stands
    obtain ⟨x, hx⟩ : ∃ x, x ∈ content.head? := ⟨_, List.head?_eq_some_head nonempty⟩
    obtain ⟨y, hy⟩ : ∃ y, y ∈ content.getLast? := ⟨_, List.getLast?_eq_some_getLast nonempty⟩
    have hcontent : shown '*' content = x.first := by
      obtain ⟨others, rfl⟩ := List.head?_eq_some_iff.mp hx
      rfl
    rw [inkStretches_emphasis, elementsFrom, List.foldl_cons, hstar, firstOf_row ih,
      hfirst, hcontent, run_of_opens (hopens x hx), hlast, fold_row ih (by rwa [hfirst]),
      Option.mem_def.mp hy, Option.map_some, Option.getD_some, elementsFrom, List.foldl_cons, hstar,
      run_of_closes (hcloses y hy), close_frame strong shallow, hlast, Phrase.tokens]
    rfl

end Emphasis

/-- Tokens that spell a phrase: texts that make up its text and that references leave as they are,
or the token of a solid piece or of emphasis. -/
inductive Phrase.Spells : Phrase → List Token → Prop
  | text {ms : List Mark} {us : List Chars} (flatten : us.flatten = ms.map Mark.sign)
      (decoded : ∀ u ∈ us, Text.decodeReferences u = u) : Spells (ink (.text ms)) (us.map textToken)
  | solid {s : Chars} {p : Piece} {t : Token} : Spells (ink (.solid s p t)) [t]
  | emphasis {strong : Bool} {content : List Phrase} :
      Spells (emphasis strong content) [.wrapper (wrapper strong) (allTokens content)]

/-- Texts that are not joined spell an ink. -/
theorem Ink.IsSound.spells (h : i.IsSound signed) : (Phrase.ink i).Spells i.tokens := by
  cases h with
  | @text ms _ sound _ _ _ =>
    have htokens : (Ink.text ms).tokens = ((stretches ms).map Group.signs).map textToken := by
      rw [Ink.tokens, Ink.strokes, List.map_map, List.map_map]
      rfl
    have hflatten : ((stretches ms).map Group.signs).flatten = ms.map Mark.sign := by
      rw [← signsOf_stretches]
      rfl
    rw [htokens]
    exact .text hflatten (List.forall_mem_map.mpr sound.decode_stretches)
  | solid part => exact .solid

/-- The token of a part is no text. -/
theorem ne_text_of_part {p : Piece} {t : Token} {inLink : Bool} (part : p.part inLink = .token t)
    (raw : String) : t ≠ .text raw := by
  rintro rfl
  cases p with
  | address s d => cases inLink <;> cases part
  | plain s | escaped s | sign x | verbatim v raw | reference r target content => cases part

/-- Texts that are joined spell an ink. -/
theorem Ink.IsSound.exists_spells (h : i.IsSound true) {ts : List Token}
    (parts : (∃ ms, i = .text ms) → PartsTexts ts) :
    ∃ us, (Phrase.ink i).Spells us ∧
      Emphasis.joinTexts [] (i.tokens ++ ts) = us ++ Emphasis.joinTexts [] ts := by
  cases h with
  | @text ms _ sound _ _ keeps =>
    have hsome := (areStretches_stretches ms).some
    obtain ⟨js, hflatten, hjoined, heq⟩ := exists_joined [] (stretches ms) (by simpa using hsome)
      (fun a g b h => by simp at h) (parts ⟨ms, rfl⟩)
    rw [List.nil_append] at hflatten
    have htokens : (Ink.text ms).tokens = (stretches ms).map Emphasis.groupToken := by
      rw [Ink.tokens, Ink.strokes, List.map_map]
      rfl
    have hspells : (Phrase.ink (.text ms)).Spells ((js.map signsOf).map textToken) := by
      refine .text ?_
        (List.forall_mem_map.mpr (sound.decode_joined_stretches (keeps rfl) hflatten hjoined))
      rw [← signsOf_stretches, ← hflatten, signsOf_flatten]
    refine ⟨_, hspells, ?_⟩
    rw [htokens, List.map_map]
    exact heq
  | @solid s p t part =>
    refine ⟨[t], .solid, ?_⟩
    exact joinTexts_solid (ne_text_of_part (part false)) ts

/-- Two texts that are not parted by anything. -/
def Phrase.BothTexts : Phrase → Phrase → Prop
  | ink (.text _), ink (.text _) => True
  | _, _ => False

/-- Nothing that is no text is joined to a text before it. -/
theorem partsTexts_tokens (h : ∀ x ∈ xs, x.IsSound signed limit)
    (head : ∀ ms, xs.head? ≠ some (.ink (.text ms))) : PartsTexts (allTokens xs) := by
  obtain _ | ⟨x, xs⟩ := xs
  · exact partsTexts_nil
  · rw [allTokens]
    have hx := h x (by simp)
    cases hx with
    | ink sound =>
      cases sound with
      | text _ _ _ _ _ => exact absurd rfl (head _)
      | solid part => exact partsTexts_solid (ne_text_of_part (part false)) _
    | emphasis _ _ _ _ _ => exact (partsTexts_solid (by simp) _).empty

/-- Phrases around which there are signs of emphasis are spelled by their tokens, once texts are
joined. -/
theorem exists_spelled (h : ∀ x ∈ xs, x.IsSound true limit)
    (chain : xs.IsChain fun x y => ¬Phrase.BothTexts x y) :
    ∃ tss,
      List.Forall₂ Phrase.Spells xs tss ∧ Emphasis.joinTexts [] (allTokens xs) = tss.flatten := by
  induction xs with
  | nil => exact ⟨[], .nil, rfl⟩
  | cons x xs ih =>
    obtain ⟨hx, hxs⟩ := List.forall_mem_cons.mp h
    obtain ⟨tss, hspells, hjoin⟩ := ih hxs chain.tail
    rw [allTokens]
    cases hx with
    | @ink i sound =>
      have hparts : (∃ ms, i = .text ms) → PartsTexts (allTokens xs) := by
        rintro ⟨ms, rfl⟩
        refine partsTexts_tokens hxs fun ks hks => ?_
        obtain ⟨ys, rfl⟩ := List.head?_eq_some_iff.mp hks
        exact chain.rel trivial
      obtain ⟨us, hus, heq⟩ := sound.exists_spells hparts
      exact ⟨us :: tss, .cons hus hspells, by rw [Phrase.tokens, heq, hjoin, List.flatten_cons]⟩
    | @emphasis strong content _ _ _ _ _ =>
      refine ⟨_ :: tss, .cons .emphasis hspells, ?_⟩
      rw [Phrase.tokens, List.cons_append, joinTexts_empty, List.cons_append,
        joinTexts_solid (by simp), List.cons_append, joinTexts_empty, List.nil_append, hjoin]
      rfl

/-- Emphasis in emphasis stands between texts. -/
structure Phrase.Sets (x y : Phrase) : Prop where
  before : ∀ strong content, y = emphasis strong content → ∃ ms, x = ink (.text ms)
  after : ∀ strong content, x = emphasis strong content → ∃ ms, y = ink (.text ms)

/-- No row of phrases begins with emphasis, unless an empty text is left before it. -/
def Phrase.leading : List Phrase → List Token
  | emphasis .. :: _ => [textToken []]
  | _ => []

/-- A text is spelled with an empty text before it as well. -/
theorem Phrase.Spells.empty {ms : List Mark} {ts : List Token} (h : (ink (.text ms)).Spells ts) :
    (ink (.text ms)).Spells (textToken [] :: ts) ∧
    (ink (.text ms)).Spells (ts ++ [textToken []]) := by
  cases h with
  | @text _ us flatten decoded =>
    have hempty : Text.decodeReferences [] = [] := rfl
    constructor
    · have hspells : (ink (.text ms)).Spells (([] :: us).map textToken) :=
        .text flatten (List.forall_mem_cons.mpr ⟨hempty, decoded⟩)
      exact hspells
    · have hlast := List.forall_mem_append.mpr ⟨decoded, List.forall_mem_singleton.mpr hempty⟩
      have hspells : (ink (.text ms)).Spells ((us ++ [[]]).map textToken) :=
        .text (by simpa using flatten) hlast
      rwa [List.map_append] at hspells

/-- The tokens of emphasis spell its content: the empty texts around inner emphasis belong to the
texts beside it. -/
theorem exists_spelled_content (h : ∀ x ∈ xs, x.IsSound signed limit)
    (chain : xs.IsChain Phrase.Sets)
    (last : ∀ strong content, xs.getLast? ≠ some (.emphasis strong content)) :
    ∃ tss, List.Forall₂ Phrase.Spells xs tss ∧ allTokens xs = Phrase.leading xs ++ tss.flatten := by
  induction xs with
  | nil => exact ⟨[], .nil, rfl⟩
  | cons x xs ih =>
    obtain ⟨hx, hxs⟩ := List.forall_mem_cons.mp h
    obtain rfl | hsome := eq_or_ne xs []
    · cases hx with
      | @ink i sound =>
        exact ⟨[i.tokens], .cons sound.spells .nil,
          by simp [allTokens, Phrase.tokens, Phrase.leading]⟩
      | emphasis _ _ _ _ _ => exact absurd rfl (last _ _)
    rw [List.getLast?_cons_of_ne_nil hsome] at last
    obtain ⟨tss, hspells, htokens⟩ := ih hxs chain.tail last
    obtain ⟨y, ys, rfl⟩ := List.exists_cons_of_ne_nil hsome
    have hsets : Phrase.Sets x y := chain.rel
    rw [allTokens, htokens]
    cases hx with
    | @ink i sound =>
      by_cases hleading : Phrase.leading (y :: ys) = []
      · refine ⟨i.tokens :: tss, .cons sound.spells hspells, ?_⟩
        rw [hleading]
        rfl
      · obtain ⟨strong, content, rfl⟩ : ∃ strong content, y = .emphasis strong content := by
          cases y with
          | ink j => exact absurd rfl hleading
          | emphasis strong content => exact ⟨strong, content, rfl⟩
        obtain ⟨ms, hms⟩ := hsets.before _ _ rfl
        obtain rfl := Phrase.ink.inj hms
        refine ⟨(Ink.tokens (.text ms) ++ [textToken []]) :: tss,
          .cons sound.spells.empty.2 hspells, ?_⟩
        simp [Phrase.leading, Phrase.tokens]
    | @emphasis strong content _ _ _ _ _ =>
      obtain ⟨ms, rfl⟩ := hsets.after _ _ rfl
      cases hspells with
      | @cons _ ts _ tss hts hspells =>
        refine ⟨_ :: (textToken [] :: ts) :: tss, .cons .emphasis (.cons hts.empty.1 hspells), ?_⟩
        simp [Phrase.leading, Phrase.tokens]

/-- Parts hold signs of emphasis just if one of their stretches is made of them. -/
theorem any_holdsSigns_iff {ps : List Part} :
    ps.any Emphasis.holdsSigns ↔
      ∃ s, .loose s ∈ ps.flatMap Emphasis.stretchesOf ∧ s.any Emphasis.isSign := by
  simp only [List.any_eq_true, List.mem_flatMap]
  constructor
  · rintro ⟨p, hp, hsigns⟩
    cases p with
    | escaped s | token t => cases hsigns
    | plain s =>
      obtain ⟨c, hc, hsign⟩ := List.any_eq_true.mp hsigns
      rw [← List.flatten_splitBy Emphasis.sameStretch s] at hc
      obtain ⟨t, ht, hc⟩ := List.mem_flatten.mp hc
      exact ⟨t, ⟨_, hp, List.mem_map_of_mem ht⟩, c, hc, hsign⟩
  · rintro ⟨s, ⟨p, hp, hs⟩, c, hc, hsign⟩
    refine ⟨p, hp, ?_⟩
    cases p with
    | escaped t => cases List.mem_singleton.mp hs
    | token t => cases List.mem_singleton.mp hs
    | plain t =>
      obtain ⟨u, hu, heq⟩ := List.mem_map.mp hs
      obtain rfl := Emphasis.Stretch.loose.inj heq
      refine List.any_eq_true.mpr ⟨c, ?_, hsign⟩
      rw [← List.flatten_splitBy Emphasis.sameStretch t]
      exact List.mem_flatten.mpr ⟨u, hu, hc⟩

/-- A stretch of signs of emphasis in the ink of a text is within a word. -/
theorem Ink.IsSound.signed_of_loose (h : i.IsSound signed) {s : Chars}
    (hs : .loose s ∈ i.strokes.map Stroke.stretch) (signs : s.any Emphasis.isSign) : signed := by
  cases h with
  | @text ms _ sound _ plain _ =>
    obtain ⟨k, hk, hstretch⟩ := List.mem_map.mp hs
    obtain ⟨g, hg, rfl⟩ := List.mem_map.mp hk
    obtain ⟨c, hc, hsign⟩ := List.any_eq_true.mp signs
    obtain ⟨_ | _, t⟩ := g
    · obtain rfl := Emphasis.Stretch.loose.inj hstretch
      exact plain (sound.hasWordUnderscore_of_stretch hg rfl hc hsign)
    · cases hstretch
  | solid part => cases List.mem_singleton.mp hs

theorem Phrase.IsSound.signed_of_loose (h : x.IsSound signed limit) {s : Chars}
    (hs : .loose s ∈ inkStretches x.inks) (signs : s.any Emphasis.isSign) : signed := by
  cases h with
  | ink sound =>
    rw [inkStretches, Phrase.inks, List.flatMap_singleton] at hs
    exact sound.signed_of_loose hs signs
  | emphasis around _ _ _ _ => exact around

theorem mem_inkStretches_allInks {s : Emphasis.Stretch} :
    s ∈ inkStretches (allInks xs) ↔ ∃ x ∈ xs, s ∈ inkStretches x.inks := by
  simp [inkStretches, allInks_eq, List.flatMap_assoc, List.map_flatMap]

/-- Without emphasis, the tokens of phrases are those of their inks. -/
theorem spells_inks (h : ∀ x ∈ xs, x.IsSound signed limit)
    (plain : ∀ strong content, .emphasis strong content ∉ xs) :
    List.Forall₂ Phrase.Spells xs (xs.map Phrase.tokens) ∧
      (allInks xs).flatMap Ink.tokens = (xs.map Phrase.tokens).flatten := by
  have hall : ∀ x ∈ xs, x.Spells x.tokens ∧ x.inks.flatMap Ink.tokens = x.tokens := by
    intro x hx
    cases h x hx with
    | @ink i sound => exact ⟨sound.spells, by rw [Phrase.inks, List.flatMap_singleton]; rfl⟩
    | emphasis _ _ _ _ _ => exact absurd hx (plain _ _)
  constructor
  · rw [List.forall₂_map_right_iff, List.forall₂_same]
    exact fun x hx => (hall x hx).1
  · rw [allInks_eq, List.flatMap_assoc, ← List.flatMap_def]
    exact List.flatMap_congr fun x hx => (hall x hx).2

/-- Phrases in a row are read as tokens that spell them, in a link or not. -/
theorem exists_tokens (sound : ∀ x ∈ xs, x.IsSound signed limit)
    (chain : xs.IsChain fun x y => ¬Phrase.BothTexts x y) (stand : AllStand '\n' '\n' xs)
    (strokes : AreStrokes ((allInks xs).flatMap Ink.strokes)) :
    ∃ tss, List.Forall₂ Phrase.Spells xs tss ∧ ∀ inLink, Emphasis.tokensOf limit
      (Piece.partsOf inLink (pushed ((allInks xs).flatMap Ink.strokes)).reverse) = tss.flatten := by
  have hstretches :
      ∀ inLink, (Piece.partsOf inLink (pushed ((allInks xs).flatMap Ink.strokes)).reverse).flatMap
      Emphasis.stretchesOf = inkStretches (allInks xs) :=
    fun inLink => (strokes.partsOf_pushed inLink).1
  have hany :
      ∀ inLink, (Piece.partsOf inLink (pushed ((allInks xs).flatMap Ink.strokes)).reverse).any
      Emphasis.holdsSigns ↔ ∃ x ∈ xs, ∃ s, .loose s ∈ inkStretches x.inks ∧
      s.any Emphasis.isSign := by
    intro inLink
    rw [any_holdsSigns_iff, hstretches]
    simp only [mem_inkStretches_allInks]
    grind
  by_cases hsigns : ∃ x ∈ xs, ∃ s, .loose s ∈ inkStretches x.inks ∧ s.any Emphasis.isSign
  · obtain ⟨x, hx, s, hs, signs⟩ := id hsigns
    obtain rfl := (sound x hx).signed_of_loose hs signs
    obtain ⟨tss, hspells, hjoin⟩ := exists_spelled sound chain
    refine ⟨tss, hspells, fun inLink => ?_⟩
    have hfold := @Emphasis.fold_row xs limit (fun x hx => Emphasis.folds_of_isSound (sound x hx))
      '\n' [] stand {}
    rw [List.append_nil, Emphasis.elementsFrom, List.foldl_nil] at hfold
    rw [Emphasis.tokensOf, (hany inLink).mpr hsigns, if_pos rfl, Emphasis.elements, hstretches,
      hfold, Emphasis.tokens_pushAll, hjoin]
  · have hemphasis : ∀ strong content, .emphasis strong content ∉ xs := by
      intro strong content hx
      refine hsigns ⟨_, hx, List.replicate (size strong) '*', ?_, by cases strong <;> rfl⟩
      have hsplit := Emphasis.inkStretches_emphasis strong content []
      rw [List.append_nil] at hsplit
      rw [hsplit]
      exact List.mem_cons_self
    obtain ⟨hspells, hinks⟩ := spells_inks sound hemphasis
    refine ⟨_, hspells, fun inLink => ?_⟩
    have hplain := Bool.eq_false_iff.mpr (mt (hany inLink).mp hsigns)
    have htokens := (strokes.partsOf_pushed inLink).2 hplain
    rw [List.map_flatMap] at htokens
    rw [Emphasis.tokensOf, hplain, if_neg Bool.false_ne_true, htokens]
    exact hinks

/-- What is written for sound marks is read as texts that make up their signs. -/
theorem AreSound.exists_texts {ms : List Mark}
    (sound : AreSound ms) (line : IsTextLine (ms.map Mark.sign))
    (keeps : HasWordUnderscore (ms.map Mark.sign) → KeepsReferences (ms.map Mark.sign)) :
    ∃ ts : List Chars, ts.flatten = ms.map Mark.sign ∧ (∀ t ∈ ts, Text.decodeReferences t = t) ∧
      ∀ ds, Inline.tokens ds (ms.flatMap Mark.text) = ts.map Emphasis.textToken := by
  obtain ⟨signed, hplain, hkeeps⟩ :
      ∃ signed : Bool, (HasWordUnderscore (ms.map Mark.sign) → signed) ∧
      (signed → KeepsReferences (ms.map Mark.sign)) := by
    by_cases h : HasWordUnderscore (ms.map Mark.sign)
    · exact ⟨true, fun _ => rfl, fun _ => keeps h⟩
    · exact ⟨false, fun h' => absurd h' h, nofun⟩
  have hsome : ms ≠ [] := by
    rintro rfl
    obtain ⟨⟨c, hc, -⟩, -⟩ := line.bounded
    cases hc
  have hsound : ∀ x ∈ [Phrase.ink (.text ms)], x.IsSound signed maxDepth := by
    simpa using Phrase.IsSound.ink (.text hsome sound line.blanks hplain hkeeps)
  have hreads : Ink.AreReadBefore false [] (allInks [Phrase.ink (.text ms)]) := by
    have hlets : ∀ m : Mark, Inline.LetsBe m ([] ++ []) :=
      fun m => ⟨by simp, by simp [Inline.EndsLine]⟩
    exact ⟨.text (sound.isReadable line.blanks) fun m _ => hlets m, trivial⟩
  have hfilled : ∀ i ∈ [Ink.text ms], i.IsFilled := List.forall_mem_singleton.mpr hsome
  have hstrokes : AreStrokes ((allInks [Phrase.ink (.text ms)]).flatMap Ink.strokes) :=
    areStrokes_inks hfilled (.singleton _)
  obtain ⟨tss, hspells, htokens⟩ := exists_tokens hsound (.singleton _) ⟨trivial, trivial⟩ hstrokes
  cases hspells with
  | cons hx hnil =>
    cases hnil
    cases hx with
    | @text _ us flatten decoded =>
      refine ⟨us, flatten, decoded, fun ds => ?_⟩
      have hread := tokens_inks hreads ds
      rw [htokens] at hread
      simpa [allInks, Phrase.inks, Ink.written] using hread

end Canonmark.Markdown
