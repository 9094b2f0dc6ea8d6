import Canonmark.Proofs.Markdown.Groups

/-! Text in which underscores stand within words only is read as texts, which make up what was
written. -/
namespace Canonmark.Markdown

/-- A letter or digit, which is no white space. -/
def IsLetter (c : Char) : Prop := Text.isAlphanumeric c ∧ Text.isBlank c = false

/-- Marks among which each sign of emphasis is an underscore within a word. -/
def IsWordly (ms : List Mark) : Prop :=
  ∀ pre m post, ms = pre ++ m :: post → m.escaped = false → Emphasis.isSign m.sign →
    m.sign = '_' ∧ (∃ p ∈ pre.getLast?, IsLetter p.sign) ∧ ∃ q ∈ post.head?, IsLetter q.sign

namespace Emphasis

theorem run_of_letters {a b : Char} (ha : IsLetter a) (hb : IsLetter b) (n : Nat) :
    Run.of '_' n a b = ⟨'_', n, false, false⟩ := by
  simp [Run.of, flanksLeft, flanksRight, isPunct, ha.1, ha.2, hb.1, hb.2]

/-- A stretch of signs of emphasis is one sign again and again. -/
theorem eq_replicate_of_alike {c : Char} {cs : Chars} (sign : isSign c)
    (alike : (c :: cs).IsChain fun c d => sameStretch c d) : cs = List.replicate cs.length c := by
  induction cs with
  | nil => rfl
  | cons d cs ih =>
    have hd : c = d := by
      have h := alike.rel
      rw [sameStretch, if_pos sign] at h
      exact beq_iff_eq.mp h
    subst hd
    rw [List.length_cons, List.replicate_succ, ← ih alike.tail]

/-- A stretch without signs of emphasis goes on without them. -/
theorem not_isSign_of_alike {c : Char} {cs : Chars} (sign : isSign c = false)
    (alike : (c :: cs).IsChain fun c d => sameStretch c d) : ∀ d ∈ cs, isSign d = false := by
  induction cs generalizing c with
  | nil => simp
  | cons d cs ih =>
    have hd : isSign d = false := by
      have h := alike.rel
      rw [sameStretch, sign] at h
      simpa using h
    exact List.forall_mem_cons.mpr ⟨hd, ih hd alike.tail⟩

variable {gs : List Group} {ms pre : List Mark} {limit : Nat}

/-- The text that a group is read as. -/
def groupToken (g : Group) : Token := textToken g.signs

/-- Adds tokens one after the other. -/
def Matching.pushAll (m : Matching) (ts : List Token) : Matching := ts.foldl push m

theorem Matching.pushAll_append (m : Matching) (ts us : List Token) :
    m.pushAll (ts ++ us) = (m.pushAll ts).pushAll us := List.foldl_append

theorem lastOf_stretch (g : Group) : lastOf g.stretch = g.signs.getLastD '\n' := by
  obtain ⟨_ | _, signs⟩ := g <;> rfl

theorem firstOf_stretches {q : Mark} {post : List Mark} (some : ∀ g ∈ gs, g.signs ≠ [])
    (h : gs.flatMap Group.marks = q :: post) (tail : List Stretch) :
    firstOf (gs.map Group.stretch ++ tail) = q.sign := by
  obtain _ | ⟨⟨escaped, signs⟩, gs⟩ := gs
  · cases h
  · obtain ⟨c, cs, rfl⟩ := List.exists_cons_of_ne_nil (some ⟨escaped, signs⟩ (by simp))
    obtain rfl := (List.cons.inj h).1
    cases escaped <;> rfl

/-- Underscores within words neither open nor close emphasis. -/
theorem add_stretch {g : Group} {rest : List Group} (word : IsWordly ms)
    (hms : ms = pre ++ g.marks ++ rest.flatMap Group.marks)
    (some : ∀ g ∈ rest, g.signs ≠ []) (hsome : g.signs ≠ [])
    (alike : g.escaped = false → g.signs.IsChain fun c d => sameStretch c d) {before : Char}
    (hbefore : ∀ p ∈ pre.getLast?, before = p.sign) (tail : List Stretch) (m : Matching) :
    add limit m (elementOf before (firstOf (rest.map Group.stretch ++ tail)) g.stretch) =
    m.push (groupToken g) := by
  obtain ⟨escaped, signs⟩ := g
  obtain ⟨c, cs, rfl⟩ := List.exists_cons_of_ne_nil hsome
  cases escaped with
  | true => rfl
  | false =>
    cases hsign : isSign c with
    | false =>
      rw [Group.stretch, if_neg (by simp), elementOf, hsign]
      rfl
    | true =>
      obtain ⟨n, rfl⟩ : ∃ n, cs = List.replicate n c := ⟨_, eq_replicate_of_alike hsign (alike rfl)⟩
      -- the first underscore follows a letter
      obtain ⟨rfl, ⟨p, hp, hletter⟩, _⟩ :=
        word pre ⟨c, false⟩ ((List.replicate n c).map (⟨·, false⟩) ++ rest.flatMap Group.marks)
          (by simp [hms, Group.marks]) rfl hsign
      -- and the last one stands before a letter
      have hlast : ms = (pre ++ List.replicate n ⟨'_', false⟩) ++ ⟨'_', false⟩ ::
          rest.flatMap Group.marks := by
        have hturn : ∀ m : Mark, m :: List.replicate n m = List.replicate n m ++ [m] := by
          intro m
          rw [← List.replicate_succ, List.replicate_succ']
        rw [hms, Group.marks, List.map_cons, List.map_replicate, hturn]
        simp
      obtain ⟨-, -, q, hq, hletter'⟩ := word _ _ _ hlast rfl hsign
      obtain ⟨post, hpost⟩ := List.head?_eq_some_iff.mp hq
      have hrun : Run.of '_' ((List.replicate n '_').length + 1) before
          (firstOf (rest.map Group.stretch ++ tail)) = ⟨'_', n + 1, false, false⟩ := by
        rw [List.length_replicate, hbefore p hp, firstOf_stretches some hpost]
        exact run_of_letters hletter hletter' _
      rw [Group.stretch, if_neg (by simp), elementOf, hsign, if_pos rfl, hrun]
      rfl

/-- What stretches show to what follows them. -/
def endOf (before : Char) (ss : List Stretch) : Char := (ss.getLast?.map lastOf).getD before

/-- Stretches of a text are read one after the other, as texts. -/
theorem fold_stretches (word : IsWordly ms)
    (hms : ms = pre ++ gs.flatMap Group.marks) (h : AreStretches gs) {before : Char}
    (hbefore : ∀ p ∈ pre.getLast?, before = p.sign) (tail : List Stretch) (m : Matching) :
    (elementsFrom before (gs.map Group.stretch ++ tail)).foldl (add limit) m =
      (elementsFrom (endOf before (gs.map Group.stretch)) tail).foldl (add limit)
      (m.pushAll (gs.map groupToken)) := by
  induction gs generalizing pre before m with
  | nil => rfl
  | cons g gs ih =>
    obtain ⟨hg, hgs⟩ := List.forall_mem_cons.mp h.some
    have hrest : AreStretches gs := @AreStretches.right [g] gs h
    rw [List.flatMap_cons, ← List.append_assoc] at hms
    have hlast : ∀ p ∈ (pre ++ g.marks).getLast?, lastOf g.stretch = p.sign := by
      intro p hp
      have hmarks : g.marks ≠ [] := by simpa [Group.marks] using hg
      rw [List.getLast?_append_of_ne_nil _ hmarks, Group.marks, List.getLast?_map] at hp
      obtain ⟨c, hc, rfl⟩ := Option.map_eq_some_iff.mp hp
      rw [lastOf_stretch, List.getLastD_eq_getLast?, hc]
      rfl
    have hend : endOf before ((g :: gs).map Group.stretch) =
        endOf (lastOf g.stretch) (gs.map Group.stretch) := by
      rw [endOf, endOf, List.map_cons, List.getLast?_cons]
      cases (gs.map Group.stretch).getLast? <;> rfl
    rw [hend, List.map_cons, List.cons_append, elementsFrom, List.foldl_cons,
      add_stretch word hms hgs hg (h.alike g List.mem_cons_self) hbefore, ih hms hrest hlast]
    rfl

end Emphasis

open Emphasis (joinTexts completesReference groupToken textToken)

/-- The signs of groups in a row. -/
def signsOf (gs : List Group) : Chars := gs.flatMap Group.signs

/-- Groups that are joined to one text: none of them completes a reference that those before it
begin. -/
def IsJoined (gs : List Group) : Prop :=
  ∀ a g b, gs = a ++ g :: b → completesReference (signsOf a) g.signs = false

/-- Tokens that no text before them is joined to. -/
def PartsTexts (ts : List Token) : Prop :=
  ∀ s, s ≠ [] → joinTexts s ts = textToken s :: joinTexts [] ts

variable {gs done : List Group} {g : Group} {t : Token} {ts : List Token}

theorem isEmpty_eq_false {s : Chars} (some : s ≠ []) : s.isEmpty = false := by simpa using some

theorem partsTexts_nil : PartsTexts [] := by
  intro s some
  rw [joinTexts, isEmpty_eq_false some]
  rfl

theorem joinTexts_solid (other : ∀ raw, t ≠ .text raw) (ts : List Token) :
    joinTexts [] (t :: ts) = t :: joinTexts [] ts := by
  cases t <;> first | rfl | exact absurd rfl (other _)

theorem partsTexts_solid (other : ∀ raw, t ≠ .text raw) (ts : List Token) :
    PartsTexts (t :: ts) := by
  intro s some
  have hsome := isEmpty_eq_false some
  cases t <;> first | exact absurd rfl (other _) | simp [joinTexts, hsome]

/-- Nothing is joined to a text by an empty one. -/
theorem joinTexts_empty (s : Chars) (ts : List Token) :
    joinTexts s (textToken [] :: ts) = joinTexts s ts := by
  have hnone : Text.referenceBody? [] = none := rfl
  rw [textToken, joinTexts]
  simp [completesReference, hnone]

theorem PartsTexts.empty (h : PartsTexts ts) : PartsTexts (textToken [] :: ts) := by
  intro s some
  rw [joinTexts_empty, joinTexts_empty, h s some]

theorem isJoined_singleton (g : Group) : IsJoined [g] := by
  intro a x b h
  obtain ⟨rfl, -, -⟩ : a = [] ∧ x = g ∧ b = [] := by
    obtain _ | ⟨y, a⟩ := a
    · simpa [eq_comm] using h
    · simp at h
  rfl

theorem IsJoined.concat (h : IsJoined done)
    (hg : completesReference (signsOf done) g.signs = false) : IsJoined (done ++ [g]) := by
  intro a x b heq
  obtain rfl | ⟨b, y, rfl⟩ := List.eq_nil_or_concat b
  · obtain ⟨rfl, hx⟩ := List.append_inj' heq rfl
    rwa [← (List.cons.inj hx).1]
  · rw [List.concat_eq_append, ← List.cons_append, ← List.append_assoc] at heq
    exact h a x b (List.append_inj' heq rfl).1

/-- Texts are joined as long as no reference is completed. -/
theorem exists_joined (done gs : List Group) (some : ∀ g ∈ done ++ gs, g.signs ≠ [])
    (hdone : IsJoined done) (parts : PartsTexts ts) :
    ∃ js : List (List Group), js.flatten = done ++ gs ∧ (∀ j ∈ js, IsJoined j) ∧
      joinTexts (signsOf done) (gs.map groupToken ++ ts) =
      (js.map fun j => textToken (signsOf j)) ++ joinTexts [] ts := by
  induction gs generalizing done with
  | nil =>
    cases done with
    | nil => exact ⟨[], rfl, by simp, rfl⟩
    | cons g done =>
      have hsome : signsOf (g :: done) ≠ [] := by
        obtain ⟨c, cs, hcons⟩ := List.exists_cons_of_ne_nil (some g (by simp))
        simp [signsOf, hcons]
      exact ⟨[g :: done], by simp, by simpa using hdone, parts _ hsome⟩
  | cons g gs ih =>
    have hraw : (String.ofList g.signs).toList = g.signs := String.toList_ofList
    rw [List.map_cons, List.cons_append, groupToken, textToken, joinTexts, hraw]
    cases hcompletes : completesReference (signsOf done) g.signs with
    | true =>
      obtain ⟨js, hflatten, hjoined, heq⟩ := ih [g] (fun x hx => some x (by simp at hx ⊢; tauto))
        (isJoined_singleton g)
      have hsigns : signsOf [g] = g.signs := by simp [signsOf]
      rw [hsigns] at heq
      refine ⟨done :: js, by simp [hflatten], List.forall_mem_cons.mpr ⟨hdone, hjoined⟩, ?_⟩
      rw [if_pos rfl, heq]
      rfl
    | false =>
      obtain ⟨js, hflatten, hjoined, heq⟩ := ih (done ++ [g]) (by simpa using some)
        (hdone.concat hcompletes)
      have hsigns : signsOf (done ++ [g]) = signsOf done ++ g.signs := by simp [signsOf]
      rw [hsigns] at heq
      exact ⟨js, by simp [hflatten], hjoined, heq⟩

end Canonmark.Markdown
