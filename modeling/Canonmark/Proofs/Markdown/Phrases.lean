import Canonmark.Markdown.Inline

/-! Inline content is read as phrases: no token in it stands for a block. -/
namespace Canonmark.Markdown

/-- A token of inline content, with nothing but inline content below it. -/
inductive Token.IsPhrase : Token → Prop
  | text (raw : String) : IsPhrase (.text raw)
  | verbatim {v : Verbatim} (inline : v ≠ .htmlBlock) (raw : String) : IsPhrase (.verbatim v raw)
  | sign {s : Sign} (inline : s ≠ .thematicBreak) : IsPhrase (.sign s)
  | wrapper {w : Wrapper} {content : List Token} (inline : w = .emph ∨ w = .strong)
      (below : ∀ t ∈ content, IsPhrase t) : IsPhrase (.wrapper w content)
  | reference (r : Reference) (destination title : String)
      {content : List Token} (below : ∀ t ∈ content, IsPhrase t) :
      IsPhrase (.reference r (.str destination) (.str title) content)

namespace Emphasis

/-- Nothing but phrases has been matched so far. -/
structure Matching.HoldsPhrases (m : Matching) : Prop where
  frames : ∀ f ∈ m.frames, ∀ t ∈ f.content, t.IsPhrase
  base : ∀ t ∈ m.base, t.IsPhrase

variable {m : Matching} {t : Token} {ps : List Part} {limit : Nat}

theorem isPhrase_textToken (text : Chars) : (textToken text).IsPhrase := .text _

theorem Matching.HoldsPhrases.push (h : m.HoldsPhrases) (ht : t.IsPhrase) :
    (m.push t).HoldsPhrases := by
  obtain ⟨frames, base⟩ := m
  cases frames with
  | nil => exact ⟨by simp [Matching.push], List.forall_mem_cons.mpr ⟨ht, h.base⟩⟩
  | cons f fs =>
    obtain ⟨hf, hfs⟩ := List.forall_mem_cons.mp h.frames
    exact ⟨List.forall_mem_cons.mpr ⟨List.forall_mem_cons.mpr ⟨ht, hf⟩, hfs⟩, h.base⟩

theorem isPhrase_flat {f : Frame} (h : ∀ t ∈ f.content, t.IsPhrase) : ∀ t ∈ f.flat, t.IsPhrase :=
  List.forall_mem_append.mpr ⟨h, by simpa using isPhrase_textToken _⟩

theorem isPhrase_of_find? {r : Run} {frames : List Frame}
    (h : ∀ f ∈ frames, ∀ t ∈ f.content, t.IsPhrase) {g : Frame}
    {around : List Frame} (found : Frame.find? r frames = some (g, around)) :
    (∀ t ∈ g.content, t.IsPhrase) ∧ ∀ f ∈ around, ∀ t ∈ f.content, t.IsPhrase := by
  induction frames generalizing g with
  | nil => cases found
  | cons f fs ih =>
    obtain ⟨hf, hfs⟩ := List.forall_mem_cons.mp h
    rw [Frame.find?] at found
    split at found
    · cases found
      exact ⟨hf, hfs⟩
    · obtain ⟨⟨g', around'⟩, hfound, hsame⟩ := Option.map_eq_some_iff.mp found
      cases hsame
      obtain ⟨hg, haround⟩ := ih hfs hfound
      exact ⟨List.forall_mem_append.mpr ⟨isPhrase_flat hf, hg⟩, haround⟩

theorem isPhrase_wrap (size : Nat) {content : List Token} (h : ∀ t ∈ content, t.IsPhrase) :
    (wrap size content).IsPhrase := by
  refine .wrapper ?_ fun t ht => h t (List.mem_reverse.mp ht)
  split
  · exact .inr rfl
  · exact .inl rfl

theorem holdsPhrases_closeRun (r : Run) (fuel left : Nat) (h : m.HoldsPhrases) :
    (closeRun limit r fuel left m).1.HoldsPhrases := by
  induction fuel generalizing left m with
  | zero => exact h
  | succ fuel ih =>
    rw [closeRun]
    split
    · exact h
    · split
      · exact h
      · rename_i f around hfound
        obtain ⟨hf, haround⟩ := isPhrase_of_find? h.frames hfound
        split
        · exact h
        · refine ih _ ?_
          generalize (if 2 ≤ f.left && 2 ≤ left then 2 else 1) = size
          have hnode := isPhrase_wrap size hf
          split
          · have hrest : ({ m with frames := around } : Matching).HoldsPhrases := ⟨haround, h.base⟩
            exact (hrest.push (isPhrase_textToken [])).push hnode
          · exact ⟨List.forall_mem_cons.mpr ⟨by simpa using hnode, haround⟩, h.base⟩

theorem holdsPhrases_addRun (r : Run) (h : m.HoldsPhrases) : (addRun limit r m).HoldsPhrases := by
  have hclosed : (if r.closes then closeRun limit r r.length r.length m
        else (m, r.length)).1.HoldsPhrases := by
    split
    · exact holdsPhrases_closeRun r _ _ h
    · exact h
  rw [addRun]
  generalize (if r.closes then closeRun limit r r.length r.length m else (m, r.length)) =
    result at hclosed ⊢
  dsimp only
  split
  · exact ⟨List.forall_mem_cons.mpr ⟨by simp, hclosed.frames⟩, hclosed.base⟩
  · exact hclosed.push (isPhrase_textToken _)

theorem mem_of_mem_elements (h : .token t ∈ elements ps) : .token t ∈ ps := by
  have helement : ∀ before after s, elementOf before after s = .token t → s = .token t := by
    intro before after s hs
    cases s with
    | loose text =>
      cases text with
      | nil => cases hs
      | cons c cs =>
        rw [elementOf] at hs
        split at hs <;> cases hs
    | fixed text => cases hs
    | token t' => exact congrArg Stretch.token (Element.token.inj hs)
  have hfrom : ∀ before ss, .token t ∈ elementsFrom before ss → .token t ∈ ss := by
    intro before ss hss
    induction ss generalizing before with
    | nil => cases hss
    | cons s ss ih =>
      rw [elementsFrom, List.mem_cons] at hss
      obtain hs | hss := hss
      · rw [helement _ _ _ hs.symm]
        exact List.mem_cons_self
      · exact List.mem_cons_of_mem _ (ih _ hss)
  obtain ⟨p, hp, hstretch⟩ := List.mem_flatMap.mp (hfrom _ _ h)
  cases p with
  | plain text => simp [stretchesOf] at hstretch
  | escaped text => simp [stretchesOf] at hstretch
  | token t' =>
    obtain rfl : t = t' := by simpa [stretchesOf] using hstretch
    exact hp

theorem isPhrase_joinTexts {ts : List Token} (h : ∀ t ∈ ts, t.IsPhrase) (pending : Chars) :
    ∀ t ∈ joinTexts pending ts, t.IsPhrase := by
  have hpending : ∀ t ∈ (if pending.isEmpty then [] else [textToken pending]), t.IsPhrase := by
    split
    · simp
    · simpa using isPhrase_textToken pending
  fun_induction joinTexts pending ts with
  | case1 => simp
  | case2 => simpa using isPhrase_textToken _
  | case3 pending raw ts text completes ih =>
    refine List.forall_mem_cons.mpr
      ⟨isPhrase_textToken pending, ih (List.forall_mem_cons.mp h).2 ?_⟩
    split
    · simp
    · simpa using isPhrase_textToken text
  | case4 pending raw ts text completes ih =>
    refine ih (List.forall_mem_cons.mp h).2 ?_
    split
    · simp
    · simpa using isPhrase_textToken (pending ++ text)
  | case5 pending t ts other ih =>
    obtain ⟨ht, hts⟩ := List.forall_mem_cons.mp h
    exact List.forall_mem_append.mpr ⟨hpending, List.forall_mem_cons.mpr ⟨ht, ih hts (by simp)⟩⟩

/-- A level of inline content whose tokens are phrases comes to phrases. -/
theorem isPhrase_tokensOf (h : ∀ t, .token t ∈ ps → t.IsPhrase) :
    ∀ t ∈ tokensOf limit ps, t.IsPhrase := by
  rw [tokensOf]
  split
  · have hfold : ∀ (es : List Element) (m : Matching), (∀ t, .token t ∈ es → t.IsPhrase) →
        m.HoldsPhrases → (es.foldl (add limit) m).HoldsPhrases := by
      intro es
      induction es with
      | nil => exact fun m _ hm => hm
      | cons e es ih =>
        intro m hes hm
        refine ih _ (fun t ht => hes t (List.mem_cons_of_mem _ ht)) ?_
        cases e with
        | text text => exact hm.push (isPhrase_textToken text)
        | token t => exact hm.push (hes t List.mem_cons_self)
        | run r => exact holdsPhrases_addRun r hm
    have hall :=
      hfold (elements ps) {} (fun t ht => h t (mem_of_mem_elements ht)) ⟨by simp, by simp⟩
    refine isPhrase_joinTexts (fun t ht => ?_) []
    rw [Matching.tokens, List.mem_reverse, List.mem_append, List.mem_flatMap] at ht
    obtain ⟨f, hf, ht⟩ | ht := ht
    · exact isPhrase_flat (hall.frames f hf) t ht
    · exact hall.base t ht
  · intro t ht
    obtain ⟨p, hp, rfl⟩ := List.mem_map.mp ht
    cases p with
    | plain text | escaped text => exact isPhrase_textToken text
    | token t => exact h t hp

end Emphasis

/-- A piece of inline content, with nothing but inline content in it. -/
inductive Piece.IsPhrase : Piece → Prop
  | plain (text : Chars) : IsPhrase (.plain text)
  | escaped (text : Chars) : IsPhrase (.escaped text)
  | sign {s : Sign} (inline : s ≠ .thematicBreak) : IsPhrase (.sign s)
  | verbatim {v : Verbatim} (inline : v ≠ .htmlBlock) (raw : Chars) : IsPhrase (.verbatim v raw)
  | address (text destination : Chars) : IsPhrase (.address text destination)
  | reference (r : Reference) (target : Target) {content : List Piece}
      (below : ∀ p ∈ content, IsPhrase p) : IsPhrase (.reference r target content)

namespace Piece

variable {ps : List Piece} {t : Token}

theorem mem_of_mem_consPart {p : Part} {parts : List Part} (h : .token t ∈ consPart p parts) :
    .token t = p ∨ .token t ∈ parts := by
  unfold consPart at h
  split at h
  · simpa using h
  · simpa using h

theorem isPhrase_partsOf {inLink : Bool} (h : ∀ p ∈ ps, part inLink p = .token t → t.IsPhrase)
    (ht : .token t ∈ partsOf inLink ps) : t.IsPhrase := by
  induction ps with
  | nil => simp [partsOf] at ht
  | cons p ps ih =>
    obtain ⟨hp, hps⟩ := List.forall_mem_cons.mp h
    rw [partsOf] at ht
    obtain ht | ht := mem_of_mem_consPart ht
    · exact hp ht.symm
    · exact ih hps ht

theorem IsPhrase.part {p : Piece} (h : p.IsPhrase) (inLink : Bool) (ht : part inLink p = .token t) :
    t.IsPhrase := by
  induction h generalizing inLink t with
  | plain text | escaped text =>
    rw [Piece.part] at ht
    cases ht
  | sign inline =>
    rw [Piece.part] at ht
    cases ht
    exact .sign inline
  | verbatim inline raw =>
    rw [Piece.part] at ht
    cases ht
    exact .verbatim inline _
  | address text destination =>
    rw [Piece.part] at ht
    split at ht
    · cases ht
    · cases ht
      exact .reference .link _ _ (List.forall_mem_singleton.mpr (.text _))
  | reference r target below ih =>
    rw [Piece.part] at ht
    cases ht
    exact .reference r _ _ (Emphasis.isPhrase_tokensOf fun t ht =>
      isPhrase_partsOf (fun p hp => ih p hp (inLink || r == .link)) ht)

theorem isPhrase_tokensOf (h : ∀ p ∈ ps, p.IsPhrase) : ∀ t ∈ tokensOf ps, t.IsPhrase :=
  Emphasis.isPhrase_tokensOf fun _ ht => isPhrase_partsOf (fun p hp => (h p hp).part false) ht

end Piece

namespace Inline

/-- Nothing but phrases has been read so far. -/
structure Reading.HoldsPhrases (st : Reading) : Prop where
  brackets : ∀ b ∈ st.brackets, ∀ p ∈ b.pieces, p.IsPhrase
  base : ∀ p ∈ st.base, p.IsPhrase

variable {ds : List Definition} {st : Reading} {p : Piece} {ps : List Piece} {rest : Chars}

theorem isPhrase_push (hp : p.IsPhrase) (h : ∀ q ∈ ps, q.IsPhrase) :
    ∀ q ∈ push p ps, q.IsPhrase := by
  unfold push
  split
  · exact List.forall_mem_cons.mpr ⟨.plain _, (List.forall_mem_cons.mp h).2⟩
  · exact List.forall_mem_cons.mpr ⟨.escaped _, (List.forall_mem_cons.mp h).2⟩
  · exact List.forall_mem_cons.mpr ⟨hp, h⟩

namespace Reading.HoldsPhrases

theorem push (h : st.HoldsPhrases) (hp : p.IsPhrase) : (st.push p).HoldsPhrases := by
  obtain ⟨brackets, base⟩ := st
  cases brackets with
  | nil => exact ⟨by simp [Reading.push], isPhrase_push hp h.base⟩
  | cons b bs =>
    obtain ⟨hb, hbs⟩ := List.forall_mem_cons.mp h.brackets
    exact ⟨List.forall_mem_cons.mpr ⟨isPhrase_push hp hb, hbs⟩, h.base⟩

theorem pushAll (h : st.HoldsPhrases) (hps : ∀ p ∈ ps, p.IsPhrase) :
    (st.pushAll ps).HoldsPhrases := by
  induction ps generalizing st with
  | nil => exact h
  | cons p ps ih =>
    obtain ⟨hp, hps⟩ := List.forall_mem_cons.mp hps
    exact ih (h.push hp) hps

theorem begin (h : st.HoldsPhrases) (kind : Reference) (source : Chars) :
    ({ st with brackets := { kind, source } :: st.brackets } : Reading).HoldsPhrases :=
  ⟨List.forall_mem_cons.mpr ⟨by simp, h.brackets⟩, h.base⟩

end Reading.HoldsPhrases

theorem isPhrase_flat {b : Bracket} (h : ∀ p ∈ b.pieces, p.IsPhrase) : ∀ p ∈ b.flat, p.IsPhrase :=
  List.forall_mem_cons.mpr ⟨.plain _, fun p hp => h p (List.mem_reverse.mp hp)⟩

theorem isPhrase_of_angle? {s : Chars} (h : angle? s = some (p, rest)) : p.IsPhrase := by
  unfold angle? at h
  split at h
  · cases h
    exact .address _ _
  · cases h
    exact .address _ _
  · cases h
    exact .verbatim (by simp) _
  · cases h

theorem isPhrase_of_close? {b : Bracket} (hb : ∀ p ∈ b.pieces, p.IsPhrase) {after : Chars}
    (h : close? ds rest b = some (p, after)) : p.IsPhrase := by
  obtain ⟨⟨target, left⟩, -, hclose⟩ := Option.bind_eq_some_iff.mp h
  dsimp only at hclose
  split at hclose
  · cases hclose
  · cases hclose
    exact .reference _ _ fun p hp => hb p (List.mem_reverse.mp hp)

theorem deactivate_pieces (b : Bracket) : b.deactivate.pieces = b.pieces := by
  unfold Bracket.deactivate
  split <;> rfl

theorem holdsPhrases_closeBracket (h : st.HoldsPhrases) :
    (closeBracket ds rest st).1.HoldsPhrases := by
  obtain ⟨brackets, base⟩ := st
  cases brackets with
  | nil => exact h.push (.plain _)
  | cons b bs =>
    obtain ⟨hb, hbs⟩ := List.forall_mem_cons.mp h.brackets
    rw [closeBracket]
    dsimp only
    split
    · have hrest : ({ brackets := bs, base } : Reading).HoldsPhrases := ⟨hbs, h.base⟩
      exact (hrest.pushAll (isPhrase_flat hb)).push (.plain _)
    · rename_i p after hclose
      refine Reading.HoldsPhrases.push ⟨?_, h.base⟩ (isPhrase_of_close? hb hclose)
      dsimp only
      split
      · intro b' hb'
        obtain ⟨b'', hb'', rfl⟩ := List.mem_map.mp hb'
        rw [deactivate_pieces]
        exact hbs b'' hb''
      · exact hbs

theorem holdsPhrases_plainRun (h : st.HoldsPhrases) (s : Chars) :
    (plainRun s st).1.HoldsPhrases := by
  have hrun : ∀ text : Chars,
      (if text.isEmpty then st else st.push (.plain text)).HoldsPhrases := by
    intro text
    split
    · exact h
    · exact h.push (.plain text)
  rw [plainRun]
  dsimp only
  split
  · refine (hrun _).push (.sign ?_)
    split <;> simp
  · exact hrun _

/-- Whatever a text goes on with, phrases are read. -/
theorem holdsPhrases_step (h : st.HoldsPhrases) (c : Char) (cs : Chars) :
    (step ds c cs st).1.HoldsPhrases := by
  unfold step
  split
  · split
    · exact h.push (.sign (by simp))
    · split
      · exact h.push (.escaped _)
      · exact h.push (.plain _)
    · exact h.push (.plain _)
  · dsimp only
    split
    · exact h.push (.verbatim (by simp) _)
    · exact h.push (.plain _)
  · split
    · rename_i p rest hangle
      exact h.push (isPhrase_of_angle? hangle)
    · exact h.push (.plain _)
  · split
    · exact h.begin .image _
    · exact h.push (.plain _)
  · exact h.begin .link _
  · exact holdsPhrases_closeBracket h
  · exact holdsPhrases_plainRun h _

theorem holdsPhrases_readFrom (skip : Nat) (s : Chars) (h : st.HoldsPhrases) :
    (readFrom ds skip s st).HoldsPhrases := by
  induction s generalizing skip st with
  | nil => cases skip <;> exact h
  | cons c cs ih =>
    cases skip with
    | zero => exact ih _ (holdsPhrases_step h c cs)
    | succ skip => exact ih skip h

theorem isPhrase_pieces (ds : List Definition) (s : Chars) : ∀ p ∈ pieces ds s, p.IsPhrase := by
  have hread : (readFrom ds 0 s {}).HoldsPhrases := holdsPhrases_readFrom 0 s ⟨by simp, by simp⟩
  have hflat : ∀ (bs : List Bracket) (st : Reading), (∀ b ∈ bs, ∀ p ∈ b.pieces, p.IsPhrase) →
      st.HoldsPhrases → (bs.foldl (fun (st : Reading) b => st.pushAll b.flat) st).HoldsPhrases := by
    intro bs
    induction bs with
    | nil => exact fun st _ h => h
    | cons b bs ih =>
      intro st hbs h
      obtain ⟨hb, hbs⟩ := List.forall_mem_cons.mp hbs
      exact ih _ hbs (h.pushAll (isPhrase_flat hb))
  intro p hp
  refine (hflat (readFrom ds 0 s {}).brackets.reverse { base := (readFrom ds 0 s {}).base } ?_
    ⟨by simp, hread.base⟩).base p (List.mem_reverse.mp hp)
  exact fun b hb => hread.brackets b (List.mem_reverse.mp hb)

/-- Every text is read as phrases. -/
theorem isPhrase_tokens (ds : List Definition) (s : Chars) : ∀ t ∈ tokens ds s, t.IsPhrase :=
  Piece.isPhrase_tokensOf (isPhrase_pieces ds s)

end Inline
end Canonmark.Markdown
