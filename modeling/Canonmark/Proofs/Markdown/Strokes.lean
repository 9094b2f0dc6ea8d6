import Canonmark.Proofs.Markdown.Groups

/-! Inline content as strokes: stretches of signs, and pieces that are no text. Whatever pieces a
reader makes of strokes, the stretches of their parts are the strokes. -/
namespace Canonmark.Markdown

/-- A stretch of signs, or a piece that is no text with its token. -/
inductive Stroke where
  | run (g : Group)
  | solid (p : Piece) (t : Token)

namespace Stroke

def piece : Stroke → Piece
  | run g => g.piece
  | solid p _ => p

def stretch : Stroke → Emphasis.Stretch
  | run g => g.stretch
  | solid _ t => .token t

def token : Stroke → Token
  | run g => Emphasis.textToken g.signs
  | solid _ t => t

def Parted : Stroke → Stroke → Prop
  | run g, run h => g.Parted h
  | _, _ => True

/-- What is asked of a stroke by itself. -/
inductive IsSound : Stroke → Prop
  | run {g : Group} (some : g.signs ≠ [])
      (alike : g.escaped = false → g.signs.IsChain fun c d => Emphasis.sameStretch c d) :
      IsSound (run g)
  | solid {p : Piece} {t : Token} (part : ∀ inLink, p.part inLink = .token t) : IsSound (solid p t)

end Stroke

/-- Strokes that differ from their neighbours. -/
structure AreStrokes (ks : List Stroke) : Prop where
  sound : ∀ k ∈ ks, k.IsSound
  parted : ks.IsChain Stroke.Parted

variable {inLink : Bool} {ks : List Stroke} {k : Stroke} {qs : List Piece} {ps : List Part}

theorem AreStrokes.left {js : List Stroke} (h : AreStrokes (ks ++ js)) : AreStrokes ks :=
  ⟨fun k hk => h.sound k (List.mem_append_left _ hk), h.parted.left_of_append⟩

theorem AreStretches.areStrokes {gs : List Group} (h : AreStretches gs) :
    AreStrokes (gs.map .run) where
  sound := List.forall_mem_map.mpr fun g hg => .run (h.some g hg) (h.alike g hg)
  parted := (List.isChain_map Stroke.run).mpr h.parted

/-- The pieces that are read for strokes, the latest first. -/
def pushed (ks : List Stroke) : List Piece := ks.foldl (fun ps k => Inline.push k.piece ps) []

theorem pushed_concat (ks : List Stroke) (k : Stroke) :
    pushed (ks ++ [k]) = Inline.push k.piece (pushed ks) :=
  List.foldl_concat ..

/-- Two pieces that become one where they meet. -/
def Joins : Piece → Piece → Prop
  | .plain _, .plain _ | .escaped _, .escaped _ => True
  | _, _ => False

theorem push_of_not_joins {p : Piece} (h : ∀ q ∈ qs.head?, ¬Joins q p) :
    Inline.push p qs = p :: qs := by
  obtain _ | ⟨q, qs⟩ := qs
  · cases p <;> rfl
  · have hq := h q rfl
    cases p <;> cases q <;> first | rfl | exact absurd trivial hq

/-- Pieces that are read for strokes: they end as the strokes do. -/
structure ArePiecesOf (inLink : Bool) (ks : List Stroke) (qs : List Piece) : Prop where
  pushed : pushed ks = qs.reverse
  apart : qs.IsChain fun p q => ¬Joins p q
  stretches : qs.flatMap (fun p => Emphasis.stretchesOf (p.part inLink)) = ks.map Stroke.stretch
  nonempty : ∀ s, .plain s ∈ qs → s ≠ []
  own : ∀ q ∈ qs, ∀ s, q.part inLink = .escaped s → q = .escaped s
  plain : ∀ s, qs.getLast? = some (.plain s) →
    ∃ g, ks.getLast? = some (.run g) ∧ g.escaped = false ∧ s.getLast? = g.signs.getLast?
  escaped : ∀ s, qs.getLast? = some (.escaped s) → ∃ g, ks.getLast? = some (.run g) ∧ g.escaped

/-- A piece that does not join the last one is read for one more stroke. -/
theorem ArePiecesOf.concat_piece (h : ArePiecesOf inLink ks qs)
    (apart : ∀ q ∈ qs.getLast?, ¬Joins q k.piece)
    (stretches : Emphasis.stretchesOf (k.piece.part inLink) = [k.stretch])
    (nonempty : ∀ s, k.piece = .plain s → s ≠ [])
    (own : ∀ s, k.piece.part inLink = .escaped s → k.piece = .escaped s)
    (plain : ∀ s, k.piece = .plain s → ∃ g, k = .run g ∧ g.escaped = false ∧ s.getLast? =
      g.signs.getLast?) (escaped : ∀ s, k.piece = .escaped s → ∃ g, k = .run g ∧ g.escaped) :
    ArePiecesOf inLink (ks ++ [k]) (qs ++ [k.piece]) where
  pushed := by
    rw [pushed_concat, h.pushed, push_of_not_joins (by simpa using apart), List.reverse_append]
    rfl
  apart := h.apart.append (.singleton _) (by simpa using apart)
  stretches := by simp [h.stretches, stretches]
  nonempty s hs := by
    obtain hs | hs := List.mem_append.mp hs
    · exact h.nonempty s hs
    · exact nonempty s (List.mem_singleton.mp hs).symm
  own := List.forall_mem_append.mpr ⟨h.own, by simpa using own⟩
  plain s hs := by simpa using plain s (by simpa using hs)
  escaped s hs := by simpa using escaped s (by simpa using hs)

/-- A stretch goes on with the plain text before it. -/
theorem ArePiecesOf.concat_plain {s t : Chars} (h : ArePiecesOf inLink ks (qs ++ [.plain s]))
    (some : t ≠ []) (alike : t.IsChain fun c d => Emphasis.sameStretch c d)
    (parted : ∀ c ∈ s.getLast?, ∀ d ∈ t.head?, Emphasis.sameStretch c d = false) :
    ArePiecesOf inLink (ks ++ [.run ⟨false, t⟩]) (qs ++ [.plain (s ++ t)]) where
  pushed := by
    rw [pushed_concat, h.pushed]
    simp [Stroke.piece, Group.piece, Inline.push]
  apart := by
    have hchain := h.apart
    rw [List.isChain_append] at hchain ⊢
    refine ⟨hchain.1, .singleton _, fun p hp q hq => ?_⟩
    obtain rfl := Option.some.inj hq
    cases p <;> first | exact id | exact hchain.2.2 _ hp (.plain s) rfl
  stretches := by
    have hstretches := h.stretches
    have hsplit : (s ++ t).splitBy Emphasis.sameStretch =
        s.splitBy Emphasis.sameStretch ++ [t] := by
      rw [List.splitBy_append parted, List.splitBy_of_isChain some alike]
    rw [List.flatMap_append, List.flatMap_singleton] at hstretches ⊢
    rw [List.map_append, ← hstretches, List.append_assoc]
    simp [Piece.part, Emphasis.stretchesOf, hsplit, Stroke.stretch, Group.stretch]
  nonempty u hu := by
    obtain hu | hu := List.mem_append.mp hu
    · exact h.nonempty u (List.mem_append_left _ hu)
    · obtain rfl := Piece.plain.inj (List.mem_singleton.mp hu)
      exact List.append_ne_nil_of_right_ne_nil _ some
  own := by
    obtain ⟨hqs, -⟩ := List.forall_mem_append.mp h.own
    exact List.forall_mem_append.mpr ⟨hqs, by simp [Piece.part]⟩
  plain u hu := by
    obtain rfl : s ++ t = u := by simpa using hu
    exact ⟨⟨false, t⟩, by simp, rfl, List.getLast?_append_of_ne_nil _ some⟩
  escaped u hu := by simp at hu

theorem ArePiecesOf.concat (h : ArePiecesOf inLink ks qs) (sound : k.IsSound)
    (parted : ∀ j ∈ ks.getLast?, j.Parted k) : ∃ qs', ArePiecesOf inLink (ks ++ [k]) qs' := by
  cases sound with
  | @solid p t part =>
    have hpart := part inLink
    have hplain : ∀ s, p ≠ .plain s := by rintro s rfl; cases hpart
    have hescaped : ∀ s, p ≠ .escaped s := by rintro s rfl; cases hpart
    refine ⟨_, h.concat_piece (fun q _ => ?_) ?_ (fun s hs => absurd hs (hplain s)) (fun s hs => ?_)
      (fun s hs => absurd hs (hplain s)) fun s hs => absurd hs (hescaped s)⟩
    · simp only [Stroke.piece]
      cases p <;> cases q
      all_goals first | exact id | exact absurd rfl (hplain _) | exact absurd rfl (hescaped _)
    · simp [Stroke.piece, hpart, Emphasis.stretchesOf, Stroke.stretch]
    · exact absurd (hpart.symm.trans hs) (by simp)
  | @run g some alike =>
    obtain ⟨escaped, t⟩ := g
    dsimp only at some alike
    cases escaped with
    | true =>
      have hapart : ∀ q ∈ qs.getLast?, ¬Joins q (.escaped t) := by
        rintro (_ | s | _ | _ | _ | _) hq <;> try exact id
        obtain ⟨g, hg, hescaped⟩ := h.escaped s hq
        have hplain := (parted _ hg hescaped).1
        rw [hescaped] at hplain
        cases hplain
      have hpiece : (Stroke.run ⟨true, t⟩).piece = .escaped t := rfl
      exact ⟨_, h.concat_piece hapart rfl (by simp [hpiece]) (by simp [hpiece, Piece.part])
        (by simp [hpiece]) fun s _ => ⟨⟨true, t⟩, rfl, rfl⟩⟩
    | false =>
      by_cases hlast : ∃ s, qs.getLast? = .some (.plain s)
      · obtain ⟨s, hs⟩ := hlast
        obtain ⟨g, hg, hplain, hsame⟩ := h.plain s hs
        obtain ⟨others, rfl⟩ := List.getLast?_eq_some_iff.mp hs
        exact ⟨_, h.concat_plain some (alike rfl) fun c hc => (parted _ hg hplain).2 c (hsame ▸ hc)⟩
      · have hapart : ∀ q ∈ qs.getLast?, ¬Joins q (.plain t) := by
          rintro (s | _ | _ | _ | _ | _) hq <;> try exact id
          exact absurd ⟨s, hq⟩ hlast
        have hpiece : (Stroke.run ⟨false, t⟩).piece = .plain t := rfl
        refine ⟨_, h.concat_piece hapart ?_ (by simpa [hpiece] using some)
          (by simp [hpiece, Piece.part]) (fun s hs => ?_) (by simp [hpiece])⟩
        · change (t.splitBy _).map _ = _
          rw [List.splitBy_of_isChain some (alike rfl)]
          rfl
        · obtain rfl := Piece.plain.inj hs
          exact ⟨⟨false, t⟩, rfl, rfl, rfl⟩

theorem AreStrokes.exists_pieces (h : AreStrokes ks) (inLink : Bool) :
    ∃ qs, ArePiecesOf inLink ks qs := by
  induction ks using List.reverseRecOn with
  | nil => exact ⟨[], rfl, .nil, rfl, by simp, by simp, by simp, by simp⟩
  | append_singleton ks k ih =>
    obtain ⟨qs, hqs⟩ := ih h.left
    exact hqs.concat (h.sound k (by simp)) fun j hj =>
      (List.isChain_append.mp h.parted).2.2 j hj k rfl

/-- Pieces that are read for strokes are parts one by one. -/
theorem ArePiecesOf.partsOf_eq (h : ArePiecesOf inLink ks qs) :
    Piece.partsOf inLink qs = qs.map (Piece.part inLink) := by
  obtain ⟨-, apart, -, -, own, -, -⟩ := h
  induction qs with
  | nil => rfl
  | cons p qs ih =>
    obtain ⟨hp, hqs⟩ := List.forall_mem_cons.mp own
    rw [Piece.partsOf, ih apart.tail hqs, List.map_cons]
    unfold Piece.consPart
    split
    · rename_i s t ps hs ht
      obtain _ | ⟨q, qs⟩ := qs
      · cases ht
      · obtain ⟨ht, -⟩ := List.cons.inj ht
        have hboth : ¬Joins p q := apart.rel
        rw [hp s hs, hqs q (by simp) t ht] at hboth
        exact absurd trivial hboth
    · rfl

/-- The token of a stretch that is text, or a token. -/
def stretchToken : Emphasis.Stretch → Token
  | .loose s | .fixed s => Emphasis.textToken s
  | .token t => t

theorem stretchToken_stretch (k : Stroke) : stretchToken k.stretch = k.token := by
  obtain ⟨_ | _, s⟩ | ⟨p, t⟩ := k <;> rfl

/-- Without signs of emphasis, each part is a stretch. -/
theorem map_plainToken (some : ∀ s, .plain s ∈ ps → s ≠ [])
    (signless : ps.any Emphasis.holdsSigns = false) :
    ps.map Emphasis.plainToken = (ps.flatMap Emphasis.stretchesOf).map stretchToken := by
  have hall : ∀ p ∈ ps, (Emphasis.stretchesOf p).map stretchToken = [Emphasis.plainToken p] := by
    intro p hp
    have hsigns := List.any_eq_false.mp signless p hp
    cases p with
    | escaped s => rfl
    | token t => rfl
    | plain s =>
      have hnone : ∀ c ∈ s, Emphasis.isSign c = false := by simpa [Emphasis.holdsSigns] using hsigns
      have halike : s.IsChain fun c d => Emphasis.sameStretch c d := by
        refine List.Pairwise.isChain (List.Pairwise.imp_of_mem (fun {c d} hc hd _ => ?_)
          (List.pairwise_of_forall fun _ _ => trivial))
        simp [Emphasis.sameStretch, hnone c hc, hnone d hd]
      rw [Emphasis.stretchesOf, List.splitBy_of_isChain (some s hp) halike]
      rfl
  rw [List.map_flatMap, List.flatMap_congr hall, List.map_eq_flatMap]

/-- What the parts of strokes come to. -/
theorem AreStrokes.partsOf_pushed (h : AreStrokes ks) (inLink : Bool) :
    (Piece.partsOf inLink (pushed ks).reverse).flatMap Emphasis.stretchesOf =
      ks.map Stroke.stretch ∧
      ((Piece.partsOf inLink (pushed ks).reverse).any Emphasis.holdsSigns = false →
        (Piece.partsOf inLink (pushed ks).reverse).map Emphasis.plainToken =
        ks.map Stroke.token) := by
  obtain ⟨qs, hqs⟩ := h.exists_pieces inLink
  rw [hqs.pushed, List.reverse_reverse]
  have hparts := hqs.partsOf_eq
  have hstretches : (Piece.partsOf inLink qs).flatMap Emphasis.stretchesOf =
      ks.map Stroke.stretch := by
    rw [hparts, List.flatMap_map]
    exact hqs.stretches
  refine ⟨hstretches, fun hany => ?_⟩
  have hsome : ∀ s, .plain s ∈ Piece.partsOf inLink qs → s ≠ [] := by
    intro s hs
    rw [hparts] at hs
    obtain ⟨q, hq, hpart⟩ := List.mem_map.mp hs
    cases q with
    | plain t => exact Part.plain.inj hpart ▸ hqs.nonempty t hq
    | address t d => cases inLink <;> cases hpart
    | escaped t | sign x | verbatim v raw | reference r target content => cases hpart
  rw [map_plainToken hsome hany, hstretches, List.map_map]
  exact List.map_congr_left fun k _ => stretchToken_stretch k

end Canonmark.Markdown
