import Canonmark.Proofs.Markdown.Escaping
import Canonmark.Proofs.Markdown.Scan
import Mathlib.Data.List.Chain
import Mathlib.Data.List.Induction
import Mathlib.Data.List.SplitBy

/-! How what is written for a text is read: as groups of signs, all escaped or none. -/
namespace Canonmark.Markdown

/-- Signs in a row, all of which are escaped, or none. -/
structure Group where
  escaped : Bool
  signs : Chars

namespace Group

def marks (g : Group) : List Mark := g.signs.map (⟨·, g.escaped⟩)

def piece (g : Group) : Piece := if g.escaped then .escaped g.signs else .plain g.signs

end Group

/-- The piece that a mark is read as. -/
def Mark.piece (m : Mark) : Piece := Group.piece ⟨m.escaped, [m.sign]⟩

/-- A mark from which nothing but text is read. -/
structure Mark.IsReadable (m : Mark) : Prop where
  escaped : m.escaped → isPunctuation m.sign
  plain : m.escaped = false → isAlwaysEscaped m.sign = false ∨ m.sign = '*'
  single : m.sign ≠ '\n'

theorem dropEndWhile_cons_of_ink {p : Char → Bool} {c : Char}
    {s : Chars} (h : p c = false ∨ ∃ d ∈ s, p d = false) :
    Text.dropEndWhile p (c :: s) = c :: Text.dropEndWhile p s := by
  rw [Text.dropEndWhile, Text.dropEndWhile, List.reverse_cons, List.dropWhile_append]
  split
  · rename_i hnil
    have hall : ∀ d ∈ s, p d := by simpa using hnil
    obtain h | ⟨d, hd, h⟩ := h
    · have hs : s.reverse.dropWhile p = [] := by simpa using hall
      rw [List.dropWhile_cons_of_neg (by simp [h]), hs]
      rfl
    · rw [hall d hd] at h
      cases h
  · simp

namespace Inline

variable {ds : List Definition} {c : Char} {s rest : Chars} {st : Reading}
    {ms : List Mark} {m : Mark}

theorem push_plain (st : Reading) (s t : Chars) :
    (st.push (.plain s)).push (.plain t) = st.push (.plain (s ++ t)) := by
  have hpush : ∀ ps, push (.plain t) (push (.plain s) ps) = push (.plain (s ++ t)) ps := by
    intro ps
    obtain _ | ⟨⟨⟩, ps⟩ := ps <;> simp [push]
  obtain ⟨_ | ⟨b, bs⟩, base⟩ := st
  · simp [Reading.push, hpush]
  · simp [Reading.push, hpush]

theorem push_escaped (st : Reading) (s t : Chars) :
    (st.push (.escaped s)).push (.escaped t) = st.push (.escaped (s ++ t)) := by
  have hpush : ∀ ps, push (.escaped t) (push (.escaped s) ps) = push (.escaped (s ++ t)) ps := by
    intro ps
    obtain _ | ⟨⟨⟩, ps⟩ := ps <;> simp [push]
  obtain ⟨_ | ⟨b, bs⟩, base⟩ := st
  · simp [Reading.push, hpush]
  · simp [Reading.push, hpush]

/-- Spaces, and after them the end of a line. -/
def EndsLine (s : Chars) : Prop := (s.dropWhile (· == ' ')).head? = some '\n'

/-- What is left after a run of plain text, given the text left at the end of its line. -/
theorem plainRun_cons_suffix (h : isOrdinary c ∨ c = '\n') (s : Chars) (st : Reading) :
    (plainRun (c :: s) st).2 <:+ s := by
  have hdrop : (c :: s).drop ((c :: s).takeWhile isOrdinary).length <:+ s ∨
      (c :: s).drop ((c :: s).takeWhile isOrdinary).length = '\n' :: s := by
    obtain h | rfl := h
    · rw [List.takeWhile_cons_of_pos h, List.length_cons, List.drop_succ_cons]
      exact .inl (List.drop_suffix ..)
    · exact .inr rfl
  rw [plainRun]
  dsimp only
  split
  · rename_i rest hrest
    rw [hrest] at hdrop
    have hsuffix : rest <:+ s := by
      obtain h | h := hdrop
      · exact (List.suffix_cons _ _).trans h
      · obtain rfl := (List.cons.inj h).2
        exact List.suffix_refl _
    exact (List.dropWhile_suffix _).trans hsuffix
  · rename_i hother
    exact hdrop.resolve_right (hother s)

/-- Reading goes on behind the run of plain text, if there is one. -/
theorem readFrom_plainRun (ds : List Definition) (s : Chars) (st : Reading) :
    readFrom ds 0 s st = readFrom ds 0 (plainRun s st).2 (plainRun s st).1 := by
  obtain _ | ⟨c, s⟩ := s
  · rfl
  by_cases hc : isOrdinary c ∨ c = '\n'
  · have hstep : step ds c s st = plainRun (c :: s) st := by
      obtain hc | rfl := hc
      · exact step_of_isOrdinary hc
      · rfl
    exact readFrom_of_step hstep (plainRun_cons_suffix hc s st)
  · obtain ⟨hspecial, hother⟩ : isOrdinary c = false ∧ c ≠ '\n' := by simpa using hc
    have hrun : plainRun (c :: s) st = (st, c :: s) := by
      rw [plainRun, List.takeWhile_cons_of_neg (by simp [hspecial])]
      dsimp only [List.length_nil, List.drop_zero]
      split
      · rename_i heq
        exact absurd (List.cons.inj heq).1 hother
      · rfl
    rw [hrun]

/-- A run of plain text may be begun sign by sign, but for the spaces at the end of a line. -/
theorem plainRun_cons (ordinary : isOrdinary c) (inside : c = ' ' → ¬EndsLine s) (st : Reading) :
    plainRun (c :: s) st = plainRun s (st.push (.plain [c])) := by
  have hrun : (c :: s).takeWhile isOrdinary = c :: s.takeWhile isOrdinary :=
    List.takeWhile_cons_of_pos ordinary
  have hsplit : s.takeWhile isOrdinary ++ s.drop (s.takeWhile isOrdinary).length = s :=
    List.prefix_iff_eq_append.mp (List.takeWhile_prefix _)
  rw [plainRun, plainRun, hrun, List.length_cons, List.drop_succ_cons]
  generalize s.takeWhile isOrdinary = run at *
  generalize s.drop run.length = rest at *
  dsimp only
  have hpush : (if (c :: run).isEmpty then st else st.push (.plain (c :: run))) =
      if run.isEmpty then st.push (.plain [c]) else (st.push (.plain [c])).push (.plain run) := by
    cases run with
    | nil => rfl
    | cons d run => rw [push_plain]; rfl
  split
  · rename_i left
    have hink : (c == ' ') = false ∨ ∃ d ∈ run, (d == ' ') = false := by
      by_contra hspaces
      push Not at hspaces
      obtain ⟨hc, hspaces⟩ := hspaces
      refine inside (by simpa using hc) ?_
      rw [EndsLine, ← hsplit, List.dropWhile_append_of_pos fun d hd => by simpa using hspaces d hd]
      rfl
    have htrim := @dropEndWhile_cons_of_ink (· == ' ') c run hink
    rw [htrim, List.isEmpty_cons, if_neg Bool.false_ne_true, List.length_cons]
    cases hrest : Text.dropEndWhile (· == ' ') run with
    | nil => simp
    | cons d t => rw [push_plain]; simp
  · rw [hpush]

/-- Plain text may be read sign by sign, but for the spaces at the end of a line. -/
theorem readFrom_sign (ordinary : isOrdinary c) (inside : c = ' ' → ¬EndsLine s) :
    readFrom ds 0 (c :: s) st = readFrom ds 0 s (st.push (.plain [c])) := by
  rw [readFrom_plainRun, plainRun_cons ordinary inside, ← readFrom_plainRun]

/-- What follows a mark does not change what it is read as: no bracket follows an exclamation mark,
and no line ends after a space. -/
structure LetsBe (m : Mark) (rest : Chars) : Prop where
  bang : m = ⟨'!', false⟩ → rest.head? ≠ some '['
  space : m = ⟨' ', false⟩ → ¬EndsLine rest

theorem readFrom_mark (readable : m.IsReadable) (lets : LetsBe m rest) (st : Reading) :
    readFrom ds 0 (m.text ++ rest) st = readFrom ds 0 rest (st.push m.piece) := by
  obtain ⟨c, escaped⟩ := m
  cases escaped with
  | true =>
    have hpunctuation : isPunctuation c := readable.escaped rfl
    have hother : c ≠ '\n' := readable.single
    have hstep : step ds '\\' (c :: rest) st = (st.push (.escaped [c]), rest) := by
      simp [step, hpunctuation]
    exact readFrom_of_step hstep (List.suffix_cons _ _)
  | false =>
    by_cases hbang : c = '!'
    · subst hbang
      have hbracket := lets.bang rfl
      have hstep : step ds '!' rest st = (st.push (.plain ['!']), rest) := by
        rw [step]
        · rintro t rfl
          exact hbracket rfl
      exact readFrom_of_step hstep (List.suffix_refl _)
    · have hordinary : isOrdinary c := by
        obtain hplain | rfl := readable.plain rfl
        · simp only [isAlwaysEscaped, Bool.or_eq_false_iff] at hplain
          have hother : c ≠ '\n' := readable.single
          simp [isOrdinary, hplain, hother, hbang]
        · rfl
      refine readFrom_sign hordinary fun hspace => ?_
      subst hspace
      exact lets.space rfl

/-- No bracket is left as it is. -/
theorem head?_marks (readable : ∀ m ∈ ms, m.IsReadable) (some : ms ≠ []) (rest : Chars) :
    (ms.flatMap Mark.text ++ rest).head? ≠ .some '[' := by
  obtain ⟨⟨c, escaped⟩, ms, rfl⟩ := List.exists_cons_of_ne_nil some
  cases escaped with
  | true => simp [Mark.text]
  | false =>
    have hother : c ≠ '[' := by
      rintro rfl
      obtain h | h := (readable ⟨'[', false⟩ (by simp)).plain rfl
      · cases h
      · cases h
    simpa [Mark.text] using hother

theorem not_endsLine_marks (readable : ∀ m ∈ ms, m.IsReadable) (some : ms ≠ [])
    (lets : ∀ m ∈ ms.getLast?, LetsBe m rest) : ¬EndsLine (ms.flatMap Mark.text ++ rest) := by
  induction ms with
  | nil => exact absurd rfl some
  | cons m ms ih =>
    obtain ⟨hm, hms⟩ := List.forall_mem_cons.mp readable
    obtain ⟨c, escaped⟩ := m
    cases escaped with
    | true =>
      rw [EndsLine, List.flatMap_cons, List.append_assoc]
      change (List.dropWhile (· == ' ') ('\\' :: _)).head? ≠ _
      rw [List.dropWhile_cons_of_neg (by decide)]
      simp
    | false =>
      have htext : (Mark.mk c false :: ms).flatMap Mark.text ++ rest =
          c :: (ms.flatMap Mark.text ++ rest) :=
        rfl
      rw [EndsLine, htext]
      by_cases hc : c = ' '
      · subst hc
        rw [List.dropWhile_cons_of_pos rfl]
        obtain rfl | hsome := eq_or_ne ms []
        · exact (lets _ rfl).space rfl
        · refine ih hms hsome fun m hm => lets m ?_
          rwa [List.getLast?_cons_of_ne_nil hsome]
      · rw [List.dropWhile_cons_of_neg (by simpa using hc)]
        simpa using hm.single

/-- What is written is read mark by mark. -/
theorem readFrom_marks (ds : List Definition) (readable : ∀ m ∈ ms, m.IsReadable)
    (lets : ∀ m ∈ ms.getLast?, LetsBe m rest) (st : Reading) :
    readFrom ds 0
      (ms.flatMap Mark.text ++ rest) st = readFrom ds 0 rest (st.pushAll (ms.map Mark.piece)) := by
  induction ms generalizing st with
  | nil => rfl
  | cons m ms ih =>
    obtain ⟨hm, hms⟩ := List.forall_mem_cons.mp readable
    have hfirst : LetsBe m (ms.flatMap Mark.text ++ rest) := by
      obtain rfl | hsome := eq_or_ne ms []
      · exact lets m rfl
      · have hlast : ∀ k ∈ ms.getLast?, LetsBe k rest :=
          fun k hk => lets k (by rwa [List.getLast?_cons_of_ne_nil hsome])
        exact ⟨fun _ => head?_marks hms hsome rest, fun _ => not_endsLine_marks hms hsome hlast⟩
    have hrest : ∀ k ∈ ms.getLast?, LetsBe k rest := by
      obtain rfl | hsome := eq_or_ne ms []
      · simp
      · exact fun k hk => lets k (by rwa [List.getLast?_cons_of_ne_nil hsome])
    rw [List.flatMap_cons, List.append_assoc, readFrom_mark hm hfirst, ih hms hrest]
    rfl

theorem pushAll_append (st : Reading) (ps qs : List Piece) :
    st.pushAll (ps ++ qs) = (st.pushAll ps).pushAll qs :=
  List.foldl_append

/-- The signs of a group are read as one piece. -/
theorem pushAll_group {g : Group} (some : g.signs ≠ []) (st : Reading) :
    st.pushAll (g.marks.map Mark.piece) = st.push g.piece := by
  obtain ⟨escaped, signs⟩ := g
  dsimp only at some
  induction signs using List.reverseRecOn with
  | nil => exact absurd rfl some
  | append_singleton signs c ih =>
    obtain rfl | hsome := eq_or_ne signs []
    · rfl
    · have hmarks : (Group.mk escaped (signs ++ [c])).marks = (Group.mk escaped signs).marks ++
          [⟨c, escaped⟩] := by
        simp [Group.marks]
      rw [hmarks, List.map_append, pushAll_append, ih hsome]
      cases escaped with
      | true => exact push_escaped st signs [c]
      | false => exact push_plain st signs [c]

theorem pushAll_groups {gs : List Group} (some : ∀ g ∈ gs, g.signs ≠ []) (st : Reading) :
    st.pushAll ((gs.flatMap Group.marks).map Mark.piece) = st.pushAll (gs.map Group.piece) := by
  induction gs generalizing st with
  | nil => rfl
  | cons g gs ih =>
    obtain ⟨hg, hgs⟩ := List.forall_mem_cons.mp some
    rw [List.flatMap_cons, List.map_append, pushAll_append, pushAll_group hg, ih hgs]
    rfl

end Inline

/-- A stretch of signs: escaped, or all or none of which are signs of emphasis. -/
def Group.stretch (g : Group) : Emphasis.Stretch :=
  if g.escaped then .fixed g.signs else .loose g.signs

/-- Stretches that differ where they meet: in whether they are escaped, or in their signs. -/
def Group.Parted (g h : Group) : Prop :=
  g.escaped = h.escaped → g.escaped = false ∧
    ∀ c ∈ g.signs.getLast?, ∀ d ∈ h.signs.head?, Emphasis.sameStretch c d = false

/-- Stretches in each of which the signs are alike, and which differ from their neighbours. -/
structure AreStretches (gs : List Group) : Prop where
  some : ∀ g ∈ gs, g.signs ≠ []
  alike : ∀ g ∈ gs, g.escaped = false → g.signs.IsChain fun c d => Emphasis.sameStretch c d
  parted : gs.IsChain Group.Parted

variable {gs : List Group} {ms : List Mark}

theorem AreStretches.right {hs : List Group} (h : AreStretches (gs ++ hs)) : AreStretches hs where
  some g hg := h.some g (List.mem_append_right _ hg)
  alike g hg := h.alike g (List.mem_append_right _ hg)
  parted := h.parted.right_of_append

/-- Whether two marks in a row are of one stretch. -/
def Mark.alike (a b : Mark) : Bool :=
  a.escaped == b.escaped && (a.escaped || Emphasis.sameStretch a.sign b.sign)

/-- The group of marks that are all escaped, or none. -/
def Group.of (ms : List Mark) : Group := ⟨ms.head?.any Mark.escaped, ms.map Mark.sign⟩

/-- The stretches of marks. -/
def stretches (ms : List Mark) : List Group := (ms.splitBy Mark.alike).map Group.of

theorem escaped_of_alike {m : Mark} (alike : (m :: ms).IsChain fun a b => Mark.alike a b) :
    ∀ k ∈ ms, k.escaped = m.escaped := by
  induction ms generalizing m with
  | nil => simp
  | cons k ms ih =>
    have hk : k.escaped = m.escaped := by
      have h := alike.rel
      rw [Mark.alike, Bool.and_eq_true, beq_iff_eq] at h
      exact h.1.symm
    exact List.forall_mem_cons.mpr ⟨hk, fun j hj => (ih alike.tail j hj).trans hk⟩

theorem escaped_of_mem (alike : ms.IsChain fun a b => Mark.alike a b) :
    ∀ m ∈ ms, m.escaped = (Group.of ms).escaped := by
  cases ms with
  | nil => simp
  | cons m ms => exact List.forall_mem_cons.mpr ⟨rfl, escaped_of_alike alike⟩

/-- The group of marks of one stretch is made of these marks. -/
theorem marks_of (alike : ms.IsChain fun a b => Mark.alike a b) : (Group.of ms).marks = ms := by
  have hmarks : (Group.of ms).marks = ms.map fun m => ⟨m.sign, (Group.of ms).escaped⟩ := by
    simp [Group.marks, Group.of, Function.comp_def]
  rw [hmarks]
  exact (List.map_congr_left fun m hm => by rw [← escaped_of_mem alike m hm, id_eq]).trans
    (List.map_id _)

theorem marks_stretches (ms : List Mark) : (stretches ms).flatMap Group.marks = ms := by
  have hall : ∀ c ∈ ms.splitBy Mark.alike, (Group.of c).marks = c := fun c hc =>
    marks_of (List.isChain_of_mem_splitBy hc)
  rw [stretches, List.flatMap_map, List.flatMap_congr hall, List.flatMap_id', List.flatten_splitBy]

theorem areStretches_stretches (ms : List Mark) : AreStretches (stretches ms) where
  some := by
    refine List.forall_mem_map.mpr fun c hc => ?_
    simpa [Group.of] using List.ne_nil_of_mem_splitBy hc
  alike := by
    refine List.forall_mem_map.mpr fun c hc hplain => ?_
    have halike := List.isChain_of_mem_splitBy hc
    refine (List.isChain_map Mark.sign).mpr (halike.imp_of_mem_imp fun a b ha _ h => ?_)
    rw [Mark.alike, escaped_of_mem halike a ha, hplain, Bool.false_or] at h
    exact (Bool.and_eq_true _ _ ▸ h).2
  parted := by
    refine (List.isChain_map Group.of).mpr
      ((List.isChain_getLast_head_splitBy _ _).imp_of_mem_imp ?_)
    rintro t u ht hu ⟨htsome, husome, h⟩ hsame
    rw [Mark.alike, escaped_of_mem (List.isChain_of_mem_splitBy ht) _ (List.getLast_mem htsome),
      escaped_of_mem (List.isChain_of_mem_splitBy hu) _ (List.head_mem husome), hsame,
      beq_self_eq_true, Bool.true_and, Bool.or_eq_false_iff] at h
    refine ⟨hsame.trans h.1, fun c hc d hd => ?_⟩
    rw [Group.of, List.getLast?_map, List.getLast?_eq_some_getLast htsome] at hc
    rw [Group.of, List.head?_map, List.head?_eq_some_head husome] at hd
    obtain rfl := Option.some.inj hc
    obtain rfl := Option.some.inj hd
    exact h.2

end Canonmark.Markdown
