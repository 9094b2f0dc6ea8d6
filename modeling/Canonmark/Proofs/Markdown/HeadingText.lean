import Canonmark.Proofs.Markdown.TextRoundTrip

/-! The text of a heading is read back as it was written, but for hashes between spaces at its end
and for some references beside underscores. -/
namespace Canonmark.Markdown

variable {s : Chars} {ms pre : List Mark}

/-- Marks between signs that are no part of a word are sound on their own. -/
theorem AreSound.between {a b : List Mark} (sound : AreSound (a ++ ms ++ b))
    (before : ∀ m ∈ a, Text.isAlphanumeric m.sign = false)
    (after : ∀ m ∈ b, Text.isAlphanumeric m.sign = false) : AreSound ms := by
  rintro pre m post rfl
  have hsound := sound (a ++ pre) m (post ++ b) (by simp)
  rw [List.map_append, List.map_append] at hsound
  refine {
    punctuation := hsound.punctuation
    semicolon := hsound.semicolon
    special := fun escaped hand other hlast =>
      hsound.special escaped (List.mem_append_right _ hand) other (List.mem_append_left _ hlast)
    sign := hsound.sign
    reference := fun plain hsign => ?_
    underscore := fun plain hsign => ?_ }
  · have hnone := hsound.reference plain hsign
    by_contra hsome
    obtain ⟨body, hbody⟩ := Option.ne_none_iff_exists'.mp hsome
    rw [Text.referenceBody?_append hbody] at hnone
    cases hnone
  · obtain ⟨hbefore, hafter⟩ := hsound.underscore plain hsign
    constructor
    · obtain rfl | ⟨pre, p, rfl⟩ := pre.eq_nil_or_concat'
      · obtain rfl | ⟨a, p, rfl⟩ := a.eq_nil_or_concat'
        · exact hbefore
        · have hother := before p (by simp)
          simp [isAlphanumeric?, hother] at hbefore
      · simpa using hbefore
    · obtain _ | ⟨q, post⟩ := post
      · obtain _ | ⟨q, b⟩ := b
        · exact hafter
        · have hother := after q (by simp)
          simp [isAlphanumeric?, hother] at hafter
      · exact hafter

/-- Of hashes at the end, the first can be escaped. -/
theorem AreSound.escape_hash {n : Nat}
    (sound : AreSound (pre ++ List.replicate (n + 1) ⟨'#', false⟩)) :
    AreSound (pre ++ ⟨'#', true⟩ :: List.replicate n ⟨'#', false⟩) := by
  have hescaped : ∀ before : Chars,
      Mark.IsSound before ⟨'#', true⟩ ((List.replicate n (⟨'#', false⟩ : Mark)).map Mark.sign) :=
    fun before => {
      punctuation := fun _ => rfl
      semicolon := by simp
      special := by simp
      sign := nofun
      reference := nofun
      underscore := nofun }
  intro a m b h
  obtain ⟨c, rfl, hc⟩ | ⟨c, rfl, hc⟩ := List.append_eq_append_iff.mp h
  · obtain _ | ⟨d, c⟩ := c
    · obtain ⟨rfl, rfl⟩ := List.cons.inj hc
      exact hescaped _
    · obtain ⟨rfl, hrest⟩ := List.cons.inj hc
      have hmem : m ∈ List.replicate n ⟨'#', false⟩ := by
        rw [hrest]
        exact List.mem_append_right c List.mem_cons_self
      obtain rfl := List.eq_of_mem_replicate hmem
      exact {
        punctuation := nofun
        semicolon := nofun
        special := nofun
        sign := fun _ => rfl
        reference := by simp
        underscore := by simp }
  · obtain _ | ⟨d, c⟩ := c
    · obtain ⟨rfl, rfl⟩ := List.cons.inj hc
      exact hescaped _
    · obtain ⟨rfl, rfl⟩ := List.cons.inj hc
      have hsound := sound a m (c ++ List.replicate (n + 1) ⟨'#', false⟩) (by simp)
      simpa [List.replicate_succ] using hsound

/-- The mark that the last sign is written for. -/
theorem exists_of_flatMap_concat {t : Chars} {c : Char} (h : ms.flatMap Mark.text = t ++ [c]) :
    ∃ pre escaped, ms = pre ++ [⟨c, escaped⟩] ∧ t = if escaped then pre.flatMap Mark.text ++ ['\\']
    else pre.flatMap Mark.text := by
  obtain rfl | ⟨pre, ⟨sign, escaped⟩, rfl⟩ := ms.eq_nil_or_concat'
  · simp at h
  · rw [List.flatMap_append, List.flatMap_singleton, Mark.text] at h
    cases escaped with
    | true =>
      have hsplit : pre.flatMap Mark.text ++ ['\\'] ++ [sign] = t ++ [c] := by simpa using h
      obtain ⟨rfl, hsign⟩ := List.append_inj' hsplit rfl
      obtain rfl := List.singleton_inj.mp hsign
      exact ⟨pre, true, rfl, rfl⟩
    | false =>
      obtain ⟨rfl, hsign⟩ := List.append_inj' h rfl
      obtain rfl := List.singleton_inj.mp hsign
      exact ⟨pre, false, rfl, rfl⟩

/-- Hashes that are written at the end after a space are not escaped. -/
theorem AreSound.eq_of_hashes (sound : AreSound ms) {before : Chars} {n : Nat}
    (h : ms.flatMap Mark.text = before ++ ' ' :: List.replicate n '#') :
    ∃ pre, ms =
      pre ++ ⟨' ', false⟩ :: List.replicate n ⟨'#', false⟩ ∧ pre.flatMap Mark.text = before := by
  have hpunctuation : ∀ m ∈ ms, m.escaped → isPunctuation m.sign := by
    intro m hm
    obtain ⟨pre, post, hms⟩ := List.append_of_mem hm
    exact (sound pre m post hms).punctuation
  clear sound
  induction n generalizing ms with
  | zero =>
    obtain ⟨pre, escaped, rfl, hbefore⟩ := exists_of_flatMap_concat h
    cases escaped with
    | true => exact absurd (hpunctuation ⟨' ', true⟩ (by simp) rfl) (by decide)
    | false => exact ⟨pre, rfl, hbefore.symm⟩
  | succ n ih =>
    rw [List.replicate_succ', ← List.cons_append, ← List.append_assoc] at h
    obtain ⟨pre, escaped, rfl, hbefore⟩ := exists_of_flatMap_concat h
    cases escaped with
    | true =>
      -- a backslash would stand before the last hash
      have hlast := congrArg List.getLast? hbefore
      rw [if_pos rfl, List.getLast?_concat, List.getLast?_append_of_ne_nil _ (by simp)] at hlast
      have hmem := List.mem_of_getLast? hlast
      simp at hmem
    | false =>
      obtain ⟨pre, rfl, hpre⟩ :=
        ih hbefore.symm fun m hm => hpunctuation m (List.mem_append_left _ hm)
      exact ⟨pre, by simp [List.replicate_succ'], hpre⟩

/-- A text that ends in hashes with a space before them. -/
def EndsInHashes (s : Chars) : Prop := ∃ before n, s = before ++ ' ' :: List.replicate (n + 1) '#'

/-- A text that ends in hashes with a space before them, and in spaces after them. -/
def EndsInLooseHashes (s : Chars) : Prop :=
  ∃ before n, s = before ++ List.replicate (n + 1) ' ' ∧ EndsInHashes before

theorem eq_replicate_takeEndWhile (s : Chars) :
    Text.takeEndWhile (· == '#') s =
      List.replicate (Text.takeEndWhile (· == '#') s).length '#' := by
  rw [List.eq_replicate_length]
  intro c hc
  simpa using List.mem_takeWhile_imp (List.mem_reverse.mp hc)

theorem endsInHashes_iff :
    EndsInHashes s ↔ Text.takeEndWhile (· == '#') s ≠ [] ∧
      (Text.dropEndWhile (· == '#') s).getLast? = some ' ' := by
  constructor
  · rintro ⟨before, n, rfl⟩
    obtain ⟨htake, hdrop⟩ := Text.takeEndWhile_of_forall (p := (· == '#')) (c := ' ') rfl before
      (t := List.replicate (n + 1) '#') (by simp)
    rw [htake, hdrop]
    simp
  · rintro ⟨hsome, hlast⟩
    obtain ⟨before, hbefore⟩ := List.getLast?_eq_some_iff.mp hlast
    obtain ⟨n, hn⟩ := Nat.exists_eq_succ_of_ne_zero (mt List.length_eq_zero_iff.mp hsome)
    have hparts := Text.dropEndWhile_append_takeEndWhile (· == '#') s
    rw [eq_replicate_takeEndWhile, hn, hbefore] at hparts
    exact ⟨before, n, by rw [← hparts]; simp⟩

theorem not_endsInHashes_escaped (before : Chars) (n : Nat) :
    ¬EndsInHashes (before ++ ' ' :: '\\' :: List.replicate (n + 1) '#') := by
  obtain ⟨-, hdrop⟩ := Text.takeEndWhile_of_forall (p := (· == '#')) (c := '\\') rfl
    (before ++ [' ']) (t := List.replicate (n + 1) '#') (by simp)
  rw [List.append_assoc, List.singleton_append] at hdrop
  rw [endsInHashes_iff, hdrop, List.getLast?_concat]
  rintro ⟨-, hlast⟩
  exact absurd (Option.some.inj hlast) (by decide)

theorem escapeClosingHashes_of_ends (before : Chars) (n : Nat) :
    Writer.escapeClosingHashes (before ++ ' ' :: List.replicate (n + 1) '#') =
      before ++ ' ' :: '\\' :: List.replicate (n + 1) '#' := by
  obtain ⟨htake, hdrop⟩ := Text.takeEndWhile_of_forall (p := (· == '#')) (c := ' ') rfl before
    (t := List.replicate (n + 1) '#') (by simp)
  rw [Writer.escapeClosingHashes, htake, hdrop]
  simp

theorem escapeClosingHashes_of_not_ends (blanks : ∀ c ∈ s, Text.isBlank c → c = ' ')
    (first : s.head? ≠ some '#') (h : ¬EndsInHashes s) : Writer.escapeClosingHashes s = s := by
  rw [Writer.escapeClosingHashes, if_neg]
  rw [endsInHashes_iff] at h
  intro hcond
  rw [Bool.and_eq_true, Bool.not_eq_true', List.isEmpty_eq_false_iff] at hcond
  obtain ⟨hsome, halone⟩ := hcond
  have hparts := Text.dropEndWhile_append_takeEndWhile (· == '#') s
  split at halone
  · rename_i hnone
    -- the text would begin with a hash
    rw [List.getLast?_eq_none_iff] at hnone
    obtain ⟨n, hn⟩ := Nat.exists_eq_succ_of_ne_zero (mt List.length_eq_zero_iff.mp hsome)
    rw [hnone, List.nil_append, eq_replicate_takeEndWhile, hn, List.replicate_succ] at hparts
    exact first (by rw [← hparts]; rfl)
  · rename_i c hlast
    have hc : c = ' ' := by
      rw [Bool.or_eq_true, beq_iff_eq, beq_iff_eq] at halone
      refine halone.elim id fun htab => blanks c ?_ (by rw [htab]; rfl)
      rw [← hparts]
      exact List.mem_append_left _ (List.mem_of_getLast? hlast)
    exact h ⟨hsome, hc ▸ hlast⟩

/-- What is written for a text in a heading: signs that do not begin with a hash, and do not end in
hashes after a space. -/
theorem exists_marks_headingContent (blanks : ∀ c ∈ s, Text.isBlank c → c = ' ') :
    ∃ ms,
      AreSound ms ∧ ms.map Mark.sign = s ∧ Writer.headingContent (escape s) = ms.flatMap Mark.text ∧
      (ms.flatMap Mark.text).head? ≠ some '#' ∧ ¬EndsInHashes (ms.flatMap Mark.text) := by
  have hblank := blanks_escape blanks
  have hfirst : (escape s).head? ≠ some '#' := by
    obtain _ | ⟨c, cs⟩ := s
    · simp [escape, escapeFrom]
    · obtain ⟨d, ds, hcons, -, hother⟩ := exists_escape_cons c cs
      simpa [hcons] using hother '#' (by simp)
  have hline : Writer.headingContent (escape s) = Writer.escapeClosingHashes (escape s) := by
    rw [Writer.headingContent, if_neg]
    intro hlast
    have hmem := List.mem_of_getLast? (beq_iff_eq.mp hlast)
    exact absurd (hblank _ hmem rfl) (by decide)
  have hsound := areSound_marks s
  rw [hline]
  by_cases hends : EndsInHashes (escape s)
  · -- the first of the hashes is escaped
    obtain ⟨before, n, hbefore⟩ := hends
    obtain ⟨pre, hms, rfl⟩ := hsound.eq_of_hashes (by rw [← escape_eq, hbefore])
    have hsplit : marks s = pre ++ [⟨' ', false⟩] ++ List.replicate (n + 1) ⟨'#', false⟩ := by
      simp [hms]
    have htext :
        (pre ++ [⟨' ', false⟩] ++ ⟨'#', true⟩ :: List.replicate n ⟨'#', false⟩ : List Mark).flatMap
        Mark.text = pre.flatMap Mark.text ++ ' ' :: '\\' :: List.replicate (n + 1) '#' := by
      have hhashes : (List.replicate n (⟨'#', false⟩ : Mark)).flatMap Mark.text =
          List.replicate n '#' := by
        rw [flatMap_text_of_plain (by simp), List.map_replicate]
      simp [hhashes, Mark.text, List.replicate_succ]
    rw [hsplit] at hsound
    refine ⟨_, hsound.escape_hash, ?_, ?_, ?_, ?_⟩
    · rw [← map_sign_marks s, hsplit]
      simp [List.replicate_succ]
    · rw [htext, hbefore, escapeClosingHashes_of_ends]
    · rw [hbefore] at hfirst
      rw [htext]
      generalize pre.flatMap Mark.text = before at hfirst
      cases before with
      | nil => simp
      | cons c cs => exact hfirst
    · rw [htext]
      exact not_endsInHashes_escaped _ n
  · exact ⟨marks s, hsound, map_sign_marks s,
      by rw [escapeClosingHashes_of_not_ends hblank hfirst hends, escape_eq],
      by rwa [← escape_eq], by rwa [← escape_eq]⟩

/-- The text of a heading, where something stands before hashes at its end. -/
theorem headingText_of_bounded {lead t : Chars}
    (spaces : ∀ c ∈ lead, isSpace c) (bounded : Text.Bounded isSpace t)
    (ends : ∃ c ∈ (Text.dropEndWhile (· == '#') t).getLast?, isSpace c = false) :
    Start.headingText (lead ++ t) = t := by
  have htrim : trimSpaces (lead ++ t) = t := by
    rw [trimSpaces, List.dropWhile_append_of_pos spaces, bounded.dropWhile, bounded.dropEndWhile]
  obtain ⟨c, hc, hspace⟩ := ends
  rw [Start.headingText, htrim]
  simp [Option.mem_def.mp hc, hspace]

/-- Before the hashes that a text ends in stands something other than a space. -/
theorem exists_ink_before_hashes {lead t : Chars} (first : (lead ++ t).head? ≠ some '#')
    (spaces : ∀ c ∈ lead, c = ' ') (blanks : ∀ c ∈ t, Text.isBlank c → c = ' ')
    (bounded : Text.Bounded Text.isBlank t) (h : ¬EndsInHashes (lead ++ t)) :
    ∃ c ∈ (Text.dropEndWhile (· == '#') t).getLast?, isSpace c = false := by
  have hparts := Text.dropEndWhile_append_takeEndWhile (· == '#') t
  have hhashes := eq_replicate_takeEndWhile t
  obtain ⟨d, hd, hink⟩ := bounded.2
  cases hlast : (Text.dropEndWhile (· == '#') t).getLast? with
  | none =>
    rw [List.getLast?_eq_none_iff] at hlast
    rw [hlast, List.nil_append] at hparts
    rw [hparts] at hhashes
    obtain ⟨n, hn⟩ := Nat.exists_eq_succ_of_ne_zero
      (mt List.length_eq_zero_iff.mp (List.ne_nil_of_mem (List.mem_of_getLast? hd)))
    rw [hn] at hhashes
    obtain rfl | ⟨lead, c, rfl⟩ := lead.eq_nil_or_concat'
    · exact absurd (by rw [hhashes]; rfl) first
    · obtain rfl := spaces c (by simp)
      exact absurd ⟨lead, n, by rw [List.append_assoc, ← hhashes]; rfl⟩ h
  | some c =>
    refine ⟨c, rfl, ?_⟩
    by_contra hspace
    have hmem : c ∈ t := by
      rw [← hparts]
      exact List.mem_append_left _ (List.mem_of_getLast? hlast)
    have hblank : Text.isBlank c := by
      by_contra hblank
      exact hspace (isSpace_of_not_isBlank (by simpa using hblank))
    obtain rfl := blanks c hmem hblank
    have hsome : Text.takeEndWhile (· == '#') t ≠ [] := by
      intro hnil
      rw [hnil, List.append_nil] at hparts
      rw [hparts, Option.mem_def.mp hd] at hlast
      rw [Option.some.inj hlast] at hink
      cases hink
    obtain ⟨before, n, hends⟩ := endsInHashes_iff.mpr ⟨hsome, hlast⟩
    exact h ⟨lead ++ before, n, by rw [hends, List.append_assoc]⟩

theorem AreSound.endsInHashes (sound : AreSound ms) (h : EndsInHashes (ms.flatMap Mark.text)) :
    EndsInHashes (ms.map Mark.sign) := by
  obtain ⟨before, n, hbefore⟩ := h
  obtain ⟨pre, rfl, -⟩ := sound.eq_of_hashes hbefore
  exact ⟨pre.map Mark.sign, n, by simp⟩

/-- White space that is sound is written as it is. -/
theorem AreSound.flatMap_text_of_blank {a b : List Mark} (sound : AreSound (a ++ ms ++ b))
    (blanks : ∀ c ∈ ms.map Mark.sign, c = ' ') : ms.flatMap Mark.text = ms.map Mark.sign := by
  refine flatMap_text_of_plain fun m hm => ?_
  by_contra hescaped
  obtain ⟨pre, post, rfl⟩ := List.append_of_mem hm
  have hpunctuation :=
    (sound (a ++ pre) m (post ++ b) (by simp)).punctuation (by simpa using hescaped)
  rw [blanks m.sign (List.mem_map_of_mem hm)] at hpunctuation
  cases hpunctuation

theorem HasWordUnderscore.within {t : Chars} (h : HasWordUnderscore t) (a b : Chars) :
    HasWordUnderscore (a ++ t ++ b) := by
  obtain ⟨before, c, d, rest, rfl, hc, hd⟩ := h
  exact ⟨a ++ before, c, d, rest ++ b, by simp, hc, hd⟩

theorem KeepsReferences.between {a t b : Chars} (h : KeepsReferences (a ++ t ++ b)) :
    KeepsReferences t := by
  rintro before rest body rfl hbody
  exact h (a ++ before) (rest ++ b) body (by simp) (Text.referenceBody?_append hbody b)

/-- The line that is written after the signs of a heading, and the text that is read from it. -/
structure IsHeadingLine (content line text : Chars) : Prop where
  trail : ∃ trail, content = line ++ trail ∧ ∀ c ∈ trail, Text.isBlank c
  blanks : ∀ c ∈ line, Text.isBlank c → c = ' '
  last : ∃ c ∈ line.getLast?, Text.isBlank c = false
  reads : Start.headingText (' ' :: line) = text
  nonempty : text ≠ []

/-- The text of a heading, unless it ends in hashes between spaces, is read as texts that make it up
without the spaces at its ends. -/
theorem exists_heading_line (blanks : ∀ c ∈ s, Text.isBlank c → c = ' ') (ink : Text.trim s ≠ [])
    (firm : ¬EndsInLooseHashes s) (keeps : HasWordUnderscore s → KeepsReferences s) :
    ∃ line text, IsHeadingLine (Writer.headingContent (escape s)) line text ∧
      ∃ ts : List Chars, ts.flatten = Text.trim s ∧ (∀ t ∈ ts, Text.decodeReferences t = t) ∧
        ∀ ds, Inline.tokens ds text = ts.map Emphasis.textToken := by
  obtain ⟨ms, sound, hsigns, hcontent, first, hends⟩ := exists_marks_headingContent blanks
  obtain ⟨hparts, bounded⟩ := Text.trim_parts ink
  have hlead : ∀ c ∈ s.takeWhile Text.isBlank, c = ' ' := fun c hc =>
    blanks c ((List.takeWhile_prefix _).subset hc) (List.mem_takeWhile_imp hc)
  have htrail : ∀ c ∈ Text.takeEndWhile Text.isBlank s, c = ' ' := fun c hc =>
    blanks c (by rw [hparts]; exact List.mem_append_right _ hc)
      (List.mem_takeWhile_imp (List.mem_reverse.mp hc))
  have hinner : ∀ c ∈ Text.trim s, Text.isBlank c → c = ' ' := fun c hc =>
    blanks c (by rw [hparts]; simp [hc])
  rw [hcontent]
  generalize s.takeWhile Text.isBlank = lead at hparts hlead
  generalize Text.takeEndWhile Text.isBlank s = trail at hparts htrail
  generalize Text.trim s = inner at *
  clear hcontent
  subst hparts
  -- the marks of the spaces, and those of what stands between them
  obtain ⟨front, back, rfl, hfront, rfl⟩ := List.map_eq_append_iff.mp hsigns
  obtain ⟨before, between, rfl, rfl, rfl⟩ := List.map_eq_append_iff.mp hfront
  have apart : ∀ {ns : List Mark}, (∀ c ∈ ns.map Mark.sign, c = ' ') →
      ∀ m ∈ ns, Text.isAlphanumeric m.sign = false := by
    intro ns hns m hm
    rw [hns m.sign (List.mem_map_of_mem hm)]
    decide
  have hbetween : AreSound between := sound.between (apart hlead) (apart htrail)
  have hbefore : before.flatMap Mark.text = before.map Mark.sign :=
    AreSound.flatMap_text_of_blank (a := []) (b := between ++ back) (by simpa using sound) hlead
  have hback : back.flatMap Mark.text = back.map Mark.sign :=
    AreSound.flatMap_text_of_blank (a := before ++ between) (b := []) (by simpa using sound) htrail
  have hbounded := bounded_flatMap_text bounded
  have hblanks : ∀ c ∈ between.flatMap Mark.text, Text.isBlank c → c = ' ' := by
    intro c hc hblank
    obtain rfl | hc := mem_flatMap_text hc
    · cases hblank
    · exact hinner c hc hblank
  have htext : (before ++ between ++ back).flatMap Mark.text =
      before.map Mark.sign ++ between.flatMap Mark.text ++ back.map Mark.sign := by
    rw [List.flatMap_append, List.flatMap_append, hbefore, hback]
  have hsome : between.flatMap Mark.text ≠ [] := by
    obtain ⟨⟨c, hc, -⟩, -⟩ := hbounded
    exact List.ne_nil_of_mem (List.mem_of_head? hc)
  rw [htext] at first hends ⊢
  rw [List.head?_append_of_ne_nil _ (List.append_ne_nil_of_right_ne_nil _ hsome)] at first
  have hunclosed : ¬EndsInHashes (before.map Mark.sign ++ between.flatMap Mark.text) := by
    intro h
    cases hlength : back.length with
    | zero =>
      obtain rfl := List.length_eq_zero_iff.mp hlength
      exact hends (by simpa using h)
    | succ n =>
      have hfront : AreSound (before ++ between) :=
        AreSound.between (a := []) (b := back) sound (by simp) (apart htrail)
      rw [← hbefore, ← List.flatMap_append] at h
      have hspaces := List.eq_replicate_of_mem htrail
      rw [List.length_map, hlength] at hspaces
      exact firm ⟨_, n, by rw [hspaces, ← List.map_append], hfront.endsInHashes h⟩
  have hspaces : ∀ c ∈ ' ' :: before.map Mark.sign, isSpace c :=
    List.forall_mem_cons.mpr ⟨rfl, fun c hc => by rw [hlead c hc]; rfl⟩
  have hreads := headingText_of_bounded hspaces (hbounded.mono fun _ => isSpace_of_not_isBlank)
    (exists_ink_before_hashes first hlead hblanks hbounded hunclosed)
  refine ⟨before.map Mark.sign ++ between.flatMap Mark.text, between.flatMap Mark.text, ?_, ?_⟩
  · refine ⟨⟨_, rfl, fun c hc => by rw [htrail c hc]; rfl⟩, ?_, ?_, hreads, hsome⟩
    · intro c hc hblank
      obtain hc | hc := List.mem_append.mp hc
      · exact hlead c hc
      · exact hblanks c hc hblank
    · rw [List.getLast?_append_of_ne_nil _ hsome]
      exact hbounded.2
  · exact hbetween.exists_texts ⟨hinner, bounded⟩ fun h => (keeps (h.within _ _)).between

/-- A heading of texts. -/
def textHeading (level : Level) (ts : List String) : Node :=
  .branch (.heading level) none (ts.map fun t => .leaf (.text t) none)

theorem IsHeadingLine.isFramed {content line t : Chars} (h : IsHeadingLine content line t)
    (level : Level) : IsFramed [List.replicate level.number '#' ++ ' ' :: line] := by
  have hbreak : ∀ c, Text.isBlank c → c ≠ ' ' → c ≠ '#' →
      c ∉ List.replicate level.number '#' ++ ' ' :: line := by
    intro c hblank hspace hhash hmem
    obtain hc | hc := List.mem_append.mp hmem
    · exact hhash (List.eq_of_mem_replicate hc)
    · obtain hc | hc := List.mem_cons.mp hc
      · exact hspace hc
      · exact hspace (h.blanks c hc hblank)
  refine isFramed_singleton ⟨hbreak '\n' rfl (by decide) (by decide),
    hbreak '\r' rfl (by decide) (by decide)⟩ ⟨⟨'#', by cases level <;> rfl, rfl⟩, ?_⟩
  obtain ⟨c, hc, hink⟩ := h.last
  obtain ⟨cs, rfl⟩ := List.getLast?_eq_some_iff.mp hc
  refine ⟨c, ?_, hink⟩
  rw [← List.cons_append, ← List.append_assoc, List.getLast?_concat]
  rfl

/-- A heading is written on one line, and spaces at its end are left out. -/
theorem write_heading {style : Style} (escaped : style.escape) (level : Level) {text : String}
    {line t : Chars} (h : IsHeadingLine (Writer.headingContent (escape text.toList)) line t) :
    write style (documentOf [textHeading level [text]]) =
      .ok (String.ofList (List.replicate level.number '#' ++ ' ' :: line)) := by
  have happart : ∀ n ∈ [textHeading level [text]], StaysApart n := by
    simpa [textHeading] using staysApart_branch rfl (by simp) (by simp) (by simp [Container.kind])
  obtain ⟨trail, hcontent, hblank⟩ := h.trail
  have hsome : Writer.headingContent (escape text.toList) ≠ [] := by
    obtain ⟨c, hc, -⟩ := h.last
    rw [hcontent]
    exact List.ne_nil_of_mem (List.mem_append_left _ (List.mem_of_getLast? hc))
  have hwritten : Writer.IsWritten style (textHeading level [text]) _ :=
    Writer.isWritten_heading level (inlines_text escaped text) (if_pos escaped) hsome
  have hbounded := (h.isFramed level).bounded
  rw [Text.unlines_singleton] at hbounded
  rw [write_of_stacked happart (.cons hwritten .nil), stacked, List.flatMap_nil,
    List.append_nil, Text.unlines_singleton, hcontent, ← List.cons_append, ← List.append_assoc,
    hbounded.trim_append hblank]

theorem read_heading (level : Level) {content line t : Chars} (h : IsHeadingLine content line t)
    {ts : List Chars} (tokens : ∀ ds, Inline.tokens ds t = ts.map Emphasis.textToken) :
    fromMarkdown (.text (String.ofList (List.replicate level.number '#' ++ ' ' :: line))) none [] =
      .ok (documentOf
        [textHeading level (ts.map fun t => String.ofList (Text.decodeReferences t))]) := by
  have hreads : ReadsApart maxDepth [List.replicate level.number '#' ++ ' ' :: line]
      [textHeading level (ts.map fun t => String.ofList (Text.decodeReferences t))] := by
    refine readsApart_heading level h.reads h.nonempty fun ds => ?_
    rw [tokens, List.map_map]
    exact gives_texts ts
  have hread := fromMarkdown_of_readsAs hreads.readsAs (.inr (h.isFramed level))
  rwa [Text.unlines_singleton] at hread

/-- The text of a heading is read back as texts that make it up without the spaces at its ends. It
must not end in hashes between spaces, and if it holds an underscore within a word, each of its
references that hold special signs must stand for itself. -/
theorem fromMarkdown_toMarkdown_heading {options : Option Options} {overrides : Members}
    {style : Style} (hstyle : ComesTo options overrides style) (escaped : style.escape)
    (level : Level) {text : String} (blanks : ∀ c ∈ text.toList, Text.isBlank c → c = ' ')
    (ink : ∃ c ∈ text.toList, Text.isBlank c = false) (firm : ¬EndsInLooseHashes text.toList)
    (keeps : HasWordUnderscore text.toList → KeepsReferences text.toList) :
    ∃ ts : List String, String.join ts = Text.trimString text ∧
      (do let written ← toMarkdown (.tree (documentOf [textHeading level [text]])) options overrides
          fromMarkdown (.text written) none []) = .ok (documentOf [textHeading level ts]) := by
  have hink : Text.trim text.toList ≠ [] := by
    obtain ⟨c, hc, hink⟩ := ink
    intro hnil
    have hblank := Text.isBlank_of_trim_eq_nil hnil c hc
    rw [hink] at hblank
    cases hblank
  obtain ⟨line, t, hline, ts, hflatten, hdecoded, htokens⟩ :=
    exists_heading_line blanks hink firm keeps
  have hwrite := write_heading escaped level hline
  have hread := read_heading level hline htokens
  have hsame : (ts.map fun t => String.ofList (Text.decodeReferences t)) = ts.map String.ofList :=
    List.map_congr_left fun t ht => by rw [hdecoded t ht]
  rw [hsame] at hread
  generalize String.ofList (List.replicate level.number '#' ++ ' ' :: line) = written
    at hwrite hread
  refine ⟨ts.map String.ofList, ?_, ?_⟩
  · rw [← String.toList_inj, String.toList_join, List.flatMap_map, Text.trimString,
      String.toList_ofList, ← hflatten]
    simp [List.flatMap_def]
  · rw [toMarkdown_of_write hstyle hwrite]
    exact hread

/-- A text with spaces and a hash at its start, emphasis, an underscore within a word, and hashes at
its end. -/
def hashedText : String := "  # a_b *c* ##"

theorem fromMarkdown_toMarkdown_hashedText :
    ComesTo none [] {} ∧ (∀ c ∈ hashedText.toList, Text.isBlank c → c = ' ') ∧
      (∃ c ∈ hashedText.toList, Text.isBlank c = false) ∧ ¬EndsInLooseHashes hashedText.toList ∧
      (HasWordUnderscore hashedText.toList → KeepsReferences hashedText.toList) ∧
      ∃ ts : List String, String.join ts = Text.trimString hashedText ∧
        (do let written ← toMarkdown (.tree (documentOf [textHeading .two [hashedText]])) none []
            fromMarkdown (.text written) none []) = .ok (documentOf [textHeading .two ts]) := by
  have hblanks : ∀ c ∈ hashedText.toList, Text.isBlank c → c = ' ' := by
    simp [hashedText, Text.isBlank]
  have hink : ∃ c ∈ hashedText.toList, Text.isBlank c = false := ⟨'a', by decide, rfl⟩
  have hfirm : ¬EndsInLooseHashes hashedText.toList := by
    rintro ⟨before, n, hsplit, -⟩
    have hlast := congrArg List.getLast? hsplit
    rw [List.replicate_succ', ← List.append_assoc, List.getLast?_concat] at hlast
    exact absurd hlast (by decide)
  have hkeeps : KeepsReferences hashedText.toList := by
    intro before rest body hsplit
    have hmem : '&' ∈ hashedText.toList := by simp [hsplit]
    exact absurd hmem (by decide)
  exact ⟨comesTo_default, hblanks, hink, hfirm, fun _ => hkeeps,
    fromMarkdown_toMarkdown_heading comesTo_default rfl .two hblanks hink hfirm fun _ => hkeeps⟩

/-- A hash between spaces at the end is not escaped, so that it is read as the end of the
heading. -/
theorem fromMarkdown_toMarkdown_looseHash :
    Text.trimString "a # " = "a #" ∧
      (do let written ← toMarkdown (.tree (documentOf [textHeading .one ["a # "]])) none []
          fromMarkdown (.text written) none []) = .ok (documentOf [textHeading .one ["a"]]) := by
  have hline : IsHeadingLine (Writer.headingContent (escape "a # ".toList)) "a #".toList ['a'] :=
    { trail := ⟨[' '], by decide +kernel, by simp [Text.isBlank]⟩
      blanks := by simp [Text.isBlank]
      last := ⟨'#', rfl, rfl⟩
      reads := rfl
      nonempty := List.cons_ne_nil _ _ }
  have hwrite : write {} (documentOf [textHeading .one ["a # "]]) = .ok "# a #" :=
    write_heading rfl .one hline
  have hread : fromMarkdown (.text "# a #") none [] = .ok (documentOf [textHeading .one ["a"]]) :=
    rfl
  rw [toMarkdown_of_write comesTo_default hwrite]
  exact ⟨rfl, hread⟩

end Canonmark.Markdown
