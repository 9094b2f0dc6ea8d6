import Canonmark.Proofs.Markdown.Escaping
import Mathlib.Algebra.Group.Nat.Even
import Mathlib.Data.List.Induction

/-! Without its backslashes an escaped text is the text again, and nothing in it is markup that the
text did not mean to be. -/
namespace Canonmark.Markdown

variable {s before after : Chars} {ms : List Mark} {m : Mark} {c : Char}

/-- A mark that is known from what is written for it: what is escaped is punctuation, and no
backslash is left as it is. -/
structure Mark.IsReversible (m : Mark) : Prop where
  escaped : m.escaped → isPunctuation m.sign
  plain : m.escaped = false → m.sign ≠ '\\'

/-- Without their backslashes, marks are their signs. -/
theorem dropEscapes_marks (h : ∀ m ∈ ms, m.IsReversible) :
    dropEscapes (ms.flatMap Mark.text) = ms.map Mark.sign := by
  induction ms with
  | nil => rfl
  | cons m ms ih =>
    obtain ⟨hm, hms⟩ := List.forall_mem_cons.mp h
    obtain ⟨c, escaped⟩ := m
    rw [List.flatMap_cons, Mark.text, List.map_cons, ← ih hms]
    cases escaped with
    | true =>
      have hpunctuation : isPunctuation c := hm.escaped rfl
      rw [if_pos rfl, List.cons_append, List.singleton_append, dropEscapes, if_pos hpunctuation]
    | false => exact dropEscapes_cons (hm.plain rfl) _

/-- The number of backslashes that a text ends with. -/
def lastBackslashes (s : Chars) : Nat := (Text.takeEndWhile (· == '\\') s).length

theorem lastBackslashes_concat (s : Chars) (c : Char) :
    lastBackslashes (s ++ [c]) = if c = '\\' then lastBackslashes s + 1 else 0 := by
  rw [lastBackslashes, Text.takeEndWhile_concat]
  by_cases h : c = '\\'
  · simp [h, lastBackslashes]
  · simp [h]

/-- What is written ends with an even number of backslashes, since each backslash of the text is
escaped. -/
theorem even_lastBackslashes (h : ∀ m ∈ ms, m.IsReversible) :
    Even (lastBackslashes (ms.flatMap Mark.text)) := by
  induction ms using List.reverseRecOn with
  | nil => exact Even.zero
  | append_singleton ms m ih =>
    obtain ⟨hms, hm⟩ := List.forall_mem_append.mp h
    have hm : m.IsReversible := hm m (List.mem_singleton_self m)
    rw [List.flatMap_append, List.flatMap_singleton]
    by_cases hsign : m.sign = '\\'
    · have hescaped : m.escaped := by
        by_contra hplain
        exact hm.plain (by simpa using hplain) hsign
      have htext : ms.flatMap Mark.text ++ m.text = (ms.flatMap Mark.text ++ ['\\']) ++ ['\\'] := by
        simp [Mark.text, hescaped, hsign]
      rw [htext, lastBackslashes_concat, if_pos rfl, lastBackslashes_concat, if_pos rfl]
      exact (ih hms).add even_two
    · obtain ⟨t, ht⟩ : ∃ t, ms.flatMap Mark.text ++ m.text = t ++ [m.sign] := by
        rw [Mark.text]
        split
        · exact ⟨ms.flatMap Mark.text ++ ['\\'], by simp⟩
        · exact ⟨ms.flatMap Mark.text, rfl⟩
      rw [ht, lastBackslashes_concat, if_neg hsign]
      exact Even.zero

/-- Where a sign stands in what is written, its mark stands in the text. -/
theorem exists_mark (hc : c ≠ '\\') (h : ms.flatMap Mark.text = before ++ c :: after) :
    ∃ pre m post, ms = pre ++ m :: post ∧ m.sign = c ∧ after = post.flatMap Mark.text ∧
      before = pre.flatMap Mark.text ++ if m.escaped then ['\\'] else [] := by
  induction ms generalizing before with
  | nil => simp at h
  | cons m ms ih =>
    -- the sign belongs to the first mark, or to one of those after it
    have hlater : ∀ rest, ms.flatMap Mark.text = rest ++ c :: after → before = m.text ++ rest →
        ∃ pre n post, m :: ms = pre ++ n :: post ∧ n.sign = c ∧ after = post.flatMap Mark.text ∧
          before = pre.flatMap Mark.text ++ if n.escaped then ['\\'] else [] := by
      intro rest hrest hbefore
      obtain ⟨pre, n, post, rfl, hsign, hafter, rfl⟩ := ih hrest
      exact ⟨m :: pre, n, post, rfl, hsign, hafter,
        by rw [hbefore, List.flatMap_cons, List.append_assoc]⟩
    rw [List.flatMap_cons] at h
    cases hescaped : m.escaped with
    | true =>
      have htext : m.text = ['\\', m.sign] := if_pos hescaped
      rw [htext] at h hlater
      match before with
      | [] => exact absurd (List.cons.inj h).1.symm hc
      | [b] =>
        obtain ⟨rfl, hsign, hafter⟩ : '\\' = b ∧ m.sign = c ∧ ms.flatMap Mark.text = after := by
          simpa using h
        exact ⟨[], m, ms, rfl, hsign, hafter.symm, by simp [hescaped]⟩
      | b :: b' :: rest =>
        obtain ⟨rfl, rfl, hrest⟩ : '\\' = b ∧ m.sign = b' ∧
            ms.flatMap Mark.text = rest ++ c :: after := by
          simpa using h
        exact hlater rest hrest rfl
    | false =>
      have htext : m.text = [m.sign] := if_neg (by simp [hescaped])
      rw [htext] at h hlater
      match before with
      | [] =>
        obtain ⟨hsign, hafter⟩ : m.sign = c ∧ ms.flatMap Mark.text = after := by simpa using h
        exact ⟨[], m, ms, rfl, hsign, hafter.symm, by simp [hescaped]⟩
      | b :: rest =>
        obtain ⟨rfl, hrest⟩ : m.sign = b ∧ ms.flatMap Mark.text = rest ++ c :: after := by
          simpa using h
        exact hlater rest hrest rfl

/-- A sign is escaped where an odd number of backslashes stands before it. -/
theorem exists_mark_odd (h : ∀ m ∈ ms, m.IsReversible) (hc : c ≠ '\\')
    (hsplit : ms.flatMap Mark.text = before ++ c :: after) :
    ∃ pre m post, ms = pre ++ m :: post ∧ m.sign = c ∧ after = post.flatMap Mark.text ∧
      (m.escaped ↔ Odd (lastBackslashes before)) := by
  obtain ⟨pre, m, post, rfl, hsign, hafter, rfl⟩ := exists_mark hc hsplit
  have heven : Even (lastBackslashes (pre.flatMap Mark.text)) :=
    even_lastBackslashes fun m hm => h m (List.mem_append_left _ hm)
  refine ⟨pre, m, post, rfl, hsign, hafter, ?_⟩
  cases m.escaped with
  | true =>
    rw [if_pos rfl, lastBackslashes_concat, if_pos rfl]
    exact iff_of_true rfl heven.add_one
  | false =>
    rw [if_neg (by simp), List.append_nil, Nat.not_odd_iff_even.mpr heven |> iff_false_intro]
    simp

theorem map_sign_sublist (ms : List Mark) : (ms.map Mark.sign).Sublist (ms.flatMap Mark.text) := by
  induction ms with
  | nil => exact List.Sublist.slnil
  | cons m ms ih =>
    have htext : [m.sign].Sublist m.text := by
      rw [Mark.text]
      split
      · exact List.sublist_cons_self _ _
      · exact List.Sublist.refl _
    exact htext.append ih

/-- A beginning of what is written that holds no backslash is one of the text. -/
theorem prefix_map_sign (h : s <+: ms.flatMap Mark.text) (hs : '\\' ∉ s) :
    s <+: ms.map Mark.sign := by
  induction s generalizing ms with
  | nil => exact List.nil_prefix
  | cons c s ih =>
    rw [List.mem_cons, not_or] at hs
    cases ms with
    | nil => exact absurd h (by simp)
    | cons m ms =>
      rw [List.flatMap_cons, Mark.text] at h
      split at h
      · exact absurd (List.cons_prefix_cons.mp h).1.symm hs.1
      · obtain ⟨hc, h⟩ := List.cons_prefix_cons.mp h
        exact List.cons_prefix_cons.mpr ⟨hc, ih h hs.2⟩

/-- Backslashes make no reference: one that begins what is written begins the text as well, where no
semicolon is escaped. A backslash can stand in a name only, and the name is as good without it. -/
theorem exists_body_of_escaped (ends : ∀ m ∈ ms, m.sign = ';' → m.escaped = false) {body : Chars}
    (hbody : Text.IsReferenceBody body) (hstart : body <+: ms.flatMap Mark.text) :
    ∃ body', Text.IsReferenceBody body' ∧ body' <+: ms.map Mark.sign := by
  have hdigits : ∀ {p : Char → Bool} {digits : Chars}, p '\\' = false → (∀ d ∈ digits, p d) →
      '\\' ∉ digits := by
    intro p digits hp hall hmem
    rw [hall _ hmem] at hp
    cases hp
  cases hbody with
  | @hexadecimal x digits hx some hex =>
    have hmem := hdigits rfl hex
    have hfree : '\\' ∉ '#' :: x :: (digits ++ [';']) := by obtain rfl | rfl := hx <;> simp [hmem]
    exact ⟨_, .hexadecimal hx some hex, prefix_map_sign hstart hfree⟩
  | @decimal digits some few dec =>
    have hmem := hdigits rfl dec
    exact ⟨_, .decimal some few dec, prefix_map_sign hstart (by simp [hmem])⟩
  | @name name some few signs =>
    obtain ⟨after, hafter⟩ := hstart
    rw [List.append_assoc, List.singleton_append] at hafter
    obtain ⟨pre, m, post, rfl, hsign, -, hname⟩ := exists_mark (by decide) hafter.symm
    rw [ends m (by simp) hsign, if_neg (by simp), List.append_nil] at hname
    have hsub : (pre.map Mark.sign).Sublist name := hname ▸ map_sign_sublist pre
    have hsome : 1 ≤ (pre.map Mark.sign).length := by
      cases pre with
      | nil => rw [hname] at some; exact absurd some (by simp)
      | cons p pre => simp
    refine ⟨pre.map Mark.sign ++ [';'], .name hsome (hsub.length_le.trans few)
      (fun c hc => signs c (hsub.subset hc)), post.map Mark.sign, ?_⟩
    rw [List.map_append, List.map_cons, hsign, List.append_assoc, List.singleton_append]

theorem isReversible_of_mem (h : m ∈ marks s) : m.IsReversible := by
  obtain ⟨pre, post, hms⟩ := List.append_of_mem h
  refine ⟨isPunctuation_of_escaped hms, fun plain hsign => ?_⟩
  have hleft := (isLeft_of_plain hms plain).sign
  rw [hsign] at hleft
  cases hleft

theorem plain_of_semicolon (h : m ∈ marks s) (hsign : m.sign = ';') : m.escaped = false := by
  obtain ⟨pre, post, hms⟩ := List.append_of_mem h
  by_contra hescaped
  have hcases := escaped_cases hms (by simpa using hescaped)
  rw [hsign] at hcases
  exact absurd hcases (by simp [isAlwaysEscaped, isBlockMarker])

/-- What holds of a text that is escaped as `e`: it comes back when the backslashes are left out,
the signs of markup are escaped in `e`, and no ampersand that is not escaped begins a reference. -/
structure EscapesTo (s e : Chars) : Prop where
  restored : dropEscapes e = s
  guarded : ∀ before c after, e = before ++ c :: after →
    c ∈ ['\x60', '*', '\x7b', '\x7d', '[', ']', '<'] → Odd (lastBackslashes before)
  references : ∀ before after, e = before ++ '&' :: after → Even (lastBackslashes before) →
    ∀ body, Text.IsReferenceBody body → ¬body <+: after

theorem escapesTo_escape (s : Chars) : EscapesTo s (escape s) := by
  have hreversible : ∀ m ∈ marks s, m.IsReversible := fun _ => isReversible_of_mem
  rw [escape_eq]
  constructor
  · rw [dropEscapes_marks hreversible, map_sign_marks]
  · intro before c after hsplit hc
    have halways : ∀ d ∈ ['\x60', '*', '\x7b', '\x7d', '[', ']', '<'], isAlwaysEscaped d ∧
        d ≠ '\\' := by
      simp [isAlwaysEscaped]
    obtain ⟨hsign, hne⟩ := halways c hc
    obtain ⟨pre, m, post, hms, rfl, -, hodd⟩ := exists_mark_odd hreversible hne hsplit
    exact hodd.mp (escaped_of_isAlwaysEscaped hms hsign)
  · intro before after hsplit heven body hbody hstart
    obtain ⟨pre, m, post, hms, hsign, rfl, hodd⟩ := exists_mark_odd hreversible (by decide) hsplit
    have hplain : m.escaped = false := by
      rw [← Bool.not_eq_true, hodd, Nat.not_odd_iff_even]
      exact heven
    have hnone := (isLeft_of_plain hms hplain).reference hsign
    have hends : ∀ n ∈ post, n.sign = ';' → n.escaped = false :=
      fun n hn => plain_of_semicolon (s := s) (by rw [hms]; simp [hn])
    obtain ⟨body', hbody', hstart'⟩ := exists_body_of_escaped hends hbody hstart
    rw [Text.referenceBody?_eq_some_iff.mpr ⟨hbody', hstart'⟩] at hnone
    cases hnone

/-- A text that is written with escapes comes back without them, and no markup and no reference
begins in it. -/
theorem escapesTo_plainText {style : Style} (escaped : style.escape) (text : String) :
    EscapesTo text.toList (Writer.plainText style text) := by
  rw [Writer.plainText, if_pos escaped]
  exact escapesTo_escape text.toList

/-- A number with a point, a backslash before a reference, and a reference to which a backslash is
added. -/
theorem escapesTo_mixedText :
    ({} : Style).escape ∧
      EscapesTo "1. \\&lt; *a_* &_b;".toList (Writer.plainText {} "1. \\&lt; *a_* &_b;") :=
  ⟨rfl, escapesTo_plainText rfl _⟩

end Canonmark.Markdown
