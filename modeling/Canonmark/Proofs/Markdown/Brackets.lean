import Canonmark.Proofs.Markdown.Escaping
import Canonmark.Proofs.Markdown.Ink

/-! The brackets of links. An exclamation mark before the bracket of a link would make an image of
it, so it is escaped, but only if the link sees it: it looks at the last chunk of the content that
it stands in. -/
namespace Canonmark.Markdown.Writer

open Text (isBlank)

variable {style : Style} {delimiter : Chars} {inner : List Ink}

/-- Text, code, emphasis, links, line ends and variables. -/
def isPhrasing : Kind → Bool
  | .text | .code | .emph | .strong | .link | .softbreak | .linebreak | .templateVariable
      | .computedVariable =>
    true
  | _ => false

/-- A node of phrasing content with nothing else in it. -/
def IsPhrasing (n : Node) : Prop := IsMadeOf isPhrasing n

/-- No backslash at the end escapes what follows. -/
def EndsEven (s : Chars) : Prop := (Text.takeEndWhile (· == '\\') s).length % 2 = 0

/-- A text at the end of which stands an exclamation mark that is not escaped. -/
def EndsInBang (s : Chars) : Prop := ∃ t, s = t ++ ['!'] ∧ EndsEven t

/-- A text that escapes nothing after it, nor an exclamation mark at its own end. -/
structure IsClosed (s : Chars) : Prop where
  even : EndsEven s
  mark : ∀ t, s = t ++ ['!'] → EndsEven t

variable {s t : Chars}

theorem endsEven_concat {c : Char} (h : c ≠ '\\') (s : Chars) : EndsEven (s ++ [c]) := by
  rw [EndsEven, Text.takeEndWhile_concat, beq_false_of_ne h]
  rfl

theorem endsEven_escaped (h : EndsEven s) (c : Char) : EndsEven (s ++ ['\\', c]) := by
  rw [← List.singleton_append, ← List.append_assoc]
  by_cases hc : c = '\\'
  · subst hc
    rw [EndsEven] at h ⊢
    rw [Text.takeEndWhile_concat, if_pos (beq_self_eq_true _), Text.takeEndWhile_concat,
      if_pos (beq_self_eq_true _), List.length_append, List.length_append]
    simp only [List.length_singleton]
    omega
  · exact endsEven_concat hc _

theorem endsEven_append (h : EndsEven s) : EndsEven (s ++ t) ↔ EndsEven t := by
  induction t using List.reverseRecOn with
  | nil =>
    rw [List.append_nil]
    exact iff_of_true h rfl
  | append_singleton t c ih =>
    by_cases hc : c = '\\'
    · subst hc
      simp only [EndsEven, ← List.append_assoc, Text.takeEndWhile_concat, beq_self_eq_true, if_true,
        List.length_append, List.length_singleton] at ih ⊢
      omega
    · rw [← List.append_assoc]
      exact iff_of_true (endsEven_concat hc _) (endsEven_concat hc _)

theorem isClosed_nil : IsClosed [] := ⟨rfl, fun _ h => absurd h (by simp)⟩

theorem IsClosed.append (hs : IsClosed s) (ht : IsClosed t) : IsClosed (s ++ t) := by
  refine ⟨(endsEven_append hs.even).mpr ht.even, fun u hu => ?_⟩
  obtain rfl | ⟨t, c, rfl⟩ := t.eq_nil_or_concat'
  · exact hs.mark u (by simpa using hu)
  · rw [← List.append_assoc] at hu
    obtain ⟨rfl, hc⟩ := List.append_inj' hu rfl
    exact (endsEven_append hs.even).mpr (ht.mark t (by rw [hc]))

theorem isClosed_append_of_plain (h : t ≠ []) (plain : ∀ c ∈ t.getLast?, c ≠ '\\' ∧ c ≠ '!')
    (s : Chars) : IsClosed (s ++ t) := by
  obtain rfl | ⟨t, c, rfl⟩ := t.eq_nil_or_concat'
  · exact absurd rfl h
  obtain ⟨hback, hmark⟩ := plain c (by simp)
  rw [← List.append_assoc]
  refine ⟨endsEven_concat hback _, fun u hu => ?_⟩
  exact absurd (List.singleton_injective (List.append_inj' hu rfl).2) hmark

theorem ne_of_isBlank {c : Char} (h : isBlank c) : c ≠ '\\' ∧ c ≠ '!' := by
  constructor <;> rintro rfl <;> cases h

theorem endsEven_flatMap_text {ms : List Mark} (h : ∀ m ∈ ms, m.sign = '\\' → m.escaped) :
    EndsEven (ms.flatMap Mark.text) := by
  induction ms using List.reverseRecOn with
  | nil => rfl
  | append_singleton ms m ih =>
    rw [List.flatMap_append, List.flatMap_singleton, Mark.text]
    split
    · exact endsEven_escaped (ih fun k hk => h k (by simp [hk])) _
    · rename_i hplain
      exact endsEven_concat (fun hm => hplain (h m (by simp) hm)) _

/-- Exclamation marks are left as they are in plain text. -/
theorem isClosed_escape (s : Chars) : IsClosed (escape s) := by
  have hback : ∀ m ∈ marks s, m.sign = '\\' → m.escaped := by
    intro m hm hsign
    obtain ⟨pre, post, hmarks⟩ := List.append_of_mem hm
    exact escaped_of_isAlwaysEscaped hmarks (by rw [hsign]; rfl)
  rw [escape_eq]
  refine ⟨endsEven_flatMap_text hback, fun t ht => ?_⟩
  obtain hnil | ⟨ms, m, hms⟩ := (marks s).eq_nil_or_concat'
  · rw [hnil] at ht
    cases t <;> cases ht
  have hsign : m.sign = '!' := by
    have hlast := getLast?_flatMap_text (marks s)
    rw [ht, hms] at hlast
    simpa using hlast.symm
  have hplain : m.escaped = false := by
    by_contra h
    obtain h | h | h | ⟨-, h | h | h⟩ :=
      escaped_cases hms (by simpa using h) <;> rw [hsign] at h <;> cases h
  rw [hms, List.flatMap_append, List.flatMap_singleton, Mark.text, hplain, hsign] at ht
  obtain rfl := (List.append_inj' ht rfl).1
  exact endsEven_flatMap_text fun k hk => hback k (by rw [hms]; simp [hk])

/-- No sheltered bracket follows an exclamation mark that is not escaped. -/
def IsGuarded (s : List Ink) : Prop := ∀ a b, s = a ++ .bracket true :: b → ¬EndsInBang (signs a)

/-- What is known of the text after each visit. If it continues other content, it does not begin
with a sheltered bracket. -/
structure IsSettled (continued : Bool) (s : List Ink) : Prop where
  closed : IsClosed (signs s)
  guarded : IsGuarded s
  opening : continued → ∀ b, s ≠ .bracket true :: b

variable {continued : Bool} {S T : List Ink}

theorem not_endsInBang_append (h : ¬EndsInBang t) (some : t ≠ []) (even : EndsEven s) :
    ¬EndsInBang (s ++ t) := by
  rintro ⟨u, hu, hodd⟩
  obtain rfl | ⟨t, c, rfl⟩ := t.eq_nil_or_concat'
  · exact some rfl
  · rw [← List.append_assoc] at hu
    obtain ⟨rfl, hc⟩ := List.append_inj' hu rfl
    exact h ⟨t, by rw [hc], (endsEven_append even).mp hodd⟩

theorem IsGuarded.append (hS : IsGuarded S) (hT : IsGuarded T) (even : EndsEven (signs S))
    (seam : ∀ b, T = .bracket true :: b → ¬EndsInBang (signs S)) : IsGuarded (S ++ T) := by
  intro a b hab
  obtain ⟨rest, rfl, hrest⟩ | ⟨rest, rfl, hrest⟩ := List.append_eq_append_iff.mp hab
  · cases rest with
    | nil =>
      rw [List.append_nil]
      exact seam b (by simpa using hrest)
    | cons i rest =>
      rw [signs_append]
      exact not_endsInBang_append (hT _ b hrest) (by simp) even
  · cases rest with
    | nil =>
      rw [List.append_nil] at even seam
      exact seam b (by simpa using hrest.symm)
    | cons i rest =>
      obtain ⟨rfl, -⟩ := List.cons.inj hrest
      exact hS a rest rfl

theorem IsGuarded.left (h : IsGuarded (S ++ T)) : IsGuarded S := by
  rintro a b rfl
  exact h a (b ++ T) (by simp)

theorem IsGuarded.right (h : IsGuarded (S ++ T)) (even : EndsEven (signs S)) : IsGuarded T := by
  rintro a b rfl ⟨t, ht, heven⟩
  refine h (S ++ a) b (by simp) ⟨signs S ++ t, ?_, (endsEven_append even).mpr heven⟩
  rw [signs_append, ht, List.append_assoc]

theorem IsGuarded.append_plain (h : IsGuarded S) (plain : ∀ i ∈ T, i.isBracket = false) :
    IsGuarded (S ++ T) := by
  intro a b hab
  obtain ⟨rest, rfl, hrest⟩ | ⟨rest, rfl, hrest⟩ := List.append_eq_append_iff.mp hab
  · cases plain (.bracket true) (by rw [hrest]; simp)
  · cases rest with
    | nil => cases plain (.bracket true) (by rw [← List.nil_append T, ← hrest]; simp)
    | cons i rest =>
      obtain ⟨rfl, -⟩ := List.cons.inj hrest
      exact h a rest rfl

theorem isGuarded_nil : IsGuarded [] := fun a b h => by cases a <;> cases h

theorem isGuarded_of_plain (plain : ∀ i ∈ S, i.isBracket = false) : IsGuarded S :=
  isGuarded_nil.append_plain plain

theorem isBracket_of_mem_inked {i : Ink} (h : i ∈ inked s) : i.isBracket = false := by
  obtain ⟨c, -, rfl⟩ := List.mem_map.mp h
  rfl

theorem isBracket_of_blank (h : ∀ c ∈ signs S, isBlank c) : ∀ i ∈ S, i.isBracket = false := by
  intro i hi
  have hblank := h _ (List.mem_map_of_mem hi)
  cases i with
  | plain c => rfl
  | bracket sheltered => cases hblank

theorem endsEven_of_blank (h : ∀ c ∈ s, isBlank c) : EndsEven s := by
  obtain rfl | ⟨s, c, rfl⟩ := s.eq_nil_or_concat'
  · rfl
  · exact endsEven_concat (ne_of_isBlank (h c (by simp))).1 s

theorem isSettled_nil (continued : Bool) : IsSettled continued [] :=
  ⟨isClosed_nil, isGuarded_nil, fun _ _ h => by cases h⟩

theorem isSettled_inked (h : IsClosed s) : IsSettled continued (inked s) := by
  refine ⟨by rwa [signs_inked], isGuarded_of_plain fun _ => isBracket_of_mem_inked,
    fun _ b hb => ?_⟩
  cases s <;> cases hb

theorem IsSettled.append {continued' : Bool} (hS : IsSettled continued S)
    (hT : IsSettled continued' T) (h : continued ∨ S ≠ [] → continued') :
    IsSettled continued (S ++ T) := by
  refine ⟨?_, hS.guarded.append hT.guarded hS.closed.even fun b hb => ?_, fun hcontinued b hb => ?_⟩
  · rw [signs_append]
    exact hS.closed.append hT.closed
  · by_cases hnil : S = []
    · subst hnil
      rintro ⟨t, ht, -⟩
      cases t <;> cases ht
    · exact absurd hb (hT.opening (h (.inr hnil)) b)
  · cases S with
    | nil => exact hT.opening (h (.inl hcontinued)) b hb
    | cons i S =>
      obtain ⟨rfl, -⟩ := List.cons.inj hb
      exact hS.opening hcontinued S rfl

/-- Delimiters and what follows them are no brackets. -/
theorem isSettled_enclosed {lead body rest : List Ink}
    (some : delimiter ≠ []) (plain : ∀ c ∈ delimiter, c ≠ '\\' ∧ c ≠ '!')
    (blank : ∀ c ∈ signs lead, isBlank c) (hbody : IsGuarded body)
    (hrest : ∀ i ∈ rest, i.isBracket = false) (closed : ∀ s, IsClosed (s ++ signs rest)) :
    IsSettled continued (lead ++ inked delimiter ++ body ++ rest) := by
  obtain ⟨init, c, rfl⟩ := (List.eq_nil_or_concat' delimiter).resolve_left some
  obtain ⟨hback, hmark⟩ := plain c (by simp)
  have hhead : ∀ i ∈ lead ++ inked (init ++ [c]), i.isBracket = false := by
    intro i hi
    obtain hi | hi := List.mem_append.mp hi
    · exact isBracket_of_blank blank i hi
    · exact isBracket_of_mem_inked hi
  have hsigns : signs (lead ++ inked (init ++ [c])) = signs lead ++ init ++ [c] := by simp
  refine ⟨?_, ?_, fun _ b hb => ?_⟩
  · rw [signs_append]
    exact closed _
  · refine IsGuarded.append_plain (.append (isGuarded_of_plain hhead) hbody ?_ fun _ _ => ?_) hrest
    · rw [hsigns]
      exact endsEven_concat hback _
    · rintro ⟨t, ht, -⟩
      rw [hsigns] at ht
      exact hmark (List.singleton_injective (List.append_inj' ht rfl).2)
  · have hfirst : Ink.bracket true ∈ (lead ++ inked (init ++ [c])).head? := by
      have hsome : lead ++ inked (init ++ [c]) ≠ [] := by simp [inked]
      rw [← List.head?_append_of_ne_nil _ hsome, ← List.append_assoc _ body, hb]
      rfl
    cases hhead _ (List.mem_of_mem_head? hfirst)

theorem isSettled_inkDelimited (some : delimiter ≠ []) (plain : ∀ c ∈ delimiter, c ≠ '\\' ∧ c ≠ '!')
    (h : IsSettled false inner) : IsSettled continued (inkDelimited delimiter inner) := by
  by_cases hnil : Text.trim (signs inner) = []
  · have hplain := isBracket_of_blank (Text.isBlank_of_trim_eq_nil hnil)
    rw [inkDelimited_of_blank hnil]
    refine ⟨h.closed, h.guarded, fun _ b hb => ?_⟩
    cases hplain (.bracket true) (by rw [hb]; simp)
  obtain ⟨lead, trail, hparts, hlead, htrail, hcut⟩ := exists_parts delimiter hnil
  have hblank : ∀ c ∈ signs lead, isBlank c :=
    fun c hc => Text.isBlank_of_mem_takeWhile (hlead ▸ hc)
  have hafter : ∀ c ∈ signs trail, isBlank c :=
    fun c hc => Text.isBlank_of_mem_takeEndWhile (htrail ▸ hc)
  have hguarded : IsGuarded (inkTrim inner) :=
    (hparts ▸ h.guarded).left.right (endsEven_of_blank hblank)
  have hplain : ∀ c ∈ delimiter ++ signs trail, c ≠ '\\' ∧ c ≠ '!' := by
    intro c hc
    obtain hc | hc := List.mem_append.mp hc
    · exact plain c hc
    · exact ne_of_isBlank (hafter c hc)
  rw [hcut]
  split
  · rename_i hbreak
    simp only [Bool.and_eq_true, beq_iff_eq] at hbreak
    have hsome : signs trail ≠ [] := List.ne_nil_of_mem (List.mem_of_head? hbreak.1)
    obtain ⟨last, hlast⟩ := List.dropLast_prefix (inkTrim inner)
    rw [List.append_assoc _ _ trail, List.append_assoc _ (inked delimiter)]
    refine isSettled_enclosed some plain hblank (hlast ▸ hguarded).left (fun i hi => ?_) fun s => ?_
    · simp only [List.mem_append] at hi
      obtain hi | hi | hi := hi
      · exact isBracket_of_mem_inked hi
      · exact isBracket_of_mem_inked hi
      · exact isBracket_of_blank hafter i hi
    · rw [signs_append, signs_append, ← List.append_assoc, ← List.append_assoc]
      exact isClosed_append_of_plain hsome
        (fun c hc => ne_of_isBlank (hafter c (List.mem_of_getLast? hc))) _
  · rw [List.append_assoc _ _ trail]
    refine isSettled_enclosed some plain hblank hguarded (fun i hi => ?_) fun s => ?_
    · obtain hi | hi := List.mem_append.mp hi
      · exact isBracket_of_mem_inked hi
      · exact isBracket_of_blank hafter i hi
    · rw [signs_append, signs_inked]
      exact isClosed_append_of_plain (by simp [some])
        (fun c hc => hplain c (List.mem_of_getLast? hc)) s

/-- A bracket after a text that it may stand after, and what the link writes then. -/
theorem isSettled_bracket {sheltered : Bool} {content : List Ink} (even : EndsEven (signs S))
    (guarded : IsGuarded S) (hsheltered : sheltered → ¬EndsInBang (signs S))
    (opening : continued → ∀ b, S ≠ .bracket true :: b) (hsome : continued → sheltered → S ≠ [])
    (hcontent : IsSettled false content) (target : Chars) :
    IsSettled continued (S ++ (.bracket sheltered :: content ++ inked (target ++ [')']))) := by
  have hbracket : IsGuarded (.bracket sheltered :: content) := by
    rw [← List.singleton_append]
    refine IsGuarded.append (fun a b hab => ?_) hcontent.guarded
      (endsEven_concat (c := '[') (by decide) []) fun _ _ => ?_
    · obtain ⟨rfl, -, -⟩ : a = [] ∧ _ ∧ _ := by simpa [List.singleton_eq_append_iff] using hab
      rintro ⟨t, ht, -⟩
      cases t <;> cases ht
    · rintro ⟨t, ht, -⟩
      cases t with
      | nil => cases ht
      | cons c t => cases t <;> cases ht
  refine ⟨?_, ?_, fun hcontinued b hb => ?_⟩
  · rw [signs_append, signs_append, signs_inked, ← List.append_assoc, ← List.append_assoc]
    exact isClosed_append_of_plain (by simp) (by simp) _
  · refine guarded.append (hbracket.append_plain fun i hi => isBracket_of_mem_inked hi) even
      fun b hb => ?_
    exact hsheltered (Ink.bracket.inj (List.cons.inj hb).1)
  · cases S with
    | nil => exact hsome hcontinued (Ink.bracket.inj (List.cons.inj hb).1) rfl
    | cons i S =>
      obtain ⟨rfl, -⟩ := List.cons.inj hb
      exact opening hcontinued S rfl

/-- The chunks before a link: there is none, the last one does not end in an exclamation mark, or
that is escaped. -/
theorem inkGuard_cases (escape : style.escape) (out : List (List Ink)) :
    (out = [] ∧ inkGuard style out = []) ∨
      (∃ chunk rest, out = chunk :: rest ∧ (signs chunk).getLast? ≠ some '!' ∧ inkGuard style out =
        chunk :: rest) ∨ ∃ init mark rest, out = (init ++ [mark]) :: rest ∧ mark.sign = '!' ∧
        inkGuard style out = (init ++ inked ['\\', '!']) :: rest := by
  cases out with
  | nil => exact .inl ⟨rfl, rfl⟩
  | cons chunk rest =>
    rw [inkGuard, escape, Bool.true_and]
    split
    · rename_i hmark
      rw [beq_iff_eq] at hmark
      obtain rfl | ⟨init, mark, rfl⟩ := chunk.eq_nil_or_concat'
      · cases hmark
      · refine .inr (.inr ⟨init, mark, rest, rfl, by simpa [signs] using hmark, ?_⟩)
        rw [List.dropLast_concat]
    · rename_i hmark
      exact .inr (.inl ⟨chunk, rest, rfl, by simpa using hmark, rfl⟩)

theorem isSettled_link {out : List (List Ink)} {content : List Ink} (escape : style.escape)
    (hout : IsSettled continued (inkText out)) (hcontent : IsSettled false content)
    (target : Chars) :
    IsSettled continued (inkText (inkGuard style out) ++
      (.bracket (isSheltered continued out) :: content ++ inked (target ++ [')']))) := by
  obtain ⟨rfl, hguard⟩ | ⟨chunk, rest, rfl, hlast, hguard⟩
      | ⟨init, mark, rest, rfl, hmark, hguard⟩ :=
    inkGuard_cases escape out
  · rw [hguard]
    refine isSettled_bracket (S := []) rfl isGuarded_nil (fun _ => ?_) (fun _ b hb => by cases hb)
      ?_ hcontent target
    · rintro ⟨t, ht, -⟩
      cases t <;> cases ht
    · intro hcontinued hsheltered
      rw [isSheltered, hcontinued] at hsheltered
      cases hsheltered
  · rw [hguard]
    have hsome : isSheltered continued (chunk :: rest) → chunk ≠ [] := by
      rintro hsheltered rfl
      cases hsheltered
    refine isSettled_bracket hout.closed.even hout.guarded (fun hsheltered => ?_) hout.opening
      (fun _ hsheltered => ?_) hcontent target
    · rintro ⟨t, ht, -⟩
      have hsigns : signs chunk ≠ [] := by simpa [signs] using hsome hsheltered
      rw [inkText_cons, signs_append] at ht
      have hlast' := congrArg List.getLast? ht
      rw [List.getLast?_append_of_ne_nil _ hsigns, List.getLast?_concat] at hlast'
      exact hlast hlast'
    · simp [hsome hsheltered]
  · have hsigns : signs (inkText ((init ++ [mark]) :: rest)) =
        signs (inkText rest ++ init) ++ ['!'] := by
      simp [signs, hmark]
    have heven : EndsEven (signs (inkText rest ++ init)) := hout.closed.mark _ hsigns
    have hbefore : IsGuarded (inkText rest ++ init) := by
      refine IsGuarded.left (T := [mark]) ?_
      rw [List.append_assoc, ← inkText_cons]
      exact hout.guarded
    have htext : inkText (inkGuard style ((init ++ [mark]) :: rest)) =
        inkText rest ++ init ++ inked ['\\', '!'] := by
      rw [hguard, inkText_cons, List.append_assoc]
    rw [htext]
    refine isSettled_bracket ?_ (hbefore.append_plain fun i hi => isBracket_of_mem_inked hi)
      (fun _ => ?_) (fun hcontinued b hb => ?_) (fun _ _ => by simp [inked]) hcontent target
    · rw [signs_append, signs_inked]
      exact endsEven_escaped heven '!'
    · rintro ⟨t, ht, hodd⟩
      rw [signs_append, signs_inked] at ht
      have hlonger : signs (inkText rest ++ init) ++ ['\\'] ++ ['!'] = t ++ ['!'] := by
        rw [List.append_assoc]
        exact ht
      have htext := List.append_cancel_right hlonger
      rw [← htext, endsEven_append heven] at hodd
      cases hodd
    · cases hrest : inkText rest ++ init with
      | nil =>
        rw [hrest] at hb
        cases hb
      | cons i before =>
        rw [hrest, List.cons_append] at hb
        obtain ⟨rfl, -⟩ := List.cons.inj hb
        refine hout.opening hcontinued (before ++ [mark]) ?_
        rw [inkText_cons, ← List.append_assoc, hrest, List.cons_append]

theorem isSettled_inkEach {ns : List Node} {indent : Nat}
    (h : ∀ n ∈ ns, ∀ out, IsSettled continued (inkText out) →
      IsSettled continued (inkText (inkNode style indent continued out n)))
    {out : List (List Ink)} (hout : IsSettled continued (inkText out)) :
    IsSettled continued (inkText (inkEach style indent continued out ns)) := by
  induction ns generalizing out with
  | nil => rwa [inkEach]
  | cons n ns ih =>
    obtain ⟨hn, hns⟩ := List.forall_mem_cons.mp h
    rw [inkEach]
    exact ih hns (hn out hout)

theorem isClosed_codeSpan (t : Chars) : IsClosed (codeSpan t) := by
  have hmark : fence (longestRun 0 t + 1) = fence (longestRun 0 t) ++ ['\x60'] :=
    List.replicate_succ'
  have hplain : ∀ s, IsClosed (s ++ fence (longestRun 0 t + 1)) := by
    intro s
    rw [hmark, ← List.append_assoc]
    exact isClosed_append_of_plain (by simp) (by simp) _
  rw [codeSpan]
  split
  · have htext := hplain (fence (longestRun 0 t + 1) ++ ' ' :: t ++ [' '])
    rwa [List.append_assoc _ [' '], List.singleton_append] at htext
  · exact hplain _

theorem isClosed_newline (indent : Nat) (s : Chars) : IsClosed (s ++ newline indent) := by
  refine isClosed_append_of_plain (by simp [newline]) (fun c hc => ne_of_isBlank ?_) s
  obtain rfl | hc := List.mem_cons.mp (List.mem_of_getLast? hc)
  · rfl
  · rw [List.eq_of_mem_replicate hc]
    rfl

theorem IsSettled.plain {out : List (List Ink)} (hout : IsSettled continued (inkText out))
    (hs : IsClosed s) : IsSettled continued (inkText (inked s :: out)) := by
  rw [inkText_cons]
  exact hout.append (isSettled_inked hs) fun _ => rfl

/-- One visit leaves the text settled. -/
theorem isSettled_inkNode (escape : style.escape) {n : Node}
    (phrasing : IsPhrasing n) (indent : Nat) {continued : Bool}
    {out : List (List Ink)} (hout : IsSettled continued (inkText out)) :
    IsSettled continued (inkText (inkNode style indent continued out n)) := by
  have htext : ∀ t : String, IsClosed (plainText style t) := by
    intro t
    rw [plainText, if_pos escape]
    exact isClosed_escape _
  induction n using Node.inductionOnChildren generalizing continued out with
  | leaf x span =>
    have hself := IsMadeOf.self phrasing
    cases x with
    | text t =>
      rw [inkNode]
      exact hout.plain (htext t)
    | code t =>
      rw [inkNode]
      exact hout.plain (isClosed_codeSpan t.toList)
    | softbreak =>
      rw [inkNode]
      exact hout.plain (isClosed_newline indent [])
    | linebreak =>
      rw [inkNode]
      exact hout.plain (isClosed_newline indent ['\\'])
    | _ => cases hself
  | branch c span children ih =>
    have hself := IsMadeOf.self phrasing
    have hcontent : ∀ continued,
        IsSettled continued (inkText (inkEach style indent continued [] children)) :=
      fun continued => isSettled_inkEach (fun n hn _ => ih n hn (IsMadeOf.below phrasing n hn))
        (isSettled_nil continued)
    cases c with
    | emph | strong =>
      rw [inkNode, inkText_cons]
      exact hout.append (isSettled_inkDelimited (by simp) (by simp) (hcontent false)) fun _ => rfl
    | link dest title =>
      rw [inkNode, inkText_cons]
      exact isSettled_link escape hout (hcontent false) _
    | templateVariable _ value | computedVariable value =>
      rw [inkNode]
      split
      · exact hout.plain (htext value)
      · rw [inkText_cons]
        refine hout.append (hcontent _) fun h => ?_
        obtain rfl | hsome := h
        · rfl
        · cases out with
          | nil => exact absurd rfl hsome
          | cons chunk rest => exact Bool.or_true continued
    | _ => cases hself
  | foreign v => cases IsMadeOf.self phrasing

/-- The number of brackets in a text. -/
def brackets (s : List Ink) : Nat := s.countP Ink.isBracket

/-- The link that a node is. -/
def linkAt : Node → List Unit
  | .branch (.link _ _) _ _ => [()]
  | _ => []

@[simp] theorem brackets_inked (s : Chars) : brackets (inked s) = 0 :=
  List.countP_eq_zero.mpr fun i hi => by simp [isBracket_of_mem_inked hi]

@[simp] theorem brackets_append (s t : List Ink) : brackets (s ++ t) = brackets s + brackets t :=
  List.countP_append

/-- Delimiters take no bracket away. -/
theorem brackets_inkDelimited (delimiter : Chars) (inner : List Ink) :
    brackets (inkDelimited delimiter inner) = brackets inner := by
  by_cases hnil : Text.trim (signs inner) = []
  · rw [inkDelimited_of_blank hnil]
  obtain ⟨lead, trail, hparts, -, -, hcut⟩ := exists_parts delimiter hnil
  conv => rhs; rw [hparts]
  rw [hcut]
  generalize inkTrim inner = body
  split
  · rename_i hbreak
    simp only [Bool.and_eq_true, beq_iff_eq] at hbreak
    obtain rfl | ⟨init, last, rfl⟩ := body.eq_nil_or_concat'
    · simp
    · have hlast : last.isBracket = false := by
        cases last with
        | plain c => rfl
        | bracket sheltered =>
          have hodd := hbreak.2
          have hsigns : signs (init ++ [.bracket sheltered]) = signs init ++ ['['] := by
            simp [signs, Ink.sign]
          rw [hsigns, Text.takeEndWhile_concat] at hodd
          cases hodd
      have hnone : brackets [last] = 0 := by simp [brackets, hlast]
      simp only [List.dropLast_concat, brackets_append, brackets_inked, hnone, Nat.add_zero]
  · simp only [brackets_append, brackets_inked, Nat.add_zero]

theorem brackets_inkGuard (out : List (List Ink)) :
    brackets (inkText (inkGuard style out)) = brackets (inkText out) := by
  cases hescape : style.escape with
  | false => cases out <;> simp [inkGuard, hescape]
  | true =>
    obtain ⟨rfl, hguard⟩ | ⟨chunk, rest, rfl, -, hguard⟩ | ⟨init, mark, rest, rfl, hmark, hguard⟩ :=
      inkGuard_cases hescape out
    · rw [hguard]
    · rw [hguard]
    · have hnone : brackets [mark] = 0 := by
        cases mark with
        | plain c => rfl
        | bracket sheltered => cases hmark
      rw [hguard, inkText_cons, inkText_cons]
      simp only [brackets_append, brackets_inked, hnone]

theorem brackets_inkEach {ns : List Node} {indent : Nat}
    (h : ∀ n ∈ ns, ∀ out, brackets (inkText (inkNode style indent continued out n)) =
      brackets (inkText out) + (gather linkAt n).length)
    (out : List (List Ink)) :
    brackets (inkText (inkEach style indent continued out ns)) =
      brackets (inkText out) + (gatherAll linkAt ns).length := by
  induction ns generalizing out with
  | nil => rw [inkEach, gatherAll_nil, List.length_nil, Nat.add_zero]
  | cons n ns ih =>
    obtain ⟨hn, hns⟩ := List.forall_mem_cons.mp h
    rw [inkEach, ih hns, hn, gatherAll_cons, List.length_append, Nat.add_assoc]

/-- Each link writes one bracket. -/
theorem brackets_inkNode {n : Node} (phrasing : IsPhrasing n) (indent : Nat) (continued : Bool)
    (out : List (List Ink)) :
    brackets (inkText (inkNode style indent continued out n)) =
      brackets (inkText out) + (gather linkAt n).length := by
  induction n using Node.inductionOnChildren generalizing continued out with
  | leaf x span =>
    have hself := IsMadeOf.self phrasing
    cases x with
    | text t | code t | softbreak | linebreak =>
      rw [inkNode, inkText_cons, brackets_append, brackets_inked]
      simp [linkAt]
    | _ => cases hself
  | branch c span children ih =>
    have hself := IsMadeOf.self phrasing
    have hcontent : ∀ continued, brackets (inkText (inkEach style indent continued [] children)) =
        (gatherAll linkAt children).length := by
      intro continued
      rw [brackets_inkEach (fun n hn => ih n hn (IsMadeOf.below phrasing n hn) continued)]
      exact Nat.zero_add _
    cases c with
    | emph | strong =>
      rw [inkNode, inkText_cons, brackets_append, brackets_inkDelimited, hcontent]
      simp [linkAt]
    | link dest title =>
      have hcons : ∀ s : List Ink, brackets (.bracket (isSheltered continued out) :: s) =
          brackets s + 1 :=
        fun s =>
        List.countP_cons_of_pos rfl
      rw [inkNode, inkText_cons, brackets_append, brackets_inkGuard, brackets_append, hcons,
        brackets_inked, hcontent]
      simp [linkAt]
    | templateVariable _ value | computedVariable value =>
      rw [inkNode, inkText_cons, brackets_append]
      split
      · rename_i hempty
        simp [linkAt, List.isEmpty_iff.mp hempty]
      · rw [hcontent]
        simp [linkAt]
    | _ => cases hself
  | foreign v => cases IsMadeOf.self phrasing

theorem isSteady_linkAt : IsSteady linkAt where
  text _ _ _ _ _ := rfl
  code _ _ _ _ _ := rfl
  emph _ _ := rfl
  strong _ _ := rfl
  container c _ _ _ _ _ := by cases c <;> rfl

/-- Content in which each link has its bracket, and none that is sheltered makes an image. -/
structure KeepsLinks (children : List Node) (s : List Ink) : Prop where
  brackets : brackets s = (gatherAll linkAt children).length
  guarded : IsGuarded s

variable {children : List Node}

theorem isPhrasing_pushAll (phrasing : ∀ n ∈ children, IsPhrasing n) :
    ∀ n ∈ Merge.pushAll [] children, IsPhrasing n := isMadeOf_pushAll rfl rfl rfl rfl phrasing

theorem IsPhrasing.isInline {n : Node} (h : IsPhrasing n) : IsMadeOf isInlineKind n := by
  intro m hm
  have hphrasing := h m hm
  cases hkind : m.kind? with
  | none =>
    rw [hkind] at hphrasing
    cases hphrasing
  | some k =>
    rw [hkind] at hphrasing
    cases k <;> first | rfl | cases hphrasing

theorem keepsLinks_paragraphInk (escape : style.escape) (phrasing : ∀ n ∈ children, IsPhrasing n)
    (indent : Nat) : KeepsLinks children (paragraphInk style indent children) := by
  have hphrasing := isPhrasing_pushAll phrasing
  refine ⟨?_, ?_⟩
  · rw [paragraphInk, brackets_inkEach fun n hn => brackets_inkNode (hphrasing n hn) indent false,
      gatherAll_pushAll_nil isSteady_linkAt]
    exact Nat.zero_add _
  · exact (isSettled_inkEach (fun n hn _ hout =>
      isSettled_inkNode escape (hphrasing n hn) indent hout) (isSettled_nil false)).guarded

theorem KeepsLinks.trim {s : List Ink} (h : KeepsLinks children s) :
    KeepsLinks children (inkTrim s) := by
  by_cases hnil : Text.trim (signs s) = []
  · have hblank := isBracket_of_blank (Text.isBlank_of_trim_eq_nil hnil)
    have hzero : Writer.brackets s = 0 := List.countP_eq_zero.mpr fun i hi => by simp [hblank i hi]
    have htrim : inkTrim s = [] := List.map_eq_nil_iff.mp ((signs_inkTrim s).trans hnil)
    rw [htrim]
    exact ⟨by rw [← h.brackets, hzero]; rfl, isGuarded_nil⟩
  · obtain ⟨lead, trail, hparts, hlead, htrail, -⟩ := exists_parts [] hnil
    have hbefore : ∀ c ∈ signs lead, isBlank c :=
      fun c hc => Text.isBlank_of_mem_takeWhile (hlead ▸ hc)
    have hafter : ∀ c ∈ signs trail, isBlank c :=
      fun c hc => Text.isBlank_of_mem_takeEndWhile (htrail ▸ hc)
    have hzero : ∀ t, (∀ c ∈ signs t, isBlank c) → Writer.brackets t = 0 := fun t ht =>
      List.countP_eq_zero.mpr fun i hi => by simp [isBracket_of_blank ht i hi]
    obtain ⟨hbrackets, hguarded⟩ := h
    rw [hparts] at hbrackets hguarded
    rw [brackets_append, brackets_append, hzero lead hbefore, hzero trail hafter, Nat.zero_add,
      Nat.add_zero] at hbrackets
    exact ⟨hbrackets, hguarded.left.right (endsEven_of_blank hbefore)⟩

/-- A paragraph of phrasing content is written, on its own and in any layout, as a text in which no
link becomes an image that sees what stands before it. -/
theorem keepsLinks_of_isPhrasing (escape : style.escape)
    (span : Option Span) (phrasing : ∀ n ∈ children, IsPhrasing n) :
    (∀ l, node style (merged (.branch .paragraph span children)) l =
        .ok () { l with out := signs (paragraphInk style l.indent children) :: l.out } ∧
      KeepsLinks children (paragraphInk style l.indent children)) ∧
    write style (documentOf [.branch .paragraph span children]) =
        .ok (String.ofList (signs (inkTrim (paragraphInk style 0 children)))) ∧
      KeepsLinks children (inkTrim (paragraphInk style 0 children)) := by
  have hinline : ∀ n ∈ children, IsMadeOf isInlineKind n := fun n hn => (phrasing n hn).isInline
  refine ⟨fun l => ⟨node_paragraph hinline span l, keepsLinks_paragraphInk escape phrasing _⟩, ?_,
    (keepsLinks_paragraphInk escape phrasing 0).trim⟩
  rw [write_paragraph hinline, signs_inkTrim]

/-- A link after an exclamation mark. -/
def wowLink : List Node :=
  [.leaf (.text "wow!") none, .branch (.link "u" "") none [.leaf (.text "x") none]]

theorem keepsLinks_wowLink :
    write {} (documentOf [.branch .paragraph none wowLink]) = .ok "wow\\![x](u)" ∧
      inkTrim (paragraphInk {} 0 wowLink) =
        inked ['w', 'o', 'w', '\\', '!'] ++
          .bracket true :: inked ['x', ']', '(', 'u', ')'] ∧
      KeepsLinks wowLink (inkTrim (paragraphInk {} 0 wowLink)) := by
  have phrasing : ∀ n ∈ wowLink, IsPhrasing n := by
    unfold IsPhrasing IsMadeOf
    decide +kernel
  have hink : inkTrim (paragraphInk {} 0 wowLink) = inked ['w', 'o', 'w', '\\', '!'] ++
      .bracket true :: inked ['x', ']', '(', 'u', ')'] := by
    decide +kernel
  obtain ⟨-, hwrite, hkeeps⟩ :=
    keepsLinks_of_isPhrasing (show ({} : Style).escape from rfl) none phrasing
  refine ⟨?_, hink, hkeeps⟩
  rw [hwrite, hink]
  rfl

/-- A bracket after an exclamation mark: the link is written as an image. -/
def BecomesImage (children : List Node) : Prop :=
  ∃ a s b, inkTrim (paragraphInk {} 0 children) = a ++ .bracket s :: b ∧ EndsInBang (signs a)

/-- A link after an exclamation mark and an empty emphasis. -/
def markBeforeEmphasis : List Node :=
  [.leaf (.text "x!") none, .branch .emph none [],
    .branch (.link "u" "") none [.leaf (.text "a") none]]

/-- A link that a variable begins with, after an exclamation mark. -/
def markBeforeVariable : List Node :=
  [.leaf (.text "x!") none,
    .branch (.templateVariable "v" "") none [.branch (.link "u" "") none [.leaf (.text "a") none]]]

theorem becomesImage_of_ink {children : List Node} (phrasing : ∀ n ∈ children, IsPhrasing n)
    (h : inkTrim (paragraphInk {} 0 children) =
      inked ['x', '!'] ++ .bracket false :: inked ['a', ']', '(', 'u', ')']) :
    BecomesImage children ∧ write {}
      (documentOf [.branch .paragraph none children]) = .ok "x![a](u)" := by
  refine ⟨⟨_, _, _, h, ['x'], rfl, rfl⟩, ?_⟩
  rw [write_paragraph fun n hn => (phrasing n hn).isInline, ← signs_inkTrim, h]
  rfl

/-- The exclamation mark stands in a chunk that the link does not look at. -/
theorem write_unseenMarks :
    ((∀ n ∈ markBeforeEmphasis, IsPhrasing n) ∧ BecomesImage markBeforeEmphasis ∧
      write {} (documentOf [.branch .paragraph none markBeforeEmphasis]) = .ok "x![a](u)") ∧
    (∀ n ∈ markBeforeVariable, IsPhrasing n) ∧ BecomesImage markBeforeVariable ∧
      write {} (documentOf [.branch .paragraph none markBeforeVariable]) = .ok "x![a](u)" := by
  have hemphasis : ∀ n ∈ markBeforeEmphasis, IsPhrasing n := by
    unfold IsPhrasing IsMadeOf
    decide +kernel
  have hvariable : ∀ n ∈ markBeforeVariable, IsPhrasing n := by
    unfold IsPhrasing IsMadeOf
    decide +kernel
  exact ⟨⟨hemphasis, becomesImage_of_ink hemphasis (by decide +kernel)⟩, hvariable,
    becomesImage_of_ink hvariable (by decide +kernel)⟩

end Canonmark.Markdown.Writer
