import Canonmark.Proofs.Markdown.TextTokens

/-! Marks from which nothing but texts are read. -/
namespace Canonmark.Markdown

/-- Signs that are escaped wherever they stand, and underscores. -/
def isSpecial (c : Char) : Bool := isAlwaysEscaped c || c == '_'

/-- Each reference that holds a special sign stands for itself. -/
def KeepsReferences (s : Chars) : Prop :=
  ∀ before rest body, s = before ++ '&' :: rest → Text.referenceBody? rest = some body →
    (∃ c ∈ body, isSpecial c) → Text.referenceText body = '&' :: body

/-- What keeps a mark between signs from being read as markup or as part of a reference. A reference
that begins with an escaped ampersand can be completed only by signs that are special. -/
structure Mark.IsSound (before : Chars) (m : Mark) (after : Chars) : Prop where
  punctuation : m.escaped → isPunctuation m.sign
  semicolon : m.escaped → m.sign ≠ ';'
  special : m.escaped → '&' ∈ before → m.sign ≠ '&' → ';' ∈ after → isSpecial m.sign
  sign : m.escaped = false → isAlwaysEscaped m.sign = false
  reference : m.escaped = false → m.sign = '&' → Text.referenceBody? after = none
  underscore : m.escaped = false → m.sign = '_' →
    isAlphanumeric? before.getLast? ∧ isAlphanumeric? after.head?

/-- Marks each of which is sound where it stands. -/
def AreSound (ms : List Mark) : Prop :=
  ∀ pre m post, ms = pre ++ m :: post → m.IsSound (pre.map Mark.sign) (post.map Mark.sign)

variable {s : Chars} {ms pre post : List Mark} {m : Mark} {g : Group} {gs : List Group}

/-- The marks of a text are sound. -/
theorem areSound_marks (s : Chars) : AreSound (marks s) := by
  intro pre m post h
  have hleft := isLeft_of_plain h
  have hcases := escaped_cases h
  refine {
    punctuation := isPunctuation_of_escaped h
    semicolon := fun escaped hsign => ?_
    special := fun escaped hand other _ => ?_
    sign := fun plain => (hleft plain).sign
    reference := fun plain => (hleft plain).reference
    underscore := fun plain hsign => ?_ }
  · obtain h | h | h | ⟨-, h | h | h⟩ :=
      hcases escaped <;> rw [hsign] at h <;> exact absurd h (by decide)
  · obtain hsign | hsign | hsign | ⟨hdigits, -⟩ := hcases escaped
    · simp [isSpecial, hsign]
    · exact absurd hsign other
    · simp [isSpecial, hsign]
    · obtain ⟨p, hp, hsign⟩ := List.mem_map.mp hand
      exact absurd (hsign ▸ hdigits p hp) (by decide)
  · have hbetween := (hleft plain).underscore hsign
    rwa [← List.getLast?_map, ← List.head?_map] at hbetween

/-- No reference begins with an ampersand that is left as it is. -/
theorem AreSound.not_reference {rest body : Chars} {others : List Mark}
    (sound : AreSound ms) (h : ms = pre ++ ⟨'&', false⟩ :: others)
    (hsigns : others.map Mark.sign = rest ++ post.map Mark.sign) :
    Text.referenceBody? rest ≠ some body := by
  intro hbody
  have hnone := (sound _ _ _ h).reference rfl rfl
  rw [hsigns, Text.referenceBody?_append hbody] at hnone
  cases hnone

/-- No reference lies within escaped signs, since its semicolon is not escaped. -/
theorem AreSound.not_prefix {signs body : Chars} (sound : AreSound ms)
    (h : ms = pre ++ signs.map (⟨·, true⟩) ++ post) (hshape : Text.IsReferenceBody body) :
    ¬ body <+: signs := by
  rintro ⟨t, rfl⟩
  obtain ⟨c, cs, rfl, _⟩ := hshape.exists_name
  have hms : ms = (pre ++ (c :: cs).map (⟨·, true⟩)) ++ ⟨';', true⟩ ::
      (t.map (⟨·, true⟩) ++ post) := by
    simp [h]
  exact absurd rfl ((sound _ _ _ hms).semicolon rfl)

/-- In signs that are all escaped or none, no reference is to be decoded. -/
theorem AreSound.decode_group (sound : AreSound ms) (h : ms = pre ++ g.marks ++ post) :
    Text.decodeReferences g.signs = g.signs := by
  refine Text.decodeReferences_eq_self fun before rest body hsigns hbody => ?_
  obtain ⟨escaped, signs⟩ := g
  obtain rfl : signs = before ++ '&' :: rest := hsigns
  have hms : ms = (pre ++ before.map (⟨·, escaped⟩)) ++ ⟨'&', escaped⟩ ::
      (rest.map (⟨·, escaped⟩) ++ post) := by
    simp [h, Group.marks]
  cases escaped with
  | false =>
    have hsigns : (rest.map (Mark.mk · false) ++ post).map Mark.sign =
        rest ++ post.map Mark.sign := by
      simp [Function.comp_def]
    exact absurd hbody (sound.not_reference hms hsigns)
  | true =>
    obtain ⟨hshape, hstart⟩ := Text.referenceBody?_eq_some_iff.mp hbody
    have hsplit : ms = pre ++ (before ++ ['&']).map (⟨·, true⟩) ++
        rest.map (⟨·, true⟩) ++ post := by
      simp [hms]
    exact absurd hstart (sound.not_prefix hsplit hshape)

theorem exists_group {before rest : Chars} {c : Char} (h : signsOf gs = before ++ c :: rest) :
    ∃ a g b u v, gs = a ++ g :: b ∧ g.signs = u ++ c :: v ∧ before = signsOf a ++ u ∧
    rest = v ++ signsOf b := by
  induction gs generalizing before with
  | nil => simp [signsOf] at h
  | cons g gs ih =>
    have hcons : g.signs ++ signsOf gs = before ++ c :: rest := h
    obtain ⟨u, rfl, hrest⟩ | ⟨u, hu, hrest⟩ := List.append_eq_append_iff.mp hcons
    · obtain ⟨a, k, b, v, w, rfl, hk, rfl, hw⟩ := ih hrest
      exact ⟨g :: a, k, b, v, w, rfl, hk, by simp [signsOf], hw⟩
    · obtain _ | ⟨d, v⟩ := u
      · obtain ⟨a, k, b, v, w, rfl, hk, hv, hw⟩ := @ih [] hrest.symm
        refine ⟨g :: a, k, b, v, w, rfl, hk, ?_, hw⟩
        rw [List.append_nil] at hu
        rw [← hu, signsOf, List.flatMap_cons, List.append_assoc]
        change g.signs = g.signs ++ (signsOf a ++ v)
        rw [← hv, List.append_nil]
      · obtain ⟨rfl, rfl⟩ := List.cons.inj hrest
        exact ⟨[], g, gs, before, v, rfl, hu, rfl, rfl⟩

theorem isSpecial_of_isSign {c : Char} (h : Emphasis.isSign c) : isSpecial c := by
  obtain rfl | rfl : c = '*' ∨ c = '_' := by simpa [Emphasis.isSign] using h
  · rfl
  · rfl

theorem map_sign_groups (gs : List Group) :
    (gs.flatMap Group.marks).map Mark.sign = signsOf gs := by
  simp [signsOf, Group.marks, List.map_flatMap, Function.comp_def]

/-- An escaped sign in the body of a reference, of which the ampersand stands before it, is
special. -/
theorem AreSound.special_of_body (sound : AreSound ms) {before after : List Mark} {c : Char}
    (h : ms = before ++ ⟨c, true⟩ :: after) (hand : '&' ∈ before.map Mark.sign) {u v w : Chars}
    (hshape : Text.IsReferenceBody (u ++ c :: v)) (hrest : after.map Mark.sign = v ++ w) :
    isSpecial c := by
  obtain ⟨d, ds, hbody, hnone⟩ := hshape.exists_name
  have hsound := sound _ _ _ h
  have hsome : ';' ∈ v := by
    obtain rfl | ⟨v, e, rfl⟩ := v.eq_nil_or_concat'
    · obtain rfl : c = ';' := List.singleton_inj.mp (List.append_inj' hbody rfl).2
      exact absurd rfl (hsound.semicolon rfl)
    · rw [← List.cons_append, ← List.append_assoc] at hbody
      obtain rfl : e = ';' := List.singleton_inj.mp (List.append_inj' hbody rfl).2
      simp
  have hother : c ≠ '&' := by
    rintro rfl
    exact hnone (by simp)
  exact hsound.special rfl hand hother (by rw [hrest]; exact List.mem_append_left _ hsome)

/-- A reference that is not completed in the group after its ampersand holds a special sign. -/
theorem AreSound.exists_special {body : Chars} {others : List Mark} (sound : AreSound ms)
    (hand : '&' ∈ pre.map Mark.sign) (h : ms = pre ++ (gs.flatMap Group.marks ++ others))
    (stretches : AreStretches gs) (hshape : Text.IsReferenceBody body) (hbody : body <+: signsOf gs)
    (apart : ∀ g ∈ gs.head?, ¬ body <+: g.signs) : ∃ c ∈ body, isSpecial c := by
  obtain ⟨b, bs, hcons, -⟩ := hshape.exists_name
  have hsome : body ≠ [] := by simp [hcons]
  -- an escaped sign in the body is special, since an ampersand is before it
  have hescaped : ∀ (before : List Mark) {c : Char} {after : List Mark} {v w : Chars},
      ms = pre ++ before ++ ⟨c, true⟩ :: after → body = before.map Mark.sign ++ c :: v →
        after.map Mark.sign = v ++ w → isSpecial c := by
    intro before c after v w hms hsplit hrest
    exact sound.special_of_body hms (by simp [hand]) (hsplit ▸ hshape) hrest
  obtain _ | ⟨⟨escaped, signs⟩, gs⟩ := gs
  · exact absurd (List.prefix_nil.mp hbody) hsome
  obtain ⟨hx, hgs⟩ := List.forall_mem_cons.mp stretches.some
  obtain ⟨c, cs, rfl⟩ := List.exists_cons_of_ne_nil hx
  have hall : body <+: (c :: cs) ++ signsOf gs := hbody
  obtain ⟨v, hv, hstart⟩ : ∃ v, body = c :: v ∧ v <+: cs ++ signsOf gs := by
    obtain ⟨d, ds, rfl⟩ := List.exists_cons_of_ne_nil hsome
    have hcons : d :: ds <+: c :: (cs ++ signsOf gs) := hall
    obtain ⟨rfl, hds⟩ := List.cons_prefix_cons.mp hcons
    exact ⟨ds, rfl, hds⟩
  have hc : c ∈ body := by simp [hv]
  by_cases hsign : Emphasis.isSign c
  · exact ⟨c, hc, isSpecial_of_isSign hsign⟩
  cases escaped with
  | true =>
    obtain ⟨w, hw⟩ := hstart
    refine ⟨c, hc,
      hescaped [] (v := v) (w := w ++ others.map Mark.sign) (by simpa [Group.marks] using h) hv ?_⟩
    rw [← List.append_assoc v w, hw]
    simp [Function.comp_def, map_sign_groups]
  | false =>
    have hplain := Emphasis.not_isSign_of_alike (by simpa using hsign)
      (stretches.alike ⟨false, c :: cs⟩ (by simp) rfl)
    obtain hinside | ⟨t, rfl⟩ := List.prefix_or_prefix_of_prefix hall (List.prefix_append _ _)
    · exact absurd hinside (apart _ rfl)
    -- the body goes on in the next stretch, whose first sign is escaped or a sign of emphasis
    have hrest : t <+: signsOf gs := (List.prefix_append_right_inj (c :: cs)).mp hall
    obtain _ | ⟨d, t⟩ := t
    · exact absurd (by simp) (apart _ rfl)
    obtain _ | ⟨⟨escaped, signs⟩, gs⟩ := gs
    · cases List.prefix_nil.mp hrest
    obtain ⟨e, es, rfl⟩ := List.exists_cons_of_ne_nil (hgs ⟨escaped, signs⟩ (by simp))
    have hcons : d :: t <+: e :: (es ++ signsOf gs) := hrest
    obtain ⟨rfl, w, hw⟩ := List.cons_prefix_cons.mp hcons
    have hd : d ∈ c :: cs ++ d :: t := by simp
    cases escaped with
    | true =>
      refine ⟨d, hd, hescaped ((c :: cs).map (⟨·, false⟩)) (v := t) (w := w ++ others.map Mark.sign)
        (by simpa [Group.marks] using h) (by simp [Function.comp_def]) ?_⟩
      rw [← List.append_assoc t w, hw]
      simp [Function.comp_def, map_sign_groups]
    | false =>
      obtain ⟨e, he⟩ : ∃ e, e ∈ (c :: cs).getLast? := ⟨_, List.getLast?_eq_some_getLast (by simp)⟩
      have hother : Emphasis.isSign e = false := by
        obtain rfl | hmem := List.mem_cons.mp (List.mem_of_mem_getLast? he)
        · simpa using hsign
        · exact hplain e hmem
      have hparted : Emphasis.sameStretch e d = false := (stretches.parted.rel rfl).2 e he d rfl
      rw [Emphasis.sameStretch, hother] at hparted
      exact ⟨d, hd, isSpecial_of_isSign (by simpa using hparted)⟩

/-- Texts that are joined hold no reference that is to be decoded. -/
theorem AreSound.decode_joined (sound : AreSound ms) (keeps : KeepsReferences (ms.map Mark.sign))
    (h : ms = pre ++ gs.flatMap Group.marks ++ post) (stretches : AreStretches gs)
    (joined : IsJoined gs) : Text.decodeReferences (signsOf gs) = signsOf gs := by
  refine Text.decodeReferences_eq_self fun before rest body hsigns hbody => ?_
  obtain ⟨a, ⟨escaped, signs⟩, b, u, v, rfl, hg, rfl, rfl⟩ := exists_group hsigns
  obtain rfl : signs = u ++ '&' :: v := hg
  have hms : ms = (pre ++ (a.flatMap Group.marks ++ u.map (⟨·, escaped⟩))) ++ ⟨'&', escaped⟩ ::
      (v.map (⟨·, escaped⟩) ++ (b.flatMap Group.marks ++ post)) := by
    simp [h, Group.marks]
  cases escaped with
  | false =>
    have hsigns : (v.map (Mark.mk · false) ++ (b.flatMap Group.marks ++ post)).map Mark.sign =
        v ++ signsOf b ++ post.map Mark.sign := by simp [Function.comp_def, map_sign_groups]
    exact absurd hbody (sound.not_reference hms hsigns)
  | true =>
    generalize pre ++ (a.flatMap Group.marks ++ u.map (⟨·, true⟩)) = before at hms
    have hs : ms.map Mark.sign = before.map Mark.sign ++ '&' ::
        (v ++ signsOf b ++ post.map Mark.sign) := by
      rw [hms]
      simp [Function.comp_def, map_sign_groups]
    refine keeps _ _ body hs (Text.referenceBody?_append hbody _) ?_
    obtain ⟨hshape, hstart⟩ := Text.referenceBody?_eq_some_iff.mp hbody
    have hstretches : AreStretches b :=
      @AreStretches.right [⟨true, u ++ '&' :: v⟩] b stretches.right
    have hbefore : '&' ∈ (before ++ [(⟨'&', true⟩ : Mark)]).map Mark.sign := by simp
    obtain rfl | hv := eq_or_ne v []
    · have hsplit : ms = before ++ [⟨'&', true⟩] ++ (b.flatMap Group.marks ++ post) := by simp [hms]
      refine sound.exists_special hbefore hsplit hstretches hshape hstart ?_
      -- the next text does not complete the reference
      intro x hx hinside
      obtain ⟨b, rfl⟩ := List.head?_eq_some_iff.mp hx
      have hjoined := joined (a ++ [⟨true, u ++ ['&']⟩]) x b (by simp)
      rw [Emphasis.completesReference, Text.referenceBody?_of_prefix hbody hinside] at hjoined
      simp [signsOf] at hjoined
    · have hparted : AreStretches (⟨true, v⟩ :: b) := by
        have halike : (⟨true, v⟩ : Group).escaped = false → v.IsChain fun c d =>
            Emphasis.sameStretch c d := by
          simp
        have happart : ∀ g ∈ b.head?, Group.Parted ⟨true, v⟩ g := by
          intro g hg hsame
          obtain ⟨b, rfl⟩ := List.head?_eq_some_iff.mp hg
          exact absurd (stretches.right.parted.rel hsame).1 (by simp)
        exact ⟨List.forall_mem_cons.mpr ⟨hv, hstretches.some⟩,
          List.forall_mem_cons.mpr ⟨halike, hstretches.alike⟩, hstretches.parted.cons happart⟩
      have hsplit : ms = before ++ [⟨'&', true⟩] ++
          ((⟨true, v⟩ :: b : List Group).flatMap Group.marks ++ post) := by
        simp [hms, Group.marks]
      have hescaped : ms = before ++ [⟨'&', true⟩] ++ v.map (⟨·, true⟩) ++
          (b.flatMap Group.marks ++ post) := by
        simp [hms]
      refine sound.exists_special hbefore hsplit hparted hshape hstart ?_
      rintro x hx
      cases hx
      exact sound.not_prefix hescaped hshape

/-- A line of text, in which there is no white space but spaces, and none at its ends. -/
structure IsTextLine (s : Chars) : Prop where
  blanks : ∀ c ∈ s, Text.isBlank c → c = ' '
  bounded : Text.Bounded Text.isBlank s

/-- An underscore within a word. -/
def HasWordUnderscore (s : Chars) : Prop :=
  ∃ before a b rest, s = before ++ a :: '_' :: b :: rest ∧ Text.isAlphanumeric a ∧
    Text.isAlphanumeric b

theorem AreSound.isReadable (sound : AreSound ms)
    (blanks : ∀ c ∈ ms.map Mark.sign, Text.isBlank c → c = ' ') : ∀ m ∈ ms, m.IsReadable := by
  intro m hm
  obtain ⟨pre, post, hms⟩ := List.append_of_mem hm
  have hsound := sound pre m post hms
  refine ⟨hsound.punctuation, fun plain => .inl (hsound.sign plain), fun hsign => ?_⟩
  have hblank := blanks m.sign (List.mem_map_of_mem hm)
  rw [hsign] at hblank
  exact absurd (hblank rfl) (by decide)

theorem isLetter_of_isAlphanumeric {c : Char} (blanks : Text.isBlank c → c = ' ')
    (h : Text.isAlphanumeric c) : IsLetter c := by
  refine ⟨h, ?_⟩
  cases hblank : Text.isBlank c with
  | false => rfl
  | true =>
    rw [blanks hblank] at h
    exact absurd h (by decide)

theorem exists_of_isAlphanumeric? {o : Option Mark} (h : isAlphanumeric? (o.map Mark.sign)) :
    ∃ m ∈ o, Text.isAlphanumeric m.sign := by
  obtain _ | m := o
  · cases h
  · exact ⟨m, rfl, h⟩

/-- A sign of emphasis that is left as it is is an underscore within a word. -/
theorem AreSound.underscore (sound : AreSound ms) (h : ms = pre ++ m :: post)
    (plain : m.escaped = false) (sign : Emphasis.isSign m.sign) :
    m.sign = '_' ∧ (∃ p ∈ pre.getLast?, Text.isAlphanumeric p.sign) ∧
      ∃ q ∈ post.head?, Text.isAlphanumeric q.sign := by
  have hsound := sound pre m post h
  have hsign : m.sign = '*' ∨ m.sign = '_' := by simpa [Emphasis.isSign] using sign
  obtain hstar | hunderscore := hsign
  · have halways := hsound.sign plain
    rw [hstar] at halways
    cases halways
  · have hbetween := hsound.underscore plain hunderscore
    rw [List.getLast?_map, List.head?_map] at hbetween
    exact ⟨hunderscore, exists_of_isAlphanumeric? hbetween.1, exists_of_isAlphanumeric? hbetween.2⟩

theorem AreSound.isWordly (sound : AreSound ms)
    (blanks : ∀ c ∈ ms.map Mark.sign, Text.isBlank c → c = ' ') : IsWordly ms := by
  intro pre m post h plain sign
  obtain ⟨hsign, ⟨p, hp, hletter⟩, q, hq, hletter'⟩ := sound.underscore h plain sign
  obtain ⟨before, hpre⟩ := List.getLast?_eq_some_iff.mp hp
  obtain ⟨after, hpost⟩ := List.head?_eq_some_iff.mp hq
  have hblanks : ∀ x ∈ pre ++ m :: post, Text.isBlank x.sign → x.sign = ' ' := by
    intro x hx
    exact blanks x.sign (by rw [h]; exact List.mem_map_of_mem hx)
  exact ⟨hsign, ⟨p, hp, isLetter_of_isAlphanumeric (hblanks p (by simp [hpre])) hletter⟩,
    q, hq, isLetter_of_isAlphanumeric (hblanks q (by simp [hpost])) hletter'⟩

theorem AreSound.hasWordUnderscore (sound : AreSound ms) (h : ms = pre ++ m :: post)
    (plain : m.escaped = false) (sign : Emphasis.isSign m.sign) :
    HasWordUnderscore (ms.map Mark.sign) := by
  obtain ⟨hsign, ⟨p, hp, hletter⟩, q, hq, hletter'⟩ := sound.underscore h plain sign
  obtain ⟨before, rfl⟩ := List.getLast?_eq_some_iff.mp hp
  obtain ⟨after, rfl⟩ := List.head?_eq_some_iff.mp hq
  refine ⟨before.map Mark.sign, p.sign, q.sign, after.map Mark.sign, ?_, hletter, hletter'⟩
  rw [h]
  simp [hsign]

theorem AreStretches.of_mem_flatten {js : List (List Group)} (h : AreStretches js.flatten)
    {j : List Group} (hj : j ∈ js) : ∃ a b, js.flatten = a ++ j ++ b ∧ AreStretches j := by
  obtain ⟨xs, ys, rfl⟩ := List.append_of_mem hj
  refine ⟨xs.flatten, ys.flatten, by simp, ?_⟩
  rw [List.flatten_append, List.flatten_cons] at h
  exact ⟨fun g hg => h.some g (by simp [hg]), fun g hg => h.alike g (by simp [hg]),
    h.parted.right_of_append.left_of_append⟩

theorem signsOf_stretches (ms : List Mark) : signsOf (stretches ms) = ms.map Mark.sign := by
  rw [← map_sign_groups, marks_stretches]

theorem signsOf_flatten (js : List (List Group)) :
    signsOf js.flatten = (js.map signsOf).flatten := by
  induction js with
  | nil => rfl
  | cons j js ih =>
    rw [List.flatten_cons, List.map_cons, List.flatten_cons, ← ih, signsOf, List.flatMap_append]
    rfl

/-- Each stretch by itself holds no reference that is to be decoded. -/
theorem AreSound.decode_stretches (sound : AreSound ms) :
    ∀ g ∈ stretches ms, Text.decodeReferences g.signs = g.signs := by
  intro g hg
  obtain ⟨a, b, hsplit⟩ := List.append_of_mem hg
  refine @AreSound.decode_group ms (a.flatMap Group.marks) (b.flatMap Group.marks) g sound ?_
  rw [← marks_stretches ms, hsplit]
  simp

/-- Nor do stretches that are joined. -/
theorem AreSound.decode_joined_stretches (sound : AreSound ms)
    (keeps : KeepsReferences (ms.map Mark.sign)) {js : List (List Group)}
    (flatten : js.flatten = stretches ms) (joined : ∀ j ∈ js, IsJoined j) :
    ∀ j ∈ js, Text.decodeReferences (signsOf j) = signsOf j := by
  intro j hj
  have hstretches := areStretches_stretches ms
  rw [← flatten] at hstretches
  obtain ⟨a, b, hsplit, hj'⟩ := hstretches.of_mem_flatten hj
  have hms : ms = a.flatMap Group.marks ++ j.flatMap Group.marks ++ b.flatMap Group.marks := by
    rw [← marks_stretches ms, ← flatten, hsplit]
    simp
  exact sound.decode_joined keeps hms hj' (joined j hj)

/-- A stretch with a sign of emphasis is one of underscores within a word. -/
theorem AreSound.hasWordUnderscore_of_stretch (sound : AreSound ms) (hg : g ∈ stretches ms)
    (plain : g.escaped = false) {c : Char} (hc : c ∈ g.signs) (sign : Emphasis.isSign c) :
    HasWordUnderscore (ms.map Mark.sign) := by
  obtain ⟨a, b, hsplit⟩ := List.append_of_mem hg
  obtain ⟨u, v, hsigns⟩ := List.append_of_mem hc
  have hms : ms = (a.flatMap Group.marks ++ u.map (⟨·, false⟩)) ++ ⟨c, false⟩ ::
      (v.map (⟨·, false⟩) ++ b.flatMap Group.marks) := by
    rw [← marks_stretches ms, hsplit]
    simp [Group.marks, plain, hsigns]
  exact sound.hasWordUnderscore hms rfl sign

end Canonmark.Markdown
