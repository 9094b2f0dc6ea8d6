import Canonmark.Proofs.Markdown.Within

/-! What lines ahead can change, and what stands behind the definitions that are still open. -/
namespace Canonmark.Markdown

variable {levels width : Nat} {nests : Bool} {o o' : Outlook} {l m : Line} {s : Start}
    {done bs : List Block} {tip : Tip} {ls later : List Line}

/-- An item leaves columns out of its later lines. -/
def Start.IsWide : Start → Prop
  | .item i => 0 < i.width
  | _ => True

theorem marker?_pos {s : Chars} {m : Marker} {n : Nat}
    (h : Start.marker? s = some (m, n)) : 0 < n := by
  unfold Start.marker? at h
  split at h
  · cases h
  · split at h
    · cases h
      exact Nat.one_pos
    · dsimp only at h
      split at h
      · cases h
      · split at h
        · cases h
          exact Nat.succ_pos _
        · cases h
          exact Nat.succ_pos _
        · cases h

theorem item?_width {i : ItemStart} (h : Start.item? l = some i) : 0 < i.width := by
  unfold Start.item? at h
  dsimp only at h
  obtain ⟨⟨marker, length⟩, hmarker, h⟩ := Option.bind_eq_some_iff.mp h
  have hlength := marker?_pos hmarker
  dsimp only at h
  split at h
  · cases h
    exact Nat.succ_pos _
  · split at h
    · cases h
    · split at h
      · cases h
        exact Nat.succ_pos _
      · split at h
        · cases h
          exact Nat.succ_pos _
        · cases h
          simp only
          omega

theorem find?_isWide {context : Context} (h : Start.find? context nests l = some s) : s.IsWide := by
  cases s with
  | item i =>
    unfold Start.find? at h
    split at h
    · simp at h
    · split at h
      · cases h
      · split at h
        · cases h
        · cases h
        · cases h
        · split at h
          · cases h
          · split at h
            · rename_i j hitem
              obtain ⟨-, hj⟩ := Option.ite_none_right_eq_some.mp h
              cases hj
              cases nests with
              | false => cases hitem
              | true => exact item?_width hitem
            · cases h
  | quote _ | heading _ _ | fence _ | html _ | thematicBreak | indentedCode => trivial

/-- The definitions that are still open are among the blocks before them; and items are wide. -/
def Tip.Backed (done : List Block) : Tip → Prop
  | .defined _ => ∃ d, Block.definition d ∈ done
  | .quote done inner => inner.Backed done
  | .item _ _ width done inner => 0 < width ∧ inner.Backed done
  | _ => True

/-- The tip of a growth is backed by the blocks before it. -/
def Growth.Backed (done : List Block) (g : Growth) : Prop := g.tip.Backed (done ++ g.closed)

theorem Tip.Backed.mono {cs : List Block} (h : tip.Backed bs) (subset : bs ⊆ cs) :
    tip.Backed cs := by
  cases tip with
  | defined _ => exact Exists.imp (fun _ hd => subset hd) h
  | quote _ _ | item _ _ _ _ _ => exact h
  | idle | paragraph _ | fenced _ _ | indented _ | html _ _ | list _ _ => trivial

theorem Growth.Backed.after {g : Growth} (h : g.Backed done) (bs : List Block) :
    (g.after bs).Backed done := by
  refine Tip.Backed.mono h fun b hb => ?_
  simp only [Growth.after, List.mem_append] at hb ⊢
  exact hb.imp_right .inr

theorem backed_freshText (nests : Bool) (o : Outlook) (l : Line) (done : List Block) :
    (Tip.freshText nests o l).Backed done := by
  rw [Tip.freshText]
  split
  · dsimp only
    split
    · rename_i d _ _
      exact ⟨d, List.mem_append_right _ List.mem_cons_self⟩
    · trivial
  · trivial

theorem backed_addHtml (kind : RawHtml.BlockKind) (lines : List Chars) (line : Chars)
    (done : List Block) : (Tip.addHtml kind lines line).Backed done := by
  rw [Tip.addHtml]
  split <;> trivial

theorem backed_freshBy {start : Start → Line → Growth}
    (h : ∀ s l, s.IsWide → (start s l).Backed done) (nests : Bool) (o : Outlook) (l : Line) :
    (Tip.freshBy nests o start l).Backed done := by
  rw [Tip.freshBy]
  split
  · trivial
  · split
    · rename_i s hfind
      exact h s l (find?_isWide hfind)
    · exact backed_freshText _ _ _ _

theorem backed_start (levels : Nat) (o : Outlook) (wide : s.IsWide) (l : Line) (done : List Block) :
    (Tip.start levels o s l).Backed done := by
  induction levels generalizing o s l done with
  | zero =>
    cases s with
    | html kind =>
      simp only [Tip.start]
      exact backed_addHtml _ _ _ _
    | quote _ | heading _ _ | fence _ | thematicBreak | item _ | indentedCode =>
      simp only [Tip.start]; trivial
  | succ levels ih =>
    cases s with
    | html kind =>
      simp only [Tip.start]
      exact backed_addHtml _ _ _ _
    | heading _ _ | fence _ | thematicBreak | indentedCode => simp only [Tip.start]; trivial
    | quote rest =>
      simp only [Tip.start]
      exact backed_freshBy (fun s l hs => ih _ hs l []) _ _ _
    | item i =>
      simp only [Tip.start]
      split
      · exact ⟨wide, trivial⟩
      · split
        · exact ⟨wide, trivial⟩
        · exact ⟨wide, backed_freshBy (fun s l hs => ih _ hs l []) _ _ _⟩

theorem backed_fresh (levels : Nat) (o : Outlook) (l : Line) (done : List Block) :
    (Tip.fresh levels o l).Backed done :=
  backed_freshBy (fun _ l wide => backed_start levels o wide l done) _ _ _

theorem backed_extend (levels : Nat) (o : Outlook) (l : Line) (h : tip.Backed done) :
    (tip.extend levels o l).Backed done := by
  induction tip generalizing levels o done with
  | defined pending =>
    cases pending with
    | zero => exact backed_freshText _ _ _ _
    | succ pending => exact Tip.Backed.mono h (List.subset_append_left _ _)
  | quote held inner ih => exact ih _ _ h
  | item marker items width held inner ih => exact ⟨h.1, ih _ _ h.2⟩
  | idle | paragraph _ | fenced _ _ | indented _ | html _ _ | list _ _ => trivial

theorem backed_leave (levels : Nat) (o : Outlook) (l : Line) (h : tip.Backed done) :
    (tip.leave levels o l).Backed done := by
  rw [Tip.leave]
  split
  · trivial
  · split
    · rename_i s hfind
      exact (backed_start _ _ (find?_isWide hfind) _ _).after _
    · split
      · exact backed_extend _ _ _ h
      · exact (backed_freshText _ _ _ _).after _

theorem backed_joinList (marker : Marker) (items : List (List Block)) (h : tip.Backed done) :
    (Tip.joinList marker items tip).Backed done := by
  cases tip <;> exact h

theorem backed_leaveItem (levels : Nat) (o : Outlook) (marker : Marker) (items : List (List Block))
    (l : Line) (h : tip.Backed done) : (tip.leaveItem levels o marker items l).Backed done := by
  rw [Tip.leaveItem]
  split
  · rename_i i hfind
    split
    · exact backed_joinList marker items (backed_start levels o (find?_isWide hfind) l done)
    · exact backed_leave _ _ _ h
  · exact backed_leave _ _ _ h

/-- Over a line, the definitions that are still open stay among the blocks. -/
theorem backed_advance (levels : Nat) (o : Outlook) (l : Line) (h : tip.Backed done) :
    (tip.advance levels o l).Backed done := by
  induction tip generalizing levels o l done with
  | idle => exact backed_fresh _ _ _ _
  | defined pending =>
    cases pending with
    | zero => exact backed_fresh _ _ _ _
    | succ pending => exact Tip.Backed.mono h (List.subset_append_left _ _)
  | paragraph lines =>
    rw [Tip.advance]
    split
    · trivial
    · split
      · trivial
      · split
        · rename_i s hfind
          exact (backed_start _ _ (find?_isWide hfind) _ _).after _
        · trivial
  | fenced f lines =>
    rw [Tip.advance]
    split <;> trivial
  | indented lines =>
    rw [Tip.advance]
    split
    · trivial
    · exact (backed_fresh _ _ _ _).after _
  | html kind lines =>
    rw [Tip.advance]
    split
    · trivial
    · exact backed_addHtml _ _ _ _
  | quote held inner ih =>
    rw [Tip.advance]
    split
    · exact ih _ _ _ h
    · exact backed_leave _ _ _ h
  | list marker items =>
    rw [Tip.advance]
    split
    · trivial
    · exact backed_leaveItem _ _ _ _ _ h
  | item marker items width held inner ih =>
    rw [Tip.advance]
    split
    · trivial
    · split
      · exact ⟨h.1, ih _ _ _ h.2⟩
      · exact backed_leaveItem _ _ _ _ _ h

theorem backed_within {g g' : Growth} (h : g.within? levels width later l = some g')
    (backed : g.tip.Backed g.closed) : g'.tip.Backed g'.closed := by
  unfold Growth.within? at h
  dsimp only at h
  split at h
  · obtain rfl := Option.some.inj h
    exact backed_advance _ _ _ backed
  · obtain ⟨-, hextend⟩ := Option.ite_none_right_eq_some.mp h
    obtain rfl := Option.some.inj hextend
    exact backed_extend _ _ _ backed

theorem backed_allWithin {g g' : Growth} (h : g.allWithin? levels width later ls = some g')
    (backed : g.tip.Backed g.closed) : g'.tip.Backed g'.closed := by
  induction ls generalizing g with
  | nil =>
    cases h
    exact backed
  | cons l ls ih =>
    obtain ⟨step, hstep, hrest⟩ := Option.bind_eq_some_iff.mp h
    exact ih hrest (backed_within hstep backed)

/-- What a paragraph can be asked to take: within layers that are wide, and, where all blocks become
those of one class, only if that class has text or is that of quotes. -/
structure Reachable (levels : Nat) (only : Option Kind) (layers : List Layer)
    (nests : Bool) : Prop where
  wide : ∀ layer ∈ layers, layer ≠ .item 0
  here : layers = [] → nests = decide (0 < levels)
  text : layers = [] → ∀ k ∈ only, k = .paragraph ∨ k = .heading
  quoted : layers.head? = some .quote → ∀ k ∈ only, k = .blockQuote

/-- Outlooks that show the same to a paragraph, here and further inside. -/
structure Outlook.Alike (levels : Nat) (only : Option Kind) (o o' : Outlook) : Prop where
  layers : o.layers = o'.layers
  ahead : ∀ layers nests, Reachable levels only layers nests →
    takenFrom nests (o.layers ++ layers) o.later = takenFrom nests (o'.layers ++ layers) o'.later

/-- All blocks of a growth can become blocks of one class, if there is to be only one. -/
def Growth.Leads (only : Option Kind) (g : Growth) : Prop :=
  ∀ k ∈ only, ∀ b ∈ g.blocks true, b.isBlank = false → ∃ b', b.Grows b' ∧ b'.kind? = some k

variable {only : Option Kind} {g g' : Growth}

theorem Growth.Leads.of_none (g : Growth) : g.Leads none := fun _ h => by cases h

theorem Growth.Leads.of_after (h : (g.after bs).Leads only) : g.Leads only := by
  intro k hk b hb
  refine h k hk b ?_
  rw [Growth.blocks, Growth.after, List.append_assoc]
  exact List.mem_append_right _ hb

theorem Growth.Leads.of_outgrown (h : g'.Leads only)
    (outgrown : Outgrown (g.blocks true) (g'.blocks true)) : g.Leads only := by
  intro k hk b hb hsolid
  obtain ⟨c, hc, hgrows⟩ := outgrown.grows b hb hsolid
  obtain ⟨b', hgrows', hkind⟩ := h k hk c hc (hgrows.isBlank_eq.trans hsolid)
  exact ⟨b', hgrows.trans hgrows', hkind⟩

theorem Growth.Leads.quote {held : List Block} (h : g.Leads only)
    (hmem : .quote held ∈ g.blocks true) : ∀ k ∈ only, k = .blockQuote := by
  intro k hk
  obtain ⟨b', hgrows, hkind⟩ := h k hk _ hmem rfl
  cases hgrows <;> exact (Option.some.inj hkind).symm

theorem Outlook.Alike.enter (h : Outlook.Alike levels only o o') {layer : Layer}
    (wide : layer ≠ .item 0) (quoted : layer = .quote → ∀ k ∈ only, k = .blockQuote) (inner : Nat) :
    Outlook.Alike inner none (o.enter layer) (o'.enter layer) where
  layers := congrArg (· ++ [layer]) h.layers
  ahead layers nests reachable := by
    have hahead := h.ahead (layer :: layers) nests
      ⟨List.forall_mem_cons.mpr ⟨wide, reachable.wide⟩, by simp, by simp, by simpa using quoted⟩
    simpa [Outlook.enter] using hahead

theorem Outlook.Alike.enterQuote (h : Outlook.Alike levels only o o')
    (quoted : ∀ k ∈ only, k = .blockQuote) (inner : Nat) :
    Outlook.Alike inner none (o.enter .quote) (o'.enter .quote) :=
  h.enter (by simp) (fun _ => quoted) inner

/-- A text in brackets begins a definition or a paragraph. -/
theorem leads_freshText (bracket : l.content.head? = some '[')
    (leads : (Tip.freshText nests o l).Leads only) : ∀ k ∈ only, k = .paragraph ∨ k = .heading := by
  intro k hk
  have hink : Inked (Tip.lastLines true [l.content]) := by
    obtain ⟨cs, hcs⟩ := List.head?_eq_some_iff.mp bracket
    have hlast : Tip.lastLines true [l.content] = [l.content] := by
      have hall : l.content.all Text.isBlank = false := by
        rw [hcs]
        rfl
      simp [Tip.lastLines, hall]
    rw [hlast, hcs]
    exact ⟨_, List.mem_cons_self, '[', List.mem_cons_self, rfl⟩
  have hkeep : .paragraph (Tip.paragraphText (Tip.lastLines true [l.content])) ∈
      (Growth.keep (.paragraph [l.content])).blocks true := by
    rw [Growth.blocks, Growth.keep, List.nil_append, Tip.closeIn, paragraphBlocks_of_inked hink]
    exact List.mem_cons_self
  have hparagraph : ∀ {t : Chars}, .paragraph t ∈ (Tip.freshText nests o l).blocks true →
      k = .paragraph ∨ k = .heading := by
    intro t ht
    obtain ⟨b', hgrows, hkind⟩ := leads k hk _ ht rfl
    cases hgrows with
    | refl | paragraph _ _ => exact .inl (Option.some.inj hkind).symm
    | heading _ _ _ => exact .inr (Option.some.inj hkind).symm
  cases hread : Definition.read? (Tip.endLines (l.content :: o.paragraph nests)) with
  | none =>
    have hfresh : Tip.freshText nests o l = .keep (.paragraph [l.content]) := by
      simp [Tip.freshText, bracket, hread]
    exact hparagraph (hfresh ▸ hkeep)
  | some pair =>
    obtain ⟨d, rest⟩ := pair
    have hdefinition : .definition d ∈ (Tip.freshText nests o l).blocks true := by
      simp [Tip.freshText, bracket, hread, Growth.blocks]
    obtain ⟨b', hgrows, hkind⟩ := leads k hk _ hdefinition rfl
    cases hgrows
    cases hkind

theorem freshText_congr (h : Outlook.Alike levels only o o') (l : Line)
    (leads : (Tip.freshText (decide (0 < levels)) o l).Leads only) :
    Tip.freshText (decide (0 < levels)) o l = Tip.freshText (decide (0 < levels)) o' l := by
  cases hbracket : l.content.head? == some '[' with
  | false => simp [Tip.freshText, hbracket]
  | true =>
    have htext := leads_freshText (beq_iff_eq.mp hbracket) leads
    have hahead : o.paragraph (decide (0 < levels)) = o'.paragraph (decide (0 < levels)) := by
      simpa [Outlook.paragraph] using h.ahead [] _ ⟨by simp, fun _ => rfl, fun _ => htext, by simp⟩
    rw [Tip.freshText, Tip.freshText, hahead]

theorem start_congr (h : Outlook.Alike levels only o o') (wide : s.IsWide)
    (l : Line) (leads : (Tip.start levels o s l).Leads only) :
    Tip.start levels o s l = Tip.start levels o' s l := by
  induction levels generalizing only o o' s l with
  | zero => cases s <;> simp only [Tip.start]
  | succ levels ih =>
    have hfresh : ∀ {layer : Layer} (_ : layer ≠ .item 0)
        (_ : layer = .quote → ∀ k ∈ only, k = .blockQuote) rest,
        Tip.freshBy (decide (0 < levels)) (o.enter layer) (Tip.start levels (o.enter layer)) rest =
          Tip.freshBy (decide (0 < levels)) (o'.enter layer)
          (Tip.start levels (o'.enter layer)) rest := by
      intro layer hwide hquote rest
      have hinner := h.enter hwide hquote levels
      rw [Tip.freshBy, Tip.freshBy]
      split
      · rfl
      · split
        · rename_i s hfind
          exact ih hinner (find?_isWide hfind) rest (.of_none _)
        · exact freshText_congr hinner rest (.of_none _)
    cases s with
    | heading _ _ | fence _ | html _ | thematicBreak | indentedCode => simp only [Tip.start]
    | quote rest =>
      simp only [Tip.start] at leads ⊢
      rw [hfresh (by simp) fun _ => leads.quote (List.mem_singleton.mpr rfl)]
    | item i =>
      simp only [Tip.start]
      split
      · rfl
      · rw [hfresh (by simpa using Nat.ne_of_gt wide) (by simp)]

theorem fresh_congr (h : Outlook.Alike levels only o o') (l : Line)
    (leads : (Tip.fresh levels o l).Leads only) : Tip.fresh levels o l = Tip.fresh levels o' l := by
  revert leads
  rw [Tip.fresh, Tip.freshBy, Tip.fresh, Tip.freshBy]
  split
  · exact fun _ => rfl
  · split
    · rename_i s hfind
      exact start_congr h (find?_isWide hfind) l
    · exact freshText_congr h l

theorem extend_congr (h : Outlook.Alike levels only o o') (backed : tip.Backed done)
    (l : Line) (leads : (tip.extend levels o l).Leads only) :
    tip.extend levels o l = tip.extend levels o' l := by
  induction tip generalizing levels only o o' done with
  | defined pending =>
    cases pending with
    | zero => exact freshText_congr h l leads
    | succ pending => rfl
  | quote held inner ih =>
    have hquote := h.enterQuote (leads.quote (List.mem_singleton.mpr rfl)) (levels - 1)
    rw [Tip.extend, Tip.extend, ih hquote backed (.of_none _)]
  | item marker items width held inner ih =>
    rw [Tip.extend, Tip.extend,
      ih (h.enter (by simpa using Nat.ne_of_gt backed.1) (by simp) _) backed.2 (.of_none _)]
  | idle | paragraph _ | fenced _ _ | indented _ | html _ _ | list _ _ => rfl

theorem leave_congr (h : Outlook.Alike levels only o o') (backed : tip.Backed done) (l : Line)
    (leads : (tip.leave levels o l).Leads only) : tip.leave levels o l = tip.leave levels o' l := by
  revert leads
  rw [Tip.leave, Tip.leave]
  split
  · exact fun _ => rfl
  · split
    · rename_i s hfind
      exact fun leads => congrArg (Growth.after · tip.close)
        (start_congr h (find?_isWide hfind) l leads.of_after)
    · split
      · exact extend_congr h backed l
      · exact fun leads => congrArg (Growth.after · tip.close) (freshText_congr h l leads.of_after)

theorem leads_start_item {levels : Nat} {o : Outlook} {i : ItemStart} {l : Line} {marker : Marker}
    {items : List (List Block)}
    (leads : (Growth.mk (Tip.start levels o (.item i) l).closed
      (Tip.joinList marker items (Tip.start levels o (.item i) l).tip)).Leads only) :
    (Tip.start levels o (.item i) l).Leads only := by
  cases levels with
  | zero =>
    simp only [Tip.start] at leads ⊢
    exact leads
  | succ levels =>
    obtain ⟨done, inner, hstart⟩ := exists_start_item levels o i l
    rw [hstart] at leads ⊢
    intro k hk b hb _
    obtain ⟨b', hgrows, hkind⟩ := leads k hk _ List.mem_cons_self rfl
    obtain rfl := List.mem_singleton.mp hb
    cases hgrows <;> exact ⟨_, .refl _, hkind⟩

theorem leaveItem_congr (h : Outlook.Alike levels only o o')
    (backed : tip.Backed done) (marker : Marker) (items : List (List Block))
    (l : Line) (leads : (tip.leaveItem levels o marker items l).Leads only) :
    tip.leaveItem levels o marker items l = tip.leaveItem levels o' marker items l := by
  revert leads
  rw [Tip.leaveItem, Tip.leaveItem]
  split
  · rename_i i hfind
    split
    · intro leads
      rw [start_congr h (find?_isWide hfind) l (leads_start_item leads)]
    · exact leave_congr h backed l
  · exact leave_congr h backed l

/-- What a line does depends on the lines ahead only through what a paragraph would take from
them. -/
theorem advance_congr (h : Outlook.Alike levels only o o') (backed : tip.Backed done)
    (l : Line) (leads : (tip.advance levels o l).Leads only) :
    tip.advance levels o l = tip.advance levels o' l := by
  induction tip generalizing levels only o o' done l with
  | idle => exact fresh_congr h l leads
  | defined pending =>
    cases pending with
    | zero => exact fresh_congr h l leads
    | succ pending => rfl
  | paragraph lines =>
    revert leads
    rw [Tip.advance, Tip.advance]
    split
    · exact fun _ => rfl
    · split
      · exact fun _ => rfl
      · split
        · rename_i s hfind
          exact fun leads =>
            congrArg (Growth.after · _) (start_congr h (find?_isWide hfind) l leads.of_after)
        · exact fun _ => rfl
  | fenced f lines => rfl
  | indented lines =>
    revert leads
    rw [Tip.advance, Tip.advance]
    split
    · exact fun _ => rfl
    · exact fun leads => congrArg (Growth.after · _) (fresh_congr h l leads.of_after)
  | html kind lines => rfl
  | quote held inner ih =>
    revert leads
    rw [Tip.advance, Tip.advance]
    split
    · intro leads
      have hquote := h.enterQuote (leads.quote (List.mem_singleton.mpr rfl)) (levels - 1)
      rw [ih hquote backed _ (.of_none _)]
    · exact leave_congr h backed l
  | list marker items =>
    revert leads
    rw [Tip.advance, Tip.advance]
    split
    · exact fun _ => rfl
    · exact leaveItem_congr h backed marker items l
  | item marker items width held inner ih =>
    revert leads
    rw [Tip.advance, Tip.advance]
    split
    · exact fun _ => rfl
    · split
      · rw [ih (h.enter (by simpa using Nat.ne_of_gt backed.1) (by simp) _) backed.2 _ (.of_none _)]
        exact fun _ => rfl
      · exact leaveItem_congr h backed marker _ l

/-- A line that no paragraph in an item takes. -/
def Line.Untaken (levels width : Nat) (only : Option Kind) (m : Line) : Prop :=
  ∀ layers nests, Reachable levels only layers nests →
    Outlook.taken? nests (.item width :: layers) m = none

theorem takenFrom_append {layers : List Layer} (h : Outlook.taken? nests layers m = none)
    (ls later : List Line) :
    Outlook.takenFrom nests layers (ls ++ m :: later) = Outlook.takenFrom nests layers ls := by
  induction ls with
  | nil => simp only [List.nil_append, Outlook.takenFrom, h]
  | cons l ls ih =>
    rw [List.cons_append, Outlook.takenFrom, Outlook.takenFrom, ih]

theorem Line.Untaken.alike (h : m.Untaken levels width only) (ls later : List Line) :
    Outlook.Alike levels only { layers := [.item width], later := ls }
      { layers := [.item width], later := ls ++ m :: later } where
  layers := rfl
  ahead layers nests reachable := (takenFrom_append (h layers nests reachable) ls later).symm

/-- In an item, what comes after a line that no paragraph takes makes no difference before it. -/
theorem allWithin?_congr {g g' : Growth} (h : m.Untaken (levels + 1) width only)
    (backed : g.tip.Backed g.closed) (within : g.allWithin? (levels + 1) width [] ls = some g')
    (leads : g'.Leads only) (later : List Line) :
    g.allWithin? (levels + 1) width (m :: later) ls = some g' := by
  induction ls generalizing g with
  | nil => exact within
  | cons l ls ih =>
    obtain ⟨step, hwithin, hrest⟩ := Option.bind_eq_some_iff.mp within
    have hleads : step.Leads only := leads.of_outgrown (outgrown_allWithin hrest)
    have halike := h.alike ls later
    rw [List.append_nil] at hwithin
    have hstep : g.within? (levels + 1) width (ls ++ m :: later) l = some step := by
      rw [← hwithin]
      unfold Growth.within? at hwithin ⊢
      dsimp only at hwithin ⊢
      split at hwithin
      · obtain rfl := Option.some.inj hwithin
        rw [advance_congr halike backed _ hleads.of_after]
      · split at hwithin
        · obtain rfl := Option.some.inj hwithin
          rw [extend_congr halike backed _ hleads.of_after]
        · cases hwithin
    rw [Growth.allWithin?, hstep]
    exact ih (backed_within hwithin backed) hrest

end Canonmark.Markdown
