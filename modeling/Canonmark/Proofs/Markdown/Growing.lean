import Canonmark.Proofs.Markdown.Stack
import Canonmark.Proofs.Markdown.TokenTree

/-! Blocks that grow line by line, from lines that mean the same wherever they stand. -/
namespace Canonmark.Markdown

/-- Lines that lead from one growth to another, whatever is seen ahead of them and from whichever
column they are seen. -/
inductive Reads (levels : Nat) : Growth → List Chars → Growth → Prop
  | nil (g : Growth) : Reads levels g [] g
  | cons {g step g' : Growth} {l : Chars} {ls : List Chars}
      (advance : ∀ o column, g.tip.advance levels o ⟨column, l⟩ = step)
      (rest : Reads levels (step.after g.closed) ls g') : Reads levels g (l :: ls) g'

variable {levels : Nat} {g g' g'' : Growth} {ls ms : List Chars}

theorem Reads.append (h : Reads levels g ls g') (h' : Reads levels g' ms g'') :
    Reads levels g (ls ++ ms) g'' := by
  induction h with
  | nil g => exact h'
  | cons advance _ ih => exact .cons advance (ih h')

theorem Growth.after_after (g : Growth) (bs cs : List Block) :
    (g.after bs).after cs = g.after (cs ++ bs) := by
  rw [Growth.after, Growth.after, Growth.after, List.append_assoc]

/-- What has been closed before stays as it is. -/
theorem Reads.after (h : Reads levels g ls g') (bs : List Block) :
    Reads levels (g.after bs) ls (g'.after bs) := by
  induction h with
  | nil g => exact .nil _
  | @cons g step _ _ _ advance _ ih =>
    rw [Growth.after_after] at ih
    exact .cons advance ih

/-- Lines that mean the same wherever they stand do so under each other. -/
theorem Reads.grow (h : Reads levels g ls g') :
    Tip.grow levels g.closed g.tip (ls.map fun text => { text }) = g'.closed ++ g'.tip.close := by
  induction h with
  | nil g => rfl
  | cons advance _ ih =>
    rw [List.map_cons, Tip.grow, advance]
    exact ih

/-- After the sign of a quote, a line is left as it was. -/
theorem quoteRest?_quoteLine (column : Nat) (l : Chars) :
    ∃ column', Start.quoteRest? ⟨column, Writer.quoteLine l⟩ = some ⟨column', l⟩ := by
  cases l with
  | nil => exact ⟨_, rfl⟩
  | cons c cs => exact ⟨_, rfl⟩

theorem find?_quoteLine (context : Context) (column : Nat) (l : Chars) :
    ∃ column',
      Start.find? context true ⟨column, Writer.quoteLine l⟩ = some (.quote ⟨column', l⟩) := by
  cases l with
  | nil => exact ⟨_, rfl⟩
  | cons c cs => exact ⟨_, rfl⟩

theorem advance_quote {inner : Tip} {step : Growth} {l : Chars}
    (h : ∀ o column, inner.advance levels o ⟨column, l⟩ = step) (done : List Block) (o : Outlook)
    (column : Nat) :
    (Tip.quote done inner).advance (levels + 1) o ⟨column, Writer.quoteLine l⟩ =
      step.inQuote done := by
  obtain ⟨column', hrest⟩ := quoteRest?_quoteLine column l
  rw [Tip.advance, Layer.rest?, hrest]
  dsimp only
  rw [Nat.add_sub_cancel, h]

/-- The first line of a quote begins it. -/
theorem advance_idle_quoteLine {step : Growth} {l : Chars}
    (h : ∀ o column, Tip.idle.advance levels o ⟨column, l⟩ = step) (o : Outlook) (column : Nat) :
    Tip.idle.advance (levels + 1) o ⟨column, Writer.quoteLine l⟩ = step.inQuote [] := by
  obtain ⟨column', hfind⟩ := find?_quoteLine .free column l
  have hblank : (Line.mk column (Writer.quoteLine l)).isBlank = false := by
    unfold Writer.quoteLine
    split <;> rfl
  have hinner := h (o.enter .quote) column'
  rw [Tip.advance, Tip.fresh] at hinner ⊢
  rw [Tip.freshBy, hblank]
  simp only [Nat.zero_lt_succ, decide_true, hfind, Bool.false_eq_true, if_false]
  rw [Tip.start]
  exact congrArg (Growth.inQuote · []) hinner

theorem Reads.inQuote (h : Reads levels g ls g') (bs : List Block) :
    Reads (levels + 1) ⟨bs, .quote g.closed g.tip⟩ (ls.map Writer.quoteLine)
      ⟨bs, .quote g'.closed g'.tip⟩ := by
  induction h with
  | nil g => exact .nil _
  | @cons g step _ _ _ advance _ ih =>
    refine .cons (fun o column => advance_quote advance _ o column) ?_
    rw [Growth.inQuote, Growth.keep, Growth.after, List.append_nil]
    exact ih

/-- A quote is read as what is read in it. -/
theorem Reads.quoted (h : Reads levels ⟨[], .idle⟩ ls g) (some : ls ≠ []) :
    Reads (levels + 1) ⟨[], .idle⟩ (ls.map Writer.quoteLine) ⟨[], .quote g.closed g.tip⟩ := by
  cases h with
  | nil => exact absurd rfl some
  | @cons _ step _ _ _ advance rest =>
    refine .cons (fun o column => advance_idle_quoteLine advance o column) ?_
    have h := rest.inQuote []
    rwa [Growth.after, List.nil_append] at h

/-- Blocks that stand for the given nodes, whatever is defined. -/
def StandFor (bs : List Block) (ns : List Node) : Prop :=
  ∀ ds, Gives ns (Token.eventsOf (Reader.tokensIn ds false bs))

theorem tokensIn_append (ds : List Definition) (bs cs : List Block) :
    Reader.tokensIn ds false
      (bs ++ cs) = Reader.tokensIn ds false bs ++ Reader.tokensIn ds false cs := by
  induction bs with
  | nil => rfl
  | cons b bs ih =>
    rw [List.cons_append, Reader.tokensIn, Reader.tokensIn, ih, List.cons_append]
    rfl

variable {bs cs : List Block} {ns others : List Node}

theorem Gives.eventsOf_append {ts us : List Token} (h : Gives ns (Token.eventsOf ts))
    (h' : Gives others (Token.eventsOf us)) : Gives (ns ++ others) (Token.eventsOf (ts ++ us)) := by
  have hevents : Token.eventsOf (ts ++ us) =
      (do let first ← Token.eventsOf ts; let last ← Token.eventsOf us; pure (first ++ last)) := by
    clear h
    induction ts with
    | nil =>
      rw [List.nil_append, Token.eventsOf]
      cases Token.eventsOf us <;> rfl
    | cons t ts ih =>
      rw [List.cons_append, Token.eventsOf, Token.eventsOf, ih]
      cases Token.events t with
      | error f => rfl
      | ok es =>
        cases Token.eventsOf ts with
        | error f => rfl
        | ok es' =>
          cases Token.eventsOf us with
          | error f => rfl
          | ok es'' => simp [bind, Except.bind, pure, Except.pure]
  rw [hevents]
  exact h.append h'

theorem Gives.token {t : Token} (h : Gives ns (Token.events t)) :
    Gives ns (Token.eventsOf [t]) := by
  have happend := h.append gives_nil
  rwa [List.append_nil] at happend

theorem standFor_nil : StandFor [] [] := fun _ => gives_nil

theorem StandFor.append (h : StandFor bs ns) (h' : StandFor cs others) :
    StandFor (bs ++ cs) (ns ++ others) := by
  intro ds
  rw [tokensIn_append]
  exact (h ds).eventsOf_append (h' ds)

theorem standFor_blank : StandFor [.blank] [] := fun _ => gives_nil.token

/-- Lines that are read as the given nodes. -/
def ReadsAs (levels : Nat) (ls : List Chars) (ns : List Node) : Prop :=
  ∃ bs tip, Reads levels ⟨[], .idle⟩ ls ⟨bs, tip⟩ ∧ StandFor (bs ++ tip.close) ns

/-- A tip that an empty line closes. -/
def Tip.EndsAtBlank (levels : Nat) (tip : Tip) : Prop :=
  ∀ o column, tip.advance levels o ⟨column, []⟩ = ⟨tip.close ++ [.blank], .idle⟩

/-- Lines that are read as the given nodes, and after which an empty line leaves nothing open. -/
def ReadsApart (levels : Nat) (ls : List Chars) (ns : List Node) : Prop :=
  ∃ bs tip, Reads levels ⟨[], .idle⟩ ls ⟨bs, tip⟩ ∧ StandFor (bs ++ tip.close) ns ∧
    tip.EndsAtBlank levels

theorem ReadsApart.readsAs (h : ReadsApart levels ls ns) : ReadsAs levels ls ns := by
  obtain ⟨bs, tip, hreads, stands, _⟩ := h
  exact ⟨bs, tip, hreads, stands⟩

theorem endsAtBlank_idle (levels : Nat) : Tip.idle.EndsAtBlank levels := fun _ _ => rfl

/-- Blocks with an empty line between them are read one after the other. -/
theorem ReadsApart.append (h : ReadsApart levels ls ns) (h' : ReadsApart levels ms others) :
    ReadsApart levels (ls ++ [] :: ms) (ns ++ others) := by
  obtain ⟨bs, tip, hreads, stands, ends⟩ := h
  obtain ⟨cs, tip', hreads', stands', ends'⟩ := h'
  have hrest := hreads'.after (bs ++ (tip.close ++ [.blank]))
  refine ⟨bs ++ (tip.close ++ [.blank]) ++ cs, tip', hreads.append (.cons ends ?_), ?_, ends'⟩
  · rwa [Growth.after, List.append_nil] at hrest
  · have hall := (stands.append standFor_blank).append stands'
    simpa using hall

theorem ReadsApart.stacked {lss : List (List Chars)}
    (h : List.Forall₂ (fun n ls => ReadsApart levels ls [n]) ns lss) (some : ns ≠ []) :
    ReadsApart levels (stacked [[]] lss) ns := by
  cases h with
  | nil => exact absurd rfl some
  | @cons n ls ns lss hn hns =>
    have hrest : ∀ {ms : List Chars} {others : List Node}, ReadsApart levels ms others →
        ReadsApart levels (ms ++ lss.flatMap ([[]] ++ ·)) (others ++ ns) := by
      clear hn some
      induction hns with
      | nil => intro ms others h; simpa using h
      | @cons m ks ns lss hm _ ih =>
        intro ms others h
        have hboth := ih (h.append hm)
        simpa using hboth
    exact hrest hn

theorem endsAtBlank_quote (levels : Nat) (done : List Block) (inner : Tip) :
    (Tip.quote done inner).EndsAtBlank levels := fun _ _ => rfl

/-- A quote is read as a quote of what is read in it. -/
theorem ReadsAs.quoted (h : ReadsAs levels ls ns) (some : ls ≠ []) :
    ReadsApart (levels + 1) (ls.map Writer.quoteLine) [.branch .blockQuote none ns] := by
  obtain ⟨bs, tip, hreads, stands⟩ := h
  refine ⟨[], .quote bs tip, hreads.quoted some, fun ds => ?_, endsAtBlank_quote _ _ _⟩
  exact (gives_wrapper (w := .blockQuote) (c := .blockQuote) rfl (stands ds)).token

/-- A text is read as the document of what its lines are read as. -/
theorem fromMarkdown_of_readsAs (h : ReadsAs maxDepth ls ns) (framed : ls = [] ∨ IsFramed ls) :
    fromMarkdown (.text (String.ofList (Text.unlines ls))) none [] =
      .ok (.branch (.document defaultNamespace) none ns) := by
  obtain ⟨bs, tip, hreads, stands⟩ := h
  have hlines : linesOf (Text.unlines ls) = ls.map fun text => { text } := by
    obtain rfl | framed := framed
    · rfl
    · exact framed.linesOf
  have hblocks : blocksOf (Text.unlines ls) = bs ++ tip.close := by
    rw [blocksOf, hlines]
    exact hreads.grow
  refine fromMarkdown_of_gives ?_
  rw [String.toList_ofList, Reader.tokens, hblocks]
  exact stands _

end Canonmark.Markdown
