import Canonmark.Proofs.Markdown.Merging
import Canonmark.Proofs.Node.Acceptance
import Canonmark.Proofs.Outcome
import Canonmark.Proofs.Text.Numeral

/-! Which documents are refused by the writer, and for what: the first fault in document order,
wherever in the tree it stands. -/
namespace Canonmark.Markdown

/-- An ordered list with a start that is given and is no number. -/
inductive HasBadStart : Node → Prop
  | mk {data : ListData} {span : Option Span} {children : List Node} {s : String}
      (ordered : data.listType = "ordered") (start : data.start = some s)
      (given : s ≠ "") (bad : ∀ i, Text.Numeral.toInt s.toList ≠ .ok i) :
      HasBadStart (.branch (.list data) span children)

/-- A code block with a fence that is longer than a text can be. -/
inductive NeedsEndlessFence (fenceMin : Nat) : Node → Prop
  | mk {text : String} {info : Option String} {tag : Option TagInfo} {span : Option Span}
      (long : Writer.maxLength < max fenceMin (longestRun 0 text.toList + 1)) :
      NeedsEndlessFence fenceMin (.leaf (.codeBlock text info tag) span)

/-- The start of an ordered list, if it is given and is no number. -/
def badStart? (data : ListData) : Option String :=
  match data.start with
  | none | some "" => none
  | some s =>
    if data.ordered then
      match Text.Numeral.toInt s.toList with
      | .ok _ => none
      | .error _ => some s
    else none

/-- The fault of a node itself. -/
def faultAt? (fenceMin : Nat) : Node → Option WriteFault
  | .leaf (.codeBlock text ..) _ =>
    if Writer.maxLength < max fenceMin (longestRun 0 text.toList + 1)
      then some .endlessFence else none
  | .branch (.list data) .. => (badStart? data).map .badStart
  | _ => none

theorem badStart?_eq_some_iff {data : ListData} {s : String} :
    badStart? data = some s ↔
      data.listType = "ordered" ∧ data.start = some s ∧ s ≠ "" ∧
        ∀ i, Text.Numeral.toInt s.toList ≠ .ok i := by
  have hordered : data.ordered = true ↔ data.listType = "ordered" := beq_iff_eq
  rw [← hordered]
  unfold badStart?
  split
  · rename_i hstart
    simp [hstart]
  · rename_i hstart
    rw [hstart]
    constructor
    · nofun
    · rintro ⟨_, ⟨⟩, hne, _⟩
      exact absurd rfl hne
  · rename_i t hne hstart
    rw [hstart]
    cases data.ordered with
    | false => simp
    | true =>
      cases hread : Text.Numeral.toInt t.toList with
      | ok i =>
        simp only [if_pos, reduceCtorEq, false_iff, Option.some.injEq]
        rintro ⟨_, rfl, _, hbad⟩
        exact hbad i hread
      | error r =>
        simp only [if_pos, Option.some.injEq, true_and]
        constructor
        · rintro rfl
          exact ⟨rfl, hne, fun i hi => by rw [hread] at hi; cases hi⟩
        · exact fun h => h.1

theorem hasBadStart_iff {data : ListData} {span : Option Span} {children : List Node} :
    HasBadStart (.branch (.list data) span children) ↔ ∃ s, badStart? data = some s := by
  constructor
  · rintro ⟨ordered, start, given, bad⟩
    exact ⟨_, badStart?_eq_some_iff.mpr ⟨ordered, start, given, bad⟩⟩
  · rintro ⟨s, hs⟩
    obtain ⟨ordered, start, given, bad⟩ := badStart?_eq_some_iff.mp hs
    exact .mk ordered start given bad

/-- A node has a fault of its own if its start is bad or its fence endless. -/
theorem faultAt?_cases (fenceMin : Nat) (n : Node) :
    (faultAt? fenceMin n = none ∧ ¬HasBadStart n ∧ ¬NeedsEndlessFence fenceMin n) ∨
      (HasBadStart n ∧ ∃ s, faultAt? fenceMin n = some (.badStart s)) ∨
      (NeedsEndlessFence fenceMin n ∧ faultAt? fenceMin n = some .endlessFence) := by
  cases n with
  | leaf l span =>
    cases l with
    | codeBlock text info tag =>
      by_cases hlong : Writer.maxLength < max fenceMin (longestRun 0 text.toList + 1)
      · exact .inr (.inr ⟨.mk hlong, by rw [faultAt?, if_pos hlong]⟩)
      · exact .inl ⟨by rw [faultAt?, if_neg hlong], nofun, fun ⟨h⟩ => hlong h⟩
    | _ => exact .inl ⟨rfl, nofun, nofun⟩
  | branch c span children =>
    cases c with
    | list data =>
      cases hbad : badStart? data with
      | none =>
        refine .inl ⟨by rw [faultAt?, hbad]; rfl, fun h => ?_, nofun⟩
        obtain ⟨s, hs⟩ := hasBadStart_iff.mp h
        rw [hbad] at hs
        cases hs
      | some s =>
        exact .inr (.inl ⟨hasBadStart_iff.mpr ⟨s, hbad⟩, s, by rw [faultAt?, hbad]; rfl⟩)
    | _ => exact .inl ⟨rfl, nofun, nofun⟩
  | foreign v => exact .inl ⟨rfl, nofun, nofun⟩

/-- From a start of no more digits, as many items can be counted as a list can have. -/
def startDigits : Nat := 4000

/-- Whether a list has a short start, if any that is a number, and no more items than a list can
have. -/
def isNumbered : Node → Bool
  | .branch (.list data) _ children =>
    children.length ≤ Writer.maxLength &&
      match data.start with
      | none => true
      | some s =>
        match Text.Numeral.toInt s.toList with
        | .ok i => i.natAbs < 10 ^ startDigits
        | .error _ => true
  | _ => true

def faultsAt (fenceMin : Nat) (n : Node) : List WriteFault := (faultAt? fenceMin n).toList

/-- What keeps a node from being written for other reasons. -/
def obstaclesAt (n : Node) : List Unit := if n.kind?.isSome && isNumbered n then [] else [()]

theorem isSteady_faultsAt (fenceMin : Nat) : IsSteady (faultsAt fenceMin) where
  text _ _ _ _ _ := rfl
  code _ _ _ _ _ := rfl
  emph _ _ := rfl
  strong _ _ := rfl
  container c _ _ _ _ _ := by cases c <;> rfl

theorem isSteady_obstaclesAt : IsSteady obstaclesAt where
  text _ _ _ _ _ := rfl
  code _ _ _ _ _ := rfl
  emph _ _ := rfl
  strong _ _ := rfl
  container c _ _ _ _ hlength := by
    cases c with
    | list data =>
      have hlength := hlength rfl
      rw [obstaclesAt, obstaclesAt, isNumbered, isNumbered, hlength]
      rfl
    | _ => rfl

section Finds

variable {α β : Type} {work : Writing α} {next : α → Writing β} {faults others : List WriteFault}

/-- How work ends that meets some faults: the first one is the last thing that happens. -/
inductive Ends : EStateM.Result WriteFault Layout α → List WriteFault → Prop
  | done {a : α} {l : Layout} : Ends (.ok a l) []
  | failed {f : WriteFault} {l : Layout} {faults : List WriteFault} :
      Ends (.error f l) (f :: faults)

/-- Work that meets the given faults, whatever the layout is. -/
def Finds (work : Writing α) (faults : List WriteFault) : Prop := ∀ l, Ends (work l) faults

theorem finds_pure (a : α) : Finds (pure a : Writing α) [] := fun _ => .done

theorem finds_throw (f : WriteFault) : Finds (throw f : Writing α) [f] := fun _ => .failed

theorem finds_get : Finds (get : Writing Layout) [] := fun _ => .done

theorem finds_set (l : Layout) : Finds (set l : Writing PUnit) [] := fun _ => .done

theorem finds_modify (f : Layout → Layout) : Finds (modify f : Writing PUnit) [] := fun _ => .done

theorem Finds.bind (h : Finds work faults) (hnext : ∀ a, Finds (next a) others) :
    Finds (work >>= next) (faults ++ others) := by
  intro l
  have hwork := h l
  cases hrun : work l with
  | ok a l' =>
    rw [hrun] at hwork
    cases hwork
    rw [run_bind_of_ok hrun]
    exact hnext a l'
  | error f l' =>
    rw [hrun] at hwork
    cases hwork
    rw [run_bind_of_error hrun]
    exact .failed

/-- What follows a faultless beginning decides. -/
theorem Finds.after (h : Finds work []) (hnext : ∀ a, Finds (next a) others) :
    Finds (work >>= next) others := h.bind hnext

/-- What precedes a faultless end decides. -/
theorem Finds.before (h : Finds work faults) (hnext : ∀ a, Finds (next a) []) :
    Finds (work >>= next) faults := by
  have hboth := h.bind hnext
  rwa [List.append_nil] at hboth

end Finds

namespace Writer

theorem finds_emit (chunk : Chars) : Finds (emit chunk) [] := finds_modify _

theorem finds_startBlock : Finds startBlock [] := by
  refine finds_get.after fun l => ?_
  split
  · exact finds_set _
  · exact (finds_emit _).after fun _ => finds_emit _

theorem finds_beginCapture : Finds beginCapture [] :=
  finds_get.after fun _ => (finds_set _).after fun _ => finds_pure _

theorem finds_endCapture (saved : List Chars) : Finds (endCapture saved) [] :=
  finds_get.after fun _ => (finds_set _).after fun _ => finds_pure _

theorem finds_guardLink (style : Style) : Finds (guardLink style) [] := by
  unfold guardLink
  split
  · exact finds_modify _
  · exact finds_pure _

variable {style : Style} {k : Nat}

theorem finds_leaf (hfence : style.fenceMin = .whole k) (l : Leaf) (span : Option Span) :
    Finds (leaf style l) (faultsAt k (.leaf l span)) := by
  cases l with
  | codeBlock text info tag =>
    refine finds_get.after fun l => ?_
    rw [fenceAround, hfence, faultsAt, faultAt?, FenceMin.lengthFor?]
    by_cases hlong : maxLength < max k (longestRun 0 text.toList + 1)
    · simp only [hlong, if_pos, Option.toList]
      exact finds_throw _
    · simp only [hlong, if_neg, not_false_eq_true, Option.toList]
      exact finds_emit _
  | htmlBlock text tag => exact finds_get.after fun _ => finds_emit _
  | softbreak | linebreak => exact finds_get.after fun _ => finds_emit _
  | _ => exact finds_emit _

theorem marker_eq_ok (style : Style) (data : ListData) {number : Int}
    (short : number.natAbs < 10 ^ Text.Numeral.maxDigits) :
    ∃ mark, marker style data number = .ok mark := by
  unfold marker
  split
  · have hshown : (if style.noIndex then 1 else number).natAbs < 10 ^ Text.Numeral.maxDigits := by
      split
      · exact Nat.one_lt_pow (by decide) (by decide)
      · exact short
    exact ⟨_, if_neg (Text.Numeral.isLong_iff.not.mpr (Nat.not_le.mpr hshown))⟩
  · exact ⟨_, rfl⟩

/-- Counting from a short start, no list comes to a number that is too long. -/
theorem bound_of_short {start longest i count : Nat} (hstart : 19 ≤ start)
    (hlongest : start < longest) (hi : i < 10 ^ start) (hcount : count ≤ maxLength) :
    i + count ≤ 10 ^ longest := by
  have hlength : maxLength ≤ 10 ^ 19 := by decide
  have hleast : 10 ^ 19 ≤ 10 ^ start := Nat.pow_le_pow_right (by decide) hstart
  have hmost : 10 ^ (start + 1) ≤ 10 ^ longest := Nat.pow_le_pow_right (by decide) hlongest
  rw [Nat.pow_succ] at hmost
  omega

/-- A start that is no fault is a number from which the items can be counted. -/
theorem startNumber_eq_pure {data : ListData} {span : Option Span} {children : List Node}
    (hbad : badStart? data = none) (numbered : isNumbered (.branch (.list data) span children)) :
    ∃ i, startNumber data = pure i ∧ i.natAbs + children.length ≤ 10 ^ Text.Numeral.maxDigits := by
  rw [isNumbered, Bool.and_eq_true, decide_eq_true_eq] at numbered
  obtain ⟨hcount, hshort⟩ := numbered
  have counted : ∀ i : Int, i.natAbs < 10 ^ startDigits →
      i.natAbs + children.length ≤ 10 ^ Text.Numeral.maxDigits :=
    fun i hi => bound_of_short (by decide) (by decide) hi hcount
  have hone : (1 : Int).natAbs < 10 ^ startDigits := Nat.one_lt_pow (by decide) (by decide)
  unfold badStart? at hbad
  unfold startNumber
  split
  · exact ⟨1, rfl, counted 1 hone⟩
  · exact ⟨1, rfl, counted 1 hone⟩
  · rename_i s hne hs
    simp only [hs] at hbad hshort
    split
    · rename_i hordered
      rw [if_pos hordered] at hbad
      cases hread : Text.Numeral.toInt s.toList with
      | ok i =>
        simp only [hread, decide_eq_true_eq] at hshort
        exact ⟨i, rfl, counted i hshort⟩
      | error r =>
        rw [hread] at hbad
        cases hbad
    · exact ⟨1, rfl, counted 1 hone⟩

theorem startNumber_eq_throw {data : ListData} {s : String} (hbad : badStart? data = some s) :
    startNumber data = throw (.badStart s) := by
  obtain ⟨ordered, start, given, bad⟩ := badStart?_eq_some_iff.mp hbad
  have hordered : data.ordered = true := beq_iff_eq.mpr ordered
  unfold startNumber
  split
  · rename_i hnone
    rw [start] at hnone
    cases hnone
  · rename_i hempty
    rw [start, Option.some.injEq] at hempty
    exact absurd hempty given
  · rename_i t hne hstart
    rw [start, Option.some.injEq] at hstart
    subst hstart
    rw [if_pos hordered]
    split
    · rename_i i hread
      exact absurd hread (bad i)
    · rfl

variable {ns : List Node} {g : Node → List WriteFault}

theorem finds_each (h : ∀ n ∈ ns, Finds (node style n) (gather g n)) :
    Finds (each style ns) (gatherAll g ns) := by
  induction ns with
  | nil =>
    rw [each]
    exact finds_pure _
  | cons n ns ih =>
    obtain ⟨hn, hns⟩ := List.forall_mem_cons.mp h
    rw [each, gatherAll_cons]
    exact hn.bind fun _ => ih hns

theorem finds_refuseForeign (h : ∀ n ∈ ns, n.kind?.isSome) : Finds (refuseForeign ns) [] := by
  have hnone : ns.find? (fun n => n.kind?.isNone) = none := by
    rw [List.find?_eq_none]
    intro n hn
    rw [Option.isNone_iff_eq_none, ← Option.not_isSome_iff_eq_none, not_not]
    exact h n hn
  rw [refuseForeign, hnone]
  exact finds_pure _

theorem finds_inlines (kinds : ∀ n ∈ ns, n.kind?.isSome)
    (h : ∀ n ∈ ns, Finds (node style n) (gather g n)) :
    Finds (inlines style ns) (gatherAll g ns) := by
  rw [inlines]
  refine (finds_refuseForeign kinds).after fun _ => finds_beginCapture.after fun saved => ?_
  exact (finds_each h).before fun _ => finds_endCapture saved

/-- Writes an item after its number, and then what is left of the list. -/
def writeItem (style : Style) (data : ListData) (tight : Bool) (number : Int) (n : Node)
    (rest : Writing Unit) : Writing Unit :=
  match marker style data number with
  | .error f => throw f
  | .ok mark => do
    modify fun l => { l with markers := (mark, tight) :: l.markers }
    node style n
    modify fun l => { l with markers := l.markers.tail }
    rest

/-- All items but the first have a separator before them. -/
theorem items_cons (data : ListData) (tight : Bool) (number : Int) (first : Bool) (n : Node)
    (ns : List Node) :
    items style data tight number first (n :: ns) = (do
      let l ← get
      if !first then
        emit (if tight then ['\n'] else ['\n', '\n'])
        emit (List.replicate l.indent ' ')
      writeItem style data tight number n (items style data tight (number + 1) false ns)) := by
  rw [items]
  rfl

theorem finds_items (h : ∀ n ∈ ns, Finds (node style n) (gather g n))
    (data : ListData) (tight : Bool) (number : Int) (first : Bool)
    (bound : number.natAbs + ns.length ≤ 10 ^ Text.Numeral.maxDigits) :
    Finds (items style data tight number first ns) (gatherAll g ns) := by
  induction ns generalizing number first with
  | nil =>
    rw [items]
    exact finds_pure _
  | cons n ns ih =>
    obtain ⟨hn, hns⟩ := List.forall_mem_cons.mp h
    rw [List.length_cons] at bound
    have short : number.natAbs < 10 ^ Text.Numeral.maxDigits := by omega
    obtain ⟨mark, hmark⟩ := marker_eq_ok style data short
    have hrest : Finds (items style data tight (number + 1) false ns) (gatherAll g ns) :=
      ih hns (number + 1) false (by omega)
    have hitem : Finds (writeItem style data tight number n
        (items style data tight (number + 1) false ns)) (gather g n ++ gatherAll g ns) := by
      rw [writeItem, hmark]
      exact (finds_modify _).after fun _ => hn.bind fun _ => (finds_modify _).after fun _ => hrest
    rw [items_cons, gatherAll_cons]
    refine finds_get.after fun l => ?_
    dsimp only
    split
    · exact (finds_emit _).after fun _ => (finds_emit _).after fun _ => hitem
    · exact hitem

/-- Blocks and runs of inline nodes find what the nodes among them find. -/
theorem finds_blocks (hnode : ∀ n ∈ ns, isInline n → Finds (node style n) (gather g n))
    (hblock : ∀ n ∈ ns, ¬isInline n → Finds (block style n) (gather g n)) :
    Finds (blocks style ns) (gatherAll g ns) ∧
      ∀ saved, Finds (run style saved ns) (gatherAll g ns) := by
  induction ns with
  | nil =>
    refine ⟨?_, fun saved => ?_⟩
    · rw [blocks]
      exact finds_pure _
    · rw [run]
      exact (finds_endCapture saved).after fun _ => finds_emit _
  | cons n ns ih =>
    obtain ⟨hn, hns⟩ := List.forall_mem_cons.mp hnode
    obtain ⟨hb, hbs⟩ := List.forall_mem_cons.mp hblock
    obtain ⟨hblocks, hrun⟩ := ih hns hbs
    rw [gatherAll_cons]
    -- An inline node goes on with the run that it opens or continues, a block with further blocks.
    by_cases hinline : isInline n
    · refine ⟨?_, fun saved => ?_⟩
      · rw [blocks, if_pos hinline]
        exact finds_startBlock.after fun _ => finds_beginCapture.after fun saved =>
          (hn hinline).bind fun _ => hrun saved
      · rw [run, if_pos hinline]
        exact (hn hinline).bind fun _ => hrun saved
    · refine ⟨?_, fun saved => ?_⟩
      · rw [blocks, if_neg hinline]
        exact (hb hinline).bind fun _ => hblocks
      · rw [run, if_neg hinline]
        exact (finds_endCapture saved).after fun _ => (finds_emit _).after fun _ =>
          (hb hinline).bind fun _ => hblocks

/-- A node that is no foreign value and that finds its faults wherever it stands. -/
structure IsFound (style : Style) (k : Nat) (n : Node) : Prop where
  kind : n.kind?.isSome
  node : Finds (node style n) (gather (faultsAt k) n)
  block : Finds (block style n) (gather (faultsAt k) n)

theorem block_leaf (style : Style) (l : Leaf) (span : Option Span) :
    block style (.leaf l span) = (do startBlock; node style (.leaf l span)) := by
  rw [block]
  all_goals simp

theorem isFound_leaf (hfence : style.fenceMin = .whole k) (l : Leaf) (span : Option Span) :
    IsFound style k (.leaf l span) := by
  have hleaf : Finds (node style (.leaf l span)) (gather (faultsAt k) (.leaf l span)) := by
    rw [node, gather_leaf]
    exact finds_leaf hfence l span
  refine ⟨rfl, hleaf, ?_⟩
  rw [block_leaf]
  exact finds_startBlock.after fun _ => hleaf

theorem finds_branch {children : List Node} (h : ∀ n ∈ children, IsFound style k n)
    (c : Container) (span : Option Span) (numbered : isNumbered (.branch c span children)) :
    Finds
      (node style (.branch c span children)) (gather (faultsAt k) (.branch c span children)) := by
  have hblocks : Finds (blocks style children) (gatherAll (faultsAt k) children) :=
    (finds_blocks (fun n hn _ => (h n hn).node) fun n hn _ => (h n hn).block).1
  have hinlines : Finds (inlines style children) (gatherAll (faultsAt k) children) :=
    finds_inlines (fun n hn => (h n hn).kind) fun n hn => (h n hn).node
  rw [gather_branch]
  cases c with
  | document xmlns | clause clauseid src clauseText =>
    rw [node]
    exact hblocks
  | paragraph =>
    rw [node]
    exact hinlines.before fun _ => finds_emit _
  | heading level =>
    rw [node]
    exact hinlines.before fun _ => finds_emit _
  | blockQuote =>
    rw [node]
    exact finds_get.after fun saved => (finds_set _).after fun _ => hblocks.before fun _ =>
      finds_get.after fun _ => (finds_set _).after fun _ => finds_emit _
  | list data =>
    rw [node, faultsAt, faultAt?]
    cases hbad : badStart? data with
    | some s =>
      -- The start is read before any item, so that the faults of the items do not matter.
      rw [startNumber_eq_throw hbad]
      exact fun _ => .failed
    | none =>
      obtain ⟨i, hstart, bound⟩ := startNumber_eq_pure hbad numbered
      rw [hstart, pure_bind]
      exact finds_items (fun n hn => (h n hn).node) data _ i true bound
  | item =>
    rw [node]
    exact finds_get.after fun saved => (finds_set _).after fun _ => hblocks.before fun _ =>
      finds_get.after fun _ => (finds_set _).after fun _ => finds_emit _
  | emph | strong =>
    rw [node]
    exact hinlines.before fun _ => finds_emit _
  | link dest title =>
    rw [node]
    exact (finds_guardLink style).after fun _ => hinlines.before fun _ => finds_emit _
  | image dest title =>
    rw [node]
    exact hinlines.before fun _ => finds_emit _
  | templateVariable id value | computedVariable value =>
    rw [node]
    split
    · rename_i hempty
      rw [List.isEmpty_iff.mp hempty]
      exact finds_emit _
    · exact hinlines.before fun _ => finds_emit _

/-- Only lists and code blocks have faults of their own, and they are not written as their
children. -/
theorem faultsAt_of_isTransparent {n : Node} (h : isTransparent n) : faultsAt k n = [] := by
  cases n with
  | branch c span children => cases c <;> first | rfl | cases h
  | _ => cases h

theorem isFound_branch {children : List Node} (h : ∀ n ∈ children, IsFound style k n)
    (c : Container) (span : Option Span) (numbered : isNumbered (.branch c span children)) :
    IsFound style k (.branch c span children) := by
  have hbranch := finds_branch h c span numbered
  refine ⟨rfl, hbranch, ?_⟩
  rw [block]
  split
  · rename_i htransparent
    rw [gather_branch, faultsAt_of_isTransparent htransparent]
    exact (finds_blocks (fun n hn _ => (h n hn).node) fun n hn _ => (h n hn).block).1
  · exact finds_startBlock.after fun _ => hbranch

/-- Wherever a node stands, it is visited, and nothing else is refused. -/
theorem isFound_of_gather (hfence : style.fenceMin = .whole k) (n : Node) :
    gather obstaclesAt n = [] → IsFound style k n := by
  induction n using Node.inductionOnChildren with
  | leaf l span =>
    intro _
    exact isFound_leaf hfence l span
  | branch c span children ih =>
    intro hnone
    rw [gather_branch, List.append_eq_nil_iff, gatherAll_eq_nil_iff] at hnone
    obtain ⟨hown, hbelow⟩ := hnone
    have numbered : isNumbered (.branch c span children) := by
      simpa [obstaclesAt, Node.kind?] using hown
    exact isFound_branch (fun n hn => ih n hn (hbelow n hn)) c span numbered
  | foreign v =>
    intro hnone
    rw [gather_foreign] at hnone
    cases hnone

/-- The work on a document is the work on what is merged of it. -/
theorem finds_document_of_node {xmlns : String} {span : Option Span}
    {children : List Node} {faults : List WriteFault}
    (h : Finds (node style (merged (.branch (.document xmlns) span children))) faults) :
    Finds (document style (.branch (.document xmlns) span children)) faults :=
  (finds_set _).after fun _ => h.before fun _ => finds_get.after fun _ =>
    (finds_modify _).after fun _ => finds_pure _

theorem finds_document (hfence : style.fenceMin = .whole k) {n : Node}
    (hdocument : n.kind? = some .document) (hnone : gather obstaclesAt n = []) :
    Finds (document style n) (gather (faultsAt k) n) := by
  have hfound :=
    isFound_of_gather hfence (merged n) (by rw [gather_merged isSteady_obstaclesAt, hnone])
  have hnode := hfound.node
  rw [gather_merged (isSteady_faultsAt k)] at hnode
  obtain ⟨xmlns, span, children, rfl⟩ := Schema.eq_document_of_kind? hdocument
  exact finds_document_of_node hnode

end Writer

theorem head?_gather_faultsAt (k : Nat) (n : Node) :
    (gather (faultsAt k) n).head? = (preorder n).findSome? (faultAt? k) := by
  rw [gather, List.head?_flatMap]
  simp only [faultsAt, Option.head?_toList]

/-- A document is refused for the first fault that the work on it finds, and else it is written. -/
theorem write_of_finds {style : Style} {n : Node} {faults : List WriteFault}
    (h : Finds (Writer.document style n) faults) :
    match faults.head? with
    | none => ∃ text, write style n = .ok text
    | some f => write style n = .error f := by
  have hends := h {}
  rw [write]
  generalize Writer.document style n {} = result at hends
  cases hends with
  | done => exact ⟨_, rfl⟩
  | failed => rfl

/-- A document is refused for the first fault in it, and else it is written. -/
theorem write_ends {style : Style} {k : Nat} (hfence : style.fenceMin = .whole k) {n : Node}
    (hdocument : n.kind? = some .document) (hnone : gather obstaclesAt n = []) :
    match (preorder n).findSome? (faultAt? k) with
    | none => ∃ text, write style n = .ok text
    | some f => write style n = .error f := by
  rw [← head?_gather_faultsAt]
  exact write_of_finds (Writer.finds_document hfence hdocument hnone)

/-- What a document is refused for is told by the first node that has a fault of its own. -/
theorem fault_of_findSome? {k : Nat} {ns : List Node} {fault : WriteFault}
    (h : ns.findSome? (faultAt? k) = some fault) :
    ∃ before m after, ns = before ++ m :: after ∧
      (∀ b ∈ before, ¬HasBadStart b ∧ ¬NeedsEndlessFence k b) ∧ ((HasBadStart m ∧
        ∃ s, fault = .badStart s) ∨ (NeedsEndlessFence k m ∧ fault = .endlessFence)) := by
  obtain ⟨before, m, after, hsplit, hm, hbefore⟩ := List.findSome?_eq_some_iff.mp h
  refine ⟨before, m, after, hsplit, fun b hb => ?_, ?_⟩
  · obtain ⟨_, hfree⟩ | ⟨_, s, hs⟩ | ⟨_, hs⟩ := faultAt?_cases k b
    · exact hfree
    · rw [hbefore b hb] at hs
      cases hs
    · rw [hbefore b hb] at hs
      cases hs
  · obtain ⟨hs, _⟩ | ⟨hbad, s, hs⟩ | ⟨hlong, hs⟩ := faultAt?_cases k m
    · rw [hm] at hs
      cases hs
    · rw [hm] at hs
      exact .inl ⟨hbad, s, Option.some.inj hs⟩
    · rw [hm] at hs
      exact .inr ⟨hlong, Option.some.inj hs⟩

theorem findSome?_eq_none_iff {k : Nat} {ns : List Node} :
    ns.findSome? (faultAt? k) = none ↔ ∀ m ∈ ns, ¬HasBadStart m ∧ ¬NeedsEndlessFence k m := by
  rw [List.findSome?_eq_none_iff]
  refine forall₂_congr fun m _ => ?_
  obtain ⟨hs, hfree⟩ | ⟨hbad, s, hs⟩ | ⟨hlong, hs⟩ := faultAt?_cases k m
  · simp [hs, hfree]
  · simp [hs, hbad]
  · simp [hs, hlong]

theorem gather_obstaclesAt {n : Node} (typed : Schema.foreign? n = none)
    (numbered : ∀ m ∈ preorder n, isNumbered m) : gather obstaclesAt n = [] := by
  have hforeign := gather_foreignAt_eq_nil_iff.mpr typed
  rw [gather_eq_nil_iff] at hforeign ⊢
  intro m hm
  have hkind := hforeign m hm
  cases m with
  | foreign v => cases hkind
  | _ => rw [obstaclesAt, numbered _ hm]; rfl

/-- A typed document is refused if and only if some ordered list in it, wherever it stands, has a
start that is no number, or some code block needs a fence beyond all bounds. The first of these
nodes decides what is told about it. -/
theorem write_refuses_iff {o : Options} {k : Int}
    (fence : o.values.get? "code_fence_min" = some (.int k)) {n : Node}
    (hdocument : n.kind? = some .document) (typed : Schema.foreign? n = none)
    (numbered : ∀ m ∈ preorder n, isNumbered m) :
    ((∃ fault, write o.style n = .error fault) ↔
      ∃ m ∈ preorder n, HasBadStart m ∨ NeedsEndlessFence k.toNat m) ∧
    ((∃ text, write o.style n = .ok text) ↔
      ∀ m ∈ preorder n, ¬HasBadStart m ∧ ¬NeedsEndlessFence k.toNat m) ∧
    ∀ fault, write o.style n = .error fault →
      ∃ before m after, preorder n = before ++ m :: after ∧
        (∀ b ∈ before, ¬HasBadStart b ∧ ¬NeedsEndlessFence k.toNat b) ∧
        ((HasBadStart m ∧ (Fault.write fault).report.family = .failure .rendering ∧
            (Fault.write fault).report.stage = some "list" ∧
            (Fault.write fault).report.valueCause) ∨
          (NeedsEndlessFence k.toNat m ∧ (Fault.write fault).report.family = .overflow)) := by
  have hfence : o.style.fenceMin = .whole k.toNat := by rw [Options.style, fence]
  have hends := write_ends hfence hdocument (gather_obstaclesAt typed numbered)
  have hfaulty : (∃ m ∈ preorder n, HasBadStart m ∨ NeedsEndlessFence k.toNat m) ↔
      ¬(preorder n).findSome? (faultAt? k.toNat) = none := by
    rw [findSome?_eq_none_iff]
    simp only [← not_or, not_forall, not_not, exists_prop]
  rw [hfaulty, ← findSome?_eq_none_iff]
  cases hfirst : (preorder n).findSome? (faultAt? k.toNat) with
  | none =>
    rw [hfirst] at hends
    obtain ⟨text, htext⟩ := hends
    simp [htext]
  | some f =>
    rw [hfirst] at hends
    refine ⟨by simp [hends], by simp [hends], fun fault hfault => ?_⟩
    rw [hends] at hfault
    cases hfault
    obtain ⟨before, m, after, hsplit, hbefore, ⟨hbad, s, rfl⟩ | ⟨hlong, rfl⟩⟩ :=
      fault_of_findSome? hfirst
    · exact ⟨before, m, after, hsplit, hbefore, .inl ⟨hbad, rfl, rfl, rfl⟩⟩
    · exact ⟨before, m, after, hsplit, hbefore, .inr ⟨hlong, rfl⟩⟩

/-- Options with fences of at least `fenceMin` backticks. -/
def fenceOptions (fenceMin : Int) : Options where
  cls := .markdownRenderer
  values := [("no_index", .bool false), ("escape_special", .bool true), ("bullet_symbol", .str "-"),
    ("code_fence_min", .int fenceMin)]

/-- A list that starts with a letter. -/
def letteredList : Node := .branch (.list { listType := "ordered", start := some "x" }) none []

theorem hasBadStart_letteredList : HasBadStart letteredList := by
  have hread : Text.Numeral.toInt "x".toList = .error .malformed := by rfl
  refine .mk rfl rfl (by decide) fun i hi => ?_
  rw [hread] at hi
  cases hi

/-- Such a list in the text of a link. -/
def linkedList : Node :=
  .branch (.document defaultNamespace) none
    [.branch .paragraph none [.branch (.link "" "") none [letteredList]]]

theorem write_refuses_linkedList :
    (fenceOptions 3).values.get? "code_fence_min" = some (.int 3) ∧
      linkedList.kind? = some .document ∧ Schema.foreign? linkedList = none ∧
      (∀ m ∈ preorder linkedList, isNumbered m) ∧
      ∃ fault, write (fenceOptions 3).style linkedList = .error fault := by
  have fence : (fenceOptions 3).values.get? "code_fence_min" = some (.int 3) := by rfl
  have numbered : ∀ m ∈ preorder linkedList, isNumbered m := by decide
  have hlist : letteredList ∈ preorder linkedList := by
    simp [linkedList, letteredList, preorder, preorder.preorderAll]
  exact ⟨fence, rfl, rfl, numbered, (write_refuses_iff fence rfl rfl numbered).1.mpr
    ⟨letteredList, hlist, .inl hasBadStart_letteredList⟩⟩

/-- Such a list after a code block. -/
def fencedList : Node :=
  .branch (.document defaultNamespace) none [.leaf (.codeBlock "" none none) none, letteredList]

/-- A fence that is longer than a text can be is no fault of rendering. -/
theorem write_of_endlessFence :
    Options.construct .markdownRenderer [("code_fence_min", .int 0x8000000000000000)] =
        .ok (fenceOptions 0x8000000000000000) ∧
      fencedList.kind? = some .document ∧ Schema.foreign? fencedList = none ∧
      (∃ m ∈ preorder fencedList, HasBadStart m) ∧
      write (fenceOptions 0x8000000000000000).style fencedList = .error .endlessFence ∧
      (Fault.write .endlessFence).report.family ≠ .failure .rendering := by
  have hfence : (fenceOptions 0x8000000000000000).style.fenceMin = .whole 0x8000000000000000 := by
    rfl
  have hlist : letteredList ∈ preorder fencedList := by
    simp [fencedList, letteredList, preorder, preorder.preorderAll]
  have hfirst : (preorder fencedList).findSome? (faultAt? 0x8000000000000000) =
      some .endlessFence := by
    decide
  have numbered : ∀ m ∈ preorder fencedList, isNumbered m := by decide
  have hends := write_ends hfence rfl (gather_obstaclesAt rfl numbered)
  rw [hfirst] at hends
  exact ⟨rfl, rfl, rfl, ⟨letteredList, hlist, hasBadStart_letteredList⟩, hends, by decide⟩

end Canonmark.Markdown
