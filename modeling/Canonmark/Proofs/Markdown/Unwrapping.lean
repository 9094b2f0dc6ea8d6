import Canonmark.Proofs.Markdown.Splitting

/-! Clauses, and paragraphs that hold blocks, make no difference to what is written: their children
may stand in their place. -/
namespace Canonmark.Markdown

/-- Containers of which the children are blocks. -/
def holdsBlocks : Container → Bool
  | .document _ | .blockQuote | .item | .clause .. => true
  | _ => false

/-- Two trees of which the second has the children of a transparent node of the first in place of
that node. No inline node may stand next to it, since it would come to share a run with the
children. -/
inductive Unwraps : Node → Node → Prop
  | here {c d : Container} {at? : Option Span} {before inner after : List Node}
      (holds : holdsBlocks c) (transparent : isTransparent (.branch d at? inner))
      (apart : ∀ n ∈ before.getLast?, ¬isInline n) (apart' : ∀ n ∈ after.head?, ¬isInline n)
      (span span' : Option Span) : Unwraps (.branch c span (before ++ .branch d at? inner :: after))
        (.branch c span' (before ++ inner ++ after))
  | deeper (c : Container) {n m : Node} (h : Unwraps n m) (before after : List Node)
      (span span' : Option Span) :
      Unwraps (.branch c span (before ++ n :: after)) (.branch c span' (before ++ m :: after))

namespace BlockUnit

/-- Children are grouped apart where no inline nodes meet. -/
theorem ofChildren_append {before after : List Node}
    (h : (∀ n ∈ before.getLast?, ¬isInline n) ∨ ∀ n ∈ after.head?, ¬isInline n) :
    ofChildren (before ++ after) = ofChildren before ++ ofChildren after := by
  induction before using inductionOnBlocks with
  | inline run hrun =>
    obtain rfl | ⟨init, last, rfl⟩ := List.eq_nil_or_concat' run
    · rfl
    obtain hlast | hhead := h
    · exact absurd (hrun last (by simp)) (hlast last (by simp))
    · cases after with
      | nil =>
        rw [List.append_nil]
        exact (List.append_nil _).symm
      | cons n after =>
        have hn : ¬isInline n := hhead n rfl
        rw [ofChildren_block hrun hn, ← List.nil_append (n :: after), ofChildren_block (by simp) hn]
        rfl
  | block run n ns hrun hn ih =>
    rw [List.append_assoc, List.cons_append, ofChildren_block hrun hn, ofChildren_block hrun hn,
      List.append_assoc, List.append_assoc, ih (h.imp_left fun hlast m hm => hlast m ?_)]
    rw [List.getLast?_append, List.getLast?_cons, hm]
    rfl

theorem ofBlock_of_transparent {c : Container} {span : Option Span}
    {children : List Node} (h : isTransparent (.branch c span children)) :
    ofBlock (.branch c span children) = ofChildren children := by
  rw [ofBlock, if_pos h, ofChildren]

end BlockUnit

theorem not_isInline_of_isTransparent {n : Node} (h : isTransparent n) : ¬isInline n := by
  cases n with
  | branch c span children =>
    cases c with
    | clause clauseid src clauseText => exact nofun
    | paragraph => exact nofun
    | _ => cases h
  | _ => cases h

/-- A transparent node is grouped as its children are in its place. -/
theorem ofChildren_unwrap {d : Container} {at? : Option Span} {before inner after : List Node}
    (transparent : isTransparent (.branch d at? inner)) (apart : ∀ n ∈ before.getLast?, ¬isInline n)
    (apart' : ∀ n ∈ after.head?, ¬isInline n) :
    BlockUnit.ofChildren (before ++ .branch d at? inner :: after) =
      BlockUnit.ofChildren (before ++ inner ++ after) := by
  have hblock := not_isInline_of_isTransparent transparent
  have hnode : BlockUnit.ofChildren (.branch d at? inner :: after) =
      BlockUnit.ofChildren inner ++ BlockUnit.ofChildren after := by
    rw [← BlockUnit.ofBlock_of_transparent transparent]
    exact @BlockUnit.ofChildren_block [] (by simp) _ hblock after
  rw [List.append_assoc, BlockUnit.ofChildren_append (.inl apart),
    BlockUnit.ofChildren_append (.inl apart), hnode, BlockUnit.ofChildren_append (.inr apart')]

theorem Unwraps.kind? {n m : Node} (h : Unwraps n m) : n.kind? = m.kind? := by
  cases h <;> rfl

theorem Unwraps.isInline {n m : Node} (h : Unwraps n m) : isInline n = isInline m :=
  isInline_congr h.kind?

theorem Unwraps.isTransparent {n m : Node} (h : Unwraps n m) :
    isTransparent n = isTransparent m := by
  cases h with
  | @here c d at? before inner after holds transparent apart apart' span span' =>
    cases c <;> first | rfl | cases holds
  | deeper c h before after span span' =>
    cases c with
    | paragraph => simp [Markdown.isTransparent, h.isInline]
    | _ => rfl

namespace BlockUnit

/-- Units that are the same but for one node of at most a given weight. -/
inductive Alike (bound : Nat) : BlockUnit → BlockUnit → Prop
  | same (u : BlockUnit) : Alike bound u u
  | single {n m : Node} (h : Unwraps n m) (light : weight n ≤ bound) :
      Alike bound (.single n) (.single m)
  | run {n m : Node} (h : Unwraps n m) (before after : List Node)
      (light : weightAll (before ++ n :: after) ≤ bound) :
      Alike bound (.run (before ++ n :: after)) (.run (before ++ m :: after))

theorem Alike.mono {bound bound' : Nat} (h : bound ≤ bound') {u v : BlockUnit}
    (alike : Alike bound u v) : Alike bound' u v := by
  cases alike with
  | same u => exact .same u
  | single unwraps light => exact .single unwraps (light.trans h)
  | run unwraps before after light => exact .run unwraps before after (light.trans h)

theorem forall₂_alike_refl (bound : Nat) (us : List BlockUnit) : us.Forall₂ (Alike bound) us :=
  List.forall₂_same.mpr fun u _ => .same u

/-- Changing a child changes the units that come from it. -/
theorem forall₂_ofChildren {bound : Nat} {n m : Node} (h : Unwraps n m)
    (ofBlock : ¬isInline n → (ofBlock n).Forall₂ (Alike bound) (ofBlock m))
    {before after : List Node} (light : weightAll (before ++ n :: after) ≤ bound) :
    (ofChildren (before ++ n :: after)).Forall₂ (Alike bound)
    (ofChildren (before ++ m :: after)) := by
  induction before using inductionOnBlocks with
  | block run k ns hrun hk ih =>
    rw [List.append_assoc, List.append_assoc, List.cons_append, List.cons_append,
      ofChildren_block hrun hk, ofChildren_block hrun hk]
    refine List.rel_append (forall₂_alike_refl _ _)
      (List.rel_append (forall₂_alike_refl _ _) (ih ?_))
    simp only [weightAll_append, weightAll_cons] at light ⊢
    omega
  | inline run hrun =>
    by_cases hn : isInline n
    · -- The node shares its run with the inline nodes around it.
      have hm : isInline m := h.isInline ▸ hn
      obtain ⟨inline, rest, rfl, hinline, hrest⟩ : ∃ inline rest, after = inline ++ rest ∧
          (∀ k ∈ inline, isInline k) ∧ ∀ k ∈ rest.head?, ¬isInline k :=
        ⟨after.takeWhile isInline, after.dropWhile isInline, List.takeWhile_append_dropWhile.symm,
          fun k hk => List.mem_takeWhile_imp hk, fun k hk hinline => by
            have hfirst := List.head?_dropWhile_not isInline after
            simp_all⟩
      have hgroup : ∀ k, isInline k → ofChildren (run ++ k :: (inline ++ rest)) =
          .run (run ++ k :: inline) :: ofChildren rest := by
        intro k hk
        have hall : ∀ x ∈ run ++ k :: inline, isInline x := by
          simpa [or_imp, forall_and, hk] using ⟨hrun, hinline⟩
        rw [← List.cons_append, ← List.append_assoc, ofChildren_append (.inr hrest),
          ofChildren_inline hall]
        simp
      rw [hgroup n hn, hgroup m hm]
      refine .cons (.run h run inline ?_) (forall₂_alike_refl _ _)
      simp only [weightAll_append, weightAll_cons] at light ⊢
      omega
    · rw [ofChildren_block hrun hn, ofChildren_block hrun (h.isInline ▸ hn)]
      exact List.rel_append (forall₂_alike_refl _ _)
        (List.rel_append (ofBlock hn) (forall₂_alike_refl _ _))

theorem forall₂_ofBlock {n m : Node} (h : Unwraps n m) :
    (ofBlock n).Forall₂ (Alike (weight n)) (ofBlock m) := by
  induction h with
  | @here c d at? before inner after holds transparent apart apart' span span' =>
    have hunwraps := Unwraps.here holds transparent apart apart' span span'
    have hsame := hunwraps.isTransparent
    by_cases hc : isTransparent (.branch c span (before ++ .branch d at? inner :: after))
    · rw [ofBlock_of_transparent hc, ofBlock_of_transparent (hsame ▸ hc),
        ofChildren_unwrap transparent apart apart']
      exact forall₂_alike_refl _ _
    · rw [ofBlock, ofBlock, if_neg hc, if_neg (hsame ▸ hc)]
      exact .cons (.single hunwraps (Nat.le_refl _)) .nil
  | @deeper c n m h before after span span' ih =>
    have hunwraps := Unwraps.deeper c h before after span span'
    have hsame := hunwraps.isTransparent
    have hweight := weight_branch c span (before ++ n :: after)
    by_cases hc : isTransparent (.branch c span (before ++ n :: after))
    · rw [ofBlock_of_transparent hc, ofBlock_of_transparent (hsame ▸ hc)]
      refine forall₂_ofChildren h (fun _ => ih.imp fun u v alike => alike.mono ?_) (by omega)
      simp only [weightAll_append, weightAll_cons] at hweight
      omega
    · rw [ofBlock, ofBlock, if_neg hc, if_neg (hsame ▸ hc)]
      exact .cons (.single hunwraps (Nat.le_refl _)) .nil

/-- The units of the children of a container that is changed below one child. -/
theorem forall₂_ofChildren_of_unwraps {n m : Node} (h : Unwraps n m) (before after : List Node) :
    (ofChildren (before ++ n :: after)).Forall₂ (Alike (weightAll (before ++ n :: after)))
      (ofChildren (before ++ m :: after)) := by
  refine forall₂_ofChildren h (fun _ => (forall₂_ofBlock h).imp fun u v alike => alike.mono ?_)
    (Nat.le_refl _)
  simp only [weightAll_append, weightAll_cons]
  omega

/-- What is told from a unit for the blank lines around it. -/
theorem Alike.flags {bound : Nat} {u v : BlockUnit} (h : Alike bound u v) :
    u.isParagraphLike = v.isParagraphLike ∧ u.isEmptyParagraph = v.isEmptyParagraph ∧
      u.isHtml = v.isHtml ∧ u.endsItself = v.endsItself := by
  cases h with
  | same u => exact ⟨rfl, rfl, rfl, rfl⟩
  | run h before after light => exact ⟨rfl, rfl, rfl, rfl⟩
  | single h light =>
    cases h with
    | @here c d at? before inner after holds transparent apart apart' span span' =>
      cases c <;> first | exact ⟨rfl, rfl, rfl, rfl⟩ | cases holds
    | deeper c h before after span span' =>
      cases c with
      | paragraph => cases before <;> exact ⟨rfl, rfl, rfl, rfl⟩
      | _ => exact ⟨rfl, rfl, rfl, rfl⟩

end BlockUnit

theorem forall₂_itemUnits {n m : Node} (h : Unwraps n m) :
    (itemUnits n).Forall₂ (BlockUnit.Alike (weight n)) (itemUnits m) := by
  cases h with
  | @here c d at? before inner after holds transparent apart apart' span span' =>
    cases c with
    | item =>
      rw [itemUnits, itemUnits, ofChildren_unwrap transparent apart apart']
      exact BlockUnit.forall₂_alike_refl _ _
    | _ => exact .nil
  | @deeper c n m h before after span span' =>
    cases c with
    | item =>
      refine (BlockUnit.forall₂_ofChildren_of_unwraps h before after).imp
        fun u v alike => alike.mono ?_
      rw [weight_branch]
      omega
    | _ => exact .nil

theorem canInterrupt_of_unwraps {n m : Node} (h : Unwraps n m) (style : Style) (data : ListData)
    (before after : List Node) :
    canInterrupt style data (before ++ n :: after) =
      canInterrupt style data (before ++ m :: after) := by
  cases before with
  | cons k before => rfl
  | nil =>
    have hall : ∀ {us vs : List BlockUnit}, us.Forall₂ (BlockUnit.Alike (weight n)) vs →
        us.all BlockUnit.isEmptyParagraph = vs.all BlockUnit.isEmptyParagraph := by
      intro us vs hunits
      induction hunits with
      | nil => rfl
      | cons alike _ ih => rw [List.all_cons, List.all_cons, alike.flags.2.1, ih]
    rw [List.nil_append, List.nil_append, canInterrupt, canInterrupt, hall (forall₂_itemUnits h)]

theorem BlockUnit.Alike.cannotInterrupt {bound : Nat} {u v : BlockUnit} (h : Alike bound u v)
    (style : Style) : u.cannotInterrupt style = v.cannotInterrupt style := by
  cases h with
  | same u => rfl
  | run h before after light => rfl
  | single h light =>
    cases h with
    | @here c d at? before inner after holds transparent apart apart' span span' =>
      cases c <;> first | rfl | cases holds
    | deeper c h before after span span' =>
      cases c with
      | list data => exact congrArg (!·) (canInterrupt_of_unwraps h style data before after)
      | _ => rfl

theorem anyNeedsBlankLine_of_alike {bound : Nat} {us vs : List BlockUnit}
    (h : us.Forall₂ (BlockUnit.Alike bound) vs) (style : Style) :
    anyNeedsBlankLine style us = anyNeedsBlankLine style vs := by
  induction h with
  | nil => rfl
  | @cons u v us vs alike hrest ih =>
    cases hrest with
    | nil => rfl
    | cons alike' _ =>
      obtain ⟨hlike, -, hhtml, hends⟩ := alike.flags
      obtain ⟨hlike', -, hhtml', -⟩ := alike'.flags
      rw [anyNeedsBlankLine, anyNeedsBlankLine, ih, needsBlankLine_eq, needsBlankLine_eq, hlike,
        hhtml, hends, hlike', hhtml', alike'.cannotInterrupt]

theorem isWrittenTight_of_unwraps {n m : Node} (h : Unwraps n m) (style : Style) (data : ListData)
    (before after : List Node) :
    isWrittenTight style data (before ++ n :: after) =
      isWrittenTight style data (before ++ m :: after) := by
  have hitem : anyNeedsBlankLine style (itemUnits n) = anyNeedsBlankLine style (itemUnits m) :=
    anyNeedsBlankLine_of_alike (forall₂_itemUnits h) style
  rw [isWrittenTight, isWrittenTight, List.any_append, List.any_append, List.any_cons,
    List.any_cons, hitem]

/-- Adjoining a changed node changes one of the siblings. -/
theorem adjoin_of_unwraps {n m : Node} (h : Unwraps n m) (siblings : List Node) :
    ∃ before n' m',
      Unwraps n' m' ∧ adjoin siblings n = before ++ [n'] ∧ adjoin siblings m = before ++ [m'] := by
  obtain rfl | ⟨before, k, rfl⟩ := List.eq_nil_or_concat' siblings
  · exact ⟨[], n, m, h, rfl, rfl⟩
  have hsame : folds k n = folds k m := folds_congr rfl h.kind?
  by_cases hfolds : folds k n
  · rw [adjoin_of_folds hfolds, adjoin_of_folds (hsame ▸ hfolds)]
    refine ⟨before, joined k n, joined k m, ?_, rfl, rfl⟩
    obtain ⟨_, _, _, _, _, rfl⟩ | ⟨_, _, _, _, _, rfl⟩ | ⟨c, _, _, first, _, hc, rfl, rfl⟩ :=
      folds_cases hfolds
    · cases h
    · cases h
    · cases h with
      | here holds => obtain rfl | rfl := hc <;> cases holds
      | deeper _ h before after span span' =>
        rw [joined, joined, ← List.append_assoc, ← List.append_assoc]
        exact .deeper c h (first ++ before) after none none
  · have hapart : folds k n = false := by simpa using hfolds
    refine ⟨before ++ [k], n, m, h, adjoin_of_apart ?_, adjoin_of_apart ?_⟩
    · simpa using hapart
    · simpa [← hsame] using hapart

theorem adjoin_append_cons {siblings : List Node} (h : siblings ≠ []) (before : List Node)
    (n k : Node) : adjoin (before ++ n :: siblings) k = before ++ n :: adjoin siblings k := by
  obtain ⟨init, last, rfl⟩ := (List.eq_nil_or_concat' siblings).resolve_left h
  by_cases hfolds : folds last k
  · rw [← List.cons_append, ← List.append_assoc, adjoin_of_folds hfolds, adjoin_of_folds hfolds,
      List.append_assoc, List.cons_append]
  · have happly : ∀ siblings : List Node, adjoin (siblings ++ [last]) k =
        siblings ++ [last, k] := by
      intro siblings
      rw [adjoin_of_apart (by simpa using hfolds), List.append_assoc, List.singleton_append]
    rw [← List.cons_append, ← List.append_assoc, happly, happly, List.append_assoc,
      List.cons_append]

theorem adjoin_after_unwraps {n m : Node} (h : Unwraps n m) (before after : List Node) (k : Node) :
    ∃ n' m' after', Unwraps n' m' ∧ adjoin (before ++ n :: after) k = before ++ n' :: after' ∧
      adjoin (before ++ m :: after) k = before ++ m' :: after' := by
  obtain rfl | ⟨after, last, rfl⟩ := List.eq_nil_or_concat' after
  · have hsame : folds n k = folds m k := folds_congr h.kind? rfl
    by_cases hfolds : folds n k
    · rw [adjoin_of_folds hfolds, adjoin_of_folds (hsame ▸ hfolds)]
      refine ⟨joined n k, joined m k, [], ?_, rfl, rfl⟩
      obtain ⟨_, _, _, _, rfl, _⟩ | ⟨_, _, _, _, rfl, _⟩ | ⟨c, _, _, _, last, hc, rfl, rfl⟩ :=
        folds_cases hfolds
      · cases h
      · cases h
      · cases h with
        | here holds => obtain rfl | rfl := hc <;> cases holds
        | deeper _ h before after span span' =>
          rw [joined, joined, List.append_assoc, List.append_assoc]
          exact .deeper c h before (after ++ last) none none
    · have hapart : folds n k = false := by simpa using hfolds
      refine ⟨n, m, [k], h, ?_, ?_⟩
      · rw [adjoin_of_apart (by simpa using hapart), List.append_assoc, List.singleton_append]
      · rw [adjoin_of_apart (by simpa [← hsame] using hapart), List.append_assoc,
          List.singleton_append]
  · have hne : after ++ [last] ≠ [] := by simp
    refine ⟨n, m, adjoin (after ++ [last]) k, h, ?_, ?_⟩
    · exact adjoin_append_cons hne before n k
    · exact adjoin_append_cons hne before m k

/-- Folding neighbours leaves one of them changed where one was changed before. -/
theorem mergeAdjacent_of_unwraps {n m : Node} (h : Unwraps n m) (before after : List Node) :
    ∃ zs n' m' ws, Unwraps n' m' ∧ mergeAdjacent (before ++ n :: after) = zs ++ n' :: ws ∧
      mergeAdjacent (before ++ m :: after) = zs ++ m' :: ws := by
  induction after using List.reverseRecOn with
  | nil =>
    obtain ⟨zs, n', m', hunwraps, hn, hm⟩ := adjoin_of_unwraps h (mergeAdjacent before)
    refine ⟨zs, n', m', [], hunwraps, ?_, ?_⟩
    · rw [mergeAdjacent_concat, hn]
    · rw [mergeAdjacent_concat, hm]
  | append_singleton after k ih =>
    obtain ⟨zs, n', m', ws, hunwraps, hn, hm⟩ := ih
    obtain ⟨n'', m'', ws', hunwraps', hn', hm'⟩ := adjoin_after_unwraps hunwraps zs ws k
    refine ⟨zs, n'', m'', ws', hunwraps', ?_, ?_⟩
    · rw [← List.cons_append, ← List.append_assoc, mergeAdjacent_concat, hn, hn']
    · rw [← List.cons_append, ← List.append_assoc, mergeAdjacent_concat, hm, hm']

namespace Writer

/-- A visitor that makes no difference between light nodes and what they are changed to. -/
def Ignores (visit : Node → Writing Unit) (bound : Nat) : Prop :=
  ∀ n m, Unwraps n m → weight n ≤ bound → visit n = visit m

variable {style : Style} {visit : Node → Writing Unit} {bound : Nat}

theorem inlineText_of_unwraps (ignores : Ignores visit bound) {n m : Node} (h : Unwraps n m)
    {before after : List Node} (light : weightAll (before ++ n :: after) ≤ bound) :
    inlineText visit (before ++ n :: after) = inlineText visit (before ++ m :: after) := by
  have hrefuse : refuseForeign (before ++ n :: after) = refuseForeign (before ++ m :: after) := by
    rw [refuseForeign_eq, refuseForeign_eq, List.filter_append, List.filter_append,
      List.filter_cons, List.filter_cons, h.kind?]
    cases h <;> rfl
  obtain ⟨zs, n', m', ws, hunwraps, hn, hm⟩ := mergeAdjacent_of_unwraps h before after
  have hlight : weight n' ≤ bound := by
    have hmerge := weightAll_mergeAdjacent (before ++ n :: after)
    rw [hn, weightAll_append, weightAll_cons] at hmerge
    omega
  have hvisit : visit n' = visit m' := ignores n' m' hunwraps hlight
  rw [inlineText, inlineText, hrefuse, hn, hm]
  simp only [List.forM_append, List.forM_cons, hvisit]

theorem writeUnits_of_alike (ignores : Ignores visit bound) {us vs : List BlockUnit}
    (h : us.Forall₂ (BlockUnit.Alike bound) vs) :
    writeUnits (inlineText visit) visit us = writeUnits (inlineText visit) visit vs := by
  induction h with
  | nil => rfl
  | @cons u v us vs alike _ ih =>
    have hunit : writeUnit (inlineText visit) visit u = writeUnit (inlineText visit) visit v := by
      cases alike with
      | same u => rfl
      | single h light => rw [writeUnit, writeUnit, ignores _ _ h light]
      | run h before after light => rw [writeUnit, writeUnit, inlineText_of_unwraps ignores h light]
    rw [writeUnits, writeUnits] at ih ⊢
    rw [List.forM_cons, List.forM_cons, hunit, ih]

theorem visitItems_of_unwraps (ignores : Ignores visit bound) {n m : Node} (h : Unwraps n m)
    {before after : List Node} (light : weightAll (before ++ n :: after) ≤ bound)
    (data : ListData) (tight : Bool) (number : Int) (first : Bool) :
    visitItems visit style data tight number first (before ++ n :: after) =
      visitItems visit style data tight number first (before ++ m :: after) := by
  rw [weightAll_append, weightAll_cons] at light
  induction before generalizing number first with
  | nil =>
    have hvisit : visit n = visit m := ignores n m h (by omega)
    rw [List.nil_append, List.nil_append, visitItems, visitItems, hvisit]
  | cons k before ih =>
    rw [weightAll_cons] at light
    rw [List.cons_append, List.cons_append, visitItems, visitItems]
    simp only [ih (by omega)]

/-- One level of a tree is written alike with a transparent node in it and without. -/
theorem step_of_unwraps {n m : Node} (h : Unwraps n m) (ignores : Ignores visit (weight n - 1)) :
    step style visit n = step style visit m := by
  cases h with
  | @here c d at? before inner after holds transparent apart apart' span span' =>
    have hunits := ofChildren_unwrap transparent apart apart'
    cases c with
    | document xmlns | clause clauseid src clauseText => rw [step, step, hunits]
    | blockQuote | item => rw [step, step, hunits]
    | _ => cases holds
  | @deeper c n m h before after span span' =>
    rw [weight_branch, Nat.add_sub_cancel] at ignores
    have hunits :=
      writeUnits_of_alike ignores (BlockUnit.forall₂_ofChildren_of_unwraps h before after)
    have hinline := inlineText_of_unwraps ignores h (Nat.le_refl _)
    have hempty : (before ++ n :: after).isEmpty = (before ++ m :: after).isEmpty := by
      cases before <;> rfl
    cases c with
    | document xmlns | clause clauseid src clauseText => rw [step, step, hunits]
    | blockQuote | item => rw [step, step, hunits]
    | paragraph | heading level => rw [step, step, hinline]
    | emph | strong => rw [step, step, hinline]
    | link dest title | image dest title => rw [step, step, hinline]
    | templateVariable id value | computedVariable value => rw [step, step, hinline, hempty]
    | list data =>
      rw [step, step, isWrittenTight_of_unwraps h]
      simp only [visitItems_of_unwraps ignores h (Nat.le_refl _)]

theorem node_of_unwraps {n m : Node} (h : Unwraps n m) :
    node style (merged n) = node style (merged m) := by
  induction hw : weight n using Nat.strong_induction_on generalizing n m with
  | _ w ih =>
    rw [node_merged, node_merged]
    refine step_of_unwraps h fun n' m' h' light => ih (weight n') ?_ h' rfl
    have hpositive : 0 < weight n := by
      cases h <;> rw [weight_branch] <;> omega
    omega

theorem document_of_unwraps {n m : Node} (h : Unwraps n m) (style : Style) :
    document style n = document style m := by
  have hkind := h.kind?
  by_cases hdocument : n.kind? = some .document
  · obtain ⟨xmlns, span, children, rfl⟩ := Schema.eq_document_of_kind? hdocument
    obtain ⟨xmlns', span', children', rfl⟩ := Schema.eq_document_of_kind? (hkind ▸ hdocument)
    rw [document, document, node_of_unwraps h]
  · have htype : n.typeName = m.typeName := by cases h <;> rfl
    rw [document_of_kind? hdocument, document_of_kind? (hkind ▸ hdocument), htype]

end Writer

/-- Clauses, and paragraphs that hold blocks, are transparent wherever blocks are held: a document
comes to the same text, or is refused with the same fault, when the children of one of them stand in
its place with no inline node next to them. -/
theorem toMarkdown_of_unwraps (x y : WriterInput) (n m : Node) (hx : x.node = .ok n)
    (hy : y.node = .ok m) (h : Unwraps n m) (options : Option Options) (overrides : Members) :
    toMarkdown x options overrides = toMarkdown y options overrides := by
  have hwrite : ∀ style, write style n = write style m := by
    intro style
    rw [write, write, Writer.document_of_unwraps h]
  rw [toMarkdown, toMarkdown, hx, hy]
  simp only [bind, Except.bind, hwrite]

/-- A document of a tight list of one item. -/
def oneItem (children : List Node) : Node :=
  .branch (.document defaultNamespace) none [.branch
    (.list { listType := "bullet", tight := some "true" }) none [.branch .item none children]]

/-- A paragraph and a clause, which together are as well the children of a paragraph. -/
def paragraphAndClause : List Node :=
  [.branch .paragraph none [.leaf (.text "a") none],
    .branch (.clause "c" "s" none) none [.leaf (.text "b") none]]

theorem unwraps_oneItem :
    Unwraps (oneItem [.branch .paragraph none paragraphAndClause])
      (oneItem paragraphAndClause) := by
  have hitem : Unwraps (.branch .item none [.branch .paragraph none paragraphAndClause])
      (.branch .item none paragraphAndClause) :=
    @Unwraps.here .item .paragraph none [] paragraphAndClause [] rfl rfl (by simp)
      (by simp) none none
  exact .deeper _ (.deeper _ hitem [] [] none none) [] [] none none

theorem toMarkdown_oneItem :
    Unwraps (oneItem [.branch .paragraph none paragraphAndClause]) (oneItem paragraphAndClause) ∧
      toMarkdown (.tree (oneItem [.branch .paragraph none paragraphAndClause])) none [] =
        toMarkdown (.tree (oneItem paragraphAndClause)) none [] :=
  ⟨unwraps_oneItem, toMarkdown_of_unwraps _ _ _ _ rfl rfl unwraps_oneItem none []⟩

end Canonmark.Markdown
