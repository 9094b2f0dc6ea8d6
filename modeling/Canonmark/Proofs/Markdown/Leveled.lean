import Canonmark.Proofs.Markdown.Visits

/-! A writer that folds neighbours where it comes to them is told by its step on one level: it is
the writer of the tree that has been merged as a whole. -/
namespace Canonmark.Markdown

/-- A node below which nodes are nested at most so deep. -/
inductive IsWithin : Nat → Node → Prop
  | leaf (k : Nat) (l : Leaf) (span : Option Span) : IsWithin k (.leaf l span)
  | branch {k : Nat} (c : Container) (span : Option Span) {children : List Node}
      (below : ∀ n ∈ children, IsWithin k n) : IsWithin (k + 1) (.branch c span children)
  | foreign (k : Nat) (v : Json) : IsWithin k (.foreign v)

variable {k : Nat} {n m : Node} {ns : List Node}

theorem IsWithin.mono {i : Nat} (within : IsWithin k n) (h : k ≤ i) : IsWithin i n := by
  induction within generalizing i with
  | leaf k l span => exact .leaf i l span
  | branch c span _ ih =>
    obtain ⟨i, rfl⟩ :=
      Nat.exists_eq_add_one_of_ne_zero (Nat.ne_of_gt (Nat.lt_of_lt_of_le (Nat.succ_pos _) h))
    exact .branch c span fun n hn => ih n hn (Nat.le_of_succ_le_succ h)
  | foreign k v => exact .foreign i v

theorem exists_isWithin (n : Node) : ∃ k, IsWithin k n := by
  induction n using Node.inductionOnChildren with
  | leaf l span => exact ⟨0, .leaf 0 l span⟩
  | foreign v => exact ⟨0, .foreign 0 v⟩
  | branch c span children ih =>
    have hchildren : ∃ k, ∀ n ∈ children, IsWithin k n := by
      induction children with
      | nil => exact ⟨0, nofun⟩
      | cons n ns hns =>
        obtain ⟨i, hi⟩ := ih n (by simp)
        obtain ⟨j, hj⟩ := hns fun m hm => ih m (by simp [hm])
        refine ⟨max i j, List.forall_mem_cons.mpr ⟨hi.mono (Nat.le_max_left ..), fun m hm => ?_⟩⟩
        exact (hj m hm).mono (Nat.le_max_right ..)
    obtain ⟨k, hk⟩ := hchildren
    exact ⟨k + 1, .branch c span hk⟩

theorem IsWithin.of_mem_preorder (within : IsWithin k n) (h : m ∈ preorder n) : IsWithin k m := by
  induction within with
  | leaf k l span =>
    obtain rfl := List.mem_singleton.mp h
    exact .leaf k l span
  | branch c span below ih =>
    obtain rfl | ⟨n, hn, hm⟩ := mem_preorder_branch.mp h
    · exact .branch c span below
    · exact (ih n hn hm).mono (Nat.le_succ _)
  | foreign k v =>
    obtain rfl := List.mem_singleton.mp h
    exact .foreign k v

theorem IsWithin.joined (hn : IsWithin k n) (hm : IsWithin k m) (h : folds n m) :
    IsWithin k (joined n m) := by
  obtain ⟨s, t, _, _, rfl, rfl⟩ | ⟨s, t, _, _, rfl, rfl⟩ | ⟨c, _, _, _, _, _, rfl, rfl⟩ :=
    folds_cases h
  · exact .leaf ..
  · exact .leaf ..
  · cases hn with
    | branch _ _ before =>
      cases hm with
      | branch _ _ after => exact .branch c none (List.forall_mem_append.mpr ⟨before, after⟩)

/-- Folding neighbours nests nothing deeper. -/
theorem isWithin_mergeAdjacent (h : ∀ n ∈ ns, IsWithin k n) :
    ∀ n ∈ mergeAdjacent ns, IsWithin k n := by
  induction ns using List.reverseRecOn with
  | nil => nofun
  | append_singleton ns n ih =>
    obtain ⟨hbefore, hn⟩ := List.forall_mem_append.mp h
    have hmerged := ih hbefore
    have hlast := hn n (by simp)
    rw [mergeAdjacent_concat]
    obtain ⟨before, m, hconcat, hfolds, hadjoin⟩ | hadjoin := adjoin_cases (mergeAdjacent ns) n
    · rw [hconcat, List.forall_mem_append, List.forall_mem_singleton] at hmerged
      rw [hadjoin, List.forall_mem_append, List.forall_mem_singleton]
      exact ⟨hmerged.1, hmerged.2.joined hlast hfolds⟩
    · rw [hadjoin, List.forall_mem_append, List.forall_mem_singleton]
      exact ⟨hmerged, hlast⟩

theorem isWithin_nodes (h : ∀ n ∈ ns, IsWithin k n) {u : BlockUnit}
    (hu : u ∈ BlockUnit.ofChildren ns) : ∀ m ∈ u.nodes, IsWithin k m := by
  intro m hm
  obtain ⟨n, hn, hmem⟩ | hforeign := mem_nodes_ofChildren hu hm
  · exact (h n hn).of_mem_preorder hmem
  · cases m with
    | foreign v => exact .foreign k v
    | _ => cases hforeign

namespace Writer

variable {style : Style} {visit visit' : Node → Writing Unit}

theorem forM_congr {α : Type} {f g : α → Writing Unit} {as : List α} (h : ∀ a ∈ as, f a = g a) :
    forM as f = forM as g := by
  induction as with
  | nil => rfl
  | cons a as ih =>
    rw [List.forM_cons, List.forM_cons, h a (by simp), ih fun b hb => h b (by simp [hb])]

theorem inlineText_congr (same : ∀ m, IsWithin k m → visit m = visit' m)
    (h : ∀ n ∈ ns, IsWithin k n) : inlineText visit ns = inlineText visit' ns := by
  rw [inlineText, inlineText, forM_congr fun m hm => same m (isWithin_mergeAdjacent h m hm)]

theorem writeUnits_congr (same : ∀ m, IsWithin k m → visit m = visit' m)
    (h : ∀ n ∈ ns, IsWithin k n) :
    writeUnits (inlineText visit) visit (BlockUnit.ofChildren ns) =
      writeUnits (inlineText visit') visit' (BlockUnit.ofChildren ns) := by
  refine forM_congr fun u hu => ?_
  have hnodes := isWithin_nodes h hu
  cases u with
  | run content =>
    have hcontent : ∀ n ∈ content, IsWithin k n := hnodes
    rw [writeUnit, writeUnit, inlineText_congr same hcontent]
  | single n => rw [writeUnit, writeUnit, same n (hnodes n (by simp [BlockUnit.nodes]))]

theorem visitItems_congr (same : ∀ m, IsWithin k m → visit m = visit' m)
    (h : ∀ n ∈ ns, IsWithin k n) (data : ListData) (tight : Bool) (number : Int) (first : Bool) :
    visitItems visit style data tight number first ns =
      visitItems visit' style data tight number first ns := by
  induction ns generalizing number first with
  | nil => rfl
  | cons n ns ih =>
    obtain ⟨hn, hns⟩ := List.forall_mem_cons.mp h
    rw [visitItems, visitItems, same n hn]
    simp only [ih hns]

/-- A step on a node visits only what is nested less deep than the node. -/
theorem step_congr (same : ∀ m, IsWithin k m → visit m = visit' m)
    (c : Container) (span : Option Span) (h : ∀ n ∈ ns, IsWithin k n) :
    step style visit (.branch c span ns) = step style visit' (.branch c span ns) := by
  have hunits := writeUnits_congr same h
  have hinline := inlineText_congr same h
  cases c with
  | document | clause | blockQuote | item => rw [step, step, hunits]
  | paragraph | heading | emph | strong | link | image => rw [step, step, hinline]
  | templateVariable | computedVariable => rw [step, step, hinline]
  | list data =>
    rw [step, step]
    simp only [visitItems_congr same h]

/-- A way to visit nodes that folds neighbours only where it comes to them. -/
structure IsLeveled (style : Style) (visit : Node → Writing Unit) : Prop where
  step_eq : ∀ n, visit n = step style visit n

theorem isLeveled_merged (style : Style) : IsLeveled style fun n => node style (merged n) :=
  ⟨node_merged style⟩

namespace IsLeveled

/-- There is one such way. -/
theorem eq (leveled : IsLeveled style visit) (leveled' : IsLeveled style visit') :
    visit = visit' := by
  have hwithin : ∀ k n, IsWithin k n → visit n = visit' n := by
    intro k
    induction k with
    | zero =>
      intro n within
      cases within with
      | leaf | foreign => rw [leveled.step_eq, leveled'.step_eq, step, step]
    | succ k ih =>
      intro n within
      cases within with
      | leaf | foreign => rw [leveled.step_eq, leveled'.step_eq, step, step]
      | branch c span below => rw [leveled.step_eq, leveled'.step_eq, step_congr ih c span below]
  funext n
  obtain ⟨k, within⟩ := exists_isWithin n
  exact hwithin k n within

theorem eq_merged (leveled : IsLeveled style visit) (n : Node) : visit n = node style (merged n) :=
  congrFun (leveled.eq (isLeveled_merged style)) n

/-- Documents are written as by a writer that folds neighbours where it comes to them. -/
theorem document_eq (leveled : IsLeveled style visit) (xmlns : String) (span : Option Span)
    (children : List Node) :
    document style (.branch (.document xmlns) span children) = (do
      set ({} : Layout)
      visit (.branch (.document xmlns) span children)
      let text := Text.trim (Layout.text (← get))
      modify fun l => { l with out := [] }
      pure (String.ofList text)) := by
  rw [document, leveled.eq_merged]

end IsLeveled
end Writer
end Canonmark.Markdown
