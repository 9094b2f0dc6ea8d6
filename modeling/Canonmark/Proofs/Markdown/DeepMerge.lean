import Canonmark.Proofs.Markdown.Merging
import Mathlib.Algebra.GroupWithZero.Nat
import Mathlib.Data.List.SplitBy

/-! Trees in which all neighbours of one inline kind are folded into one node, and the ways to split
nodes that make no difference to them. -/
namespace Canonmark.Markdown

/-- Kinds of which neighbours are folded. -/
def isFolded : Kind → Bool
  | .text | .code | .emph | .strong => true
  | _ => false

def folds (n m : Node) : Bool := n.kind? == m.kind? && n.kind?.any isFolded

/-- Two neighbours as one node. -/
def joined : Node → Node → Node
  | .leaf (.text s) _, .leaf (.text t) _ => .leaf (.text (s ++ t)) none
  | .leaf (.code s) _, .leaf (.code t) _ => .leaf (.code (s ++ t)) none
  | .branch c _ before, .branch _ _ after => .branch c none (before ++ after)
  | n, _ => n

/-- A run of neighbours as one node. -/
def foldRun : List Node → List Node
  | [] => []
  | n :: ns => [ns.foldl joined n]

/-- Every longest run of neighbours that are folded as one node. -/
def foldRuns (ns : List Node) : List Node := (ns.splitBy folds).flatMap foldRun

/-- Adds a node to siblings; it joins the last one if they are folded. -/
def adjoin (before : List Node) (n : Node) : List Node :=
  match before.getLast? with
  | some m => if folds m n then before.dropLast ++ [joined m n] else before ++ [n]
  | none => [n]

/-- Siblings in which neighbours are folded one after the other. -/
def mergeAdjacent (ns : List Node) : List Node := ns.foldl adjoin []

/-- Whether two nodes are folded is told by what they are. -/
theorem folds_cases {n m : Node} (h : folds n m) :
    (∃ s t span span', n = .leaf (.text s) span ∧ m = .leaf (.text t) span') ∨
      (∃ s t span span', n = .leaf (.code s) span ∧ m = .leaf (.code t) span') ∨
      (∃ c span span' before after, (c = .emph ∨ c = .strong) ∧ n = .branch c span before ∧
        m = .branch c span' after) := by
  rw [folds, Bool.and_eq_true, beq_iff_eq] at h
  obtain ⟨hkind, hfolded⟩ := h
  cases n with
  | leaf l span =>
    cases m with
    | leaf l' span' =>
      cases l <;> cases hfolded <;> cases l' <;> cases hkind
      · exact .inl ⟨_, _, _, _, rfl, rfl⟩
      · exact .inr (.inl ⟨_, _, _, _, rfl, rfl⟩)
    | branch c span' children => cases l <;> cases hfolded <;> cases c <;> cases hkind
    | foreign v => cases hkind
  | branch c span children =>
    cases m with
    | leaf l span' => cases c <;> cases hfolded <;> cases l <;> cases hkind
    | branch c' span' children' =>
      cases c <;> cases hfolded <;> cases c' <;> cases hkind
      · exact .inr (.inr ⟨_, _, _, _, _, .inl rfl, rfl, rfl⟩)
      · exact .inr (.inr ⟨_, _, _, _, _, .inr rfl, rfl, rfl⟩)
    | foreign v => cases hkind
  | foreign v => cases hfolded

theorem folds_congr {n n' m m' : Node} (hn : n.kind? = n'.kind?) (hm : m.kind? = m'.kind?) :
    folds n m = folds n' m' := by
  rw [folds, folds, hn, hm]

theorem kind?_eq_of_folds {n m : Node} (h : folds n m) : n.kind? = m.kind? := by
  rw [folds, Bool.and_eq_true, beq_iff_eq] at h
  exact h.1

theorem kind?_joined {n m : Node} (h : folds n m) : (joined n m).kind? = n.kind? := by
  obtain ⟨s, t, _, _, rfl, rfl⟩ | ⟨s, t, _, _, rfl, rfl⟩ | ⟨c, _, _, _, _, _, rfl, rfl⟩ :=
    folds_cases h
  all_goals rfl

theorem joined_assoc {n m k : Node} (hm : folds n m) (hk : folds m k) :
    joined (joined n m) k = joined n (joined m k) := by
  obtain ⟨s, t, _, _, rfl, rfl⟩ | ⟨s, t, _, _, rfl, rfl⟩ | ⟨c, _, _, _, _, hc, rfl, rfl⟩ :=
    folds_cases hm
  all_goals
    obtain ⟨s', u, _, _, h, rfl⟩ | ⟨s', u, _, _, h, rfl⟩ | ⟨c', _, _, _, _, hc', h, rfl⟩ :=
      folds_cases hk
  all_goals cases h
  · simp [joined, String.append_assoc]
  · simp [joined, String.append_assoc]
  · simp [joined, List.append_assoc]

theorem adjoin_of_folds {before : List Node} {n m : Node} (h : folds m n) :
    adjoin (before ++ [m]) n = before ++ [joined m n] := by
  rw [adjoin, List.getLast?_concat]
  simp [h]

theorem adjoin_of_apart {before : List Node} {n : Node}
    (h : ∀ m ∈ before.getLast?, folds m n = false) : adjoin before n = before ++ [n] := by
  rw [adjoin]
  split
  · rename_i m hm
    rw [h m hm]
    rfl
  · rename_i hnone
    rw [List.getLast?_eq_none_iff.mp hnone]
    rfl

theorem adjoin_cases (siblings : List Node) (n : Node) :
    (∃ before m, siblings = before ++ [m] ∧
      folds m n ∧ adjoin siblings n = before ++ [joined m n]) ∨
      adjoin siblings n = siblings ++ [n] := by
  obtain rfl | ⟨before, m, rfl⟩ := List.eq_nil_or_concat' siblings
  · exact .inr rfl
  · by_cases h : folds m n
    · exact .inl ⟨before, m, rfl, h, adjoin_of_folds h⟩
    · exact .inr (adjoin_of_apart (by simpa using h))

theorem mergeAdjacent_concat (ns : List Node) (n : Node) :
    mergeAdjacent (ns ++ [n]) = adjoin (mergeAdjacent ns) n := by
  rw [mergeAdjacent, List.foldl_append, List.foldl_cons, List.foldl_nil, ← mergeAdjacent]

theorem isChain_joined {n m : Node} {ns : List Node} (h : folds n m)
    (chain : (m :: ns).IsChain fun a b => folds a b) :
    (joined n m :: ns).IsChain fun a b => folds a b := by
  cases ns with
  | nil => exact List.isChain_singleton _
  | cons k ns =>
    rw [List.isChain_cons_cons] at chain ⊢
    rwa [folds_congr ((kind?_joined h).trans (kind?_eq_of_folds h)) rfl]

theorem kind?_foldl_joined {n : Node} {ns : List Node}
    (h : (n :: ns).IsChain fun a b => folds a b) :
    (ns.foldl joined n).kind? = n.kind? ∧
      ∀ before : List Node,
        ns.foldl adjoin (before ++ [n]) = before ++ [ns.foldl joined n] := by
  induction ns generalizing n with
  | nil => exact ⟨rfl, fun _ => rfl⟩
  | cons m ns ih =>
    obtain ⟨hfolds, hrest⟩ := List.isChain_cons_cons.mp h
    obtain ⟨hkind, hfold⟩ := ih (isChain_joined hfolds hrest)
    refine ⟨hkind.trans (kind?_joined hfolds), fun before => ?_⟩
    rw [List.foldl_cons, adjoin_of_folds hfolds, hfold, List.foldl_cons]

theorem kind?_getLast? {n : Node} {ns : List Node} (h : (n :: ns).IsChain fun a b => folds a b) :
    ∀ m ∈ (n :: ns).getLast?, m.kind? = n.kind? := by
  induction ns generalizing n with
  | nil => simp
  | cons k ns ih =>
    obtain ⟨hfolds, hrest⟩ := List.isChain_cons_cons.mp h
    intro m hm
    rw [List.getLast?_cons_cons] at hm
    rw [ih hrest m hm, kind?_eq_of_folds hfolds]

theorem foldl_adjoin_flatten {runs : List (List Node)} (some : [] ∉ runs)
    (within : ∀ run ∈ runs, run.IsChain fun a b => folds a b)
    (between : runs.IsChain fun a b => ∃ ha hb, folds (a.getLast ha) (b.head hb) = false)
    {before : List Node}
    (apart : ∀ m ∈ before.getLast?, ∀ n ∈ runs.flatten.head?, folds m n = false) :
    runs.flatten.foldl adjoin before = before ++ runs.flatMap foldRun := by
  induction runs generalizing before with
  | nil => simp
  | cons run runs ih =>
    obtain _ | ⟨n, ns⟩ := run
    · exact absurd List.mem_cons_self some
    obtain ⟨hwithin, hrest⟩ := List.forall_mem_cons.mp within
    have hadjoin : adjoin before n = before ++ [n] :=
      adjoin_of_apart fun m hm => apart m hm n (by simp)
    obtain ⟨hkind, hfold⟩ := kind?_foldl_joined hwithin
    rw [List.flatten_cons, List.foldl_append, List.foldl_cons, hadjoin, hfold,
      ih (fun h => some (List.mem_cons_of_mem _ h)) hrest between.tail, List.flatMap_cons, foldRun,
      List.append_assoc]
    -- The node of a run is of the kind of the last node in it.
    intro m hm k hk
    rw [List.getLast?_concat, Option.mem_some_iff] at hm
    obtain _ | ⟨next, runs⟩ := runs
    · cases hk
    obtain ⟨⟨hlast, hhead, hne⟩, -⟩ := List.isChain_cons_cons.mp between
    obtain _ | ⟨k', next⟩ := next
    · exact absurd rfl hhead
    obtain rfl : k' = k := by simpa using hk
    have hsame : (ns.foldl joined n).kind? = ((n :: ns).getLast hlast).kind? := by
      rw [hkind, kind?_getLast? hwithin _ (List.getLast_mem_getLast? hlast)]
    rw [← hm, folds_congr hsame rfl]
    exact hne

/-- Folding neighbours one after the other folds every longest run. -/
theorem mergeAdjacent_eq (ns : List Node) : mergeAdjacent ns = foldRuns ns := by
  have hnone : ∀ m ∈ ([] : List Node).getLast?, ∀ n ∈ (ns.splitBy folds).flatten.head?,
      folds m n = false :=
    by simp
  have hruns :=
    foldl_adjoin_flatten (List.nil_notMem_splitBy folds ns) (fun run hrun =>
      List.isChain_of_mem_splitBy hrun) (List.isChain_getLast_head_splitBy folds ns) hnone
  rw [List.flatten_splitBy, List.nil_append] at hruns
  exact hruns

/-- The number of nodes of a tree. -/
def weight (n : Node) : Nat := (preorder n).length

def weightAll (ns : List Node) : Nat := (ns.map weight).sum

@[simp] theorem weightAll_nil : weightAll [] = 0 := rfl

@[simp] theorem weightAll_cons (n : Node) (ns : List Node) :
    weightAll (n :: ns) = weight n + weightAll ns := by
  simp [weightAll]

@[simp] theorem weightAll_append (ns ms : List Node) :
    weightAll (ns ++ ms) = weightAll ns + weightAll ms := by
  simp [weightAll]

theorem weight_le_weightAll {n : Node} {ns : List Node} (h : n ∈ ns) : weight n ≤ weightAll ns := by
  obtain ⟨before, after, rfl⟩ := List.append_of_mem h
  rw [weightAll_append, weightAll_cons]
  omega

theorem weight_branch (c : Container) (span : Option Span) (children : List Node) :
    weight (.branch c span children) = weightAll children + 1 := by
  rw [weight, preorder, preorderAll_eq_flatMap, List.length_cons, List.length_flatMap]
  rfl

theorem weight_joined {n m : Node} (h : folds n m) : weight (joined n m) ≤ weight n + weight m := by
  obtain ⟨s, t, _, _, rfl, rfl⟩ | ⟨s, t, _, _, rfl, rfl⟩ | ⟨c, _, _, _, _, _, rfl, rfl⟩ :=
    folds_cases h
  · exact Nat.le_succ _
  · exact Nat.le_succ _
  · rw [joined, weight_branch, weight_branch, weight_branch, weightAll_append]
    omega

theorem weightAll_adjoin (before : List Node) (n : Node) :
    weightAll (adjoin before n) ≤ weightAll before + weight n := by
  obtain ⟨before, m, rfl, h, hadjoin⟩ | hadjoin := adjoin_cases before n
  · have hjoined := weight_joined h
    rw [hadjoin]
    simp only [weightAll_append, weightAll_cons, weightAll_nil]
    omega
  · rw [hadjoin]
    simp

theorem weightAll_mergeAdjacent (ns : List Node) : weightAll (mergeAdjacent ns) ≤ weightAll ns := by
  induction ns using List.reverseRecOn with
  | nil => exact Nat.le_refl _
  | append_singleton ns n ih =>
    have hadjoin := weightAll_adjoin (mergeAdjacent ns) n
    rw [mergeAdjacent_concat]
    simp only [weightAll_append, weightAll_cons, weightAll_nil]
    omega

/-- The children of a container with neighbours folded, if it is no list. -/
def foldedIn (c : Container) (children : List Node) : List Node :=
  if c.kind = .list then children else foldRuns children

theorem weight_lt_of_mem {n : Node} {c : Container} {children : List Node}
    (h : n ∈ foldedIn c children) (span : Option Span) :
    weight n < weight (.branch c span children) := by
  rw [weight_branch, Nat.lt_succ_iff]
  rw [foldedIn] at h
  split at h
  · exact weight_le_weightAll h
  · rw [← mergeAdjacent_eq] at h
    exact (weight_le_weightAll h).trans (weightAll_mergeAdjacent _)

/-- A tree with all neighbours folded, and the children of what they are folded into folded again;
the children of a list stay apart. Positions are left out. -/
def deepMerge : Node → Node
  | .leaf l _ => .leaf l none
  | .branch c span children =>
    .branch c none ((foldedIn c children).attach.map fun ⟨n, h⟩ =>
      have := weight_lt_of_mem h span
      deepMerge n)
  | .foreign v => .foreign v
termination_by n => weight n

theorem deepMerge_branch (c : Container) (span : Option Span) (children : List Node) :
    deepMerge (.branch c span children) = .branch c none ((foldedIn c children).map deepMerge) := by
  rw [deepMerge]
  exact congrArg (Node.branch c none) List.attach_map_val

@[simp] theorem deepMerge_leaf (l : Leaf) (span : Option Span) :
    deepMerge (.leaf l span) = .leaf l none := by
  rw [deepMerge]

@[simp] theorem deepMerge_foreign (v : Json) : deepMerge (.foreign v) = .foreign v := by
  rw [deepMerge]

theorem kind?_deepMerge (n : Node) :
    (deepMerge n).kind? = n.kind? ∧ (deepMerge n).typeName = n.typeName := by
  cases n with
  | leaf l span => rw [deepMerge_leaf]; exact ⟨rfl, rfl⟩
  | branch c span children => rw [deepMerge_branch]; exact ⟨rfl, rfl⟩
  | foreign v => rw [deepMerge_foreign]; exact ⟨rfl, rfl⟩

/-- Induction over a tree and the trees that its neighbours are folded into. -/
theorem inductionOnFolded {motive : Node → Prop} (leaf : ∀ l span, motive (.leaf l span)) (branch :
      ∀ c span children, (∀ n ∈ foldedIn c children, motive n) → motive (.branch c span children))
    (foreign : ∀ v, motive (.foreign v)) (n : Node) : motive n := by
  cases n with
  | leaf l span => exact leaf l span
  | branch c span children =>
    refine branch c span children fun m h => ?_
    have := weight_lt_of_mem h span
    exact inductionOnFolded leaf branch foreign m
  | foreign v => exact foreign v
termination_by weight n

@[simp] theorem merged_leaf (l : Leaf) (span : Option Span) :
    merged (.leaf l span) = .leaf l span :=
  rfl

@[simp] theorem merged_foreign (v : Json) : merged (.foreign v) = .foreign v := rfl

theorem kind?_merged (n : Node) : (merged n).kind? = n.kind? := by
  cases n with
  | branch c span children => cases c <;> rfl
  | _ => rfl

theorem push_of_apart {siblings : List Node} {n : Node}
    (h : ∀ m ∈ siblings.getLast?, folds m n = false) :
    Merge.push siblings n = siblings ++ [merged n] := by
  have hlast : ∀ m, siblings.getLast? = some m → folds m n = false := fun m hm => h m hm
  cases n with
  | leaf l span =>
    cases l with
    | text t | code t =>
      rw [Merge.push]
      split
      · rename_i hm
        cases hlast _ hm
      · rfl
    | _ => simp [Merge.push, merged]
  | branch c span children =>
    cases c with
    | emph | strong =>
      rw [Merge.push]
      split
      · rename_i hm
        cases hlast _ hm
      · rfl
    | _ => simp [Merge.push, merged]
  | foreign v => simp [Merge.push, merged]

theorem pushAll_append (siblings ns ms : List Node) :
    Merge.pushAll siblings (ns ++ ms) = Merge.pushAll (Merge.pushAll siblings ns) ms := by
  induction ns generalizing siblings with
  | nil => rfl
  | cons n ns ih => rw [List.cons_append, Merge.pushAll, Merge.pushAll, ih]

theorem push_of_folds {siblings : List Node} {n m : Node} (h : folds m n) :
    Merge.push (siblings ++ [merged m]) n = siblings ++ [merged (joined m n)] := by
  obtain ⟨s, t, _, _, rfl, rfl⟩ | ⟨s, t, _, _, rfl, rfl⟩ | ⟨c, _, _, _, _, rfl | rfl, rfl, rfl⟩ :=
    folds_cases h
  · simp [Merge.push, merged, joined]
  · simp [Merge.push, merged, joined]
  · simp [Merge.push, merged, joined, pushAll_append]
  · simp [Merge.push, merged, joined, pushAll_append]

theorem push_map_merged (ns : List Node) (n : Node) :
    Merge.push (ns.map merged) n = (adjoin ns n).map merged := by
  obtain rfl | ⟨before, m, rfl⟩ := List.eq_nil_or_concat' ns
  · exact push_of_apart (by simp)
  · by_cases h : folds m n
    · rw [adjoin_of_folds h, List.map_append, List.map_append]
      exact push_of_folds h
    · have hmerged : folds (merged m) n = false := by
        rw [folds_congr (kind?_merged m) rfl]
        simpa using h
      rw [adjoin_of_apart (by simpa using h), push_of_apart (by simpa using hmerged),
        List.map_append, List.map_append, List.map_append]
      rfl

theorem pushAll_map_merged (before ns : List Node) :
    Merge.pushAll (before.map merged) ns = (ns.foldl adjoin before).map merged := by
  induction ns generalizing before with
  | nil => rfl
  | cons n ns ih => rw [Merge.pushAll, push_map_merged, ih, List.foldl_cons]

/-- Merging all at once is merging neighbours first and then what is below them. -/
theorem pushAll_nil_eq (ns : List Node) : Merge.pushAll [] ns = (mergeAdjacent ns).map merged :=
  pushAll_map_merged [] ns

theorem apart_eq (ns : List Node) : Merge.apart ns = ns.map merged := by
  induction ns with
  | nil => rfl
  | cons n ns ih => rw [Merge.apart, ih, push_of_apart (by simp), List.map_cons]; rfl

theorem merged_eq (c : Container) (span : Option Span) (children : List Node) :
    merged (.branch c span children) = .branch c span ((foldedIn c children).map merged) := by
  by_cases hc : c.kind = .list
  · cases c with
    | list data => rw [merged, apart_eq, foldedIn, if_pos hc]
    | _ => cases hc
  · rw [Merge.merged_branch c hc, pushAll_nil_eq, foldedIn, if_neg hc, mergeAdjacent_eq]

/-- A tree without its positions. -/
def unlocated : Node → Node
  | .leaf l _ => .leaf l none
  | .branch c _ children => .branch c none (children.map unlocated)
  | .foreign v => .foreign v

theorem kind?_unlocated (n : Node) : (unlocated n).kind? = n.kind? := by
  cases n <;> rw [unlocated] <;> rfl

theorem folds_unlocated (n m : Node) : folds (unlocated n) (unlocated m) = folds n m :=
  folds_congr (kind?_unlocated n) (kind?_unlocated m)

theorem unlocated_joined {n m : Node} (h : folds n m) :
    unlocated (joined n m) = joined (unlocated n) (unlocated m) := by
  obtain ⟨s, t, _, _, rfl, rfl⟩ | ⟨s, t, _, _, rfl, rfl⟩ | ⟨c, _, _, _, _, _, rfl, rfl⟩ :=
    folds_cases h
  · simp [joined, unlocated]
  · simp [joined, unlocated]
  · simp [joined, unlocated]

theorem map_unlocated_adjoin (before : List Node) (n : Node) :
    (adjoin before n).map unlocated = adjoin (before.map unlocated) (unlocated n) := by
  obtain rfl | ⟨before, m, rfl⟩ := List.eq_nil_or_concat' before
  · rfl
  · rw [List.map_append, List.map_singleton]
    by_cases h : folds m n
    · rw [adjoin_of_folds h, adjoin_of_folds (by rwa [folds_unlocated]), List.map_append,
        List.map_singleton, unlocated_joined h]
    · have hfalse : folds m n = false := by simpa using h
      rw [adjoin_of_apart (by simpa using hfalse),
        adjoin_of_apart (by simpa [folds_unlocated] using hfalse)]
      simp

theorem map_unlocated_foldl_adjoin (before ns : List Node) :
    (ns.foldl adjoin before).map
      unlocated = (ns.map unlocated).foldl adjoin (before.map unlocated) := by
  induction ns generalizing before with
  | nil => rfl
  | cons n ns ih => rw [List.foldl_cons, ih, map_unlocated_adjoin, List.map_cons, List.foldl_cons]

theorem map_unlocated_foldedIn (c : Container) (children : List Node) :
    (foldedIn c children).map unlocated = foldedIn c (children.map unlocated) := by
  rw [foldedIn, foldedIn, ← mergeAdjacent_eq, ← mergeAdjacent_eq]
  split
  · rfl
  · exact map_unlocated_foldl_adjoin [] children

/-- What a tree is merged to at once, without its positions, is the tree with all neighbours
folded. -/
theorem unlocated_merged (n : Node) : unlocated (merged n) = deepMerge n := by
  induction n using inductionOnFolded with
  | leaf l span => simp [unlocated]
  | branch c span children ih =>
    rw [merged_eq, unlocated, deepMerge_branch, List.map_map]
    exact congrArg (Node.branch c none) (List.map_congr_left ih)
  | foreign v => simp [unlocated]

theorem merged_unlocated (n : Node) : merged (unlocated n) = deepMerge n := by
  induction n using inductionOnFolded with
  | leaf l span => simp [unlocated]
  | branch c span children ih =>
    rw [unlocated, merged_eq, deepMerge_branch, ← map_unlocated_foldedIn, List.map_map]
    exact congrArg (Node.branch c none) (List.map_congr_left ih)
  | foreign v => simp [unlocated]

theorem map_deepMerge (ns : List Node) : ns.map deepMerge = (ns.map unlocated).map merged := by
  rw [List.map_map]
  exact List.map_congr_left fun n _ => (merged_unlocated n).symm

/-- Of nodes that others are adjoined to, no more matters than what they are folded to. -/
theorem map_deepMerge_foldl_adjoin (before ns : List Node) :
    (ns.foldl adjoin before).map deepMerge =
      Merge.pushAll (before.map deepMerge) (ns.map unlocated) := by
  rw [map_deepMerge, map_unlocated_foldl_adjoin, ← pushAll_map_merged, map_deepMerge]

/-- A text, a code, an emphasis or a strong emphasis, and the parts side by side that it is split
into. -/
inductive Parts : Node → List Node → Prop
  | text {parts : List (String × Option Span)} (some : parts ≠ []) (span : Option Span) :
      Parts (.leaf (.text (String.join (parts.map Prod.fst))) span)
        (parts.map fun part => .leaf (.text part.1) part.2)
  | code {parts : List (String × Option Span)} (some : parts ≠ []) (span : Option Span) :
      Parts (.leaf (.code (String.join (parts.map Prod.fst))) span)
        (parts.map fun part => .leaf (.code part.1) part.2)
  | emph {parts : List (List Node × Option Span)} (some : parts ≠ []) (span : Option Span) :
      Parts (.branch .emph span (parts.flatMap Prod.fst))
      (parts.map fun part => .branch .emph part.2 part.1)
  | strong {parts : List (List Node × Option Span)} (some : parts ≠ []) (span : Option Span) :
      Parts (.branch .strong span (parts.flatMap Prod.fst))
        (parts.map fun part => .branch .strong part.2 part.1)

/-- Two trees of which the second has parts in place of one node of the first, anywhere but directly
among the children of a list. -/
inductive IsSplit : Node → Node → Prop
  | here {c : Container} (other : c.kind ≠ .list) {n : Node} {parts : List Node}
      (split : Parts n parts) (before after : List Node) (span span' : Option Span) :
      IsSplit (.branch c span (before ++ n :: after)) (.branch c span' (before ++ parts ++ after))
  | deeper (c : Container) {n m : Node} (split : IsSplit n m) (before after : List Node)
      (span span' : Option Span) :
      IsSplit (.branch c span (before ++ n :: after)) (.branch c span' (before ++ m :: after))

/-- Leaves of a kind whose texts are joined: texts, or codes. -/
theorem foldl_joined_leaf {leaf : String → Leaf}
    (joins : ∀ s t span span',
      joined (.leaf (leaf s) span) (.leaf (leaf t) span') = .leaf (leaf (s ++ t)) none)
    (s : String) (span : Option Span) (parts : List (String × Option Span)) :
    unlocated
      ((parts.map fun part => Node.leaf (leaf part.1) part.2).foldl joined (.leaf (leaf s) span)) =
        .leaf (leaf (s ++ String.join (parts.map Prod.fst))) none := by
  induction parts generalizing s span with
  | nil => simp [unlocated]
  | cons part parts ih =>
    rw [List.map_cons, List.foldl_cons, joins, ih, List.map_cons, String.join_cons,
      String.append_assoc]

theorem foldl_joined_branch (c : Container) (children : List Node)
    (span : Option Span) (parts : List (List Node × Option Span)) :
    unlocated
      ((parts.map fun part => Node.branch c part.2 part.1).foldl joined (.branch c span children)) =
        unlocated (.branch c none (children ++ parts.flatMap Prod.fst)) := by
  induction parts generalizing children span with
  | nil => simp [unlocated]
  | cons part parts ih =>
    rw [List.map_cons, List.foldl_cons, joined, ih, List.flatMap_cons, List.append_assoc]

theorem isChain_map_folds {α : Type} {f : α → Node} (h : ∀ a b, folds (f a) (f b)) (as : List α) :
    (as.map f).IsChain fun n m => folds n m := by
  induction as with
  | nil => exact List.isChain_nil
  | cons a as ih =>
    cases as with
    | nil => exact List.isChain_singleton _
    | cons b as => exact List.isChain_cons_cons.mpr ⟨h a b, ih⟩

/-- Parts are a run that is folded to the node they come from. -/
theorem Parts.exists_run {n : Node} {parts : List Node} (h : Parts n parts) :
    ∃ first rest, parts = first :: rest ∧ parts.IsChain (fun a b => folds a b) ∧
      unlocated (rest.foldl joined first) = unlocated n := by
  cases h with
  | @text parts some span | @code parts some span =>
    obtain ⟨part, parts, rfl⟩ := List.exists_cons_of_ne_nil some
    refine ⟨_, _, List.map_cons, isChain_map_folds (fun _ _ => rfl) _, ?_⟩
    rw [foldl_joined_leaf fun _ _ _ _ => rfl, unlocated, List.map_cons, String.join_cons]
  | @emph parts some span | @strong parts some span =>
    obtain ⟨part, parts, rfl⟩ := List.exists_cons_of_ne_nil some
    refine ⟨_, _, List.map_cons, isChain_map_folds (fun _ _ => rfl) _, ?_⟩
    rw [foldl_joined_branch, List.flatMap_cons, unlocated, unlocated]

theorem foldl_joined_joined {n m : Node} {ns : List Node} (h : folds n m)
    (chain : (m :: ns).IsChain fun a b => folds a b) :
    ns.foldl joined (joined n m) = joined n (ns.foldl joined m) := by
  induction ns generalizing m with
  | nil => rfl
  | cons k ns ih =>
    obtain ⟨hfolds, hrest⟩ := List.isChain_cons_cons.mp chain
    have hjoined : folds n (joined m k) := by rwa [folds_congr rfl (kind?_joined hfolds)]
    rw [List.foldl_cons, joined_assoc h hfolds, ih hjoined (isChain_joined hfolds hrest),
      List.foldl_cons]

/-- To adjoin a run is to adjoin what it is folded to. -/
theorem foldl_adjoin_run {n : Node} {ns : List Node}
    (chain : (n :: ns).IsChain fun a b => folds a b) (before : List Node) :
    (n :: ns).foldl adjoin before = adjoin before (ns.foldl joined n) := by
  obtain ⟨hkind, hfold⟩ := kind?_foldl_joined chain
  obtain rfl | ⟨before, m, rfl⟩ := List.eq_nil_or_concat' before
  · exact hfold []
  · by_cases h : folds m n
    · have hrun : folds m (ns.foldl joined n) := by rwa [folds_congr rfl hkind]
      rw [List.foldl_cons, adjoin_of_folds h, (kind?_foldl_joined (isChain_joined h chain)).2,
        foldl_joined_joined h chain, adjoin_of_folds hrun]
    · have hn : folds m n = false := by simpa using h
      have hrun : folds m (ns.foldl joined n) = false := by rwa [folds_congr rfl hkind]
      rw [List.foldl_cons, adjoin_of_apart (by simpa using hn), hfold,
        adjoin_of_apart (by simpa using hrun)]

theorem map_deepMerge_adjoin_congr {n m : Node} (h : unlocated n = unlocated m)
    (before : List Node) : (adjoin before n).map deepMerge = (adjoin before m).map deepMerge := by
  rw [map_deepMerge, map_deepMerge, map_unlocated_adjoin, map_unlocated_adjoin, h]

/-- Parts are adjoined like the node they come from. -/
theorem Parts.map_deepMerge_foldl_adjoin {n : Node} {parts : List Node} (h : Parts n parts)
    (before : List Node) :
    (parts.foldl adjoin before).map deepMerge = (adjoin before n).map deepMerge := by
  obtain ⟨first, rest, rfl, chain, hrun⟩ := h.exists_run
  rw [foldl_adjoin_run chain]
  exact map_deepMerge_adjoin_congr hrun before

/-- Children that are adjoined alike make nodes that are adjoined alike. -/
theorem map_deepMerge_adjoin_branch {c : Container} {children others : List Node}
    (h : ∀ before,
      (children.foldl adjoin before).map deepMerge = (others.foldl adjoin before).map deepMerge)
    (apart : c.kind = .list → children.map deepMerge = others.map deepMerge)
    (span span' : Option Span) (before : List Node) :
    (adjoin before (.branch c span children)).map deepMerge =
      (adjoin before (.branch c span' others)).map deepMerge := by
  have hmerge : (foldedIn c children).map deepMerge = (foldedIn c others).map deepMerge := by
    rw [foldedIn, foldedIn]
    split
    · rename_i hc
      exact apart hc
    · rw [← mergeAdjacent_eq, ← mergeAdjacent_eq]
      exact h []
  have hsame : ∀ m, folds m (.branch c span children) = folds m (.branch c span' others) :=
    fun m => folds_congr rfl rfl
  obtain rfl | ⟨before, m, rfl⟩ := List.eq_nil_or_concat' before
  · simp [adjoin, deepMerge_branch, hmerge]
  · by_cases hfolds : folds m (.branch c span children)
    · rw [adjoin_of_folds hfolds, adjoin_of_folds (by rwa [← hsame])]
      obtain ⟨_, _, _, _, _, hcase⟩ | ⟨_, _, _, _, _, hcase⟩
          | ⟨c', _, _, first, _, hc', rfl, hcase⟩ :=
        folds_cases hfolds
      · cases hcase
      · cases hcase
      cases hcase
      have hc : c.kind ≠ .list := by rcases hc' with rfl | rfl <;> decide
      simp only [joined, List.map_append, List.map_singleton, deepMerge_branch, foldedIn, if_neg hc,
        ← mergeAdjacent_eq, mergeAdjacent, List.foldl_append, h]
    · have hapart : folds m (.branch c span children) = false := by simpa using hfolds
      rw [adjoin_of_apart (by simpa using hapart),
        adjoin_of_apart (by simpa [← hsame] using hapart)]
      simp only [List.map_append, List.map_singleton, deepMerge_branch, hmerge]

theorem IsSplit.map_deepMerge_adjoin {n m : Node} (h : IsSplit n m) :
    ∀ before, (adjoin before n).map deepMerge = (adjoin before m).map deepMerge := by
  induction h with
  | here other split before after span span' =>
    refine map_deepMerge_adjoin_branch (fun siblings => ?_)
      (fun hlist => absurd hlist other) span span'
    rw [List.foldl_append, List.foldl_cons, List.foldl_append, List.foldl_append,
      map_deepMerge_foldl_adjoin, map_deepMerge_foldl_adjoin _ after,
      split.map_deepMerge_foldl_adjoin]
  | deeper c split before after span span' ih =>
    refine map_deepMerge_adjoin_branch (fun siblings => ?_) (fun _ => ?_) span span'
    · rw [List.foldl_append, List.foldl_cons, List.foldl_append, List.foldl_cons,
        map_deepMerge_foldl_adjoin, map_deepMerge_foldl_adjoin _ after, ih]
    · have hsame : deepMerge _ = deepMerge _ := List.singleton_inj.mp (ih [])
      rw [List.map_append, List.map_append, List.map_cons, List.map_cons, hsame]

/-- Splitting a node makes no difference to the tree with all neighbours folded. -/
theorem IsSplit.deepMerge_eq {n m : Node} (h : IsSplit n m) : deepMerge n = deepMerge m :=
  List.singleton_inj.mp (h.map_deepMerge_adjoin [])

end Canonmark.Markdown
