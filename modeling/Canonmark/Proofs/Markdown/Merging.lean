import Canonmark.Proofs.Node.Walk
import Mathlib.Data.List.Basic

/-! Merging joins neighbours, and what the nodes of a tree add stays the same, in the same order. -/
namespace Canonmark.Markdown

/-- What nodes add, if it does not tell neighbours from the one node that they are merged into. -/
structure IsSteady {α : Type} (own : Node → List α) : Prop where
  text : ∀ s t span span' span'', own (.leaf (.text (s ++ t)) span) =
    own (.leaf (.text s) span') ++ own (.leaf (.text t) span'')
  code : ∀ s t span span' span'', own (.leaf (.code (s ++ t)) span) =
    own (.leaf (.code s) span') ++ own (.leaf (.code t) span'')
  emph : ∀ span children, own (.branch .emph span children) = []
  strong : ∀ span children, own (.branch .strong span children) = []
  container : ∀ c span children others, children.isEmpty = others.isEmpty →
    (c.kind = .list → children.length = others.length) →
      own (.branch c span children) = own (.branch c span others)

namespace Merge

theorem isEmpty_push (siblings : List Node) (n : Node) : (push siblings n).isEmpty = false := by
  cases n with
  | leaf l span =>
    cases l with
    | text t | code t =>
      rw [push]
      split <;> simp
    | _ => simp [push]
  | branch c span children =>
    cases c with
    | emph | strong =>
      rw [push]
      split <;> simp
    | _ => simp [push]
  | foreign v => simp [push]

theorem isEmpty_pushAll (siblings ns : List Node) :
    (pushAll siblings ns).isEmpty = (siblings.isEmpty && ns.isEmpty) := by
  induction ns generalizing siblings with
  | nil => simp [pushAll]
  | cons n ns ih => simp [pushAll, ih, isEmpty_push]

theorem length_push_nil (n : Node) : (push [] n).length = 1 := by
  cases n with
  | leaf l span => cases l <;> simp [push]
  | branch c span children => cases c <;> simp [push]
  | foreign v => simp [push]

theorem length_apart (ns : List Node) : (apart ns).length = ns.length := by
  induction ns with
  | nil => rfl
  | cons n ns ih =>
    rw [apart, List.length_append, length_push_nil, ih, List.length_cons, Nat.add_comm]

section Steady

variable {α : Type} {own : Node → List α}

theorem gatherAll_of_getLast? {siblings : List Node} {n : Node} (h : siblings.getLast? = some n) :
    gatherAll own siblings = gatherAll own siblings.dropLast ++ gather own n := by
  conv => lhs; rw [← List.dropLast_append_getLast? n h]
  simp

theorem gatherAll_pushAll {ns : List Node} (h : ∀ n ∈ ns, ∀ siblings, gatherAll own
      (push siblings n) = gatherAll own siblings ++ gather own n) (siblings : List Node) :
    gatherAll own (pushAll siblings ns) = gatherAll own siblings ++ gatherAll own ns := by
  induction ns generalizing siblings with
  | nil => simp [pushAll]
  | cons n ns ih =>
    obtain ⟨hn, hns⟩ := List.forall_mem_cons.mp h
    rw [pushAll, ih hns, hn, gatherAll_cons, List.append_assoc]

theorem gatherAll_apart {ns : List Node}
    (h : ∀ n ∈ ns, ∀ siblings, gatherAll own (push siblings n) =
      gatherAll own siblings ++ gather own n) : gatherAll own (apart ns) = gatherAll own ns := by
  induction ns with
  | nil => rfl
  | cons n ns ih =>
    obtain ⟨hn, hns⟩ := List.forall_mem_cons.mp h
    rw [apart, gatherAll_append, hn, ih hns, gatherAll_cons, gatherAll_nil, List.nil_append]

theorem merged_branch (c : Container) (other : c.kind ≠ .list) (span : Option Span)
    (children : List Node) :
    merged (.branch c span children) = .branch c span (pushAll [] children) := by
  cases c <;> first | rfl | exact absurd rfl other

theorem push_branch (siblings : List Node) (c : Container) (notEmph : c ≠ .emph)
    (notStrong : c ≠ .strong) (span : Option Span) (children : List Node) :
    push siblings (.branch c span children) = siblings ++ [merged (.branch c span children)] := by
  cases c <;> simp_all [push, merged]

theorem gather_merged_branch (steady : IsSteady own) {children : List Node}
    (h : ∀ n ∈ children, ∀ siblings, gatherAll own (push siblings n) =
      gatherAll own siblings ++ gather own n) (c : Container) (span : Option Span) :
    gather own (merged (.branch c span children)) = gather own (.branch c span children) := by
  by_cases hc : c.kind = .list
  · cases c with
    | list data =>
      have hlength := length_apart children
      have hempty : (apart children).isEmpty = children.isEmpty := by
        rw [Bool.eq_iff_iff, List.isEmpty_iff_length_eq_zero, hlength,
          List.isEmpty_iff_length_eq_zero]
      rw [merged, gather_branch, gather_branch, gatherAll_apart h,
        steady.container _ span _ children hempty fun _ => hlength]
    | _ => cases hc
  · have hempty : (pushAll [] children).isEmpty = children.isEmpty := by
      rw [isEmpty_pushAll, List.isEmpty_nil, Bool.true_and]
    rw [merged_branch c hc, gather_branch, gather_branch, gatherAll_pushAll h,
      steady.container c span _ children hempty fun hlist => absurd hlist hc, gatherAll_nil,
      List.nil_append]

theorem gatherAll_push (steady : IsSteady own) (n : Node) :
    ∀ siblings, gatherAll own (push siblings n) = gatherAll own siblings ++ gather own n := by
  induction n using Node.inductionOnChildren with
  | leaf l span =>
    intro siblings
    cases l with
    | text t =>
      rw [push]
      split
      · rename_i s span' hlast
        simp [gatherAll_of_getLast? hlast, steady.text s t none span' span]
      · simp
    | code t =>
      rw [push]
      split
      · rename_i s span' hlast
        simp [gatherAll_of_getLast? hlast, steady.code s t none span' span]
      · simp
    | _ => simp [push]
  | branch c span children ih =>
    intro siblings
    have hchildren := gatherAll_pushAll ih
    by_cases hemph : c = .emph
    · subst hemph
      rw [push]
      split
      · rename_i span' before hlast
        simp [gatherAll_of_getLast? hlast, hchildren, steady.emph]
      · simp [hchildren, steady.emph]
    · by_cases hstrong : c = .strong
      · subst hstrong
        rw [push]
        split
        · rename_i span' before hlast
          simp [gatherAll_of_getLast? hlast, hchildren, steady.strong]
        · simp [hchildren, steady.strong]
      · rw [push_branch siblings c hemph hstrong, gatherAll_append, gatherAll_cons, gatherAll_nil,
          List.append_nil, gather_merged_branch steady ih]
  | foreign v =>
    intro siblings
    simp [push]

end Steady
end Merge

/-- What the nodes of a tree add is what the nodes of the merged tree add. -/
theorem gather_merged {α : Type} {own : Node → List α} (steady : IsSteady own) (n : Node) :
    gather own (merged n) = gather own n := by
  cases n with
  | branch c span children =>
    exact Merge.gather_merged_branch steady (fun n _ => Merge.gatherAll_push steady n) c span
  | _ => rfl

/-- A tree of nodes of some kinds. -/
def IsMadeOf (p : Kind → Bool) (n : Node) : Prop := ∀ m ∈ preorder n, m.kind?.any p

/-- The kinds of inline nodes. -/
def isInlineKind : Kind → Bool
  | .text | .code | .htmlInline | .softbreak | .linebreak => true
  | .emph | .strong | .link | .image | .templateVariable | .computedVariable => true
  | _ => false

variable {p : Kind → Bool} {children : List Node}

theorem IsMadeOf.self {n : Node} (h : IsMadeOf p n) : n.kind?.any p := h n (mem_preorder_self n)

theorem IsMadeOf.isSome {n : Node} (h : IsMadeOf p n) : n.kind?.isSome := by
  have hself := h.self
  cases hkind : n.kind? with
  | none => rw [hkind] at hself; cases hself
  | some k => rfl

theorem IsMadeOf.below {c : Container} {span : Option Span}
    (h : IsMadeOf p (.branch c span children)) : ∀ n ∈ children, IsMadeOf p n :=
  fun _ hn m hm => h m (mem_preorder_branch.mpr (.inr ⟨_, hn, hm⟩))

/-- A mark for a node of no such kind. -/
def otherAt (p : Kind → Bool) (n : Node) : List Unit := if n.kind?.any p then [] else [()]

theorem isSteady_otherAt (text : p .text) (code : p .code) (emph : p .emph) (strong : p .strong) :
    IsSteady (otherAt p) where
  text _ _ _ _ _ := by simp [otherAt, Node.kind?, Leaf.kind, text]
  code _ _ _ _ _ := by simp [otherAt, Node.kind?, Leaf.kind, code]
  emph _ _ := by simp [otherAt, Node.kind?, Container.kind, emph]
  strong _ _ := by simp [otherAt, Node.kind?, Container.kind, strong]
  container _ _ _ _ _ _ := rfl

theorem gather_otherAt {n : Node} : gather (otherAt p) n = [] ↔ IsMadeOf p n := by
  rw [gather_eq_nil_iff]
  refine forall₂_congr fun m _ => ?_
  rw [otherAt]
  split <;> simp_all

theorem gatherAll_pushAll_nil {α : Type} {own : Node → List α} (steady : IsSteady own)
    (children : List Node) :
    gatherAll own (Merge.pushAll [] children) = gatherAll own children := by
  rw [Merge.gatherAll_pushAll (fun n _ => Merge.gatherAll_push steady n), gatherAll_nil,
    List.nil_append]

/-- Merging brings in no other kinds. -/
theorem isMadeOf_pushAll (text : p .text) (code : p .code) (emph : p .emph) (strong : p .strong)
    (h : ∀ n ∈ children, IsMadeOf p n) : ∀ n ∈ Merge.pushAll [] children, IsMadeOf p n := by
  have hmerged := gatherAll_pushAll_nil (isSteady_otherAt text code emph strong) children
  have hnone := (gatherAll_eq_nil_iff (otherAt p)).mpr fun n hn => gather_otherAt.mpr (h n hn)
  rw [hnone, gatherAll_eq_nil_iff] at hmerged
  exact fun n hn => gather_otherAt.mp (hmerged n hn)

end Canonmark.Markdown
