import Canonmark.Convert

/-! The nodes of a tree in document order, and what they amount to when each of them adds
something. -/
namespace Canonmark

/-- Induction over a tree and the trees below it. -/
theorem Node.inductionOnChildren {motive : Node → Prop} (leaf : ∀ l span, motive (.leaf l span))
    (branch : ∀ c span children, (∀ n ∈ children, motive n) → motive (.branch c span children))
    (foreign : ∀ v, motive (.foreign v)) (n : Node) : motive n := by
  cases n with
  | leaf l span => exact leaf l span
  | branch c span children =>
    exact branch c span children fun m _ => inductionOnChildren leaf branch foreign m
  | foreign v => exact foreign v

theorem preorderAll_eq_flatMap (ns : List Node) :
    preorder.preorderAll ns = ns.flatMap preorder := by
  induction ns with
  | nil => rfl
  | cons n ns ih => rw [preorder.preorderAll, ih, List.flatMap_cons]

theorem mem_preorder_branch {n : Node} {c : Container} {span : Option Span} {children : List Node} :
    n ∈ preorder (.branch c span children) ↔ n = .branch c span children ∨
    ∃ m ∈ children, n ∈ preorder m := by
  rw [preorder, preorderAll_eq_flatMap, List.mem_cons, List.mem_flatMap]

theorem mem_preorder_self (n : Node) : n ∈ preorder n := by
  cases n <;> simp [preorder]

theorem mem_preorder_trans {n m k : Node} (hm : m ∈ preorder n) (hk : k ∈ preorder m) :
    k ∈ preorder n := by
  induction n using Node.inductionOnChildren with
  | leaf l span | foreign v =>
    obtain rfl := List.mem_singleton.mp hm
    exact hk
  | branch c span children ih =>
    obtain rfl | ⟨child, hchild, hm⟩ := mem_preorder_branch.mp hm
    · exact hk
    · exact mem_preorder_branch.mpr (.inr ⟨child, hchild, ih child hchild hm⟩)

section Gather

variable {α : Type} (own : Node → List α)

/-- What the nodes of a tree add, one after the other. -/
def gather (n : Node) : List α := (preorder n).flatMap own

def gatherAll (ns : List Node) : List α := ns.flatMap (gather own)

@[simp] theorem gatherAll_nil : gatherAll own [] = [] := rfl

@[simp] theorem gatherAll_cons (n : Node) (ns : List Node) :
    gatherAll own (n :: ns) = gather own n ++ gatherAll own ns := List.flatMap_cons

@[simp] theorem gatherAll_append (ns ms : List Node) :
    gatherAll own (ns ++ ms) = gatherAll own ns ++ gatherAll own ms := List.flatMap_append

@[simp] theorem gather_leaf (l : Leaf) (span : Option Span) :
    gather own (.leaf l span) = own (.leaf l span) := by
  simp [gather, preorder]

@[simp] theorem gather_foreign (v : Json) : gather own (.foreign v) = own (.foreign v) := by
  simp [gather, preorder]

@[simp] theorem gather_branch (c : Container) (span : Option Span) (children : List Node) :
    gather
      own (.branch c span children) = own (.branch c span children) ++ gatherAll own children := by
  rw [gather, preorder, List.flatMap_cons, preorderAll_eq_flatMap, List.flatMap_assoc]
  rfl

theorem mem_gather_of_mem_preorder {n m : Node} (h : m ∈ preorder n) {a : α}
    (ha : a ∈ gather own m) : a ∈ gather own n := by
  obtain ⟨k, hk, ha⟩ := List.mem_flatMap.mp ha
  exact List.mem_flatMap.mpr ⟨k, mem_preorder_trans h hk, ha⟩

theorem gather_eq_nil_iff {n : Node} : gather own n = [] ↔ ∀ m ∈ preorder n, own m = [] :=
  List.flatMap_eq_nil_iff

theorem gatherAll_eq_nil_iff {ns : List Node} :
    gatherAll own ns = [] ↔ ∀ n ∈ ns, gather own n = [] :=
  List.flatMap_eq_nil_iff

end Gather

/-- The value of a node that is none. -/
def foreignAt : Node → List Json
  | .foreign v => [v]
  | _ => []

theorem foreignIn?_eq {ns : List Node}
    (h : ∀ n ∈ ns, Schema.foreign? n = (gather foreignAt n).head?) :
    Schema.foreignIn? ns = (gatherAll foreignAt ns).head? := by
  induction ns with
  | nil => rfl
  | cons n ns ih =>
    obtain ⟨hn, hns⟩ := List.forall_mem_cons.mp h
    rw [Schema.foreignIn?, hn, ih hns, gatherAll_cons, List.head?_append]
    cases (gather foreignAt n).head? <;> rfl

/-- Of the foreign values in a tree the first is refused. -/
theorem foreign?_eq (n : Node) : Schema.foreign? n = (gather foreignAt n).head? := by
  induction n using Node.inductionOnChildren with
  | leaf l span => rfl
  | branch c span children ih =>
    rw [Schema.foreign?, foreignIn?_eq ih, gather_branch]
    rfl
  | foreign v => rfl

theorem gather_foreignAt_eq_nil_iff {n : Node} :
    gather foreignAt n = [] ↔ Schema.foreign? n = none := by
  rw [foreign?_eq, List.head?_eq_none_iff]

end Canonmark
