import Canonmark.Proofs.Markdown.Unwrapping
import Canonmark.Proofs.Markdown.Visits

/-! The units of a block container. They hold its children in order, but for wrappers, in place of
which the children of these stand. Inline nodes share a unit as long as neither a block nor the
border of a wrapper comes between them. -/
namespace Canonmark.Markdown

/-- A clause, or a paragraph that holds a block. -/
def IsWrapper (n : Node) : Prop :=
  n.kind? = some .clause ∨ n.kind? = some .paragraph ∧ ∃ m ∈ n.children, ¬isInline m

instance : DecidablePred IsWrapper := fun _ => inferInstanceAs (Decidable (_ ∨ _ ∧ _))

mutual

/-- What stands for a node among blocks: the node, or what stands for the children of a wrapper. -/
def expanded : Node → List Node
  | .leaf l span => [.leaf l span]
  | .branch c span children =>
    if IsWrapper (.branch c span children) then expandedAll children else [.branch c span children]
  | .foreign v => [.foreign v]

def expandedAll : List Node → List Node
  | [] => []
  | n :: ns => expanded n ++ expandedAll ns

end

/-- What one comes by on the way through the children of a block container: a node that stays, or
the border of a wrapper. -/
inductive Waypoint where
  | node (n : Node)
  | enter (wrapper : Node)
  | leave (wrapper : Node)

namespace Waypoint

def node? : Waypoint → Option Node
  | node n => some n
  | enter _ | leave _ => none

/-- Inline nodes before it and after it are apart. -/
def Parts : Waypoint → Prop
  | node n => ¬isInline n
  | enter _ | leave _ => True

end Waypoint

mutual

/-- The way through a node, which goes into wrappers. -/
def way : Node → List Waypoint
  | .leaf l span => [.node (.leaf l span)]
  | .branch c span children =>
    if IsWrapper (.branch c span children) then
      .enter (.branch c span children) ::
        (wayThrough children ++ [.leave (.branch c span children)])
    else [.node (.branch c span children)]
  | .foreign v => [.node (.foreign v)]

def wayThrough : List Node → List Waypoint
  | [] => []
  | n :: ns => way n ++ wayThrough ns

end

/-- The nodes that stay. -/
def met (ps : List Waypoint) : List Node := ps.filterMap Waypoint.node?

/-- Runs are inline nodes, at least one of them; other units are neither inline nodes nor
wrappers. -/
def BlockUnit.IsProper : BlockUnit → Prop
  | .run ns => ns ≠ [] ∧ ∀ n ∈ ns, isInline n
  | .single n => ¬isInline n ∧ ¬IsWrapper n

/-- Units that hold what a way comes by. A run only ends before something that parts it from what
follows. -/
inductive IsGrouped : List Waypoint → List BlockUnit → Prop
  | nil : IsGrouped [] []
  | border {p : Waypoint} {ps : List Waypoint} {us : List BlockUnit} (border : p.node? = none)
      (rest : IsGrouped ps us) : IsGrouped (p :: ps) us
  | single {n : Node} {ps : List Waypoint} {us : List BlockUnit}
      (proper : (BlockUnit.single n).IsProper) (rest : IsGrouped ps us) :
      IsGrouped (.node n :: ps) (.single n :: us)
  | run {ns : List Node} {ps : List Waypoint} {us : List BlockUnit}
      (proper : (BlockUnit.run ns).IsProper) (parts : ∀ p ∈ ps.head?, p.Parts)
      (rest : IsGrouped ps us) : IsGrouped (ns.map .node ++ ps) (.run ns :: us)

/-- Units that hold what stands for children. -/
structure AreUnitsOf (children : List Node) (us : List BlockUnit) : Prop where
  /-- Nothing is lost, added or moved. -/
  nodes : us.flatMap BlockUnit.nodes = expandedAll children
  proper : ∀ u ∈ us, u.IsProper
  /-- One run only follows another where a wrapper begins or ends between them. -/
  apart : ∀ before ns ms after, us = before ++ .run ns :: .run ms :: after →
    ∃ passed border ahead, wayThrough children = passed ++ border :: ahead ∧ border.node? = none ∧
      met passed = (before ++ [BlockUnit.run ns]).flatMap BlockUnit.nodes ∧
      met ahead = (BlockUnit.run ms :: after).flatMap BlockUnit.nodes
  /-- Wherever a wrapper begins or ends, a unit ends. -/
  ends : ∀ passed border ahead, wayThrough children = passed ++ border :: ahead → border.node? =
    none → ∃ before after, us = before ++ after ∧ before.flatMap BlockUnit.nodes = met passed ∧
      after.flatMap BlockUnit.nodes = met ahead

theorem isTransparent_iff {n : Node} : isTransparent n ↔ IsWrapper n := by
  cases n with
  | leaf l span => cases l <;> simp [isTransparent, IsWrapper, Node.kind?, Leaf.kind]
  | branch c span children =>
    cases c <;> simp [isTransparent, IsWrapper, Node.kind?, Container.kind, Node.children]
  | foreign v => simp [isTransparent, IsWrapper, Node.kind?]

theorem not_isWrapper_of_isInline {n : Node} (h : isInline n) : ¬IsWrapper n :=
  fun hn => not_isInline_of_isTransparent (isTransparent_iff.mpr hn) h

theorem exists_branch_of_isWrapper {n : Node} (h : IsWrapper n) :
    ∃ c span children, n = .branch c span children := by
  cases n with
  | branch c span children => exact ⟨c, span, children, rfl⟩
  | leaf l span => cases l <;> simp [IsWrapper, Node.kind?, Leaf.kind] at h
  | foreign v => simp [IsWrapper, Node.kind?] at h

theorem way_of_isWrapper {n : Node} (h : IsWrapper n) :
    way n = .enter n :: (wayThrough n.children ++ [.leave n]) := by
  obtain ⟨c, span, children, rfl⟩ := exists_branch_of_isWrapper h
  rw [way, if_pos h, Node.children]

theorem way_of_not_isWrapper {n : Node} (h : ¬IsWrapper n) : way n = [.node n] := by
  cases n with
  | branch c span children => rw [way, if_neg h]
  | leaf l span | foreign v => rw [way]

theorem wayThrough_append (ns ms : List Node) :
    wayThrough (ns ++ ms) = wayThrough ns ++ wayThrough ms := by
  induction ns with
  | nil => rfl
  | cons n ns ih => rw [List.cons_append, wayThrough, wayThrough, ih, List.append_assoc]

theorem wayThrough_inline {run : List Node} (h : ∀ n ∈ run, isInline n) :
    wayThrough run = run.map .node := by
  induction run with
  | nil => rfl
  | cons n run ih =>
    obtain ⟨hn, hrun⟩ := List.forall_mem_cons.mp h
    rw [wayThrough, way_of_not_isWrapper (not_isWrapper_of_isInline hn), ih hrun, List.map_cons,
      List.singleton_append]

@[simp] theorem met_append (ps qs : List Waypoint) : met (ps ++ qs) = met ps ++ met qs :=
  List.filterMap_append

@[simp] theorem met_map_node (ns : List Node) : met (ns.map .node) = ns := by
  rw [met, List.filterMap_map]
  exact List.filterMap_some

theorem met_cons_border {p : Waypoint} (h : p.node? = none) (ps : List Waypoint) :
    met (p :: ps) = met ps :=
  List.filterMap_cons_none h

theorem met_cons_node (n : Node) (ps : List Waypoint) : met (.node n :: ps) = n :: met ps := rfl

mutual

theorem met_way : ∀ n, met (way n) = expanded n
  | .leaf l span => rfl
  | .branch c span children => by
    rw [way, expanded]
    split
    · rw [met_cons_border rfl, met_append, met_wayThrough children]
      exact List.append_nil _
    · rfl
  | .foreign v => rfl

/-- The way through children meets what stands for them. -/
theorem met_wayThrough : ∀ ns, met (wayThrough ns) = expandedAll ns
  | [] => rfl
  | n :: ns => by rw [wayThrough, expandedAll, met_append, met_way n, met_wayThrough ns]

end

/-- There is no border among nodes that stay. -/
theorem exists_of_border_after {ns : List Node} {ps passed ahead : List Waypoint}
    {border : Waypoint} (h : ns.map .node ++ ps = passed ++ border :: ahead)
    (hborder : border.node? = none) :
    ∃ passed', passed = ns.map .node ++ passed' ∧ ps = passed' ++ border :: ahead := by
  induction ns generalizing passed with
  | nil => exact ⟨passed, rfl, h⟩
  | cons n ns ih =>
    cases passed with
    | nil =>
      obtain ⟨rfl, -⟩ := List.cons.inj h
      cases hborder
    | cons p passed =>
      obtain ⟨rfl, htail⟩ := List.cons.inj h
      obtain ⟨passed', rfl, hps⟩ := ih htail
      exact ⟨passed', rfl, hps⟩

namespace IsGrouped

variable {ps qs : List Waypoint} {us vs : List BlockUnit}

theorem append (h : IsGrouped ps us) (h' : IsGrouped qs vs) (parts : ∀ p ∈ qs.head?, p.Parts) :
    IsGrouped (ps ++ qs) (us ++ vs) := by
  induction h with
  | nil => exact h'
  | border border rest ih => exact .border border ih
  | single proper rest ih => exact .single proper ih
  | @run ns ps us proper hparts rest ih =>
    rw [List.append_assoc]
    refine .run proper (fun p hp => ?_) ih
    cases ps with
    | nil => exact parts p hp
    | cons q ps => exact hparts p hp

theorem flatMap_nodes (h : IsGrouped ps us) : us.flatMap BlockUnit.nodes = met ps := by
  induction h with
  | nil => rfl
  | border border rest ih => rw [met_cons_border border, ih]
  | single proper rest ih =>
    rw [List.flatMap_cons, ih, met_cons_node, BlockUnit.nodes, List.singleton_append]
  | run proper parts rest ih =>
    rw [List.flatMap_cons, ih, met_append, met_map_node, BlockUnit.nodes]

theorem proper (h : IsGrouped ps us) : ∀ u ∈ us, u.IsProper := by
  induction h with
  | nil => nofun
  | border border rest ih => exact ih
  | single proper rest ih | run proper parts rest ih => exact List.forall_mem_cons.mpr ⟨proper, ih⟩

/-- A run that is parted from what was before it comes after a border. -/
theorem exists_border_of_run (h : IsGrouped ps us) {ns : List Node} {after : List BlockUnit}
    (hus : us = .run ns :: after) (parts : ∀ p ∈ ps.head?, p.Parts) :
    ∃ p qs, ps = p :: qs ∧ p.node? = none ∧ IsGrouped qs us := by
  cases h with
  | nil => cases hus
  | border border rest => exact ⟨_, _, rfl, border, rest⟩
  | single proper rest => cases hus
  | @run ms qs vs proper hparts rest =>
    obtain ⟨some, inline⟩ := proper
    cases ms with
    | nil => exact absurd rfl some
    | cons m ms => exact absurd (inline m (by simp)) (parts (.node m) rfl)

/-- Between two runs in a row there is a border. -/
theorem border_between (h : IsGrouped ps us) {before after : List BlockUnit} {ns ms : List Node}
    (hus : us = before ++ .run ns :: .run ms :: after) :
    ∃ passed border ahead, ps = passed ++ border :: ahead ∧ border.node? = none ∧
      met passed = (before ++ [BlockUnit.run ns]).flatMap BlockUnit.nodes ∧
      met ahead = (BlockUnit.run ms :: after).flatMap BlockUnit.nodes := by
  induction h generalizing before with
  | nil => simp at hus
  | @border p ps us border rest ih =>
    obtain ⟨passed, q, ahead, rfl, hq, hpassed, hahead⟩ := ih hus
    exact ⟨p :: passed, q, ahead, rfl, hq, by rw [met_cons_border border, hpassed], hahead⟩
  | @single n ps us proper rest ih =>
    cases before with
    | nil => cases hus
    | cons u before =>
      obtain ⟨rfl, htail⟩ := List.cons.inj hus
      obtain ⟨passed, q, ahead, rfl, hq, hpassed, hahead⟩ := ih htail
      exact ⟨.node n :: passed, q, ahead, rfl, hq, by rw [met_cons_node, hpassed]; rfl, hahead⟩
  | @run ks ps us proper parts rest ih =>
    cases before with
    | nil =>
      obtain ⟨hks, rfl⟩ := List.cons.inj hus
      cases hks
      obtain ⟨q, ahead, rfl, hq, hahead⟩ := rest.exists_border_of_run rfl parts
      exact ⟨ns.map .node, q, ahead, rfl, hq, by simp [BlockUnit.nodes], hahead.flatMap_nodes.symm⟩
    | cons u before =>
      obtain ⟨rfl, htail⟩ := List.cons.inj hus
      obtain ⟨passed, q, ahead, rfl, hq, hpassed, hahead⟩ := ih htail
      refine ⟨ks.map .node ++ passed, q, ahead, (List.append_assoc ..).symm, hq, ?_, hahead⟩
      rw [met_append, met_map_node, hpassed]
      rfl

/-- No unit goes over a border. -/
theorem split_at_border (h : IsGrouped ps us) {passed ahead : List Waypoint} {border : Waypoint}
    (hps : ps = passed ++ border :: ahead) (hborder : border.node? = none) :
    ∃ before after, us = before ++ after ∧ before.flatMap BlockUnit.nodes = met passed ∧
      after.flatMap BlockUnit.nodes = met ahead := by
  induction h generalizing passed with
  | nil => simp at hps
  | @border p ps us hp rest ih =>
    cases passed with
    | nil =>
      obtain ⟨rfl, rfl⟩ := List.cons.inj hps
      exact ⟨[], us, rfl, rfl, rest.flatMap_nodes⟩
    | cons q passed =>
      obtain ⟨rfl, htail⟩ := List.cons.inj hps
      rw [met_cons_border hp]
      exact ih htail
  | @single n ps us proper rest ih =>
    cases passed with
    | nil =>
      obtain ⟨rfl, -⟩ := List.cons.inj hps
      cases hborder
    | cons q passed =>
      obtain ⟨rfl, htail⟩ := List.cons.inj hps
      obtain ⟨before, after, rfl, hbefore, hafter⟩ := ih htail
      refine ⟨.single n :: before, after, rfl, ?_, hafter⟩
      rw [List.flatMap_cons, hbefore, met_cons_node, BlockUnit.nodes, List.singleton_append]
  | @run ns ps us proper parts rest ih =>
    obtain ⟨passed', rfl, htail⟩ := exists_of_border_after hps hborder
    obtain ⟨before, after, rfl, hbefore, hafter⟩ := ih htail
    refine ⟨BlockUnit.run ns :: before, after, rfl, ?_, hafter⟩
    rw [List.flatMap_cons, hbefore, met_append, met_map_node, BlockUnit.nodes]

end IsGrouped

theorem ofBlock_of_not_isWrapper {n : Node} (typed : Schema.foreign? n = none)
    (stays : ¬IsWrapper n) : BlockUnit.ofBlock n = [.single n] := by
  cases n with
  | leaf l span =>
    rw [BlockUnit.ofBlock]
    all_goals simp
  | branch c span children => rw [BlockUnit.ofBlock, if_neg (mt isTransparent_iff.mp stays)]
  | foreign v => cases typed

theorem ofBlock_of_isWrapper {n : Node} (h : IsWrapper n) :
    BlockUnit.ofBlock n = BlockUnit.ofChildren n.children := by
  obtain ⟨c, span, children, rfl⟩ := exists_branch_of_isWrapper h
  exact BlockUnit.ofBlock_of_transparent (isTransparent_iff.mpr h)

theorem isGrouped_of_wrappers {ns : List Node} (typed : ∀ n ∈ ns, Schema.foreign? n = none)
    (wrappers : ∀ n ∈ ns, IsWrapper n → IsGrouped (wayThrough n.children)
      (BlockUnit.ofChildren n.children)) : IsGrouped (wayThrough ns) (BlockUnit.ofChildren ns) := by
  have hinline : ∀ run : List Node, (∀ n ∈ run, isInline n) →
      IsGrouped (wayThrough run) (BlockUnit.ofChildren run) := by
    intro run hrun
    rw [wayThrough_inline hrun, BlockUnit.ofChildren_inline hrun]
    cases run with
    | nil => exact .nil
    | cons n run =>
      rw [← List.append_nil (List.map _ _)]
      exact .run ⟨List.cons_ne_nil n run, hrun⟩ nofun .nil
  induction ns using inductionOnBlocks with
  | inline run hrun => exact hinline run hrun
  | block run n ns hrun hn ih =>
    have hrest : IsGrouped (wayThrough ns) (BlockUnit.ofChildren ns) :=
      ih (fun m hm => typed m (by simp [hm])) fun m hm => wrappers m (by simp [hm])
    rw [wayThrough_append, wayThrough, BlockUnit.ofChildren_block hrun hn]
    by_cases h : IsWrapper n
    · -- The borders of the wrapper end the run before it and the last run in it.
      rw [way_of_isWrapper h, ofBlock_of_isWrapper h, List.cons_append, List.append_assoc,
        List.singleton_append]
      refine (hinline run hrun).append (.border rfl ?_) (by rintro p ⟨⟩; trivial)
      exact (wrappers n (by simp) h).append (.border rfl hrest) (by rintro p ⟨⟩; trivial)
    · rw [way_of_not_isWrapper h, ofBlock_of_not_isWrapper (typed n (by simp)) h]
      exact (hinline run hrun).append (.single ⟨hn, h⟩ hrest) (by rintro p ⟨⟩; exact hn)

/-- The children of a container are grouped as the way through them demands. -/
theorem isGrouped_children {n : Node} (typed : Schema.foreign? n = none) :
    IsGrouped (wayThrough n.children) (BlockUnit.ofChildren n.children) := by
  induction n using Node.inductionOnChildren with
  | leaf l span | foreign v => exact .nil
  | branch c span children ih =>
    rw [Schema.foreign?, Schema.foreignIn?_eq_none_iff] at typed
    exact isGrouped_of_wrappers typed fun n hn _ => ih n hn (typed n hn)

/-- The units of children are these in order, with what stands for wrappers in their place. -/
theorem areUnitsOf_ofChildren {children : List Node}
    (typed : ∀ n ∈ children, Schema.foreign? n = none) :
    AreUnitsOf children (BlockUnit.ofChildren children) := by
  have grouped : IsGrouped (wayThrough children) (BlockUnit.ofChildren children) :=
    isGrouped_of_wrappers typed fun n hn _ => isGrouped_children (typed n hn)
  constructor
  · exact grouped.flatMap_nodes.trans (met_wayThrough children)
  · exact grouped.proper
  · intro before ns ms after hus
    exact grouped.border_between hus
  · intro passed border ahead hway hborder
    exact grouped.split_at_border hway hborder

/-- A clause between two texts. In it there is a paragraph that ends with a rule. -/
def clausedTexts : List Node := [
  .leaf (.text "a") none,
  .branch (.clause "id" "src" none) none [
    .leaf (.text "b") none,
    .branch .paragraph none [.leaf (.text "c") none, .leaf .thematicBreak none]],
  .leaf (.text "d") none]

theorem areUnitsOf_clausedTexts :
    (∀ n ∈ clausedTexts, Schema.foreign? n = none) ∧
      AreUnitsOf clausedTexts [
        .run [.leaf (.text "a") none], .run [.leaf (.text "b") none], .run [.leaf (.text "c") none],
        .single (.leaf .thematicBreak none), .run [.leaf (.text "d") none]] := by
  have typed : ∀ n ∈ clausedTexts, Schema.foreign? n = none := by
    simp [clausedTexts, Schema.foreign?, Schema.foreignIn?]
  exact ⟨typed, areUnitsOf_ofChildren typed⟩

end Canonmark.Markdown
