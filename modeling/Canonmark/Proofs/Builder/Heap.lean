import Canonmark.Proofs.Builder.Session
import Canonmark.Proofs.Pairs

/-! Nodes that lie in a heap and are changed in their places. A node is attached to the open one
below it as soon as it is opened. What the heap holds is told from a stack of frames, in which a
node joins the one below it when it is closed: the open nodes read as the nodes that the frames
hold. -/
namespace Canonmark.Builder

/-- A node at its place: its members, and the places of its children once there are any. -/
structure Cell where
  members : Members
  children : Option (List Nat) := none

abbrev Heap := List Cell

namespace Cell

def classValue (c : Cell) : Json := (c.members.get? Schema.classKey).getD .null

def node (c : Cell) (value : Nat → Json) : Json :=
  match c.children with
  | none => .obj c.members
  | some places => .obj (c.members.set Schema.childrenKey (.arr (places.map value)))

/-- Makes a list of children where there is none yet. What an attribute has left in its place is
dropped. -/
def openChildren (c : Cell) : Cell :=
  match c.children with
  | none => { members := c.members.set Schema.childrenKey (.arr []), children := some [] }
  | some _ => c

def addChild (c : Cell) (place : Nat) : Cell :=
  { c with children := some (c.children.getD [] ++ [place]) }

theorem node_congr {c : Cell} {value value' : Nat → Json}
    (h : ∀ n ∈ c.children.getD [], value n = value' n) : c.node value = c.node value' := by
  obtain ⟨ms, children⟩ := c
  cases children with
  | none => rfl
  | some places =>
    have hmap : places.map value = places.map value' := List.map_congr_left h
    exact congrArg (fun vs => Json.obj (ms.set Schema.childrenKey (.arr vs))) hmap

end Cell

namespace Heap

/-- The nodes of a heap, the first of which lies at `first`. A child lies after its parent. -/
def valuesFrom (first : Nat) : Heap → List Json
  | [] => []
  | c :: cs =>
    let later := valuesFrom (first + 1) cs
    c.node (fun n => (later[n - (first + 1)]?).getD .null) :: later

/-- The node at a place. -/
def read? (h : Heap) (n : Nat) : Option Json := (valuesFrom 0 h)[n]?

def lastChild? (h : Heap) (n : Nat) : Option Nat := (h[n]?.bind Cell.children).bind List.getLast?

variable {h h' : Heap} {opened opened' above places : List Nat} {n m : Nat} {stack : Stack}

/-- What lies after the first place is found without the first node. -/
theorem getElem?_valuesFrom_cons (c : Cell) (cs : Heap) {first n : Nat} (after : first < n) :
    (valuesFrom first (c :: cs))[n - first]? = (valuesFrom (first + 1) cs)[n - (first + 1)]? := by
  rw [valuesFrom, show n - first = n - (first + 1) + 1 by omega, List.getElem?_cons_succ]

theorem getElem?_valuesFrom {c : Cell} {first i : Nat} (here : h[i]? = some c)
    (later : ∀ n ∈ c.children.getD [], first + i < n) :
    (valuesFrom first h)[i]? =
      some (c.node fun n => ((valuesFrom first h)[n - first]?).getD .null) := by
  induction h generalizing first i with
  | nil => cases here
  | cons d ds ih =>
    cases i with
    | zero =>
      obtain rfl := Option.some.inj here
      refine congrArg some (Cell.node_congr fun n hn => ?_)
      rw [getElem?_valuesFrom_cons _ _ (by simpa using later n hn)]
    | succ i =>
      have hlater : ∀ n ∈ c.children.getD [], first + 1 + i < n := by
        intro n hn
        have := later n hn
        omega
      rw [valuesFrom, List.getElem?_cons_succ, ih here hlater, ← valuesFrom]
      refine congrArg some (Cell.node_congr fun n hn => ?_)
      rw [getElem?_valuesFrom_cons _ _ (by have := later n hn; omega)]

theorem read?_eq {c : Cell} (here : h[n]? = some c) (later : ∀ m ∈ c.children.getD [], n < m) :
    h.read? n = some (c.node fun m => (h.read? m).getD .null) :=
  getElem?_valuesFrom here (by simpa using later)

/-- A closed node of a heap, and its value: neither it nor a node below it is open. -/
inductive Settled (h : Heap) (opened : List Nat) : Nat → Json → Prop
  | mk {n : Nat} {c : Cell} (value : Nat → Json) (here : h[n]? = some c) (closed : n ∉ opened)
      (later : ∀ m ∈ c.children.getD [], n < m)
      (below : ∀ m ∈ c.children.getD [], Settled h opened m (value m)) :
      Settled h opened n (c.node value)

theorem Settled.read? {v : Json} (settled : Settled h opened n v) : h.read? n = some v := by
  induction settled with
  | mk value here _ later _ ih =>
    rw [read?_eq here later]
    exact congrArg some (Cell.node_congr fun m hm => by rw [ih m hm, Option.getD_some])

/-- Closed nodes stay as they are when others are changed or opened. -/
theorem Settled.mono {v : Json} (settled : Settled h opened n v)
    (same : ∀ n c, n ∉ opened → h[n]? = some c → h'[n]? = some c ∧ n ∉ opened') :
    Settled h' opened' n v := by
  induction settled with
  | mk value here closed later _ ih =>
    obtain ⟨here', closed'⟩ := same _ _ closed here
    exact .mk value here' closed' later ih

/-- A closed node stays closed when another one is closed. -/
theorem Settled.of_pop {v : Json} (settled : Settled h (n :: places) m v) :
    Settled h places m v :=
  settled.mono fun _ _ hk hc => ⟨hc, fun hmem => hk (List.mem_cons_of_mem n hmem)⟩

/-- Open nodes, the innermost first, that are told from frames. After its closed children, each has
those `above` it that are open. -/
inductive Lays (h : Heap) (opened : List Nat) : (above places : List Nat) → Stack → Prop
  | nil {above : List Nat} : Lays h opened above [] []
  | cons {above places : List Nat} {n : Nat} {f : Frame} {stack : Stack} (closed : List Nat)
      (here : h[n]? = some ⟨f.members, f.children.map fun _ => closed ++ above⟩)
      (room : f.children = none → above = []) (later : ∀ m ∈ closed ++ above, n < m)
      (settled : List.Forall₂ (Settled h opened) closed (f.children.getD []))
      (below : Lays h opened [n] places stack) : Lays h opened above (n :: places) (f :: stack)

theorem Lays.mono (lays : Lays h opened above places stack)
    (same : ∀ n ∈ places, h'[n]? = h[n]?)
    (settled : ∀ n v, Settled h opened n v → Settled h' opened' n v) :
    Lays h' opened' above places stack := by
  induction lays with
  | nil => exact .nil
  | cons closed here room later hclosed _ ih =>
    refine .cons closed ?_ room later (hclosed.imp settled) (ih fun n hn => same n (by simp [hn]))
    rw [same _ (by simp), here]

theorem Lays.length_eq (lays : Lays h opened above places stack) :
    places.length = stack.length := by
  induction lays with
  | nil => rfl
  | cons _ _ _ _ _ _ ih => rw [List.length_cons, List.length_cons, ih]

theorem Lays.lt_length (lays : Lays h opened above places stack) : ∀ n ∈ places, n < h.length := by
  induction lays with
  | nil => nofun
  | cons _ here _ _ _ _ ih =>
    intro n hn
    obtain rfl | hn := List.mem_cons.mp hn
    · exact (List.getElem?_eq_some_iff.mp here).1
    · exact ih n hn

/-- A node lies before all those that are open above it. -/
theorem Lays.lt_above (lays : Lays h opened above places stack) :
    ∀ n ∈ places, ∀ m ∈ above, n < m := by
  induction lays with
  | nil => nofun
  | cons _ _ _ later _ _ ih =>
    intro n hn m hm
    have hlater := later m (by simp [hm])
    obtain rfl | hn := List.mem_cons.mp hn
    · exact hlater
    · exact (ih n hn _ (by simp)).trans hlater

/-- Each open node above another one is its last child. -/
theorem Lays.isChain (lays : Lays h opened above places stack) :
    places.IsChain (fun m n => h.lastChild? n = some m) := by
  induction lays with
  | nil => exact .nil
  | @cons above places n f stack closed here room later settled below ih =>
    cases below with
    | nil => exact .singleton _
    | @cons _ _ m g _ closed' here' room' _ _ _ =>
      refine .cons_cons ?_ ih
      have hchildren : g.children ≠ none := fun hnone => by cases room' hnone
      obtain ⟨vs, hvs⟩ := Option.ne_none_iff_exists'.mp hchildren
      simp [lastChild?, here', hvs]

/-- A change of an open node changes no closed one, even if a new node is opened. -/
theorem Settled.of_change {v : Json} (settled : Settled h (n :: places) m v)
    (same : ∀ m c, m ≠ n → h[m]? = some c → h'[m]? = some c)
    (more : ∀ m ∈ opened', m ∉ n :: places → h.length ≤ m) : Settled h' opened' m v := by
  refine settled.mono fun k c hk hc =>
    ⟨same k c (fun heq => hk (by simp [heq])) hc, fun hmore => ?_⟩
  exact Nat.not_le.mpr (List.getElem?_eq_some_iff.mp hc).1 (more k hmore hk)

theorem Lays.of_change (lays : Lays h (n :: places) [n] places stack)
    (same : ∀ m c, m ≠ n → h[m]? = some c → h'[m]? = some c)
    (more : ∀ m ∈ opened', m ∉ n :: places → h.length ≤ m) : Lays h' opened' [n] places stack := by
  refine lays.mono (fun m hm => ?_) fun m v settled => settled.of_change same more
  have hc : h[m]? = some (h.get ⟨m, lays.lt_length m hm⟩) := List.getElem?_eq_getElem _
  rw [hc]
  exact same m _ (lays.lt_above m hm n (by simp)).ne hc

/-- The heap in which a node is the last child of the innermost of the open ones. -/
def attach (h : Heap) (places : List Nat) (n : Nat) : Heap :=
  match places with
  | [] => h
  | parent :: _ => h.modify parent fun c => c.openChildren.addChild n

/-- Makes room in the innermost frame. -/
def makeRoom : Stack → Stack
  | [] => []
  | parent :: rest => parent.openChildren :: rest

theorem Lays.push (lays : Lays h places [] places stack) (ms : Members) :
    Lays (attach (h ++ [⟨ms, none⟩]) places h.length) (h.length :: places) [] (h.length :: places)
      ({ members := ms } :: makeRoom stack) := by
  cases lays with
  | nil => exact .cons [] (by simp [attach]) (fun _ => rfl) nofun .nil .nil
  | @cons _ places n f stack closed here room later settled below =>
    have hn : n < h.length := (List.getElem?_eq_some_iff.mp here).1
    have same : ∀ m c, m ≠ n → h[m]? = some c →
        (attach (h ++ [⟨ms, none⟩]) (n :: places) h.length)[m]? = some c := by
      intro m c hm hc
      have hlt := (List.getElem?_eq_some_iff.mp hc).1
      rw [attach, List.getElem?_modify_ne _ _ hm.symm, List.getElem?_append_left hlt, hc]
    have more : ∀ m ∈ h.length :: n :: places, m ∉ n :: places → h.length ≤ m := by
      intro m hm hnew
      obtain rfl | hm := List.mem_cons.mp hm
      · exact Nat.le_refl _
      · exact absurd hm hnew
    have hnew : (attach (h ++ [⟨ms, none⟩]) (n :: places) h.length)[h.length]? =
        some ⟨ms, none⟩ := by
      rw [attach, List.getElem?_modify_ne _ _ hn.ne]
      simp
    have hparent : (attach (h ++ [⟨ms, none⟩]) (n :: places) h.length)[n]? = some
        ⟨f.openChildren.members, f.openChildren.children.map fun _ => closed ++ [h.length]⟩ := by
      rw [attach, List.getElem?_modify_eq, List.getElem?_append_left hn, here]
      obtain ⟨fms, children⟩ := f
      cases children with
      | none =>
        cases settled
        rfl
      | some vs => simp [Cell.openChildren, Cell.addChild, Frame.openChildren]
    refine .cons [] hnew (fun _ => rfl) nofun .nil
      (.cons closed hparent (fun hnone => ?_) ?_ ?_ (below.of_change same more))
    · rw [children_openChildren] at hnone
      cases hnone
    · intro m hm
      obtain hm | hm := List.mem_append.mp hm
      · exact later m (by simp [hm])
      · rw [List.mem_singleton.mp hm]
        exact hn
    · rw [children_openChildren, Option.getD_some]
      exact settled.imp fun _ _ hsettled => hsettled.of_change same more

/-- The members of the innermost node are changed as those of its frame. -/
theorem Lays.changeMembers {f : Frame} (lays : Lays h (n :: places) [] (n :: places) (f :: stack))
    (g : Members → Members) :
    Lays (h.modify n fun c => { c with members := g c.members }) (n :: places) [] (n :: places)
      ({ f with members := g f.members } :: stack) := by
  have same : ∀ m c, m ≠ n → h[m]? = some c →
      (h.modify n fun c => { c with members := g c.members })[m]? = some c := by
    intro m c hm hc
    rw [List.getElem?_modify_ne _ _ hm.symm, hc]
  have more : ∀ m ∈ n :: places, m ∉ n :: places → h.length ≤ m := fun m hm hnew => absurd hm hnew
  cases lays with
  | cons closed here room later settled below =>
    refine .cons closed ?_ room later (settled.imp fun _ _ hsettled => hsettled.of_change same more)
      (below.of_change same more)
    rw [List.getElem?_modify_eq, here]
    rfl

/-- Closed nodes have the values that are read at their places. -/
theorem map_read?_of_settled {vs : List Json}
    (settled : List.Forall₂ (Settled h opened) places vs) :
    places.map (fun n => (h.read? n).getD .null) = vs := by
  induction settled with
  | nil => rfl
  | cons hsettled _ ih => rw [List.map_cons, ih, hsettled.read?, Option.getD_some]

/-- The innermost node is what its frame holds, and closed for the others. -/
theorem Lays.settled_head {f : Frame} (lays : Lays h (n :: places) [] (n :: places) (f :: stack)) :
    Settled h places n f.node := by
  cases lays with
  | @cons _ _ _ _ _ closed here room later settled below =>
    have hopen : n ∉ places := fun hn => Nat.lt_irrefl n (below.lt_above n hn n (by simp))
    have hchildren : ∀ m ∈ closed, Settled h places m ((h.read? m).getD .null) := by
      refine forall_left_of_forall₂ settled fun m v hsettled => ?_
      rw [hsettled.read?, Option.getD_some]
      exact hsettled.of_pop
    have hvalues := map_read?_of_settled settled
    rw [List.append_nil] at here later
    obtain ⟨ms, children⟩ := f
    cases children with
    | none => exact .mk (fun _ => .null) here hopen nofun nofun
    | some vs =>
      have hnode : Cell.node ⟨ms, some closed⟩ (fun m => (h.read? m).getD .null) =
          Frame.node ⟨ms, some vs⟩ :=
        congrArg (fun vs => Json.obj (ms.set Schema.childrenKey (.arr vs))) hvalues
      rw [← hnode]
      exact .mk (fun m => (h.read? m).getD .null) here hopen later hchildren

/-- A node that is closed is found at its place among the children of the one below it. -/
theorem Lays.pop (lays : Lays h (n :: places) [] (n :: places) stack) :
    Lays h places [] places (pop stack) := by
  cases lays with
  | @cons _ _ _ f stack closed here room later settled below =>
    have hhead := (Lays.cons closed here room later settled below).settled_head
    cases below with
    | nil => exact .nil
    | @cons _ _ m g _ closed' here' room' later' settled' below' =>
      have hchildren : g.children ≠ none := fun hnone => by cases room' hnone
      obtain ⟨vs, hvs⟩ := Option.ne_none_iff_exists'.mp hchildren
      refine .cons (closed' ++ [n]) ?_ nofun (by simpa using later') ?_
        (below'.mono (fun _ _ => rfl) fun _ _ => Settled.of_pop)
      · rw [here', hvs, List.append_nil]
        simp [Frame.addChild]
      · rw [Frame.addChild, Option.getD_some]
        exact List.rel_append (settled'.imp fun _ _ => Settled.of_pop) (.cons hhead .nil)

/-- The open nodes read as what the frames hold. -/
theorem Lays.map_read? : ∀ {places : List Nat} {stack : Stack}, Lays h places [] places stack →
    places.map h.read? = (held stack).map some
  | _, _, .nil => by rw [held]; rfl
  | n :: places, f :: stack, lays => by
    rw [held, List.map_cons, List.map_cons, lays.settled_head.read?, lays.pop.map_read?]
termination_by places => places.length

end Heap
end Canonmark.Builder
