import Canonmark.Convert
import Canonmark.Proofs.Markdown.Splitting
import Canonmark.Proofs.Markdown.Visits

/-! What a visit leaves of the state of a writer, whatever state it is in, and what one call leaves
to the calls after it. -/
namespace Canonmark.Markdown

/-- A node whose visit comes to a link before it writes anything. -/
inductive BeginsWithLink : Node → Prop
  | link {dest title : String} {span : Option Span} {children : List Node} :
      BeginsWithLink (.branch (.link dest title) span children)
  | list {data : ListData} {span : Option Span} {n : Node} {ns : List Node}
      (first : BeginsWithLink n) : BeginsWithLink (.branch (.list data) span (n :: ns))
  | blocks {c : Container} {span : Option Span} {children : List Node} {n : Node}
      {us : List BlockUnit} (kind : c.kind = .document ∨ c.kind = .clause)
      (units : BlockUnit.ofChildren children = .single n :: us) (first : BeginsWithLink n) :
      BeginsWithLink (.branch c span children)

theorem BeginsWithLink.of_merged {n : Node} (h : BeginsWithLink (merged n)) : BeginsWithLink n := by
  induction n using inductionOnVisits with
  | leaf x span => cases h
  | foreign v => cases h
  | branch c span children ih units =>
    obtain ⟨span', hmerged⟩ := isReshaping_merged.branch c span children
    rw [hmerged] at h
    generalize hbelow : (if c.kind = .list then children.map merged
      else (mergeAdjacent children).map merged) = below at h
    cases h with
    | link => exact .link
    | list first =>
      rw [Container.kind, if_pos rfl] at hbelow
      obtain ⟨n, ns, rfl, rfl, -⟩ := List.map_eq_cons_iff.1 hbelow
      exact .list (ih n (by simp) first)
    | blocks kind hunits first =>
      rw [if_neg (by obtain h | h := kind <;> simp [h])] at hbelow
      rw [← hbelow, isReshaping_merged.ofChildren] at hunits
      obtain ⟨u, us, hus, hu, -⟩ := List.map_eq_cons_iff.1 hunits
      cases u with
      | run content => cases hu
      | single n =>
        cases hu
        exact .blocks kind hus
          (units (.single n) (by simp [hus]) n (by simp [BlockUnit.nodes]) first)

namespace Writer

/-- An exclamation mark at the end of the last chunk has been escaped, and chunks have come after
it. -/
def Rewritten (out out' : List Chars) : Prop :=
  ∃ t rest chunks, out = (t ++ ['!']) :: rest ∧ out' = chunks ++ (t ++ ['\\', '!']) :: rest

/-- The output has become longer. Where a link guards itself, it may have been rewritten before. -/
def Grown (style : Style) (guards : Prop) (out out' : List Chars) : Prop :=
  out <:+ out' ∨ guards ∧ style.escape ∧ Rewritten out out'

/-- What a visit leaves of the state. -/
structure Keeps (style : Style) (n : Node) (l l' : Layout) : Prop where
  indent : l'.indent = l.indent
  tight : l'.tight = l.tight
  markers : l'.markers = l.markers
  out : Grown style (BeginsWithLink n) l.out l'.out

variable {style : Style} {l l' : Layout} {guards : Prop} {out out' out'' : List Chars}

theorem Grown.of_suffix (h : Grown style guards out out') (more : out' <:+ out'') :
    Grown style guards out out'' := by
  obtain h | ⟨hguards, hescape, t, rest, chunks, hout, rfl⟩ := h
  · exact .inl (h.trans more)
  · obtain ⟨others, rfl⟩ := more
    exact .inr ⟨hguards, hescape, t, rest, others ++ chunks, hout, (List.append_assoc ..).symm⟩

theorem Grown.imp {others : Prop} (h : Grown style guards out out') (himp : guards → others) :
    Grown style others out out' := h.imp_right (And.imp_left himp)

/-- Where the last chunk does not end with an exclamation mark nothing is rewritten. -/
theorem Appends.suffix {chunks rest : List Chars} {chunk : Chars} (h : Appends l l' chunks)
    (hout : l.out = chunk :: rest) (quiet : '!' ∉ chunk) : l.out <:+ l'.out := by
  obtain ⟨base, hout', hbase⟩ := h.out
  rw [hout] at hbase
  obtain ⟨chunk', rfl, hchunk⟩ := hbase
  rw [hchunk.eq_of_not_mem quiet, ← hout] at hout'
  exact ⟨chunks, hout'.symm⟩

/-- Every visit appends, but for a guard. -/
theorem writesAt_any (n : Node) (l : Layout) : WritesAt l (node style n) fun _ => True :=
  writesAt_node (fun _ _ _ _ => trivial) n l

/-- After a separator nothing is rewritten that stands before it. -/
theorem suffix_of_separated {l₁ : Layout} {tight : Bool} {work : Writing Unit} {P : Chars → Prop}
    (hout : l₁.out = List.replicate l.indent ' ' :: (if tight then ['\n'] else ['\n', '\n']) ::
      l.out) (h : WritesAt l₁ work P) (hrun : work l₁ = .ok () l') : l.out <:+ l'.out := by
  obtain ⟨chunks, happends, -⟩ := h l' hrun
  have hsuffix := happends.suffix hout (by simp)
  rw [hout] at hsuffix
  exact ((List.suffix_cons _ _).trans (List.suffix_cons _ _)).trans hsuffix

theorem items_suffix {data : ListData} {tight : Bool} {number : Int} {ns : List Node}
    (h : items style data tight number false ns l = .ok () l') : l.out <:+ l'.out := by
  cases ns with
  | nil =>
    rw [items] at h
    cases h
    exact List.suffix_rfl
  | cons n ns =>
    have hitems : ∀ l₁, WritesAt l₁ (items style data tight number true (n :: ns)) fun _ => True :=
      fun l₁ =>
      (writesAt_items (fun m _ l => writesAt_any m l) data tight (.refl l₁) number true).mono
        fun _ _ => trivial
    have hrun : items style data tight number true (n :: ns) { l with
        out := List.replicate l.indent ' ' :: (if tight then ['\n'] else ['\n', '\n']) ::
          l.out } = .ok () l' := by
      rw [items] at h ⊢
      exact h
    exact suffix_of_separated rfl (hitems _) hrun

/-- After the first block every unit has a separator before it. -/
theorem writeUnits_suffix {us : List BlockUnit} (first : l.first = false)
    (h : writeUnits (inlines style) (node style) us l = .ok () l') : l.out <:+ l'.out := by
  cases us with
  | nil =>
    cases h
    exact List.suffix_rfl
  | cons u us =>
    have hunits : ∀ l₁, WritesAt l₁ (writeUnits (inlines style) (node style) us) fun _ => True :=
      fun l₁ =>
      (writesAt_writeUnits (fun _ _ m _ l => writesAt_any m l) l₁).mono fun _ _ => trivial
    have hwork : ∀ l₁, WritesAt l₁
        (unitBody style u >>= fun _ => writeUnits (inlines style) (node style) us) fun _ => True :=
      fun l₁ =>
      (writesAt_unitBody (fun m _ l => writesAt_any m l) (.refl l₁)).bind (fun l₂ _ => hunits l₂)
        fun _ _ _ _ _ _ => trivial
    rw [writeUnits, List.forM_cons, writeUnit_eq, bind_assoc, run_bind_of_ok (startBlock_eq l)] at h
    exact suffix_of_separated (by rw [first]; rfl) (hwork _) h

theorem leaf_suffix {x : Leaf} (h : leaf style x l = .ok () l') : l.out <:+ l'.out := by
  rw [leaf_eq] at h
  cases htext : leafText style l.indent x with
  | error f =>
    rw [htext] at h
    cases h
  | ok t =>
    rw [htext] at h
    cases h
    exact List.suffix_cons t l.out

/-- Inline content is written apart, and one chunk of it. -/
theorem inlines_suffix {children : List Node} {f : Chars → Chars}
    (h : (do emit (f (← inlines style children))) l = .ok () l') : l.out <:+ l'.out := by
  obtain ⟨t, l₁, hinlines, hemit⟩ := run_bind_eq_ok h
  obtain ⟨-, hout, -⟩ := yieldsAt_inlines (fun m _ l => writesAt_any m l) l t l₁ hinlines
  cases hemit
  rw [← hout]
  exact List.suffix_cons _ _

theorem guardLink_out (h : guardLink style l = .ok () l') : Grown style True l.out l'.out := by
  obtain hguard | ⟨before, rest, hescape, hout, hguard⟩ := guardLink_cases l
  · rw [hguard] at h
    cases h
    exact .inl List.suffix_rfl
  · rw [hguard] at h
    cases h
    exact .inr ⟨trivial, hescape, before, rest, [], hout, rfl⟩

/-- Only a unit that begins with a link comes to the output there is, and only as the first
block. -/
theorem blocks_out {children : List Node} (ih : ∀ u ∈ BlockUnit.ofChildren children, ∀ n ∈ u.nodes,
      ∀ l l', node style n l = .ok () l' → Grown style (BeginsWithLink n) l.out l'.out)
    (h : blocks style children l = .ok () l') : Grown style
    (∃ n us, BlockUnit.ofChildren children = .single n :: us ∧ BeginsWithLink n) l.out l'.out := by
  rw [blocks_eq] at h
  cases hfirst : l.first with
  | false => exact .inl (writeUnits_suffix hfirst h)
  | true =>
    cases hunits : BlockUnit.ofChildren children with
    | nil =>
      rw [hunits] at h
      cases h
      exact .inl List.suffix_rfl
    | cons u us =>
      rw [hunits, writeUnits, List.forM_cons] at h
      obtain ⟨_, l₁, hunit, hrest⟩ := run_bind_eq_ok h
      obtain ⟨hfirst₁, -⟩ := writeUnit_eq_ok (fun m _ l => writesAt_any m l) (.refl l) hunit
      rw [writeUnit_eq, run_bind_of_ok (startBlock_eq l), hfirst] at hunit
      refine Grown.of_suffix ?_ (writeUnits_suffix hfirst₁ hrest)
      cases u with
      | run content => exact .inl (by simpa using inlines_suffix (f := id) hunit)
      | single n =>
        exact (ih (.single n) (by simp [hunits]) n (by simp [BlockUnit.nodes]) _ l₁ hunit).imp
          fun hn => ⟨n, us, rfl, hn⟩

theorem items_out {data : ListData} {tight : Bool} {number : Int} {ns : List Node} (ih : ∀ n ∈ ns,
      ∀ l l', node style n l = .ok () l' → Grown style (BeginsWithLink n) l.out l'.out)
    (h : items style data tight number true ns l = .ok () l') :
    Grown style (∃ n ∈ ns.head?, BeginsWithLink n) l.out l'.out := by
  cases ns with
  | nil =>
    rw [items] at h
    cases h
    exact .inl List.suffix_rfl
  | cons n ns =>
    rw [items] at h
    obtain ⟨_, _, hget, h⟩ := run_bind_eq_ok h
    cases hget
    cases hmark : marker style data number with
    | error f =>
      rw [hmark] at h
      cases h
    | ok mark =>
      rw [hmark] at h
      obtain ⟨_, l₁, hpush, h⟩ := run_bind_eq_ok h
      cases hpush
      obtain ⟨_, l₂, hnode, h⟩ := run_bind_eq_ok h
      obtain ⟨_, l₃, hpop, hrest⟩ := run_bind_eq_ok h
      cases hpop
      have hsuffix := items_suffix hrest
      exact ((ih n (by simp) _ l₂ hnode).of_suffix hsuffix).imp fun hn => ⟨n, rfl, hn⟩

theorem branch_out {c : Container} {span : Option Span} {children : List Node} (ih : ∀ n ∈ children,
      ∀ l l', node style n l = .ok () l' → Grown style (BeginsWithLink n) l.out l'.out)
    (units : ∀ u ∈ BlockUnit.ofChildren children, ∀ n ∈ u.nodes, ∀ l l',
      node style n l = .ok () l' → Grown style (BeginsWithLink n) l.out l'.out)
    (h : node style (.branch c span children) l = .ok () l') :
    Grown style (BeginsWithLink (.branch c span children)) l.out l'.out := by
  cases c with
  | document xmlns | clause clauseid src clauseText =>
    rw [node] at h
    refine (blocks_out units h).imp ?_
    rintro ⟨n, us, hunits, hn⟩
    exact .blocks (by simp [Container.kind]) hunits hn
  | link dest title =>
    rw [node] at h
    obtain ⟨_, l₁, hguard, h⟩ := run_bind_eq_ok h
    exact ((guardLink_out hguard).of_suffix (inlines_suffix h)).imp fun _ => .link
  | list data =>
    rw [node] at h
    obtain ⟨start, hstart⟩ | ⟨f, hstart⟩ := startNumber_cases data
    · rw [hstart, pure_bind] at h
      refine (items_out ih h).imp ?_
      rintro ⟨n, hn, hbegins⟩
      cases children with
      | nil => cases hn
      | cons m ms =>
        cases hn
        exact .list hbegins
    · rw [hstart] at h
      cases h
  | paragraph | heading level | emph | strong | image dest title =>
    rw [node] at h
    exact .inl (inlines_suffix h)
  | templateVariable key value | computedVariable value =>
    rw [node] at h
    split at h
    · cases h
      exact .inl (List.suffix_cons _ _)
    · exact .inl (inlines_suffix (f := id) h)
  | blockQuote | item =>
    rw [node] at h
    obtain ⟨saved, _, hget, h⟩ := run_bind_eq_ok h
    cases hget
    obtain ⟨_, _, hset, h⟩ := run_bind_eq_ok h
    cases hset
    obtain ⟨_, l₁, hbody, h⟩ := run_bind_eq_ok h
    cases h
    exact .inl (List.suffix_cons _ _)

theorem node_out {n : Node} (h : node style n l = .ok () l') :
    Grown style (BeginsWithLink n) l.out l'.out := by
  induction n using inductionOnVisits generalizing l l' with
  | leaf x span =>
    rw [node] at h
    exact .inl (leaf_suffix h)
  | branch c span children ih units =>
    exact branch_out (fun n hn l l' => ih n hn) (fun u hu n hn l l' => units u hu n hn) h
  | foreign v =>
    rw [node] at h
    cases h

theorem keeps_of_visit {n : Node} (h : node style (merged n) l = .ok () l') :
    Keeps style n l l' := by
  obtain ⟨chunks, ⟨hsettles, -⟩, -⟩ := writesAt_any (merged n) l l' h
  exact ⟨hsettles.indent, hsettles.tight, hsettles.markers, (node_out h).imp .of_merged⟩

/-- A list that holds a link without an item. -/
def looseLink : Node :=
  .branch (.list { listType := "bullet", tight := some "true" }) none
    [.branch (.link "u" "") none [.leaf (.text "a") none]]

theorem node_looseLink :
    node {} (merged looseLink) { out := [['x', '!']] } =
      .ok () { out := ["[a](u)".toList, ['x', '\\', '!']] } := by
  have hmerged : merged looseLink = looseLink := by
    simp [looseLink, merged, Merge.apart, Merge.push, Merge.pushAll]
  have hlink : node {} (.branch (.link "u" "") none [.leaf (.text "a") none]) = (do
      guardLink {}
      let saved ← beginCapture
      emit ['a']
      let content ← endCapture saved
      emit ('[' :: content ++ "](u)".toList)) := by
    rw [node, inlines, each, each, node]
    rfl
  rw [hmerged, looseLink, node]
  simp only [items, hlink]
  rfl

/-- The visit of a list rewrites what stands before it. -/
theorem list_rewrites :
    looseLink.kind? = some .list ∧
      ∃ l', node {} (merged looseLink) { out := [['x', '!']] } = .ok () l' ∧
        ¬[['x', '!']] <:+ l'.out :=
  ⟨rfl, _, node_looseLink, by decide⟩

/-- One call of a writer in a state, and the state after it. A call that fails leaves the state as
the fault found it. -/
def call (style : Style) (l : Layout) (input : WriterInput) : Except Fault String × Layout :=
  match input.node with
  | .error f => (.error f, l)
  | .ok n =>
    match document style n l with
    | .ok text l' => (.ok text, l')
    | .error f l' => (.error (.write f), l')

/-- The answers of one writer to calls one after the other. -/
def calls (style : Style) (l : Layout) : List WriterInput → List (Except Fault String)
  | [] => []
  | input :: inputs => (call style l input).1 :: calls style (call style l input).2 inputs

/-- The answer of a new writer. -/
def answer (style : Style) (input : WriterInput) : Except Fault String := do
  (write style (← input.node)).mapError .write

/-- A document is written on an empty state. -/
theorem document_eq_of_kind? {n : Node} (h : n.kind? = some .document) (style : Style)
    (l : Layout) : document style n l = document style n {} := by
  obtain ⟨xmlns, span, children, rfl⟩ := Schema.eq_document_of_kind? h
  rfl

/-- No state has a part in the answer of a call. -/
theorem call_eq (style : Style) (l : Layout) (input : WriterInput) :
    (call style l input).1 = answer style input := by
  rw [answer, call]
  cases input.node with
  | error f => rfl
  | ok n =>
    have hanswer : (do (write style (← .ok n)).mapError .write : Except Fault String) =
      (write style n).mapError .write := rfl
    rw [hanswer, write]
    by_cases h : n.kind? = some .document
    · dsimp only
      rw [document_eq_of_kind? h]
      cases document style n {} <;> rfl
    · dsimp only
      rw [document_of_kind? h]
      rfl

theorem calls_eq (style : Style) (l : Layout) (inputs : List WriterInput) :
    calls style l inputs = inputs.map (answer style) := by
  induction inputs generalizing l with
  | nil => rfl
  | cons input inputs ih => rw [calls, call_eq, ih, List.map_cons]

/-- Whatever state a writer is in, a visit that succeeds leaves indentation, spacing and markers as
they are, and only a link before anything else rewrites what was written; so does a visit that folds
neighbours where it comes to them. And a writer answers every call as a new one does, also after
calls that have failed. -/
theorem disciplined (style : Style) :
    (∀ (n : Node) (l l' : Layout), node style (merged n) l = .ok () l' → Keeps style n l l') ∧
    (∀ visit, IsLeveled style visit →
      ∀ (n : Node) (l l' : Layout), visit n l = .ok () l' → Keeps style n l l') ∧
    ∀ (l : Layout) (inputs : List WriterInput),
      calls style l inputs = inputs.map (answer style) := by
  refine ⟨fun _ _ _ => keeps_of_visit, fun visit leveled n l l' h => ?_, calls_eq style⟩
  rw [leveled.eq_merged] at h
  exact keeps_of_visit h

/-- A document with a value in the item of a list that is none of its nodes. -/
def brokenDocument : Node :=
  .branch (.document "") none
    [.branch (.list { listType := "bullet" }) none [.branch .item none [.foreign .null]]]

/-- The state that a fault inside an item leaves. -/
theorem call_brokenDocument : (call {} {} (.tree brokenDocument)).2.indent = 2 := by
  have hmerged : merged brokenDocument = brokenDocument := by
    simp [brokenDocument, merged, Merge.apart, Merge.push, Merge.pushAll]
  have hitem : node {} (.branch .item none [.foreign .null]) = (do
      let saved ← get
      set (insideItem saved)
      startBlock
      throw (.foreignBlock (Json.typeName .null))) := by
    rw [node]
    simp only [blocks, block, node, isInline]
    rfl
  have hlist : ∃ f l, node {} (merged brokenDocument) {} = .error f l ∧ l.indent = 2 := by
    rw [hmerged, brokenDocument, node, blocks, block]
    simp only [isInline, isTransparent, Bool.false_eq_true, if_false]
    rw [node]
    simp only [items, hitem]
    exact ⟨_, _, rfl, rfl⟩
  obtain ⟨f, l, hnode, hindent⟩ := hlist
  have hdocument : document {} brokenDocument {} = .error f l := by
    rw [brokenDocument] at hnode ⊢
    have hset : (set ({} : Layout) : Writing PUnit) {} = .ok ⟨⟩ {} := rfl
    exact (run_bind_of_ok hset).trans (run_bind_of_error hnode)
  rw [call, WriterInput.node]
  dsimp only
  rw [hdocument]
  exact hindent

theorem disciplined_looseLink :
    node {} (merged looseLink) { out := [['x', '!']] } =
        .ok () { out := ["[a](u)".toList, ['x', '\\', '!']] } ∧
      Keeps {} looseLink { out := [['x', '!']] } { out := ["[a](u)".toList, ['x', '\\', '!']] } ∧
      (call {} {} (.tree brokenDocument)).2.indent = 2 ∧
      calls {} {} [.tree brokenDocument, .tree (.branch (.document "") none [looseLink])] =
        [answer {} (.tree brokenDocument),
          answer {} (.tree (.branch (.document "") none [looseLink]))] := by
  obtain ⟨hvisit, -, hcalls⟩ := disciplined {}
  exact ⟨node_looseLink, hvisit _ _ _ node_looseLink, call_brokenDocument, hcalls _ _⟩

end Writer
end Canonmark.Markdown
