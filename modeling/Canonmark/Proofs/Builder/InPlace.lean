import Canonmark.Proofs.Builder.Heap

/-! A builder that changes its nodes in place, one change after the other. What it has changed
before a fault stays changed, so that a step that fails leaves the nodes alone only because it finds
its faults before its first change. -/
namespace Canonmark.Builder

/-- The nodes, the places of those in progress with the innermost first, and how many were
opened. -/
structure State where
  heap : Heap := []
  opened : List Nat := []
  count : Nat := 0

namespace State

/-- The place of the innermost node in progress, and what lies there. -/
def head? (s : State) : Option (Nat × Cell) := do
  let n ← s.opened.head?
  let c ← s.heap[n]?
  return (n, c)

/-- The tree of the node in progress that was opened first. -/
def tree? (s : State) : Option Json := s.opened.getLast?.bind s.heap.read?

/-- Whether the nodes in progress are told from a stack of frames. -/
def Lays (s : State) (stack : Stack) : Prop := s.heap.Lays s.opened [] s.opened stack

end State

/-- Work on a state. A fault does not undo what was done before it. -/
abbrev Work := EStateM Fault State

namespace Work

variable {rules : Option TextRules}

def change (n : Nat) (f : Cell → Cell) : Work Unit :=
  modify fun s => { s with heap := s.heap.modify n f }

def setMember (n : Nat) (name : String) (v : Json) : Work Unit :=
  change n fun c => { c with members := c.members.set name v }

/-- Puts a node at a new place. -/
def allocate (c : Cell) : Work Nat :=
  modifyGet fun s => (s.heap.length, { s with heap := s.heap ++ [c] })

/-- Attaches a node to another one, after room for children has been made there. -/
def attach (parent n : Nat) : Work Unit := do
  change parent Cell.openChildren
  change parent (Cell.addChild · n)

def push (n : Nat) : Work Unit := modify fun s => { s with opened := n :: s.opened }

def countNode : Work Unit := modify fun s => { s with count := s.count + 1 }

def popNode : Work Unit := modify fun s => { s with opened := s.opened.tail }

/-- Drops the nodes in progress. They stay where they lie. -/
def reset : Work Unit := modify fun s => { s with opened := [], count := 0 }

def head? : Work (Option (Nat × Cell)) := return (← get).head?

/-- Whether nodes of a class store text. A list or an object cannot be looked up among the
classes. -/
def storesText : Json → Work Bool
  | .arr _ | .obj _ => throw .compositeClass
  | .str tag => return ClassTag.storesText tag
  | _ => return false

/-- A text after the one that a node has. -/
def joined : Option Json → String → Work String
  | none, content => return content
  | some (.str s), content => return s ++ content
  | some _, _ => throw .textNotText

/-- The new node is attached to the innermost one before it is put on the stack and counted. -/
def openTag (name : String) (attributes : Members) : Work Unit := do
  let members := attributes.foldl (fun ms (n, v) => Members.set ms n v)
    [(Schema.classKey, .str (ClassTag.ofElement name))]
  let n ← allocate { members }
  if let some (parent, _) ← head? then attach parent n
  push n
  countNode

/-- Looks into the tag of the innermost node, as the node is now. -/
def tellTag (cls : Json) : Work Unit := do
  match cls, ← head? with
  | .str tag, some (n, c) =>
    match (fragment? tag c.members).bind Html.inspect with
    | some info => setMember n "tag" (Schema.tagToJson info)
    | none => return
  | _, _ => return

/-- The text of the node is extended first, and its tag is attached after that. -/
def text (rules : Option TextRules) (content : String) : Work Unit := do
  let some rules := rules | throw .noTextRules
  let content := if rules.trim then Text.trimString content else content
  let some (n, c) ← head? | return
  if content == "" then return
  if ← storesText c.classValue then
    let text ← joined (c.members.get? "text") content
    setMember n "text" (.str text)
  if rules.tagInfo then tellTag c.classValue

/-- As in `Builder.value`, content that is no text is refused where it would be stored. -/
def value (rules : Option TextRules) (content : Json) : Work Unit := do
  let some rules := rules | throw .noTextRules
  if rules.trim then throw .contentNotText
  let some (_, c) ← head? | return
  if !content.truthy then return
  if ← storesText c.classValue then throw .textNotText

def closeTag (name : String) : Work Unit := do
  let some (_, c) ← head? | throw (.nothingOpen name)
  let .str tag := c.classValue | throw .classNotText
  if tag != ClassTag.ofElement name then throw (.mismatch name (ClassTag.shortName tag))
  if name != documentName then popNode

def event (rules : Option TextRules) : Event → Work Unit
  | .openTag name attributes => openTag name attributes
  | .text content => text rules content
  | .value content => value rules content
  | .closeTag name => closeTag name
  | .unknown value => throw (.unknownEvent value)

/-- Takes events from a source up to the first that fails; what is left in the source, and the
outcome. -/
def feed (rules : Option TextRules) :
    List Event → State → List Event × EStateM.Result Fault State Unit
  | [], s => ([], .ok () s)
  | e :: es, s =>
    match event rules e s with
    | .ok _ s => feed rules es s
    | .error f s => (es, .error f s)

/-- The finished tree: the one node in progress that is left. -/
def result : Work Json := do
  let s ← get
  match s.opened with
  | [] => throw .noDocument
  | [root] => return (s.heap.read? root).getD .null
  | _ :: rest => throw (.unclosed rest.length)

section Careful

variable {α β : Type} {x : Work α} {next : α → Work β}

/-- Work that changes nothing. -/
def Reads (x : Work α) : Prop := ∀ s, (∃ a, x s = .ok a s) ∨ ∃ f, x s = .error f s

/-- Work that cannot fail. -/
def Sure (x : Work α) : Prop := ∀ s, ∃ a s', x s = .ok a s'

/-- Work that has changed nothing if it fails. -/
def Careful (x : Work α) : Prop := ∀ s f s', x s = .error f s' → s' = s

theorem reads_pure (a : α) : Reads (pure a : Work α) := fun _ => .inl ⟨a, rfl⟩

theorem reads_throw (f : Fault) : Reads (throw f : Work α) := fun _ => .inr ⟨f, rfl⟩

theorem reads_head? : Reads head? := fun s => .inl ⟨s.head?, rfl⟩

theorem sure_pure (a : α) : Sure (pure a : Work α) := fun s => ⟨a, s, rfl⟩

theorem Reads.careful (reads : Reads x) : Careful x := by
  intro s f s' h
  obtain ⟨a, ha⟩ | ⟨g, hg⟩ := reads s
  · rw [ha] at h
    cases h
  · rw [hg] at h
    cases h
    rfl

theorem Sure.careful (sure : Sure x) : Careful x := by
  intro s f s' h
  obtain ⟨a, t, ha⟩ := sure s
  rw [ha] at h
  cases h

theorem Sure.bind (sure : Sure x) (hnext : ∀ a, Sure (next a)) : Sure (x >>= next) := by
  intro s
  obtain ⟨a, t, ha⟩ := sure s
  rw [run_bind_of_ok ha]
  exact hnext a t

/-- What has been read leaves the state for what comes next. -/
theorem Reads.bind (reads : Reads x) (hnext : ∀ a, Careful (next a)) : Careful (x >>= next) := by
  intro s f s' h
  obtain ⟨a, ha⟩ | ⟨g, hg⟩ := reads s
  · rw [run_bind_of_ok ha] at h
    exact hnext a s f s' h
  · rw [run_bind_of_error hg] at h
    cases h
    rfl

theorem sure_setMember (n : Nat) (name : String) (v : Json) : Sure (setMember n name v) :=
  fun _ => ⟨(), _, rfl⟩

theorem sure_head? : Sure head? := fun _ => ⟨_, _, rfl⟩

theorem sure_openTag (name : String) (attributes : Members) : Sure (openTag name attributes) := by
  unfold openTag
  refine Sure.bind (fun _ => ⟨_, _, rfl⟩) fun n => sure_head?.bind fun parent? => ?_
  have hlast : Sure (do push n; countNode) := fun _ => ⟨(), _, rfl⟩
  dsimp only
  split
  · exact Sure.bind (fun _ => ⟨(), _, rfl⟩) fun _ => hlast
  · exact hlast

theorem sure_tellTag (cls : Json) : Sure (tellTag cls) := by
  unfold tellTag
  refine sure_head?.bind fun head? => ?_
  split
  · split
    · exact sure_setMember _ _ _
    · exact sure_pure _
  · exact sure_pure _

theorem reads_storesText (cls : Json) : Reads (storesText cls) := by
  cases cls with
  | arr | obj => exact reads_throw _
  | _ => exact reads_pure _

theorem reads_joined (old : Option Json) (content : String) : Reads (joined old content) := by
  unfold joined
  split
  · exact reads_pure _
  · exact reads_pure _
  · exact reads_throw _

/-- The text is looked up and joined before it is changed, and nothing can fail after the change. -/
theorem careful_text (rules : Option TextRules) (content : String) :
    Careful (text rules content) := by
  cases rules with
  | none => exact (reads_throw _).careful
  | some rules =>
    unfold text
    dsimp only
    generalize (if rules.trim then Text.trimString content else content) = content
    refine reads_head?.bind fun head? => ?_
    cases head? with
    | none => exact (reads_pure _).careful
    | some head =>
      obtain ⟨n, c⟩ := head
      have hrest : Sure (if rules.tagInfo then tellTag c.classValue else pure ()) := by
        split
        · exact sure_tellTag _
        · exact sure_pure _
      dsimp only
      split
      · exact (reads_pure _).careful
      · refine (reads_storesText _).bind fun stores => ?_
        split
        · exact (reads_joined _ _).bind fun s =>
            (Sure.bind (sure_setMember _ _ _) fun _ => hrest).careful
        · exact hrest.careful

theorem careful_value (rules : Option TextRules) (content : Json) :
    Careful (value rules content) := by
  cases rules with
  | none => exact (reads_throw _).careful
  | some rules =>
    unfold value
    dsimp only
    split
    · exact (reads_throw _).careful
    · refine reads_head?.bind fun head? => ?_
      cases head? with
      | none => exact (reads_pure _).careful
      | some head =>
        dsimp only
        split
        · exact (reads_pure _).careful
        · refine (reads_storesText _).bind fun stores => ?_
          split
          · exact (reads_throw _).careful
          · exact (reads_pure _).careful

theorem careful_closeTag (name : String) : Careful (closeTag name) := by
  unfold closeTag
  refine reads_head?.bind fun head? => ?_
  cases head? with
  | none => exact (reads_throw _).careful
  | some head =>
    dsimp only
    split
    · split
      · exact (reads_throw _).careful
      · split
        · exact Sure.careful fun _ => ⟨(), _, rfl⟩
        · exact (reads_pure _).careful
    · exact (reads_throw _).careful

/-- A step finds its faults before its first change. -/
theorem careful_event (rules : Option TextRules) (e : Event) : Careful (event rules e) := by
  cases e with
  | openTag name attributes => exact (sure_openTag name attributes).careful
  | text content => exact careful_text rules content
  | value content => exact careful_value rules content
  | closeTag name => exact careful_closeTag name
  | unknown v => exact (reads_throw _).careful

end Careful
variable {s s' : State} {stack : Stack}

/-- How many nodes an event opens. -/
def opens : Event → Nat
  | .openTag .. => 1
  | _ => 0

/-- A step in place that follows one on a stack: it ends in the same fault and changes nothing, or
it goes on to a state that is told from the stack that the other comes to. -/
def Follows (step : Work Unit) (s : State) (opened : Nat) (r : Except Fault Stack) : Prop :=
  match r with
  | .ok stack => ∃ s', step s = .ok () s' ∧ s'.Lays stack ∧ s'.count = s.count + opened
  | .error f => step s = .error f s

theorem Follows.congr {step step' : Work Unit} {k : Nat} {r : Except Fault Stack}
    (same : step s = step' s) (follows : Follows step' s k r) : Follows step s k r := by
  unfold Follows at follows ⊢
  rw [same]
  exact follows

/-- What reads comes first. -/
theorem Follows.of_run {α : Type} {x : Work α} {next : α → Work Unit} {a : α} {k : Nat}
    {r : Except Fault Stack} (run : x s = .ok a s) (follows : Follows (next a) s k r) :
    Follows (x >>= next) s k r :=
  follows.congr (run_bind_of_ok run)

theorem lays_nil {s : State} (idle : s.opened = []) : s.Lays [] := by
  rw [State.Lays, idle]
  exact .nil

theorem opened_eq_nil (lays : s.Lays []) : s.opened = [] :=
  List.eq_nil_of_length_eq_zero lays.length_eq

theorem head?_run (s : State) : head? s = .ok s.head? s := rfl

theorem head?_of_idle (lays : s.Lays []) : s.head? = none := by
  rw [State.head?, opened_eq_nil lays]
  rfl

/-- The innermost node has the members of the innermost frame. -/
theorem exists_head {f : Frame} (lays : s.Lays (f :: stack)) :
    ∃ n places c, s.opened = n :: places ∧ s.head? = some (n, c) ∧ c.members = f.members ∧
      c.classValue = f.classValue := by
  obtain ⟨h, opened, count⟩ := s
  cases opened with
  | nil => cases lays
  | cons n places =>
    cases lays with
    | @cons _ _ _ _ _ closed here =>
      refine ⟨n, places, ⟨f.members, f.children.map fun _ => closed ++ []⟩, rfl, ?_, rfl, rfl⟩
      change (h[n]?.bind fun c => some (n, c)) = _
      rw [here]
      rfl

theorem openTag_follows (lays : s.Lays stack) (name : String) (attributes : Members) :
    Follows (openTag name attributes) s 1 (.ok (Builder.openTag stack name attributes)) := by
  obtain ⟨h, opened, count⟩ := s
  have hpush := Heap.Lays.push lays (attributes.foldl (fun ms (n, v) => Members.set ms n v)
    [(Schema.classKey, .str (ClassTag.ofElement name))])
  cases opened with
  | nil =>
    obtain rfl : stack = [] := List.eq_nil_of_length_eq_zero lays.length_eq.symm
    exact ⟨_, rfl, hpush, rfl⟩
  | cons n places =>
    obtain ⟨f, rest, rfl⟩ := List.exists_cons_of_length_eq_add_one lays.length_eq.symm
    have hn : n < h.length := lays.lt_length n (by simp)
    unfold Follows openTag
    rw [run_bind_of_ok (show allocate _ _ = .ok h.length _ from rfl),
      run_bind_of_ok (head?_run _)]
    simp only [State.head?, List.head?_cons, Option.bind_eq_bind, Option.bind_some,
      List.getElem?_append_left hn, List.getElem?_eq_getElem hn]
    refine ⟨_, rfl, ?_, rfl⟩
    dsimp only [State.Lays]
    rw [List.modify_modify_eq]
    exact hpush

/-- A change of the members of the innermost node is one of its frame. -/
theorem setMember_follows {f : Frame} {n : Nat} {places : List Nat} (lays : s.Lays (f :: stack))
    (hopened : s.opened = n :: places) (name : String) (v : Json) :
    Follows (setMember n name v) s 0
      (.ok ({ f with members := f.members.set name v } :: stack)) := by
  obtain ⟨h, opened, count⟩ := s
  obtain rfl : opened = n :: places := hopened
  exact ⟨_, rfl, Heap.Lays.changeMembers lays fun ms => ms.set name v, rfl⟩

theorem tellTag_follows {f : Frame} (lays : s.Lays (f :: stack)) (tag : String) :
    Follows
      (tellTag (.str tag)) s 0 (.ok ({ f with members := addTag tag f.members } :: stack)) := by
  obtain ⟨n, places, c, hopened, hhead, hmembers, -⟩ := exists_head lays
  unfold Follows tellTag addTag
  rw [run_bind_of_ok (head?_run s), hhead]
  dsimp only
  rw [hmembers]
  cases (fragment? tag f.members).bind Html.inspect with
  | none => exact ⟨s, rfl, lays, rfl⟩
  | some info => exact setMember_follows lays hopened "tag" _

/-- What follows the change of the text. -/
theorem told_follows {f : Frame} (lays : s.Lays (f :: stack)) (rules : TextRules) (tag : String) :
    Follows (if rules.tagInfo then tellTag (.str tag) else pure ()) s 0
      (.ok ({ f with members := if rules.tagInfo then addTag tag f.members else f.members } ::
        stack)) := by
  split
  · exact tellTag_follows lays tag
  · exact ⟨s, rfl, lays, rfl⟩

theorem tellTag_of_classless {f : Frame} (lays : s.Lays (f :: stack)) {cls : Json}
    (other : ∀ tag, cls ≠ .str tag) : Follows (tellTag cls) s 0 (.ok (f :: stack)) := by
  unfold tellTag
  refine Follows.of_run (head?_run s) ?_
  split
  · exact absurd rfl (other _)
  · exact ⟨s, rfl, lays, rfl⟩

/-- A text is joined and put in its place, and the tag is told after that. -/
theorem stored_follows {f : Frame} {n : Nat} {places : List Nat} (lays : s.Lays (f :: stack))
    (hopened : s.opened = n :: places) (rules : TextRules) (tag content : String) :
    Follows (do
      let text ← joined (f.members.get? "text") content
      setMember n "text" (.str text)
      if rules.tagInfo then tellTag (.str tag)) s 0 (do
        let ms ← addText f.members content
        .ok ({ f with members := if rules.tagInfo then addTag tag ms else ms } :: stack)) := by
  have hset : ∀ content, Follows (do
      setMember n "text" (.str content)
      if rules.tagInfo then tellTag (.str tag)) s 0
        (.ok ({ f with members :=
          if rules.tagInfo then addTag tag (f.members.set "text" (.str content))
          else f.members.set "text" (.str content) } :: stack)) := by
    intro content
    obtain ⟨s₁, hrun, hlays, hcount⟩ := setMember_follows lays hopened "text" (.str content)
    obtain ⟨s₂, hrun', hlays', hcount'⟩ := told_follows hlays rules tag
    refine ⟨s₂, ?_, hlays', hcount'.trans hcount⟩
    rw [run_bind_of_ok hrun]
    exact hrun'
  unfold addText
  cases f.members.get? "text" with
  | none => exact hset content
  | some old =>
    cases old with
    | str old => exact hset (old ++ content)
    | _ => rfl

theorem text_follows (lays : s.Lays stack) (rules : Option TextRules) (content : String) :
    Follows (text rules content) s 0 (Builder.text rules stack content) := by
  cases rules with
  | none => rfl
  | some rules =>
    unfold text Builder.text
    dsimp only
    generalize (if rules.trim then Text.trimString content else content) = content
    refine Follows.of_run (head?_run s) ?_
    cases stack with
    | nil =>
      rw [head?_of_idle lays]
      exact ⟨s, rfl, lays, rfl⟩
    | cons f stack =>
      obtain ⟨n, places, c, hopened, hhead, hmembers, hclass⟩ := exists_head lays
      have hstop : Follows (pure ()) s 0 (.ok (f :: stack)) := ⟨s, rfl, lays, rfl⟩
      rw [hhead]
      dsimp only
      rw [hclass, hmembers]
      by_cases hempty : (content == "") = true
      · rw [if_pos hempty, if_pos hempty]
        exact hstop
      · rw [if_neg hempty, if_neg hempty]
        cases f.classValue with
        | str tag =>
          refine Follows.of_run (a := ClassTag.storesText tag) rfl ?_
          dsimp only
          by_cases hstores : ClassTag.storesText tag = true
          · rw [if_pos hstores, if_pos hstores]
            exact stored_follows lays hopened rules tag content
          · rw [if_neg hstores, if_neg hstores]
            exact told_follows lays rules tag
        | arr | obj => rfl
        | _ =>
          refine Follows.of_run (a := false) rfl ?_
          rw [if_neg Bool.false_ne_true]
          by_cases hinfo : rules.tagInfo = true
          · rw [if_pos hinfo]
            exact tellTag_of_classless lays (by simp)
          · rw [if_neg hinfo]
            exact hstop

theorem value_follows (lays : s.Lays stack) (rules : Option TextRules) (content : Json) :
    Follows (value rules content) s 0 (Builder.value rules stack content) := by
  cases rules with
  | none => rfl
  | some rules =>
    unfold value Builder.value
    dsimp only
    by_cases htrim : rules.trim = true
    · rw [if_pos htrim, if_pos htrim]
      rfl
    · rw [if_neg htrim, if_neg htrim]
      refine Follows.of_run (head?_run s) ?_
      cases stack with
      | nil =>
        rw [head?_of_idle lays]
        exact ⟨s, rfl, lays, rfl⟩
      | cons f stack =>
        obtain ⟨n, places, c, -, hhead, -, hclass⟩ := exists_head lays
        have hstop : Follows (pure ()) s 0 (.ok (f :: stack)) := ⟨s, rfl, lays, rfl⟩
        rw [hhead]
        dsimp only
        rw [hclass]
        by_cases hempty : (!content.truthy) = true
        · rw [if_pos hempty, if_pos hempty]
          exact hstop
        · rw [if_neg hempty, if_neg hempty]
          cases f.classValue with
          | str tag =>
            refine Follows.of_run (a := ClassTag.storesText tag) rfl ?_
            dsimp only
            cases ClassTag.storesText tag with
            | true => rfl
            | false => exact hstop
          | arr | obj => rfl
          | _ => exact Follows.of_run (a := false) rfl hstop

theorem popNode_follows {f : Frame} (lays : s.Lays (f :: stack)) :
    Follows popNode s 0 (.ok (pop (f :: stack))) := by
  obtain ⟨h, opened, count⟩ := s
  cases opened with
  | nil => cases lays
  | cons n places => exact ⟨_, rfl, Heap.Lays.pop lays, rfl⟩

theorem closeTag_follows (lays : s.Lays stack) (name : String) :
    Follows (closeTag name) s 0 (Builder.closeTag stack name) := by
  unfold closeTag Builder.closeTag
  refine Follows.of_run (head?_run s) ?_
  cases stack with
  | nil =>
    rw [head?_of_idle lays]
    rfl
  | cons f stack =>
    obtain ⟨n, places, c, -, hhead, -, hclass⟩ := exists_head lays
    rw [hhead]
    dsimp only
    rw [hclass]
    cases f.classValue with
    | str tag =>
      dsimp only
      by_cases hother : (tag != ClassTag.ofElement name) = true
      · rw [if_pos hother, if_pos hother]
        rfl
      · rw [if_neg hother, if_neg hother]
        by_cases hdocument : name = documentName
        · rw [if_neg (by simp [hdocument]), if_pos (by simp [hdocument])]
          exact ⟨s, rfl, lays, rfl⟩
        · rw [if_pos (by simp [hdocument]), if_neg (by simp [hdocument])]
          have hpop := popNode_follows lays
          cases stack with
          | nil => exact hpop
          | cons parent rest => exact hpop
    | _ => rfl

/-- A step in place follows the one on frames. -/
theorem event_follows (lays : s.Lays stack) (rules : Option TextRules) (e : Event) :
    Follows (event rules e) s (opens e) (step rules stack e) := by
  cases e with
  | openTag name attributes => exact openTag_follows lays name attributes
  | text content => exact text_follows lays rules content
  | value content => exact value_follows lays rules content
  | closeTag name => exact closeTag_follows lays name
  | unknown v => rfl

/-- What has been taken in leaves the state for what comes next. -/
theorem feed_append {xs : List Event} (taken : (feed rules xs s).2 = .ok () s') (es : List Event) :
    feed rules (xs ++ es) s = feed rules es s' := by
  induction xs generalizing s with
  | nil =>
    cases taken
    rfl
  | cons x xs ih =>
    rw [feed] at taken
    rw [List.cons_append, feed]
    cases hstep : event rules x s with
    | error f t =>
      rw [hstep] at taken
      cases taken
    | ok u t =>
      rw [hstep] at taken
      exact ih taken

/-- A stream ends in the same fault in place as on frames, and what is then in progress is told from
the stack that is left. -/
theorem feed_follows (rules : Option TextRules) (lays : s.Lays stack) (es : List Event) :
    ∃ s', s'.Lays (Builder.feed rules stack es).1 ∧
      (feed rules es s).2 = match (Builder.feed rules stack es).2 with
        | none => .ok () s'
        | some f => .error f s' := by
  induction es generalizing s stack with
  | nil => exact ⟨s, lays, rfl⟩
  | cons e es ih =>
    have hstep := event_follows lays rules e
    rw [feed, Builder.feed_cons]
    cases hpure : step rules stack e with
    | error f =>
      rw [hpure] at hstep
      rw [show event rules e s = .error f s from hstep]
      exact ⟨s, lays, rfl⟩
    | ok stack' =>
      rw [hpure] at hstep
      obtain ⟨t, hrun, hlays, -⟩ := hstep
      rw [hrun]
      exact ih hlays

/-- Reading the result changes nothing. -/
theorem reads_result : Reads result := by
  intro s
  obtain ⟨h, opened, count⟩ := s
  match opened with
  | [] | _ :: _ :: _ => exact .inr ⟨_, rfl⟩
  | [_] => exact .inl ⟨_, rfl⟩

theorem result_eq (lays : s.Lays stack) :
    result s = match Builder.result stack with
      | .ok tree => .ok tree s
      | .error f => .error f s := by
  obtain ⟨h, opened, count⟩ := s
  have hlength : opened.length = stack.length := lays.length_eq
  match opened, stack, hlength with
  | [], [], _ => rfl
  | [n], [f], _ =>
    have hread := (Heap.Lays.settled_head lays).read?
    change EStateM.Result.ok ((h.read? n).getD .null) _ = _
    rw [hread]
    rfl
  | n :: m :: places, f :: g :: stack, hlength =>
    have hunclosed : (m :: places).length = (g :: stack).length := by simpa using hlength
    change EStateM.Result.error (Fault.unclosed (m :: places).length) _ = _
    rw [hunclosed]
    rfl

/-- An event that fails, after others that have been taken in, ends the work with its own fault. It
changes nothing, the tree and the count included, and nothing after it is taken from the source. On
frames the same stream ends in the same fault, in the stack that it was in. Reading the result
changes nothing either, whether there is one or not. -/
theorem feed_of_error {s s' s'' : State} {xs : List Event} {e : Event} {f : Fault}
    (taken : (feed rules xs s).2 = .ok () s') (fails : event rules e s' = .error f s'')
    (ys : List Event) :
    feed rules (xs ++ [e] ++ ys) s = (ys, .error f s') ∧ s'' = s' ∧ s''.tree? = s'.tree? ∧
      (∀ stack, s.Lays stack →
        ∃ stack', s'.Lays stack' ∧ Builder.feed rules stack (xs ++ [e] ++ ys) = (stack', some f)) ∧
      ∀ t, ((∃ tree, result t = .ok tree t) ∨ ∃ g, result t = .error g t) ∧
        ∀ stack, t.Lays stack → result t = match Builder.result stack with
          | .ok tree => .ok tree t
          | .error g => .error g t := by
  obtain rfl : s'' = s' := careful_event rules e s' f s'' fails
  have hfeed : feed rules (xs ++ [e] ++ ys) s = (ys, .error f s'') := by
    rw [List.append_assoc, feed_append taken, List.singleton_append, feed, fails]
  refine ⟨hfeed, rfl, rfl, fun stack lays => ?_, fun t => ⟨reads_result t, fun _ => result_eq⟩⟩
  obtain ⟨t, hlays, hrun⟩ := feed_follows rules lays (xs ++ [e] ++ ys)
  rw [hfeed] at hrun
  rcases hpure : Builder.feed rules stack (xs ++ [e] ++ ys) with ⟨stack', fault?⟩
  rw [hpure] at hlays hrun
  cases fault? with
  | none => cases hrun
  | some g =>
    cases hrun
    exact ⟨stack', hlays, rfl⟩

/-- A paragraph with a number in the place of its children, and in it a code with a number as its
text. -/
def numberedCode : List Event := [
  .openTag "paragraph" [("nodes", .int 0)], .text "a", .openTag "code" [("text", .int 1)]]

theorem feed_numberedCode :
    ∃ s' s'' : State, (feed (some {}) numberedCode {}).2 = .ok () s' ∧ s'.count = 2 ∧
      event (some {}) (.text "b") s' = .error .textNotText s'' ∧
      feed (some {}) (numberedCode ++ [.text "b"] ++ [.closeTag "code"]) {} =
        ([.closeTag "code"], .error .textNotText s') ∧ s'' = s' := by
  have taken : ∃ s', (feed (some {}) numberedCode {}).2 = .ok () s' ∧ s'.count = 2 ∧
      event (some {}) (.text "b") s' = .error .textNotText s' := ⟨_, rfl, rfl, rfl⟩
  obtain ⟨s', htaken, hcount, hfails⟩ := taken
  obtain ⟨hfeed, hsame, -⟩ := feed_of_error htaken hfails [.closeTag "code"]
  exact ⟨s', s', htaken, hcount, hfails, hfeed, hsame⟩

end Work
end Canonmark.Builder
