import Canonmark.Proofs.Builder.InPlace

/-! A builder that works in place and goes on after what it has refused. It follows the one on
frames, action by action, with each new node attached to the open one below it at once. -/
namespace Canonmark.Builder
namespace Work

/-- The nodes in progress in their places, and what has been done so far. -/
structure Session where
  state : State := {}
  record : List Entry := []

/-- The work that an action is. -/
def action (rules : Option TextRules) : Action → Work Unit
  | .openTag name attributes => openTag name attributes
  | .text content => text rules content
  | .closeTag name => closeTag name
  | .reset => reset

namespace Session

/-- Goes on with an action, also after one that has failed. -/
def perform (rules : Option TextRules) (s : Session) (a : Action) : Session :=
  match action rules a s.state with
  | .ok _ state => { state, record := s.record ++ [(a, none)] }
  | .error f state => { state, record := s.record ++ [(a, some f)] }

def run (rules : Option TextRules) (actions : List Action) : Session :=
  actions.foldl (perform rules) {}

def IsIdle (rules : Option TextRules) (actions : List Action) : Prop :=
  (run rules actions).state.opened = []

theorem run_concat (rules : Option TextRules) (actions : List Action) (a : Action) :
    run rules (actions ++ [a]) = (run rules actions).perform rules a := by
  rw [run, run, List.foldl_append, List.foldl_cons, List.foldl_nil]

end Session

variable {rules : Option TextRules}

/-- What has been done in place and on frames: the same, with nodes that are told from the
frames. -/
structure IsTold (s : Session) (t : Builder.Session) : Prop where
  lays : s.state.Lays t.stack
  record : s.record = t.record

theorem IsTold.perform {s : Session} {t : Builder.Session} (told : IsTold s t) (a : Action) :
    IsTold (s.perform rules a) (t.perform rules a) := by
  obtain ⟨lays, record⟩ := told
  have hevent : ∀ e, a.event? = some e → action rules a = event rules e →
      IsTold (s.perform rules a) (t.perform rules a) := by
    intro e he ha
    have hstep := event_follows lays rules e
    unfold Session.perform Builder.Session.perform
    rw [ha, he]
    dsimp only
    rw [feed_singleton]
    cases hpure : step rules t.stack e with
    | error f =>
      rw [hpure] at hstep
      rw [show event rules e s.state = .error f s.state from hstep]
      exact ⟨lays, by rw [record]⟩
    | ok stack =>
      rw [hpure] at hstep
      obtain ⟨s', hrun, hlays, -⟩ := hstep
      rw [hrun]
      exact ⟨hlays, by rw [record]⟩
  cases a with
  | openTag name attributes => exact hevent _ rfl rfl
  | text content => exact hevent _ rfl rfl
  | closeTag name => exact hevent _ rfl rfl
  | reset => exact ⟨lays_nil rfl, congrArg (· ++ [(Action.reset, none)]) record⟩

/-- Whatever is done in place follows what is done on frames. -/
theorem isTold_run (rules : Option TextRules) (actions : List Action) :
    IsTold (Session.run rules actions) (Builder.Session.run rules actions) := by
  induction actions using List.reverseRecOn with
  | nil => exact ⟨lays_nil rfl, rfl⟩
  | append_singleton actions a ih =>
    rw [Session.run_concat, Builder.Session.run_concat]
    exact ih.perform a

theorem isIdle_iff (actions : List Action) :
    Session.IsIdle rules actions ↔ (Builder.Session.run rules actions).stack = [] := by
  have hlength := (isTold_run rules actions).lays.length_eq
  rw [Session.IsIdle, ← List.length_eq_zero_iff, hlength, List.length_eq_zero_iff]

end Work

/-- The tree in progress is the one that the frame at the bottom holds. -/
theorem State.tree?_eq {s : State} {stack : Stack} (lays : s.Lays stack) :
    s.tree? = Builder.tree? stack := by
  have hread := congrArg List.getLast? (Heap.Lays.map_read? lays)
  rw [List.getLast?_map, List.getLast?_map] at hread
  have hjoin := congrArg (Option.bind · id) hread
  rw [Option.bind_map, Option.bind_map, Function.id_comp, Function.id_comp] at hjoin
  exact hjoin.trans (Option.bind_fun_some _)

/-- What holds of a builder after any actions. -/
structure IsCoherent (rules : Option TextRules) (actions : List Action) : Prop where
  /-- The builder on frames has done the same, and holds the same tree. -/
  frames : (Work.Session.run rules actions).record = (Session.run rules actions).record ∧
    (Work.Session.run rules actions).state.opened.length =
    (Session.run rules actions).stack.length ∧
    (Work.Session.run rules actions).state.tree? = tree? (Session.run rules actions).stack
  /-- Nodes are open that were opened and have not been closed since. -/
  depth : (Work.Session.run rules actions).state.opened.length +
      (sinceReset (Work.Session.run rules actions).record).countP isClosing =
    (sinceReset (Work.Session.run rules actions).record).countP (·.1.isOpening)
  /-- Every open node lies as the last child in the one below it. -/
  spine : (Work.Session.run rules actions).state.opened.IsChain fun above below =>
    (Work.Session.run rules actions).state.heap.lastChild? below = some above
  /-- The nodes of the tree have lists of children only where there are children. -/
  lazy : ∀ t ∈ (Work.Session.run rules actions).state.tree?, ∀ ms ∈ nodesOf t, IsLazy ms
  /-- The nodes of the tree are those opened since the one at the bottom was, in order. -/
  opened : (Work.Session.run rules actions).state.opened ≠ [] → ∃ t before since,
    (Work.Session.run rules actions).state.tree? = some t ∧ actions = before ++ since ∧
      IsSinceBottom (Work.Session.IsIdle rules) before since ∧
      (nodesOf t).map label = since.filterMap Action.label?

/-- Whatever is done with a builder, in whatever order, it stays coherent. -/
theorem isCoherent_run (rules : Option TextRules) {actions : List Action}
    (fit : ∀ a ∈ actions, a.IsFit) : IsCoherent rules actions := by
  obtain ⟨lays, record⟩ := Work.isTold_run rules actions
  have growing : IsGrowing (Session.run rules actions).stack := isGrowing_run fit
  have htree := State.tree?_eq lays
  refine ⟨⟨record, lays.length_eq, htree⟩, ?_, Heap.Lays.isChain lays, ?_, fun here => ?_⟩
  · rw [record, lays.length_eq]
    exact depth_run actions
  · intro t ht
    rw [htree] at ht
    have here : (Session.run rules actions).stack ≠ [] := by
      intro hnil
      simp [hnil, tree?, held] at ht
    obtain ⟨u, hu, _, hlazy⟩ := growing.exists_tree here
    rw [hu] at ht
    exact Option.some.inj ht ▸ hlazy
  · have here : (Session.run rules actions).stack ≠ [] := fun hnil =>
      here ((Work.isIdle_iff actions).mpr hnil)
    obtain ⟨before, since, hsplit, ⟨fresh, busy⟩, hlabels⟩ := stackLabels_run fit here
    obtain ⟨t, ht, hnodes, _⟩ := growing.exists_tree here
    have since' : IsSinceBottom (Work.Session.IsIdle rules) before since :=
      ⟨(Work.isIdle_iff before).mpr fresh,
        fun p hp hprefix hidle => busy p hp hprefix ((Work.isIdle_iff _).mp hidle)⟩
    exact ⟨t, before, since, htree.trans ht, hsplit, since', hnodes.trans hlabels⟩

/-- A root that is closed, stray ends of other nodes, and a document in a code that brings a
text. -/
def strayActions : List Action := [
  .openTag "item" [], .reset, .openTag "paragraph" [], .closeTag "item", .closeTag "paragraph",
  .closeTag "paragraph", .openTag "code" [("text", .str "a"), ("id", .str "b")], .text "c",
  .openTag "document" [], .closeTag "document", .text "d", .openTag "emph" [], .closeTag "emph",
  .closeTag "code"]

theorem isCoherent_strayActions :
    (∀ a ∈ strayActions, a.IsFit) ∧ IsCoherent (some {}) strayActions := by
  have fit : ∀ a ∈ strayActions, a.IsFit := by decide
  exact ⟨fit, isCoherent_run (some {}) fit⟩

end Canonmark.Builder
