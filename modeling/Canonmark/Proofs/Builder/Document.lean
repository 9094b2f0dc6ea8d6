import Canonmark.Convert
import Canonmark.Proofs.Builder.Element
import Mathlib.Tactic.ByContra
import Mathlib.Tactic.Push

/-! Which elements are documents to the builder, and what tree it makes of these: the one that is
read off an element directly. An element that holds a document and is none itself, or a document in
another, leaves a document on the stack under which nothing can be closed any more. -/
namespace Canonmark.Element

open Builder (Stack documentName)

mutual

/-- The tree of an element, read off directly: its class, its attributes as they are, its text if
its class stores any, and its children in order if there are any. -/
def tree : Element → Json
  | mk name attributes chunks children =>
    let tag := ClassTag.ofElement name
    let text := String.join chunks
    .obj ((Schema.classKey, .str tag) :: attributes ++
      (if ClassTag.storesText tag && text != "" then [("text", .str text)] else []) ++
      (if children.isEmpty then [] else [(Schema.childrenKey, .arr (trees children))]))

def trees : List Element → List Json
  | [] => []
  | e :: es => tree e :: trees es

end

mutual

/-- Where text is stored as it comes, the builder's node is the tree of the element. -/
theorem node_plain : ∀ {e : Element}, e.Valid → e.node {} = e.tree
  | mk name attributes chunks children, .mk _ _ _ free below => by
    have htext := Builder.foldl_giveText_plain
      (text_not_mem free (.str (ClassTag.ofElement name))) (ClassTag.ofElement name) chunks
    rw [node, tree, htext, nodes_plain below]
    cases children <;> rfl

theorem nodes_plain : ∀ {es : List Element}, (∀ e ∈ es, e.Valid) → nodes {} es = trees es
  | [], _ => rfl
  | e :: es, valid => by
    rw [nodes, trees, node_plain (valid e (by simp)),
      nodes_plain fun d hd => valid d (by simp [hd])]

end

/-- What is left of a stream in which a document was opened over `height` other nodes: a fault of
the nesting, or a document that is still open over them. -/
def Stalled (height : Nat) : Stack × Option Builder.Fault → Prop
  | (_, some f) => (Fault.builder f).report.family = .failure .parsing
  | ([], none) => False
  | (head :: rest, none) =>
    head.classValue = .str (ClassTag.ofElement documentName) ∧ height ≤ rest.length

variable {rules : TextRules}

theorem Stalled.of_le {m n : Nat} (hmn : m ≤ n) {r : Stack × Option Builder.Fault}
    (h : Stalled n r) : Stalled m r := by
  match r, h with
  | (_, some f), h => exact h
  | (head :: rest, none), h => exact ⟨h.1, Nat.le_trans hmn h.2⟩

/-- What follows does not undo a stall, if it keeps a document that is open over more nodes
stalled. -/
theorem Stalled.append {n : Nat} {stack : Stack} {es others : List Event}
    (h : Stalled n (Builder.feed (some rules) stack es))
    (next : ∀ (head : Frame) (rest : Stack),
      head.classValue = .str (ClassTag.ofElement documentName) → n ≤ rest.length →
        Stalled n (Builder.feed (some rules) (head :: rest) others)) :
    Stalled n (Builder.feed (some rules) stack (es ++ others)) := by
  rw [Builder.feed_append]
  match hr : Builder.feed (some rules) stack es, h with
  | (_, some f), h => exact h
  | (head :: rest, none), h => exact next head rest h.1 h.2

/-- Closing a node over an open document fails, unless the node is a document as well. -/
theorem stalled_closeTag {n : Nat} {name : String}
    (snake : ClassTag.SnakeCase name) (head : Frame) (rest : Stack)
    (hhead : head.classValue = .str (ClassTag.ofElement documentName)) (hn : n ≤ rest.length) :
    Stalled n (Builder.feed (some rules) (head :: rest) [.closeTag name]) := by
  rw [Builder.feed_cons, Builder.step]
  by_cases hname : name = documentName
  · rw [hname, closeTag_document hhead]
    exact ⟨hhead, hn⟩
  · rw [closeTag_over_document snake hname hhead]
    rfl

/-- A document among the children of an element outlasts the element. -/
theorem stalled_mk {name : String} {attributes : Members} {chunks : List String}
    {children : List Element} {stack : Stack} (valid : (mk name attributes chunks children).Valid)
    (h : Stalled (opened stack).length.succ
      (Builder.feed (some rules) (frame rules name attributes chunks [] :: opened stack)
        (eventsOf children))) :
    Stalled stack.length.succ
      (Builder.feed (some rules) stack (mk name attributes chunks children).events) := by
  obtain ⟨_, snake, once, free, _⟩ := valid
  rw [length_opened] at h
  rw [events_mk, feed_start once free]
  exact h.append (stalled_closeTag snake)

variable (rules)

mutual

/-- An element that is a document or holds one leaves a document over the nodes that were open. -/
theorem stalled_events : ∀ {e : Element}, e.Valid → ¬ e.DocumentFree → ∀ stack : Stack,
    Stalled stack.length (Builder.feed (some rules) stack e.events)
  | mk name attributes chunks children, .mk _ snake once free below, full, stack => by
    by_cases clear : ∀ e ∈ children, e.DocumentFree
    · have hname : name = documentName := by
        by_contra hne
        exact full (.mk hne clear)
      rw [feed_mk once free (feed_eventsOf rules below clear _ _)]
      refine stalled_closeTag snake _ _ ?_ (Nat.le_of_eq (length_opened stack).symm)
      rw [classValue_frame free, hname]
    · push Not at clear
      have hbelow :=
        stalled_eventsOf below clear (frame rules name attributes chunks []) (opened stack)
      exact (stalled_mk (.mk chunks snake once free below) hbelow).of_le (Nat.le_succ _)

theorem stalled_eventsOf : ∀ {es : List Element}, (∀ e ∈ es, e.Valid) →
    (∃ e ∈ es, ¬ e.DocumentFree) → ∀ (parent : Frame) (rest : Stack),
      Stalled rest.length.succ (Builder.feed (some rules) (parent :: rest) (eventsOf es))
  | [], _, full, _, _ => by simp at full
  | e :: es, valid, full, parent, rest => by
    have hvalid : ∀ d ∈ es, d.Valid := fun d hd => valid d (by simp [hd])
    rw [eventsOf]
    by_cases he : e.DocumentFree
    · have hes : ∃ d ∈ es, ¬ d.DocumentFree := by simpa [he] using full
      rw [Builder.feed_append_of_none (feed_events rules (valid e (by simp)) he parent rest)]
      exact stalled_eventsOf hvalid hes _ rest
    · have hstalled := stalled_events (valid e (by simp)) he (parent :: rest)
      refine hstalled.append fun head above hhead hn => ?_
      by_cases hes : ∀ d ∈ es, d.DocumentFree
      · rw [feed_eventsOf rules hvalid hes]
        exact ⟨by rw [Frame.classValue_addChildren, hhead], hn⟩
      · push Not at hes
        exact (stalled_eventsOf hvalid hes head above).of_le (Nat.le_succ_of_le hn)

end

/-- A document stays alone on the stack. -/
theorem feed_document : ∀ {e : Element}, e.Valid → e.IsDocument →
    ∃ root, Builder.feed (some rules) [] e.events = ([root], none) ∧ root.node = node rules e
  | mk name attributes chunks children, .mk _ _ once free below, ⟨hname, clear⟩ => by
    subst hname
    have hclass : (frame rules documentName attributes chunks (nodes rules children)).classValue =
        .str (ClassTag.ofElement documentName) := classValue_frame free chunks _
    refine ⟨frame rules documentName attributes chunks (nodes rules children), ?_,
      node_frame free chunks children⟩
    rw [feed_mk once free (feed_eventsOf rules below clear _ _), opened, Builder.feed_cons,
      Builder.step, closeTag_document hclass]
    rfl

/-- An element without documents leaves nothing on the stack. -/
theorem feed_documentFree : ∀ {e : Element}, e.Valid → e.DocumentFree →
    Builder.feed (some rules) [] e.events = ([], none)
  | mk name attributes chunks children, .mk _ _ once free below, .mk other clear => by
    have hclass : (frame rules name attributes chunks (nodes rules children)).classValue =
        .str (ClassTag.ofElement name) := classValue_frame free chunks _
    rw [feed_mk once free (feed_eventsOf rules below clear _ _), opened,
      Builder.feed_cons, Builder.step, closeTag_bottom hclass other]
    rfl

/-- Any other element stops the builder, or leaves more than one node open. -/
theorem stalled_root : ∀ {e : Element}, e.Valid → ¬ e.IsDocument → ¬ e.DocumentFree →
    Stalled 1 (Builder.feed (some rules) [] e.events)
  | mk name attributes chunks children, valid, other, full => by
    obtain ⟨_, snake, once, free, below⟩ := valid
    by_cases clear : ∀ e ∈ children, e.DocumentFree
    · by_cases hname : name = documentName
      · exact absurd ⟨hname, clear⟩ other
      · exact absurd (.mk hname clear) full
    · push Not at clear
      exact stalled_mk (.mk chunks snake once free below)
        (stalled_eventsOf rules below clear (frame rules name attributes chunks []) [])

/-- Where more than one node is left open, there is no tree. -/
theorem build_of_stalled {rules : Option TextRules} {es : List Event}
    (h : Stalled 1 (Builder.feed rules [] es)) :
    ∃ f, Builder.build rules es = .error f ∧
      (Fault.builder f).report.family = .failure .parsing := by
  unfold Builder.build
  match hr : Builder.feed rules [] es, h with
  | (_, some f), h => exact ⟨f, rfl, h⟩
  | ([head], none), h => exact absurd h.2 (by simp)
  | (head :: next :: rest, none), h => exact ⟨_, rfl, rfl⟩

/-- With text stored as it comes, the builder takes the stream of an element if the element is a
document and holds no other; its tree is then that of the element. Any other nesting is a fault. -/
theorem buildTree_events {e : Element} (valid : e.Valid) (options : Option Options)
    (plain : textRules options = some {}) :
    (e.IsDocument → buildTree e.events options = .ok e.tree) ∧
      (¬ e.IsDocument → ∃ f, buildTree e.events options = .error f ∧
        f.report.family = .failure .parsing) := by
  unfold buildTree
  rw [plain]
  constructor
  · intro document
    obtain ⟨root, hfeed, hroot⟩ := feed_document {} valid document
    rw [Builder.build, hfeed, ← node_plain valid, ← hroot]
    rfl
  · intro other
    by_cases clear : e.DocumentFree
    · rw [Builder.build, feed_documentFree {} valid clear]
      exact ⟨_, rfl, rfl⟩
    · obtain ⟨f, hf, hfamily⟩ := build_of_stalled (stalled_root {} valid other clear)
      rw [hf]
      exact ⟨.builder f, rfl, hfamily⟩

/-- A quote in a document, with a text that comes in two pieces. -/
def quotedGreeting : Element :=
  mk "document" [("xmlns", .str defaultNamespace)] [] [
    mk "block_quote" [] [" "] [mk "text" [] ["Hel", "lo"] [], mk "text" [] [] []]]

theorem valid_quotedGreeting : quotedGreeting.Valid := by
  have htext : ClassTag.SnakeCase "text" := ClassTag.snakeCase_of_splitOn (by decide)
  have hquote : ClassTag.SnakeCase "block_quote" := ClassTag.snakeCase_of_splitOn (by decide)
  refine .mk [] snakeCase_documentName (by decide) (by decide) ?_
  rintro _ (_ | ⟨_, ⟨⟩⟩)
  refine .mk [" "] hquote (by decide) (by decide) ?_
  rintro _ (_ | ⟨_, _ | ⟨_, ⟨⟩⟩⟩)
  · exact .mk _ htext (by decide) (by decide) (by simp)
  · exact .mk _ htext (by decide) (by decide) (by simp)

theorem isDocument_quotedGreeting : quotedGreeting.IsDocument := by
  refine ⟨rfl, ?_⟩
  rintro _ (_ | ⟨_, ⟨⟩⟩)
  refine .mk (by decide) ?_
  rintro _ (_ | ⟨_, _ | ⟨_, ⟨⟩⟩⟩)
  · exact .mk (by decide) (by simp)
  · exact .mk (by decide) (by simp)

theorem buildTree_quotedGreeting :
    quotedGreeting.Valid ∧ textRules none = some {} ∧
      buildTree quotedGreeting.events none = .ok (.obj [
        ("$class", .str "org.accordproject.commonmark.Document"),
        ("xmlns", .str "http://commonmark.org/xml/1.0"),
        ("nodes", .arr [.obj [
          ("$class", .str "org.accordproject.commonmark.BlockQuote"),
          ("nodes", .arr [
            .obj [("$class", .str "org.accordproject.commonmark.Text"), ("text", .str "Hello")],
            .obj [("$class", .str "org.accordproject.commonmark.Text")]])]])]) := by
  refine ⟨valid_quotedGreeting, rfl, ?_⟩
  rw [(buildTree_events valid_quotedGreeting none rfl).1 isDocument_quotedGreeting]
  rfl

end Canonmark.Element
