import Canonmark.Proofs.Xml.Markup
import Canonmark.Xml.Reader

/-! How content is walked: which constructs begin where, and what each does to the elements that are
open. -/
namespace Canonmark.Xml

namespace OpenElement

/-- An element after some text, which counts only before the first child. -/
def addText (e : OpenElement) (text : Chars) : OpenElement :=
  { e with text := if e.hasChild then e.text else e.text ++ text }

theorem addText_nil (e : OpenElement) : e.addText [] = e := by
  simp [addText]

theorem addText_append (e : OpenElement) (s t : Chars) :
    e.addText (s ++ t) = (e.addText s).addText t := by
  cases h : e.hasChild <;> simp [addText, h]

end OpenElement

namespace Walk

variable {d : Doctype} {w w' : Walk} {own rest : Chars}

theorem content_skip (d : Doctype) (own rest : Chars) (w : Walk) :
    content d own.length (own ++ rest) w = content d 0 rest w := by
  induction own with
  | nil => rfl
  | cons c own ih => rw [List.length_cons, List.cons_append, content, ih]

/-- What is left to do after a construct: nothing once no element is open. -/
def proceed (d : Doctype) (w : Walk) (rest : Chars) : Walk × Option Chars :=
  if w.elements.isEmpty then (w, some rest) else content d 0 rest w

theorem content_of_step (given : own ≠ []) (hstep : step d w (own ++ rest) = some (w', rest)) :
    content d 0 (own ++ rest) w = proceed d w' rest := by
  obtain ⟨c, cs, rfl⟩ := List.exists_cons_of_ne_nil given
  have hlength : (cs ++ rest).length - rest.length = cs.length := by
    rw [List.length_append, Nat.add_sub_cancel]
  rw [List.cons_append] at hstep ⊢
  rw [content, hstep]
  dsimp only
  rw [hlength, content_skip, proceed]

/-- Content goes on as long as an element is open. -/
theorem proceed_of_ne_nil (inside : w.elements ≠ []) : proceed d w rest = content d 0 rest w := by
  rw [proceed, if_neg (by simpa using inside)]

theorem addText_cons (e : OpenElement) (es : List OpenElement) (events : List Event)
    (text : Chars) : addText ⟨e :: es, events⟩ text = ⟨e.addText text :: es, events⟩ := by
  obtain ⟨name, before, hasChild, scope⟩ := e
  cases hasChild <;> rfl

theorem addText_append (w : Walk) (s t : Chars) : w.addText (s ++ t) = (w.addText s).addText t := by
  obtain ⟨elements, events⟩ := w
  cases elements with
  | nil => rfl
  | cons e es => rw [addText_cons, addText_cons, addText_cons, OpenElement.addText_append]

theorem elements_addText (inside : w.elements ≠ []) (text : Chars) :
    (w.addText text).elements ≠ [] := by
  obtain ⟨elements, events⟩ := w
  obtain ⟨e, es, rfl⟩ := List.exists_cons_of_ne_nil inside
  rw [addText_cons]
  exact List.cons_ne_nil _ _

/-- Characters that neither begin markup nor end a section of data. -/
def IsRun (s : Chars) : Prop := ∀ c ∈ s, c ≠ '<' ∧ c ≠ '&' ∧ c ≠ '>'

theorem dropStart?_eq_none {c : Char} {start s : Chars} (needed : c ∈ start) (absent : c ∉ s) :
    Text.dropStart? start s = none := by
  induction start generalizing s with
  | nil => cases needed
  | cons e start ih =>
    cases s with
    | nil => rfl
    | cons f s =>
      rw [List.mem_cons, not_or] at absent
      rw [Text.dropStart?]
      split_ifs with heq
      · have hne : c ≠ e := beq_iff_eq.mp heq ▸ absent.1
        exact ih (List.mem_of_ne_of_mem hne needed) absent.2
      · rfl

theorem splitAt?_eq_none {c : Char} {part s : Chars} (needed : c ∈ part) (absent : c ∉ s) :
    splitAt? part s = none := by
  induction s with
  | nil => rfl
  | cons e s ih =>
    rw [splitAt?, dropStart?_eq_none needed absent]
    dsimp only
    rw [ih fun h => absent (List.mem_cons_of_mem e h)]
    rfl

/-- A run of text is added as a whole. -/
theorem content_run {run : Chars} (plain : IsRun run) {c : Char} (stop : c = '<' ∨ c = '&')
    (inside : w.elements ≠ []) (rest : Chars) :
    content d 0 (run ++ c :: rest) w = content d 0 (c :: rest) (w.addText run) := by
  cases run with
  | nil =>
    obtain ⟨elements, events⟩ := w
    obtain ⟨e, es, rfl⟩ := List.exists_cons_of_ne_nil inside
    rw [addText_cons, OpenElement.addText_nil, List.nil_append]
  | cons x xs =>
    have hnone : splitAt? "]]>".toList (x :: xs) = none :=
      splitAt?_eq_none (by decide) fun h => (plain '>' h).2.2 rfl
    have htake : (x :: xs ++ c :: rest).takeWhile (fun c => c != '<' && c != '&') = x :: xs := by
      refine takeWhile_run (fun e he => ?_) ?_ rest
      · simp [(plain e he).1, (plain e he).2.1]
      · obtain rfl | rfl := stop <;> rfl
    obtain ⟨hopen, hreference, _⟩ := plain x (by simp)
    have hstep : step d w (x :: xs ++ c :: rest) = some (w.addText (x :: xs), c :: rest) := by
      rw [List.cons_append] at htake ⊢
      rw [step]
      · rw [htake, hnone]
        simp
      all_goals simp_all
    rw [content_of_step (List.cons_ne_nil x xs) hstep,
      proceed_of_ne_nil (elements_addText inside _)]

/-- Text that is spelled out is added as it is meant. -/
theorem content_of_spells {text body : Chars} (h : SpellsText none text body)
    (admitted : ∀ c ∈ text, isAdmitted c) (inside : w.elements ≠ []) (rest : Chars) :
    content d 0 (body ++ '<' :: rest) w = content d 0 ('<' :: rest) (w.addText text) := by
  -- What is bare is part of a run, of which the beginning may have been passed.
  suffices hrun : ∀ (run : Chars) (w : Walk), IsRun run → w.elements ≠ [] → content d 0
    (run ++ (body ++ '<' :: rest)) w = content d 0 ('<' :: rest) (w.addText (run ++ text)) from
    hrun [] w (by simp [IsRun]) inside
  clear inside
  induction h with
  | nil =>
    intro run w plain inside
    rw [List.nil_append, List.append_nil]
    exact content_run plain (.inl rfl) inside rest
  | @cons c cs own others first _ ih =>
    intro run w plain inside
    obtain ⟨hc, hcs⟩ := List.forall_mem_cons.mp admitted
    cases first with
    | bare bare =>
      have hplain : IsRun (run ++ [c]) := by
        rintro e he
        obtain he | he := List.mem_append.mp he
        · exact plain e he
        · rw [List.mem_singleton.mp he]
          exact ⟨bare.2.1, bare.1, bare.2.2.1⟩
      have hrest := ih hcs (run ++ [c]) w hplain inside
      simpa only [List.append_assoc, List.singleton_append, List.cons_append,
        List.nil_append] using hrest
    | @reference body reference =>
      have hread := reference?_of_isReference false reference hc (others ++ '<' :: rest)
      have hstep : step d (w.addText run) (('&' :: body) ++ (others ++ '<' :: rest)) =
          some ((w.addText run).addText [c], others ++ '<' :: rest) := by
        rw [List.cons_append, step, hread, Option.map_some]
      have hrest := ih hcs [] ((w.addText run).addText [c]) (by simp [IsRun])
        (elements_addText (elements_addText inside run) [c])
      rw [List.append_assoc, List.cons_append, content_run plain (.inr rfl) inside,
        ← List.cons_append, content_of_step (List.cons_ne_nil _ _) hstep,
        proceed_of_ne_nil (elements_addText (elements_addText inside run) [c])]
      rw [List.nil_append, List.nil_append, ← addText_append, ← addText_append] at hrest
      rw [← addText_append, hrest, List.append_assoc, List.singleton_append]

/-- Space is text as well. -/
theorem content_gap {gap : Chars} (space : IsGap gap) (inside : w.elements ≠ []) (rest : Chars) :
    content d 0 (gap ++ '<' :: rest) w = content d 0 ('<' :: rest) (w.addText gap) := by
  refine content_run (fun c hc => ?_) (.inl rfl) inside rest
  obtain rfl | rfl := space c hc <;> decide

/-- A name after the sign of a tag begins a start tag. -/
theorem step_of_isNameStart {c : Char} (start : isNameStart c) (s : Chars) :
    step d w ('<' :: c :: s) =
      (tag? d.isLenient (c :: s)).bind fun (t, rest) => (w.openTag d t).map fun w => (w, rest) := by
  have hne : c ≠ '!' ∧ c ≠ '?' ∧ c ≠ '/' := by
    refine ⟨?_, ?_, ?_⟩ <;> rintro rfl <;> exact absurd start (by decide)
  have hremark : afterRemark? (c :: s) = none := by
    rw [afterRemark?] <;> simp [hne]
  have hsection : "![CDATA[".toList = '!' :: "[CDATA[".toList := rfl
  have hdata : data? (c :: s) = none := by
    rw [data?, hsection, Text.dropStart?, if_neg (by simpa using Ne.symm hne.1), Option.bind_none]
  rw [step]
  · simp only [hremark, hdata]
    cases tag? d.isLenient (c :: s) with
    | none => rfl
    | some r =>
      obtain ⟨t, rest⟩ := r
      cases h : w.openTag d t <;> simp [h]
  · simp [hne]

theorem step_of_isStart {kind : Kind} {attributes : List (String × String)} {start : Chars}
    (h : IsStart kind attributes start) (plain : ArePlain attributes) {empty : Bool} {stop : Chars}
    (ends : EndsTag empty stop) :
    ∃ as : List (String × String), as.Perm attributes ∧ ∀ (w : Walk) (rest : Chars),
      step d w (start ++ (stop ++ rest)) =
        (w.openTag d ⟨⟨[], kind.elementName.toList⟩, as.map rawAttribute, empty⟩).map
          fun w => (w, rest) := by
  obtain ⟨perm, spelled, space⟩ := h
  refine ⟨_, perm, fun w rest => ?_⟩
  have hplain : ArePlain _ := fun a ha => plain a (perm.subset ha)
  have htag := tag?_of_areAttributes d.isLenient kind spelled hplain space ends rest
  obtain ⟨given, signs⟩ := isWord_elementName kind
  obtain ⟨c, cs, hname⟩ := List.exists_cons_of_ne_nil given
  have hc : isNameStart c := signs c (by simp [hname])
  rw [hname, List.cons_append] at htag
  simp only [hname, List.cons_append, List.append_assoc]
  rw [step_of_isNameStart hc, htag, Option.bind_some]

theorem step_of_isEnd {kind : Kind} {stop : Chars} (h : IsEnd kind stop) (w : Walk) (rest : Chars) :
    step d w (stop ++ rest) = (w.closeTag ⟨[], kind.elementName.toList⟩).map fun w =>
    (w, rest) := by
  obtain ⟨space⟩ := h
  simp only [List.cons_append, List.append_assoc, List.nil_append]
  rw [step, endTag?_elementName kind space]
  cases h : w.closeTag ⟨[], kind.elementName.toList⟩ <;> simp [h]

end Walk
end Canonmark.Xml
