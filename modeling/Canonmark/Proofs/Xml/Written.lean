import Canonmark.Proofs.Xml.Markup
import Mathlib.Data.List.Nodup

/-! What elements are written with: the attributes of each kind of node, and none but clean
characters. -/
namespace Canonmark.Xml

variable {kind : Kind} {as : List (String × String)} {s t : Chars}

@[simp] theorem isClean_nil : IsClean [] := nofun

@[simp] theorem isClean_cons {c : Char} :
    IsClean (c :: s) ↔ (IsPrintable c ∨ c = '\n') ∧ IsClean s :=
  List.forall_mem_cons

@[simp] theorem isClean_append : IsClean (s ++ t) ↔ IsClean s ∧ IsClean t := List.forall_mem_append

theorem isClean_of_isPrintable (h : ∀ c ∈ s, IsPrintable c) : IsClean s := fun c hc => .inl (h c hc)

theorem isAdmitted_of_isClean (h : IsClean s) : ∀ c ∈ s, isAdmitted c := by
  intro c hc
  obtain h | rfl := h c hc
  · exact isAdmitted_of_isPrintable h
  · rfl

theorem isClean_of_isGap (h : IsGap s) : IsClean s := by
  intro c hc
  obtain rfl | rfl := h c hc <;> decide

theorem isPrintable_of_isDigit {c : Char} (h : c.isDigit) : IsPrintable c := by
  have hbounds : 48 ≤ c.toNat ∧ c.toNat ≤ 57 := by
    simpa [Char.isDigit, Char.le_def, UInt32.le_iff_toNat_le] using h
  exact ⟨by omega, by omega⟩

theorem isPrintable_of_isHexDigit {c : Char} (h : Text.isHexDigit c) : IsPrintable c := by
  unfold Text.isHexDigit Text.hexDigitValue? at h
  split_ifs at h with hdigit hlower hupper
  · exact isPrintable_of_isDigit hdigit
  · simp only [Bool.and_eq_true, decide_eq_true_eq, Char.le_def, UInt32.le_iff_toNat_le] at hlower
    have hbounds : 97 ≤ c.toNat ∧ c.toNat ≤ 102 := hlower
    exact ⟨by omega, by omega⟩
  · simp only [Bool.and_eq_true, decide_eq_true_eq, Char.le_def, UInt32.le_iff_toNat_le] at hupper
    have hbounds : 65 ≤ c.toNat ∧ c.toNat ≤ 70 := hupper
    exact ⟨by omega, by omega⟩
  · cases h

theorem isClean_of_isReference {c : Char} (h : IsReference c s) : IsClean s := by
  cases h with
  | named known =>
    simp only [characterNames, List.mem_cons, Prod.mk.injEq, List.not_mem_nil, or_false] at known
    obtain ⟨rfl, rfl⟩ | ⟨rfl, rfl⟩ | ⟨rfl, rfl⟩ | ⟨rfl, rfl⟩ | ⟨rfl, rfl⟩ := known <;> decide
  | decimal _ decimal _ =>
    have hdigits := isClean_of_isPrintable fun d hd => isPrintable_of_isDigit (decimal d hd)
    simp only [isClean_cons, isClean_append]
    exact ⟨by decide, hdigits, by decide, isClean_nil⟩
  | hexadecimal _ hexadecimal _ =>
    have hdigits := isClean_of_isPrintable fun d hd => isPrintable_of_isHexDigit (hexadecimal d hd)
    simp only [isClean_cons, isClean_append]
    exact ⟨by decide, by decide, hdigits, by decide, isClean_nil⟩

/-- The spelling of a clean text is clean. -/
theorem isClean_of_spellsText {quote : Option Char} (h : SpellsText quote t s) (clean : IsClean t) :
    IsClean s := by
  induction h with
  | nil => exact isClean_nil
  | cons first _ ih =>
    obtain ⟨hc, hcs⟩ := isClean_cons.mp clean
    refine isClean_append.mpr ⟨?_, ih hcs⟩
    cases first with
    | bare => exact isClean_cons.mpr ⟨hc, isClean_nil⟩
    | reference reference => exact isClean_cons.mpr ⟨by decide, isClean_of_isReference reference⟩

/-- Names of the properties that are attributes of elements of a kind. -/
def propertyNames (kind : Kind) : List String := kind.properties.filter (· ∉ Element.reserved)

theorem not_reserved_of_mem {n : String} (h : n ∈ propertyNames kind) : n ∉ Element.reserved :=
  of_decide_eq_true (List.mem_filter.mp h).2

/-- Names of the attributes of elements of a kind. -/
def attributeNames (kind : Kind) : List String := propertyNames kind ++ [Schema.spanKey]

/-- Attributes of a kind that can be written. -/
structure Writes (kind : Kind) (as : List (String × String)) : Prop where
  names : (as.map Prod.fst).Sublist (attributeNames kind)
  printable : ∀ a ∈ as, ∀ c ∈ a.2.toList, IsPrintable c
  space : kind = .document → ("xmlns", defaultNamespace) ∈ as

theorem nodup_attributeNames (kind : Kind) : (attributeNames kind).Nodup := by
  cases kind <;> decide

theorem isWord_of_mem_attributeNames (kind : Kind) :
    ∀ n ∈ attributeNames kind, IsWord n.toList := by
  cases kind <;> decide

theorem xmlns_not_mem (other : kind ≠ .document) : "xmlns" ∉ attributeNames kind := by
  revert other
  cases kind <;> decide

namespace Writes

theorem once (h : Writes kind as) : (as.map Prod.fst).Nodup :=
  (nodup_attributeNames kind).sublist h.names

theorem arePlain (h : Writes kind as) : ArePlain as := fun a ha =>
  ⟨isWord_of_mem_attributeNames kind _ (h.names.subset (List.mem_map_of_mem ha)), h.printable a ha⟩

end Writes

theorem names_spanAttribute (span : Option Span) :
    ((spanAttribute span).map Prod.fst).Sublist [Schema.spanKey] := by
  cases span with
  | none => exact List.nil_sublist _
  | some s => exact List.Sublist.refl _

theorem names_optionalAttribute (name : String) (value : Option String) :
    ((optionalAttribute name value).map Prod.fst).Sublist [name] := by
  cases value with
  | none => exact List.nil_sublist _
  | some v => exact List.Sublist.refl _

theorem names_leafAttributes (l : Leaf) :
    ((leafAttributes l).map Prod.fst).Sublist (propertyNames l.kind) := by
  cases l with
  | codeBlock text info tag => exact names_optionalAttribute "info" info
  | _ => exact List.nil_sublist _

theorem names_containerAttributes (c : Container) :
    ((containerAttributes c).map Prod.fst).Sublist (propertyNames c.kind) := by
  cases c with
  | list data =>
    have hstart := names_optionalAttribute "start" data.start
    have htight := names_optionalAttribute "tight" data.tight
    have hdelimiter := names_optionalAttribute "delimiter" data.delimiter
    simp only [containerAttributes, List.map_append]
    exact (((List.Sublist.refl ["type"]).append hstart).append htight).append hdelimiter
  | clause clauseid src clauseText =>
    simp only [containerAttributes, List.map_append]
    exact (List.Sublist.refl ["clauseid", "src"]).append
      (names_optionalAttribute "clauseText" clauseText)
  | _ => exact List.Sublist.refl _

theorem isPrintable_toText (span : Span) : ∀ c ∈ span.toText.toList, IsPrintable c := by
  have hdigits : ∀ n, ∀ c ∈ Text.Numeral.ofNat n, IsPrintable c :=
    fun n c hc => isPrintable_of_isDigit (Text.Numeral.isDigit_of_mem_ofNat hc)
  have hcolon : IsPrintable ':' := by decide
  have hdash : IsPrintable '-' := by decide
  simp only [Span.toText, String.toList_ofList, List.forall_mem_append, List.forall_mem_cons]
  exact ⟨⟨⟨hdigits _, hcolon, hdigits _⟩, hdash, hdigits _⟩, hcolon, hdigits _⟩

/-- The position of a node can be written beside its properties. -/
theorem writes_append (names : (as.map Prod.fst).Sublist (propertyNames kind))
    (printable : ∀ a ∈ as, ∀ c ∈ a.2.toList, IsPrintable c)
    (space : kind = .document → ("xmlns", defaultNamespace) ∈ as) (span : Option Span) :
    Writes kind (as ++ spanAttribute span) where
  names := by
    rw [List.map_append]
    exact names.append (names_spanAttribute span)
  printable := by
    refine List.forall_mem_append.mpr ⟨printable, ?_⟩
    cases span with
    | none => nofun
    | some s => exact List.forall_mem_singleton.mpr (isPrintable_toText s)
  space := fun h => List.mem_append_left _ (space h)

theorem kind_ne_document {n : Node} (h : IsCommon n) : ∀ kind ∈ n.kind?, kind ≠ .document := by
  cases h with
  | @leaf l =>
    rintro _ ⟨⟩
    cases l <;> nofun
  | branch _ other =>
    rintro _ ⟨⟩
    exact other

/-- A node that an element can be written for, and those below it. -/
inductive IsWritten : Node → Prop
  | leaf {l : Leaf} {span : Option Span} (untagged : leafTag? l = none)
      (writes : Writes l.kind (leafAttributes l ++ spanAttribute span))
      (text : IsClean (leafText l).toList) (writable : ∀ s ∈ span, s.IsWritable) :
      IsWritten (.leaf l span)
  | branch {c : Container} {span : Option Span} {children : List Node} (common : c.kind.isCommon)
      (writes : Writes c.kind (containerAttributes c ++ spanAttribute span))
      (writable : ∀ s ∈ span, s.IsWritable) (below : ∀ n ∈ children, IsWritten n)
      (inner : ∀ n ∈ children, ∀ kind ∈ n.kind?, kind ≠ .document) :
      IsWritten (.branch c span children)

theorem isWritten_of_isCommon {n : Node} (h : IsCommon n) : IsWritten n := by
  induction h with
  | @leaf l span untagged text printable writable =>
    have hkind : l.kind ≠ .document := by cases l <;> nofun
    exact .leaf untagged (writes_append (names_leafAttributes l) printable (fun h =>
      absurd h hkind) span) text writable
  | @branch c span children common other printable writable below ih =>
    exact .branch common
      (writes_append (names_containerAttributes c) printable (fun h => absurd h other) span)
      writable ih fun n hn => kind_ne_document (below n hn)

theorem isWritten_of_isCommonDocument {n : Node} (h : IsCommonDocument n) : IsWritten n := by
  obtain @⟨span, children, writable, below⟩ := h
  have hall : defaultNamespace.toList.all (fun c => decide (IsPrintable c)) := by decide
  have hprintable : ∀ c ∈ defaultNamespace.toList, IsPrintable c :=
    fun c hc => of_decide_eq_true (List.all_eq_true.mp hall c hc)
  have hwrites := writes_append (names_containerAttributes (.document defaultNamespace))
    (List.forall_mem_singleton.mpr hprintable) (fun _ => List.mem_cons_self ..) span
  exact .branch rfl hwrites writable (fun n hn => isWritten_of_isCommon (below n hn))
    fun n hn => kind_ne_document (below n hn)

theorem isClean_elementName (kind : Kind) : IsClean kind.elementName.toList := by
  cases kind <;> decide

theorem isClean_of_mem_attributeNames (kind : Kind) :
    ∀ n ∈ attributeNames kind, IsClean n.toList := by
  cases kind <;> decide

theorem isClean_of_areAttributes (h : AreAttributes as s)
    (clean : ∀ a ∈ as, IsClean a.1.toList ∧ IsClean a.2.toList) : IsClean s := by
  induction h with
  | nil => exact isClean_nil
  | @cons _ _ _ _ _ _ quote space _ quoted spelled _ ih =>
    obtain ⟨⟨hname, hvalue⟩, hothers⟩ := List.forall_mem_cons.mp clean
    have hquote : IsPrintable quote := by
      obtain rfl | rfl := quoted <;> decide
    simp only [isClean_append, isClean_cons]
    exact ⟨isClean_of_isGap space, hname, by decide, .inl hquote,
      isClean_of_spellsText spelled hvalue, .inl hquote, ih hothers⟩

theorem isClean_of_isStart (h : IsStart kind as s) (writes : Writes kind as) : IsClean s := by
  obtain ⟨perm, spelled, space⟩ := h
  have hclean : ∀ a ∈ as, IsClean a.1.toList ∧ IsClean a.2.toList := fun a ha =>
    ⟨isClean_of_mem_attributeNames kind _ (writes.names.subset (List.mem_map_of_mem ha)),
      isClean_of_isPrintable (writes.printable a ha)⟩
  simp only [isClean_append, isClean_cons]
  exact ⟨by decide, isClean_elementName kind,
    isClean_of_areAttributes spelled fun a ha => hclean a (perm.subset ha), isClean_of_isGap space⟩

theorem isClean_of_isEnd (h : IsEnd kind s) : IsClean s := by
  obtain ⟨space⟩ := h
  simp only [isClean_append, isClean_cons]
  exact ⟨by decide, by decide, isClean_elementName kind, isClean_of_isGap space,
    by decide, isClean_nil⟩

theorem isClean_of_areXml {ns : List Node} (below : ∀ n ∈ ns, ∀ s, IsXml n s → IsClean s)
    (h : AreXml ns s) : IsClean s := by
  induction ns generalizing s with
  | nil =>
    obtain ⟨space⟩ := h
    exact isClean_of_isGap space
  | cons n ns ih =>
    obtain ⟨hn, hns⟩ := List.forall_mem_cons.mp below
    cases h with
    | cons space first others =>
      exact isClean_append.mpr
        ⟨isClean_of_isGap space, isClean_append.mpr ⟨hn _ first, ih hns others⟩⟩

/-- The element of a node that can be written holds no other characters than those of its texts. -/
theorem isClean_of_isXml {n : Node} (written : IsWritten n) : ∀ s, IsXml n s → IsClean s := by
  have hclose : IsClean ['/', '>'] := by decide
  induction written with
  | leaf _ writes text =>
    intro s h
    cases h with
    | leaf opening spelled closing =>
      simp only [isClean_append, isClean_cons]
      exact ⟨isClean_of_isStart opening writes, by decide, isClean_of_spellsText spelled text,
        isClean_of_isEnd closing⟩
    | emptyLeaf opening => exact isClean_append.mpr ⟨isClean_of_isStart opening writes, hclose⟩
  | branch _ writes _ _ _ ih =>
    intro s h
    cases h with
    | branch opening among closing =>
      simp only [isClean_append, isClean_cons]
      exact ⟨isClean_of_isStart opening writes, by decide, isClean_of_areXml ih among,
        isClean_of_isEnd closing⟩
    | emptyBranch opening => exact isClean_append.mpr ⟨isClean_of_isStart opening writes, hclose⟩

end Canonmark.Xml
