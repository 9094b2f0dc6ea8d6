import Canonmark.Proofs.Json.Revision
import Canonmark.Proofs.Options
import Mathlib.Data.List.Induction

/-! Options that are made in any number of steps stay sound, and overrides given one after the other
come to the overrides of both given at once. -/
namespace Canonmark

namespace Members

variable {given given' more : Members}

/-- Members with others given after them. -/
def override (ms more : Members) : Members := more.foldl (fun ms (n, v) => ms.set n v) ms

theorem get?_override (once : more.names.Nodup) (ms : Members) (n : String) :
    (ms.override more).get? n = (more.get? n).or (ms.get? n) := by
  induction more generalizing ms with
  | nil => rfl
  | cons p more ih =>
    obtain ⟨k, v⟩ := p
    rw [names_cons, List.nodup_cons] at once
    have hrest := ih once.2 (ms.set k v)
    rw [override] at hrest
    rw [override, List.foldl_cons, hrest, get?_cons]
    by_cases hn : n = k
    · rw [hn, if_pos rfl, get?_eq_none_iff.mpr once.1, get?_set_self, Option.none_or,
        Option.some_or]
    · rw [if_neg hn, get?_set_ne hn]

/-- The same members, with the values that are given for them. -/
def replaced (given ms : Members) : Members := ms.map fun (n, v) => (n, (given.get? n).getD v)

theorem get?_replaced (given ms : Members) (n : String) :
    (replaced given ms).get? n = (ms.get? n).map fun v => (given.get? n).getD v := by
  induction ms with
  | nil => rfl
  | cons p ms ih =>
    obtain ⟨k, v⟩ := p
    rw [replaced, List.map_cons, ← replaced, get?_cons, get?_cons, ih]
    by_cases hn : n = k
    · rw [if_pos hn, if_pos hn, hn, Option.map_some]
    · rw [if_neg hn, if_neg hn]

@[simp] theorem names_replaced (given ms : Members) : (replaced given ms).names = ms.names := by
  rw [names, replaced, List.map_map]
  rfl

theorem replaced_congr (h : ∀ n, given.get? n = given'.get? n) (ms : Members) :
    replaced given ms = replaced given' ms := by
  simp only [replaced, h]

theorem replaced_of_none (h : ∀ n, given.get? n = none) (ms : Members) :
    replaced given ms = ms := by
  simp [replaced, h]

theorem replaced_replaced (h : ∀ n, given'.get? n = (more.get? n).or (given.get? n))
    (ms : Members) : replaced more (replaced given ms) = replaced given' ms := by
  rw [replaced, replaced, List.map_map, replaced]
  refine List.map_congr_left fun p _ => ?_
  obtain ⟨n, v⟩ := p
  simp only [Function.comp_apply, h]
  cases more.get? n <;> rfl

end Members

namespace OptionClass

variable {c d : OptionClass}

def defaults (c : OptionClass) : Members := c.fields.map fun f => (f.name, f.default)

@[simp] theorem names_defaults (c : OptionClass) : c.defaults.names = c.fieldNames := by
  rw [Members.names, defaults, List.map_map]
  rfl

theorem refines_refl (c : OptionClass) : c.refines c := by
  cases c <;> rfl

/-- A class that refines another has all its fields. -/
theorem fieldNames_of_refines : d.refines c → c.fieldNames ⊆ d.fieldNames := by
  cases c <;> cases d <;> decide

end OptionClass

namespace Options

variable {c : OptionClass} {o o' o₁ o₂ : Options} {base : Option Options} {given k₁ k₂ : Members}

theorem mem_fieldNames_of_known {n : String} (h : n ∈ (known c given).names) :
    n ∈ c.fieldNames := by
  obtain ⟨p, hp, rfl⟩ := List.mem_map.mp h
  simpa using (List.mem_filter.mp hp).2

theorem get?_known (c : OptionClass) (given : Members) (n : String) :
    (known c given).get? n = if n ∈ c.fieldNames then given.get? n else none := by
  induction given with
  | nil => simp [known]
  | cons p given ih =>
    obtain ⟨k, v⟩ := p
    rw [known, List.filter_cons, ← known]
    by_cases hk : k ∈ c.fieldNames
    · rw [if_pos (by simpa using hk), Members.get?_cons, Members.get?_cons, ih]
      by_cases hn : n = k
      · rw [if_pos hn, if_pos hn, if_pos (hn ▸ hk)]
      · rw [if_neg hn, if_neg hn]
    · rw [if_neg (by simpa using hk), ih]
      by_cases hn : n = k
      · rw [if_neg (hn ▸ hk), if_neg (hn ▸ hk)]
      · rw [Members.get?_cons_ne hn]

theorem isEmpty_known_iff : (known c given).isEmpty ↔ ∀ n, (known c given).get? n = none := by
  rw [List.isEmpty_iff]
  constructor
  · intro h n
    rw [h, Members.get?_nil]
  · intro h
    cases hknown : known c given with
    | nil => rfl
    | cons p ms =>
      have hget := h p.1
      rw [hknown, Members.get?_cons_self] at hget
      cases hget

/-- Names that can be given to a merge. -/
def IsCallable (given : Members) : Prop := ∀ n ∈ given.names, n ∉ reservedNames

/-- What a merge starts from: the options that are there, or the defaults of the class. -/
def origin (c : OptionClass) (base : Option Options) : Options := base.getD ⟨c, c.defaults⟩

/-- Options with the values that are given for the fields of a class. -/
def overridden (c : OptionClass) (o : Options) (given : Members) : Options :=
  ⟨o.cls, Members.replaced (known c given) o.values⟩

theorem construct_known (c : OptionClass) (given : Members) :
    construct c (known c given) = (overridden c ⟨c, c.defaults⟩ given).check := by
  have hnone : (known c given).names.find? (fun n => !c.fieldNames.contains n) = none := by
    rw [List.find?_eq_none]
    intro n hn
    simpa using mem_fieldNames_of_known hn
  rw [construct, hnone, overridden, Members.replaced, OptionClass.defaults, List.map_map]
  rfl

theorem update_known (fits : o.cls.refines c) (given : Members) :
    o.update (known c given) = (overridden c o given).check := by
  have hnone : (known c given).names.find? (fun n => !o.cls.fieldNames.contains n) = none := by
    rw [List.find?_eq_none]
    intro n hn
    simpa using OptionClass.fieldNames_of_refines fits (mem_fieldNames_of_known hn)
  rw [update, hnone, overridden, Members.replaced]

theorem merge_of_not_callable (h : ¬IsCallable given) : ∃ f, merge c base given = .error f := by
  rw [merge]
  cases hfind : given.names.find? reservedNames.contains with
  | some n => exact ⟨_, rfl⟩
  | none =>
    refine absurd (fun n hn => ?_) h
    simpa using List.find?_eq_none.mp hfind n hn

/-- Values are replaced and checked, unless there are options and nothing is given for the fields of
the class. -/
theorem merge_of_callable (fits : ∀ b ∈ base, b.cls.refines c) (callable : IsCallable given) :
    merge c base given = if base.isSome ∧ (known c given).isEmpty then .ok (origin c base)
      else (overridden c (origin c base) given).check := by
  have hfind : given.names.find? reservedNames.contains = none := by
    rw [List.find?_eq_none]
    intro n hn
    simpa using callable n hn
  rw [merge, hfind]
  dsimp only
  rw [← known]
  cases base with
  | none => exact construct_known c given
  | some b =>
    have hfits : (!b.cls.refines c) = false := by simp [fits b rfl]
    simp only [hfits, Bool.false_eq_true, if_false, update_known (fits b rfl),
      Option.isSome_some, true_and]
    rfl

theorem isCallable_of_merge (h : merge c base given = .ok o) : IsCallable given := by
  refine Classical.byContradiction fun hcall => ?_
  obtain ⟨f, hf⟩ : ∃ f, merge c base given = .error f := merge_of_not_callable hcall
  rw [hf] at h
  cases h

theorem merge_eq_ok_iff (fits : ∀ b ∈ base, b.cls.refines c) (callable : IsCallable given) :
    merge c base given = .ok o ↔ o = overridden c (origin c base) given ∧
      (o.check = .ok o ∨ base.isSome ∧ ∀ n, (known c given).get? n = none) := by
  rw [merge_of_callable fits callable]
  split
  · rename_i hempty
    have hnone := isEmpty_known_iff.mp hempty.2
    rw [overridden, Members.replaced_of_none hnone, Except.ok.injEq]
    exact ⟨fun h => ⟨h.symm, .inr ⟨hempty.1, hnone⟩⟩, fun h => h.1.symm⟩
  · rename_i hsome
    rw [← isEmpty_known_iff, or_iff_left hsome]
    constructor
    · intro h
      obtain ⟨rfl, -⟩ := check_eq_ok h
      exact ⟨rfl, h⟩
    · rintro ⟨rfl, h⟩
      exact h

/-- What is given for other names than the fields of the class has no effect. -/
theorem merge_congr (fits : ∀ b ∈ base, b.cls.refines c) (hcall : IsCallable k₁)
    (hcall' : IsCallable k₂) (h : ∀ n ∈ c.fieldNames, k₁.get? n = k₂.get? n) :
    merge c base k₁ = merge c base k₂ := by
  have hknown : ∀ n, (known c k₁).get? n = (known c k₂).get? n := by
    intro n
    rw [get?_known, get?_known]
    split
    · rename_i hn
      exact h n hn
    · rfl
  have hempty : (known c k₁).isEmpty = (known c k₂).isEmpty := by
    rw [Bool.eq_iff_iff, isEmpty_known_iff, isEmpty_known_iff]
    simp only [hknown]
  rw [merge_of_callable fits hcall, merge_of_callable fits hcall', hempty, overridden, overridden,
    Members.replaced_congr hknown]

theorem isCallable_override (h₁ : IsCallable k₁) (h₂ : IsCallable k₂) :
    IsCallable (k₁.override k₂) := by
  intro n hn
  obtain hn | hn := Members.mem_names_foldl_set.mp hn
  · exact h₁ n hn
  · exact h₂ n hn

theorem get?_known_override (once : k₂.names.Nodup) (c : OptionClass) (k₁ : Members) (n : String) :
    (known c (k₁.override k₂)).get? n = ((known c k₂).get? n).or ((known c k₁).get? n) := by
  rw [get?_known, get?_known, get?_known, Members.get?_override once]
  split <;> rfl

theorem overridden_overridden (once : k₂.names.Nodup) (c : OptionClass) (o : Options)
    (k₁ : Members) : overridden c (overridden c o k₁) k₂ = overridden c o (k₁.override k₂) := by
  rw [overridden, overridden, overridden, Members.replaced_replaced (get?_known_override once c k₁)]

theorem refines_of_merge (fits : ∀ b ∈ base, b.cls.refines c) (h : merge c base given = .ok o) :
    o.cls.refines c := by
  obtain ⟨rfl, -⟩ := (merge_eq_ok_iff fits (isCallable_of_merge h)).mp h
  cases base with
  | none => exact c.refines_refl
  | some b => exact fits b rfl

/-- Overrides of overrides are overrides by both at once. -/
theorem merge_of_merge (once : k₂.names.Nodup) (fits : ∀ b ∈ base, b.cls.refines c)
    (h₁ : merge c base k₁ = .ok o₁) (h₂ : merge c (some o₁) k₂ = .ok o₂) :
    merge c base (k₁.override k₂) = .ok o₂ := by
  have hcall₁ := isCallable_of_merge h₁
  have hcall₂ := isCallable_of_merge h₂
  have fits₁ : ∀ b ∈ some o₁, b.cls.refines c := by
    rintro b ⟨⟩
    exact refines_of_merge fits h₁
  obtain ⟨ho₁, hcheck₁⟩ := (merge_eq_ok_iff fits hcall₁).mp h₁
  obtain ⟨ho₂, hcheck₂⟩ := (merge_eq_ok_iff fits₁ hcall₂).mp h₂
  have hall : o₂ = overridden c (origin c base) (k₁.override k₂) := by
    rw [ho₂, origin, Option.getD_some, ho₁, overridden_overridden once]
  refine (merge_eq_ok_iff fits (isCallable_override hcall₁ hcall₂)).mpr ⟨hall, ?_⟩
  obtain hcheck₂ | ⟨-, hnone₂⟩ := hcheck₂
  · exact .inl hcheck₂
  -- The second merge leaves the options of the first one as they are.
  have hsame : o₂ = o₁ := by
    rw [ho₂, overridden, Members.replaced_of_none hnone₂]
    rfl
  obtain hcheck₁ | ⟨hsome, hnone₁⟩ := hcheck₁
  · exact .inl (hsame ▸ hcheck₁)
  · refine .inr ⟨hsome, fun n => ?_⟩
    rw [get?_known_override once, hnone₁, hnone₂]
    rfl

/-- A way to come by options. -/
inductive Step where
  | construct (c : OptionClass) (given : Members)
  | update (given : Members)
  | merge (c : OptionClass) (given : Members)

namespace Step

def overrides : Step → Members
  | .construct _ given | .update given | .merge _ given => given

/-- The options that a step yields from the current ones, if it does not fail. Without any there is
nothing to update. -/
def result? (current : Option Options) : Step → Option Options
  | .construct c given => (Options.construct c given).toOption
  | .update given => current.bind fun o => (o.update given).toOption
  | .merge c given => (Options.merge c current given).toOption

/-- The current options after a step; a step that fails leaves them. -/
def next (current : Option Options) (s : Step) : Option Options := (s.result? current).or current

end Step

/-- The current options after some steps. -/
def after (steps : List Step) : Option Options := steps.foldl Step.next none

/-- Whole numbers are given for the length of a fence, if any; truth values are numbers too. -/
def GivesWholeFence (given : Members) : Prop :=
  ∀ v, given.get? "code_fence_min" = some v → (∃ i, v = .int i) ∨ ∃ b, v = .bool b

/-- Options with a value for each field of their class, that have passed the check, with a fence of
whole length. -/
structure IsWhole (o : Options) : Prop where
  names : o.values.names = o.cls.fieldNames
  sound : o.Sound
  fence : ∀ v, o.values.get? "code_fence_min" = some v → ∃ i, v = .int i

theorem givesWholeFence_known (h : GivesWholeFence given) (c : OptionClass) :
    GivesWholeFence (known c given) := by
  intro v hv
  rw [get?_known] at hv
  split at hv
  · exact h v hv
  · cases hv

theorem fence_of_check (h : o.check = .ok o) (whole : GivesWholeFence o.values) {v : Json}
    (hv : o.values.get? "code_fence_min" = some v) : ∃ i, v = .int i := by
  obtain hint | ⟨b, rfl⟩ := whole v hv
  · exact hint
  · simp only [check, bind, Except.bind, hv] at h
    split at h
    · cases h
    · split at h <;> cases h

/-- What is replaced in the values of a class is whole if it passes the check. -/
theorem isWhole_replaced {ms : Members} (names : ms.names = c.fieldNames)
    (fence : ∀ v, ms.get? "code_fence_min" = some v → ∃ i, v = .int i)
    (whole : GivesWholeFence given)
    (h : check ⟨c, Members.replaced given ms⟩ = .ok ⟨c, Members.replaced given ms⟩) :
    IsWhole ⟨c, Members.replaced given ms⟩ := by
  have hvalues : GivesWholeFence (Members.replaced given ms) := by
    intro v hv
    rw [Members.get?_replaced, Option.map_eq_some_iff] at hv
    obtain ⟨w, hw, rfl⟩ := hv
    cases hgiven : given.get? "code_fence_min" with
    | none => exact .inl (fence w hw)
    | some v => exact whole v hgiven
  exact ⟨by simpa using names, (check_eq_ok h).2, fun v hv => fence_of_check h hvalues hv⟩

theorem isWhole_of_construct (whole : GivesWholeFence given) (h : construct c given = .ok o) :
    o.IsWhole := by
  unfold construct at h
  split at h
  · cases h
  have hvalues : (c.fields.map fun f => (f.name, (given.get? f.name).getD f.default)) =
      Members.replaced given c.defaults := by
    rw [Members.replaced, OptionClass.defaults, List.map_map]
    rfl
  rw [hvalues] at h
  obtain ⟨rfl, -⟩ := check_eq_ok h
  refine isWhole_replaced (by simp) (fun v hv => ?_) whole h
  cases c <;> simp [OptionClass.defaults, OptionClass.fields, Members.get?_cons] at hv
  exact ⟨3, hv.symm⟩

theorem isWhole_of_update (start : o.IsWhole) (whole : GivesWholeFence given)
    (h : o.update given = .ok o') : o'.IsWhole := by
  unfold update at h
  split at h
  · cases h
  · obtain ⟨rfl, -⟩ := check_eq_ok h
    exact isWhole_replaced start.names start.fence whole h

theorem isWhole_of_merge (start : ∀ b ∈ base, b.IsWhole) (whole : GivesWholeFence given)
    (h : merge c base given = .ok o) : o.IsWhole := by
  obtain h | rfl | ⟨b, hb, h⟩ := merge_cases h
  · exact isWhole_of_construct (givesWholeFence_known whole c) h
  · exact start o rfl
  · exact isWhole_of_update (start b hb) (givesWholeFence_known whole c) h

theorem eq_ok_of_toOption {ε α : Type} {x : Except ε α} {a : α} (h : x.toOption = some a) :
    x = .ok a := by
  cases x with
  | ok b => exact congrArg Except.ok (Option.some.inj h)
  | error e => cases h

/-- A step from whole options, or from none, yields whole options. -/
theorem isWhole_of_result? {current : Option Options} {s : Step} (start : ∀ o ∈ current, o.IsWhole)
    (whole : GivesWholeFence s.overrides) (h : s.result? current = some o) : o.IsWhole := by
  cases s with
  | construct c given => exact isWhole_of_construct whole (eq_ok_of_toOption h)
  | update given =>
    obtain ⟨b, hb, h⟩ := Option.bind_eq_some_iff.mp h
    exact isWhole_of_update (start b hb) whole (eq_ok_of_toOption h)
  | merge c given => exact isWhole_of_merge start whole (eq_ok_of_toOption h)

theorem isWhole_after {steps : List Step} (whole : ∀ s ∈ steps, GivesWholeFence s.overrides) :
    ∀ o ∈ after steps, o.IsWhole := by
  induction steps using List.reverseRecOn with
  | nil => nofun
  | append_singleton steps s ih =>
    have hbefore := ih fun t ht => whole t (by simp [ht])
    intro o ho
    rw [after, List.foldl_append, ← after, List.foldl_cons, List.foldl_nil, Step.next,
      Option.mem_def, Option.or_eq_some_iff] at ho
    obtain ho | ⟨-, ho⟩ := ho
    · exact isWhole_of_result? hbefore (whole s (by simp)) ho
    · exact hbefore o ho

/-- Whole options for writing markdown have one of the three bullets, and fences of three backticks
or more. -/
theorem IsWhole.renderer (h : o.IsWhole) (renderer : o.cls = .markdownRenderer) :
    (∃ s ∈ ["-", "*", "+"], o.values.get? "bullet_symbol" = some (.str s)) ∧
      ∃ i, o.values.get? "code_fence_min" = some (.int i) ∧ 3 ≤ i := by
  have hget : ∀ n ∈ o.cls.fieldNames, ∃ v, o.values.get? n = some v := by
    intro n hn
    rw [← Option.isSome_iff_exists, Members.get?_isSome_iff, h.names]
    exact hn
  rw [renderer] at hget
  obtain ⟨bullet, hbullet⟩ := hget "bullet_symbol" (by decide)
  obtain ⟨fence, hfence⟩ := hget "code_fence_min" (by decide)
  obtain ⟨i, rfl⟩ := h.fence fence hfence
  refine ⟨?_, i, hfence, h.sound.fence i hfence⟩
  have htext : ∀ {s : String}, bullet.isText s → bullet = .str s := by
    intro s hs
    cases bullet <;> first | cases hs | exact congrArg Json.str (beq_iff_eq.mp hs)
  obtain hs | hs | hs := h.sound.bullet bullet hbullet
  · exact ⟨"-", by simp, htext hs ▸ hbullet⟩
  · exact ⟨"*", by simp, htext hs ▸ hbullet⟩
  · exact ⟨"+", by simp, htext hs ▸ hbullet⟩

/-- However options for writing markdown are come by, they have one of the three bullets and fences
of three backticks or more, and a step that fails leaves the current options. Overrides one after
the other come to the overrides of both at once; only what is given for the fields of the class has
an effect, and class and other values are kept. -/
theorem overrides_lawful :
    (∀ (steps : List Step) (s : Step), (∀ t ∈ steps ++ [s], GivesWholeFence t.overrides) →
      ∀ o, s.result? (after steps) = some o → o.cls = .markdownRenderer →
        (∃ b ∈ ["-", "*", "+"], o.values.get? "bullet_symbol" = some (.str b)) ∧
          ∃ i, o.values.get? "code_fence_min" = some (.int i) ∧ 3 ≤ i) ∧
    (∀ (steps : List Step) (s : Step), s.result? (after steps) = none →
      after (steps ++ [s]) = after steps) ∧
    ∀ (c : OptionClass) (base : Option Options) (k₁ k₂ : Members) (o₁ o₂ : Options),
      k₂.names.Nodup → (∀ b ∈ base, b.cls.refines c) → merge c base k₁ = .ok o₁ →
      merge c (some o₁) k₂ = .ok o₂ →
        merge c base (k₁.override k₂) = .ok o₂ ∧
        (∀ k, IsCallable k → (∀ n ∈ c.fieldNames, k.get? n = k₁.get? n) → merge c base k = .ok o₁) ∧
        (∀ k, IsCallable k → (∀ n ∈ c.fieldNames, k.get? n = k₂.get? n) →
          merge c (some o₁) k = .ok o₂) ∧
        o₂.cls = (origin c base).cls ∧
        ∀ n, k₁.get? n = none → k₂.get? n = none →
          o₂.values.get? n = (origin c base).values.get? n := by
  refine ⟨fun steps s whole o ho hcls => ?_, fun steps s hs => ?_, ?_⟩
  · have hbefore : ∀ o ∈ after steps, o.IsWhole := isWhole_after fun t ht => whole t (by simp [ht])
    exact (isWhole_of_result? hbefore (whole s (by simp)) ho).renderer hcls
  · rw [after, List.foldl_append, ← after, List.foldl_cons, List.foldl_nil, Step.next, hs,
      Option.none_or]
  · intro c base k₁ k₂ o₁ o₂ once fits h₁ h₂
    have hboth := merge_of_merge once fits h₁ h₂
    have fits₁ : ∀ b ∈ some o₁, b.cls.refines c := by
      rintro b ⟨⟩
      exact refines_of_merge fits h₁
    obtain ⟨ho₂, -⟩ := (merge_eq_ok_iff fits (isCallable_of_merge hboth)).mp hboth
    refine ⟨hboth, fun k hk hsame => ?_, fun k hk hsame => ?_, by rw [ho₂, overridden],
      fun n hn₁ hn₂ => ?_⟩
    · rw [merge_congr fits hk (isCallable_of_merge h₁) hsame, h₁]
    · rw [merge_congr fits₁ hk (isCallable_of_merge h₂) hsame, h₂]
    · have hnone : (known c (k₁.override k₂)).get? n = none := by
        rw [get?_known_override once, get?_known, get?_known, hn₁, hn₂, ite_self]
        rfl
      rw [ho₂, overridden, Members.get?_replaced, hnone]
      exact Option.map_id'

/-- Stars are asked for as bullets, and then a sign that is no bullet. -/
def starSteps : List Step :=
  [.construct .markdownRenderer [("bullet_symbol", .str "*")],
    .update [("bullet_symbol", .str "x")]]

/-- Longer fences, and something that is no option. -/
def fiveTicks : Members := [("code_fence_min", .int 5), ("width", .null)]

def starred : Options where
  cls := .markdownRenderer
  values := [("no_index", .bool false), ("escape_special", .bool true), ("bullet_symbol", .str "*"),
    ("code_fence_min", .int 5)]

/-- Options for reading markdown that trim texts. -/
def trimming (validate : Bool) : Options where
  cls := .markdownParser
  values := [("validate", .bool validate), ("trim_text", .bool true), ("tag_info", .bool false)]

/-- Of what is given for the options that trim texts, only `validate` is a field of the class. -/
theorem overrides_lawful_trimming :
    (Step.merge .markdownRenderer fiveTicks).result? (after starSteps) = some starred ∧
      (∃ b ∈ ["-", "*", "+"], starred.values.get? "bullet_symbol" = some (.str b)) ∧
      merge .parser (some (trimming true))
        (Members.override [("validate", .bool true), ("trim_text", .bool false)]
          [("validate", .bool false)]) = .ok (trimming false) := by
  obtain ⟨hsteps, -, hmerge⟩ := overrides_lawful
  refine ⟨rfl, ?_, ?_⟩
  · refine (hsteps starSteps (.merge .markdownRenderer fiveTicks) (fun t ht v hv =>
      ?_) starred rfl rfl).1
    simp only [starSteps, List.cons_append, List.nil_append, List.mem_cons, List.not_mem_nil,
      or_false] at ht
    obtain rfl | rfl | rfl := ht
    · cases hv
    · cases hv
    · cases hv
      exact .inl ⟨5, rfl⟩
  · exact (hmerge .parser (some (trimming true)) [("validate", .bool true),
      ("trim_text", .bool false)] [("validate", .bool false)] (trimming true) (trimming false)
      (by simp) (by rintro b ⟨⟩; rfl) rfl rfl).1

end Options
end Canonmark
