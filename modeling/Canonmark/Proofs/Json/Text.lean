import Canonmark.Json.Printer
import Canonmark.Json.Reader
import Canonmark.Proofs.Json.Members
import Mathlib.Tactic.SplitIfs

/-! JSON text of a value, and the value that is read from it: they are the same, in every layout. -/
namespace Canonmark.Json

/-- A value without numbers in which no object has two members of one name. -/
inductive IsPlain : Json → Prop
  | null : IsPlain .null
  | bool (b : Bool) : IsPlain (.bool b)
  | str (s : String) : IsPlain (.str s)
  | arr {items : List Json} (below : ∀ v ∈ items, IsPlain v) : IsPlain (.arr items)
  | obj {members : Members} (once : members.names.Nodup) (below : ∀ m ∈ members, IsPlain m.2) :
      IsPlain (.obj members)

/-- The four digits of a control character are those of its number. -/
theorem hexadecimal_control :
    ∀ n < 0x20, ∃ a b c d, Text.Quoted.hexadecimal 4 n = [a, b, c, d] ∧
      Text.isHexDigit a ∧ Text.isHexDigit b ∧ Text.isHexDigit c ∧ Text.isHexDigit d ∧
        Text.hexadecimalValue [a, b, c, d] = n := by
  intro n hn
  refine ⟨_, _, _, _, rfl, ?_⟩
  revert n
  decide

theorem stringNumbers?_escapeChar (c : Char) (rest : Chars) :
    stringNumbers? (escapeChar c ++ rest) =
      (stringNumbers? rest).map fun (ns, r) => (c.toNat :: ns, r) := by
  unfold escapeChar
  split_ifs with hquote hslash hline hreturn htab hback hfeed hcontrol
  · rw [beq_iff_eq.mp hquote]
    rfl
  · rw [beq_iff_eq.mp hslash]
    rfl
  · rw [beq_iff_eq.mp hline]
    rfl
  · rw [beq_iff_eq.mp hreturn]
    rfl
  · rw [beq_iff_eq.mp htab]
    rfl
  · rw [beq_iff_eq.mp hback]
    rfl
  · rw [beq_iff_eq.mp hfeed]
    rfl
  · obtain ⟨a, b, d, e, hdigits, ha, hb, hd, he, hvalue⟩ := hexadecimal_control c.toNat hcontrol
    rw [hdigits]
    simp only [List.cons_append, List.nil_append, stringNumbers?, ha, hb, hd, he, hvalue,
      Bool.and_self, if_true]
  · have hplain : (decide (c.toNat < 0x20) || c == '\\') = false := by simp [hcontrol, hslash]
    rw [List.singleton_append, stringNumbers?.eq_def]
    split
    · rename_i heq; cases heq
    · rename_i heq
      cases heq
      exact absurd rfl hquote
    · rename_i heq
      cases heq
      exact absurd rfl hslash
    · rename_i heq
      cases heq
      exact absurd rfl hslash
    · rename_i heq
      cases heq
      rw [hplain]
      rfl

theorem stringNumbers?_escaped (s rest : Chars) :
    stringNumbers? (s.flatMap escapeChar ++ '"' :: rest) = some (s.map Char.toNat, rest) := by
  induction s with
  | nil => rfl
  | cons c s ih =>
    rw [List.flatMap_cons, List.append_assoc, stringNumbers?_escapeChar, ih]
    rfl

/-- No character is a surrogate. -/
theorem joinSurrogates_map (s : Chars) : joinSurrogates (s.map Char.toNat) = s := by
  induction s with
  | nil => rfl
  | cons c s ih =>
    have hvalid : c.toNat < 0xD800 ∨ 0xDFFF < c.toNat := c.valid.imp id And.left
    have hhigh : (decide (0xD800 ≤ c.toNat) && decide (c.toNat ≤ 0xDBFF)) = false := by
      simp only [Bool.and_eq_false_iff, decide_eq_false_iff_not]
      omega
    have hlow : (decide (0xDC00 ≤ c.toNat) && decide (c.toNat ≤ 0xDFFF)) = false := by
      simp only [Bool.and_eq_false_iff, decide_eq_false_iff_not]
      omega
    rw [List.map_cons, joinSurrogates.eq_def]
    simp only [hhigh, hlow, ih, Char.ofNat_toNat, Bool.false_eq_true, if_false]

theorem readString?_printed (s : String) (rest : Chars) :
    readString? (s.toList.flatMap escapeChar ++ '"' :: rest) = some (s, rest) := by
  rw [readString?, stringNumbers?_escaped, Option.map_some]
  simp only [joinSurrogates_map, String.ofList_toList]

theorem printString_append (s : String) (rest : Chars) :
    printString s ++ rest = '"' :: (s.toList.flatMap escapeChar ++ '"' :: rest) := by
  simp [printString]

theorem skipSpace_append {gap : Chars} (h : ∀ c ∈ gap, isSpace c) (s : Chars) :
    skipSpace (gap ++ s) = skipSpace s :=
  List.dropWhile_append_of_pos h

theorem skipSpace_cons {c : Char} (h : isSpace c = false) (s : Chars) :
    skipSpace (c :: s) = c :: s :=
  List.dropWhile_cons_of_neg (by simp [h])

theorem isSpace_break (indent : Indent) (depth : Nat) : ∀ c ∈ indent.break depth, isSpace c := by
  intro c hc
  cases indent with
  | none => cases hc
  | some width =>
    obtain rfl | hc := List.mem_cons.mp hc
    · rfl
    · rw [List.eq_of_mem_replicate hc]
      rfl

theorem separator_eq (indent : Indent) (depth : Nat) :
    ∃ gap, indent.separator depth = ',' :: gap ∧ ∀ c ∈ gap, isSpace c := by
  cases indent with
  | none => exact ⟨[' '], rfl, List.forall_mem_singleton.mpr rfl⟩
  | some width => exact ⟨_, rfl, isSpace_break _ depth⟩

/-- The text of a value begins with a sign that neither stands between values nor ends a list. -/
theorem print_head {v : Json} (plain : v.IsPlain) (indent : Indent) (depth : Nat) :
    ∃ c cs, print indent depth v = c :: cs ∧ isSpace c = false ∧ c ≠ ']' := by
  cases plain with
  | null => exact ⟨_, _, rfl, rfl, by decide⟩
  | bool b => cases b <;> exact ⟨_, _, rfl, rfl, by decide⟩
  | str s => exact ⟨_, _, rfl, rfl, by decide⟩
  | @arr items _ =>
    cases items with
    | nil => exact ⟨'[', [']'], rfl, rfl, by decide⟩
    | cons w ws => exact ⟨_, _, rfl, rfl, by decide⟩
  | @obj members _ _ =>
    cases members with
    | nil => exact ⟨'\x7b', ['\x7d'], rfl, rfl, by decide⟩
    | cons m ms => exact ⟨_, _, rfl, rfl, by decide⟩

theorem skipSpace_print {v : Json} (plain : v.IsPlain) (indent : Indent) (depth : Nat)
    (rest : Chars) : skipSpace (print indent depth v ++ rest) = print indent depth v ++ rest := by
  obtain ⟨c, cs, hprint, hspace, _⟩ := print_head plain indent depth
  rw [hprint, List.cons_append, skipSpace_cons hspace]

/-- A value whose text is read back, whatever follows it. -/
def IsReadBack (indent : Indent) (v : Json) : Prop :=
  ∀ depth fuel rest, (print indent depth v).length < fuel →
    readValue? fuel (print indent depth v ++ rest) = some (v, rest)

variable {indent : Indent} {depth fuel : Nat}

/-- One item of a list, and what is read after it. -/
theorem readItems?_cons {v : Json} (back : IsReadBack indent v)
    (enough : (print indent depth v).length < fuel) (rest : Chars) :
    readItems? (fuel + 1) (print indent depth v ++ rest) =
      match skipSpace rest with
      | ']' :: r => some ([v], r)
      | ',' :: r => (readItems? fuel (skipSpace r)).bind fun (vs, r) => some (v :: vs, r)
      | _ => none := by
  rw [readItems?, back depth fuel rest enough]
  rfl

/-- One member of an object, and what is read after it. -/
theorem readMembers?_cons {v : Json} (plain : v.IsPlain) (back : IsReadBack indent v)
    (enough : (print indent depth v).length < fuel) (n : String) (rest : Chars) :
    readMembers? (fuel + 1) (printString n ++ ':' :: ' ' :: (print indent depth v ++ rest)) =
      match skipSpace rest with
      | '\x7d' :: r => some ([(n, v)], r)
      | ',' :: r => (readMembers? fuel (skipSpace r)).bind fun (ms, r) => some ((n, v) :: ms, r)
      | _ => none := by
  have hspace : skipSpace (' ' :: (print indent depth v ++ rest)) = print indent depth v ++ rest :=
    skipSpace_print plain indent depth rest
  rw [printString_append, readMembers?]
  simp only [readString?_printed, Option.bind_eq_bind, Option.bind_some]
  rw [skipSpace_cons (by decide)]
  simp only [hspace, back depth fuel rest enough]
  rfl

theorem readItems?_printed (depth fuel : Nat) {v : Json}
    {vs : List Json} (h : ∀ w ∈ v :: vs, w.IsPlain ∧ IsReadBack indent w)
    {gap : Chars} (space : ∀ c ∈ gap, isSpace c) (rest : Chars)
    (enough : (print indent depth v).length + (printItems indent depth vs).length + 1 < fuel) :
    readItems? fuel (print indent depth v ++ (printItems indent depth vs ++ (gap ++ ']' :: rest))) =
      some (v :: vs, rest) := by
  obtain ⟨fuel, rfl⟩ := Nat.exists_eq_succ_of_ne_zero (Nat.ne_zero_of_lt enough)
  induction vs generalizing v fuel with
  | nil =>
    rw [readItems?_cons (h v (by simp)).2 (by omega), printItems, List.nil_append,
      skipSpace_append space]
    rfl
  | cons w ws ih =>
    obtain ⟨between, hseparator, hbetween⟩ := separator_eq indent depth
    simp only [printItems, hseparator, List.length_append, List.length_cons] at enough
    obtain ⟨fuel, rfl⟩ : ∃ k, fuel = k + 1 := ⟨fuel - 1, by omega⟩
    have hrest := ih (fun x hx => h x (List.mem_cons_of_mem v hx)) fuel (by omega)
    rw [readItems?_cons (h v (by simp)).2 (by omega), printItems, hseparator]
    simp only [List.cons_append, List.append_assoc]
    rw [skipSpace_cons (by decide)]
    simp only [skipSpace_append hbetween, skipSpace_print (h w (by simp)).1, hrest,
      Option.bind_some]

theorem readMembers?_printed (depth fuel : Nat) {n : String} {v : Json} {ms : Members}
    (h : ∀ m ∈ (n, v) :: ms, m.2.IsPlain ∧ IsReadBack indent m.2) {gap : Chars}
    (space : ∀ c ∈ gap, isSpace c) (rest : Chars)
    (enough : (print indent depth v).length + (printMembers indent depth ms).length + 1 < fuel) :
    readMembers? fuel (printString n ++ ':' :: ' ' :: (print indent depth v ++
      (printMembers indent depth ms ++ (gap ++ '\x7d' :: rest)))) = some ((n, v) :: ms, rest) := by
  obtain ⟨fuel, rfl⟩ := Nat.exists_eq_succ_of_ne_zero (Nat.ne_zero_of_lt enough)
  induction ms generalizing n v fuel with
  | nil =>
    obtain ⟨plain, back⟩ : v.IsPlain ∧ IsReadBack indent v := h (n, v) (by simp)
    rw [readMembers?_cons plain back (by omega), printMembers, List.nil_append,
      skipSpace_append space]
    rfl
  | cons m ms ih =>
    obtain ⟨k, w⟩ := m
    obtain ⟨plain, back⟩ : v.IsPlain ∧ IsReadBack indent v := h (n, v) (by simp)
    obtain ⟨between, hseparator, hbetween⟩ := separator_eq indent depth
    simp only [printMembers, hseparator, List.length_append, List.length_cons] at enough
    obtain ⟨fuel, rfl⟩ : ∃ k, fuel = k + 1 := ⟨fuel - 1, by omega⟩
    have hrest := ih (fun x hx => h x (List.mem_cons_of_mem (n, v) hx)) fuel (by omega)
    have hname : ∀ r, skipSpace (printString k ++ r) = printString k ++ r :=
      fun r => by rw [printString_append, skipSpace_cons (by decide)]
    rw [readMembers?_cons plain back (by omega), printMembers, hseparator]
    simp only [List.cons_append, List.append_assoc]
    rw [skipSpace_cons (by decide)]
    simp only [skipSpace_append hbetween, hname]
    rw [show ": ".toList = [':', ' '] from rfl]
    simp only [List.cons_append, List.nil_append, hrest, Option.bind_some]

theorem isReadBack_arr {vs : List Json} (h : ∀ v ∈ vs, v.IsPlain ∧ IsReadBack indent v) :
    IsReadBack indent (.arr vs) := by
  intro depth fuel rest enough
  cases vs with
  | nil =>
    obtain ⟨fuel, rfl⟩ := Nat.exists_eq_succ_of_ne_zero (Nat.ne_zero_of_lt enough)
    rfl
  | cons v vs =>
    simp only [print, List.length_append, List.length_cons, List.length_nil] at enough
    obtain ⟨fuel, rfl⟩ : ∃ k, fuel = k + 1 := ⟨fuel - 1, by omega⟩
    obtain ⟨c, cs, hhead, hspace, hend⟩ := print_head (h v (by simp)).1 indent (depth + 1)
    have hitems := readItems?_printed (depth + 1) fuel h
      (isSpace_break indent depth) rest (by omega)
    simp only [print, List.cons_append, List.append_assoc, List.nil_append, readValue?,
      skipSpace_append (isSpace_break indent (depth + 1)), skipSpace_print (h v (by simp)).1]
    rw [hhead] at hitems ⊢
    simp only [List.cons_append] at hitems ⊢
    split
    · rename_i heq
      cases heq
      exact absurd rfl hend
    · rw [hitems]
      rfl

theorem isReadBack_obj {ms : Members} (once : ms.names.Nodup)
    (h : ∀ m ∈ ms, m.2.IsPlain ∧ IsReadBack indent m.2) : IsReadBack indent (.obj ms) := by
  intro depth fuel rest enough
  cases ms with
  | nil =>
    obtain ⟨fuel, rfl⟩ := Nat.exists_eq_succ_of_ne_zero (Nat.ne_zero_of_lt enough)
    rfl
  | cons m ms =>
    obtain ⟨n, v⟩ := m
    have hlist : Members.ofList ((n, v) :: ms) = (n, v) :: ms := by
      rw [Members.ofList, Members.foldl_set_of_disjoint once (by simp), List.nil_append]
    simp only [print, List.length_append, List.length_cons, List.length_nil] at enough
    obtain ⟨fuel, rfl⟩ : ∃ k, fuel = k + 1 := ⟨fuel - 1, by omega⟩
    have hmembers := readMembers?_printed (depth + 1) fuel h
      (isSpace_break indent depth) rest (by omega)
    simp only [print, List.cons_append, List.append_assoc, List.nil_append, readValue?,
      skipSpace_append (isSpace_break indent (depth + 1))]
    rw [show ": ".toList = [':', ' '] from rfl]
    rw [printString_append] at hmembers ⊢
    rw [skipSpace_cons (by decide)]
    simp only [List.cons_append, List.nil_append] at hmembers ⊢
    change Option.map (fun x => (obj (Members.ofList x.1), x.2)) (readMembers? fuel ('"' :: _)) = _
    rw [hmembers, Option.map_some, hlist]

theorem isReadBack {v : Json} (plain : v.IsPlain) : IsReadBack indent v := by
  induction plain with
  | null =>
    intro depth fuel rest enough
    obtain ⟨fuel, rfl⟩ := Nat.exists_eq_succ_of_ne_zero (Nat.ne_zero_of_lt enough)
    rfl
  | bool b =>
    intro depth fuel rest enough
    obtain ⟨fuel, rfl⟩ := Nat.exists_eq_succ_of_ne_zero (Nat.ne_zero_of_lt enough)
    cases b <;> rfl
  | str s =>
    intro depth fuel rest enough
    obtain ⟨fuel, rfl⟩ := Nat.exists_eq_succ_of_ne_zero (Nat.ne_zero_of_lt enough)
    rw [print, printString_append, readValue?, readString?_printed]
    rfl
  | arr below ih => exact isReadBack_arr fun v hv => ⟨below v hv, ih v hv⟩
  | obj once below ih => exact isReadBack_obj once fun m hm => ⟨below m hm, ih m hm⟩

/-- The text of a value without numbers denotes this value. -/
theorem ofText?_toText {v : Json} (plain : v.IsPlain) (indent : Indent) :
    ofText? (v.toText indent) = some v := by
  have hread := isReadBack plain 0 ((print indent 0 v).length + 1) [] (Nat.lt_succ_self _)
  have hskip := skipSpace_print plain indent 0 []
  rw [List.append_nil] at hread hskip
  rw [ofText?, toText, String.toList_ofList]
  simp only [hskip, hread]
  rfl

end Canonmark.Json
