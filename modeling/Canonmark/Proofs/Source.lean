import Canonmark.Proofs.Text.Encoding

/-! Every source of a text loads that text, and all bytes are decoded, the bytes of a text as the
text whatever a detector says. -/
namespace Canonmark.Source
open Text (Bytes)
open Text.Encoding

/-- Why bytes are not read in an encoding. A third failure would be a name that cannot be looked up
for a NUL in it, which no detector gives. -/
inductive Refusal where
  | malformed
  | unknownName
  deriving DecidableEq, Repr

/-- Reads bytes in the encoding of a name. An encoding is known that reads no bytes as no text. -/
def readIn (name : String) (bs : Bytes) : Except Refusal Chars :=
  match named? name bs with
  | some cs => .ok cs
  | none => .error (if named? name [] = some [] then .malformed else .unknownName)

/-- Decoding with refusals. Only malformed bytes lead on from the first stage, every refusal from
the second, and none from the last. -/
def decodeInStages (detect : Bytes → Option Guess) (bs : Bytes) : Except Refusal Chars :=
  tryCatch (readIn "utf-8-sig" bs) fun
    | .unknownName => .error .unknownName
    | .malformed =>
      match trustedEncoding (detect (bs.take sampleSize)) with
      | none => readIn "latin-1" bs
      | some name => tryCatch (readIn name bs) fun _ => readIn "latin-1" bs

/-- The name of the first stage is known. -/
theorem readIn_marked (bs : Bytes) :
    readIn "utf-8-sig" bs = ((utf8? bs).map dropMark).elim (.error .malformed) .ok := by
  have hname (bs : Bytes) : named? "utf-8-sig" bs = (utf8? bs).map dropMark := rfl
  have hknown : named? "utf-8-sig" [] = some [] := by rw [hname, utf8?, Option.map_some, dropMark]
  rw [readIn, if_pos hknown, hname]
  cases utf8? bs <;> rfl

theorem readIn_latin (bs : Bytes) : readIn "latin-1" bs = .ok (latin1 bs) := by
  have hname : named? "latin-1" bs = some (latin1 bs) := rfl
  rw [readIn, hname]

theorem readIn_or (name : String) (bs : Bytes) (others : Chars) :
    (tryCatch (readIn name bs) fun _ => .ok others) = .ok ((named? name bs).getD others) := by
  rw [readIn]
  cases named? name bs <;> rfl

/-- Every refusal is caught before it leaves the stages. -/
theorem decodeInStages_eq (detect : Bytes → Option Guess) (bs : Bytes) :
    decodeInStages detect bs = .ok (decode detect bs) := by
  rw [decodeInStages, decode, readIn_marked]
  cases utf8? bs with
  | some cs => rfl
  | none =>
    simp only [Option.map_none, Option.elim_none, readIn_latin, readIn_or]
    cases trustedEncoding (detect (bs.take sampleSize)) with
    | none => rfl
    | some name => rfl

example : decode (fun _ => some ⟨some "windows-1252", .int 1⟩) [0x93, 0x71, 0x94] =
    "“q”".toList := by
  decide

/-- The sources that are bytes. -/
def ofBytes (bs : Bytes) : List Source := [.bytes bs, .byteArray bs, .byteStream bs, .file bs]

/-- The sources of a text. -/
def ofText (s : String) : List Source := .text s :: .textStream s :: ofBytes s.toUTF8.data.toList

variable {detect : Bytes → Option Guess}

theorem load_of_mem_ofBytes {source : Source} {bs : Bytes} (h : source ∈ ofBytes bs) :
    source.load detect = .ok (String.ofList (decode detect bs)) := by
  simp only [ofBytes, List.mem_cons, List.not_mem_nil, or_false] at h
  obtain rfl | rfl | rfl | rfl := h <;> rfl

theorem decode_toUTF8 (s : String) : decode detect s.toUTF8.data.toList = dropMark s.toList := by
  rw [decode, utf8?_eq_some_iff.2 (utf8_toList s).symm]

theorem dropMark_of_head?_ne {cs : Chars} (h : cs.head? ≠ some byteOrderMark) :
    dropMark cs = cs := by
  cases cs with
  | nil => rfl
  | cons c cs =>
    have hc : c ≠ byteOrderMark := by simpa using h
    rw [dropMark, if_neg (by simpa using hc)]

/-- A text that does not begin with the mark is what all its sources load, and those of its bytes
also after the mark. Whatever a detector says, all bytes are decoded, and the bytes of a text to
what no detector changes. -/
theorem load_agrees (detect : Bytes → Option Guess) :
    (∀ s : String, s.toList.head? ≠ some byteOrderMark →
      (∀ source ∈ ofText s, source.load detect = .ok s) ∧
      ∀ source ∈ ofBytes (String.ofList (byteOrderMark :: s.toList)).toUTF8.data.toList,
        source.load detect = .ok s) ∧
    ∀ bs : Bytes, ∃ t : String, decodeInStages detect bs = .ok t.toList ∧
      (∀ source ∈ ofBytes bs, source.load detect = .ok t) ∧
      ((∃ s : String, bs = s.toUTF8.data.toList) →
        ∀ other, decodeInStages other bs = .ok t.toList) := by
  refine ⟨fun s hs => ⟨fun source hsource => ?_, fun source hsource => ?_⟩, fun bs => ?_⟩
  · obtain hsource | hsource | hsource : source = .text s ∨ source = .textStream s ∨
        source ∈ ofBytes s.toUTF8.data.toList := by simpa only [ofText, List.mem_cons] using hsource
    · rw [hsource, load]
    · rw [hsource, load]
    · rw [load_of_mem_ofBytes hsource, decode_toUTF8, dropMark_of_head?_ne hs, String.ofList_toList]
  · rw [load_of_mem_ofBytes hsource, decode_toUTF8, String.toList_ofList, dropMark,
      if_pos (beq_self_eq_true _), String.ofList_toList]
  · refine ⟨String.ofList (decode detect bs), ?_, fun source hsource =>
      load_of_mem_ofBytes hsource, ?_⟩
    · rw [decodeInStages_eq, String.toList_ofList]
    · rintro ⟨s, rfl⟩ other
      rw [decodeInStages_eq, decode_toUTF8, decode_toUTF8, String.toList_ofList]

theorem load_agrees_accent :
    "naïve".toList.head? ≠ some byteOrderMark ∧
      load (fun _ => some ⟨some "windows-1252", .int 1⟩) (.file "naïve".toUTF8.data.toList) =
        .ok "naïve" ∧
      ∃ t : String, ∀ other, decodeInStages other "naïve".toUTF8.data.toList = .ok t.toList := by
  have hs : "naïve".toList.head? ≠ some byteOrderMark := by decide
  obtain ⟨hload, hdecode⟩ := load_agrees fun _ => some ⟨some "windows-1252", .int 1⟩
  obtain ⟨t, -, -, hother⟩ := hdecode "naïve".toUTF8.data.toList
  exact ⟨hs, (hload _ hs).1 _ (by simp [ofText, ofBytes]), t, hother ⟨_, rfl⟩⟩

end Canonmark.Source
