import QueryForecast.Log.Backlog
import QueryForecast.Log.Reading
import QueryForecast.Proofs.Json.OneLine

/-!
# Written lines are read line by line

* `lineBreak_not_mem_bytesOf` — only a line break has the byte of one.
* `LogReading.readLine_toLine` — the line of a record is read as it was written.
* `LogReading.read_logBytes` — so is the log of any number of records.
* `LogReading.records_read_logBytes` — its usable records.
-/

namespace QueryForecast

open Json

/-! ## Bytes of a text -/

theorem toList_loop_eq (bytes : ByteArray) (n : Nat) :
    ∀ i done, bytes.size - i = n →
      ByteArray.toList.loop bytes i done = done.reverse ++ bytes.data.toList.drop i := by
  induction n with
  | zero =>
    intro i done hi
    have hl : bytes.data.toList.length ≤ i := by
      have hs : bytes.data.toList.length = bytes.size := rfl
      omega
    rw [ByteArray.toList.loop, if_neg (by omega), List.drop_eq_nil_of_le hl, List.append_nil]
  | succ n ih =>
    intro i done hi
    have hl : i < bytes.data.size := by
      have hs : bytes.data.size = bytes.size := rfl
      omega
    have hg : bytes.get! i = bytes.data[i] := getElem!_pos bytes.data i hl
    have hd : bytes.data.toList.drop i = bytes.data[i] :: bytes.data.toList.drop (i + 1) :=
      List.drop_eq_getElem_cons hl
    rw [ByteArray.toList.loop, if_pos (by omega), ih _ _ (by omega), hg, hd]
    simp

theorem bytesOf_eq_toList (s : String) : bytesOf s = s.toByteArray.data.toList := by
  show ByteArray.toList.loop s.toByteArray 0 [] = _
  rw [toList_loop_eq _ _ _ _ rfl]
  rfl

theorem bytesOf_eq_flatMap (s : String) : bytesOf s = s.toList.flatMap String.utf8EncodeChar := by
  rw [bytesOf_eq_toList, ← String.utf8Encode_toList, List.utf8Encode,
    List.toList_data_toByteArray]

theorem bytesOf_append (s t : String) : bytesOf (s ++ t) = bytesOf s ++ bytesOf t := by
  rw [bytesOf_eq_flatMap, bytesOf_eq_flatMap, bytesOf_eq_flatMap, String.toList_append,
    List.flatMap_append]

/-- Past ASCII every byte of a character is at least 128. -/
theorem lineBreak_not_mem_utf8EncodeChar {c : Char} (h : c ≠ '\n') :
    LogReading.lineBreak ∉ String.utf8EncodeChar c := by
  have hn : c.val.toNat ≠ 10 := by
    intro hc
    exact h (Char.toNat_inj.1 hc)
  have hb : ∀ n, n < 256 → n ≠ 10 → LogReading.lineBreak ≠ UInt8.ofNat n := by
    intro n hlt hne hc
    have ht := congrArg UInt8.toNat hc
    rw [UInt8.toNat_ofNat_of_lt' (by exact hlt)] at ht
    exact hne ht.symm
  unfold String.utf8EncodeChar
  dsimp only
  split
  · have h1 := hb c.val.toNat (by omega) hn
    simpa only [List.mem_singleton] using h1
  split
  · have h1 := hb (c.val.toNat / 64 % 0x20 + 0xc0) (by omega) (by omega)
    have h2 := hb (c.val.toNat % 0x40 + 0x80) (by omega) (by omega)
    simpa only [List.mem_cons, List.not_mem_nil, or_false, not_or] using ⟨h1, h2⟩
  split
  · have h1 := hb (c.val.toNat / 4096 % 0x10 + 0xe0) (by omega) (by omega)
    have h2 := hb (c.val.toNat / 64 % 0x40 + 0x80) (by omega) (by omega)
    have h3 := hb (c.val.toNat % 0x40 + 0x80) (by omega) (by omega)
    simpa only [List.mem_cons, List.not_mem_nil, or_false, not_or] using ⟨h1, h2, h3⟩
  · have h1 := hb (c.val.toNat / 262144 % 0x08 + 0xf0) (by omega) (by omega)
    have h2 := hb (c.val.toNat / 4096 % 0x40 + 0x80) (by omega) (by omega)
    have h3 := hb (c.val.toNat / 64 % 0x40 + 0x80) (by omega) (by omega)
    have h4 := hb (c.val.toNat % 0x40 + 0x80) (by omega) (by omega)
    simpa only [List.mem_cons, List.not_mem_nil, or_false, not_or] using ⟨h1, h2, h3, h4⟩

theorem lineBreak_not_mem_bytesOf {s : String} (h : '\n' ∉ s.toList) :
    LogReading.lineBreak ∉ bytesOf s := by
  rw [bytesOf_eq_flatMap]
  intro hm
  obtain ⟨c, hc, hb⟩ := List.mem_flatMap.1 hm
  have hne : c ≠ '\n' := by
    rintro rfl
    exact h hc
  exact lineBreak_not_mem_utf8EncodeChar hne hb

theorem fromUTF8?_bytesOf (s : String) : String.fromUTF8? ⟨(bytesOf s).toArray⟩ = some s := by
  have hb : (⟨(bytesOf s).toArray⟩ : ByteArray) = s.toByteArray := by
    rw [bytesOf_eq_toList]
  unfold String.fromUTF8?
  rw [hb, dif_pos s.isValidUTF8]
  rfl

/-! ## Lines -/

namespace LogReading

/-- A text without blanks at its ends is not trimmed. -/
theorem trim_eq_self {first last : Char} {cs : List Char} (hf : Text.isBlank first = false)
    (hl : Text.isBlank last = false) :
    Text.trim (first :: cs ++ [last]) = first :: cs ++ [last] := by
  have h1 : Text.trimStart (first :: cs ++ [last]) = first :: cs ++ [last] := by
    unfold Text.trimStart
    rw [List.cons_append, List.dropWhile_cons_of_neg (by simp [hf])]
  have h2 : Text.trimStart (first :: cs ++ [last]).reverse = (first :: cs ++ [last]).reverse := by
    unfold Text.trimStart
    rw [List.reverse_append, List.reverse_singleton, List.singleton_append,
      List.dropWhile_cons_of_neg (by simp [hl])]
  unfold Text.trim
  rw [h1, h2, List.reverse_reverse]

theorem exists_toLine_eq (r : ExecutionRecord) : ∃ cs, r.toLine.toList = '{' :: cs ++ ['}'] :=
  exists_compact_obj_eq _

theorem lineText?_toLine (r : ExecutionRecord) : lineText? (bytesOf r.toLine) = some r.toLine := by
  obtain ⟨cs, hcs⟩ := exists_toLine_eq r
  unfold lineText?
  rw [fromUTF8?_bytesOf, Option.map_some, hcs, trim_eq_self (by decide) (by decide), ← hcs,
    String.ofList_toList]

/-- What the line of a record comes to. -/
def reread (t : Target) (r : ExecutionRecord) : LineReading :=
  match ExecutionRecord.ofLine t r.toLine with
  | .ok record => .usable record
  | .error _ => .skipped

theorem readLine_toLine (t : Target) (r : ExecutionRecord) :
    readLine t (bytesOf r.toLine) = reread t r := by
  have he : r.toLine.isEmpty = false := by
    obtain ⟨cs, hcs⟩ := exists_toLine_eq r
    rw [← Bool.not_eq_true, String.isEmpty_iff, ← String.toList_eq_nil_iff, hcs]
    simp
  unfold readLine reread
  rw [lineText?_toLine]
  dsimp only
  refine (if_neg (by rw [he]; decide)).trans ?_
  cases ExecutionRecord.ofLine t r.toLine <;> rfl

theorem splitOn_line {line rest : List UInt8} (h : lineBreak ∉ line) :
    (line ++ lineBreak :: rest).splitOn lineBreak = line :: rest.splitOn lineBreak := by
  unfold List.splitOn
  induction line with
  | nil => rw [List.nil_append, List.splitOnP_cons_eq_if_modifyHead, if_pos (by simp)]
  | cons b line ih =>
    rw [List.mem_cons, not_or] at h
    have hb : ¬ (b == lineBreak) = true := fun hc => h.1 (beq_iff_eq.1 hc).symm
    rw [List.cons_append, List.splitOnP_cons_eq_if_modifyHead, if_neg hb, ih h.2]
    rfl

theorem logBytes_cons (r : ExecutionRecord) (records : List ExecutionRecord) :
    Backlog.logBytes (r :: records) =
      bytesOf r.toLine ++ lineBreak :: Backlog.logBytes records := by
  have hb : bytesOf "\n" = [lineBreak] := by
    rw [bytesOf_eq_flatMap]
    decide
  show bytesOf (r.toLine ++ "\n") ++ _ = _
  rw [bytesOf_append, hb, List.append_assoc]
  rfl

/-- **The log of some records is read record by record.** -/
theorem read_logBytes (t : Target) (records : List ExecutionRecord) :
    read t (Backlog.logBytes records) =
      records.foldr (fun r rest => add (reread t r) rest) {} := by
  unfold read
  induction records with
  | nil =>
    -- Behind the last line break there is an empty line.
    have hb : readLine t [] = .blank := by
      rw [show [] = bytesOf "" from (bytesOf_eq_flatMap "").symm]
      unfold readLine lineText?
      rw [fromUTF8?_bytesOf]
      rfl
    show add (readLine t []) {} = _
    rw [hb]
    rfl
  | cons r records ih =>
    have hl : lineBreak ∉ bytesOf r.toLine :=
      lineBreak_not_mem_bytesOf (newline_not_mem_compact r.toJson)
    rw [logBytes_cons, splitOn_line hl, List.foldr_cons, ih, readLine_toLine, List.foldr_cons]

/-- What is read from the log of some records are those whose lines are usable. -/
theorem records_read_logBytes (t : Target) (records : List ExecutionRecord) :
    (read t (Backlog.logBytes records)).records =
      records.filterMap fun r => (ExecutionRecord.ofLine t r.toLine).toOption := by
  rw [read_logBytes]
  induction records with
  | nil => rfl
  | cons r records ih =>
    unfold reread at ih ⊢
    rw [List.foldr_cons]
    cases hline : ExecutionRecord.ofLine t r.toLine with
    | ok record =>
      rw [List.filterMap_cons_some (by rw [hline]; rfl), ← ih]
      rfl
    | error fault =>
      rw [List.filterMap_cons_none (by rw [hline]; rfl), ← ih]
      rfl

end LogReading

end QueryForecast
