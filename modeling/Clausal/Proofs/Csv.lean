import Clausal.Csv

/-!
# Reading back what was written

A reader that takes up the written form of a field holds the field afterwards, and where it stands
depends on the form: behind the closing quote, in a field without quotes, or still at the start
(`Reader.foldl_writeField`).  From each of the three a comma ends the field and a line feed ends the
record.  What comes before the next field does not matter to any of this, so the fields of a record
and the records of a text are read back one after the other (`readAll_writeAll`).

There are two records that do not come back.  One without fields is written like one with a single
empty field.  One whose last field has no quotes and ends in a carriage return loses it, since a
carriage return before the line feed belongs to the end of the record.  `Readable` excludes both.
-/

namespace Clausal

namespace Csv

variable {field text : List Char} {fields : List (List Char)} {records : List (List (List Char))}

namespace Reader

variable {done : List (List Char)} {before : List (List (List Char))} {acc : List Char} {c : Char}

/-! ## One field -/

theorem readPlain_of_not_isSpecial {r : Reader} (h : isSpecial c = false) :
    r.readPlain c = r.push .plain c := by
  simp only [isSpecial, Bool.or_eq_false_iff, beq_eq_false_iff_ne] at h
  rw [readPlain, if_neg h.1.1, if_neg h.2]

/-- Characters that need no quotes are added to a field without quotes. -/
theorem foldl_plain (h : text.any isSpecial = false) :
    text.foldl read ⟨.plain, acc, done, before⟩ = ⟨.plain, text.reverse ++ acc, done, before⟩ := by
  induction text generalizing acc with
  | nil => rfl
  | cons c text ih =>
      simp only [List.any_cons, Bool.or_eq_false_iff] at h
      have hread : read ⟨.plain, acc, done, before⟩ c = ⟨.plain, c :: acc, done, before⟩ :=
        readPlain_of_not_isSpecial h.1
      rw [List.foldl_cons, hread, ih h.2, List.reverse_cons, List.append_assoc,
        List.singleton_append]

/-- A character is read back from its form between quotes. -/
theorem foldl_escape (c : Char) :
    (escape c).foldl read ⟨.quoted, acc, done, before⟩ = ⟨.quoted, c :: acc, done, before⟩ := by
  by_cases hc : c = '"'
  · subst hc
    rfl
  · simp [escape, read, push, hc]

theorem foldl_quoted :
    (text.flatMap escape).foldl read ⟨.quoted, acc, done, before⟩ =
      ⟨.quoted, text.reverse ++ acc, done, before⟩ := by
  induction text generalizing acc with
  | nil => rfl
  | cons c text ih =>
      rw [List.flatMap_cons, List.foldl_append, foldl_escape, ih, List.reverse_cons,
        List.append_assoc, List.singleton_append]

/-- Where a reader stands behind a field. -/
def positionBehind (field : List Char) : Position :=
  if field.any isSpecial then .closing else if field.isEmpty then .start else .plain

/-- A reader that takes up the written form of a field holds the field. -/
theorem foldl_writeField : (writeField field).foldl read ⟨.start, [], done, before⟩ =
    ⟨positionBehind field, field.reverse, done, before⟩ := by
  cases hs : field.any isSpecial with
  | true =>
      have hopen : read ⟨.start, [], done, before⟩ '"' = ⟨.quoted, [], done, before⟩ := rfl
      have hclose : ∀ acc, read ⟨.quoted, acc, done, before⟩ '"' =
          ⟨.closing, acc, done, before⟩ := fun _ => rfl
      rw [writeField, if_pos hs, List.cons_append, List.foldl_cons, hopen, List.foldl_append,
        foldl_quoted, List.append_nil, List.foldl_cons, hclose, List.foldl_nil, positionBehind,
        if_pos hs]
  | false =>
      rw [writeField, positionBehind, hs, if_neg Bool.false_ne_true, if_neg Bool.false_ne_true]
      cases field with
      | nil => rfl
      | cons c field =>
          simp only [List.any_cons, Bool.or_eq_false_iff] at hs
          have hc : c ≠ '"' := by
            rintro rfl
            exact absurd hs.1 (by decide)
          have hread : read ⟨.start, [], done, before⟩ c = ⟨.plain, [c], done, before⟩ :=
            (if_neg hc).trans (readPlain_of_not_isSpecial hs.1)
          rw [List.foldl_cons, hread, foldl_plain hs.2, List.reverse_cons]
          rfl

/-! ## One record -/

/-- Behind a field a comma or a line feed is read as outside of quotes. -/
theorem read_behind (hc : c ≠ '"') :
    read ⟨positionBehind field, acc, done, before⟩ c =
      readPlain ⟨positionBehind field, acc, done, before⟩ c := by
  unfold positionBehind
  split
  · exact if_neg hc
  · split
    · exact if_neg hc
    · rfl

theorem read_comma : read ⟨positionBehind field, field.reverse, done, before⟩ ',' =
    ⟨.start, [], field :: done, before⟩ := by
  rw [read_behind (by decide), readPlain, if_pos rfl, endField]
  simp

/-- A line feed takes nothing from a field that does not end in a carriage return. -/
theorem dropReturn_eq_self {position : Position} (h : field.getLast? ≠ some '\r') :
    dropReturn ⟨position, field.reverse, done, before⟩ =
      ⟨position, field.reverse, done, before⟩ := by
  unfold dropReturn
  split
  · next rest _ hfield =>
      have hreverse : field.reverse = '\r' :: rest := hfield
      rw [← List.head?_reverse, hreverse, List.head?_cons] at h
      exact absurd rfl h
  · rfl

theorem read_lineFeed (h : field.getLast? ≠ some '\r') :
    read ⟨positionBehind field, field.reverse, done, before⟩ '\n' =
      ⟨.start, [], [], (field :: done).reverse :: before⟩ := by
  rw [read_behind (by decide), readPlain, if_neg (by decide), if_pos rfl, dropReturn_eq_self h,
    endRecord, endField]
  simp

end Reader

/-- A record that can be read back: it has a last field, and that does not end in a carriage
return. -/
def Readable (fields : List (List Char)) : Prop :=
  ∃ last, fields.getLast? = some last ∧ last.getLast? ≠ some '\r'

theorem foldl_writeRecord (h : Readable fields) {done : List (List Char)}
    {before : List (List (List Char))} :
    (writeRecord fields).foldl Reader.read ⟨.start, [], done, before⟩ =
      ⟨.start, [], [], (done.reverse ++ fields) :: before⟩ := by
  rw [writeRecord]
  fun_induction writeFields fields generalizing done with
  | case1 =>
      obtain ⟨last, hlast, _⟩ := h
      cases hlast
  | case2 field =>
      obtain ⟨last, hlast, hreturn⟩ := h
      obtain rfl : field = last := by simpa using hlast
      rw [List.foldl_append, Reader.foldl_writeField, List.foldl_cons,
        Reader.read_lineFeed hreturn, List.foldl_nil, List.reverse_cons]
  | case3 field rest hrest ih =>
      have hreadable : Readable rest := by
        obtain ⟨last, hlast, hreturn⟩ := h
        rw [List.getLast?_cons_of_ne_nil hrest] at hlast
        exact ⟨last, hlast, hreturn⟩
      rw [List.append_assoc, List.foldl_append, Reader.foldl_writeField, List.cons_append,
        List.foldl_cons, Reader.read_comma, ih hreadable, List.reverse_cons, List.append_assoc,
        List.singleton_append]

/-! ## All records -/

theorem foldl_writeAll (h : ∀ fields ∈ records, Readable fields)
    (before : List (List (List Char))) :
    (writeAll records).foldl Reader.read ⟨.start, [], [], before⟩ =
      ⟨.start, [], [], records.reverse ++ before⟩ := by
  induction records generalizing before with
  | nil => rfl
  | cons fields records ih =>
      obtain ⟨hfields, hrecords⟩ := List.forall_mem_cons.mp h
      have hcons : writeAll (fields :: records) = writeRecord fields ++ writeAll records :=
        List.flatMap_cons
      rw [hcons, List.foldl_append, foldl_writeRecord hfields, ih hrecords, List.reverse_cons,
        List.append_assoc]
      rfl

/-- Readable records are read back from what is written, and the reader stands at the start of
another record then. -/
theorem readAll_writeAll (h : ∀ fields ∈ records, Readable fields) :
    readAll (writeAll records) = records ∧
      (writeAll records).foldl Reader.read {} = { records := records.reverse } := by
  have hread := foldl_writeAll h []
  rw [List.append_nil] at hread
  exact ⟨(congrArg (fun r : Reader => r.records.reverse) hread).trans (List.reverse_reverse _),
    hread⟩

end Csv

end Clausal
