/-
# The two forms of a catalog

A catalog is a text of lines with a record on each, or one text with an array of records.  Where the lines hold the objects
of the array, both are read alike: with the same records, or with a fault in one of them (`readFiles_forms`).

| | a line | an item of the array |
| --- | --- | --- |
| is read | as a record, straight from the text | as a value, and then as a record |
| members | in the order of the text | in the order of the names |
| the reserved name in front of an object | is one like any other | stands for an embedded value |

The first two differences make none for the records, as long as no name is given to two members.  The third one does
(`readFiles_forms_reserved`).
-/

import Suggest.Catalog.Files
import Suggest.Proofs.Json.Members
import Suggest.Proofs.Json.OneLine
import Suggest.Proofs.Text.Lines

namespace Suggest

namespace Json

variable {v : Value}

/-- Whether glyphs are a text of the value.  Blanks between its parts make no difference, nor do escapes in its strings. -/
def Value.SpelledBy (v : Value) (gs : List Text.Glyph) : Prop := Document.scan gs = ⟨v.written, none⟩

/-- **A written value is a text of it.** -/
theorem Value.spelledBy_write (v : Value) : v.SpelledBy (v.write.map .char) := (spells_write v).scan

theorem ofText_of_spelledBy {α : Type} {text : String} (h : v.SpelledBy (Text.glyphsOf text)) (reader : Reader α) :
    reader.ofText text = reader .text v.written := by
  rw [Reader.ofText, h, Document.read]
  cases reader .text v.written <;> rfl

/-- How deep the containers of an item may be nested, if the array is the root of a text. -/
def itemDepth : Nat := Document.maxDepth - 1

theorem ofBytes_of_spelledBy_array {items : List Value} {content : Bytes}
    (h : (Value.array items).SpelledBy (Text.glyphs content)) :
    Value.ofBytes content = Except.map .array
      (items.mapM fun v => v.written.value (.nested (Text.glyphs content).length itemDepth)) := by
  have hread : Value.ofBytes content =
      (Value.array items).written.value (.nested (Text.glyphs content).length Document.maxDepth) := by
    rw [Value.ofBytes, Value.ofGlyphs, Value.ofNested, h]
    exact bind_pure _
  have hinside : (Reading.nested (Text.glyphs content).length Document.maxDepth).inside =
      .ok (.nested (Text.glyphs content).length itemDepth) := rfl
  rw [hread, Value.written, writtenItems_eq_map, value_array hinside, List.mapM_map]
  rfl

end Json

namespace Catalog

open Json

/-- Items and parts are read alike whatever order their members are in. -/
theorem Record.unordered_readerOf : Tagged.Unordered Record.readerOf := by
  intro kind ms ns a hperm h
  cases kind with
  | item | part =>
    obtain ⟨record, hrecord, rfl⟩ := map_eq_ok.1 h
    exact map_eq_ok.2 ⟨record, Fields.read_object_perm hperm hrecord, rfl⟩

/-- Whether a content has a line for each of the objects, in their order, blank lines apart. -/
def HoldsLines (objects : List (List (String × Value))) (content : Bytes) : Prop :=
  ∃ lines : List String, Text.lines content = lines.map Text.bytes ∧
    List.Forall₂ (fun o line => (Value.object o).SpelledBy (Text.glyphsOf line)) objects
      (lines.filter fun line => !(Text.trim line).isEmpty)

/-- Whether a content is a text of the array of the objects. -/
def HoldsArray (objects : List (List (String × Value))) (content : Bytes) : Prop :=
  (Value.array (objects.map .object)).SpelledBy (Text.glyphs content)

theorem holdsArray_write (objects : List (List (String × Value))) :
    HoldsArray objects (Text.bytes (Json.text (Value.array (objects.map .object)).write)) := by
  rw [HoldsArray, Text.glyphs_bytes, Text.glyphsOf, Json.text, String.toList_ofList]
  exact Value.spelledBy_write _

/-- **Written objects, each on a line of its own with blank lines in between, are such lines.** -/
theorem holdsLines_unlines {objects : List (List (String × Value))} {lines : List String}
    (hlines : (lines.filter fun line => !(Text.trim line).isEmpty) = objects.map fun o => Json.text (Value.object o).write)
    (hblank : ∀ line ∈ lines, (Text.trim line).isEmpty = true → '\n' ∉ line.toList ∧ line.toList.getLast? ≠ some '\r') :
    HoldsLines objects (Text.bytes (Text.unlines lines)) := by
  refine ⟨lines, Text.lines_unlines fun line hline => ?_, ?_⟩
  · cases hempty : (Text.trim line).isEmpty with
    | true => exact hblank line hline hempty
    | false =>
      have hmem : line ∈ objects.map fun o => Json.text (Value.object o).write := by
        rw [← hlines]
        exact List.mem_filter.2 ⟨hline, by simp [hempty]⟩
      obtain ⟨o, -, rfl⟩ := List.mem_map.1 hmem
      rw [Json.text, String.toList_ofList]
      refine ⟨lineFeed_notMem_write _, ?_⟩
      have hlast : (Value.object o).write.getLast? = some '}' := List.getLast?_concat (l := '{' :: _)
      simp [hlast]
  · rw [hlines, List.forall₂_map_right_iff, List.forall₂_same]
    intro o _
    rw [Text.glyphsOf, Json.text, String.toList_ofList]
    exact Value.spelledBy_write _

theorem readLine_bytes (path line : String) :
    readLine path (Text.bytes line) = if (Text.trim line).isEmpty then .ok []
      else ((Record.reader.ofText line).map ([·])).mapError (.record path) := by
  rw [readLine, Text.text?_bytes]

/-- **A file of lines has the records of the lines that are not blank,** or else one of them is none. -/
theorem readFile_lines {path name : String} {content : Bytes} {lines : List String} (hform : isLines name = true)
    (hlines : Text.lines content = lines.map Text.bytes) :
    readFile path name content = ((lines.filter fun line => !(Text.trim line).isEmpty).mapM
      Record.reader.ofText).mapError (.record path) := by
  rw [readFile, if_pos hform, hlines]
  clear hlines
  induction lines with
  | nil => rfl
  | cons line rest ih =>
    rw [List.map_cons, List.mapM_cons, readLine_bytes, List.filter_cons]
    cases (Text.trim line).isEmpty with
    | true =>
      simp only [Bool.not_true, Bool.false_eq_true, if_true, if_false, ← ih]
      cases (rest.map Text.bytes).mapM (readLine path) <;> rfl
    | false =>
      simp only [Bool.not_false, Bool.false_eq_true, if_true, if_false, List.mapM_cons]
      cases Record.reader.ofText line with
      | error fault => rfl
      | ok record =>
        revert ih
        cases (rest.map Text.bytes).mapM (readLine path) <;>
          cases (rest.filter fun line => !(Text.trim line).isEmpty).mapM Record.reader.ofText <;>
          simp +contextual [Except.map, Except.mapError, bind, Except.bind, pure, Except.pure]

/-- **An array has the records of the values of its items,** or else one of them is none. -/
theorem readFile_array_eq_ok {path name : String} {content : Bytes} {objects : List (List (String × Value))}
    {records : List Record} (hform : isLines name = false) (hcontent : HoldsArray objects content) :
    readFile path name content = .ok records ↔ List.Forall₂ (fun o record => ∃ v,
      (Value.object o).written.value (.nested (Text.glyphs content).length itemDepth) = .ok v ∧
        Record.reader.ofValue v = .ok record) objects records := by
  rw [readFile, hform, if_neg Bool.false_ne_true, ofBytes_of_spelledBy_array hcontent, List.mapM_map, ← forall₂_exists_iff]
  simp only [bind_eq_ok, mapError_eq_ok, map_eq_ok, ← mapM_eq_ok_iff]
  constructor
  · rintro ⟨_, ⟨vs, hvs, rfl⟩, h⟩
    exact ⟨vs, hvs, mapError_eq_ok.1 h⟩
  · rintro ⟨vs, hvs, h⟩
    exact ⟨_, ⟨vs, hvs, rfl⟩, mapError_eq_ok.2 h⟩

theorem exists_fault_of_mapError {α : Type} {path : String} {x : Except Fault α} {f : Failure}
    (h : x.mapError (.record path) = .error f) : ∃ fault, f = .record path fault := by
  cases x with
  | error fault => exact ⟨fault, (Except.error.inj h).symm⟩
  | ok a => cases h

/-- One text that has no records has a fault. -/
theorem exists_fault_of_readFile {path name : String} {content : Bytes} {f : Failure} (hform : isLines name = false)
    (h : readFile path name content = .error f) : ∃ fault, f = .record path fault := by
  rw [readFile, hform, if_neg Bool.false_ne_true, bind_eq_error] at h
  rcases h with h | ⟨v, -, h⟩
  · exact exists_fault_of_mapError h
  · cases v with
    | array | object => exact exists_fault_of_mapError h
    | null | bool | number | string => cases h

theorem readFiles_of_single {tree : FileTree} {root : String} {file : File} (h : files tree root = .ok [file]) :
    readFiles tree root = (readFile file.path file.name file.content).map (Records.addAll {}) := by
  rw [readFiles, h]
  simp only [bind, Except.bind, List.mapM_cons, List.mapM_nil, pure, Except.pure, Except.map]
  cases readFile file.path file.name file.content <;> simp

section Forms

variable {objects : List (List (String × Value))} {records : List Record}

/-- Lines of objects have the records that are read straight from the objects, or else one of them is none. -/
theorem readFile_lines_eq_ok {path name : String} {content : Bytes} (hform : isLines name = true)
    (hcontent : HoldsLines objects content) :
    readFile path name content = .ok records ↔
      List.Forall₂ (fun o record => Record.reader .text (Value.object o).written = .ok record) objects records := by
  obtain ⟨lines, hlines, hspelled⟩ := hcontent
  rw [readFile_lines hform hlines, mapError_eq_ok, ← mapM_eq_ok_iff]
  generalize lines.filter (fun line => !(Text.trim line).isEmpty) = texts at hspelled
  have hread : texts.mapM Record.reader.ofText = objects.mapM fun o => Record.reader .text (Value.object o).written := by
    induction hspelled with
    | nil => rfl
    | cons hline _ ih => rw [List.mapM_cons, List.mapM_cons, ih, ofText_of_spelledBy hline]
  rw [hread]

/-- **An object is read alike as a line and as an item of an array.** -/
theorem reader_written_iff {o : List (String × Value)} (hnames : (o.map Prod.fst).Nodup)
    (hdepth : (Value.object o).depth ≤ itemDepth) (hembeds : ¬(Value.object o).Embeds) {documents : Nat} {record : Record} :
    Record.reader .text (Value.object o).written = .ok record ↔ ∃ v,
      (Value.object o).written.value (.nested documents itemDepth) = .ok v ∧ Record.reader.ofValue v = .ok record := by
  have hroom : Reading.text.Allows (Value.object o).depth := by
    rintro _ ⟨⟩
    exact Nat.le_trans hdepth (by decide)
  exact Tagged.read_written_iff hnames hembeds hroom hdepth Record.unordered_readerOf

/-- **Both forms of a catalog are read alike.**  Where one file holds objects on lines, with blank lines anywhere, and another
one the array of the same objects, both catalogs have the same records, or there is a fault in a record of each.  This is so
for objects that give no name to two members, that are not nested too deep, and in which nothing is embedded. -/
theorem readFiles_forms (hnames : ∀ o ∈ objects, (o.map Prod.fst).Nodup)
    (hdepth : ∀ o ∈ objects, (Value.object o).depth ≤ itemDepth) (hembeds : ∀ o ∈ objects, ¬(Value.object o).Embeds)
    {tree other : FileTree} {root root' : String} {lines array : File}
    (hlines : files tree root = .ok [lines]) (hform : isLines lines.name = true) (hholds : HoldsLines objects lines.content)
    (harray : files other root' = .ok [array]) (hform' : isLines array.name = false)
    (hholds' : HoldsArray objects array.content) :
    (∃ rs, readFiles tree root = .ok rs ∧ readFiles other root' = .ok rs) ∨
      ∃ fault fault', readFiles tree root = .error (.record lines.path fault) ∧
        readFiles other root' = .error (.record array.path fault') := by
  have hiff {records : List Record} : readFile lines.path lines.name lines.content = .ok records ↔
      readFile array.path array.name array.content = .ok records := by
    have halike (o : List (String × Value)) (ho : o ∈ objects) {record : Record} :
        Record.reader .text (Value.object o).written = .ok record ↔ ∃ v,
          (Value.object o).written.value (.nested (Text.glyphs array.content).length itemDepth) = .ok v ∧
            Record.reader.ofValue v = .ok record :=
      reader_written_iff (hnames o ho) (hdepth o ho) (hembeds o ho)
    rw [readFile_lines_eq_ok hform hholds, readFile_array_eq_ok hform' hholds']
    exact ⟨fun h => ((List.forall₂_and_left _ _).2 ⟨fun o ho => ho, h⟩).imp fun o _ ⟨ho, h⟩ => (halike o ho).1 h,
      fun h => ((List.forall₂_and_left _ _).2 ⟨fun o ho => ho, h⟩).imp fun o _ ⟨ho, h⟩ => (halike o ho).2 h⟩
  rw [readFiles_of_single hlines, readFiles_of_single harray]
  cases hread : readFile lines.path lines.name lines.content with
  | ok records => exact .inl ⟨_, rfl, by rw [hiff.1 hread]; rfl⟩
  | error f =>
    cases hread' : readFile array.path array.name array.content with
    | ok records =>
      rw [hiff.2 hread'] at hread
      cases hread
    | error f' =>
      obtain ⟨texts, htexts, -⟩ := hholds
      rw [readFile_lines hform htexts] at hread
      obtain ⟨fault, rfl⟩ := exists_fault_of_mapError hread
      obtain ⟨fault', rfl⟩ := exists_fault_of_readFile hform' hread'
      exact .inr ⟨fault, fault', rfl, rfl⟩

end Forms

/-- A catalog that is one file. -/
def oneFile (name content : String) : FileTree := FileTree.write {} [name] (Text.bytes content)

theorem files_oneFile {name content : String} (h : (oneFile name content).walk name = .ok [name]) :
    files (oneFile name content) name = .ok [⟨name, name, Text.bytes content⟩] := by
  have hcontent : (oneFile name content).content? [name] = some (Text.bytes content) := by
    simp [oneFile, FileTree.write, FileTree.content?, SortedMap.insert]
  rw [files, h]
  simp only [hcontent]
  rfl

/-- The lines of objects, with blank ones in front and in between. -/
def writtenLines (objects : List (List (String × Value))) : List String :=
  objects.flatMap fun o => [" ", Json.text (Value.object o).write]

/-- The text of the array of objects. -/
def writtenArray (objects : List (List (String × Value))) : String := Json.text (Value.array (objects.map .object)).write

/-- An item, and a part with its members in another order than that of their names. -/
def itemAndPart : List (List (String × Value)) :=
  [[("kind", .string "item"), ("id", .string "1"), ("name", .string "Ab"), ("x", .array [.object [("y", .null)]])],
    [("parent_id", .string "1"), ("kind", .string "part"), ("id", .string "2")]]

theorem readFiles_forms_itemAndPart :
    readFiles (oneFile "a.jsonl" (Text.unlines (writtenLines itemAndPart))) "a.jsonl" =
      .ok { items := [{ id := "1", name := "Ab" }], parts := [{ id := "2", parentId := "1" }] } ∧
    readFiles (oneFile "a.json" (writtenArray itemAndPart)) "a.json" =
      .ok { items := [{ id := "1", name := "Ab" }], parts := [{ id := "2", parentId := "1" }] } := by
  have hlines : HoldsLines itemAndPart (Text.bytes (Text.unlines (writtenLines itemAndPart))) :=
    holdsLines_unlines (by decide +kernel) (by decide +kernel)
  have hread : readFiles (oneFile "a.jsonl" (Text.unlines (writtenLines itemAndPart))) "a.jsonl" =
      .ok { items := [{ id := "1", name := "Ab" }], parts := [{ id := "2", parentId := "1" }] } := by decide +kernel
  have hfile : files (oneFile "a.jsonl" (Text.unlines (writtenLines itemAndPart))) "a.jsonl" = _ :=
    files_oneFile (by decide +kernel)
  have hfile' : files (oneFile "a.json" (writtenArray itemAndPart)) "a.json" = _ := files_oneFile (by decide +kernel)
  have harray : HoldsArray itemAndPart (Text.bytes (writtenArray itemAndPart)) := holdsArray_write itemAndPart
  have hnames : ∀ o ∈ itemAndPart, (o.map Prod.fst).Nodup := by decide +kernel
  have halike := readFiles_forms hnames (by decide +kernel) (by decide +kernel) hfile (by decide +kernel) hlines hfile'
    (by decide +kernel) harray
  rw [hread] at halike
  rcases halike with ⟨rs, hrs, hrs'⟩ | ⟨fault, _, hfault, -⟩
  · cases hrs
    exact ⟨hread, hrs'⟩
  · cases hfault

/-- An item with an object under a name that means nothing, which has the reserved name in front. -/
def itemWithReserved : List (String × Value) :=
  [("kind", .string "item"), ("id", .string "1"), ("name", .string "ab"), ("x", .object [(embeddedName, .string "no")])]

/-- **With the reserved name in front of an object the forms differ:** an item is on the line, and a fault is in the array. -/
theorem readFiles_forms_reserved :
    (∀ members ∈ (Value.object itemWithReserved).objects, (members.map Prod.fst).Nodup) ∧
    (Value.object itemWithReserved).depth ≤ 100 ∧
    HoldsLines [itemWithReserved] (Text.bytes (Text.unlines (writtenLines [itemWithReserved]))) ∧
    HoldsArray [itemWithReserved] (Text.bytes (writtenArray [itemWithReserved])) ∧
    readFiles (oneFile "a.jsonl" (Text.unlines (writtenLines [itemWithReserved]))) "a.jsonl" =
      .ok { items := [{ id := "1", name := "ab" }] } ∧
    readFiles (oneFile "a.json" (writtenArray [itemWithReserved])) "a.json" = .error (.record "a.json" .mismatched) :=
  ⟨by decide +kernel, by decide +kernel, holdsLines_unlines (by decide +kernel) (by decide +kernel), holdsArray_write _,
    by decide +kernel, by decide +kernel⟩
end Catalog
end Suggest
