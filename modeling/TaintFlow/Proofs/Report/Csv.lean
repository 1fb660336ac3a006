import Mathlib.Data.List.Nodup
import TaintFlow.Proofs.Pointwise
import TaintFlow.Report.Csv

/-!
# Reading tables back

A reader of comma-separated values goes over a text character by character.  Quotes around a field
take away the meaning of commas and line breaks, two quotes in such a field stand for one, and
carriage returns and line feeds end a row.

* `CsvReader.step` is one step of the reader, `readCsv` its run over a text,
* `run_csvField`, `run_csvRow` and `run_csvTable` say what it makes of what is written,
* `RowShows` says, column by column, what a row tells of a finding,
* `findings_are_read_back` says that the table of a result is read back as it was.
-/

namespace TaintFlow.Report

/-! ### The reader -/

/-- Where a reader stands. -/
inductive CsvPlace where
  /-- Before a row. -/
  | record
  /-- Before a field. -/
  | field
  /-- In a field without quotes. -/
  | plain
  /-- Between quotes. -/
  | quoted
  /-- After a quote that closes a field or is the first of two. -/
  | quote
  /-- After a row. -/
  | lineEnd

/-- What a reader has read: finished rows, the fields of a row and the characters of a field. -/
structure CsvReader where
  place : CsvPlace := .record
  field : List Char := []
  row : List String := []
  rows : List (List String) := []

/-- Whether a character ends a row that it is not quoted in. -/
def isLineBreak (c : Char) : Bool :=
  c == '\r' || c == '\n'

namespace CsvReader

/-- One more character of a field. -/
def add (t : CsvReader) (place : CsvPlace) (c : Char) : CsvReader :=
  { t with place, field := t.field ++ [c] }

/-- The end of a field. -/
def endField (t : CsvReader) (place : CsvPlace) : CsvReader :=
  { t with place, field := [], row := t.row ++ [String.ofList t.field] }

/-- The end of a row. -/
def endRow (t : CsvReader) : CsvReader :=
  { rows := t.rows ++ [t.row] }

/-- A character where no quotes are open. -/
def unquoted (t : CsvReader) (c : Char) : CsvReader :=
  if isLineBreak c then t.endField .lineEnd
  else if c == ',' then t.endField .field
  else t.add .plain c

/-- A character at the start of a field. -/
def opening (t : CsvReader) (c : Char) : CsvReader :=
  if c == '"' then { t with place := .quoted } else t.unquoted c

/-- Reads a character.  After a row there may only be line breaks until the line ends. -/
def read (t : CsvReader) (c : Char) : Option CsvReader :=
  match t.place with
  | .record => some (if isLineBreak c then { t with place := .lineEnd } else t.opening c)
  | .field => some (t.opening c)
  | .plain => some (t.unquoted c)
  | .quoted => some (if c == '"' then { t with place := .quote } else t.add .quoted c)
  | .quote => some (if c == '"' then t.add .quoted c else t.unquoted c)
  | .lineEnd => if isLineBreak c then some t else none

/-- The end of a line, which is the end of a row if no quotes are open. -/
def endLine (t : CsvReader) : CsvReader :=
  match t.place with
  | .record | .quoted => t
  | .lineEnd => t.endRow
  | _ => (t.endField .lineEnd).endRow

/-- Reads a character, with the end of a line after a line feed. -/
def step (t : CsvReader) (c : Char) : Option CsvReader :=
  (t.read c).map fun t => if c == '\n' then t.endLine else t

/-- The rows at the end of a text, which also ends quotes that are open. -/
def finish (t : CsvReader) : List (List String) :=
  match t.place with
  | .quoted => (t.endField .lineEnd).endRow.rows
  | _ => t.endLine.rows

/-- Reads characters. -/
def run (t : CsvReader) (cs : List Char) : Option CsvReader :=
  cs.foldlM step t

@[simp] theorem run_nil (t : CsvReader) : t.run [] = some t :=
  rfl

@[simp] theorem run_cons (t : CsvReader) (c : Char) (cs : List Char) :
    t.run (c :: cs) = (t.step c).bind (·.run cs) :=
  rfl

theorem run_append (t : CsvReader) (cs ds : List Char) :
    t.run (cs ++ ds) = (t.run cs).bind (·.run ds) :=
  List.foldlM_append

end CsvReader

/-- The rows of a text of comma-separated values, if it is one. -/
def readCsv (text : String) : Option (List (List String)) :=
  (CsvReader.run {} text.toList).map CsvReader.finish

namespace CsvReader

/-! ### Fields -/

theorem isLineBreak_of_needsQuotes {c : Char} (h : needsQuotes c = false) :
    isLineBreak c = false ∧ (c == ',') = false ∧ (c == '"') = false := by
  simp only [needsQuotes, Bool.or_eq_false_iff] at h
  simp [isLineBreak, h]

theorem run_plain {cs : List Char} (h : ∀ c ∈ cs, needsQuotes c = false) (read : List Char)
    (row : List String) (rows : List (List String)) :
    run ⟨.plain, read, row, rows⟩ cs = some ⟨.plain, read ++ cs, row, rows⟩ := by
  induction cs generalizing read with
  | nil => simp
  | cons c cs ih =>
    obtain ⟨hbreak, hcomma, -⟩ := isLineBreak_of_needsQuotes (h c List.mem_cons_self)
    have hline : (c == '\n') = false := (Bool.or_eq_false_iff.1 hbreak).2
    have hstep : step ⟨.plain, read, row, rows⟩ c = some ⟨.plain, read ++ [c], row, rows⟩ := by
      simp [step, CsvReader.read, unquoted, add, hbreak, hcomma, hline]
    rw [run_cons, hstep, Option.bind_some, ih fun d hd => h d (List.mem_cons_of_mem c hd)]
    simp

/-- Between quotes, doubled quotes are read as single ones and all else as it is. -/
theorem run_doubleQuotes (cs read : List Char) (row : List String) (rows : List (List String)) :
    run ⟨.quoted, read, row, rows⟩ (doubleQuotes cs) =
      some ⟨.quoted, read ++ cs, row, rows⟩ := by
  induction cs generalizing read with
  | nil => simp [doubleQuotes]
  | cons c cs ih =>
    rw [doubleQuotes]
    split
    · rename_i hquote
      rw [beq_iff_eq.1 hquote]
      have hsteps : ∀ ds, run ⟨.quoted, read, row, rows⟩ ('"' :: '"' :: ds) =
          run ⟨.quoted, read ++ ['"'], row, rows⟩ ds := fun _ => rfl
      rw [hsteps, ih]
      simp
    · rename_i hquote
      have hstep : step ⟨.quoted, read, row, rows⟩ c =
          some ⟨.quoted, read ++ [c], row, rows⟩ := by
        simp [step, CsvReader.read, add, endLine, hquote]
      rw [run_cons, hstep, Option.bind_some, ih]
      simp

/-- Where a reader stands after a field. -/
def placeAfter (text : String) : CsvPlace :=
  if text.toList.any needsQuotes then .quote else if text.toList.isEmpty then .field else .plain

theorem run_csvField (text : String) (row : List String) (rows : List (List String)) :
    run ⟨.field, [], row, rows⟩ (csvField text).toList =
      some ⟨placeAfter text, text.toList, row, rows⟩ := by
  unfold csvField placeAfter
  split
  · simp only [String.toList_append, String.toList_ofList]
    have hopen : ∀ cs, run ⟨.field, [], row, rows⟩ ("\"".toList ++ cs) =
        run ⟨.quoted, [], row, rows⟩ cs := fun _ => rfl
    rw [List.append_assoc, hopen, run_append, run_doubleQuotes]
    rfl
  · rename_i hplain
    cases hcs : text.toList with
    | nil => rfl
    | cons c cs =>
      have hneeds : ∀ d ∈ c :: cs, needsQuotes d = false := by
        simpa [hcs] using hplain
      obtain ⟨hbreak, hcomma, hquote⟩ := isLineBreak_of_needsQuotes (hneeds c List.mem_cons_self)
      have hline : (c == '\n') = false := (Bool.or_eq_false_iff.1 hbreak).2
      have hstep : step ⟨.field, [], row, rows⟩ c = some ⟨.plain, [c], row, rows⟩ := by
        simp [step, read, opening, unquoted, add, hbreak, hcomma, hquote, hline]
      rw [run_cons, hstep, Option.bind_some,
        run_plain fun d hd => hneeds d (List.mem_cons_of_mem c hd)]
      rfl

/-- A comma or line break after a field ends it. -/
theorem read_after (text : String) {c : Char} (hc : (c == '"') = false) (row : List String)
    (rows : List (List String)) :
    read ⟨placeAfter text, text.toList, row, rows⟩ c =
      some (unquoted ⟨placeAfter text, text.toList, row, rows⟩ c) := by
  unfold placeAfter
  split
  · simp [read, hc]
  · split <;> simp [read, opening, hc]

theorem step_comma (text : String) (row : List String) (rows : List (List String)) :
    step ⟨placeAfter text, text.toList, row, rows⟩ ',' =
      some ⟨.field, [], row ++ [text], rows⟩ := by
  rw [step, read_after text rfl]
  simp [unquoted, isLineBreak, endField]

theorem run_lineBreak (text : String) (row : List String) (rows : List (List String)) :
    run ⟨placeAfter text, text.toList, row, rows⟩ ['\r', '\n'] =
      some ⟨.record, [], [], rows ++ [row ++ [text]]⟩ := by
  rw [run_cons, step, read_after text rfl]
  simp [unquoted, isLineBreak, endField, step, read, endLine, endRow]

/-! ### Rows -/

theorem toList_csvRow_singleton (text : String) :
    (csvRow [text]).toList = (csvField text).toList ++ ['\r', '\n'] := by
  simp [csvRow]

theorem toList_csvRow_cons_cons (text next : String) (fields : List String) :
    (csvRow (text :: next :: fields)).toList =
      (csvField text).toList ++ ',' :: (csvRow (next :: fields)).toList := by
  simp [csvRow, String.toList_intercalate]

theorem run_fields {fields : List String} (h : fields ≠ []) (row : List String)
    (rows : List (List String)) :
    run ⟨.field, [], row, rows⟩ (csvRow fields).toList =
      some ⟨.record, [], [], rows ++ [row ++ fields]⟩ := by
  induction fields generalizing row with
  | nil => exact absurd rfl h
  | cons text fields ih =>
    cases fields with
    | nil =>
      rw [toList_csvRow_singleton, run_append, run_csvField]
      exact run_lineBreak text row rows
    | cons next fields =>
      have hnext := ih (List.cons_ne_nil _ _) (row ++ [text])
      rw [toList_csvRow_cons_cons, run_append, run_csvField, Option.bind_some, run_cons,
        step_comma, Option.bind_some, hnext, List.append_assoc, List.singleton_append]

/-- A row does not start with a line break, unless it is a single field without text. -/
theorem isLineBreak_head {text next : String} {fields : List String} {c : Char}
    (hc : c ∈ (csvRow (text :: next :: fields)).toList.head?) : isLineBreak c = false := by
  rw [toList_csvRow_cons_cons, List.head?_append, csvField] at hc
  split at hc
  · simp only [String.toList_append] at hc
    rw [← Option.mem_some.1 hc]
    rfl
  · rename_i hplain
    cases hcs : text.toList with
    | nil =>
      rw [hcs] at hc
      rw [← Option.mem_some.1 hc]
      rfl
    | cons d cs =>
      rw [hcs] at hc hplain
      rw [← Option.mem_some.1 hc]
      have hneeds : needsQuotes d = false := by
        simp_all
      exact (isLineBreak_of_needsQuotes hneeds).1

/-- What is written of a row with at least two fields is read as this row. -/
theorem run_csvRow {fields : List String} (h : 2 ≤ fields.length) (rows : List (List String)) :
    run ⟨.record, [], [], rows⟩ (csvRow fields).toList =
      some ⟨.record, [], [], rows ++ [fields]⟩ := by
  cases fields with
  | nil => simp at h
  | cons text fields =>
    cases fields with
    | nil => simp at h
    | cons next fields =>
      have hfields := run_fields (List.cons_ne_nil text (next :: fields)) [] rows
      cases hcs : (csvRow (text :: next :: fields)).toList with
      | nil => simp [toList_csvRow_cons_cons] at hcs
      | cons c cs =>
        have hbreak : isLineBreak c = false := isLineBreak_head (by rw [hcs]; exact rfl)
        have hstart : step ⟨.record, [], [], rows⟩ c = step ⟨.field, [], [], rows⟩ c := by
          simp [step, read, hbreak, opening, unquoted, add, endField]
        rw [hcs] at hfields
        rw [run_cons, hstart]
        exact hfields

theorem run_csvTable {table : List (List String)} (h : ∀ row ∈ table, 2 ≤ row.length)
    (rows : List (List String)) :
    run ⟨.record, [], [], rows⟩ (String.join (table.map csvRow)).toList =
      some ⟨.record, [], [], rows ++ table⟩ := by
  induction table generalizing rows with
  | nil => simp
  | cons row table ih =>
    have hjoin : (String.join ((row :: table).map csvRow)).toList =
        (csvRow row).toList ++ (String.join (table.map csvRow)).toList := by
      simp [String.toList_join]
    rw [hjoin, run_append, run_csvRow (h row List.mem_cons_self), Option.bind_some,
      ih fun r hr => h r (List.mem_cons_of_mem row hr), List.append_assoc, List.singleton_append]

end CsvReader

/-! ### Findings -/

/-- The field of a row in the column of a name. -/
def fieldIn (header row : List String) (column : String) : Option String :=
  (header.zip row).lookup column

/-- A row shows a finding with its number: each column has a field, and it holds the value of the
finding as text, which is empty for a value that is not there. -/
structure RowShows (header row : List String) (f : Finding) (number : Nat) : Prop where
  width : row.length = header.length
  /-- A letter and the number, in at least four digits. -/
  findingId : ∃ digits, fieldIn header row "finding_id" = some ("F" ++ digits) ∧
    4 ≤ digits.length ∧ Nat.ofDigitChars 10 digits.toList 0 = number
  ruleId : fieldIn header row "rule_id" = some f.vulnerability.ruleId
  ruleName : fieldIn header row "rule_name" = some f.vulnerability.displayName
  severity : fieldIn header row "severity" = some f.severity.toText
  confidence : fieldIn header row "confidence" = some f.confidence.toText
  kind : fieldIn header row "kind" = some f.kind.toText
  file : fieldIn header row "file_path" = some f.location.file
  line : fieldIn header row "line_number" = some (toString f.location.line)
  parameter : fieldIn header row "parameter_index" =
    some (match f.parameter with | some index => toString index | none => "")
  cwe : fieldIn header row "cwe" = some f.vulnerability.cwe
  message : fieldIn header row "message" = some f.message
  snippet : fieldIn header row "snippet" =
    some (match f.location.snippet with | some text => text | none => "")
  pathCount : fieldIn header row "path_count" = some (toString f.paths.length)

theorem rowShows_csvFields (f : Finding) (n : Nat) : RowShows csvColumns (csvFields n f) f n := by
  have hdigits : 4 ≤ (String.ofList (List.replicate (4 - (toString n).length) '0') ++
      toString n).length := by
    simp only [String.length_append, String.length_ofList, List.length_replicate]
    omega
  constructor
  case findingId =>
    refine ⟨_, ?_, hdigits, by simp [Nat.ofDigitChars_append]⟩
    exact congrArg some (String.append_assoc ..)
  case parameter =>
    have htext : (f.parameter.map toString).getD "" =
        match f.parameter with | some index => toString index | none => "" := by
      cases f.parameter <;> rfl
    exact congrArg some htext
  case snippet =>
    have htext : f.location.snippet.getD "" =
        match f.location.snippet with | some text => text | none => "" := by
      cases f.location.snippet <;> rfl
    exact congrArg some htext
  all_goals rfl

theorem rowsShow_csvRows (n : Nat) (findings : List Finding) :
    List.Forall₂ (fun x row => RowShows csvColumns row x.1 x.2) (findings.zipIdx n)
      (csvRows n findings) := by
  induction findings generalizing n with
  | nil => exact .nil
  | cons f findings ih => exact .cons (rowShows_csvFields f n) (ih (n + 1))

/-- Rows that show findings with different numbers have different names in the first column. -/
theorem RowShows.findingId_ne {header row row' : List String} {f f' : Finding} {n n' : Nat}
    (h : RowShows header row f n) (h' : RowShows header row' f' n') (hne : n ≠ n') :
    fieldIn header row "finding_id" ≠ fieldIn header row' "finding_id" := by
  obtain ⟨digits, hid, -, rfl⟩ := h.findingId
  obtain ⟨digits', hid', -, rfl⟩ := h'.findingId
  rw [hid, hid']
  intro heq
  have hsame : digits = digits' := by simpa using heq
  exact hne (by rw [hsame])

theorem nodup_findingIds {header : List String} {findings : List Finding} {rows : List (List String)}
    {n : Nat} (h : List.Forall₂ (fun x row => RowShows header row x.1 x.2) (findings.zipIdx n) rows) :
    (rows.map (fieldIn header · "finding_id")).Nodup := by
  rw [List.Nodup, List.pairwise_map, List.pairwise_iff_getElem]
  intro i j hi hj hlt
  have hlength := h.length_eq
  have hshow := h.get (i := i) (by omega) hi
  have hshow' := h.get (i := j) (by omega) hj
  refine RowShows.findingId_ne hshow hshow' ?_
  simp
  omega

/-- **The table of a result is read back as it was**, whatever characters its texts hold: first the
names of the columns, then one row for each finding, in order, that shows the finding.  The names in
the first column are all different. -/
theorem findings_are_read_back (r : ScanResult) :
    ∃ header rows, readCsv (csv r) = some (header :: rows) ∧
      header = ["finding_id", "rule_id", "rule_name", "severity", "confidence", "kind", "file_path",
        "line_number", "parameter_index", "cwe", "message", "snippet", "path_count"] ∧
      List.Forall₂ (fun x row => RowShows header row x.1 x.2) (r.findings.zipIdx 1) rows ∧
      (rows.map (fieldIn header · "finding_id")).Nodup := by
  have hshow := rowsShow_csvRows 1 r.findings
  refine ⟨csvColumns, csvRows 1 r.findings, ?_, rfl, hshow, nodup_findingIds hshow⟩
  have hlength : ∀ row ∈ csvColumns :: csvRows 1 r.findings, 2 ≤ row.length := by
    refine List.forall_mem_cons.2 ⟨by decide, fun row hrow => ?_⟩
    obtain ⟨x, -, hx⟩ := exists_left_of_forall₂ hshow hrow
    rw [hx.width]
    decide
  have hrun := CsvReader.run_csvTable hlength []
  rw [readCsv, csv]
  exact congrArg (Option.map CsvReader.finish) hrun

/-- A finding whose texts hold commas, quotes and line breaks. -/
def quotingFinding : Finding where
  vulnerability := .commandInjection
  kind := .entryPoint
  message := "say \"no\",\r\nthen \"\""
  severity := .high
  confidence := .high
  location := { file := "a,\"b\".java", line := 7, snippet := some "out(\"\n\",\r in())" }
  parameter := some 0
  paths := [[], []]

/-- Quotes are written twice and line breaks as they are, and both are read back. -/
theorem quotingFinding_is_read_back :
    csv { target := "", findings := [quotingFinding] } = csvRow csvColumns ++
      "F0001,TAINT-006,Command Injection,high,high,entry_point,\"a,\"\"b\"\".java\",7,0,CWE-78," ++
      "\"say \"\"no\"\",\r\nthen \"\"\"\"\",\"out(\"\"\n\"\",\r in())\",2\r\n" ∧
    ∃ row, readCsv (csv { target := "", findings := [quotingFinding] }) = some [csvColumns, row] ∧
      fieldIn csvColumns row "file_path" = some "a,\"b\".java" ∧
      fieldIn csvColumns row "message" = some "say \"no\",\r\nthen \"\"" ∧
      fieldIn csvColumns row "snippet" = some "out(\"\n\",\r in())" := by
  refine ⟨by decide +kernel, ?_⟩
  obtain ⟨header, rows, hread, rfl, hshow, -⟩ :=
    findings_are_read_back { target := "", findings := [quotingFinding] }
  cases hshow with
  | cons hrow hrest =>
    cases hrest
    exact ⟨_, hread, hrow.file, hrow.message, hrow.snippet⟩

end TaintFlow.Report
