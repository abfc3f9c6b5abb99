import Mathlib
import IconForge.Proofs.CommandLine.Reporting
import IconForge.Report.Csv

set_option autoImplicit false

/-! # Reading tables back from CSV

Commas separate the fields of a record. A field in quotes holds whatever stands between them, with
two quotes for each quote. A record ends with a line feed, a carriage return or both, if they do not
stand in quotes. `Csv.records` reads a text by these rules, one code point after the other.

A field that is written and has no carriage return, or is put between quotes, is read as it was
(`run_writeField`), and so are the fields of a line and the lines of a table. But a carriage return
alone does not put a field between quotes, and there a record ends too early (`run_loose`). So a
table is read as it was exactly when no field of it holds a carriage return, but no comma, quote or
line feed (`records_write_iff`). -/

namespace IconForge.Report.Csv

/-! ## Records of a text -/

/-- What stands in front of the next code point. -/
inductive Place where
  /-- The field has not begun. -/
  | start
  /-- A carriage return ended a record. -/
  | returned
  /-- A field without quotes has begun. -/
  | plain
  /-- A field is inside its quotes. -/
  | quoted
  /-- A quote inside quotes ended the field, or is the first of two. -/
  | closed
deriving DecidableEq, Repr

/-- A text of records, read up to some place. -/
structure Reading where
  place : Place
  /-- The field that is being read. -/
  field : CodeText
  /-- The fields in front of it in its record. -/
  fields : List CodeText
  /-- The records in front of that. -/
  records : List (List CodeText)
deriving DecidableEq, Repr

namespace Reading

/-- A code point belongs to the field. -/
def keep (r : Reading) (place : Place) (point : CodePoint) : Reading :=
  { r with place := place, field := r.field ++ [point] }

def endField (r : Reading) : Reading :=
  ⟨.start, [], r.fields ++ [r.field], r.records⟩

def endRecord (r : Reading) (place : Place) : Reading :=
  ⟨place, [], [], r.records ++ [r.fields ++ [r.field]]⟩

/-- Read a code point that is not inside quotes and opens none. -/
def stepOutside (r : Reading) (point : CodePoint) : Reading :=
  if point = .char ',' then r.endField
  else if point = .char '\n' then r.endRecord .start
  else if point = .char '\r' then r.endRecord .returned
  else r.keep .plain point

def step (r : Reading) (point : CodePoint) : Reading :=
  match r.place with
  | .start => if point = .char '"' then { r with place := .quoted } else r.stepOutside point
  | .returned =>
    if point = .char '"' then { r with place := .quoted }
    -- This line feed belongs to the line end that the carriage return began.
    else if point = .char '\n' then { r with place := .start }
    else r.stepOutside point
  | .plain => r.stepOutside point
  | .quoted =>
    if point = .char '"' then { r with place := .closed } else r.keep .quoted point
  | .closed => if point = .char '"' then r.keep .quoted point else r.stepOutside point

def run (r : Reading) (text : CodeText) : Reading :=
  text.foldl step r

/-- All records at the end of the text. The last one needs no line end. -/
def close (r : Reading) : List (List CodeText) :=
  match r.place, r.fields with
  | .start, [] => r.records
  | .returned, [] => r.records
  | _, _ => (r.endRecord .start).records

end Reading

def records (text : CodeText) : List (List CodeText) :=
  (Reading.run ⟨.start, [], [], []⟩ text).close

example : records "a,\"b\"\"\n\",c\r\nd\r,\n" =
    [[CodeText.ofString "a", CodeText.ofString "b\"\n", CodeText.ofString "c"],
      [CodeText.ofString "d"], [[], []]] := by
  decide

/-! ## Written lines -/

/-- Whether a field holds a carriage return and nothing that puts it between quotes. -/
def IsLoose (text : CodeText) : Prop :=
  .char '\r' ∈ text ∧ ∀ c ∈ [',', '"', '\n'], .char c ∉ text

instance (text : CodeText) : Decidable (IsLoose text) :=
  inferInstanceAs (Decidable (_ ∧ _))

theorem needsQuotes_iff {text : CodeText} :
    needsQuotes text ↔ ∃ c ∈ [',', '"', '\n'], .char c ∈ text := by
  simp [needsQuotes, CodePoint.isChar, List.any_eq_true, and_or_left, exists_or, or_assoc]

/-- Apart from what puts a field between quotes, only a carriage return is special. -/
theorem forall_special_notMem {text : CodeText} (hnone : ∀ c ∈ [',', '"', '\n'], .char c ∉ text)
    (hreturn : .char '\r' ∉ text) : ∀ c ∈ [',', '"', '\n', '\r'], .char c ∉ text :=
  List.forall_mem_append.2 ⟨hnone, List.forall_mem_singleton.2 hreturn⟩

theorem joinFields_cons {line : List CodeText} (hline : line ≠ []) (text : CodeText) :
    joinFields (text :: line) = writeField text ++ .char ',' :: joinFields line := by
  rw [joinFields]
  exact hline

theorem writeLine_of_ne {line : List CodeText} (hline : line ≠ [[]]) :
    writeLine line = joinFields line ++ [.char '\n'] := by
  unfold writeLine
  split
  · exact absurd rfl hline
  · rfl

namespace Reading

variable {r : Reading} {place : Place} {field text : CodeText} {fields : List CodeText}
  {done : List (List CodeText)}

theorem run_append (r : Reading) (text more : CodeText) :
    r.run (text ++ more) = (r.run text).run more :=
  List.foldl_append

theorem run_cons (r : Reading) (point : CodePoint) (text : CodeText) :
    r.run (point :: text) = (r.step point).run text :=
  rfl

/-- Records that were read stay in front of the others. -/
theorem records_prefix_step (r : Reading) (point : CodePoint) :
    r.records <+: (r.step point).records := by
  -- Outside of quotes a character ends the record or does not touch it.
  have houtside : r.records <+: (r.stepOutside point).records := by
    unfold stepOutside
    split_ifs
    · exact List.prefix_rfl
    · exact List.prefix_append _ _
    · exact List.prefix_append _ _
    · exact List.prefix_rfl
  unfold step
  cases r.place with
  | start =>
      dsimp only
      split_ifs
      · exact List.prefix_rfl
      · exact houtside
  | returned =>
      dsimp only
      split_ifs
      · exact List.prefix_rfl
      · exact List.prefix_rfl
      · exact houtside
  | plain => exact houtside
  | quoted =>
      dsimp only
      split_ifs
      · exact List.prefix_rfl
      · exact List.prefix_rfl
  | closed =>
      dsimp only
      split_ifs
      · exact List.prefix_rfl
      · exact houtside

theorem records_prefix_run (r : Reading) (text : CodeText) : r.records <+: (r.run text).records := by
  induction text generalizing r with
  | nil => exact List.prefix_rfl
  | cons point text ih => exact (r.records_prefix_step point).trans (ih _)

theorem records_prefix_close (r : Reading) : r.records <+: r.close := by
  unfold close
  split
  · exact List.prefix_rfl
  · exact List.prefix_rfl
  · exact List.prefix_append _ _

/-! ## Fields -/

/-- Where a field may end. -/
def Ends (place : Place) : Prop :=
  place = .start ∨ place = .plain ∨ place = .closed

theorem step_comma (h : Ends place) :
    step ⟨place, field, fields, done⟩ (.char ',') = ⟨.start, [], fields ++ [field], done⟩ := by
  rcases h with rfl | rfl | rfl <;> rfl

theorem step_lineFeed (h : Ends place) :
    step ⟨place, field, fields, done⟩ (.char '\n') =
      ⟨.start, [], [], done ++ [fields ++ [field]]⟩ := by
  rcases h with rfl | rfl | rfl <;> rfl

theorem step_carriageReturn (h : Ends place) :
    step ⟨place, field, fields, done⟩ (.char '\r') =
      ⟨.returned, [], [], done ++ [fields ++ [field]]⟩ := by
  rcases h with rfl | rfl | rfl <;> rfl

/-- A field is read as it stands up to its first special character. -/
theorem run_plain (place : Place) (field : CodeText) (fields : List CodeText)
    (done : List (List CodeText)) (htext : ∀ c ∈ [',', '"', '\n', '\r'], .char c ∉ text)
    (hplace : place = .start ∨ place = .plain) :
    ∃ place', Ends place' ∧
      run ⟨place, field, fields, done⟩ text = ⟨place', field ++ text, fields, done⟩ := by
  induction text generalizing place field with
  | nil => exact ⟨place, hplace.imp_right Or.inl, by rw [List.append_nil]; rfl⟩
  | cons point text ih =>
      have hne : ∀ c ∈ [',', '"', '\n', '\r'], point ≠ .char c := fun c hc heq =>
        htext c hc (heq ▸ List.mem_cons_self)
      have hstep : step ⟨place, field, fields, done⟩ point =
          ⟨.plain, field ++ [point], fields, done⟩ := by
        have houtside : stepOutside ⟨place, field, fields, done⟩ point =
            ⟨.plain, field ++ [point], fields, done⟩ := by
          simp only [stepOutside, hne ',' (by decide), hne '\n' (by decide), hne '\r' (by decide),
            if_false]
          rfl
        rcases hplace with rfl | rfl
        · rw [← houtside]
          exact if_neg (hne '"' (by decide))
        · exact houtside
      obtain ⟨place', hends, hrun⟩ := ih .plain (field ++ [point])
        (fun c hc hmem => htext c hc (List.mem_cons_of_mem _ hmem)) (Or.inr rfl)
      refine ⟨place', hends, ?_⟩
      rw [run_cons, hstep, hrun, List.append_assoc, List.singleton_append]

/-- Inside quotes a text with its quotes doubled is read as it was. -/
theorem run_doubleQuotes (text field : CodeText) :
    run ⟨.quoted, field, fields, done⟩ (doubleQuotes text) =
      ⟨.quoted, field ++ text, fields, done⟩ := by
  induction text generalizing field with
  | nil => rw [List.append_nil]; rfl
  | cons point text ih =>
      rw [← List.singleton_append, ← List.append_assoc, ← ih, List.singleton_append, doubleQuotes]
      split_ifs with hquote
      · rw [hquote]
        rfl
      · rw [run_cons]
        exact congrArg (run · (doubleQuotes text)) (if_neg hquote)

/-- **A field is read as it was written**, unless it is loose. -/
theorem run_writeField (fields : List CodeText) (done : List (List CodeText))
    (htext : ¬IsLoose text) :
    ∃ place, Ends place ∧
      run ⟨.start, [], fields, done⟩ (writeField text) = ⟨place, text, fields, done⟩ := by
  unfold writeField
  split_ifs with hquotes
  · refine ⟨.closed, Or.inr (Or.inr rfl), ?_⟩
    rw [List.cons_append, run_cons, run_append]
    show run (run ⟨.quoted, [], fields, done⟩ (doubleQuotes text)) [.char '"'] = _
    rw [run_doubleQuotes, List.nil_append]
    rfl
  · have hnone : ∀ c ∈ [',', '"', '\n'], .char c ∉ text := fun c hc hmem =>
      hquotes (needsQuotes_iff.2 ⟨c, hc, hmem⟩)
    have hreturn : .char '\r' ∉ text := fun hmem => htext ⟨hmem, hnone⟩
    exact run_plain .start [] fields done (forall_special_notMem hnone hreturn) (Or.inl rfl)

/-- **A loose field ends its record**: only what stands in front of the carriage return is read as
the field. -/
theorem run_loose (fields : List CodeText) (done : List (List CodeText)) (htext : IsLoose text)
    (more : CodeText) :
    ∃ front ≠ text, done ++ [fields ++ [front]] <+:
      (run ⟨.start, [], fields, done⟩ (writeField text ++ more)).records := by
  obtain ⟨hreturn, hnone⟩ := htext
  obtain ⟨front, behind, hsplit, hfront⟩ := List.eq_append_cons_of_mem hreturn
  have hplain : ∀ c ∈ [',', '"', '\n', '\r'], .char c ∉ front :=
    forall_special_notMem (fun c hc hmem => hnone c hc (hsplit ▸ List.mem_append_left _ hmem)) hfront
  obtain ⟨place, hends, hrun⟩ := run_plain .start [] fields done hplain (Or.inl rfl)
  have hwritten : writeField text = text :=
    if_neg fun hquotes => by
      obtain ⟨c, hc, hmem⟩ := needsQuotes_iff.1 hquotes
      exact hnone c hc hmem
  refine ⟨front, fun heq => hfront (heq ▸ hreturn), ?_⟩
  rw [hwritten, hsplit, List.append_assoc, List.cons_append, run_append, hrun, run_cons,
    step_carriageReturn hends, List.nil_append]
  exact records_prefix_run ⟨.returned, [], [], done ++ [fields ++ [front]]⟩ _

/-! ## Lines -/

theorem run_joinFields {line : List CodeText} (hline : ∀ text ∈ line, ¬IsLoose text)
    (hne : line ≠ []) (fields : List CodeText) :
    run ⟨.start, [], fields, done⟩ (joinFields line ++ [.char '\n']) =
      ⟨.start, [], [], done ++ [fields ++ line]⟩ := by
  induction line using joinFields.induct generalizing fields with
  | case1 => exact absurd rfl hne
  | case2 text =>
      obtain ⟨place, hends, hrun⟩ := run_writeField fields done (hline text List.mem_cons_self)
      rw [joinFields, run_append, hrun, run_cons, step_lineFeed hends]
      rfl
  | case3 text line hrest ih =>
      obtain ⟨place, hends, hrun⟩ := run_writeField fields done (hline text List.mem_cons_self)
      rw [joinFields_cons hrest, List.append_assoc, List.cons_append, run_append, hrun, run_cons,
        step_comma hends, ih (fun other hother => hline other (List.mem_cons_of_mem _ hother)) hrest,
        List.append_assoc, List.singleton_append]

/-- The first loose field of a line ends a record that is not the line. -/
theorem run_joinFields_loose {line : List CodeText} (hline : ∃ text ∈ line, IsLoose text)
    (fields : List CodeText) (more : CodeText) :
    ∃ read ≠ line, done ++ [fields ++ read] <+:
      (run ⟨.start, [], fields, done⟩ (joinFields line ++ more)).records := by
  induction line using joinFields.induct generalizing fields with
  | case1 =>
      obtain ⟨_, hmem, -⟩ := hline
      cases hmem
  | case2 text =>
      obtain ⟨_, hmem, hloose⟩ := hline
      obtain rfl := List.mem_singleton.1 hmem
      obtain ⟨front, hne, hprefix⟩ := run_loose fields done hloose more
      exact ⟨[front], fun heq => hne (List.singleton_inj.1 heq), hprefix⟩
  | case3 text line hrest ih =>
      rw [joinFields_cons hrest, List.append_assoc]
      by_cases hloose : IsLoose text
      · obtain ⟨front, hne, hprefix⟩ := run_loose fields done hloose _
        exact ⟨[front], fun heq => hne (List.cons.inj heq).1, hprefix⟩
      · obtain ⟨place, hends, hrun⟩ := run_writeField fields done hloose
        obtain ⟨other, hmem, hother⟩ := hline
        obtain ⟨read, hne, hprefix⟩ := ih
          ⟨other, (List.mem_cons.1 hmem).resolve_left fun heq => hloose (heq ▸ hother), hother⟩
          (fields ++ [text])
        refine ⟨text :: read, fun heq => hne (List.cons.inj heq).2, ?_⟩
        rw [List.cons_append, run_append, hrun, run_cons, step_comma hends]
        rwa [List.append_assoc, List.singleton_append] at hprefix

theorem run_writeLine {line : List CodeText} (hne : line ≠ [])
    (hline : ∀ text ∈ line, ¬IsLoose text) :
    run ⟨.start, [], [], done⟩ (writeLine line) = ⟨.start, [], [], done ++ [line]⟩ := by
  by_cases hempty : line = [[]]
  · rw [hempty]
    rfl
  · rw [writeLine_of_ne hempty]
    exact run_joinFields hline hne []

theorem run_writeLine_loose {line : List CodeText} (done : List (List CodeText))
    (hline : ∃ text ∈ line, IsLoose text) (more : CodeText) :
    ∃ read ≠ line, done ++ [read] <+:
      (run ⟨.start, [], [], done⟩ (writeLine line ++ more)).records := by
  have hne : line ≠ [[]] := by
    rintro rfl
    obtain ⟨text, hmem, hreturn, -⟩ := hline
    rw [List.mem_singleton.1 hmem] at hreturn
    cases hreturn
  rw [writeLine_of_ne hne, List.append_assoc]
  exact run_joinFields_loose hline [] _

variable {lines : List (List CodeText)}

/-- **Lines without loose fields are read as they were written.** -/
theorem run_lines (hne : ∀ line ∈ lines, line ≠ [])
    (hlines : ∀ line ∈ lines, ∀ text ∈ line, ¬IsLoose text) :
    run ⟨.start, [], [], done⟩ (lines.map writeLine).flatten = ⟨.start, [], [], done ++ lines⟩ := by
  induction lines generalizing done with
  | nil => rw [List.append_nil]; rfl
  | cons line lines ih =>
      obtain ⟨hfirst, hrest⟩ := List.forall_mem_cons.1 hne
      obtain ⟨hread, hothers⟩ := List.forall_mem_cons.1 hlines
      rw [List.map_cons, List.flatten_cons, run_append, run_writeLine hfirst hread, ih hrest hothers,
        List.append_assoc, List.singleton_append]

/-- Of lines with a loose field the first one that has it is read as something else. -/
theorem close_lines_ne (done : List (List CodeText)) (hne : ∀ line ∈ lines, line ≠ [])
    (hlines : ∃ line ∈ lines, ∃ text ∈ line, IsLoose text) :
    (run ⟨.start, [], [], done⟩ (lines.map writeLine).flatten).close ≠ done ++ lines := by
  induction lines generalizing done with
  | nil =>
      obtain ⟨_, hmem, -⟩ := hlines
      cases hmem
  | cons line lines ih =>
      obtain ⟨hfirst, hrest⟩ := List.forall_mem_cons.1 hne
      rw [List.map_cons, List.flatten_cons]
      by_cases hloose : ∃ text ∈ line, IsLoose text
      · obtain ⟨read, hread, hprefix⟩ := run_writeLine_loose done hloose
          (lines.map writeLine).flatten
        intro heq
        have hlast := hprefix.trans (records_prefix_close _)
        rw [heq, List.prefix_append_right_inj, List.singleton_prefix_cons_iff] at hlast
        exact hread hlast
      · obtain ⟨other, hmem, hother⟩ := hlines
        have hlater : other ∈ lines :=
          (List.mem_cons.1 hmem).resolve_left fun heq => hloose (heq ▸ hother)
        have hread : ∀ text ∈ line, ¬IsLoose text := fun text hmem htext =>
          hloose ⟨text, hmem, htext⟩
        have hbehind := ih (done ++ [line]) hrest ⟨other, hlater, hother⟩
        rw [List.append_assoc, List.singleton_append] at hbehind
        rwa [run_append, run_writeLine hfirst hread]

end Reading

/-- **Lines are read as they were written** exactly when no field of them is loose. -/
theorem records_write_iff {lines : List (List CodeText)} (hne : ∀ line ∈ lines, line ≠ []) :
    records (write lines) = lines ↔ ∀ line ∈ lines, ∀ text ∈ line, ¬IsLoose text := by
  rw [records, write]
  constructor
  · intro hread line hline text htext hloose
    refine Reading.close_lines_ne [] hne ⟨line, hline, text, htext, hloose⟩ ?_
    rw [hread, List.nil_append]
  · intro hlines
    rw [Reading.run_lines hne hlines, List.nil_append]
    rfl

/-- A carriage return alone makes two records out of one. -/
example : records (write [[CodeText.ofString "name"], [CodeText.ofString "a\rb"]]) =
    [[CodeText.ofString "name"], [CodeText.ofString "a"], [CodeText.ofString "b"]] := by
  decide

end IconForge.Report.Csv

namespace IconForge

open IconForge.Action FileSystem Text.Encoding

/-! ## Reports -/

namespace Row

/-- The texts of a row; what it has not is empty. -/
def texts (row : Row) : List CodeText :=
  row.fields.map fun field => field.2.getD []

theorem not_isLoose_columns : ∀ text ∈ columns.map CodeText.ofString, ¬Report.Csv.IsLoose text := by
  decide

/-- What tools that quote minimally write for rows. -/
theorem flatten_csv_table {tools : Report.Tools} (htools : tools.QuotesMinimally)
    (rows : List Row) : (tools.csv (table rows)).flatten =
      Report.Csv.write (columns.map CodeText.ofString :: rows.map texts) := by
  have hwritten := htools columns (rows.map fun row => row.fields.map (·.2)) (by decide)
    (List.forall_mem_map.2 fun _ _ => rfl)
  simp only [List.map_map] at hwritten
  exact hwritten

end Row

namespace Report.Tools

theorem csvText_ofText? (text : Option CodeText) : csvText (.ofText? text) = text.getD [] := by
  cases text <;> rfl

theorem quotesMinimally_standard : standard.QuotesMinimally := by
  intro columns rows _ _
  show Csv.write (csvFields _) = _
  simp only [csvFields, List.map_map, Function.comp_def, csvText_ofText?]

end Report.Tools

namespace Text.Encoding

theorem encodeChunks_of_hasBytes {chunks : List CodeText} (h : HasBytes chunks.flatten) :
    ∃ bytes, encodeChunks chunks = (bytes, none) := by
  induction chunks with
  | nil => exact ⟨[], rfl⟩
  | cons chunk chunks ih =>
      rw [List.flatten_cons] at h
      obtain ⟨hchunk, hchunks⟩ := hasBytes_append.1 h
      obtain ⟨more, hmore⟩ := ih hchunks
      have hbytes := encode_content_eq_ok_iff.2 ⟨hchunk, rfl⟩
      refine ⟨chunk.flatMap pointBytes ++ more, ?_⟩
      rw [encodeChunks, hbytes]
      simp only [hmore]

end Text.Encoding

namespace Storage

variable {tools : Report.Tools} {path : Path}

/-- A CSV report is saved if its text has bytes, and a file can be written at its path and
packed. -/
theorem exists_saveResults {results : Report.Results} {room : Room} {w : Workspace}
    (hcsv : isJsonReport path = false) (hdestination : Report.Destination.ofPath path = .file)
    (hpacking : Report.Packing.ofPath path ≠ .zstandard)
    (htakes : w.files.TakesFile room.filing path)
    (hbytes : HasBytes (tools.csv (tools.table results)).flatten) :
    ∃ after, (saveResults tools room results path).perform w = (.ok (), after) := by
  obtain ⟨made, _, hmake, hwrite⟩ := htakes.exists_write
  obtain ⟨bytes, hchunks⟩ := encodeChunks_of_hasBytes hbytes
  obtain ⟨left, hleft⟩ := exists_write hwrite (tools.packed path bytes)
  have hwritten : (writeReport tools path (tools.csv (tools.table results))).perform
      { w with files := made } = (.ok (), { w with files := left }) := by
    unfold writeReport
    simp only [hdestination, hpacking, if_true, if_false, writeChunks, hchunks]
    rw [perform_bind, perform_writeBytes]
    simp only [hleft]
    rfl
  rw [saveResults, perform_bind, perform_makeParents, hmake]
  dsimp only [Except.mapError]
  rw [reporting, perform_tryCatch, hcsv, perform_bind, perform_lift]
  simp only [Report.Tools.pieces, Bool.false_eq_true, if_false, Except.mapError, perform_bind,
    hwritten, perform_note]
  exact ⟨_, rfl⟩

/-- **What a CSV report says.** It is read as the names of the columns and the texts of its rows
exactly when each text with a carriage return also holds a comma, a quote or a line feed. It is
saved whenever it has bytes and a file can be written at its path, and the file holds its text,
packed as the path asks for. -/
theorem saveResults_records (htools : tools.QuotesMinimally) (room : Room) (rows : List Row)
    (hcsv : isJsonReport path = false) :
    (Report.Csv.records (tools.csv (Row.table rows)).flatten =
        Row.columns.map CodeText.ofString :: rows.map Row.texts ↔
      ∀ row ∈ rows, ∀ text ∈ row.texts, .char '\r' ∈ text →
        ∃ c ∈ [',', '"', '\n'], .char c ∈ text) ∧
    (Report.Destination.ofPath path = .file → ∀ w,
      (Report.Packing.ofPath path ≠ .zstandard → w.files.TakesFile room.filing path →
        HasBytes (tools.csv (Row.table rows)).flatten →
        ∃ after, (saveResults tools room (.table (Row.table rows)) path).perform w =
          (.ok (), after)) ∧
      ∀ after, (saveResults tools room (.table (Row.table rows)) path).perform w = (.ok (), after) →
        ∃ cs contents, CodeText.ofChars cs = (tools.csv (Row.table rows)).flatten ∧
          after.files.read path = .ok contents ∧
          tools.Holds path (Text.Utf8.encode cs) contents) := by
  refine ⟨?_, fun hdestination w => ⟨fun hpacking htakes hbytes =>
    exists_saveResults hcsv hdestination hpacking htakes hbytes, fun after hsave => ?_⟩⟩
  · have hne : ∀ line ∈ Row.columns.map CodeText.ofString :: rows.map Row.texts, line ≠ [] := by
      intro line hline hnil
      rcases List.mem_cons.1 hline with rfl | hrow
      · cases hnil
      · obtain ⟨row, -, rfl⟩ := List.mem_map.1 hrow
        cases hnil
    rw [Row.flatten_csv_table htools, Report.Csv.records_write_iff hne, List.forall_mem_cons,
      and_iff_right Row.not_isLoose_columns, List.forall_mem_map]
    refine forall₄_congr fun row _ text _ => ?_
    rw [Report.Csv.IsLoose]
    push Not
    rfl
  · obtain ⟨-, pieces, bytes, hpieces, hencode, hwrites⟩ :=
      (perform_saveResults_eq_ok hsave).resolve_right fun hno => hno hdestination
    rw [hcsv] at hpieces
    obtain rfl := Except.ok.inj hpieces
    obtain ⟨cs, hcs, rfl⟩ := exists_chars_of_encode hencode
    exact ⟨cs, _, hcs.symm, hwrites.read, tools.holds_packed path _⟩

/-! ## A report with texts between quotes -/

/-- A row of texts that are all put between quotes, one of them for each reason. -/
def quotedRow : Row where
  source := "a,\r.svg"
  output := none
  component := some "\"A\"\r"
  status := "error"
  viewBox := none
  warnings := ""
  error := some "\r\n"

/-- A report on it is saved, and read as it was. -/
theorem saveResults_records_quoted :
    Report.Tools.standard.QuotesMinimally ∧ isJsonReport (Path.ofText "r.csv") = false ∧
      Report.Csv.records (Report.Tools.standard.csv (Row.table [quotedRow])).flatten =
        [Row.columns.map CodeText.ofString, quotedRow.texts] ∧
      ∃ after, (saveResults .standard (.ofLevels 8) (.table (Row.table [quotedRow]))
          (Path.ofText "r.csv")).perform { files := FileSystem.empty } = (.ok (), after) ∧
        ∃ cs, CodeText.ofChars cs =
            (Report.Tools.standard.csv (Row.table [quotedRow])).flatten ∧
          after.files.read (Path.ofText "r.csv") = .ok (Text.Utf8.encode cs) := by
  have hcsv : isJsonReport (Path.ofText "r.csv") = false := by decide
  have hplain : Report.Packing.ofPath (Path.ofText "r.csv") = .plain := by decide
  have htakes : FileSystem.empty.TakesFile (Room.ofLevels 8).filing (Path.ofText "r.csv") := by
    decide
  have hbytes : HasBytes (Report.Tools.standard.csv (Row.table [quotedRow])).flatten := by
    unfold HasBytes
    decide
  obtain ⟨hrecords, hfile⟩ := saveResults_records Report.Tools.quotesMinimally_standard
    (.ofLevels 8) [quotedRow] hcsv
  obtain ⟨hsave, hread⟩ := hfile (by decide) { files := FileSystem.empty }
  obtain ⟨after, hafter⟩ := hsave (by rw [hplain]; rintro ⟨⟩) htakes hbytes
  obtain ⟨cs, contents, htext, hcontents, hholds⟩ := hread after hafter
  rw [Report.Tools.Holds, hplain] at hholds
  obtain rfl : contents = Text.Utf8.encode cs := hholds
  refine ⟨Report.Tools.quotesMinimally_standard, hcsv, hrecords.2 ?_, after, hafter, cs, htext,
    hcontents⟩
  simp [Row.texts, Row.fields, quotedRow, CodeText.ofString, CodeText.ofChars]

end Storage

end IconForge
