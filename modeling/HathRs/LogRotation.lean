import HathRs.TextParsing

/-!
# Rotation of the log files

A log file is renamed to its only backup when it is opened for the first time and after every line
beyond the limit. Each operation on the files can fail, and what it has done by then stays. The
backup and the file together hold the end of all that was written, and a file that could not be
created does not cost the backup when it is tried again.
-/

namespace HathRs.LogRotation
open TextParsing

/-! ## Lines -/

def newline : UInt8 := 10

/-- `split_inclusive` at the newlines. -/
def splitInclusive : Bytes → List Bytes
  | [] => []
  | b :: bytes =>
    if b = newline then [b] :: splitInclusive bytes
    else
      match splitInclusive bytes with
      | [] => [[b]]
      | line :: lines => (b :: line) :: lines

/-- The number of complete lines. -/
def lineCount (bytes : Bytes) : ℕ := bytes.count newline

/-! ## The writer -/

/-- What has been appended to a file by one write, kept apart by who has written it. -/
inductive Chunk where
  | banner (bytes : Bytes)
  | data (bytes : Bytes)

def Chunk.bytes : Chunk → Bytes
  | .banner bytes => bytes
  | .data bytes => bytes

def Chunk.written : Chunk → Bytes
  | .banner _ => []
  | .data bytes => bytes

/-- The bytes of a file, and none for a file that does not exist. -/
def contents (file : Option (List Chunk)) : Bytes := (file.getD []).flatMap Chunk.bytes

/-- The bytes of a file without the banners of the writer. -/
def written (file : Option (List Chunk)) : Bytes := (file.getD []).flatMap Chunk.written

/-- What the operations on the files do, by their number. A write that fails has written some of its
bytes before. -/
structure Env where
  fails : ℕ → Bool
  kept : ℕ → ℕ
  time : ℕ → Bytes

/-- The writer with its two files. `file` tells that the log is open, `operations` counts what has
been done to the files, and `sent` is all that was written. The limits are 100000 and 10000, so the
counter of lines is a natural number. -/
structure LineWriter where
  log : Option (List Chunk)
  old : Option (List Chunk)
  file : Bool
  lines : ℕ
  rotateOnOpen : Bool
  operations : ℕ
  sent : Bytes

namespace LineWriter

def new (log old : Option Bytes) : LineWriter where
  log := log.map fun bytes => [.data bytes]
  old := old.map fun bytes => [.data bytes]
  file := false
  lines := 0
  rotateOnOpen := true
  operations := 0
  sent := []

def append (w : LineWriter) (chunk : Chunk) : LineWriter :=
  { w with
    log := some (w.log.getD [] ++ [chunk])
    operations := w.operations + 1
    sent := w.sent ++ chunk.written }

end LineWriter

def bannerText (time : Bytes) : Bytes := newline :: (time ++ utf8 " Logging started\n".toList)

/-- A file that is not there is not an error. -/
def rotateLog (env : Env) (w : LineWriter) : Bool × LineWriter :=
  let w' := { w with operations := w.operations + 1 }
  if env.fails w.operations then (false, w')
  else
    let w := { w' with old := none }
    let w' := { w with operations := w.operations + 1 }
    if env.fails w.operations then (false, w')
    else
      match w.log with
      | none => (true, w')
      | some file => (true, { w' with log := none, old := some file })

/-- The file is created if it is not there, and its first lines are appended. -/
def createLog (env : Env) (w : LineWriter) : Bool × LineWriter :=
  let w' := { w with operations := w.operations + 1 }
  if env.fails w.operations then (false, w')
  else
    let w := { w' with log := some (w.log.getD []) }
    let banner := bannerText (env.time w.operations)
    if env.fails w.operations then
      (false, w.append (.banner (banner.take (env.kept w.operations))))
    else (true, { w.append (.banner banner) with file := true, lines := 0 })

/-- `LineWriter::open` -/
def openLog (env : Env) (w : LineWriter) : Bool × LineWriter :=
  if w.file then (true, w)
  else if w.rotateOnOpen then
    match rotateLog env w with
    | (false, w) => (false, w)
    | (true, w) => createLog env { w with rotateOnOpen := false }
  else createLog env w

/-- One turn of the loop in `write_all`, in which the log is open. The last byte of a write that
fails is not written. -/
def writeLine (env : Env) (limit : ℕ) (w : LineWriter) (line : Bytes) : Bool × LineWriter :=
  if env.fails w.operations then
    (false, w.append (.data (line.dropLast.take (env.kept w.operations))))
  else
    let w := w.append (.data line)
    if line.getLast? = some newline then
      let w := { w with lines := w.lines + 1 }
      if limit < w.lines then
        let w' := { w with operations := w.operations + 1 }
        if env.fails w.operations then (false, w')
        else openLog env { w' with file := false, rotateOnOpen := true }
      else (true, w)
    else (true, w)

def writeLines (env : Env) (limit : ℕ) : LineWriter → List Bytes → Bool × LineWriter
  | w, [] => (true, w)
  | w, line :: lines =>
    match writeLine env limit w line with
    | (false, w) => (false, w)
    | (true, w) => writeLines env limit w lines

def writeAll (env : Env) (limit : ℕ) (w : LineWriter) (buf : Bytes) : Bool × LineWriter :=
  match openLog env w with
  | (false, w) => (false, w)
  | (true, w) => writeLines env limit w (splitInclusive buf)

/-- Any number of calls, whether they succeed or not. -/
def writeBuffers (env : Env) (limit : ℕ) (w : LineWriter) (bufs : List Bytes) : LineWriter :=
  bufs.foldl (fun w buf => (writeAll env limit w buf).2) w

/-- The writer after these calls and the first lines of one more. -/
def pointOf (env : Env) (limit : ℕ) (w : LineWriter) (bufs : List Bytes) (buf : Bytes) (k : ℕ) :
    LineWriter :=
  match openLog env (writeBuffers env limit w bufs) with
  | (false, w) => w
  | (true, w) => (writeLines env limit w ((splitInclusive buf).take k)).2

/-! ## Lines of a buffer -/

/-- A newline stands only at the end. -/
def IsLine (line : Bytes) : Prop := newline ∉ line.dropLast

theorem flatten_splitInclusive (buf : Bytes) : (splitInclusive buf).flatten = buf := by
  induction buf with
  | nil => rfl
  | cons b buf ih =>
    simp only [splitInclusive]
    split_ifs
    · rw [List.flatten_cons, ih, List.singleton_append]
    · cases hrest : splitInclusive buf with
      | nil =>
        rw [hrest] at ih
        simp [← ih]
      | cons line lines =>
        rw [hrest] at ih
        simp [← ih]

theorem ne_nil_of_mem_splitInclusive {buf line : Bytes} (h : line ∈ splitInclusive buf) :
    line ≠ [] := by
  induction buf generalizing line with
  | nil => cases h
  | cons b buf ih =>
    simp only [splitInclusive] at h
    split_ifs at h
    · rcases List.mem_cons.mp h with rfl | h
      · exact List.cons_ne_nil _ _
      · exact ih h
    · cases hrest : splitInclusive buf with
      | nil =>
        rw [hrest] at h
        rw [List.mem_singleton.mp h]
        exact List.cons_ne_nil _ _
      | cons first lines =>
        rw [hrest] at h ih
        rcases List.mem_cons.mp h with rfl | h
        · exact List.cons_ne_nil _ _
        · exact ih (List.mem_cons_of_mem _ h)

theorem isLine_of_mem_splitInclusive {buf line : Bytes} (h : line ∈ splitInclusive buf) :
    IsLine line := by
  induction buf generalizing line with
  | nil => cases h
  | cons b buf ih =>
    simp only [splitInclusive] at h
    split_ifs at h with hb
    · rcases List.mem_cons.mp h with rfl | h
      · exact List.not_mem_nil
      · exact ih h
    · cases hrest : splitInclusive buf with
      | nil =>
        rw [hrest] at h
        rw [List.mem_singleton.mp h]
        exact List.not_mem_nil
      | cons first lines =>
        have hmem : first ∈ splitInclusive buf := hrest ▸ List.mem_cons_self
        have hfirst := ne_nil_of_mem_splitInclusive hmem
        rw [hrest] at h ih
        rcases List.mem_cons.mp h with rfl | h
        · rw [IsLine, List.dropLast_cons_of_ne_nil hfirst, List.mem_cons, not_or]
          exact ⟨Ne.symm hb, ih List.mem_cons_self⟩
        · exact ih (List.mem_cons_of_mem _ h)

theorem lineCount_append (a b : Bytes) : lineCount (a ++ b) = lineCount a + lineCount b :=
  List.count_append

theorem lineCount_eq_zero {bytes : Bytes} (h : newline ∉ bytes) : lineCount bytes = 0 :=
  List.count_eq_zero.mpr h

theorem lineCount_of_isLine {line : Bytes} (h : IsLine line) :
    lineCount line = if line.getLast? = some newline then 1 else 0 := by
  rcases List.eq_nil_or_concat line with rfl | ⟨front, b, rfl⟩
  · rfl
  · rw [IsLine, List.concat_eq_append, List.dropLast_concat] at h
    rw [List.concat_eq_append, List.getLast?_concat, lineCount_append, lineCount_eq_zero h, Nat.zero_add]
    simp only [lineCount, List.count_singleton, beq_iff_eq, Option.some.injEq]

/-! ## What one operation does -/

section Operations

variable {env : Env} {limit : ℕ} {w w' : LineWriter}

theorem written_append (w : LineWriter) (chunk : Chunk) :
    written (w.append chunk).log = written w.log ++ chunk.written := by
  simp [written, LineWriter.append]

theorem contents_append (w : LineWriter) (chunk : Chunk) :
    contents (w.append chunk).log = contents w.log ++ chunk.bytes := by
  simp [contents, LineWriter.append]

theorem sent_rotateLog (env : Env) (w : LineWriter) : (rotateLog env w).2.sent = w.sent := by
  unfold rotateLog
  simp only
  split_ifs
  · rfl
  · rfl
  · cases w.log <;> rfl

theorem sent_createLog (env : Env) (w : LineWriter) : (createLog env w).2.sent = w.sent := by
  unfold createLog
  simp only
  split_ifs
  · rfl
  · exact List.append_nil _
  · exact List.append_nil _

theorem createLog_frame (env : Env) (w : LineWriter) :
    (createLog env w).2.old = w.old ∧ (createLog env w).2.rotateOnOpen = w.rotateOnOpen := by
  unfold createLog
  simp only
  split_ifs <;> exact ⟨rfl, rfl⟩

/-- The log is open after a success and as before after a failure. -/
theorem createLog_file (env : Env) (w : LineWriter) :
    (createLog env w).1 = true ∧ (createLog env w).2.file = true ∧ (createLog env w).2.lines = 0 ∨
      (createLog env w).1 = false ∧ (createLog env w).2.file = w.file := by
  unfold createLog
  simp only
  split_ifs
  · exact .inr ⟨rfl, rfl⟩
  · exact .inr ⟨rfl, rfl⟩
  · exact .inl ⟨rfl, rfl, rfl⟩

theorem rotateLog_frame (env : Env) (w : LineWriter) :
    (rotateLog env w).2.file = w.file ∧ (rotateLog env w).2.rotateOnOpen = w.rotateOnOpen := by
  unfold rotateLog
  simp only
  split_ifs
  · exact ⟨rfl, rfl⟩
  · exact ⟨rfl, rfl⟩
  · cases w.log <;> exact ⟨rfl, rfl⟩

/-- A rotation that succeeds leaves the log as the backup, and nothing where there was none. -/
theorem rotateLog_ok (h : (rotateLog env w).1 = true) :
    (rotateLog env w).2.old = w.log ∧ (rotateLog env w).2.log = none := by
  unfold rotateLog at h ⊢
  simp only at h ⊢
  split_ifs at h ⊢
  cases hlog : w.log with
  | none => exact ⟨rfl, rfl⟩
  | some file => exact ⟨rfl, rfl⟩

/-- Everything that opening the log can do. -/
theorem openLog_cases (env : Env) (w : LineWriter) :
    w.file = true ∧ openLog env w = (true, w) ∨
    w.file = false ∧ w.rotateOnOpen = true ∧ (rotateLog env w).1 = false ∧
      openLog env w = (false, (rotateLog env w).2) ∨
    w.file = false ∧ w.rotateOnOpen = true ∧ (rotateLog env w).1 = true ∧
      openLog env w = createLog env { (rotateLog env w).2 with rotateOnOpen := false } ∨
    w.file = false ∧ w.rotateOnOpen = false ∧ openLog env w = createLog env w := by
  unfold openLog
  cases hfile : w.file with
  | true => exact .inl ⟨rfl, if_pos rfl⟩
  | false =>
    cases hrotate : w.rotateOnOpen with
    | true =>
      rcases hrotated : rotateLog env w with ⟨_ | _, w'⟩
      · exact .inr (.inl ⟨rfl, rfl, rfl, rfl⟩)
      · exact .inr (.inr (.inl ⟨rfl, rfl, rfl, rfl⟩))
    | false => exact .inr (.inr (.inr ⟨rfl, rfl, rfl⟩))

/-- Opening the log writes no data. -/
theorem sent_openLog (env : Env) (w : LineWriter) : (openLog env w).2.sent = w.sent := by
  rcases openLog_cases env w with ⟨-, hopen⟩ | ⟨-, -, -, hopen⟩ | ⟨-, -, -, hopen⟩ | ⟨-, -, hopen⟩
  · rw [hopen]
  · rw [hopen, sent_rotateLog]
  · rw [hopen, sent_createLog, sent_rotateLog]
  · rw [hopen, sent_createLog]

/-- The log is open exactly after a success. -/
theorem file_openLog (env : Env) (w : LineWriter) : (openLog env w).2.file = (openLog env w).1 := by
  have hcreate : ∀ v : LineWriter, v.file = false → (createLog env v).2.file = (createLog env v).1 := by
    intro v hv
    rcases createLog_file env v with ⟨hok, hopen, -⟩ | ⟨hfail, hclosed⟩
    · rw [hok, hopen]
    · rw [hfail, hclosed, hv]
  rcases openLog_cases env w with ⟨hfile, hopen⟩ | ⟨hfile, -, -, hopen⟩ | ⟨hfile, -, -, hopen⟩ |
    ⟨hfile, -, hopen⟩
  · rw [hopen, hfile]
  · rw [hopen, (rotateLog_frame env w).1, hfile]
  · rw [hopen]
    exact hcreate _ ((rotateLog_frame env w).1.trans hfile)
  · rw [hopen]
    exact hcreate w hfile

end Operations

/-! ## Files without failures -/

/-- What holds between two turns of the loop while the operations succeed. `initial` is what the log
held before it was opened. -/
structure Inv (initial : Bytes) (limit : ℕ) (w : LineWriter) : Prop where
  file : w.file = true
  lines_eq : w.lines = lineCount (written w.log)
  lines_le : w.lines ≤ limit
  suffix : written w.old ++ written w.log <:+ initial ++ w.sent
  backup : lineCount w.sent = w.lines ∧ written w.old = initial ∨
    limit < lineCount w.sent ∧ lineCount (written w.old) = limit + 1
  logBanner : ∃ time, contents w.log = bannerText time ++ written w.log
  oldBanner : contents w.old = written w.old ∨ ∃ time, contents w.old = bannerText time ++ written w.old

/-- A write that is not a rotation. -/
theorem Inv.append {initial : Bytes} {limit : ℕ} {w : LineWriter} (h : Inv initial limit w)
    {line : Bytes} {lines : ℕ}
    (hlines : lines = w.lines + lineCount line) (hle : lines ≤ limit) :
    Inv initial limit { w.append (.data line) with lines := lines } := by
  have hlog : written (w.append (.data line)).log = written w.log ++ line := written_append w _
  refine ⟨h.file, ?_, hle, ?_, ?_, ?_, h.oldBanner⟩
  · simp only [hlog, lineCount_append, hlines, h.lines_eq]
  · have hsuffix := h.suffix
    simp only [hlog]
    obtain ⟨front, hfront⟩ := hsuffix
    refine ⟨front, ?_⟩
    simp only [LineWriter.append, Chunk.written, ← List.append_assoc] at hfront ⊢
    rw [hfront]
  · have hcount : lineCount (w.append (.data line)).sent = lineCount w.sent + lineCount line :=
      lineCount_append _ _
    rcases h.backup with ⟨heq, hold⟩ | ⟨hlt, hold⟩
    · exact .inl ⟨by simp only [hcount]; omega, hold⟩
    · exact .inr ⟨by simp only [hcount]; omega, hold⟩
  · obtain ⟨time, htime⟩ := h.logBanner
    refine ⟨time, ?_⟩
    simp only [hlog, contents_append, htime, Chunk.bytes, List.append_assoc]

section Succeeding

variable {env : Env} (hio : ∀ n, env.fails n = false) {initial : Bytes} {limit : ℕ} {w : LineWriter}
include hio

theorem createLog_ok (w : LineWriter) : (createLog env w).1 = true ∧
    written (createLog env w).2.log = written w.log ∧
    ∃ time, contents (createLog env w).2.log = contents w.log ++ bannerText time := by
  simp only [createLog, hio, Bool.false_eq_true, if_false, true_and]
  refine ⟨?_, _, contents_append _ _⟩
  rw [written_append]
  exact List.append_nil _

/-- The log becomes the backup, and the new log has a banner and nothing else. -/
theorem openLog_of_closed (hfile : w.file = false) (hrotate : w.rotateOnOpen = true) :
    ∃ w' time, openLog env w = (true, w') ∧ w'.file = true ∧ w'.lines = 0 ∧ w'.old = w.log ∧
      w'.sent = w.sent ∧ written w'.log = [] ∧ contents w'.log = bannerText time := by
  have hrotated : (rotateLog env w).1 = true := by
    simp only [rotateLog, hio, Bool.false_eq_true, if_false]
    cases w.log <;> rfl
  obtain ⟨hold, hlog⟩ := rotateLog_ok hrotated
  have hopen : openLog env w = createLog env { (rotateLog env w).2 with rotateOnOpen := false } := by
    rcases openLog_cases env w with ⟨h, -⟩ | ⟨-, -, h, -⟩ | ⟨-, -, -, h⟩ | ⟨-, h, -⟩
    · exact absurd (hfile.symm.trans h) nofun
    · exact absurd (hrotated.symm.trans h) nofun
    · exact h
    · exact absurd (hrotate.symm.trans h) nofun
  obtain ⟨hok, hwritten, time, hcontents⟩ :=
    createLog_ok hio { (rotateLog env w).2 with rotateOnOpen := false }
  have hsent := sent_openLog env w
  have hframe := (createLog_frame env { (rotateLog env w).2 with rotateOnOpen := false }).1
  rcases createLog_file env { (rotateLog env w).2 with rotateOnOpen := false } with
    ⟨-, hopened, hlines⟩ | ⟨hfail, -⟩
  · rw [hopen] at hsent ⊢
    rw [hlog] at hwritten hcontents
    exact ⟨_, time, Prod.ext hok rfl, hopened, hlines, hframe.trans hold, hsent, hwritten, hcontents⟩
  · exact absurd (hok.symm.trans hfail) nofun

/-- The first opening keeps what the log held as the backup. -/
theorem inv_openLog_new (log old : Option Bytes) (limit : ℕ) :
    ∃ w, openLog env (.new log old) = (true, w) ∧ Inv (log.getD []) limit w ∧ w.sent = [] := by
  obtain ⟨w, time, hopen, hfile, hlines, hold, hsent, hwritten, hcontents⟩ :=
    openLog_of_closed hio (w := .new log old) rfl rfl
  have hinitial : written w.old = log.getD [] ∧ contents w.old = log.getD [] := by
    rw [hold]
    cases log with
    | none => exact ⟨rfl, rfl⟩
    | some bytes => simp [LineWriter.new, written, contents, Chunk.written, Chunk.bytes]
  refine ⟨w, hopen, ⟨hfile, ?_, ?_, ?_, ?_, ?_, ?_⟩, hsent⟩
  · rw [hlines, hwritten]
    rfl
  · rw [hlines]
    exact Nat.zero_le limit
  · rw [hwritten, hinitial.1, hsent]
    exact List.suffix_refl _
  · refine .inl ⟨?_, hinitial.1⟩
    rw [hlines, hsent]
    rfl
  · exact ⟨time, by rw [hcontents, hwritten, List.append_nil]⟩
  · exact .inl (hinitial.2.trans hinitial.1.symm)

theorem inv_writeLine (h : Inv initial limit w) {line : Bytes} (hline : IsLine line) :
    ∃ w', writeLine env limit w line = (true, w') ∧ Inv initial limit w' ∧
      w'.sent = w.sent ++ line := by
  have hcount := lineCount_of_isLine hline
  simp only [writeLine, hio, Bool.false_eq_true, if_false]
  split_ifs at hcount ⊢ with hend hfull
  · -- the line beyond the limit goes into the file that becomes the backup
    obtain ⟨w', time, hopen, hfile, hlines, hold, hsent, hwritten, hcontents⟩ :=
      openLog_of_closed hio (w := { w.append (.data line) with
        lines := w.lines + 1, operations := w.operations + 1 + 1, file := false, rotateOnOpen := true })
        rfl rfl
    have hlog : written w'.old = written w.log ++ line := by
      rw [hold]
      exact written_append w _
    refine ⟨w', hopen, ⟨hfile, ?_, ?_, ?_, ?_, ?_, ?_⟩, hsent⟩
    · rw [hlines, hwritten]
      rfl
    · omega
    · obtain ⟨front, hfront⟩ := h.suffix
      refine ⟨front ++ written w.old, ?_⟩
      rw [hwritten, hlog, hsent, List.append_nil]
      simp only [LineWriter.append, Chunk.written, ← List.append_assoc] at hfront ⊢
      rw [hfront]
    · have hequal := h.lines_eq
      have hle := h.lines_le
      have hsum : lineCount w'.sent = lineCount w.sent + 1 := by
        rw [hsent, ← hcount]
        exact lineCount_append _ _
      refine .inr ⟨?_, ?_⟩
      · change limit < w.lines + 1 at hfull
        rcases h.backup with ⟨heq, -⟩ | ⟨hlt, -⟩ <;> omega
      · change limit < w.lines + 1 at hfull
        rw [hlog, lineCount_append, hcount]
        omega
    · exact ⟨time, by rw [hcontents, hwritten, List.append_nil]⟩
    · obtain ⟨time, htime⟩ := h.logBanner
      refine .inr ⟨time, ?_⟩
      rw [hlog, hold, ← List.append_assoc, ← htime]
      exact contents_append w _
  · refine ⟨_, rfl, h.append (by rw [hcount]; rfl) (Nat.le_of_not_lt hfull), rfl⟩
  · exact ⟨_, rfl, h.append (by rw [hcount]; rfl) h.lines_le, rfl⟩

theorem inv_writeLines (h : Inv initial limit w) {lines : List Bytes}
    (hlines : ∀ line ∈ lines, IsLine line) :
    ∃ w', writeLines env limit w lines = (true, w') ∧ Inv initial limit w' ∧
      w'.sent = w.sent ++ lines.flatten := by
  induction lines generalizing w with
  | nil => exact ⟨w, rfl, h, (List.append_nil _).symm⟩
  | cons line lines ih =>
    obtain ⟨mid, hwrite, hmid, hsent⟩ := inv_writeLine hio h (hlines line List.mem_cons_self)
    obtain ⟨w', hrest, hw', hsent'⟩ := ih hmid fun l hl => hlines l (List.mem_cons_of_mem _ hl)
    refine ⟨w', ?_, hw', ?_⟩
    · simp only [writeLines, hwrite]
      exact hrest
    · rw [hsent', hsent, List.flatten_cons, List.append_assoc]

omit hio in
theorem openLog_of_open (h : Inv initial limit w) (env : Env) : openLog env w = (true, w) :=
  if_pos h.file

theorem inv_writeBuffers (h : Inv initial limit w) (bufs : List Bytes) :
    Inv initial limit (writeBuffers env limit w bufs) ∧
      (writeBuffers env limit w bufs).sent = w.sent ++ bufs.flatten := by
  induction bufs generalizing w with
  | nil => exact ⟨h, (List.append_nil _).symm⟩
  | cons buf bufs ih =>
    have hlines : ∀ line ∈ splitInclusive buf, IsLine line := fun _ => isLine_of_mem_splitInclusive
    obtain ⟨w', hwrite, hw', hsent⟩ := inv_writeLines hio h hlines
    have hall : (writeAll env limit w buf).2 = w' := by
      simp only [writeAll, openLog_of_open h, hwrite]
    obtain ⟨hinv, hrest⟩ := ih hw'
    have hcons : writeBuffers env limit w (buf :: bufs) = writeBuffers env limit w' bufs := by
      rw [← hall]
      rfl
    rw [hcons]
    refine ⟨hinv, ?_⟩
    rw [hrest, hsent, flatten_splitInclusive, List.flatten_cons, List.append_assoc]

theorem inv_pointOf (h : Inv initial limit w) (bufs : List Bytes) (buf : Bytes) (k : ℕ) :
    Inv initial limit (pointOf env limit w bufs buf k) ∧
      (pointOf env limit w bufs buf k).sent =
        w.sent ++ (bufs.flatten ++ ((splitInclusive buf).take k).flatten) := by
  obtain ⟨hinv, hsent⟩ := inv_writeBuffers hio h bufs
  have hlines : ∀ line ∈ (splitInclusive buf).take k, IsLine line :=
    fun _ hline => isLine_of_mem_splitInclusive (List.mem_of_mem_take hline)
  obtain ⟨w', hwrite, hw', hsent'⟩ := inv_writeLines hio hinv hlines
  simp only [pointOf, openLog_of_open hinv, hwrite]
  exact ⟨hw', by rw [hsent', hsent, List.append_assoc]⟩

end Succeeding

/-! ## Retries after a file that could not be created -/

/-- The backup is kept until more lines than the limit have been written since: the log is still to
be created without a rotation, or it is open and has counted the lines. -/
def KeepsBackup (limit : ℕ) (backup : Option (List Chunk)) (before : ℕ) (w : LineWriter) : Prop :=
  w.old = backup ∧
      (w.file = true ∧ lineCount w.sent = before + w.lines ∧ w.lines ≤ limit ∨
        w.file = false ∧ w.rotateOnOpen = false ∧ lineCount w.sent = before) ∨
    before + limit < lineCount w.sent

section Retries

variable {env : Env} {limit before : ℕ} {backup : Option (List Chunk)} {w : LineWriter}

theorem keepsBackup_openLog (h : KeepsBackup limit backup before w) (env : Env) :
    KeepsBackup limit backup before (openLog env w).2 := by
  have hsent := sent_openLog env w
  rcases h with ⟨hold, hstate⟩ | hmore
  · rcases openLog_cases env w with ⟨hfile, hopen⟩ | ⟨hfile, hrotate, -⟩ | ⟨hfile, hrotate, -⟩ |
      ⟨hfile, hrotate, hopen⟩
    · rw [hopen]
      exact .inl ⟨hold, hstate⟩
    · rcases hstate with ⟨hopen, -⟩ | ⟨-, hkeep, -⟩
      · exact absurd (hfile.symm.trans hopen) nofun
      · exact absurd (hrotate.symm.trans hkeep) nofun
    · rcases hstate with ⟨hopen, -⟩ | ⟨-, hkeep, -⟩
      · exact absurd (hfile.symm.trans hopen) nofun
      · exact absurd (hrotate.symm.trans hkeep) nofun
    · rcases hstate with ⟨hopened, -⟩ | ⟨-, -, hcount⟩
      · exact absurd (hfile.symm.trans hopened) nofun
      · obtain ⟨hkept, hflag⟩ := createLog_frame env w
        rw [hopen] at hsent ⊢
        refine .inl ⟨hkept.trans hold, ?_⟩
        rcases createLog_file env w with ⟨-, hopened, hlines⟩ | ⟨-, hclosed⟩
        · exact .inl ⟨hopened, by rw [hsent, hcount, hlines, Nat.add_zero], by rw [hlines]; omega⟩
        · exact .inr ⟨hclosed.trans hfile, hflag.trans hrotate, by rw [hsent, hcount]⟩
  · exact .inr (by rw [hsent]; exact hmore)

/-- Everything that one turn can do. The line beyond the limit is written before anything else
fails. -/
theorem writeLine_cases (env : Env) (limit : ℕ) (w : LineWriter) (line : Bytes) :
    (∃ k, writeLine env limit w line = (false, w.append (.data (line.dropLast.take k)))) ∨
    line.getLast? ≠ some newline ∧ writeLine env limit w line = (true, w.append (.data line)) ∨
    line.getLast? = some newline ∧ w.lines + 1 ≤ limit ∧
      writeLine env limit w line = (true, { w.append (.data line) with lines := w.lines + 1 }) ∨
    line.getLast? = some newline ∧ limit < w.lines + 1 ∧ ∃ w', w'.sent = w.sent ++ line ∧
      (writeLine env limit w line = (false, w') ∨ writeLine env limit w line = openLog env w') := by
  unfold writeLine
  simp only
  split_ifs with hfail hend hfull hflush
  · exact .inl ⟨_, rfl⟩
  · exact .inr (.inr (.inr ⟨hend, hfull, _, rfl, .inl rfl⟩))
  · exact .inr (.inr (.inr ⟨hend, hfull, _, rfl, .inr rfl⟩))
  · exact .inr (.inr (.inl ⟨hend, Nat.le_of_not_lt hfull, rfl⟩))
  · exact .inr (.inl ⟨hend, rfl⟩)

theorem sent_writeLine (env : Env) (limit : ℕ) (w : LineWriter) (line : Bytes) :
    ∃ more, (writeLine env limit w line).2.sent = w.sent ++ more := by
  rcases writeLine_cases env limit w line with ⟨k, hwrite⟩ | ⟨-, hwrite⟩ | ⟨-, -, hwrite⟩ |
    ⟨-, -, w', hsent, hwrite | hwrite⟩
  · exact ⟨_, by rw [hwrite]; rfl⟩
  · exact ⟨_, by rw [hwrite]; rfl⟩
  · exact ⟨_, by rw [hwrite]; rfl⟩
  · exact ⟨line, by rw [hwrite, hsent]⟩
  · exact ⟨line, by rw [hwrite, sent_openLog, hsent]⟩

theorem keepsBackup_writeLine (h : KeepsBackup limit backup before w) (hfile : w.file = true)
    {line : Bytes} (hline : IsLine line) (env : Env) :
    KeepsBackup limit backup before (writeLine env limit w line).2 := by
  rcases h with ⟨hold, ⟨-, hcount, hle⟩ | ⟨hclosed, -⟩⟩ | hmore
  · have hends := lineCount_of_isLine hline
    rcases writeLine_cases env limit w line with ⟨k, hwrite⟩ | ⟨hopen, hwrite⟩ |
      ⟨hend, hroom, hwrite⟩ | ⟨hend, hfull, w', hsent, hwrite⟩
    · -- a part of the line is no complete line
      have hpart : lineCount (line.dropLast.take k) = 0 :=
        lineCount_eq_zero fun hmem => hline (List.mem_of_mem_take hmem)
      rw [hwrite]
      refine .inl ⟨hold, .inl ⟨hfile, ?_, hle⟩⟩
      rw [LineWriter.append, Chunk.written, lineCount_append, hpart, hcount]
      rfl
    · rw [if_neg hopen] at hends
      rw [hwrite]
      refine .inl ⟨hold, .inl ⟨hfile, ?_, hle⟩⟩
      rw [LineWriter.append, Chunk.written, lineCount_append, hends, hcount]
      rfl
    · rw [if_pos hend] at hends
      rw [hwrite]
      refine .inl ⟨hold, .inl ⟨hfile, ?_, hroom⟩⟩
      rw [LineWriter.append, Chunk.written, lineCount_append, hends, hcount, Nat.add_assoc]
    · rw [if_pos hend] at hends
      have hsum : lineCount w'.sent = before + w.lines + 1 := by
        rw [hsent, lineCount_append, hcount, hends]
      rcases hwrite with hwrite | hwrite
      · exact .inr (by rw [hwrite, hsum]; omega)
      · exact .inr (by rw [hwrite, sent_openLog, hsum]; omega)
  · exact absurd (hfile.symm.trans hclosed) nofun
  · obtain ⟨more, hsent⟩ := sent_writeLine env limit w line
    refine .inr ?_
    rw [hsent, lineCount_append]
    omega

theorem file_writeLine (hfile : w.file = true) (line : Bytes)
    (h : (writeLine env limit w line).1 = true) : (writeLine env limit w line).2.file = true := by
  rcases writeLine_cases env limit w line with ⟨k, hwrite⟩ | ⟨-, hwrite⟩ | ⟨-, -, hwrite⟩ |
    ⟨-, -, w', -, hwrite | hwrite⟩
  · rw [hwrite] at h
    cases h
  · rw [hwrite]
    exact hfile
  · rw [hwrite]
    exact hfile
  · rw [hwrite] at h
    cases h
  · rw [hwrite] at h ⊢
    rw [file_openLog]
    exact h

theorem keepsBackup_writeLines (h : KeepsBackup limit backup before w) (hfile : w.file = true)
    {lines : List Bytes} (hlines : ∀ line ∈ lines, IsLine line) (env : Env) :
    KeepsBackup limit backup before (writeLines env limit w lines).2 := by
  induction lines generalizing w with
  | nil => exact h
  | cons line lines ih =>
    have hkept := keepsBackup_writeLine h hfile (hlines line List.mem_cons_self) env
    have hopen : (writeLine env limit w line).1 = true → (writeLine env limit w line).2.file = true :=
      file_writeLine hfile line
    simp only [writeLines]
    rcases hwrite : writeLine env limit w line with ⟨_ | _, w'⟩
    · rw [hwrite] at hkept
      exact hkept
    · rw [hwrite] at hkept hopen
      exact ih hkept (hopen rfl) fun l hl => hlines l (List.mem_cons_of_mem _ hl)

/-- A call, or the first lines of one. -/
theorem keepsBackup_call (h : KeepsBackup limit backup before w) {lines : List Bytes}
    (hlines : ∀ line ∈ lines, IsLine line) (env : Env) :
    KeepsBackup limit backup before
      (match openLog env w with
        | (false, w) => w
        | (true, w) => (writeLines env limit w lines).2) := by
  have hkept := keepsBackup_openLog h env
  have hfile := file_openLog env w
  rcases hopen : openLog env w with ⟨_ | _, w'⟩
  · rw [hopen] at hkept
    exact hkept
  · rw [hopen] at hkept hfile
    exact keepsBackup_writeLines hkept hfile hlines env

theorem keepsBackup_writeBuffers (h : KeepsBackup limit backup before w) (env : Env)
    (bufs : List Bytes) : KeepsBackup limit backup before (writeBuffers env limit w bufs) := by
  induction bufs generalizing w with
  | nil => exact h
  | cons buf bufs ih =>
    have hlines : ∀ line ∈ splitInclusive buf, IsLine line := fun _ => isLine_of_mem_splitInclusive
    have hcall := keepsBackup_call h hlines env
    refine ih (w := (writeAll env limit w buf).2) ?_
    unfold writeAll
    rcases hopen : openLog env w with ⟨_ | _, w'⟩
    · rw [hopen] at hcall
      exact hcall
    · rw [hopen] at hcall
      exact hcall

theorem keepsBackup_pointOf (h : KeepsBackup limit backup before w) (env : Env) (bufs : List Bytes)
    (buf : Bytes) (k : ℕ) : KeepsBackup limit backup before (pointOf env limit w bufs buf k) := by
  have hlines : ∀ line ∈ (splitInclusive buf).take k, IsLine line :=
    fun _ hline => isLine_of_mem_splitInclusive (List.mem_of_mem_take hline)
  exact keepsBackup_call (keepsBackup_writeBuffers h env bufs) hlines env

/-- Where the rotation has succeeded and the log could not be created, the backup is the log from
before. -/
theorem openLog_failed {w' : LineWriter} (h : openLog env w = (false, w'))
    (hrotate : w.rotateOnOpen = true) (hdone : w'.rotateOnOpen = false) :
    w'.old = w.log ∧ w'.file = false := by
  have hfile : w'.file = false := by
    have hopened := file_openLog env w
    rwa [h] at hopened
  refine ⟨?_, hfile⟩
  rcases openLog_cases env w with ⟨-, hopen⟩ | ⟨-, -, -, hopen⟩ | ⟨-, -, hrotated, hopen⟩ |
    ⟨-, hkeep, -⟩
  · rw [h] at hopen
    cases hopen
  · rw [h, Prod.mk.injEq] at hopen
    rw [hopen.2, (rotateLog_frame env w).2, hrotate] at hdone
    cases hdone
  · have hold := (createLog_frame env { (rotateLog env w).2 with rotateOnOpen := false }).1
    rw [← hopen, h] at hold
    exact hold.trans (rotateLog_ok hrotated).1
  · exact absurd (hrotate.symm.trans hkeep) nofun

end Retries

/-! ## No line is lost early -/

/-- While the operations succeed, the backup and the log are the end of all that was written, at
every point between two lines. A rotation leaves one line more than the limit in the backup. When a
log could not be created after its rename, no number of calls that fail or succeed touches the
backup before as many lines have been written again. -/
theorem rotation_loses_no_line_early (limit : ℕ) (log old : Option Bytes) :
    (∀ env : Env, (∀ n, env.fails n = false) →
      ∃ w, openLog env (.new log old) = (true, w) ∧ ∀ bufs buf k,
        let p := pointOf env limit w bufs buf k
        let bytes := bufs.flatten ++ ((splitInclusive buf).take k).flatten
        written p.old ++ written p.log <:+ log.getD [] ++ bytes ∧
        (∃ time, contents p.log = bannerText time ++ written p.log) ∧
        (contents p.old = written p.old ∨
          ∃ time, contents p.old = bannerText time ++ written p.old) ∧
        lineCount (written p.log) ≤ limit ∧
        (lineCount bytes ≤ limit ∧ written p.old = log.getD [] ∨
          limit < lineCount bytes ∧ lineCount (written p.old) = limit + 1)) ∧
    ∀ (env : Env) (w w' : LineWriter), openLog env w = (false, w') → w.rotateOnOpen = true →
      w'.rotateOnOpen = false →
        w'.old = w.log ∧ ∀ bufs buf k,
          lineCount (pointOf env limit w' bufs buf k).sent ≤ lineCount w'.sent + limit →
            (pointOf env limit w' bufs buf k).old = w'.old := by
  constructor
  · intro env hio
    obtain ⟨w, hopen, hinv, hnothing⟩ := inv_openLog_new hio log old limit
    refine ⟨w, hopen, fun bufs buf k => ?_⟩
    obtain ⟨hpoint, hsent⟩ := inv_pointOf hio hinv bufs buf k
    rw [hnothing, List.nil_append] at hsent
    have hsuffix := hpoint.suffix
    have hbackup := hpoint.backup
    rw [hsent] at hsuffix hbackup
    refine ⟨hsuffix, hpoint.logBanner, hpoint.oldBanner, ?_, ?_⟩
    · rw [← hpoint.lines_eq]
      exact hpoint.lines_le
    · rcases hbackup with ⟨heq, hold⟩ | hrotated
      · exact .inl ⟨heq.trans_le hpoint.lines_le, hold⟩
      · exact .inr hrotated
  · intro env w w' hfail hrotate hdone
    obtain ⟨hold, hclosed⟩ := openLog_failed hfail hrotate hdone
    refine ⟨hold, fun bufs buf k hcount => ?_⟩
    have hstart : KeepsBackup limit w'.old (lineCount w'.sent) w' := .inl ⟨rfl, .inr ⟨hclosed, hdone, rfl⟩⟩
    rcases keepsBackup_pointOf hstart env bufs buf k with ⟨hkept, -⟩ | hmore
    · exact hkept
    · omega

/-- Every operation succeeds. -/
def steadyEnv : Env := ⟨fun _ => false, fun _ => 0, fun _ => [84]⟩

/-- The third operation fails, which creates the file. -/
def failedCreation : Env := ⟨fun n => n == 2, fun _ => 0, fun _ => [84]⟩

/-- At a limit of one line, a backup `b` that is lost at the first opening, then `a` in the log, and
three lines in two calls. -/
theorem rotation_at_one_line :
    (∃ w, openLog steadyEnv (.new (some [97]) (some [98])) = (true, w) ∧
      written (pointOf steadyEnv 1 w [[99, 10, 100]] [10, 101, 10, 102] 2).old = [99, 10, 100, 10] ∧
      written (pointOf steadyEnv 1 w [[99, 10, 100]] [10, 101, 10, 102] 2).log = [101, 10] ∧
      lineCount (written (pointOf steadyEnv 1 w [[99, 10, 100]] [10, 101, 10, 102] 2).log) ≤ 1) ∧
    ∃ w', openLog failedCreation (.new (some [97]) none) = (false, w') ∧
      written w'.old = [97] ∧ (pointOf failedCreation 1 w' [[99, 10]] [] 0).old = w'.old := by
  obtain ⟨hsteady, hretry⟩ := rotation_loses_no_line_early 1 (some [97]) (some [98])
  constructor
  · obtain ⟨w, hopen, hpoints⟩ := hsteady steadyEnv fun _ => rfl
    obtain ⟨-, -, -, hlines, -⟩ := hpoints [[99, 10, 100]] [10, 101, 10, 102] 2
    refine ⟨w, hopen, ?_, ?_, hlines⟩
    · obtain rfl := (Prod.mk.inj hopen).2
      rfl
    · obtain rfl := (Prod.mk.inj hopen).2
      rfl
  · obtain ⟨hold, hkept⟩ := hretry failedCreation (.new (some [97]) none) _ rfl rfl rfl
    refine ⟨_, rfl, ?_, hkept [[99, 10]] [] 0 (by decide)⟩
    rw [hold]
    rfl

end HathRs.LogRotation
