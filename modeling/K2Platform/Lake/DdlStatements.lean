import Mathlib.Data.List.DropRight
import K2Platform.Lib.QuotedSplit

/-!
# The statements of `lake.sql`

Model of `apply_ddl.py`: a text of SQL is split into statements, the namespaces in them are
collected, and the statements are run in order or, with `--dry-run`, printed.  A text is a list of
characters, as a Python string is.

* `statements_eq` — the loop splits at the semicolons with an even number of quotes before.
* `dry_run_applies` — what `--dry-run` prints is a text of the statements that a run applies.
-/

set_option autoImplicit false

namespace K2.Lake.Ddl

open QuotedSplit (endsInside toggle Whole)

/-! ## Python's strings -/

/-- The characters that `str.isspace` holds of. -/
def spaces : List Nat :=
  [9, 10, 11, 12, 13, 28, 29, 30, 31, 32, 133, 160, 5760, 8192, 8193, 8194, 8195, 8196, 8197, 8198,
    8199, 8200, 8201, 8202, 8232, 8233, 8239, 8287, 12288]

def isSpace (c : Char) : Bool := spaces.contains c.toNat

/-- `str.strip`. -/
def strip (text : List Char) : List Char := (text.dropWhile isSpace).rdropWhile isSpace

/-- The characters that end a line for `str.splitlines`. -/
def lineBreaks : List Nat := [10, 11, 12, 13, 28, 29, 30, 133, 8232, 8233]

def isLineBreak (c : Char) : Bool := lineBreaks.contains c.toNat

/-- The lines of a text, given what has been read of the first. -/
def linesFrom (line : List Char) : List Char → List (List Char)
  | [] => if line = [] then [] else [line]
  | [c] => if isLineBreak c then [line] else [line ++ [c]]
  | c :: d :: rest =>
    if c = '\r' ∧ d = '\n' then line :: linesFrom [] rest
    else if isLineBreak c then line :: linesFrom [] (d :: rest)
    else linesFrom (line ++ [c]) (d :: rest)

/-- `str.splitlines`. -/
def splitlines (text : List Char) : List (List Char) := linesFrom [] text

/-- `"\n".join`. -/
def joinLines (lines : List (List Char)) : List Char := ['\n'].intercalate lines

/-! ## Splitting -/

def QUOTE : Char := Char.ofNat 39

def isComment (line : List Char) : Bool := ['-', '-'].isPrefixOf (strip line)

/-- `stripped`. -/
def uncommented (sql : List Char) : List Char :=
  joinLines ((splitlines sql).filter fun line => !isComment line)

/-- What is appended to `out` when a statement ends. -/
def flush (buf : List Char) : List (List Char) := if strip buf = [] then [] else [strip buf]

/-- The loop, with `in_string` and `buf`. -/
def scan : Bool → List Char → List Char → List (List Char)
  | _, buf, [] => flush buf
  | inString, buf, [c] =>
    if inString = false ∧ c = ';' then flush buf ++ flush [] else flush (buf ++ [c])
  | inString, buf, c :: d :: rest =>
    if inString = true ∧ c = QUOTE ∧ d = QUOTE then scan true (buf ++ [c, d]) rest
    else if inString = false ∧ c = ';' then flush buf ++ scan false [] (d :: rest)
    else scan (if c = QUOTE then !inString else inString) (buf ++ [c]) (d :: rest)

def statements (sql : List Char) : List (List Char) := scan false [] (uncommented sql)

/-! ## Namespaces -/

section Namespaces

variable (isWord : Char → Bool)

/-- A match of `lake\.(\w+)\.` at the start of the text. -/
def namespaceAt (text : List Char) : Option (List Char) :=
  if "lake.".toList.isPrefixOf text then
    let ns := (text.drop 5).takeWhile isWord
    if ns ≠ [] ∧ (text.drop (5 + ns.length)).head? = some '.' then some ns else none
  else none

/-- `re.findall`: `skip` characters belong to the last match, and a match starts at a `\b`. -/
def findNamespaces : Nat → Bool → List Char → List (List Char)
  | _, _, [] => []
  | skip + 1, _, c :: text => findNamespaces skip (isWord c) text
  | 0, afterWord, c :: text =>
    match if afterWord then none else namespaceAt isWord (c :: text) with
    | some ns => ns :: findNamespaces (5 + ns.length) (isWord c) text
    | none => findNamespaces 0 (isWord c) text

/-- `namespaces`, in the order of their first use. -/
def namespaces (stmts : List (List Char)) : List (List Char) :=
  (findNamespaces isWord 0 false (joinLines stmts)).eraseDups

def createNamespace (ns : List Char) : List Char :=
  "CREATE NAMESPACE IF NOT EXISTS lake.".toList ++ ns

/-- What `apply` hands to `spark.sql`. -/
def applied (stmts : List (List Char)) : List (List Char) :=
  (namespaces isWord stmts).map createNamespace ++ stmts

/-- `-- [i/n]`. -/
def numberLine (i n : Nat) : List Char :=
  "-- [".toList ++ (toString i).toList ++ ['/'] ++ (toString n).toList ++ [']']

/-- The lines printed by `--dry-run`, each with the line end of `print`. -/
def dryRun (stmts : List (List Char)) : List Char :=
  ((namespaces isWord stmts).flatMap fun ns => createNamespace ns ++ [';', '\n']) ++
    (stmts.zipIdx 1).flatMap fun stmt =>
      numberLine stmt.2 stmts.length ++ ['\n'] ++ stmt.1 ++ [';', '\n'] ++ ['\n']

end Namespaces

/-! ## The loop -/

/-- The statements in a text without comment lines. -/
def statementsIn (text : List Char) : List (List Char) :=
  (QuotedSplit.split QUOTE ';' false text).flatMap flush

theorem scan_eq (inString : Bool) (buf text : List Char) :
    scan inString buf text =
      ((QuotedSplit.split QUOTE ';' inString text).modifyHead (buf ++ ·)).flatMap flush := by
  have hne : QUOTE ≠ ';' := by decide
  fun_induction scan inString buf text with
  | case1 inString buf => simp [QuotedSplit.split]
  | case2 inString buf c hsep => simp [QuotedSplit.split, hsep.1, hsep.2]
  | case3 inString buf c hsep =>
    have hsep' : ¬ (c = ';' ∧ inString = false) := fun h => hsep h.symm
    simp [QuotedSplit.split, hsep']
  | case4 inString buf c d rest hquotes ih =>
    -- a doubled quote closes the string and opens it again
    obtain ⟨rfl, rfl, rfl⟩ := hquotes
    rw [ih]
    simp [QuotedSplit.split, toggle, hne, List.modifyHead_modifyHead, Function.comp_def]
  | case5 inString buf c d rest hquotes hsep ih =>
    obtain ⟨rfl, rfl⟩ := hsep
    rw [ih, QuotedSplit.split_sep]
    cases QuotedSplit.split QUOTE ';' false (d :: rest) <;> simp
  | case6 inString buf c d rest hquotes hsep ih =>
    rw [ih, QuotedSplit.split_cons fun h => hsep h.symm, List.modifyHead_modifyHead, toggle]
    simp [Function.comp_def]

/-- **The loop is a split.**  Whether the next character is in a string literal is whether there is
    an odd number of quotes before it, doubled or not. -/
theorem statements_eq (sql : List Char) : statements sql = statementsIn (uncommented sql) := by
  rw [statements, scan_eq, statementsIn]
  cases QuotedSplit.split QUOTE ';' false (uncommented sql) <;> rfl

/-! ## Stripping -/

theorem isSpace_of_isLineBreak {c : Char} (h : isLineBreak c = true) : isSpace c = true := by
  rw [isLineBreak, List.contains_iff_mem] at h
  rw [isSpace, List.contains_iff_mem]
  exact (by decide : ∀ n ∈ lineBreaks, n ∈ spaces) _ h

theorem isSpace_newline : isSpace '\n' = true := by decide

theorem strip_cons_space {c : Char} (h : isSpace c = true) (text : List Char) :
    strip (c :: text) = strip text := by
  rw [strip, List.dropWhile_cons_of_pos h, strip]

theorem flush_cons_space {c : Char} (h : isSpace c = true) (buf : List Char) :
    flush (c :: buf) = flush buf := by
  rw [flush, flush, strip_cons_space h]

/-- What is left of a text is a part of it with spaces around. -/
theorem exists_spaces (text : List Char) : ∃ before after : List Char,
    text = before ++ (strip text ++ after) ∧ (∀ c ∈ before, isSpace c = true) ∧
      ∀ c ∈ after, isSpace c = true := by
  refine ⟨text.takeWhile isSpace, (text.dropWhile isSpace).rtakeWhile isSpace, ?_, ?_, ?_⟩
  · rw [strip, List.rdropWhile_append_rtakeWhile, List.takeWhile_append_dropWhile]
  · exact fun c hc => List.mem_takeWhile_imp hc
  · exact fun c hc => List.mem_rtakeWhile_imp hc

theorem rdropWhile_cons_of_neg {c : Char} (h : isSpace c = false) (text : List Char) :
    (c :: text).rdropWhile isSpace = c :: text.rdropWhile isSpace := by
  have hc : ¬ isSpace c = true := by simp [h]
  rw [List.rdropWhile, List.rdropWhile, List.reverse_cons, List.dropWhile_append]
  split
  · rename_i hnil
    rw [List.dropWhile_cons_of_neg hc, List.isEmpty_iff.1 hnil]
    rfl
  · rw [List.reverse_append]
    rfl

theorem strip_strip (text : List Char) : strip (strip text) = strip text := by
  have hself : (strip text).dropWhile isSpace = strip text := by
    rw [strip]
    cases hdrop : text.dropWhile isSpace with
    | nil => rfl
    | cons c rest =>
      have hc : isSpace c = false := by
        have hhead := List.head?_dropWhile_not isSpace text
        rw [hdrop] at hhead
        simpa using hhead
      rw [rdropWhile_cons_of_neg hc, List.dropWhile_cons_of_neg (by simp [hc])]
  rw [strip, hself, strip, List.rdropWhile_idempotent]

/-- A comment is known by its first characters that are not spaces. -/
theorem isComment_eq (line : List Char) :
    isComment line = ['-', '-'].isPrefixOf (line.dropWhile isSpace) := by
  have hdash : isSpace '-' = false := by decide
  rw [isComment, strip, Bool.eq_iff_iff, List.isPrefixOf_iff_prefix, List.isPrefixOf_iff_prefix]
  refine ⟨fun h => h.trans (List.rdropWhile_prefix _ _), fun h => ?_⟩
  obtain ⟨rest, hrest⟩ := h
  rw [← hrest]
  show ['-', '-'] <+: ('-' :: '-' :: rest).rdropWhile isSpace
  rw [rdropWhile_cons_of_neg hdash, rdropWhile_cons_of_neg hdash]
  exact ⟨_, rfl⟩

/-- A semicolon after a line makes it no comment. -/
theorem isComment_semicolon {line : List Char} (h : isComment line = false) :
    isComment (line ++ [';']) = false := by
  rw [isComment_eq] at h ⊢
  rw [List.dropWhile_append]
  split
  · rfl
  · rename_i hsome
    cases hdrop : line.dropWhile isSpace with
    | nil => exact absurd hdrop (by simpa using hsome)
    | cons c rest =>
      rw [hdrop] at h
      cases rest with
      | nil => simp [List.isPrefixOf]
      | cons d rest => simpa [List.isPrefixOf] using h

/-! ## Texts of statements -/

/-- A statement that a text can carry: trimmed, with its strings closed, no semicolon outside
    them, and no line that is a comment. -/
structure Plain (stmt : List Char) : Prop where
  trimmed : strip stmt = stmt
  nonempty : stmt ≠ []
  whole : Whole QUOTE ';' false stmt
  closed : endsInside QUOTE false stmt = false
  lined : ∀ c ∈ stmt, isLineBreak c = true → c = '\n'
  uncommented : ∀ line ∈ stmt.splitOn '\n', isComment line = false

theorem statementsIn_semicolon {stmt : List Char} (h : Plain stmt) (text : List Char) :
    statementsIn (stmt ++ ';' :: text) = stmt :: statementsIn text := by
  have hflush : flush stmt = [stmt] := by
    rw [flush, h.trimmed, if_neg h.nonempty]
  rw [statementsIn, QuotedSplit.split_append_sep h.whole h.closed, List.flatMap_cons, hflush]
  rfl

theorem statementsIn_newline (text : List Char) :
    statementsIn ('\n' :: text) = statementsIn text := by
  have hsep : ¬ ('\n' = ';' ∧ false = false) := by decide
  have htoggle : toggle QUOTE false '\n' = false := by decide
  rw [statementsIn, QuotedSplit.split_cons hsep, htoggle, statementsIn]
  cases QuotedSplit.split QUOTE ';' false text with
  | nil => rfl
  | cons part parts =>
    rw [List.modifyHead_cons, List.flatMap_cons, List.flatMap_cons,
      flush_cons_space isSpace_newline]

theorem joinLines_cons (line : List Char) (lines : List (List Char)) :
    joinLines (line :: lines) = line ++ if lines = [] then [] else '\n' :: joinLines lines := by
  cases lines <;> simp [joinLines, List.intercalate]

/-- A line of a text: a statement with a semicolon after it, or nothing. -/
def lineText (stmt : Option (List Char)) : List Char := (stmt.map (· ++ [';'])).getD []

theorem statementsIn_joinLines (lines : List (Option (List Char)))
    (h : ∀ stmt, some stmt ∈ lines → Plain stmt) :
    statementsIn (joinLines (lines.map lineText)) = lines.filterMap id := by
  induction lines with
  | nil => rfl
  | cons line lines ih =>
    have hrest := ih fun stmt hstmt => h stmt (List.mem_cons_of_mem line hstmt)
    rw [List.map_cons, joinLines_cons]
    have htail : statementsIn (if lines.map lineText = [] then []
        else '\n' :: joinLines (lines.map lineText)) = lines.filterMap id := by
      rw [← hrest]
      split
      · rename_i hnil
        rw [hnil]
        rfl
      · exact statementsIn_newline _
    cases line with
    | none =>
      rw [lineText, Option.map_none, Option.getD_none, List.nil_append, htail]
      rfl
    | some stmt =>
      rw [lineText, Option.map_some, Option.getD_some, List.append_assoc, List.singleton_append,
        statementsIn_semicolon (h stmt List.mem_cons_self), htail]
      rfl

/-! ## Lines -/

theorem linesFrom_cons {c : Char} (hc : c ≠ '\r') (line text : List Char) :
    linesFrom line (c :: text) =
      if isLineBreak c then line :: linesFrom [] text else linesFrom (line ++ [c]) text := by
  cases text with
  | nil => by_cases hbreak : isLineBreak c = true <;> simp [linesFrom, hbreak]
  | cons d rest => rw [linesFrom, if_neg fun h => hc h.1]

theorem splitOn_newline (text : List Char) :
    ('\n' :: text).splitOn '\n' = [] :: text.splitOn '\n' := by
  simp [List.splitOn, List.splitOnP_cons_eq_if_modifyHead]

theorem splitOn_cons {c : Char} (hc : c ≠ '\n') (text : List Char) :
    (c :: text).splitOn '\n' = (text.splitOn '\n').modifyHead (c :: ·) := by
  simp [List.splitOn, List.splitOnP_cons_eq_if_modifyHead, hc]

/-- A text with line feeds only, and a line feed after it. -/
theorem linesFrom_append {text : List Char} (h : ∀ c ∈ text, isLineBreak c = true → c = '\n')
    (rest : List Char) : ∀ line : List Char, linesFrom line (text ++ '\n' :: rest) =
      (text.splitOn '\n').modifyHead (line ++ ·) ++ linesFrom [] rest := by
  induction text with
  | nil =>
    intro line
    rw [List.nil_append, linesFrom_cons (by decide), if_pos (by decide)]
    simp
  | cons c text ih =>
    have hrest := ih fun d hd => h d (List.mem_cons_of_mem c hd)
    have hreturn : c ≠ '\r' := by
      rintro rfl
      exact absurd (h '\r' List.mem_cons_self (by decide)) (by decide)
    intro line
    rw [List.cons_append, linesFrom_cons hreturn]
    by_cases hc : c = '\n'
    · subst hc
      rw [if_pos (by decide), hrest, splitOn_newline]
      cases text.splitOn '\n' <;> simp
    · rw [if_neg fun hbreak => hc (h c List.mem_cons_self hbreak), hrest, splitOn_cons hc,
        List.modifyHead_modifyHead]
      simp [Function.comp_def]

theorem splitlines_flatMap (chunks : List (List Char))
    (h : ∀ chunk ∈ chunks, ∀ c ∈ chunk, isLineBreak c = true → c = '\n') :
    splitlines (chunks.flatMap (· ++ ['\n'])) = chunks.flatMap (·.splitOn '\n') := by
  induction chunks with
  | nil => rfl
  | cons chunk chunks ih =>
    have hrest := ih fun c hc => h c (List.mem_cons_of_mem chunk hc)
    rw [splitlines] at hrest ⊢
    rw [List.flatMap_cons, List.append_assoc, List.singleton_append,
      linesFrom_append (h chunk List.mem_cons_self), hrest, List.flatMap_cons]
    cases chunk.splitOn '\n' <;> rfl

/-- No line holds a line break. -/
theorem not_isLineBreak_of_mem (text : List Char) : ∀ line : List Char,
    (∀ c ∈ line, isLineBreak c = false) →
      ∀ l ∈ linesFrom line text, ∀ c ∈ l, isLineBreak c = false := by
  intro line
  fun_induction linesFrom line text with
  | case1 => exact fun _ l hl => absurd hl List.not_mem_nil
  | case2 line hne => exact fun h l hl => List.mem_singleton.1 hl ▸ h
  | case3 line c hbreak => exact fun h l hl => List.mem_singleton.1 hl ▸ h
  | case4 line c hbreak =>
    intro h l hl d hd
    rw [List.mem_singleton.1 hl] at hd
    rcases List.mem_append.1 hd with hd | hd
    · exact h d hd
    · rw [List.mem_singleton.1 hd]
      simpa using hbreak
  | case5 line c d rest _ ih | case6 line c d rest _ _ ih =>
    intro h l hl
    rcases List.mem_cons.1 hl with rfl | hl
    · exact h
    · exact ih (fun c hc => absurd hc List.not_mem_nil) l hl
  | case7 line c d rest _ hbreak ih =>
    intro h
    refine ih fun e he => ?_
    rcases List.mem_append.1 he with he | he
    · exact h e he
    · rw [List.mem_singleton.1 he]
      simpa using hbreak

theorem mem_joinLines {c : Char} {lines : List (List Char)} (h : c ∈ joinLines lines) :
    c = '\n' ∨ ∃ line ∈ lines, c ∈ line := by
  induction lines with
  | nil => cases h
  | cons line lines ih =>
    rw [joinLines_cons] at h
    rcases List.mem_append.1 h with h | h
    · exact Or.inr ⟨line, List.mem_cons_self, h⟩
    · split at h
      · cases h
      · rcases List.mem_cons.1 h with rfl | h
        · exact Or.inl rfl
        · refine (ih h).imp_right fun hline => ?_
          obtain ⟨l, hl, hc⟩ := hline
          exact ⟨l, List.mem_cons_of_mem line hl, hc⟩

/-- A text without comment lines has line feeds only. -/
theorem lined_uncommented (sql : List Char) :
    ∀ c ∈ uncommented sql, isLineBreak c = true → c = '\n' := by
  intro c hc hbreak
  refine (mem_joinLines hc).resolve_right fun hline => ?_
  obtain ⟨line, hline, hmem⟩ := hline
  have hnot := not_isLineBreak_of_mem sql [] (fun d hd => absurd hd List.not_mem_nil) line
    (List.mem_filter.1 hline).1 c hmem
  rw [hbreak] at hnot
  cases hnot

/-- The last line of a statement takes the semicolon. -/
theorem splitOn_semicolon (stmt : List Char) : ∃ lines last,
    stmt.splitOn '\n' = lines ++ [last] ∧
      (stmt ++ [';']).splitOn '\n' = lines ++ [last ++ [';']] := by
  induction stmt with
  | nil => exact ⟨[], [], rfl, by simp [splitOn_cons]⟩
  | cons c stmt ih =>
    obtain ⟨lines, last, hstmt, hsemicolon⟩ := ih
    rw [List.cons_append]
    by_cases hc : c = '\n'
    · subst hc
      rw [splitOn_newline, splitOn_newline, hstmt, hsemicolon]
      exact ⟨[] :: lines, last, rfl, rfl⟩
    · rw [splitOn_cons hc, splitOn_cons hc, hstmt, hsemicolon]
      cases lines with
      | nil => exact ⟨[], c :: last, rfl, rfl⟩
      | cons line lines => exact ⟨(c :: line) :: lines, last, rfl, rfl⟩

theorem Plain.lines {stmt : List Char} (h : Plain stmt) :
    ((stmt ++ [';']).splitOn '\n').filter (fun line => !isComment line) =
      (stmt ++ [';']).splitOn '\n' := by
  obtain ⟨lines, last, hstmt, hsemicolon⟩ := splitOn_semicolon stmt
  have hall := h.uncommented
  rw [hstmt] at hall
  rw [hsemicolon, List.filter_eq_self]
  intro line hline
  rcases List.mem_append.1 hline with hline | hline
  · rw [hall line (List.mem_append_left _ hline)]
    rfl
  · rw [List.mem_singleton.1 hline,
      isComment_semicolon (hall last (List.mem_append_right _ List.mem_cons_self))]
    rfl

theorem joinLines_append {lines lines' : List (List Char)} (h : lines ≠ []) :
    joinLines (lines ++ lines') =
      joinLines lines ++ if lines' = [] then [] else '\n' :: joinLines lines' := by
  induction lines with
  | nil => exact absurd rfl h
  | cons line lines ih =>
    rw [List.cons_append, joinLines_cons, joinLines_cons]
    by_cases hnil : lines = []
    · rw [hnil, List.nil_append, if_pos rfl, List.append_nil]
    · rw [if_neg hnil, if_neg (by simp [hnil]), ih hnil, List.append_assoc, List.cons_append]

/-- Lines that are put together again. -/
theorem joinLines_flatMap (chunks : List (List Char)) :
    joinLines (chunks.flatMap (·.splitOn '\n')) = joinLines chunks := by
  induction chunks with
  | nil => rfl
  | cons chunk chunks ih =>
    have hne : chunk.splitOn '\n' ≠ [] := List.splitOnP_ne_nil _ _
    have hiff : (chunks.flatMap fun chunk => chunk.splitOn '\n') = [] ↔ chunks = [] := by
      cases chunks with
      | nil => exact iff_of_true rfl rfl
      | cons c cs => simp [List.splitOnP_ne_nil, List.splitOn]
    rw [List.flatMap_cons, joinLines_append hne, joinLines_cons, ih, joinLines,
      List.intercalate_splitOn]
    simp only [hiff]

/-! ## The printed statements -/

/-- A chunk of a text that is read as it was meant: a comment, a statement with a semicolon, or an
    empty line. -/
inductive Chunk where
  | comment (line : List Char)
  | statement (stmt : List Char)
  | blank

def Chunk.text : Chunk → List Char
  | .comment line => line
  | .statement stmt => stmt ++ [';']
  | .blank => []

def Chunk.statement? : Chunk → Option (List Char)
  | .statement stmt => some stmt
  | _ => none

def Chunk.Readable : Chunk → Prop
  | .comment line => isComment line = true ∧ ∀ c ∈ line, isLineBreak c = false
  | .statement stmt => Plain stmt
  | .blank => True

/-- What is left of a chunk when the comments are gone: a statement, or an empty line. -/
def Chunk.line? : Chunk → Option (Option (List Char))
  | .comment _ => none
  | .statement stmt => some (some stmt)
  | .blank => some none

theorem splitOn_of_not_mem {line : List Char} (h : ∀ c ∈ line, isLineBreak c = false) :
    line.splitOn '\n' = [line] := by
  refine List.splitOnP_eq_singleton fun c hc => ?_
  have hbreak := h c hc
  rw [beq_eq_false_iff_ne]
  rintro rfl
  exact absurd hbreak (by decide)

theorem Chunk.lined {chunk : Chunk} (h : chunk.Readable) :
    ∀ c ∈ chunk.text, isLineBreak c = true → c = '\n' := by
  cases chunk with
  | comment line =>
    intro c hc hbreak
    rw [h.2 c hc] at hbreak
    cases hbreak
  | statement stmt =>
    intro c hc hbreak
    rcases List.mem_append.1 hc with hc | hc
    · exact Plain.lined h c hc hbreak
    · rw [List.mem_singleton.1 hc] at hbreak
      exact absurd hbreak (by decide)
  | blank => exact fun c hc => absurd hc List.not_mem_nil

/-- The lines that are kept of a chunk. -/
theorem Chunk.kept {chunk : Chunk} (h : chunk.Readable) :
    (chunk.text.splitOn '\n').filter (fun line => !isComment line) =
      (chunk.line?.toList.map lineText).flatMap (·.splitOn '\n') := by
  cases chunk with
  | comment line =>
    rw [Chunk.text, splitOn_of_not_mem h.2]
    simp [h.1, Chunk.line?]
  | statement stmt => exact (Plain.lines h).trans (by simp [Chunk.line?, lineText])
  | blank => rfl

/-- **A text of readable chunks, a line each, is read as its statements.** -/
theorem statements_chunks (chunks : List Chunk) (h : ∀ chunk ∈ chunks, chunk.Readable) :
    statements (chunks.flatMap fun chunk => chunk.text ++ ['\n']) =
      chunks.filterMap Chunk.statement? := by
  have hlines : splitlines (chunks.flatMap fun chunk => chunk.text ++ ['\n']) =
      chunks.flatMap fun chunk => chunk.text.splitOn '\n' := by
    have hall := splitlines_flatMap (chunks.map Chunk.text) fun text htext => by
      obtain ⟨chunk, hchunk, rfl⟩ := List.mem_map.1 htext
      exact Chunk.lined (h chunk hchunk)
    rwa [List.flatMap_map, List.flatMap_map] at hall
  have hkept : ((chunks.flatMap fun chunk => chunk.text.splitOn '\n').filter fun line =>
      !isComment line) =
        ((chunks.filterMap Chunk.line?).map lineText).flatMap (·.splitOn '\n') := by
    clear hlines
    induction chunks with
    | nil => rfl
    | cons chunk chunks ih =>
      rw [List.flatMap_cons, List.filter_append, Chunk.kept (h chunk List.mem_cons_self),
        ih fun c hc => h c (List.mem_cons_of_mem chunk hc), List.filterMap_cons]
      cases chunk.line? <;> simp
  have hplain : ∀ stmt, some stmt ∈ chunks.filterMap Chunk.line? → Plain stmt := by
    intro stmt hstmt
    obtain ⟨chunk, hchunk, heq⟩ := List.mem_filterMap.1 hstmt
    have hreadable := h chunk hchunk
    cases chunk with
    | statement stmt' =>
      cases heq
      exact hreadable
    | _ => cases heq
  rw [statements_eq, uncommented, hlines, hkept, joinLines_flatMap,
    statementsIn_joinLines _ hplain, List.filterMap_filterMap]
  refine congrArg (chunks.filterMap ·) (funext fun chunk => ?_)
  cases chunk <;> rfl

/-! ## What the text of a run holds -/

theorem endsInside_spaces {text : List Char} (h : ∀ c ∈ text, isSpace c = true) :
    endsInside QUOTE false text = false :=
  QuotedSplit.endsInside_of_not_mem fun hquote => absurd (h QUOTE hquote) (by decide)

/-- A statement that is read closes its strings if the text does. -/
theorem plain_of_mem {sql : List Char} (hclosed : endsInside QUOTE false (uncommented sql) = false)
    {stmt : List Char} (h : stmt ∈ statements sql)
    (hcomment : ∀ line ∈ stmt.splitOn '\n', isComment line = false) : Plain stmt := by
  rw [statements_eq] at h
  obtain ⟨part, hpart, hflush⟩ := List.mem_flatMap.1 h
  have hne : strip part ≠ [] := by
    intro hnil
    rw [flush, if_pos hnil] at hflush
    cases hflush
  rw [flush, if_neg hne] at hflush
  obtain rfl := List.mem_singleton.1 hflush
  obtain ⟨before, after, htext, hbefore, hafter⟩ := exists_spaces part
  have hwhole := QuotedSplit.forall_whole _ part hpart
  have hends := QuotedSplit.forall_closed (by decide) hclosed part hpart
  rw [htext, QuotedSplit.whole_append, endsInside_spaces hbefore,
    QuotedSplit.whole_append] at hwhole
  rw [htext, QuotedSplit.endsInside_append, endsInside_spaces hbefore,
    QuotedSplit.endsInside_append] at hends
  have hquote : QUOTE ∉ after := fun hmem => absurd (hafter QUOTE hmem) (by decide)
  rw [QuotedSplit.endsInside_of_not_mem hquote] at hends
  refine ⟨strip_strip part, hne, hwhole.2.1, hends, fun c hc hbreak => ?_, hcomment⟩
  have hmem : c ∈ part := by
    rw [htext]
    exact List.mem_append_right _ (List.mem_append_left _ hc)
  have hall : c ∈ uncommented sql := by
    rw [← QuotedSplit.intercalate_split QUOTE ';' false (uncommented sql)]
    exact QuotedSplit.mem_intercalate hpart hmem
  exact lined_uncommented sql c hall hbreak

section Words

variable {isWord : Char → Bool}

theorem namespaceAt_eq_some {text ns : List Char} (h : namespaceAt isWord text = some ns) :
    ns ≠ [] ∧ ∀ c ∈ ns, isWord c = true := by
  unfold namespaceAt at h
  split at h
  · simp only at h
    split at h
    · rename_i hns
      cases h
      exact ⟨hns.1, fun c hc => List.mem_takeWhile_imp hc⟩
    · cases h
  · cases h

theorem mem_findNamespaces (text : List Char) : ∀ (skip : Nat) (afterWord : Bool),
    ∀ ns ∈ findNamespaces isWord skip afterWord text, ns ≠ [] ∧ ∀ c ∈ ns, isWord c = true := by
  induction text with
  | nil =>
    intro skip afterWord ns hns
    cases skip <;> cases hns
  | cons c text ih =>
    intro skip afterWord ns hns
    cases skip with
    | succ skip => exact ih skip (isWord c) ns hns
    | zero =>
      rw [findNamespaces] at hns
      split at hns
      · rename_i found hfound
        rcases List.mem_cons.1 hns with rfl | hns
        · split at hfound
          · cases hfound
          · exact namespaceAt_eq_some hfound
        · exact ih _ _ ns hns
      · exact ih _ _ ns hns

/-- `\w` matches no white space, no quote and no semicolon. -/
structure WordClass (isWord : Char → Bool) : Prop where
  space : ∀ c, isWord c = true → isSpace c = false
  quote : isWord QUOTE = false
  semicolon : isWord ';' = false

theorem plain_createNamespace (hword : WordClass isWord) {ns : List Char} (hne : ns ≠ [])
    (hns : ∀ c ∈ ns, isWord c = true) : Plain (createNamespace ns) := by
  have hfirst : createNamespace ns =
      'C' :: ("REATE NAMESPACE IF NOT EXISTS lake.".toList ++ ns) := rfl
  have hno : ∀ c ∈ createNamespace ns, c ≠ QUOTE ∧ c ≠ ';' ∧ isLineBreak c = false := by
    intro c hc
    rcases List.mem_append.1 hc with hc | hc
    · have hquiet : ("CREATE NAMESPACE IF NOT EXISTS lake.".toList.all fun c =>
          c != QUOTE && c != ';' && !isLineBreak c) = true := rfl
      simpa [and_assoc] using List.all_eq_true.1 hquiet c hc
    · have hw := hns c hc
      refine ⟨?_, ?_, ?_⟩
      · rintro rfl
        rw [hword.quote] at hw
        cases hw
      · rintro rfl
        rw [hword.semicolon] at hw
        cases hw
      · have hspace := hword.space c hw
        by_contra hbreak
        rw [isSpace_of_isLineBreak (by simpa using hbreak)] at hspace
        cases hspace
  have hline := splitOn_of_not_mem fun c hc => (hno c hc).2.2
  refine ⟨?_, hfirst ▸ List.cons_ne_nil _ _, ?_, ?_, fun c hc hbreak => ?_, fun line hline' => ?_⟩
  · rw [strip, hfirst, List.dropWhile_cons_of_neg (by decide), ← hfirst,
      List.rdropWhile_eq_self_iff]
    intro hsome
    have hlast : (createNamespace ns).getLast hsome = ns.getLast hne :=
      List.getLast_append_of_ne_nil _ hne
    rw [hlast, hword.space _ (hns _ (List.getLast_mem hne))]
    exact Bool.false_ne_true
  · exact QuotedSplit.whole_of_not_mem fun hmem => (hno ';' hmem).2.1 rfl
  · exact QuotedSplit.endsInside_of_not_mem fun hmem => (hno QUOTE hmem).1 rfl
  · rw [(hno c hc).2.2] at hbreak
    cases hbreak
  · rw [hline] at hline'
    rw [List.mem_singleton.1 hline', isComment_eq, hfirst,
      List.dropWhile_cons_of_neg (by decide)]
    rfl

theorem readable_numberLine (i n : Nat) : (Chunk.comment (numberLine i n)).Readable := by
  have hdigit : ∀ k : Nat, ∀ c ∈ (toString k).toList, isLineBreak c = false := by
    intro k c hc
    have hc : c ∈ Nat.toDigits 10 k := by
      rwa [show (toString k).toList = Nat.toDigits 10 k from Nat.toList_repr] at hc
    have hd := Nat.isDigit_of_mem_toDigits (by decide) (by decide) hc
    by_contra hbreak
    have hmem : c.toNat ∈ lineBreaks := by simpa [isLineBreak] using hbreak
    have hbound : 48 ≤ c.toNat ∧ c.toNat ≤ 57 := by
      simpa [Char.isDigit, UInt32.le_iff_toNat_le] using hd
    exact absurd ((by decide : ∀ n ∈ lineBreaks, n < 48 ∨ 57 < n) _ hmem) (by omega)
  constructor
  · rw [isComment_eq]
    rfl
  · have hquiet : ∀ text : List Char, (text.all fun c => !isLineBreak c) = true →
        ∀ c ∈ text, isLineBreak c = false := fun text h => by simpa using h
    have happend : ∀ {a b : List Char}, (∀ c ∈ a, isLineBreak c = false) →
        (∀ c ∈ b, isLineBreak c = false) → ∀ c ∈ a ++ b, isLineBreak c = false :=
      fun ha hb => List.forall_mem_append.2 ⟨ha, hb⟩
    exact happend (happend (happend (happend (hquiet _ rfl) (hdigit i)) (hquiet _ rfl))
      (hdigit n)) (hquiet _ rfl)

/-- The chunks that `--dry-run` prints. -/
def dryChunks (isWord : Char → Bool) (stmts : List (List Char)) : List Chunk :=
  ((namespaces isWord stmts).map fun ns => Chunk.statement (createNamespace ns)) ++
    (stmts.zipIdx 1).flatMap fun stmt =>
      [.comment (numberLine stmt.2 stmts.length), .statement stmt.1, .blank]

theorem dryRun_eq (isWord : Char → Bool) (stmts : List (List Char)) :
    dryRun isWord stmts = (dryChunks isWord stmts).flatMap fun chunk => chunk.text ++ ['\n'] := by
  rw [dryRun, dryChunks, List.flatMap_append, List.flatMap_map, List.flatMap_assoc]
  refine congrArg₂ _ ?_ ?_
  · simp [Chunk.text]
  · refine congrArg (List.flatMap · _) (funext fun stmt => ?_)
    simp [Chunk.text]

/-- **What a dry run prints is what a run applies.**  For a text that closes its strings, with no
    comment after a semicolon on its line: fed back, the text that `--dry-run` prints gives the
    namespaces that a run creates and the statements that it hands to Spark, in their order. -/
theorem dry_run_applies (hword : WordClass isWord) (sql : List Char)
    (hclosed : endsInside QUOTE false (uncommented sql) = false)
    (hcomment : ∀ stmt ∈ statements sql, ∀ line ∈ stmt.splitOn '\n', isComment line = false) :
    statements (dryRun isWord (statements sql)) = applied isWord (statements sql) := by
  have hreadable : ∀ chunk ∈ dryChunks isWord (statements sql), chunk.Readable := by
    intro chunk hchunk
    rcases List.mem_append.1 hchunk with hchunk | hchunk
    · obtain ⟨ns, hns, rfl⟩ := List.mem_map.1 hchunk
      obtain ⟨hne, hall⟩ := mem_findNamespaces _ 0 false ns (List.mem_eraseDups.1 hns)
      exact plain_createNamespace hword hne hall
    · obtain ⟨stmt, hstmt, hmem⟩ := List.mem_flatMap.1 hchunk
      have hin : stmt.1 ∈ statements sql := List.fst_mem_of_mem_zipIdx hstmt
      simp only [List.mem_cons, List.not_mem_nil, or_false] at hmem
      rcases hmem with rfl | rfl | rfl
      · exact readable_numberLine _ _
      · exact plain_of_mem hclosed hin (hcomment _ hin)
      · trivial
  rw [dryRun_eq, statements_chunks _ hreadable, dryChunks, List.filterMap_append, applied]
  refine congrArg₂ _ ?_ ?_
  · rw [List.filterMap_map]
    exact congrFun (List.filterMap_eq_map (f := createNamespace)) _
  · rw [List.filterMap_flatMap]
    have hone : ∀ stmt : List Char × Nat,
        [Chunk.comment (numberLine stmt.2 (statements sql).length), .statement stmt.1,
          .blank].filterMap Chunk.statement? = [stmt.1] := fun _ => rfl
    simp only [hone]
    rw [← List.map_eq_flatMap]
    exact List.zipIdx_map_fst 1 _

end Words

/-! ## A text -/

def asciiWord (c : Char) : Bool := c.isAlphanum || c == '_'

theorem wordClass_asciiWord : WordClass asciiWord where
  space := by
    intro c hc
    by_contra hspace
    have hmem : c.toNat ∈ spaces := by simpa [isSpace] using hspace
    have hbound : (48 ≤ c.toNat ∧ c.toNat ≤ 57) ∨ (65 ≤ c.toNat ∧ c.toNat ≤ 90) ∨
        (97 ≤ c.toNat ∧ c.toNat ≤ 122) ∨ c.toNat = 95 := by
      rw [asciiWord, Bool.or_eq_true, beq_iff_eq] at hc
      rcases hc with hc | rfl
      · change (decide (c.val ≥ 65 ∧ c.val ≤ 90) || (c.val ≥ 97 && c.val ≤ 122) ||
          (c.val ≥ 48 && c.val ≤ 57)) = true at hc
        simp [UInt32.le_iff_toNat_le] at hc
        have hval : c.toNat = c.val.toNat := rfl
        omega
      · exact Or.inr (Or.inr (Or.inr rfl))
    have hnone : ∀ n ∈ spaces, ¬ ((48 ≤ n ∧ n ≤ 57) ∨ (65 ≤ n ∧ n ≤ 90) ∨ (97 ≤ n ∧ n ≤ 122) ∨
      n = 95) := by decide
    exact hnone _ hmem hbound
  quote := by decide
  semicolon := by decide

/-- A comment with a semicolon, a string with one and with a doubled quote, and two lines. -/
def twoTables : List Char := "-- a;\nC lake.raw.t 'b; ''c';\n\nD\n lake.gold.t;\n".toList

theorem statements_twoTables :
    statements twoTables = ["C lake.raw.t 'b; ''c'".toList, "D\n lake.gold.t".toList] := by
  decide +kernel

theorem two_tables_read_back :
    statements (dryRun asciiWord (statements twoTables)) =
      ["CREATE NAMESPACE IF NOT EXISTS lake.raw".toList,
        "CREATE NAMESPACE IF NOT EXISTS lake.gold".toList, "C lake.raw.t 'b; ''c'".toList,
        "D\n lake.gold.t".toList] := by
  have hcomment : ∀ stmt ∈ statements twoTables, ∀ line ∈ stmt.splitOn '\n',
      isComment line = false := by
    rw [statements_twoTables]
    decide +kernel
  rw [dry_run_applies wordClass_asciiWord twoTables (by decide +kernel) hcomment,
    statements_twoTables]
  decide +kernel

end K2.Lake.Ddl
