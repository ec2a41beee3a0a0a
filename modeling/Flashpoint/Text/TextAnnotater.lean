import Flashpoint.Diagnostics
import Flashpoint.Text.SplitString
import Mathlib.Data.List.Permutation
import Mathlib.Data.List.Sort

/-!
# The text annotater

`TextAnnotater`: the lines of a source, with annotations that are written below them. The lines come
from `getline`, and the line break behind the last of them is taken back by `restore`. The annotations
of a line are sorted by a comparison that puts those at the end of the source behind all others, in any
order (`renders_toString`).
-/

namespace Flashpoint

structure Annotation where
  location : Location
  text : StdString
deriving DecidableEq, Repr

structure TextAnnotater where
  lines : List StdString
  annotations : List (Nat × List Annotation) := []
deriving DecidableEq, Repr

namespace TextAnnotater

open TextWriter (ascii space newLine)

/-! ## The source and its annotations -/

/-- The loop over `getline` ends with the text; where the last call leaves an empty text, the source has
an empty last line. -/
def setSource (source : StdString) : TextAnnotater :=
  match StringStream.readPieces newLine (source.length + 2) { left := source } [] with
  | some (pieces, item) => { lines := if item = [] then pieces ++ [[]] else pieces }
  | none => { lines := [] }

def annotate (s : TextAnnotater) (text : StdString) (location : Location) : TextAnnotater :=
  let line := if location.endOfSource then s.lines.length else location.line
  let note : Annotation := ⟨{ location with line }, text⟩
  match s.annotations.lookup line with
  | some vec =>
    { s with annotations := s.annotations.map fun entry =>
        if entry.1 = line then (line, vec ++ [note]) else entry }
  | none => { s with annotations := (line, [note]) :: s.annotations }

/-- The comparison that the annotations of a line are sorted with. -/
def comesBefore (a b : Annotation) : Bool :=
  if a.location.endOfSource then false
  else if b.location.endOfSource then true
  else if a.location.line < b.location.line then true
  else if a.location.column < b.location.column then true
  else false

/-! ## Rendering -/

def tilde : UInt8 := 0x7E

def decimal (n : Nat) : StdString := ascii (toString n)

/-- The marks below a line of a size, and the text of the annotation. The loops count with an `int`;
more than `2 ^ 31 - 1` characters are written as if it did not overflow. -/
def writeMarks (writer : TextWriter) (size : Nat) (note : Annotation) : TextWriter :=
  let location := note.location
  let writer := Nat.iterate (·.write [space]) (location.column - 1) writer
  let max := min location.length ((size + 1 + 2 ^ 64 - location.column % 2 ^ 64) % 2 ^ 64)
  let writer := Nat.iterate (·.write [tilde]) max writer
  let writer :=
    if location.endOfSource = false then
      writer.write (ascii " (" ++ decimal location.line ++ ascii ", " ++ decimal location.column ++
        ascii ", " ++ decimal location.length ++ ascii ")")
    else writer.newline.write (ascii "END_OF_DOCUMENT:")
  (writer.newline.write (ascii "!!! " ++ note.text)).save.newline

/-- A line and what is below it, for the implementation of `std::sort`. -/
def writeLine (sort : List Annotation → List Annotation) (s : TextAnnotater) (writer : TextWriter)
    (line : StdString × Nat) : TextWriter :=
  let writer := (writer.write line.1).save.newline
  match s.annotations.lookup (line.2 + 1) with
  | some annotations =>
    let annotations := (sort annotations).map fun note =>
      if note.location.endOfSource then
        { note with location := { note.location with line := s.lines.length } }
      else note
    annotations.foldl (fun writer note => writeMarks writer line.1.length note) writer
  | none => writer

def toString (sort : List Annotation → List Annotation) (s : TextAnnotater) :
    Except StdString StdString :=
  ((s.lines.zipIdx.foldl (writeLine sort s) {}).restore).map TextWriter.text

/-- A source with annotations. -/
def annotated (source : StdString) (calls : List (StdString × Location)) : TextAnnotater :=
  calls.foldl (fun s call => s.annotate call.1 call.2) (setSource source)

/-! ## What is rendered -/

/-- What the standard says of `std::sort` where the comparison is a strict weak order, as it is between
annotations of one line: the same elements, none before one that must come first. -/
def IsSort (sort : List Annotation → List Annotation) : Prop :=
  ∀ annotations line, (∀ a ∈ annotations, a.location.line = line) →
    (sort annotations).Perm annotations ∧
      (sort annotations).Pairwise fun a b => comesBefore b a = false

/-- The marks and the text of an annotation, as they stand below a line of a size. -/
def block (size : Nat) (note : Annotation) : StdString :=
  let location := note.location
  List.replicate (location.column - 1) space ++
    List.replicate (min location.length ((size + 1 + 2 ^ 64 - location.column % 2 ^ 64) % 2 ^ 64)) tilde ++
    (if location.endOfSource = false then
      ascii " (" ++ decimal location.line ++ ascii ", " ++ decimal location.column ++ ascii ", " ++
        decimal location.length ++ ascii ")"
    else newLine :: ascii "END_OF_DOCUMENT:") ++
    newLine :: (ascii "!!! " ++ note.text)

/-- The lines of a source in their order, with annotations below each line. -/
def layout (lines : List StdString) (below : Nat → List Annotation) : StdString :=
  [newLine].intercalate (lines.zipIdx.flatMap fun (line, i) =>
    line :: (below (i + 1)).map (block line.length))

/-- The annotation that a call of `annotate` makes. -/
def annotationOf (source : StdString) (call : StdString × Location) : Annotation :=
  { text := call.1
    location := { call.2 with
      line := if call.2.endOfSource then (source.splitOn newLine).length else call.2.line } }

/-- The text holds the lines unchanged, every annotation once, directly below its line, and the
annotations of a line in an order. -/
structure Renders (ordered : Annotation → Annotation → Prop) (source : StdString)
    (calls : List (StdString × Location)) (text : StdString) : Prop where
  below : ∃ below : Nat → List Annotation, text = layout (source.splitOn newLine) below ∧
    (∀ line, (below line).Perm ((calls.map (annotationOf source)).filter (·.location.line = line))) ∧
    ∀ line, (below line).Pairwise ordered
  placed : ∀ call ∈ calls, 1 ≤ (annotationOf source call).location.line ∧
    (annotationOf source call).location.line ≤ (source.splitOn newLine).length
  plain : calls = [] → text = source

/-- Those at the end of the source come last, and the others are ordered by column. -/
def OthersByColumn (a b : Annotation) : Prop :=
  (a.location.endOfSource = true → b.location.endOfSource = true) ∧
    (b.location.endOfSource = false → a.location.column ≤ b.location.column)

instance : DecidableRel OthersByColumn := fun _ _ => inferInstanceAs (Decidable (_ ∧ _))

/-- Those at the end of the source come last, and both they and the others are ordered by column. -/
def AllByColumn (a b : Annotation) : Prop :=
  (a.location.endOfSource = true → b.location.endOfSource = true) ∧
    (a.location.endOfSource = b.location.endOfSource → a.location.column ≤ b.location.column)

instance : DecidableRel AllByColumn := fun _ _ => inferInstanceAs (Decidable (_ ∧ _))

/-- A location in the lines of the source, or at its end. -/
def IsPlaced (source : StdString) (location : Location) : Prop :=
  location.endOfSource = true ∨
    1 ≤ location.line ∧ location.line ≤ (source.splitOn newLine).length

instance (source : StdString) (location : Location) : Decidable (IsPlaced source location) :=
  inferInstanceAs (Decidable (_ ∨ _))

/-! ## The annotations of a line -/

theorem setSource_eq (source : StdString) :
    setSource source = { lines := source.splitOn newLine } := by
  obtain ⟨pieces, last, hread, hsplit, -⟩ :=
    Utils.readPieces_spec newLine (source.length + 2) (s := source) [] (Nat.le_refl _)
  rw [setSource, hread]
  simp only [← hsplit]
  split
  · rfl
  · rw [List.append_nil]

/-- The annotations of a line, in the order in which they were made. -/
def annotationsAt (s : TextAnnotater) (line : Nat) : List Annotation :=
  (s.annotations.lookup line).getD []

/-- The entry of a line with other annotations. -/
def setEntries (entries : List (Nat × List Annotation)) (line : Nat) (vec : List Annotation) :
    List (Nat × List Annotation) :=
  entries.map fun entry => if entry.1 = line then (line, vec) else entry

theorem lookup_setEntries_self {entries : List (Nat × List Annotation)} {line : Nat}
    (vec : List Annotation) (h : (entries.lookup line).isSome) :
    (setEntries entries line vec).lookup line = some vec := by
  induction entries with
  | nil => cases h
  | cons entry entries ih =>
    by_cases heq : entry.1 = line
    · simp [setEntries, heq]
    · have hne : (line == entry.1) = false := by simp [Ne.symm heq]
      rw [List.lookup_cons, hne] at h
      simp only [setEntries, List.map_cons] at ih ⊢
      rw [if_neg heq, List.lookup_cons, hne]
      exact ih h

theorem lookup_setEntries_of_ne (entries : List (Nat × List Annotation)) {line line' : Nat}
    (vec : List Annotation) (h : line' ≠ line) :
    (setEntries entries line vec).lookup line' = entries.lookup line' := by
  induction entries with
  | nil => rfl
  | cons entry entries ih =>
    simp only [setEntries, List.map_cons] at ih ⊢
    rw [List.lookup_cons, List.lookup_cons, ih]
    by_cases heq : entry.1 = line
    · have hne : (line' == line) = false := by simp [h]
      rw [if_pos heq, heq, hne]
    · rw [if_neg heq]

theorem lines_annotate (s : TextAnnotater) (text : StdString) (location : Location) :
    (s.annotate text location).lines = s.lines := by
  simp only [annotate]
  split <;> rfl

theorem annotationsAt_annotate {source : StdString} {s : TextAnnotater}
    (hlines : s.lines = source.splitOn newLine) (call : StdString × Location) (line : Nat) :
    (s.annotate call.1 call.2).annotationsAt line =
      s.annotationsAt line ++ [annotationOf source call].filter (·.location.line = line) := by
  have hline : (if call.2.endOfSource then s.lines.length else call.2.line) =
      (annotationOf source call).location.line := by
    rw [hlines]
    rfl
  have hnote : Annotation.mk { call.2 with line := (annotationOf source call).location.line } call.1 =
      annotationOf source call := rfl
  simp only [annotate, hline, hnote]
  generalize annotationOf source call = note
  by_cases heq : note.location.line = line
  · subst heq
    rw [List.filter_cons_of_pos (by simp), List.filter_nil]
    cases hlookup : s.annotations.lookup note.location.line with
    | none => simp [annotationsAt, hlookup]
    | some vec =>
      have hsome : (s.annotations.lookup note.location.line).isSome := by rw [hlookup]; rfl
      have hset := lookup_setEntries_self (vec ++ [note]) hsome
      rw [setEntries] at hset
      simp only [annotationsAt, hset, hlookup, Option.getD_some]
  · rw [List.filter_cons_of_neg (by simpa using heq), List.filter_nil, List.append_nil]
    cases hlookup : s.annotations.lookup note.location.line with
    | none =>
      have hne : (line == note.location.line) = false := by simp [Ne.symm heq]
      simp only [annotationsAt, List.lookup_cons, hne]
    | some vec =>
      have hset := lookup_setEntries_of_ne s.annotations (vec ++ [note]) (Ne.symm heq)
      rw [setEntries] at hset
      simp only [annotationsAt, hset]

/-- What the calls of `annotate` leave for each line. -/
theorem annotated_spec (source : StdString) (calls : List (StdString × Location)) :
    (annotated source calls).lines = source.splitOn newLine ∧
      ∀ line, (annotated source calls).annotationsAt line =
        (calls.map (annotationOf source)).filter (·.location.line = line) := by
  induction calls using List.reverseRecOn with
  | nil =>
    rw [annotated, List.foldl_nil, setSource_eq]
    exact ⟨rfl, fun _ => rfl⟩
  | append_singleton calls call ih =>
    obtain ⟨hlines, hat⟩ := ih
    have hstep : annotated source (calls ++ [call]) =
        (annotated source calls).annotate call.1 call.2 := by
      rw [annotated, List.foldl_append]
      rfl
    refine ⟨by rw [hstep, lines_annotate, hlines], fun line => ?_⟩
    rw [hstep, annotationsAt_annotate hlines, hat, List.map_append, List.filter_append]
    rfl

/-! ## Writing -/

/-- The writer has written so many pieces, each with a line break behind it, and saved the text before
the last line break. -/
structure Wrote (writer : TextWriter) (pieces : List StdString) : Prop where
  indentation : writer.indentation = 0
  text : writer.text = pieces.flatMap (· ++ [newLine])
  saved : pieces ≠ [] → ∃ saved cursors, writer.savedTextCursors = saved :: cursors ∧
    saved.text = [newLine].intercalate pieces

/-- A writer without indentation that has gone on with a text. -/
structure Adds (writer : TextWriter) (text : StdString) (writer' : TextWriter) : Prop where
  indentation : writer'.indentation = 0
  text : writer'.text = writer.text ++ text

namespace Adds

variable {writer writer' : TextWriter} {text : StdString}

theorem start (h : writer.indentation = 0) : Adds writer [] writer :=
  ⟨h, (List.append_nil _).symm⟩

theorem write (h : Adds writer text writer') (t : StdString) :
    Adds writer (text ++ t) (writer'.write t) := by
  have hprint : writer'.printIndentation.text = writer'.text := by
    simp [TextWriter.printIndentation, TextWriter.append, h.indentation]
  rw [TextWriter.write]
  split
  · refine ⟨h.indentation, ?_⟩
    rw [TextWriter.append, hprint, h.text, List.append_assoc]
  · refine ⟨h.indentation, ?_⟩
    rw [TextWriter.append, h.text, List.append_assoc]

theorem newline (h : Adds writer text writer') :
    Adds writer (text ++ [newLine]) writer'.newline := by
  refine ⟨h.indentation, ?_⟩
  rw [TextWriter.newline, h.text, List.append_assoc]

theorem iterate (h : Adds writer text writer') (ch : UInt8) (n : Nat) :
    Adds writer (text ++ List.replicate n ch) (Nat.iterate (·.write [ch]) n writer') := by
  induction n generalizing writer' text with
  | zero =>
    rw [List.replicate_zero, List.append_nil]
    exact h
  | succ n ih =>
    have hnext := ih (h.write [ch])
    rw [List.append_assoc, List.singleton_append, ← List.replicate_succ] at hnext
    exact hnext

end Adds

theorem intercalate_concat (pieces : List StdString) (piece : StdString) :
    [newLine].intercalate (pieces ++ [piece]) = pieces.flatMap (· ++ [newLine]) ++ piece := by
  induction pieces with
  | nil => simp
  | cons first pieces ih =>
    have hne : pieces ++ [piece] ≠ [] := by simp
    rw [List.cons_append, List.intercalate_cons_of_ne_nil hne, ih, List.flatMap_cons]
    simp [List.append_assoc]

/-- One piece more is written, saved, and ended. -/
theorem Wrote.piece {writer writer' : TextWriter} {pieces : List StdString} {piece : StdString}
    (h : Wrote writer pieces) (hadds : Adds writer piece writer') :
    Wrote writer'.save.newline (pieces ++ [piece]) where
  indentation := hadds.indentation
  text := by
    show writer'.text ++ [newLine] = _
    rw [hadds.text, h.text, List.flatMap_append, List.append_assoc]
    simp
  saved := fun _ => by
    refine ⟨_, _, rfl, ?_⟩
    show writer'.text = _
    rw [hadds.text, h.text, intercalate_concat]

theorem wrote_writeMarks {writer : TextWriter} {pieces : List StdString}
    (h : Wrote writer pieces) (size : Nat) (note : Annotation) :
    Wrote (writeMarks writer size note) (pieces ++ [block size note]) := by
  have hmarks := ((Adds.start h.indentation).iterate space (note.location.column - 1)).iterate
    tilde (min note.location.length
      ((size + 1 + 2 ^ 64 - note.location.column % 2 ^ 64) % 2 ^ 64))
  simp only [writeMarks, block]
  apply h.piece
  split
  · have hplace := ((hmarks.write (ascii " (" ++ decimal note.location.line ++ ascii ", " ++
      decimal note.location.column ++ ascii ", " ++ decimal note.location.length ++
      ascii ")")).newline).write (ascii "!!! " ++ note.text)
    simpa only [List.nil_append, List.append_assoc, List.singleton_append, List.cons_append] using hplace
  · have hplace := ((hmarks.newline.write (ascii "END_OF_DOCUMENT:")).newline).write
      (ascii "!!! " ++ note.text)
    simpa only [List.nil_append, List.append_assoc, List.singleton_append, List.cons_append] using hplace

theorem wrote_foldl {writer : TextWriter} {pieces : List StdString} (h : Wrote writer pieces)
    (size : Nat) (annotations : List Annotation) :
    Wrote (annotations.foldl (fun writer note => writeMarks writer size note) writer)
      (pieces ++ annotations.map (block size)) := by
  induction annotations generalizing writer pieces with
  | nil =>
    rw [List.map_nil, List.append_nil]
    exact h
  | cons note annotations ih =>
    have hrest := ih (wrote_writeMarks h size note)
    rw [List.append_assoc] at hrest
    exact hrest

/-- The line that an annotation at the end of the source is given once more is not written. -/
theorem block_atEnd (size lines : Nat) (note : Annotation) :
    block size (if note.location.endOfSource then
      { note with location := { note.location with line := lines } } else note) =
    block size note := by
  split
  · next hend => simp [block, hend]
  · rfl

/-- The sorted annotations of a line. -/
def below (sort : List Annotation → List Annotation) (s : TextAnnotater) (line : Nat) :
    List Annotation :=
  match s.annotations.lookup line with
  | some annotations => sort annotations
  | none => []

theorem wrote_writeLine {writer : TextWriter} {pieces : List StdString} (h : Wrote writer pieces)
    (sort : List Annotation → List Annotation) (s : TextAnnotater) (line : StdString × Nat) :
    Wrote (writeLine sort s writer line)
      (pieces ++ line.1 :: (below sort s (line.2 + 1)).map (block line.1.length)) := by
  have hline : Wrote (writer.write line.1).save.newline (pieces ++ [line.1]) := by
    apply h.piece
    have hadds := (Adds.start h.indentation).write line.1
    rw [List.nil_append] at hadds
    exact hadds
  simp only [writeLine, below]
  cases s.annotations.lookup (line.2 + 1) with
  | none => exact hline
  | some annotations =>
    have hbelow := wrote_foldl hline line.1.length ((sort annotations).map fun note =>
      if note.location.endOfSource then
        { note with location := { note.location with line := s.lines.length } }
      else note)
    rw [List.map_map, List.append_assoc] at hbelow
    have hblocks : block line.1.length ∘ (fun note : Annotation =>
        if note.location.endOfSource then
          { note with location := { note.location with line := s.lines.length } }
        else note) = block line.1.length := funext fun _ => block_atEnd _ _ _
    rw [hblocks] at hbelow
    exact hbelow

theorem wrote_lines (sort : List Annotation → List Annotation) (s : TextAnnotater)
    (lines : List (StdString × Nat)) {writer : TextWriter} {pieces : List StdString}
    (h : Wrote writer pieces) :
    Wrote (lines.foldl (writeLine sort s) writer) (pieces ++ lines.flatMap fun (line, i) =>
      line :: (below sort s (i + 1)).map (block line.length)) := by
  induction lines generalizing writer pieces with
  | nil =>
    rw [List.flatMap_nil, List.append_nil]
    exact h
  | cons line lines ih =>
    have hrest := ih (wrote_writeLine h sort s line)
    rw [List.append_assoc] at hrest
    exact hrest

/-- The text of an annotater that has a line. -/
theorem toString_eq (sort : List Annotation → List Annotation) {s : TextAnnotater}
    (h : s.lines ≠ []) : s.toString sort = .ok (layout s.lines (below sort s)) := by
  have hstart : Wrote {} [] := ⟨rfl, rfl, fun h => absurd rfl h⟩
  have hwrote := wrote_lines sort s s.lines.zipIdx hstart
  have hne : ([] : List StdString) ++ s.lines.zipIdx.flatMap (fun (line, i) =>
      line :: (below sort s (i + 1)).map (block line.length)) ≠ [] := by
    obtain ⟨line, lines, hlines⟩ := List.exists_cons_of_ne_nil h
    rw [hlines]
    simp
  obtain ⟨saved, cursors, hsaved, htext⟩ := hwrote.saved hne
  rw [toString, TextWriter.restore, hsaved]
  simp only [Except.map, htext]
  rfl

/-! ## The order -/

/-- On one line the comparison says that the one comes before the other in no case but that. -/
theorem comesBefore_eq_false_iff {a b : Annotation} (h : a.location.line = b.location.line) :
    comesBefore b a = false ↔ OthersByColumn a b := by
  unfold comesBefore OthersByColumn
  cases hb : b.location.endOfSource with
  | true => simp
  | false =>
    cases ha : a.location.endOfSource with
    | true => simp
    | false => simp [h]

theorem IsSort.ordered {sort : List Annotation → List Annotation} (h : IsSort sort)
    {annotations : List Annotation} {line : Nat} (hline : ∀ a ∈ annotations, a.location.line = line) :
    (sort annotations).Pairwise OthersByColumn := by
  obtain ⟨hperm, hsorted⟩ := h annotations line hline
  apply hsorted.imp_of_mem
  intro a b ha hb hbefore
  have hsame : a.location.line = b.location.line := by
    rw [hline a (hperm.mem_iff.1 ha), hline b (hperm.mem_iff.1 hb)]
  exact (comesBefore_eq_false_iff hsame).1 hbefore

theorem below_spec {sort : List Annotation → List Annotation} (hsort : IsSort sort)
    (source : StdString) (calls : List (StdString × Location)) (line : Nat) :
    (below sort (annotated source calls) line).Perm
        ((calls.map (annotationOf source)).filter (·.location.line = line)) ∧
      (below sort (annotated source calls) line).Pairwise OthersByColumn := by
  have hat := (annotated_spec source calls).2 line
  rw [annotationsAt] at hat
  rw [← hat, below]
  cases hlookup : (annotated source calls).annotations.lookup line with
  | none => exact ⟨.nil, .nil⟩
  | some annotations =>
    have hline : ∀ a ∈ annotations, a.location.line = line := by
      intro a ha
      rw [hlookup, Option.getD_some] at hat
      rw [hat, List.mem_filter] at ha
      simpa using ha.2
    exact ⟨(hsort annotations line hline).1, hsort.ordered hline⟩

theorem layout_of_nil (source : StdString) {below : Nat → List Annotation} (h : ∀ line, below line = []) :
    layout (source.splitOn newLine) below = source := by
  have hlines : ∀ (lines : List StdString) n, ((lines.zipIdx n).flatMap fun (line, i) =>
      line :: (below (i + 1)).map (block line.length)) = lines := by
    intro lines
    induction lines with
    | nil => intro n; rfl
    | cons line lines ih =>
      intro n
      rw [List.zipIdx_cons, List.flatMap_cons, ih]
      simp [h]
  rw [layout, hlines, List.intercalate_splitOn]

/-- **A text is rendered with all its lines and annotations; those that are not at the end of the source
are ordered by column.** -/
theorem renders_toString {sort : List Annotation → List Annotation} (hsort : IsSort sort)
    (source : StdString) (calls : List (StdString × Location))
    (hcalls : ∀ call ∈ calls, IsPlaced source call.2) :
    ∃ text, (annotated source calls).toString sort = .ok text ∧
      Renders OthersByColumn source calls text := by
  have hlines := (annotated_spec source calls).1
  have hne : (annotated source calls).lines ≠ [] := by
    rw [hlines]
    exact List.splitOn_ne_nil _ _
  refine ⟨_, toString_eq sort hne, ?_, ?_, ?_⟩
  · rw [hlines]
    exact ⟨_, rfl, fun line => (below_spec hsort source calls line).1,
      fun line => (below_spec hsort source calls line).2⟩
  · intro call hcall
    have hpos : 0 < (source.splitOn newLine).length := List.length_pos_of_ne_nil (List.splitOn_ne_nil _ _)
    simp only [annotationOf]
    split
    · exact ⟨hpos, Nat.le_refl _⟩
    · next hend => exact (hcalls call hcall).resolve_left hend
  · rintro rfl
    rw [hlines]
    apply layout_of_nil
    intro line
    exact List.perm_nil.1 (below_spec hsort source [] line).1

/-- What `std::sort` does with a few elements. -/
def sortFew : List Annotation → List Annotation := List.insertionSort OthersByColumn

theorem othersByColumn_trans {a b c : Annotation} (hab : OthersByColumn a b)
    (hbc : OthersByColumn b c) : OthersByColumn a c := by
  refine ⟨fun h => hbc.1 (hab.1 h), fun h => ?_⟩
  have hb : b.location.endOfSource = false := by
    rw [← Bool.not_eq_true]
    intro hb
    rw [hbc.1 hb] at h
    cases h
  exact Nat.le_trans (hab.2 hb) (hbc.2 h)

theorem othersByColumn_total (a b : Annotation) : OthersByColumn a b ∨ OthersByColumn b a := by
  unfold OthersByColumn
  have htotal := Nat.le_total a.location.column b.location.column
  cases a.location.endOfSource <;> cases b.location.endOfSource <;> simp [htotal]

theorem isSort_sortFew : IsSort sortFew := by
  intro annotations line hline
  have : Std.Total OthersByColumn := ⟨othersByColumn_total⟩
  have : IsTrans Annotation OthersByColumn := ⟨fun _ _ _ => othersByColumn_trans⟩
  have hperm : (sortFew annotations).Perm annotations := List.perm_insertionSort ..
  refine ⟨hperm, (List.pairwise_insertionSort OthersByColumn annotations).imp_of_mem ?_⟩
  intro a b ha hb hbefore
  refine (comesBefore_eq_false_iff ?_).2 hbefore
  rw [hline a (hperm.mem_iff.1 ha), hline b (hperm.mem_iff.1 hb)]

/-- Two annotations of a line, one at the end of the source and an empty last line. -/
theorem renders_of_three :
    ∃ text, (annotated (ascii "ab\n") [(ascii "x", ⟨1, 2, 1, false⟩), (ascii "y", ⟨1, 1, 2, false⟩),
        (ascii "z", ⟨0, 0, 0, true⟩)]).toString sortFew = .ok text ∧
      Renders OthersByColumn (ascii "ab\n") [(ascii "x", ⟨1, 2, 1, false⟩),
        (ascii "y", ⟨1, 1, 2, false⟩), (ascii "z", ⟨0, 0, 0, true⟩)] text :=
  renders_toString isSort_sortFew _ _ (by decide)

/-- Two annotations at the end of the source. -/
def twoAtEnd : List (StdString × Location) :=
  [(ascii "x", ⟨0, 2, 0, true⟩), (ascii "y", ⟨0, 1, 0, true⟩)]

/-- They stay in the order in which they were made. -/
theorem not_renders_allByColumn :
    IsSort sortFew ∧ (∀ call ∈ twoAtEnd, IsPlaced (ascii "a") call.2) ∧
      ¬ ∃ text, (annotated (ascii "a") twoAtEnd).toString sortFew = .ok text ∧
        Renders AllByColumn (ascii "a") twoAtEnd text := by
  refine ⟨isSort_sortFew, by decide, ?_⟩
  rintro ⟨text, htext, hrenders⟩
  obtain ⟨below, hlayout, hperm, hordered⟩ := hrenders.below
  have hpair : (below 1).Perm [annotationOf (ascii "a") (ascii "x", ⟨0, 2, 0, true⟩),
      annotationOf (ascii "a") (ascii "y", ⟨0, 1, 0, true⟩)] := hperm 1
  rcases List.perm_pair.1 hpair with heq | heq
  · have hone := hordered 1
    rw [heq] at hone
    exact absurd hone (by decide)
  · -- the writer has the first of them first
    have hlines : (ascii "a").splitOn newLine = [ascii "a"] := by decide
    have hblocks : text = [newLine].intercalate (ascii "a" :: (below 1).map (block 1)) := by
      rw [hlayout, layout, hlines]
      simp [ascii]
    rw [hblocks, heq] at htext
    exact absurd htext (by decide)

end TextAnnotater

end Flashpoint
