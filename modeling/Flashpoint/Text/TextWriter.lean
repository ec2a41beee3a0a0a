import Mathlib.Algebra.Group.Int.Defs
import Mathlib.Algebra.Group.Nat.Defs
import Mathlib.Data.List.Count

/-!
# The text writer

`TextWriter`: a text with a cursor behind it, which is saved and restored, and places that are written
later. No text has as many characters as an `unsigned long` counts, so that positions and columns are
numbers; the indentation is an `unsigned int`.

`restore` brings back the text, the position and the column, but not the indentation
(`undoes_iff`).
-/

namespace Flashpoint

/-- The bytes of a `std::string`. -/
abbrev StdString := List UInt8

structure TextCursor where
  position : Nat
  column : Nat
  indentation : UInt32
deriving DecidableEq, Repr

structure TextAndTextCursor extends TextCursor where
  text : StdString
deriving DecidableEq, Repr

structure PlaceholderTextCursor extends TextCursor where
  placeholder : StdString
  textEnd : StdString
deriving DecidableEq, Repr

/-- The stacks have their top in front. -/
structure TextWriter where
  text : StdString := []
  position : Nat := 0
  column : Nat := 0
  indentation : UInt32 := 0
  tabs : List UInt32 := []
  placeholders : List (StdString × TextCursor) := []
  currentPlaceholders : List StdString := []
  savedPlaceholderTextCursors : List PlaceholderTextCursor := []
  savedTextCursors : List TextAndTextCursor := []
deriving DecidableEq, Repr

namespace TextWriter

def indentationStep : UInt32 := 4

def space : UInt8 := 0x20

def newLine : UInt8 := 0x0A

/-! ## Writing -/

def indent (s : TextWriter) : TextWriter :=
  { s with indentation := s.indentation + indentationStep }

def unindent (s : TextWriter) : TextWriter :=
  { s with indentation := s.indentation - indentationStep }

/-- `*text += t`, with the column and the position. -/
def append (s : TextWriter) (t : StdString) : TextWriter :=
  { s with text := s.text ++ t, column := s.column + t.length, position := s.position + t.length }

/-- The loop counts with an `int`; more than `2 ^ 31 - 1` spaces are written as if it did not
overflow. -/
def printIndentation (s : TextWriter) : TextWriter :=
  s.append (List.replicate s.indentation.toNat space)

def addTab (s : TextWriter) (indentation : UInt32) : TextWriter :=
  { s with tabs := s.tabs ++ [indentation] }

/-- `n += diff`, where a negative `int` is converted to an `unsigned long`. -/
def addInt (n : Nat) (diff : Int) : Nat :=
  if 0 ≤ diff then n + diff.toNat else ((n + diff) % 2 ^ 64).toNat

/-- The loop of `tab` over the tabs. The difference is converted to an `int`. -/
def tabOver (s : TextWriter) : List UInt32 → TextWriter
  | [] => s
  | stop :: tabs =>
    if s.column < stop.toNat then
      let diff : Int := ((stop.toNat - s.column : Nat) + 2 ^ 31) % 2 ^ 32 - 2 ^ 31
      { s with
        text := s.text ++ List.replicate diff.toNat space
        column := addInt s.column diff
        position := addInt s.position diff }
    else tabOver (s.append [space]) tabs

def tab (s : TextWriter) : TextWriter := s.tabOver s.tabs

def clearTabs (s : TextWriter) : TextWriter := { s with tabs := [] }

def newline (s : TextWriter) : TextWriter :=
  { s with text := s.text ++ [newLine], column := 0, position := s.position + 1 }

def write (s : TextWriter) (t : StdString) : TextWriter :=
  (if s.column = 0 then s.printIndentation else s).append t

/-- `replace_string` for the pattern `{0}`. -/
def replaceString (replacement : StdString) : StdString → StdString
  | 0x7B :: 0x30 :: 0x7D :: rest => replacement ++ replaceString replacement rest
  | ch :: rest => ch :: replaceString replacement rest
  | [] => []

def writeLine (s : TextWriter) (t : StdString) : TextWriter := (s.write t).newline

/-! ## Placeholders -/

def ascii (text : String) : StdString := text.toList.map fun ch => UInt8.ofNat ch.toNat

def addPlaceholder (s : TextWriter) (m : StdString) : Except StdString TextWriter :=
  if (s.placeholders.lookup m).isSome then 
    .error (ascii "The placeholder '" ++ m ++ ascii "' is already added.")
  else if s.currentPlaceholders ≠ [] then
    .error (ascii "Cannot add a placeholder when writing to one.")
  else .ok { s with
    placeholders := (m, ⟨s.position, s.column, s.indentation⟩) :: s.placeholders }

def savePlaceholderTextCursor (s : TextWriter) (placeholder textEnd : StdString) : TextWriter :=
  { s with savedPlaceholderTextCursors :=
      ⟨⟨s.position, s.column, s.indentation⟩, placeholder, textEnd⟩ :: s.savedPlaceholderTextCursors }

def beginWriteOnPlaceholder (s : TextWriter) (placeholder : StdString) :
    Except StdString TextWriter :=
  match s.placeholders.lookup placeholder with
  | none => .error (ascii "Cannot find placeholder '" ++ placeholder ++ ascii "'.")
  | some cursor =>
    if s.currentPlaceholders.getLast? = some placeholder then
      .error (ascii "Cannot begin write on an already begun placeholder write '" ++ placeholder ++
        ascii "'.")
    else if s.text.length < cursor.position then
      match s.currentPlaceholders.getLast? with
      | none => .error (ascii "back() of an empty vector")
      | some current =>
        .error (ascii "Cannot begin writing on placeholder '" ++ placeholder ++
          ascii "', which begins after the current placeholder '" ++ current ++ ascii "'.")
    else
      let s := s.savePlaceholderTextCursor placeholder (s.text.drop cursor.position)
      .ok { s with
        position := cursor.position
        column := cursor.column
        indentation := cursor.indentation
        text := s.text.take cursor.position
        currentPlaceholders := s.currentPlaceholders ++ [placeholder] }

/-- The difference is one of `unsigned long`; the sum with it does not go below zero. -/
def restorePlaceholderTextCursor (s : TextWriter) (cursor : PlaceholderTextCursor) (diff : Int) :
    TextWriter :=
  { s with
    position := (cursor.position + diff).toNat
    column := cursor.column
    indentation := cursor.indentation
    text := s.text ++ cursor.textEnd }

def endWriteOnPlaceholder (s : TextWriter) : Except StdString TextWriter :=
  match s.savedPlaceholderTextCursors with
  | [] => .error (ascii "You have ended all started placeholders.")
  | saved :: cursors =>
    match s.placeholders.lookup saved.placeholder with
    | none => .error (ascii "null pointer")
    | some cursor =>
      let s := s.restorePlaceholderTextCursor saved
        (if saved.position ≥ cursor.position then s.position - cursor.position else 0)
      .ok { s with
        placeholders := s.placeholders.filter fun entry => entry.1 ≠ saved.placeholder
        currentPlaceholders := s.currentPlaceholders.filter (· ≠ saved.placeholder)
        savedPlaceholderTextCursors := cursors }

/-! ## Save and restore -/

def save (s : TextWriter) : TextWriter :=
  { s with savedTextCursors := ⟨⟨s.position, s.column, s.indentation⟩, s.text⟩ :: s.savedTextCursors }

def restore (s : TextWriter) : Except StdString TextWriter :=
  match s.savedTextCursors with
  | [] => .error (ascii "You have restored all saves.")
  | saved :: cursors =>
    .ok { s with
      position := saved.position
      column := saved.column
      text := saved.text
      savedTextCursors := cursors }

/-! ## Runs -/

inductive Operation where
  | indent
  | unindent
  | addTab (indentation : UInt32)
  | tab
  | clearTabs
  | newline
  | write (t : StdString)
  | writeReplaced (t replacement : StdString)
  | writeLine (t : StdString)
  | writeLineReplaced (t replacement : StdString)
  | addPlaceholder (m : StdString)
  | beginWriteOnPlaceholder (m : StdString)
  | endWriteOnPlaceholder
  | save
  | restore
deriving DecidableEq, Repr

def call (s : TextWriter) : Operation → Except StdString TextWriter
  | .indent => .ok s.indent
  | .unindent => .ok s.unindent
  | .addTab indentation => .ok (s.addTab indentation)
  | .tab => .ok s.tab
  | .clearTabs => .ok s.clearTabs
  | .newline => .ok s.newline
  | .write t => .ok (s.write t)
  | .writeReplaced t replacement => .ok (s.write (replaceString replacement t))
  | .writeLine t => .ok (s.writeLine t)
  | .writeLineReplaced t replacement => .ok (s.writeLine (replaceString replacement t))
  | .addPlaceholder m => s.addPlaceholder m
  | .beginWriteOnPlaceholder m => s.beginWriteOnPlaceholder m
  | .endWriteOnPlaceholder => s.endWriteOnPlaceholder
  | .save => .ok s.save
  | .restore => s.restore

def run (s : TextWriter) (ops : List Operation) : Except StdString TextWriter := ops.foldlM call s

theorem run_nil (s : TextWriter) : s.run [] = .ok s := rfl

theorem run_cons {s s' : TextWriter} {op : Operation} (h : s.call op = .ok s')
    (ops : List Operation) : s.run (op :: ops) = s'.run ops := by
  rw [run, List.foldlM_cons, h]
  rfl

theorem run_append {s s' : TextWriter} {ops : List Operation} (h : s.run ops = .ok s')
    (ops' : List Operation) : s.run (ops ++ ops') = s'.run ops' := by
  unfold run at *
  rw [List.foldlM_append, h]
  rfl

/-! ## Save and restore around other operations -/

/-- The operations that `save` and `restore` stand around. -/
def Operation.isEdit : Operation → Bool
  | .indent | .unindent | .tab | .newline | .write _ | .writeReplaced .. | .writeLine _
  | .writeLineReplaced .. => true
  | _ => false

/-- Such operations, with saves that are restored. -/
inductive Nested : List Operation → Prop where
  | nil : Nested []
  | edit {op : Operation} {ops : List Operation} (hop : op.isEdit = true) (h : Nested ops) :
    Nested (op :: ops)
  | saved {inner ops : List Operation} (hinner : Nested inner) (h : Nested ops) :
    Nested (.save :: (inner ++ .restore :: ops))

/-- The writer is as it was before the operations, and stays so in what it writes. -/
def Undoes (s : TextWriter) (ops : List Operation) : Prop :=
  ∃ s', s.run (.save :: (ops ++ [.restore])) = .ok s' ∧
    s'.text = s.text ∧ s'.position = s.position ∧ s'.column = s.column ∧
    s'.indentation = s.indentation ∧
    ∀ later, (s'.run later).map TextWriter.text = (s.run later).map TextWriter.text

/-- What becomes of the indentation. -/
def indented (indentation : UInt32) : List Operation → UInt32
  | [] => indentation
  | .indent :: ops => indented (indentation + indentationStep) ops
  | .unindent :: ops => indented (indentation - indentationStep) ops
  | _ :: ops => indented indentation ops

theorem indented_append (indentation : UInt32) (ops ops' : List Operation) :
    indented indentation (ops ++ ops') = indented (indented indentation ops) ops' := by
  induction ops generalizing indentation with
  | nil => rfl
  | cons op ops ih => cases op <;> exact ih _

/-- The tabs move the cursor and nothing else. -/
theorem tabOver_eq (s : TextWriter) (tabs : List UInt32) :
    ∃ t p c, s.tabOver tabs = { s with text := t, position := p, column := c } := by
  induction tabs generalizing s with
  | nil => exact ⟨_, _, _, rfl⟩
  | cons stop tabs ih =>
    rw [tabOver]
    split
    · exact ⟨_, _, _, rfl⟩
    · obtain ⟨t, p, c, h⟩ := ih (s.append [space])
      exact ⟨t, p, c, h⟩

theorem write_eq (s : TextWriter) (t : StdString) :
    ∃ t' p c, s.write t = { s with text := t', position := p, column := c } := by
  unfold write
  split <;> exact ⟨_, _, _, rfl⟩

theorem writeLine_eq (s : TextWriter) (t : StdString) :
    ∃ t' p c, s.writeLine t = { s with text := t', position := p, column := c } := by
  obtain ⟨t', p, c, h⟩ := s.write_eq t
  rw [writeLine, h]
  exact ⟨_, _, _, rfl⟩

/-- The writer with another text, cursor and indentation. -/
def edited (s : TextWriter) (text : StdString) (position column : Nat) (indentation : UInt32) :
    TextWriter :=
  { s with text, position, column, indentation }

theorem call_of_isEdit {op : Operation} (hop : op.isEdit = true) (s : TextWriter) :
    ∃ t p c, s.call op = .ok (s.edited t p c (indented s.indentation [op])) := by
  cases op with
  | indent => exact ⟨_, _, _, rfl⟩
  | unindent => exact ⟨_, _, _, rfl⟩
  | newline => exact ⟨_, _, _, rfl⟩
  | tab =>
    obtain ⟨t, p, c, h⟩ := s.tabOver_eq s.tabs
    exact ⟨t, p, c, congrArg Except.ok h⟩
  | write t =>
    obtain ⟨t', p, c, h⟩ := s.write_eq t
    exact ⟨t', p, c, congrArg Except.ok h⟩
  | writeReplaced t replacement =>
    obtain ⟨t', p, c, h⟩ := s.write_eq (replaceString replacement t)
    exact ⟨t', p, c, congrArg Except.ok h⟩
  | writeLine t =>
    obtain ⟨t', p, c, h⟩ := s.writeLine_eq t
    exact ⟨t', p, c, congrArg Except.ok h⟩
  | writeLineReplaced t replacement =>
    obtain ⟨t', p, c, h⟩ := s.writeLine_eq (replaceString replacement t)
    exact ⟨t', p, c, congrArg Except.ok h⟩
  | _ => cases hop

/-- Of what was done since the save the indentation is left. -/
theorem call_restore (s : TextWriter) (text : StdString) (position column : Nat)
    (indentation : UInt32) :
    (s.save.edited text position column indentation).call .restore = .ok { s with indentation } :=
  rfl

/-- Operations one after the other, with saves that are restored, edit the writer. -/
theorem Nested.run_eq {ops : List Operation} (h : Nested ops) (s : TextWriter) :
    ∃ t p c, s.run ops = .ok (s.edited t p c (indented s.indentation ops)) := by
  induction h generalizing s with
  | nil => exact ⟨_, _, _, rfl⟩
  | @edit op ops hop _ ih =>
    obtain ⟨t, p, c, hcall⟩ := call_of_isEdit hop s
    obtain ⟨t', p', c', hrun⟩ := ih (s.edited t p c (indented s.indentation [op]))
    have hindented : indented s.indentation (op :: ops) =
        indented (indented s.indentation [op]) ops := indented_append s.indentation [op] ops
    refine ⟨t', p', c', ?_⟩
    rw [run_cons hcall, hrun, hindented]
    rfl
  | @saved inner ops _ _ ihinner ih =>
    obtain ⟨t, p, c, hinner⟩ := ihinner s.save
    obtain ⟨t', p', c', hrun⟩ := ih { s with indentation := indented s.indentation inner }
    have hsave : s.call .save = .ok s.save := rfl
    have hindented : indented s.indentation (.save :: (inner ++ .restore :: ops)) =
        indented (indented s.indentation inner) ops := indented_append s.indentation inner _
    refine ⟨t', p', c', ?_⟩
    rw [run_cons hsave, run_append hinner, run_cons (call_restore s t p c _)]
    exact hindented ▸ hrun

/-- What a save, operations and the restore leave of the operations is the indentation. -/
theorem Nested.run_save {ops : List Operation} (h : Nested ops) (s : TextWriter) :
    s.run (.save :: (ops ++ [.restore])) =
      .ok { s with indentation := indented s.indentation ops } := by
  obtain ⟨t, p, c, hrun⟩ := h.run_eq s.save
  have hsave : s.call .save = .ok s.save := rfl
  rw [run_cons hsave, run_append hrun, run_cons (call_restore s t p c _)]
  rfl

theorem indented_cons (indentation : UInt32) (op : Operation) (ops : List Operation) :
    indented indentation (op :: ops) = indented (indented indentation [op]) ops :=
  indented_append indentation [op] ops

/-- The indentation afterwards is that before, with the steps to the right and to the left. -/
theorem toNat_indented (indentation : UInt32) (ops : List Operation) :
    ((indented indentation ops).toNat : Int) =
      (indentation.toNat + 4 * ops.count .indent - 4 * ops.count .unindent) % 2 ^ 32 := by
  induction ops generalizing indentation with
  | nil =>
    have hlt := indentation.toNat_lt
    simp only [indented, List.count_nil]
    omega
  | cons op ops ih =>
    have hstep : indentationStep.toNat = 4 := rfl
    have hlt := indentation.toNat_lt
    rw [indented_cons, ih, List.count_cons, List.count_cons]
    cases op with
    | indent =>
      simp only [indented, UInt32.toNat_add, hstep, beq_self_eq_true, if_true, reduceCtorEq, beq_iff_eq,
        if_false]
      omega
    | unindent =>
      simp only [indented, UInt32.toNat_sub, hstep, beq_self_eq_true, if_true, reduceCtorEq, beq_iff_eq,
        if_false]
      omega
    | _ =>
      simp only [indented, reduceCtorEq, beq_iff_eq, if_false, Nat.add_zero]

/-- **`restore` undoes what was done since `save` exactly if the indentation went as often to the right
as to the left, up to multiples of `2 ^ 30`.** -/
theorem undoes_iff (s : TextWriter) {ops : List Operation} (h : Nested ops) :
    s.Undoes ops ↔ ops.count .indent % 2 ^ 30 = ops.count .unindent % 2 ^ 30 := by
  have hindented : indented s.indentation ops = s.indentation ↔
      ops.count .indent % 2 ^ 30 = ops.count .unindent % 2 ^ 30 := by
    have hvalue := toNat_indented s.indentation ops
    have hlt := s.indentation.toNat_lt
    rw [← UInt32.toNat_inj]
    omega
  rw [← hindented]
  constructor
  · rintro ⟨s', hrun, -, -, -, hindentation, -⟩
    rw [h.run_save] at hrun
    cases hrun
    exact hindentation
  · intro heq
    refine ⟨s, ?_, rfl, rfl, rfl, rfl, fun _ => rfl⟩
    rw [h.run_save, heq]

/-- The indentation goes to the right and back, in and around a save. -/
theorem undoes_of_unindent :
    ({ indentation := 4 } : TextWriter).Undoes
      [.indent, .save, .writeLine [0x61], .unindent, .restore, .write [0x62]] := by
  refine (undoes_iff _ (.edit rfl (.saved (.edit rfl (.edit rfl .nil)) (.edit rfl .nil)))).2 ?_
  decide

/-- A line after the restore has the indentation of the text that is gone. -/
theorem not_undoes_of_indent : ¬ ({} : TextWriter).Undoes [.indent] ∧
    ∃ s, ({} : TextWriter).run [.save, .indent, .restore] = .ok s ∧
      (s.run [.write [0x61]]).map text ≠ (({} : TextWriter).run [.write [0x61]]).map text := by
  constructor
  · rintro ⟨s, hrun, -, -, -, hindentation, -⟩
    cases hrun
    exact absurd hindentation (by decide)
  · exact ⟨_, rfl, by decide⟩

end TextWriter

end Flashpoint
