import Flashpoint.Library.Insertions
import Flashpoint.Text.TextWriter

/-!
# Placeholders

Placeholders are added to a text between writes, and filled later with further writes. A placeholder
is the offset of its mark in the text as it was when the mark was added; what is filled into another
one does not move it. So the text is right, whatever is filled in, if and only if the placeholders are
filled in the reverse of the order in which they were added (`fillsRight_iff`).
-/

namespace Flashpoint

namespace TextWriter

open Library

/-! ## What is written -/

/-- What there is to know of a writer for what is written next. -/
structure Place where
  column : Nat
  indentation : UInt32
deriving DecidableEq, Repr

def place (s : TextWriter) : Place := ⟨s.column, s.indentation⟩

def placeAt (cursor : TextCursor) : Place := ⟨cursor.column, cursor.indentation⟩

/-- The indentation of a line that begins. -/
def Place.margin (p : Place) : StdString :=
  if p.column = 0 then List.replicate p.indentation.toNat space else []

/-- A text without a line break at its end, or with one. -/
def Place.writes (p : Place) (t : StdString) : StdString × Place :=
  (p.margin ++ t, { p with column := p.column + (p.margin ++ t).length })

def Place.writesLine (p : Place) (t : StdString) : StdString × Place :=
  (p.margin ++ t ++ [newLine], { p with column := 0 })

/-- What an operation writes, and the place behind it. -/
def Place.after (p : Place) : Operation → StdString × Place
  | .indent => ([], { p with indentation := p.indentation + indentationStep })
  | .unindent => ([], { p with indentation := p.indentation - indentationStep })
  | .newline => ([newLine], { p with column := 0 })
  | .write t => p.writes t
  | .writeReplaced t replacement => p.writes (replaceString replacement t)
  | .writeLine t => p.writesLine t
  | .writeLineReplaced t replacement => p.writesLine (replaceString replacement t)
  | _ => ([], p)

def Operation.isWrite : Operation → Bool
  | .indent | .unindent | .newline | .write _ | .writeReplaced .. | .writeLine _
  | .writeLineReplaced .. => true
  | _ => false

/-- What operations write, and the place behind them. -/
def Place.afterAll (p : Place) : List Operation → StdString × Place
  | [] => ([], p)
  | op :: ops =>
    let (text, p) := p.after op
    let (texts, p) := p.afterAll ops
    (text ++ texts, p)

/-! ## Texts with placeholders -/

/-- Operations, each with a placeholder behind them. -/
abbrev Pieces := List (List Operation × StdString)

def markNames (pieces : Pieces) : List StdString := pieces.map Prod.snd

/-- The writes, with the placeholders added in between. -/
def program (pieces : Pieces) (last : List Operation) : List Operation :=
  pieces.flatMap (fun (ops, m) => ops ++ [.addPlaceholder m]) ++ last

/-- A placeholder is filled. -/
def fill (texts : StdString → List Operation) (m : StdString) : List Operation :=
  .beginWriteOnPlaceholder m :: (texts m ++ [.endWriteOnPlaceholder])

/-- The text with what is filled in, each at its mark and as indented there. -/
def layout (texts : StdString → List Operation) : Place → Pieces → List Operation → StdString
  | p, [], last => (p.afterAll last).1
  | p, (ops, m) :: pieces, last =>
    let (text, p) := p.afterAll ops
    text ++ ((p.afterAll (texts m)).1 ++ layout texts p pieces last)

/-- The place behind the text. -/
def endPlace : Place → Pieces → List Operation → Place
  | p, [], last => (p.afterAll last).2
  | p, (ops, _) :: pieces, last => endPlace (p.afterAll ops).2 pieces last

/-- Whatever is filled in, the text is right in the end, and what is written then is appended to it. -/
def FillsRight (pieces : Pieces) (last : List Operation) (order : List StdString) : Prop :=
  ∀ texts : StdString → List Operation, (∀ m, ∀ op ∈ texts m, op.isWrite) →
    ∃ s, run {} (program pieces last ++ order.flatMap (fill texts)) = .ok s ∧
      s.text = layout texts ⟨0, 0⟩ pieces last ∧
      ∀ later : List Operation, (∀ op ∈ later, op.isWrite) →
        ∃ s', s.run later = .ok s' ∧
          s'.text = s.text ++ ((endPlace ⟨0, 0⟩ pieces last).afterAll later).1

/-! ## Runs -/

/-- The writer with a text behind its own. -/
def wrote (s : TextWriter) (written : StdString × Place) : TextWriter :=
  { s with
    text := s.text ++ written.1
    position := s.position + written.1.length
    column := written.2.column
    indentation := written.2.indentation }

theorem wrote_wrote (s : TextWriter) (text text' : StdString) (p p' : Place) :
    (s.wrote (text, p)).wrote (text', p') = s.wrote (text ++ text', p') := by
  simp [wrote, Nat.add_assoc]

theorem write_eq_wrote (s : TextWriter) (t : StdString) : s.write t = s.wrote (s.place.writes t) := by
  unfold write Place.writes Place.margin place
  by_cases hcolumn : s.column = 0
  · simp [hcolumn, wrote, append, printIndentation, Nat.add_assoc]
  · simp [hcolumn, wrote, append]

theorem writeLine_eq_wrote (s : TextWriter) (t : StdString) :
    s.writeLine t = s.wrote (s.place.writesLine t) := by
  rw [writeLine, write_eq_wrote]
  simp [wrote, newline, Place.writes, Place.writesLine, Nat.add_assoc]

theorem call_of_isWrite {op : Operation} (hop : op.isWrite = true) (s : TextWriter) :
    s.call op = .ok (s.wrote (s.place.after op)) := by
  cases op with
  | indent | unindent => simp [call, indent, unindent, wrote, Place.after, place]
  | newline => rfl
  | write t => exact congrArg Except.ok (s.write_eq_wrote t)
  | writeReplaced t replacement => exact congrArg Except.ok (s.write_eq_wrote _)
  | writeLine t => exact congrArg Except.ok (s.writeLine_eq_wrote t)
  | writeLineReplaced t replacement => exact congrArg Except.ok (s.writeLine_eq_wrote _)
  | _ => cases hop

theorem run_of_isWrite {ops : List Operation} (hops : ∀ op ∈ ops, op.isWrite) (s : TextWriter) :
    s.run ops = .ok (s.wrote (s.place.afterAll ops)) := by
  induction ops generalizing s with
  | nil => simp [run_nil, Place.afterAll, wrote, place]
  | cons op ops ih =>
    rw [List.forall_mem_cons] at hops
    rw [run_cons (call_of_isWrite hops.1 s), ih hops.2]
    exact congrArg Except.ok (wrote_wrote ..)

/-- The placeholders of the pieces, with the cursors at their marks. -/
def marks : Nat → Place → Pieces → List (StdString × TextCursor)
  | _, _, [] => []
  | offset, p, (ops, m) :: pieces =>
    let (text, p) := p.afterAll ops
    (m, ⟨offset + text.length, p.column, p.indentation⟩) :: marks (offset + text.length) p pieces

theorem lookup_cons_of_ne {m m' : StdString} (hne : m' ≠ m) (cursor : TextCursor)
    (placeholders : List (StdString × TextCursor)) :
    List.lookup m' ((m, cursor) :: placeholders) = placeholders.lookup m' := by
  rw [List.lookup_cons, beq_false_of_ne hne]

theorem call_addPlaceholder {s : TextWriter} {m : StdString} (hcurrent : s.currentPlaceholders = [])
    (hnew : s.placeholders.lookup m = none) :
    s.call (.addPlaceholder m) = .ok { s with
      placeholders := (m, ⟨s.position, s.column, s.indentation⟩) :: s.placeholders } := by
  rw [call, addPlaceholder, hnew, hcurrent]
  rfl

/-- After the writes the text is there without anything filled in, and the marks are known. -/
theorem run_program {pieces : Pieces} {last : List Operation}
    (hpieces : ∀ piece ∈ pieces, ∀ op ∈ piece.1, op.isWrite) (hlast : ∀ op ∈ last, op.isWrite)
    (hnodup : (markNames pieces).Nodup) (s : TextWriter) (hcurrent : s.currentPlaceholders = [])
    (hnew : ∀ m ∈ markNames pieces, s.placeholders.lookup m = none) :
    ∃ placeholders, s.run (program pieces last) = .ok { s.wrote
        (layout (fun _ => []) s.place pieces last, endPlace s.place pieces last) with placeholders } ∧
      (∀ entry ∈ marks s.position s.place pieces, placeholders.lookup entry.1 = some entry.2) ∧
      ∀ m ∉ markNames pieces, placeholders.lookup m = s.placeholders.lookup m := by
  induction pieces generalizing s with
  | nil => exact ⟨s.placeholders, run_of_isWrite hlast s, nofun, fun _ _ => rfl⟩
  | cons piece pieces ih =>
    obtain ⟨ops, m⟩ := piece
    rw [List.forall_mem_cons] at hpieces
    rw [markNames, List.map_cons, List.nodup_cons] at hnodup
    rw [markNames, List.map_cons, List.forall_mem_cons] at hnew
    let s₁ := s.wrote (s.place.afterAll ops)
    let cursor : TextCursor := ⟨s₁.position, s₁.column, s₁.indentation⟩
    let s₂ : TextWriter := { s₁ with placeholders := (m, cursor) :: s.placeholders }
    have hops : s.run ops = .ok s₁ := run_of_isWrite hpieces.1 s
    have hadd : s₁.call (.addPlaceholder m) = .ok s₂ := call_addPlaceholder hcurrent hnew.1
    have hnew₂ : ∀ m' ∈ markNames pieces, s₂.placeholders.lookup m' = none := by
      intro m' hm'
      have hne : m' ≠ m := by
        rintro rfl
        exact hnodup.1 hm'
      rw [lookup_cons_of_ne hne, hnew.2 m' hm']
    obtain ⟨placeholders, hrun, hmarks, hother⟩ := ih hpieces.2 hnodup.2 s₂ hcurrent hnew₂
    have hprogram : program ((ops, m) :: pieces) last =
        ops ++ (.addPlaceholder m :: program pieces last) := by
      simp [program]
    refine ⟨placeholders, ?_, ?_, ?_⟩
    · rw [hprogram, run_append hops, run_cons hadd, hrun]
      simp [s₂, s₁, wrote, layout, endPlace, place, Nat.add_assoc, Place.afterAll]
    · rw [marks]
      refine List.forall_mem_cons.2 ⟨?_, hmarks⟩
      rw [hother m hnodup.1]
      exact List.lookup_cons_self
    · intro m' hm'
      rw [markNames, List.map_cons, List.mem_cons, not_or] at hm'
      rw [hother m' hm'.2]
      exact lookup_cons_of_ne hm'.1 cursor s.placeholders

/-! ## Filling -/

/-- The writer at a mark, with the end of the text put by. -/
def atMark (s : TextWriter) (m : StdString) (cursor : TextCursor) : TextWriter :=
  { s with
    position := cursor.position
    column := cursor.column
    indentation := cursor.indentation
    text := s.text.take cursor.position
    currentPlaceholders := [m]
    savedPlaceholderTextCursors := ⟨⟨s.position, s.column, s.indentation⟩, m,
      s.text.drop cursor.position⟩ :: s.savedPlaceholderTextCursors }

theorem call_beginWriteOnPlaceholder {s : TextWriter} {m : StdString} {cursor : TextCursor}
    (hcurrent : s.currentPlaceholders = []) (hcursor : s.placeholders.lookup m = some cursor)
    (hposition : cursor.position ≤ s.text.length) :
    s.call (.beginWriteOnPlaceholder m) = .ok (s.atMark m cursor) := by
  have hnot : ¬ s.text.length < cursor.position := Nat.not_lt.2 hposition
  simp [call, beginWriteOnPlaceholder, hcursor, hcurrent, hnot, savePlaceholderTextCursor, atMark]

/-- The end of the text is put back behind what was written. -/
theorem call_endWriteOnPlaceholder {s : TextWriter} {m : StdString} {cursor : TextCursor}
    (hcurrent : s.currentPlaceholders = []) (hcursor : s.placeholders.lookup m = some cursor)
    (hposition : cursor.position ≤ s.position) (written : StdString × Place) :
    ((s.atMark m cursor).wrote written).call .endWriteOnPlaceholder = .ok { s with
      text := insertAt s.text cursor.position written.1
      position := s.position + written.1.length
      placeholders := s.placeholders.filter fun entry => entry.1 ≠ m } := by
  simp only [call, endWriteOnPlaceholder, atMark, wrote, hcursor, restorePlaceholderTextCursor,
    if_pos hposition]
  have hdiff : (s.position + ((cursor.position + written.1.length : Nat) - cursor.position : Int)).toNat =
      s.position + written.1.length := by
    omega
  rw [hdiff, insertAt, List.append_assoc, hcurrent]
  simp

/-- A placeholder is filled at its offset, and the cursor stays behind the text. -/
theorem run_fill {texts : StdString → List Operation} {m : StdString} {cursor : TextCursor}
    (htext : ∀ op ∈ texts m, op.isWrite) {s : TextWriter} (hcurrent : s.currentPlaceholders = [])
    (hposition : s.position = s.text.length) (hcursor : s.placeholders.lookup m = some cursor)
    (hle : cursor.position ≤ s.text.length) :
    s.run (fill texts m) = .ok { s with
      text := insertAt s.text cursor.position ((placeAt cursor).afterAll (texts m)).1
      position := s.position + ((placeAt cursor).afterAll (texts m)).1.length
      placeholders := s.placeholders.filter fun entry => entry.1 ≠ m } := by
  have hbegin := call_beginWriteOnPlaceholder hcurrent hcursor hle
  have htexts := run_of_isWrite htext (s.atMark m cursor)
  have hend := call_endWriteOnPlaceholder hcurrent hcursor (hposition ▸ hle)
    ((placeAt cursor).afterAll (texts m))
  rw [fill, run_cons hbegin, run_append htexts]
  exact (run_cons hend []).trans (run_nil _)

theorem lookup_filter_of_ne {m m' : StdString} (hne : m' ≠ m)
    (placeholders : List (StdString × TextCursor)) :
    (placeholders.filter fun entry => entry.1 ≠ m).lookup m' = placeholders.lookup m' := by
  induction placeholders with
  | nil => rfl
  | cons entry placeholders ih =>
    obtain ⟨key, cursor⟩ := entry
    by_cases hkey : key = m
    · subst hkey
      rw [List.filter_cons_of_neg (by simp), lookup_cons_of_ne hne, ih]
    · rw [List.filter_cons_of_pos (by simpa using hkey), List.lookup_cons, List.lookup_cons, ih]

theorem length_insertAt {α : Type} {xs : List α} {p : Nat} (ys : List α) :
    (insertAt xs p ys).length = xs.length + ys.length := by
  simp only [insertAt, List.length_append, List.length_take, List.length_drop]
  omega

/-- Placeholders are filled one after the other, each at its offset. -/
theorem run_fills {texts : StdString → List Operation} (htexts : ∀ m, ∀ op ∈ texts m, op.isWrite)
    {order : List StdString} (hnodup : order.Nodup) {cursors : StdString → TextCursor}
    {s : TextWriter} (hcurrent : s.currentPlaceholders = []) (hposition : s.position = s.text.length)
    (hcursors : ∀ m ∈ order, s.placeholders.lookup m = some (cursors m) ∧
      (cursors m).position ≤ s.text.length) :
    ∃ s', s.run (order.flatMap (fill texts)) = .ok s' ∧ s'.place = s.place ∧
      s'.text = insertEach (fun m => (cursors m).position)
        (fun m => ((placeAt (cursors m)).afterAll (texts m)).1) order s.text := by
  induction order generalizing s with
  | nil => exact ⟨s, rfl, rfl, rfl⟩
  | cons m order ih =>
    rw [List.nodup_cons] at hnodup
    rw [List.forall_mem_cons] at hcursors
    have hfill := run_fill (htexts m) hcurrent hposition hcursors.1.1 hcursors.1.2
    rw [List.flatMap_cons, run_append hfill, insertEach, List.foldl_cons]
    refine ih hnodup.2 hcurrent ?_ fun m' hm' => ⟨?_, ?_⟩
    · dsimp only
      rw [length_insertAt, hposition]
    · have hne : m' ≠ m := by
        rintro rfl
        exact hnodup.1 hm'
      dsimp only
      rw [lookup_filter_of_ne hne]
      exact (hcursors.2 m' hm').1
    · dsimp only
      rw [length_insertAt]
      exact Nat.le_add_right_of_le (hcursors.2 m' hm').2

/-! ## The order -/

/-- What the pieces write, with the placeholders. -/
def pieceTexts : Place → Pieces → List (StdString × StdString)
  | _, [] => []
  | p, (ops, m) :: pieces =>
    let (text, p) := p.afterAll ops
    (text, m) :: pieceTexts p pieces

theorem map_pieceTexts (p : Place) (pieces : Pieces) :
    (pieceTexts p pieces).map Prod.snd = markNames pieces := by
  induction pieces generalizing p with
  | nil => rfl
  | cons piece pieces ih => exact congrArg (piece.2 :: ·) (ih _)

/-- The text is pieces with places between them, at the offsets of the marks. -/
theorem layout_eq_filled {cursors : StdString → TextCursor} {offset : Nat} {p : Place}
    {pieces : Pieces} (h : ∀ entry ∈ marks offset p pieces, cursors entry.1 = entry.2)
    (last : List Operation) :
    PlacedFrom (fun m => (cursors m).position) offset (pieceTexts p pieces) ∧
      ∃ text, ∀ texts, layout texts p pieces last =
        filled (fun m => ((placeAt (cursors m)).afterAll (texts m)).1) (pieceTexts p pieces) text := by
  induction pieces generalizing offset p with
  | nil => exact ⟨trivial, (p.afterAll last).1, fun _ => rfl⟩
  | cons piece pieces ih =>
    obtain ⟨ops, m⟩ := piece
    rw [marks, List.forall_mem_cons] at h
    obtain ⟨hm, h⟩ := h
    obtain ⟨hplaced, text, htext⟩ := ih h
    dsimp only at hm
    refine ⟨⟨congrArg TextCursor.position hm, hplaced⟩, text, fun texts => ?_⟩
    have hplace : placeAt (cursors m) = (p.afterAll ops).2 := by rw [hm, placeAt]
    rw [pieceTexts, filled, hplace, ← htext]
    rfl

theorem map_marks (offset : Nat) (p : Place) (pieces : Pieces) :
    (marks offset p pieces).map Prod.fst = markNames pieces := by
  induction pieces generalizing offset p with
  | nil => rfl
  | cons piece pieces ih => exact congrArg (piece.2 :: ·) (ih _ _)

section

variable {pieces : Pieces} {last : List Operation} {order : List StdString}

/-- The text in the end, whatever is filled in, in the order that is given. -/
theorem run_program_fills (hpieces : ∀ piece ∈ pieces, ∀ op ∈ piece.1, op.isWrite)
    (hlast : ∀ op ∈ last, op.isWrite) (hnodup : (markNames pieces).Nodup)
    (horder : order.Perm (markNames pieces)) :
    ∃ (cursors : StdString → TextCursor) (text : StdString),
      PlacedFrom (fun m => (cursors m).position) 0 (pieceTexts ⟨0, 0⟩ pieces) ∧
      ∀ texts : StdString → List Operation, (∀ m, ∀ op ∈ texts m, op.isWrite) →
        layout texts ⟨0, 0⟩ pieces last =
            filled (fun m => ((placeAt (cursors m)).afterAll (texts m)).1)
              (pieceTexts ⟨0, 0⟩ pieces) text ∧
        ∃ s, run {} (program pieces last ++ order.flatMap (fill texts)) = .ok s ∧
          s.place = endPlace ⟨0, 0⟩ pieces last ∧
          s.text = insertEach (fun m => (cursors m).position)
            (fun m => ((placeAt (cursors m)).afterAll (texts m)).1) order
            (filled (fun _ => []) (pieceTexts ⟨0, 0⟩ pieces) text) := by
  obtain ⟨placeholders, hprogram, hmarks, -⟩ :=
    run_program hpieces hlast hnodup {} rfl fun _ _ => rfl
  let cursors (m : StdString) : TextCursor := (placeholders.lookup m).getD ⟨0, 0, 0⟩
  have hcursors : ∀ entry ∈ marks 0 ⟨0, 0⟩ pieces, cursors entry.1 = entry.2 := by
    intro entry hentry
    show (placeholders.lookup entry.1).getD _ = entry.2
    rw [hmarks entry hentry, Option.getD_some]
  obtain ⟨hplaced, text, htext⟩ := layout_eq_filled hcursors last
  refine ⟨cursors, text, hplaced, fun texts htexts => ⟨htext texts, ?_⟩⟩
  have hplain : layout (fun _ => []) ⟨0, 0⟩ pieces last =
      filled (fun _ => []) (pieceTexts ⟨0, 0⟩ pieces) text := htext fun _ => []
  have hlookup : ∀ m ∈ order, placeholders.lookup m = some (cursors m) ∧
      (cursors m).position ≤ (layout (fun _ => []) ⟨0, 0⟩ pieces last).length := by
    intro m hm
    have hname : m ∈ markNames pieces := horder.subset hm
    refine ⟨?_, ?_⟩
    · rw [← map_marks 0 ⟨0, 0⟩ pieces] at hname
      obtain ⟨entry, hentry, rfl⟩ := List.mem_map.1 hname
      rw [hcursors entry hentry]
      exact hmarks entry hentry
    · rw [← map_pieceTexts ⟨0, 0⟩ pieces] at hname
      have hle := (hplaced.le text hname).2
      rwa [hplain, ← Nat.zero_add (filled _ _ _).length]
  let s₀ : TextWriter := { TextWriter.wrote {}
    (layout (fun _ => []) ⟨0, 0⟩ pieces last, endPlace ⟨0, 0⟩ pieces last) with placeholders }
  have hrun₀ : run {} (program pieces last) = .ok s₀ := hprogram
  have hposition : s₀.position = s₀.text.length := Nat.zero_add _
  obtain ⟨s, hrun, hplace, htext'⟩ := run_fills htexts (horder.nodup_iff.2 hnodup) (s := s₀) rfl
    hposition hlookup
  refine ⟨s, (run_append hrun₀ _).trans hrun, hplace, ?_⟩
  rw [htext', ← hplain]
  rfl

theorem getLast?_writes (p : Place) (ch : UInt8) :
    (p.afterAll [.write [ch]]).1.getLast? = some ch := by
  simp [Place.afterAll, Place.after, Place.writes]

/-- **Whatever is filled in, the text is right in the end exactly if the placeholders are filled from
the last to the first.** -/
theorem fillsRight_iff (hpieces : ∀ piece ∈ pieces, ∀ op ∈ piece.1, op.isWrite)
    (hlast : ∀ op ∈ last, op.isWrite) (hnodup : (markNames pieces).Nodup)
    (horder : order.Perm (markNames pieces)) :
    FillsRight pieces last order ↔ order = (markNames pieces).reverse := by
  obtain ⟨cursors, text, hplaced, hfills⟩ := run_program_fills hpieces hlast hnodup horder
  have hnames := map_pieceTexts ⟨0, 0⟩ pieces
  constructor
  · intro hright
    by_contra hne
    rw [← hnames] at hnodup horder hne
    obtain ⟨i, j, hij, hpair⟩ := exists_insertEach_ne text hplaced hnodup horder hne
    let write (ch : UInt8) (m : StdString) : StdString :=
      ((placeAt (cursors m)).afterAll [.write [ch]]).1
    have hwrite (ch : UInt8) (m : StdString) : (write ch m).getLast? = some ch := getLast?_writes _ ch
    have hus : write 0 i ≠ [] := by
      intro hnil
      have hlast := hwrite 0 i
      rw [hnil] at hlast
      cases hlast
    obtain ⟨y, hy⟩ := hpair _ hus
    -- one letter into the earlier mark, and into the later one a letter that does not fit in its place
    let texts (m : StdString) : List Operation :=
      if m = i then [.write [0]] else if m = j then [.write [y + 1]] else []
    have htexts : ∀ m, ∀ op ∈ texts m, op.isWrite = true := by
      intro m op hop
      dsimp only [texts] at hop
      split at hop
      · rw [List.mem_singleton.1 hop]
        rfl
      split at hop
      · rw [List.mem_singleton.1 hop]
        rfl
      · cases hop
    obtain ⟨hlayout, s, hrun, -, htext⟩ := hfills texts htexts
    obtain ⟨s', hrun', htext', -⟩ := hright texts htexts
    rw [hrun] at hrun'
    cases hrun'
    rw [htext, hlayout] at htext'
    refine hy _ ?_ ⟨y + 1, ?_, ?_⟩ ?_ htext'
    · simp only [texts, if_true, write]
    · simp only [texts, if_neg hij.symm, if_true]
      exact hwrite (y + 1) j
    · intro heq
      have hsucc := congrArg UInt8.toNat heq
      have hlt := y.toNat_lt
      rw [UInt8.toNat_add] at hsucc
      simp at hsucc
      omega
    · intro k hki hkj
      simp only [texts, if_neg hki, if_neg hkj]
      rfl
  · rintro rfl texts htexts
    obtain ⟨hlayout, s, hrun, hplace, htext⟩ := hfills texts htexts
    refine ⟨s, hrun, ?_, fun later hlater => ?_⟩
    · rw [htext, hlayout, ← hnames]
      exact insertEach_of_reverse hplaced text
    · refine ⟨_, run_of_isWrite hlater s, ?_⟩
      rw [hplace]
      rfl

end

/-- Two placeholders at one offset, one on a line of its own, and writes behind them. -/
def threeMarks : Pieces :=
  [([.write [0x61]], [0x6D]), ([], [0x6E]), ([.indent, .newline], [0x6F])]

theorem fillsRight_of_reverse : FillsRight threeMarks [.write [0x62]] [[0x6F], [0x6E], [0x6D]] :=
  (fillsRight_iff (by decide) (by decide) (by decide) (by decide)).2 (by decide)

/-- In the order in which they were added the second text is put in before the first one. -/
theorem not_fillsRight_of_order : ¬ FillsRight threeMarks [.write [0x62]] [[0x6D], [0x6E], [0x6F]] := by
  intro h
  have htexts : ∀ m : StdString, ∀ op ∈ [Operation.write m], op.isWrite = true := by
    intro m op hop
    rw [List.mem_singleton.1 hop]
    rfl
  obtain ⟨s, hrun, htext, -⟩ := h (fun m => [.write m]) htexts
  have hvalue := congrArg (Except.map TextWriter.text) hrun
  rw [Except.map, htext] at hvalue
  exact absurd hvalue (by decide)

end TextWriter

end Flashpoint
