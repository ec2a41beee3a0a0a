import Flashpoint.Clean
import Flashpoint.Tokens
import Flashpoint.Scanner.Errors
import Flashpoint.Schema.Parse

/-!
# What a text reads as

What the grammars of schemas and of queries share, said of lexemes alone: a relation holds of the lexemes
that are left, the node they start with, and the lexemes after it. The places of nodes are left open. The
second half is for runs without a report: what such a run takes is the text of what it returns.
-/

namespace Flashpoint

open Library Climb

/-- The text does not go on with the token. -/
def NotAhead (token : GraphQlToken) : List Lexeme → Prop
  | [] => True
  | l :: _ => l.token ≠ token

/-- A token that may be there. -/
inductive MarkAt (token : GraphQlToken) : List Lexeme → Bool → List Lexeme → Prop
  | there {l y} (h : l.token = token) : MarkAt token (l :: y) true y
  | missing {x} (h : NotAhead token x) : MarkAt token x false x

theorem MarkAt.ne_nil {token : GraphQlToken} {x y : List Lexeme} {found : Bool}
    (h : MarkAt token x found y) (hne : y ≠ []) : x ≠ [] := by
  cases h with
  | there => exact List.cons_ne_nil _ _
  | missing => exact hne

/-! ## Values -/

/-- How a parser reads values: the kind it gives its lists, and whether a keyword may be the name of a
field. -/
structure ValueReader where
  listKind : ValueKind
  keywordsAsNames : Bool

section Values

variable (reader : ValueReader)

mutual

inductive ValueAt : List Lexeme → Value → List Lexeme → Prop
  | null {l y span} (h : l.token = .nullKeyword) : ValueAt (l :: y) (.null span) y
  | boolean {l y span b} (h : l.token = if b then .trueKeyword else .falseKeyword) :
      ValueAt (l :: y) (.boolean span b) y
  | int {l y span} (h : l.token = .integerLiteral) :
      ValueAt (l :: y) (.int span (GraphQlSchema.atoi l.value)) y
  | float {l y span} (h : l.token = .floatLiteral) : ValueAt (l :: y) (.float span l.value) y
  | string {l y span} (h : l.token = .gStringValue) : ValueAt (l :: y) (.string span l.value) y
  | enum {l y span} (h : l.token = .gName) : ValueAt (l :: y) (.enum span l.value) y
  | list {l x y span values} (hopen : l.token = .openBracket) (hvalues : ElementsAt x values y) :
      ValueAt (l :: x) (.list span reader.listKind values) y
  | object {l x y span fields} (hopen : l.token = .openBrace) (hfields : ObjectFieldsAt x fields y) :
      ValueAt (l :: x) (.object span fields) y

/-- A value, or a bracket in its place. -/
inductive OptionalValueAt : List Lexeme → Option Value → List Lexeme → Prop
  | value {x y value} (h : ValueAt x value y) : OptionalValueAt x (some value) y
  | bracket {l y} (h : l.token = .closeBracket) : OptionalValueAt (l :: y) none y

/-- The elements of a list and its end. -/
inductive ElementsAt : List Lexeme → List Value → List Lexeme → Prop
  | close {l y} (h : l.token = .closeBracket) : ElementsAt (l :: y) [] y
  | cons {x y z value values} (hvalue : ValueAt x value y) (hvalues : ElementsAt y values z) :
      ElementsAt x (value :: values) z

/-- The fields of an object literal and its end. -/
inductive ObjectFieldsAt : List Lexeme → List ObjectField → List Lexeme → Prop
  | close {l y} (h : l.token = .closeBrace) : ObjectFieldsAt (l :: y) [] y
  | cons {l c x y z span nameSpan value fields} (hname : l.tokenIn reader.keywordsAsNames = .gName)
      (hcolon : c.token = .colon) (hvalue : OptionalValueAt x value y)
      (hfields : ObjectFieldsAt y fields z) :
      ObjectFieldsAt (l :: c :: x) (.mk span ⟨nameSpan, l.value⟩ value :: fields) z

end

end Values

section Values

variable {reader : ValueReader}

theorem ValueAt.ne_nil {x y : List Lexeme} {value : Value} (h : ValueAt reader x value y) : x ≠ [] := by
  cases h <;> exact List.cons_ne_nil _ _

theorem OptionalValueAt.valueAt {x y : List Lexeme} {value : Value}
    (h : OptionalValueAt reader x (some value) y) : ValueAt reader x value y := by
  cases h with
  | value h => exact h

/-- A bracket in the place of an element ends the list. -/
theorem OptionalValueAt.elementsAt {x y : List Lexeme} (h : OptionalValueAt reader x none y) :
    ElementsAt reader x [] y := by
  cases h with
  | bracket h => exact .close h

theorem ElementsAt.ne_nil {x y : List Lexeme} {values : List Value} (h : ElementsAt reader x values y) :
    x ≠ [] := by
  cases h with
  | close => exact List.cons_ne_nil _ _
  | cons hvalue => exact hvalue.ne_nil

theorem ObjectFieldsAt.ne_nil {x y : List Lexeme} {fields : List ObjectField}
    (h : ObjectFieldsAt reader x fields y) : x ≠ [] := by
  cases h <;> exact List.cons_ne_nil _ _

end Values

/-! ## Arguments and directives -/

/-- The arguments that are kept: the first one of each name. -/
def argumentsByName (arguments : List Argument) : UstringMap Argument :=
  SortedMap.byKey (·.name.identifier) arguments

def directivesByName (directives : List Directive) : UstringMap Directive :=
  SortedMap.byKey (·.name.identifier) directives

/-! ## What a run takes -/

namespace ParserM

variable {M α : Type} {g : LowerSet (GraphQlParser M)} {s s' : GraphQlParser M}

theorem ends_read_bind {β : Type} {f : GraphQlParser M → β} {k : β → ParserM M α} {a : α}
    (h : Ends clean (ParserM.read f >>= k) s a s') : Ends clean (k (f s)) s a s' := by
  obtain ⟨b, s₁, hread, hk⟩ := ends_bind.1 h
  obtain ⟨rfl, rfl⟩ := ends_read hread
  exact hk

theorem ends_createName_bind {β : Type} {identifier : Ustring} {k : Name → ParserM M β} {b : β}
    (h : Ends clean (createName identifier >>= k) s b s') :
    Ends clean (k ⟨⟨s.scanner.startPosition, s.scanner.position⟩, identifier⟩) s b s' := by
  obtain ⟨name, s₁, hcreate, hk⟩ := ends_bind.1 h
  obtain ⟨rfl, rfl, -⟩ := ends_pure.1 (ends_read_bind hcreate)
  exact hk

/-- Nothing is reported. -/
theorem ends_after_when {c : Prop} [Decidable c] {report : ParserM M Unit} (hreport : Never clean report)
    {k : ParserM M α} {a : α} (h : Ends clean (when c report >>= fun _ => k) s a s') :
    Ends clean k s a s' := by
  obtain ⟨_, s₁, hwhen, hk⟩ := ends_bind.1 h
  obtain ⟨-, rfl⟩ := hreport.ends_when hwhen
  exact hk

theorem ends_require_bind {β : Type} {e : Stop} {f : GraphQlParser M → Option β}
    {k : β → ParserM M α} {a : α} (h : Ends clean (Climb.require e f >>= k) s a s') :
    ∃ b, f s = some b ∧ Ends clean (k b) s a s' := by
  obtain ⟨b, s₁, hrequire, hk⟩ := ends_bind.1 h
  obtain ⟨hb, rfl, -⟩ := ends_require.1 hrequire
  exact ⟨b, hb, hk⟩

theorem still_reportAt {span : Span} {template : D} {arguments : List Ustring} :
    Keeps Still (do
      let location ← getLocationFromSyntax span
      addDiagnosticAt location template arguments : ParserM M Unit) :=
  keeps_bind keeps_require fun _ => keeps_step fun _ => rfl

theorem still_modifyType {id : TypeId} {f : TypeNode → TypeNode} :
    Keeps Still (modifyType id f : ParserM M Unit) :=
  still_update fun _ => rfl

theorem still_addDiagnostic {template : D} {arguments : List Ustring} :
    Keeps Still (addDiagnostic template arguments : ParserM M Unit) :=
  keeps_bind still_read fun _ => keeps_step fun _ => rfl

/-- The relation holds of what a computation takes, unless it meets the end of the document. -/
def TakesAs (m : ParserM M α) (R : List Lexeme → α → List Lexeme → Prop) : Prop :=
  ∀ {s a s'}, Ends clean m s a s' → s'.scanner.rest ≠ [] → R s.scanner.rest a s'.scanner.rest

theorem notAhead_of {token : GraphQlToken} {x : List Lexeme}
    (h : ∀ l y, x = l :: y → l.tokenIn false ≠ token) : NotAhead token x := by
  cases x with
  | nil => trivial
  | cons l y => exact h l y rfl

theorem markAt_scanOptional {token : GraphQlToken} {found : Bool}
    (h : Ends clean (scanOptional token false) s found s') (hne : token ≠ .endOfDocument) :
    MarkAt token s.scanner.rest found s'.scanner.rest := by
  rcases took_of_scanOptional h hne with ⟨rfl, l, htook, htoken⟩ | ⟨rfl, hrest, hother⟩
  · rw [htook.rest]
    exact .there htoken
  · rw [hrest]
    exact .missing (notAhead_of hother)

theorem still_createType {node : TypeNode} : Keeps Still (createType node : ParserM M TypeId) :=
  keeps_bind still_read fun _ => keeps_bind (still_update fun _ => rfl) fun _ => keeps_pure

/-- A token that is looked at after the place was saved. -/
theorem took_of_saved {s₁ : GraphQlParser M} {u : Unit} {token : GraphQlToken}
    (hsave : Ends g (scan fun scanner => ((), scanner.save)) s u s₁) (h : Ends g takeToken s₁ token s') :
    (token = .endOfDocument ∧ s.scanner.rest = []) ∨ ∃ l, Took l s s' ∧ l.token = token := by
  obtain ⟨-, rfl⟩ := ends_scan hsave
  have hrest := (GraphQlScanner.samePlace_save s.scanner).rest
  rcases took_of_takeNextToken h with ⟨htoken, hnil, -⟩ | ⟨l, htook, htoken⟩
  · exact .inl ⟨htoken, hrest.trans hnil⟩
  · exact .inr ⟨l, ⟨hrest.trans htook.rest, htook.token, htook.scanned, htook.value, htook.string⟩,
      htoken⟩

/-- After the place is gone back to, the same lexemes are left. -/
theorem rest_of_reverted {s₁ s₂ : GraphQlParser M} {u v : Unit} {token : GraphQlToken}
    (hsave : Ends g (scan fun scanner => ((), scanner.save)) s u s₁) (h : Ends g takeToken s₁ token s₂)
    (hrevert : Ends g (scan fun scanner => ((), scanner.revert)) s₂ v s') :
    s'.scanner.rest = s.scanner.rest := by
  obtain ⟨-, rfl⟩ := ends_scan hsave
  have htake : Ends g (takeNextToken false true) _ token s₂ := h
  obtain ⟨-, rfl⟩ := ends_scan htake
  obtain ⟨-, rfl⟩ := ends_scan hrevert
  have hplace := GraphQlScanner.revert_of_scans (s.scanner.save.scans_takeNextToken false true)
  exact GraphQlScanner.SamePlace.rest ⟨hplace.1, hplace.2⟩

/-- An invalid string has left an error behind. -/
theorem never_takeErrors_of_invalidString {asName : Bool}
    (h : Ends clean (takeNextToken asName true) s .invalidString s') {u : Unit} {s₁ : GraphQlParser M} :
    ¬ Ends clean takeErrorsFromScanner s' u s₁ := by
  intro hends
  obtain ⟨htoken, rfl⟩ := ends_scan h
  obtain ⟨errors, hnotes, hlength⟩ := s.scanner.notesToken_takeNextToken asName true
  rw [← htoken, if_pos rfl] at hlength
  obtain ⟨-, rfl, hclean⟩ := ends_step.1 hends
  have hnil := (List.append_eq_nil_iff.1 hclean).2
  rw [show (s.scanner.takeNextToken asName true).2.errors = errors ++ s.scanner.errors from hnotes.1]
    at hnil
  rw [(List.append_eq_nil_iff.1 hnil).1] at hlength
  cases hlength

end ParserM

end Flashpoint
