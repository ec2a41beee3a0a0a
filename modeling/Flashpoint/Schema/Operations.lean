import Flashpoint.Schema.Wellformed
import Flashpoint.Scanner.Errors

/-!
# What the operations keep, the constructor keeps

A relation between the states of a run that is kept by the single operations of the schema parser is
kept by the passes after parsing (`KeptByChecks`), by the readers of the parts of a definition
(`KeptByParts`) and, when the readers of the definitions keep it too, by the parsing loop
(`KeptByDefinitions`). The reports that only one reader or pass makes stand apart, since most of the
relations are about one of them, and so does the tag of a type that is found to name an enum.
-/

namespace Flashpoint

open Library Climb

/-- The templates that are reported in one place of the schema parser. -/
def D.isOfOnePlace : D → Bool
  | .duplicateType0 => true
  | .cannotAnnotateWithATypeThatRecursivelyReferencesTheDirective0 => true
  | .unknownArgument0 => true
  | .theField0InInterface1IsNotImplemented => true
  | .type0DoesNotMatchType1FromTheInterface2 => true
  | .interface0IsNotDefined => true
  | _ => false

/-- The templates whose reports are counted: those of one place, and that of duplicate arguments. -/
def D.isCounted (template : D) : Bool := template.isOfOnePlace || template = .duplicateArgument0

/-- The arguments of the directive stand under their own names, each under one of its own. -/
def Directive.Keyed (directive : Directive) : Prop :=
  (∀ argument ∈ directive.arguments, argument.1 = argument.2.name.identifier) ∧
    (directive.arguments.map Prod.fst).Nodup

namespace GraphQlSchema

open ParserM

/-- What the operations that read parts of a definition leave alone. -/
structure SameSymbols (s s' : GraphQlSchema) : Prop where
  diagnostics : s'.diagnostics = s.diagnostics
  steps : s'.steps = s.steps
  directives : s'.directives = s.directives
  declarations : s'.pool.declarations = s.pool.declarations
  types : s'.pool.types = s.pool.types
  symbols : s'.members.symbols = s.members.symbols
  duplicateSymbols : s'.members.duplicateSymbols = s.members.duplicateSymbols
  interfaces : s'.members.interfaces = s.members.interfaces
  objectsWithImplementations :
    s'.members.objectsWithImplementations = s.members.objectsWithImplementations
  forwardTypeReferences : s'.members.forwardTypeReferences = s.members.forwardTypeReferences

/-- What the passes after parsing leave alone. -/
structure SameTables (s s' : GraphQlSchema) : Prop extends SameSymbols s s' where
  directiveDefinitions : s'.members.directiveDefinitions = s.members.directiveDefinitions

/-- The flags and the span of a type node are set, and the rest of it is kept. -/
structure SetsFlags (f : TypeNode → TypeNode) : Prop where
  type : ∀ t, (f t).type = t.type
  name : ∀ t, (f t).name = t.name
  parentDirectiveDefinition : ∀ t, (f t).parentDirectiveDefinition = t.parentDirectiveDefinition

/-- The state after a type node was created and its reference noted. -/
def addType (s : GraphQlSchema) (node : TypeNode) : GraphQlSchema :=
  { s with
    pool := { s.pool with types := s.pool.types ++ [node] }
    members := noteReference s.members s.pool.types.length node }

/-- A report of the template keeps the relation. -/
def KeptByReport (R : GraphQlSchema → GraphQlSchema → Prop) (template : D) : Prop :=
  ∀ (s : GraphQlSchema) (d : DiagnosticMessage), d.template = template →
    R s { s with diagnostics := s.diagnostics ++ [d] }

/-- The operations of the passes after parsing keep the relation. -/
structure KeptByChecks (R : GraphQlSchema → GraphQlSchema → Prop) : Prop where
  change : ∀ s s' : GraphQlSchema, s'.scanner = s.scanner → SameTables s s' → R s s'
  setFlags : ∀ (id : TypeId) (f : TypeNode → TypeNode), SetsFlags f →
    Keeps R (modifyType id f : SchemaM Unit)
  report : ∀ template : D, template.isCounted = false → KeptByReport R template

/-- The operations that read tokens and values keep the relation. -/
structure KeptByTokens (R : GraphQlSchema → GraphQlSchema → Prop) : Prop
    extends KeptByChecks R where
  scan : ∀ (s : GraphQlSchema) (scanner : GraphQlScanner), s.scanner.Advances scanner →
    s.scanner.NotesSome scanner → R s { s with scanner }
  update : ∀ s s' : GraphQlSchema, s'.scanner = s.scanner → SameSymbols s s' → R s s'

/-- The operations that read parts of a definition keep the relation. -/
structure KeptByParts (R : GraphQlSchema → GraphQlSchema → Prop) : Prop extends KeptByTokens R where
  addType : ∀ (s : GraphQlSchema) (node : TypeNode), node.IsParsed → R s (s.addType node)
  takeErrors : Keeps R takeErrorsFromScanner
  reportArgument : KeptByReport R .duplicateArgument0
  addDirective : ∀ (s : GraphQlSchema) (directive : Directive), directive.Keyed →
    R s { s with directives := s.directives ++ [directive] }

/-- The readers of the definitions keep the relation too. -/
structure KeptByDefinitions (R : GraphQlSchema → GraphQlSchema → Prop) : Prop
    extends KeptByParts R where
  parseEnum : ∀ fuel, Keeps R (parseEnum fuel)
  parseInterfaceDefinition : ∀ fuel, Keeps R (parseInterfaceDefinition fuel)
  parseInputObject : ∀ fuel, Keeps R (parseInputObject fuel)
  parseObject : ∀ fuel, Keeps R (parseObject fuel)
  parseUnion : ∀ fuel, Keeps R (parseUnionAfterUnionKeyword fuel)

theorem KeptByParts.mono {R S : GraphQlSchema → GraphQlSchema → Prop} (h : KeptByParts R)
    (hRS : ∀ s s', R s s' → S s s') : KeptByParts S where
  change s s' hscanner hsame := hRS s s' (h.change s s' hscanner hsame)
  setFlags id f hf s a s' hrun := hRS s s' (h.setFlags id f hf s a s' hrun)
  addType s node hnode := hRS s _ (h.addType s node hnode)
  report template htemplate s d hd := hRS s _ (h.report template htemplate s d hd)
  scan s scanner hadvances hnotes := hRS s _ (h.scan s scanner hadvances hnotes)
  update s s' hscanner hsame := hRS s s' (h.update s s' hscanner hsame)
  takeErrors s a s' hrun := hRS s s' (h.takeErrors s a s' hrun)
  reportArgument s d hd := hRS s _ (h.reportArgument s d hd)
  addDirective s directive hkeyed := hRS s _ (h.addDirective s directive hkeyed)

/-- A node for the type that a token names. -/
theorem isParsed_typeOfToken {token : GraphQlToken} {type : TypeEnum} {name : Name} {node : TypeNode}
    (h : typeOfToken token = some type) (htype : node.type = type)
    (hname : node.name = if token = .gName then some name else none) : node.IsParsed := by
  rcases isParsed_of_typeOfToken h with ⟨htoken, hscalar⟩ | ⟨htoken, hobject⟩
  · exact .inl ⟨hname.trans (if_neg htoken), htype ▸ hscalar⟩
  · rw [if_pos htoken] at hname
    exact .inr ⟨by rw [hname]; rfl, htype.trans hobject⟩

theorem addType_of_run {token : GraphQlToken} {type : TypeEnum} {name : Name} {span : Span}
    {inInputLocation isListType : Bool} {parentDirectiveDefinition : Option Name} {id : TypeId}
    {s s₁ s₂ : GraphQlSchema} (htype : typeOfToken token = some type)
    (hcreate : (createType
      { span, inInputLocation, parentDirectiveDefinition, isListType, type
        name := if token = .gName then some name else none } : SchemaM TypeId).run s = .ok id s₁)
    (hnote : (when (token = .gName) do
      modifyMembers fun m => { m with
        forwardTypeReferences := m.forwardTypeReferences ++ [id] } : SchemaM Unit).run s₁ =
          .ok () s₂) :
    ∃ node : TypeNode, node.IsParsed ∧ s₂ = s.addType node := by
  obtain ⟨rfl, rfl⟩ := Outcome.ok.inj hcreate
  refine ⟨{ span, inInputLocation, parentDirectiveDefinition, isListType, type
            name := if token = .gName then some name else none },
    isParsed_typeOfToken htype rfl rfl, ?_⟩
  by_cases htoken : token = .gName
  · rw [when, if_pos htoken] at hnote
    obtain ⟨-, rfl⟩ := Outcome.ok.inj hnote
    simp only [addType, noteReference, htoken, if_true, Option.isSome_some]
  · rw [when, if_neg htoken] at hnote
    obtain ⟨-, rfl⟩ := Outcome.ok.inj hnote
    simp only [addType, noteReference, htoken, if_false, Option.isSome_none, Bool.false_eq_true,
      List.append_nil]

namespace KeptByReport

variable {R : GraphQlSchema → GraphQlSchema → Prop} {template : D} (h : KeptByReport R template)
include h

theorem keeps_addDiagnosticAt {location : Location} {arguments : List Ustring} :
    Keeps R (addDiagnosticAt location template arguments : SchemaM Unit) :=
  keeps_step fun s => h s ⟨template, arguments, location⟩ rfl

theorem keeps_addDiagnostic [IsPreorder GraphQlSchema R] {arguments : List Ustring} :
    Keeps R (addDiagnostic template arguments : SchemaM Unit) :=
  keeps_bind (keeps_bind keeps_get fun _ => keeps_pure) fun _ => h.keeps_addDiagnosticAt

theorem keeps_reportAt [IsPreorder GraphQlSchema R] {span : Span} {arguments : List Ustring} :
    Keeps R (do
      let location ← getLocationFromSyntax span
      addDiagnosticAt location template arguments : SchemaM Unit) :=
  keeps_bind keeps_require fun _ => h.keeps_addDiagnosticAt

end KeptByReport

namespace KeptByChecks

variable {R : GraphQlSchema → GraphQlSchema → Prop} [IsPreorder GraphQlSchema R] {α : Type}
  (h : KeptByChecks R)
include h

omit h in
theorem keeps_read (_ : KeptByChecks R) {f : GraphQlSchema → α} : Keeps R (ParserM.read f) :=
  keeps_bind keeps_get fun _ => keeps_pure

omit h in
theorem keeps_getTypeName (_ : KeptByChecks R) {type : TypeNode} :
    Keeps R (getTypeName type : SchemaM Ustring) := by
  refine keeps_bind ?_ fun _ => keeps_pure
  unfold typeNameText
  split
  all_goals first
    | exact keeps_pure
    | exact keeps_bind keeps_require fun _ => keeps_pure
    | exact keeps_stop

omit [IsPreorder GraphQlSchema R] in
theorem keeps_addDiagnosticAt {location : Location} {template : D} {arguments : List Ustring}
    (htemplate : template.isCounted = false) :
    Keeps R (addDiagnosticAt location template arguments : SchemaM Unit) :=
  (h.report template htemplate).keeps_addDiagnosticAt

theorem keeps_addDiagnostic {template : D} {arguments : List Ustring}
    (htemplate : template.isCounted = false) :
    Keeps R (addDiagnostic template arguments : SchemaM Unit) :=
  (h.report template htemplate).keeps_addDiagnostic

theorem keeps_reportAt {span : Span} {template : D} {arguments : List Ustring}
    (htemplate : template.isCounted = false) :
    Keeps R (do
      let location ← getLocationFromSyntax span
      addDiagnosticAt location template arguments : SchemaM Unit) :=
  (h.report template htemplate).keeps_reportAt

omit h in
theorem keeps_hasDiagnosticInSyntax (_ : KeptByChecks R) {span : Span} {template : D} :
    Keeps R (hasDiagnosticInSyntax span template : SchemaM Bool) :=
  keeps_bind keeps_require fun _ => keeps_bind keeps_get fun _ => keeps_pure

end KeptByChecks

namespace KeptByTokens

variable {R : GraphQlSchema → GraphQlSchema → Prop} {α : Type}

/-! ## The operations of the parser -/

section Steps

variable (h : KeptByTokens R)
include h

theorem keeps_scan {f : GraphQlScanner → α × GraphQlScanner}
    (hf : ∀ s : GraphQlScanner, s.Advances (f s).2) (hnotes : ∀ s : GraphQlScanner,
      s.NotesSome (f s).2) : Keeps R (ParserM.scan f : SchemaM α) :=
  keeps_step fun s => h.scan s _ (hf s.scanner) (hnotes s.scanner)

theorem keeps_update {f : GraphQlSchema → GraphQlSchema} (hscanner : ∀ s, (f s).scanner = s.scanner)
    (hf : ∀ s, (f s).directives = s.directives ∧ (f s).pool = s.pool ∧
      (f s).members.symbols = s.members.symbols ∧
      (f s).members.duplicateSymbols = s.members.duplicateSymbols ∧
      (f s).members.interfaces = s.members.interfaces ∧
      (f s).members.objectsWithImplementations = s.members.objectsWithImplementations ∧
      (f s).members.forwardTypeReferences = s.members.forwardTypeReferences) :
    Keeps R (ParserM.update f) := by
  refine keeps_step fun s => h.update s _ (hscanner s) ?_
  obtain ⟨hdirectives, hpool, hsymbols, hduplicates, hinterfaces, hobjects, hreferences⟩ := hf s
  exact ⟨rfl, rfl, hdirectives, congrArg Pool.declarations hpool, congrArg Pool.types hpool,
    hsymbols, hduplicates, hinterfaces, hobjects, hreferences⟩

theorem keeps_modifyMembers {f : SchemaMembers → SchemaMembers}
    (hf : ∀ m, (f m).symbols = m.symbols ∧ (f m).duplicateSymbols = m.duplicateSymbols ∧
      (f m).interfaces = m.interfaces ∧
      (f m).objectsWithImplementations = m.objectsWithImplementations ∧
      (f m).forwardTypeReferences = m.forwardTypeReferences) :
    Keeps R (modifyMembers f) :=
  h.keeps_update (fun _ => rfl) fun s => ⟨rfl, rfl, hf s.members⟩

theorem keeps_takeNextToken {treatKeywordAsName skipWhiteSpace : Bool} :
    Keeps R (takeNextToken treatKeywordAsName skipWhiteSpace : SchemaM GraphQlToken) :=
  h.keeps_scan (fun s => (s.scans_takeNextToken _ _).toAdvances) fun s =>
    (s.notesToken_takeNextToken _ _).notesSome

theorem keeps_takeToken : Keeps R (takeToken : SchemaM GraphQlToken) := h.keeps_takeNextToken

theorem keeps_scanTry {token : GraphQlToken} {treatKeywordAsName : Bool} :
    Keeps R (ParserM.scan fun s => s.tryScan token treatKeywordAsName : SchemaM GraphQlToken) :=
  h.keeps_scan (fun s => s.advances_tryScan _ _) fun s => (s.notesToken_tryScan _ _).notesSome

theorem keeps_skipTo {tokens : List GraphQlToken} :
    Keeps R (skipTo tokens : SchemaM GraphQlToken) :=
  h.keeps_scan (fun s => s.advances_skipTo _) fun s => s.notesSome_skipTo _

theorem keeps_skipBlock : Keeps R (skipBlock : SchemaM Unit) :=
  h.keeps_scan (fun s => s.advances_skipBlock) fun s => s.notesSome_skipBlock

theorem keeps_scanDirectiveLocation :
    Keeps R (ParserM.scan fun s => s.scanDirectiveLocation : SchemaM DirectiveLocation) :=
  h.keeps_scan (fun s => s.scans_scanDirectiveLocation.toAdvances) fun s =>
    ⟨[], GraphQlScanner.notes_of_eq s.errors_scanDirectiveLocation⟩

end Steps

variable [IsPreorder GraphQlSchema R] (h : KeptByTokens R)
include h

theorem keeps_createName {identifier : Ustring} :
    Keeps R (createName identifier : SchemaM Name) :=
  keeps_bind h.keeps_read fun _ => keeps_pure

theorem keeps_scanExpected {token : GraphQlToken} {treatKeywordAsName : Bool} :
    Keeps R (scanExpected token treatKeywordAsName : SchemaM Bool) := by
  refine keeps_bind h.keeps_takeNextToken fun result => ?_
  split
  · exact keeps_pure
  split
  · exact keeps_stop
  · refine keeps_bind ?_ fun _ => keeps_pure
    unfold reportExpected
    split
    · exact h.keeps_addDiagnostic rfl
    · exact keeps_bind h.keeps_read fun _ => h.keeps_addDiagnostic rfl

theorem keeps_scanExpectedOr {token : GraphQlToken} {template : D} {treatKeywordAsName : Bool}
    (htemplate : template.isCounted = false) :
    Keeps R (scanExpectedOr token template treatKeywordAsName : SchemaM Bool) := by
  refine keeps_bind h.keeps_takeNextToken fun result => ?_
  split
  · exact keeps_pure
  · exact keeps_bind h.keeps_read fun _ => keeps_bind (h.keeps_addDiagnostic htemplate) fun _ =>
      keeps_pure

theorem keeps_scanOptional {token : GraphQlToken} {treatKeywordAsName : Bool} :
    Keeps R (scanOptional token treatKeywordAsName : SchemaM Bool) :=
  keeps_bind h.keeps_scanTry fun _ => keeps_pure

theorem keeps_skipToNextPrimaryToken : Keeps R skipToNextPrimaryToken :=
  keeps_bind h.keeps_skipTo fun _ => keeps_pure

/-- A computation that goes on to the next definition. -/
theorem keeps_giveUp {a : α} :
    Keeps R (do
      skipToNextPrimaryToken
      return a : SchemaM α) :=
  keeps_bind h.keeps_skipToNextPrimaryToken fun _ => keeps_pure

/-- A token is looked at: it is taken, or taken back. -/
theorem keeps_lookAhead {f : GraphQlToken → SchemaM α} {a : α} {p : GraphQlToken → Prop}
    [DecidablePred p]
    (hback : ∀ token, p token → f token = ParserM.scan (fun s => ((), s.revert)) >>= fun _ => pure a)
    (htake : ∀ token, ¬ p token → Keeps R (f token)) :
    Keeps R (do
      ParserM.scan fun s => ((), s.save)
      let token ← takeToken
      f token) := by
  intro s b s' hrun
  obtain ⟨_, _, hsave, hrun₁⟩ := run_bind_eq_ok.1 hrun
  obtain ⟨-, rfl⟩ := Outcome.ok.inj hsave
  obtain ⟨token, _, htoken, hrun₂⟩ := run_bind_eq_ok.1 hrun₁
  obtain ⟨rfl, rfl⟩ := Outcome.ok.inj htoken
  have hscans := s.scanner.save.scans_takeNextToken false true
  have hnotes : s.scanner.NotesSome (s.scanner.save.takeNextToken false true).2 :=
    ((s.scanner.save.notesToken_takeNextToken false true).after rfl).notesSome
  by_cases hp : p (s.scanner.save.takeNextToken false true).1
  · rw [show f _ = _ from hback _ hp] at hrun₂
    obtain ⟨_, _, hrevert, hpure⟩ := run_bind_eq_ok.1 hrun₂
    obtain ⟨-, rfl⟩ := Outcome.ok.inj hrevert
    obtain ⟨-, rfl⟩ := Outcome.ok.inj hpure
    exact h.scan s _ (GraphQlScanner.advances_revert hscans)
      (hnotes.trans ⟨[], GraphQlScanner.notes_of_eq (GraphQlScanner.errors_revert _)⟩)
  · refine trans_of R (h.scan s _ ?_ hnotes) (htake _ hp _ _ _ hrun₂)
    exact s.scanner.advances_save.trans hscans.toAdvances

/-! ## Values and arguments -/

theorem keeps_parseValues (fuel : Nat) :
    Keeps R (parseValue fuel) ∧ Keeps R (parseListValues fuel) ∧
      Keeps R (parseObjectFields fuel) := by
  induction fuel with
  | zero => exact ⟨keeps_stop, keeps_stop, keeps_stop⟩
  | succ fuel ih =>
    obtain ⟨ihValue, ihList, ihFields⟩ := ih
    refine ⟨?_, ?_, ?_⟩
    · have hspan : ∀ {value : Span → Value}, Keeps R (do
          let span ← createSpan
          return some (value span) : SchemaM (Option Value)) := fun {_} =>
        keeps_bind h.keeps_read fun _ => keeps_pure
      have hvalue : ∀ {value : Span → Ustring → Value}, Keeps R (do
          let span ← createSpan
          let text ← getTokenValue
          return some (value span text) : SchemaM (Option Value)) := fun {_} =>
        keeps_bind h.keeps_read fun _ => keeps_bind h.keeps_read fun _ => keeps_pure
      unfold parseValue
      refine keeps_bind h.keeps_takeToken fun token => ?_
      refine keeps_bind (h.keeps_update (fun _ => rfl) fun _ => ⟨rfl, rfl, rfl, rfl, rfl, rfl, rfl⟩) fun _ => ?_
      split
      · refine keeps_bind h.keeps_read fun _ => keeps_bind ihList fun _ => ?_
        refine keeps_bind h.keeps_read fun _ => keeps_bind (keeps_when ?_) fun _ =>
          keeps_bind h.keeps_read fun _ => keeps_pure
        exact keeps_bind h.keeps_read fun _ => h.keeps_addDiagnostic rfl
      · exact keeps_pure
      · exact hspan
      · exact hvalue
      · exact hvalue
      · exact hvalue
      · exact hspan
      · exact hspan
      · exact hvalue
      · refine keeps_bind h.keeps_read fun _ => keeps_bind ihFields fun fields => ?_
        split
        · exact keeps_pure
        · exact keeps_bind h.keeps_read fun _ => keeps_pure
      · exact keeps_bind h.keeps_read fun _ => keeps_bind (h.keeps_addDiagnostic rfl) fun _ =>
          keeps_bind h.keeps_skipTo fun _ => keeps_pure
    · unfold parseListValues
      refine keeps_bind ihValue fun value => ?_
      split
      · exact keeps_pure
      · exact keeps_bind ihList fun _ => keeps_pure
    · unfold parseObjectFields
      refine keeps_bind h.keeps_takeNextToken fun token => ?_
      split
      · exact keeps_pure
      split
      · refine keeps_bind (h.keeps_addDiagnostic rfl) fun _ => keeps_bind h.keeps_skipTo fun t => ?_
        split
        · exact ihFields
        · exact keeps_pure
      refine keeps_bind h.keeps_read fun _ => keeps_bind h.keeps_read fun _ => ?_
      refine keeps_bind h.keeps_createName fun _ => keeps_bind h.keeps_scanExpected fun colon => ?_
      split
      · exact keeps_bind ihValue fun _ => keeps_bind ihFields fun _ => keeps_pure
      · exact keeps_pure

end KeptByTokens

namespace KeptByParts

variable {R : GraphQlSchema → GraphQlSchema → Prop} [IsPreorder GraphQlSchema R] (h : KeptByParts R)
include h

theorem keeps_reportDuplicateArgument {first name : Name} :
    Keeps R (reportDuplicateArgument first name) :=
  keeps_bind h.keeps_hasDiagnosticInSyntax fun _ =>
    keeps_bind (keeps_when h.reportArgument.keeps_reportAt) fun _ => h.reportArgument.keeps_reportAt

theorem keeps_parseArgumentsAfterOpenParen (fuel : Nat) (arguments : UstringMap Argument) :
    Keeps R (parseArgumentsAfterOpenParen fuel arguments) := by
  induction fuel generalizing arguments with
  | zero => exact keeps_stop
  | succ fuel ih =>
    unfold parseArgumentsAfterOpenParen
    refine keeps_bind h.keeps_takeNextToken fun token => ?_
    split
    · exact keeps_pure
    refine keeps_bind h.keeps_read fun _ => keeps_bind h.keeps_createName fun _ => ?_
    refine keeps_bind h.keeps_read fun _ => keeps_bind h.keeps_scanExpected fun colon => ?_
    split
    · refine keeps_bind (h.keeps_parseValues fuel).1 fun value => ?_
      split
      · exact ih _
      · exact keeps_bind h.keeps_reportDuplicateArgument fun _ => ih _
    · exact keeps_bind h.keeps_skipTo fun _ => keeps_pure

theorem keeps_parseDirectiveArguments (fuel : Nat) : Keeps R (parseDirectiveArguments fuel) := by
  refine keeps_bind h.keeps_scanOptional fun paren => ?_
  split
  · exact h.keeps_parseArgumentsAfterOpenParen _ _
  · exact keeps_pure

end KeptByParts

/-! ## The arguments of a directive stand under their names -/

/-- The names of the arguments are their keys. -/
def ArgumentsKeyed (arguments : UstringMap Argument) : Prop :=
  ∀ argument ∈ arguments.entries, argument.1 = argument.2.name.identifier

theorem argumentsKeyed_emplace {arguments : UstringMap Argument} (h : ArgumentsKeyed arguments)
    {span : Span} {name : Name} {value : Option Value} {directives : List (Ustring × Directive)} :
    ArgumentsKeyed (arguments.emplace name.identifier (.mk span name value directives)) := by
  rintro ⟨k, argument⟩ hmem
  rcases SortedMap.find?_emplace_cases (SortedMap.mem_entries_iff.1 hmem) with hold | ⟨rfl, rfl, -⟩
  · exact h (k, argument) (SortedMap.mem_entries_iff.2 hold)
  · rfl

theorem argumentsKeyed_parseArgumentsAfterOpenParen {fuel : Nat} {arguments result : UstringMap Argument}
    {s s' : GraphQlSchema} (h : ArgumentsKeyed arguments)
    (hrun : (parseArgumentsAfterOpenParen fuel arguments).run s = .ok result s') :
    ArgumentsKeyed result := by
  induction fuel generalizing arguments s with
  | zero => cases hrun
  | succ fuel ih =>
    unfold parseArgumentsAfterOpenParen at hrun
    obtain ⟨token, _, -, hrun⟩ := run_bind_eq_ok.1 hrun
    split at hrun
    · obtain ⟨rfl, -⟩ := Outcome.ok.inj hrun
      exact h
    obtain ⟨value, _, -, hrun⟩ := run_bind_eq_ok.1 hrun
    obtain ⟨name, _, hname, hrun⟩ := run_bind_eq_ok.1 hrun
    obtain rfl : name.identifier = value := by
      obtain ⟨_, _, -, hpure⟩ := run_bind_eq_ok.1 hname
      exact congrArg Name.identifier (Outcome.ok.inj hpure).1.symm
    obtain ⟨span, _, -, hrun⟩ := run_bind_eq_ok.1 hrun
    obtain ⟨colon, _, -, hrun⟩ := run_bind_eq_ok.1 hrun
    split at hrun
    · obtain ⟨argumentValue, _, -, hrun⟩ := run_bind_eq_ok.1 hrun
      split at hrun
      · exact ih (argumentsKeyed_emplace h) hrun
      · obtain ⟨_, _, -, hrun⟩ := run_bind_eq_ok.1 hrun
        exact ih h hrun
    · obtain ⟨_, _, -, hrun⟩ := run_bind_eq_ok.1 hrun
      obtain ⟨rfl, -⟩ := Outcome.ok.inj hrun
      exact h

theorem keyed_parseDirectiveArguments {fuel : Nat} {arguments : UstringMap Argument}
    {s s' : GraphQlSchema} (hrun : (parseDirectiveArguments fuel).run s = .ok arguments s')
    (span : Span) (name : Name) (location : DirectiveLocation) (parent : Option Name) :
    (Directive.mk span name location parent arguments.entries).Keyed := by
  have hempty : ArgumentsKeyed ∅ := fun _ hmem => absurd hmem List.not_mem_nil
  refine ⟨?_, SortedMap.nodup_keys arguments⟩
  obtain ⟨paren, _, -, hrun⟩ := run_bind_eq_ok.1 hrun
  split at hrun
  · exact argumentsKeyed_parseArgumentsAfterOpenParen hempty hrun
  · obtain ⟨rfl, -⟩ := Outcome.ok.inj hrun
    exact hempty

namespace KeptByParts

variable {R : GraphQlSchema → GraphQlSchema → Prop} [IsPreorder GraphQlSchema R] {α : Type}
  (h : KeptByParts R)
include h

/-- A directive is entered after its arguments were read. -/
theorem keeps_enterDirective {fuel : Nat} {span : Span} {name : Name} {location : DirectiveLocation}
    {parent : Option Name} {rest : UstringMap Argument → SchemaM α} (hrest : ∀ a, Keeps R (rest a)) :
    Keeps R (do
      let arguments ← parseDirectiveArguments fuel
      ParserM.update fun s => { s with
        directives := s.directives ++ [.mk span name location parent arguments.entries] }
      rest arguments) := by
  intro s a s' hrun
  obtain ⟨arguments, s₁, harguments, hrun₁⟩ := run_bind_eq_ok.1 hrun
  obtain ⟨_, s₂, henter, hrun₂⟩ := run_bind_eq_ok.1 hrun₁
  obtain ⟨-, rfl⟩ := Outcome.ok.inj henter
  have hkeyed := keyed_parseDirectiveArguments harguments span name location parent
  refine trans_of R (h.keeps_parseDirectiveArguments fuel _ _ _ harguments) ?_
  exact trans_of R (h.addDirective s₁ _ hkeyed) (hrest _ _ _ _ hrun₂)

theorem keeps_parseDirectivesLoop (location : DirectiveLocation) (parent : Option Name) (fuel : Nat)
    (directives : UstringMap Directive) :
    Keeps R (parseDirectivesLoop location parent fuel directives) := by
  induction fuel generalizing directives with
  | zero => exact keeps_stop
  | succ fuel ih =>
    unfold parseDirectivesLoop
    refine keeps_bind h.keeps_scanOptional fun found => ?_
    split
    · refine keeps_bind h.keeps_takeNextToken fun token => ?_
      split
      · exact keeps_bind h.keeps_read fun _ => keeps_bind (h.keeps_addDiagnostic rfl) fun _ =>
          h.keeps_giveUp
      refine keeps_bind h.keeps_read fun _ => keeps_bind h.keeps_read fun _ => ?_
      refine keeps_bind h.keeps_createName fun _ => h.keeps_enterDirective fun _ => ?_
      split
      · exact ih _
      · exact keeps_bind h.reportArgument.keeps_addDiagnostic fun _ => ih _
    · exact keeps_pure

theorem keeps_parseDirectives {fuel : Nat} {location : DirectiveLocation} {parent : Option Name} :
    Keeps R (parseDirectives fuel location parent) := h.keeps_parseDirectivesLoop _ _ _ _

/-! ## Types, arguments and fields -/

theorem keeps_parseNamedType {span : Span} {inInput isListType : Bool} {parent : Option Name}
    {token : GraphQlToken} : Keeps R (parseNamedType span inInput parent isListType token) := by
  have hfinish : ∀ {id : TypeId}, Keeps R (do
      let span ← finishSpan span
      modifyType id fun t => { t with span }
      return some id : SchemaM (Option TypeId)) := fun {_} =>
    keeps_bind h.keeps_read fun _ =>
      keeps_bind (h.setFlags _ _ ⟨fun _ => rfl, fun _ => rfl, fun _ => rfl⟩) fun _ => keeps_pure
  unfold parseNamedType
  split
  · exact keeps_bind h.keeps_read fun _ => keeps_bind (h.keeps_addDiagnostic rfl) fun _ =>
      keeps_pure
  next type htype =>
  refine keeps_bind h.keeps_read fun _ => keeps_bind h.keeps_createName fun name => ?_
  intro s a s' hrun
  obtain ⟨id, s₁, hcreate, hrun₁⟩ := run_bind_eq_ok.1 hrun
  obtain ⟨_, s₂, hnote, hrun₂⟩ := run_bind_eq_ok.1 hrun₁
  obtain ⟨node, hnode, rfl⟩ := addType_of_run htype hcreate hnote
  refine trans_of R (h.addType s node hnode) ((?_ : Keeps R _) _ _ _ hrun₂)
  refine keeps_bind h.keeps_scanOptional fun _ => ?_
  refine keeps_bind (h.setFlags _ _ ⟨fun _ => rfl, fun _ => rfl, fun _ => rfl⟩) fun _ => ?_
  split
  · refine keeps_bind h.keeps_scanExpected fun closed => ?_
    split
    · refine keeps_bind h.keeps_scanOptional fun _ => ?_
      refine keeps_bind (h.setFlags _ _ ⟨fun _ => rfl, fun _ => rfl, fun _ => rfl⟩) fun _ => ?_
      exact hfinish
    · exact keeps_pure
  · exact hfinish

theorem keeps_parsedType {inInput : Bool} {parent : Option Name} :
    Keeps R ( parseTypeAnnotation inInput parent) := by
  refine keeps_bind h.keeps_takeToken fun token => keeps_bind h.keeps_read fun _ => ?_
  split
  · exact keeps_bind h.keeps_takeToken fun _ => h.keeps_parseNamedType
  · exact h.keeps_parseNamedType

theorem keeps_parseArgumentsDefinitionAfterOpenParen (parent : Option Name) (fuel : Nat)
    (arguments : UstringMap InputValueDefinition) :
    Keeps R (parseArgumentsDefinitionAfterOpenParen parent fuel arguments) := by
  induction fuel generalizing arguments with
  | zero => exact keeps_stop
  | succ fuel ih =>
    unfold parseArgumentsDefinitionAfterOpenParen
    refine keeps_bind h.keeps_takeNextToken fun token => ?_
    split
    · refine keeps_bind h.keeps_read fun _ => ?_
      exact keeps_bind (h.keeps_update (fun _ => rfl) fun _ => ⟨rfl, rfl, rfl, rfl, rfl, rfl, rfl⟩) fun _ => ih _
    refine keeps_bind h.keeps_read fun _ => keeps_bind h.keeps_read fun _ => ?_
    refine keeps_bind (h.keeps_update (fun _ => rfl) fun _ => ⟨rfl, rfl, rfl, rfl, rfl, rfl, rfl⟩) fun _ => ?_
    split
    · exact keeps_pure
    split
    · exact keeps_bind (h.keeps_addDiagnostic rfl) fun _ => keeps_pure
    refine keeps_bind h.keeps_read fun _ => keeps_bind h.keeps_createName fun _ => ?_
    refine keeps_bind h.keeps_scanExpected fun colon => ?_
    split
    · refine keeps_bind h.keeps_parsedType fun _ => ?_
      refine keeps_bind h.keeps_parseDirectives fun _ => ?_
      split
      · exact ih _
      · exact keeps_bind h.reportArgument.keeps_addDiagnostic fun _ => ih _
    · exact keeps_pure

theorem keeps_parseArgumentsDefinition {parent : Option Name} {fuel : Nat} :
    Keeps R (parseArgumentsDefinition parent fuel) := by
  refine keeps_bind h.keeps_scanOptional fun paren => ?_
  split
  · exact h.keeps_parseArgumentsDefinitionAfterOpenParen _ _ _
  · exact keeps_pure

theorem keeps_parseFieldsDefinitionAfterOpenBrace (fuel : Nat) (fields : UstringMap FieldDefinition)
    (description : Ustring) :
    Keeps R (parseFieldsDefinitionAfterOpenBrace fuel fields description) := by
  induction fuel generalizing fields description with
  | zero => exact keeps_stop
  | succ fuel ih =>
    unfold parseFieldsDefinitionAfterOpenBrace
    refine keeps_bind h.keeps_takeNextToken fun token => ?_
    split
    · exact keeps_bind (h.keeps_addDiagnostic rfl) fun _ => keeps_pure
    split
    · exact keeps_pure
    split
    · exact keeps_bind h.keeps_read fun _ => ih _ _
    split
    · exact keeps_bind h.takeErrors fun _ => ih _ _
    split
    · exact keeps_bind (h.keeps_addDiagnostic rfl) fun _ => keeps_pure
    refine keeps_bind h.keeps_read fun _ => keeps_bind h.keeps_read fun _ => ?_
    refine keeps_bind (keeps_when (h.keeps_addDiagnostic rfl)) fun _ => ?_
    refine keeps_bind h.keeps_createName fun _ => ?_
    refine keeps_bind h.keeps_parseArgumentsDefinition fun _ => ?_
    refine keeps_bind h.keeps_scanExpected fun colon => ?_
    split
    · refine keeps_bind h.keeps_parsedType fun type => ?_
      split
      · exact keeps_pure
      · exact keeps_bind h.keeps_parseDirectives fun _ => ih _ _
    · exact keeps_pure

theorem keeps_parseFieldsDefinition {fuel : Nat} : Keeps R (parseFieldsDefinition fuel) := by
  refine keeps_bind h.keeps_scanExpected fun brace => ?_
  split
  · exact h.keeps_parseFieldsDefinitionAfterOpenBrace _ _ _
  · exact keeps_pure

theorem keeps_parseInputFieldsDefinitionLoop (fuel : Nat)
    (fields : UstringMap InputFieldDefinition) (requiredFields : List Ustring) :
    Keeps R (parseInputFieldsDefinitionLoop fuel fields requiredFields) := by
  induction fuel generalizing fields requiredFields with
  | zero => exact keeps_stop
  | succ fuel ih =>
    unfold parseInputFieldsDefinitionLoop
    refine keeps_bind h.keeps_read fun _ => keeps_bind h.keeps_takeNextToken fun token => ?_
    split
    · exact keeps_bind (h.keeps_addDiagnostic rfl) fun _ => keeps_pure
    split
    · exact keeps_pure
    split
    · exact ih _ _
    split
    · exact keeps_bind h.takeErrors fun _ => ih _ _
    split
    · exact keeps_bind (h.keeps_addDiagnostic rfl) fun _ => keeps_pure
    refine keeps_bind h.keeps_read fun _ => keeps_bind h.keeps_createName fun _ => ?_
    refine keeps_bind h.keeps_scanExpected fun colon => ?_
    split
    · refine keeps_bind h.keeps_parsedType fun type => ?_
      split
      · exact keeps_pure
      · exact keeps_bind keeps_require fun _ => keeps_bind h.keeps_parseDirectives fun _ => ih _ _
    · exact keeps_pure

theorem keeps_parseInputFieldsDefinition {fuel : Nat} :
    Keeps R (parseInputFieldsDefinition fuel) := by
  refine keeps_bind h.keeps_scanExpected fun brace => ?_
  split
  · exact h.keeps_parseInputFieldsDefinitionLoop _ _ _
  · exact keeps_pure

/-! ## The parts of definitions -/

theorem keeps_parseImplementations (fuel : Nat) (implementations : UstringMap Name) :
    Keeps R (parseImplementations fuel implementations) := by
  induction fuel generalizing implementations with
  | zero => exact keeps_stop
  | succ fuel ih =>
    have hcheck : ∀ {name}, Keeps R (checkImplementationName name) := by
      intro name
      refine keeps_bind h.keeps_read fun symbols => ?_
      split
      · exact keeps_pure
      · exact keeps_when (h.keeps_addDiagnostic rfl)
    unfold parseImplementations
    refine keeps_bind h.keeps_takeToken fun token => ?_
    split
    · exact keeps_bind (h.keeps_addDiagnostic rfl) fun _ => keeps_pure
    split
    · exact keeps_bind (h.keeps_addDiagnostic rfl) fun _ => keeps_pure
    refine keeps_bind h.keeps_read fun _ => keeps_bind h.keeps_createName fun _ => ?_
    refine keeps_bind hcheck fun _ => keeps_bind h.keeps_takeToken fun postToken => ?_
    split
    · exact keeps_pure
    split
    · exact ih _
    · exact keeps_bind h.keeps_read fun _ => keeps_bind (h.keeps_addDiagnostic rfl) fun _ =>
        keeps_bind h.keeps_skipBlock fun _ => keeps_pure

theorem keeps_parseEnumValues (fuel : Nat) (values : UstringMap EnumValueDefinition) :
    Keeps R (parseEnumValues fuel values) := by
  induction fuel generalizing values with
  | zero => exact keeps_stop
  | succ fuel ih =>
    unfold parseEnumValues
    refine keeps_bind h.keeps_takeToken fun token => ?_
    split
    · exact keeps_pure
    split
    · exact ih _
    split
    · exact keeps_bind (h.keeps_addDiagnostic rfl) fun _ => keeps_pure
    split
    · exact keeps_bind h.keeps_read fun _ => keeps_bind (h.keeps_addDiagnostic rfl) fun _ =>
        keeps_bind h.keeps_skipTo fun _ => keeps_pure
    · exact keeps_bind h.keeps_read fun _ => keeps_bind h.keeps_createName fun _ =>
        keeps_bind h.keeps_parseDirectives fun _ => ih _

theorem keeps_parseUnionMembers (fuel : Nat) (members : UstringMap Name) :
    Keeps R (parseUnionMembers fuel members) := by
  induction fuel generalizing members with
  | zero => exact keeps_stop
  | succ fuel ih =>
    refine h.keeps_lookAhead (a := some members) (p := fun token => tokenIsPrimary token = true)
      (fun token hprimary => ?_) fun token hprimary => ?_
    · have hpipe : token ≠ .pipe := fun htoken => by
        rw [htoken] at hprimary
        exact Bool.false_ne_true hprimary
      rw [if_pos hpipe, if_pos hprimary]
    · split
      · exact h.keeps_giveUp
      · refine keeps_bind h.keeps_scanExpected fun found => ?_
        split
        · exact keeps_bind h.keeps_read fun _ => keeps_bind h.keeps_createName fun _ => ih _
        · exact h.keeps_giveUp

theorem keeps_parseLocations (fuel : Nat) (locations : Finset DirectiveLocation) :
    Keeps R (parseLocations fuel locations) := by
  induction fuel generalizing locations with
  | zero => exact keeps_stop
  | succ fuel ih =>
    refine h.keeps_lookAhead (a := some locations) (p := fun token => tokenIsPrimary token = true)
      (fun token hprimary => ?_) fun token hprimary => ?_
    · rw [if_pos hprimary]
    · rw [if_neg hprimary]
      split
      · exact keeps_bind h.keeps_read fun _ => keeps_bind (h.keeps_addDiagnostic rfl) fun _ =>
          h.keeps_giveUp
      refine keeps_bind h.keeps_scanDirectiveLocation fun l => ?_
      split
      · exact keeps_bind (h.keeps_addDiagnostic rfl) fun _ => h.keeps_giveUp
      split
      · exact keeps_bind (h.keeps_addDiagnosticAt rfl) fun _ => keeps_pure
      · exact ih _

theorem keeps_parseDirectiveLocations {fuel : Nat} {name : Ustring} :
    Keeps R (parseDirectiveLocations fuel name) := by
  refine keeps_bind h.keeps_scanOptional fun _ => ?_
  refine keeps_bind (h.keeps_update (fun _ => rfl) fun _ => ⟨rfl, rfl, rfl, rfl, rfl, rfl, rfl⟩) fun _ => ?_
  refine keeps_bind h.keeps_scanDirectiveLocation fun location => ?_
  split
  · exact keeps_bind (h.keeps_addDiagnostic rfl) fun _ => h.keeps_giveUp
  · exact h.keeps_parseLocations _ _

theorem keeps_parseDirectiveDefinition {fuel : Nat} :
    Keeps R (parseDirectiveDefinitionAfterDirectiveKeyword fuel) := by
  refine keeps_bind h.keeps_scanExpected fun found => ?_
  split
  case isFalse => exact h.keeps_giveUp
  refine keeps_bind h.keeps_takeNextToken fun token => ?_
  split
  · split
    · exact keeps_stop
    · exact keeps_bind (h.keeps_addDiagnostic rfl) fun _ => h.keeps_giveUp
  refine keeps_bind h.keeps_read fun _ => keeps_bind h.keeps_read fun _ => ?_
  refine keeps_bind h.keeps_read fun _ => keeps_bind h.keeps_createName fun _ => ?_
  refine keeps_bind h.keeps_parseArgumentsDefinition fun _ => ?_
  refine keeps_bind h.keeps_scanExpected fun on => ?_
  split
  · refine keeps_bind h.keeps_parseDirectiveLocations fun locations => ?_
    split
    · exact keeps_pure
    · exact keeps_bind (h.keeps_modifyMembers fun _ => ⟨rfl, rfl, rfl, rfl, rfl⟩) fun _ => keeps_pure
  · exact keeps_bind h.keeps_skipTo fun _ => keeps_pure

theorem keeps_parseSchemaFieldAfterColon : Keeps R parseSchemaFieldAfterColon := by
  refine keeps_bind h.keeps_scanExpected fun colon => ?_
  split
  · refine keeps_bind h.keeps_scanExpected fun found => ?_
    split
    · exact keeps_bind h.keeps_read fun _ => keeps_bind h.keeps_createName fun _ => keeps_pure
    · exact h.keeps_giveUp
  · exact keeps_pure

theorem keeps_parseSchemaFields (fuel : Nat) (schema : Schema) (duplicates : List OperationType) :
    Keeps R (parseSchemaFields fuel schema duplicates) := by
  induction fuel generalizing schema duplicates with
  | zero => exact keeps_stop
  | succ fuel ih =>
    unfold parseSchemaFields
    refine keeps_bind h.keeps_takeToken fun token => ?_
    split
    · split
      · refine keeps_bind h.keeps_createName fun _ => ?_
        exact keeps_bind h.keeps_parseSchemaFieldAfterColon fun _ => ih _ _
      · refine keeps_bind (h.keeps_addDiagnostic rfl) fun _ => ?_
        refine keeps_bind h.keeps_parseSchemaFieldAfterColon fun _ => ?_
        split
        · exact ih _ _
        · exact keeps_bind keeps_require fun _ =>
            keeps_bind (h.keeps_addDiagnosticAt rfl) fun _ => ih _ _
    · split
      · exact keeps_pure
      · refine keeps_bind (h.keeps_addDiagnostic rfl) fun _ => ?_
        exact keeps_bind h.keeps_parseSchemaFieldAfterColon fun _ => ih _ _

theorem keeps_parseSchema {fuel : Nat} : Keeps R (parseSchema fuel) := by
  refine keeps_bind h.keeps_parseDirectives fun _ => keeps_bind h.keeps_scanExpected fun brace => ?_
  split
  · exact keeps_bind h.keeps_read fun _ => keeps_bind (h.keeps_parseSchemaFields _ _ _) fun _ =>
      keeps_pure
  · exact keeps_bind h.keeps_skipBlock fun _ => keeps_pure

end KeptByParts

/-! ## Definitions -/

namespace KeptByDefinitions

variable {R : GraphQlSchema → GraphQlSchema → Prop} [IsPreorder GraphQlSchema R]
  (h : KeptByDefinitions R)
include h

theorem keeps_parsePrimaryToken (fuel : Nat) (token : GraphQlToken) :
    Keeps R (parsePrimaryToken fuel token) := by
  unfold parsePrimaryToken
  split
  · exact keeps_bind h.keeps_parseDirectiveDefinition fun _ => keeps_pure
  · exact keeps_bind (h.parseEnum fuel) fun _ => keeps_pure
  · exact keeps_bind (h.parseInterfaceDefinition fuel) fun _ => keeps_pure
  · exact keeps_bind (h.parseInputObject fuel) fun _ => keeps_pure
  · exact keeps_bind h.keeps_parseSchema fun _ => keeps_pure
  · exact keeps_bind (h.parseObject fuel) fun _ => keeps_pure
  · exact keeps_bind (h.parseUnion fuel) fun _ => keeps_pure
  · exact keeps_bind (h.keeps_addDiagnostic rfl) fun _ => keeps_pure

theorem keeps_parseDefinitions (fuel : Nat) (token : GraphQlToken) (schema : Option Schema) :
    Keeps R (parseDefinitions fuel token schema) := by
  have hupdate : ∀ {f : GraphQlSchema → GraphQlSchema}, (∀ s, (f s).scanner = s.scanner) →
      (∀ s, (f s).directives = s.directives ∧ (f s).pool = s.pool ∧
        (f s).members.symbols = s.members.symbols ∧
        (f s).members.duplicateSymbols = s.members.duplicateSymbols ∧
        (f s).members.interfaces = s.members.interfaces ∧
        (f s).members.objectsWithImplementations = s.members.objectsWithImplementations ∧
        (f s).members.forwardTypeReferences = s.members.forwardTypeReferences) →
          Keeps R (ParserM.update f) :=
    fun hscanner hf => h.keeps_update hscanner hf
  induction fuel generalizing token schema with
  | zero => exact keeps_stop
  | succ fuel ih =>
    unfold parseDefinitions
    split
    · exact keeps_pure
    split
    · refine keeps_bind h.keeps_read fun _ => ?_
      refine keeps_bind (hupdate (fun _ => rfl) fun _ => ⟨rfl, rfl, rfl, rfl, rfl, rfl, rfl⟩) fun _ => ?_
      exact keeps_bind h.keeps_takeToken fun _ => ih _ _
    refine keeps_bind (h.keeps_parsePrimaryToken fuel token) fun definition => ?_
    refine keeps_bind (hupdate (fun _ => rfl) fun _ => ⟨rfl, rfl, rfl, rfl, rfl, rfl, rfl⟩) fun _ => ?_
    split
    · refine keeps_bind (h.keeps_modifyMembers fun _ => ⟨rfl, rfl, rfl, rfl, rfl⟩) fun _ => ?_
      exact keeps_bind h.keeps_takeToken fun _ => ih _ _
    · exact keeps_bind h.keeps_skipBlock fun _ => keeps_bind h.keeps_takeToken fun _ => ih _ _

/-- **A relation that the readers of the definitions keep is kept by the parsing loop.** -/
theorem keeps_parseDocument (source : Ustring) : Keeps R (parseDocument source) :=
  keeps_bind h.keeps_takeToken fun _ => h.keeps_parseDefinitions _ _ _

end KeptByDefinitions

/-! ## Relations that do not look at the declarations -/

section Declarations

variable {R : GraphQlSchema → GraphQlSchema → Prop}

/-- The declarations and the symbols may change. -/
def KeptByDeclarations (R : GraphQlSchema → GraphQlSchema → Prop) : Prop :=
  ∀ s s' : GraphQlSchema, s'.scanner = s.scanner → s'.diagnostics = s.diagnostics →
    s'.directives = s.directives → s'.pool.types = s.pool.types →
      s'.members.forwardTypeReferences = s.members.forwardTypeReferences → R s s'

variable (h : KeptByParts R) (hdeclare : KeptByDeclarations R)
  (hreport : KeptByReport R .duplicateType0)

include hdeclare in
theorem keeps_setDeclaration {id : DeclarationId} {d : Declaration} :
    Keeps R (setDeclaration id d : SchemaM Unit) :=
  keeps_step fun s => hdeclare s _ rfl rfl rfl rfl rfl

include hdeclare in
theorem keeps_declareMembers {f : SchemaMembers → SchemaMembers}
    (hf : ∀ m, (f m).forwardTypeReferences = m.forwardTypeReferences) : Keeps R (modifyMembers f) :=
  keeps_step fun s => hdeclare s _ rfl rfl rfl rfl (hf _)

include hdeclare in
theorem keeps_recordType {step : Step} : Keeps R (recordStep step : SchemaM Unit) :=
  keeps_step fun s => hdeclare s _ rfl rfl rfl rfl rfl

variable [IsPreorder GraphQlSchema R]

include hdeclare in
theorem keeps_createDeclaration {d : Declaration} :
    Keeps R (createDeclaration d : SchemaM DeclarationId) :=
  keeps_bind (keeps_bind keeps_get fun _ => keeps_pure) fun _ =>
    keeps_bind (keeps_step fun s => hdeclare s _ rfl rfl rfl rfl rfl) fun _ => keeps_pure

include h hdeclare hreport in
theorem keeps_registerSymbol {name : Name} {id : DeclarationId} {kind : SymbolKind} :
    Keeps R (registerSymbol name id kind) := by
  refine keeps_bind (keeps_recordType hdeclare) fun _ => keeps_bind h.keeps_read fun symbols => ?_
  split
  · exact keeps_declareMembers hdeclare fun _ => rfl
  refine keeps_bind keeps_require fun _ => keeps_bind hreport.keeps_addDiagnosticAt fun _ => ?_
  refine keeps_bind h.keeps_read fun _ => keeps_when ?_
  refine keeps_bind keeps_require fun _ => keeps_bind keeps_require fun _ => ?_
  refine keeps_bind keeps_require fun _ => keeps_bind hreport.keeps_addDiagnosticAt fun _ => ?_
  exact keeps_declareMembers hdeclare fun _ => rfl

include h hdeclare hreport in
theorem keeps_parseDefinitionName {id : DeclarationId} {kind : SymbolKind}
    {treatKeywordAsName : Bool} :
    Keeps R (parseDefinitionName id kind treatKeywordAsName) := by
  refine keeps_bind (h.keeps_scanExpectedOr rfl) fun found => ?_
  split
  · exact keeps_bind h.keeps_read fun _ => keeps_bind h.keeps_createName fun _ =>
      keeps_bind (keeps_registerSymbol h hdeclare hreport) fun _ => keeps_pure
  · exact keeps_pure

include h hdeclare hreport in
/-- A relation that looks neither at the declarations nor at the reports of duplicate types is kept
by the readers of the definitions. -/
theorem KeptByDefinitions.of_declarations : KeptByDefinitions R where
  toKeptByParts := h
  parseEnum fuel := by
    refine keeps_bind h.keeps_scanExpected fun found => ?_
    split
    · refine keeps_bind h.keeps_read fun span => keeps_bind h.keeps_read fun value => ?_
      refine keeps_bind h.keeps_createName fun name => ?_
      refine keeps_bind (keeps_createDeclaration hdeclare) fun id => ?_
      refine keeps_bind (keeps_registerSymbol h hdeclare hreport) fun _ => ?_
      refine keeps_bind h.keeps_parseDirectives fun directives => ?_
      refine keeps_bind (keeps_setDeclaration hdeclare) fun _ => ?_
      refine keeps_bind h.keeps_scanExpected fun brace => ?_
      split
      · exact keeps_bind (h.keeps_parseEnumValues _ _) fun _ =>
          keeps_bind (keeps_setDeclaration hdeclare) fun _ => keeps_pure
      · exact keeps_pure
    · exact keeps_pure
  parseInterfaceDefinition fuel := by
    refine keeps_bind h.keeps_read fun span => keeps_bind (keeps_createDeclaration hdeclare) fun id => ?_
    refine keeps_bind (keeps_parseDefinitionName h hdeclare hreport) fun name? => ?_
    refine keeps_bind h.keeps_read fun description => ?_
    split
    · exact keeps_pure
    refine keeps_bind (keeps_setDeclaration hdeclare) fun _ => ?_
    refine keeps_bind h.keeps_parseDirectives fun _ => keeps_bind h.keeps_parseFieldsDefinition fun _ => ?_
    exact keeps_bind (keeps_setDeclaration hdeclare) fun _ =>
      keeps_bind (keeps_declareMembers hdeclare fun _ => rfl) fun _ => keeps_pure
  parseInputObject fuel := by
    refine keeps_bind h.keeps_read fun span => keeps_bind (keeps_createDeclaration hdeclare) fun id => ?_
    refine keeps_bind (keeps_parseDefinitionName h hdeclare hreport) fun name? => ?_
    refine keeps_bind h.keeps_read fun description => ?_
    split
    · exact keeps_pure
    refine keeps_bind (keeps_setDeclaration hdeclare) fun _ => ?_
    refine keeps_bind h.keeps_parseDirectives fun _ => ?_
    exact keeps_bind h.keeps_parseInputFieldsDefinition fun _ =>
      keeps_bind (keeps_setDeclaration hdeclare) fun _ => keeps_pure
  parseObject fuel := by
    refine keeps_bind h.keeps_read fun span => keeps_bind (keeps_createDeclaration hdeclare) fun id => ?_
    refine keeps_bind (keeps_parseDefinitionName h hdeclare hreport) fun name? => ?_
    refine keeps_bind h.keeps_read fun description => ?_
    split
    · exact keeps_pure
    refine keeps_bind (keeps_setDeclaration hdeclare) fun _ => ?_
    refine keeps_bind h.keeps_parseDirectives fun _ => ?_
    refine keeps_bind (keeps_setDeclaration hdeclare) fun _ => ?_
    refine keeps_bind h.keeps_scanOptional fun implements => ?_
    split
    · refine keeps_bind (h.keeps_parseImplementations _ _) fun implementations? => ?_
      split
      · exact keeps_pure
      refine keeps_bind (keeps_setDeclaration hdeclare) fun _ => ?_
      refine keeps_bind (h.keeps_parseFieldsDefinitionAfterOpenBrace _ _ _) fun _ => ?_
      exact keeps_bind (keeps_setDeclaration hdeclare) fun _ =>
        keeps_bind (keeps_declareMembers hdeclare fun _ => rfl) fun _ => keeps_pure
    · exact keeps_bind h.keeps_parseFieldsDefinition fun _ =>
        keeps_bind (keeps_setDeclaration hdeclare) fun _ => keeps_pure
  parseUnion fuel := by
    refine keeps_bind h.keeps_read fun span => keeps_bind h.keeps_scanExpected fun found => ?_
    split
    · refine keeps_bind h.keeps_read fun value => keeps_bind h.keeps_createName fun name => ?_
      refine keeps_bind h.keeps_parseDirectives fun directives => ?_
      refine keeps_bind h.keeps_scanExpected fun equal => ?_
      split
      · refine keeps_bind h.keeps_scanOptional fun _ => keeps_bind h.keeps_scanExpected fun first => ?_
        split
        · refine keeps_bind h.keeps_read fun _ => keeps_bind h.keeps_createName fun _ => ?_
          refine keeps_bind (h.keeps_parseUnionMembers _ _) fun members? => ?_
          split
          · exact keeps_pure
          · exact keeps_bind (keeps_createDeclaration hdeclare) fun _ =>
              keeps_bind (keeps_recordType hdeclare) fun _ =>
                keeps_bind (keeps_declareMembers hdeclare fun _ => rfl) fun _ => keeps_pure
        · exact h.keeps_giveUp
      · exact h.keeps_giveUp
    · exact h.keeps_giveUp

end Declarations

/-! ## The passes after parsing -/

namespace KeptByChecks

variable {R : GraphQlSchema → GraphQlSchema → Prop} [IsPreorder GraphQlSchema R]
  (h : KeptByChecks R)
include h

omit [IsPreorder GraphQlSchema R] in
theorem keeps_setRoot {f : SchemaMembers → SchemaMembers}
    (hf : ∀ m, ∃ query mutation subscription, f m = { m with query, mutation, subscription }) :
    Keeps R (modifyMembers f) := by
  refine keeps_step fun s => h.change s { s with members := f s.members } rfl ?_
  obtain ⟨query, mutation, subscription, hs⟩ := hf s.members
  rw [hs]
  exact ⟨⟨rfl, rfl, rfl, rfl, rfl, rfl, rfl, rfl, rfl, rfl⟩, rfl⟩

theorem keeps_setRootType {given : Option Name} {default : Ustring}
    {set : SchemaMembers → Option DeclarationId → SchemaMembers} {whenMissing : SchemaM Unit}
    (hset : ∀ m id, ∃ query mutation subscription,
      set m id = { m with query, mutation, subscription })
    (hmissing : Keeps R whenMissing) : Keeps R (setRootType given default set whenMissing) := by
  refine keeps_bind h.keeps_read fun symbols => ?_
  split
  · split
    · exact h.keeps_setRoot fun _ => hset _ _
    · exact h.keeps_addDiagnostic rfl
  · split
    · exact h.keeps_setRoot fun _ => hset _ _
    · exact hmissing

theorem keeps_setRootTypes {schema : Schema} : Keeps R (setRootTypes schema) :=
  keeps_bind (h.keeps_setRootType (fun _ _ => ⟨_, _, _, rfl⟩) (h.keeps_addDiagnosticAt rfl)) fun _ =>
    keeps_bind (h.keeps_setRootType (fun _ _ => ⟨_, _, _, rfl⟩)
      (h.keeps_setRoot fun _ => ⟨_, _, _, rfl⟩)) fun _ =>
      h.keeps_setRootType (fun _ _ => ⟨_, _, _, rfl⟩) (h.keeps_setRoot fun _ => ⟨_, _, _, rfl⟩)

omit h in
theorem keeps_checkRecursiveDirectives
    (hrecursion : KeptByReport R .cannotAnnotateWithATypeThatRecursivelyReferencesTheDirective0)
    (parent : Ustring) (location : Span) (fuel : Nat) (type : TypeNode) :
    Keeps R (checkRecursiveDirectives parent location fuel type) := by
  have hreport : ∀ {directives}, Keeps R (reportRecursion parent location directives) := fun {_} =>
    keeps_when hrecursion.keeps_reportAt
  induction fuel generalizing type with
  | zero => exact keeps_stop
  | succ fuel ih =>
    refine keeps_bind keeps_require fun _ => keeps_bind keeps_require fun symbol => ?_
    refine keeps_bind keeps_require fun d => ?_
    split
    · refine keeps_bind hreport fun _ => keeps_bind keeps_require fun fields => ?_
      refine keeps_forM fun _ _ => keeps_bind hreport fun _ => keeps_bind keeps_require fun _ => ?_
      exact keeps_when (ih _)
    · exact keeps_bind hreport fun _ => keeps_forM fun _ _ => hreport
    · exact keeps_require

theorem keeps_checkForwardReferences
    (hretag : ∀ id, Keeps R (modifyType id fun t => { t with type := .enum } : SchemaM Unit))
    (hrecursion : KeptByReport R .cannotAnnotateWithATypeThatRecursivelyReferencesTheDirective0) :
    Keeps R checkForwardReferences := by
  have hdirective : ∀ {type}, Keeps R (checkTypeOfDirective type) := by
    intro type
    unfold checkTypeOfDirective
    split
    · exact keeps_pure
    · exact keeps_bind h.keeps_read fun _ => keeps_checkRecursiveDirectives hrecursion _ _ _ _
  refine keeps_bind h.keeps_read fun references => keeps_forM fun id _ => ?_
  refine keeps_bind keeps_require fun type => keeps_bind keeps_require fun name => ?_
  refine keeps_bind h.keeps_read fun symbols => ?_
  split
  · exact h.keeps_reportAt rfl
  split
  · exact keeps_bind (hretag _) fun _ => hdirective
  · refine keeps_bind (keeps_when ?_) fun _ => keeps_when (h.keeps_reportAt rfl)
    exact keeps_bind (keeps_when (h.keeps_reportAt rfl)) fun _ => hdirective

theorem keeps_reportNotAssignable {value : Value} {type : TypeNode} :
    Keeps R (reportNotAssignable value type) :=
  keeps_bind keeps_require fun _ => keeps_bind keeps_require fun _ =>
    keeps_bind h.keeps_getTypeName fun _ => h.keeps_addDiagnosticAt rfl

theorem keeps_reportDuplicateField {span first : Span} {name : Ustring} :
    Keeps R (reportDuplicateField span first name) := by
  refine keeps_bind keeps_require fun _ => keeps_bind (h.keeps_addDiagnosticAt rfl) fun _ => ?_
  exact keeps_bind h.keeps_hasDiagnosticInSyntax fun _ => keeps_when (h.keeps_reportAt rfl)

theorem keeps_checkObject {type : TypeNode} {span : Span} {objectFields : List ObjectField}
    (hfields : ∀ fields inputName,
      Keeps R (checkObjectFields fields inputName span objectFields ∅)) :
    Keeps R (do
      when (type.type ≠ .object ∨ type.isListType) do
        reportNotAssignable (.object span objectFields) type
      let name ← follow type.name
      let symbols ← ParserM.read fun s => s.members.symbols
      match symbols.find? name.identifier with
      | none => addDiagnostic .type0IsNotDefined [name.identifier]
      | some symbol =>
        if symbol.kind ≠ .inputObject then return
        else
          match ← declaration symbol.declaration with
          | .inputObject inputObject =>
            let fields ← follow inputObject.fields
            let inputName ← follow inputObject.name
            let checked ← checkObjectFields fields inputName.identifier span objectFields ∅
            when (checked.size < fields.size) (reportMissingFields span checked fields)
          | _ => deref fun _ => none : SchemaM Unit) := by
  refine keeps_bind (keeps_when h.keeps_reportNotAssignable) fun _ => ?_
  refine keeps_bind keeps_require fun name => keeps_bind h.keeps_read fun symbols => ?_
  split
  · exact h.keeps_addDiagnostic rfl
  split
  · exact keeps_pure
  refine keeps_bind keeps_require fun d => ?_
  split
  · refine keeps_bind keeps_require fun fields => keeps_bind keeps_require fun inputName => ?_
    refine keeps_bind (hfields _ _) fun checked => keeps_when (keeps_forM fun _ _ => ?_)
    exact keeps_bind keeps_require fun _ => keeps_when (h.keeps_reportAt rfl)
  · exact keeps_require

set_option linter.unusedSectionVars false in
mutual

theorem keeps_checkValue : ∀ (value : Value) (id : TypeId), Keeps R (checkValue value id)
  | .null _, _ => by
    unfold checkValue
    exact keeps_bind keeps_require fun _ => keeps_when (keeps_bind keeps_require
      fun _ => keeps_bind h.keeps_getTypeName fun _ => h.keeps_addDiagnosticAt rfl)
  | .list _ _ values, id => by
    unfold checkValue
    refine keeps_bind keeps_require fun _ => ?_
    split
    · exact h.keeps_reportNotAssignable
    · exact keeps_bind (h.setFlags _ _ ⟨fun _ => rfl, fun _ => rfl, fun _ => rfl⟩) fun _ =>
        keeps_bind (keeps_checkValues values id) fun _ =>
          h.setFlags _ _ ⟨fun _ => rfl, fun _ => rfl, fun _ => rfl⟩
  | .string _ _, _ => by
    unfold checkValue
    exact keeps_bind keeps_require fun _ => keeps_when h.keeps_reportNotAssignable
  | .int _ _, _ => by
    unfold checkValue
    exact keeps_bind keeps_require fun _ => keeps_when h.keeps_reportNotAssignable
  | .float _ _, _ => by
    unfold checkValue
    exact keeps_bind keeps_require fun _ => keeps_when h.keeps_reportNotAssignable
  | .boolean _ _, _ => by
    unfold checkValue
    exact keeps_bind keeps_require fun _ => keeps_when h.keeps_reportNotAssignable
  | .enum _ _, _ => by
    unfold checkValue
    exact keeps_bind keeps_require fun _ => keeps_when h.keeps_reportNotAssignable
  | .object span objectFields, id => by
    unfold checkValue
    refine keeps_bind keeps_require fun type => h.keeps_checkObject fun fields inputName => ?_
    exact keeps_checkObjectFields fields inputName span objectFields ∅

theorem keeps_checkValues : ∀ (values : List Value) (id : TypeId), Keeps R (checkValues values id)
  | [], _ => by
    unfold checkValues
    exact keeps_pure
  | value :: values, id => by
    unfold checkValues
    exact keeps_bind (keeps_checkValue value id) fun _ => keeps_checkValues values id

theorem keeps_checkObjectFields (fields : UstringMap InputFieldDefinition) (inputName : Ustring)
    (span : Span) : ∀ (objectFields : List ObjectField) (checked : UstringMap ObjectField),
      Keeps R (checkObjectFields fields inputName span objectFields checked)
  | [], _ => by
    unfold checkObjectFields
    exact keeps_pure
  | .mk fieldSpan name value :: rest, checked => by
    unfold checkObjectFields
    split
    · exact keeps_bind keeps_require fun _ => keeps_bind (h.keeps_addDiagnosticAt rfl) fun _ =>
        keeps_checkObjectFields fields inputName span rest _
    split
    · exact keeps_bind h.keeps_reportDuplicateField fun _ =>
        keeps_checkObjectFields fields inputName span rest _
    match value with
    | none => exact keeps_require
    | some v =>
      exact keeps_bind (keeps_checkValue v _) fun _ =>
        keeps_checkObjectFields fields inputName span rest _

end

theorem keeps_checkDirectiveArguments (directive : Directive)
    (definitions : List (Ustring × InputValueDefinition)) (checked : UstringSet) :
    Keeps R (checkDirectiveArguments directive definitions checked) := by
  induction definitions generalizing checked with
  | nil => exact keeps_pure
  | cons definition rest ih =>
    obtain ⟨k, definition⟩ := definition
    simp only [checkDirectiveArguments]
    split
    · refine keeps_bind ?_ fun _ => ih _
      exact keeps_bind keeps_require fun _ => keeps_bind keeps_require fun _ =>
        keeps_when (h.keeps_reportAt rfl)
    · exact keeps_bind keeps_require fun _ => keeps_bind keeps_require fun _ =>
        keeps_bind (h.keeps_checkValue _ _) fun _ => ih _

theorem keeps_checkSelfReference {directive : Directive} :
    Keeps R (checkSelfReference directive) := keeps_when (h.keeps_reportAt rfl)

theorem keeps_checkLocation {directive : Directive} {definition : DirectiveDefinition} :
    Keeps R (checkLocation directive definition) :=
  keeps_when (keeps_bind keeps_require fun _ => keeps_bind keeps_require fun _ =>
    h.keeps_addDiagnosticAt rfl)

theorem keeps_checkDirectiveReference (hunknown : KeptByReport R .unknownArgument0)
    (directive : Directive) : Keeps R (checkDirectiveReference directive) := by
  refine keeps_bind h.keeps_read fun definitions => ?_
  split
  · exact h.keeps_reportAt rfl
  refine keeps_bind h.keeps_checkSelfReference fun _ => keeps_bind h.keeps_checkLocation fun _ => ?_
  refine keeps_bind (h.keeps_checkDirectiveArguments _ _ _) fun checked => keeps_when ?_
  exact keeps_forM fun _ _ => keeps_when hunknown.keeps_addDiagnostic

theorem keeps_checkDirectiveReferences (hunknown : KeptByReport R .unknownArgument0) :
    Keeps R checkDirectiveReferences :=
  keeps_bind h.keeps_read fun _ => keeps_forM fun directive _ =>
    h.keeps_checkDirectiveReference hunknown directive

theorem keeps_checkInterfaceFields (objectName : Name) (fields : UstringMap FieldDefinition)
    (implementation : Ustring) (interfaceName : Option Name)
    (interfaceFields : List (Ustring × FieldDefinition))
    (hmissing : KeptByReport R .theField0InInterface1IsNotImplemented)
    (hmatch : KeptByReport R .type0DoesNotMatchType1FromTheInterface2) :
    Keeps R (checkInterfaceFields objectName fields implementation interfaceName
      interfaceFields) := by
  have hmismatch : ∀ {objectType interfaceType : TypeNode}, Keeps R (do
      let name ← follow interfaceName
      reportTypeMismatch objectType interfaceType name.identifier) := fun {_ _} =>
    keeps_bind keeps_require fun _ => keeps_bind keeps_require fun _ =>
      keeps_bind h.keeps_getTypeName fun _ => keeps_bind h.keeps_getTypeName fun _ =>
        hmatch.keeps_addDiagnosticAt
  induction interfaceFields with
  | nil => exact keeps_pure
  | cons interfaceField rest ih =>
    obtain ⟨k, interfaceField⟩ := interfaceField
    unfold checkInterfaceFields
    split
    · exact keeps_bind keeps_require fun _ => keeps_bind hmissing.keeps_addDiagnosticAt fun _ => ih
    refine keeps_bind keeps_require fun _ => keeps_bind keeps_require fun _ => ?_
    split
    · exact hmismatch
    split
    · refine keeps_bind keeps_require fun _ => keeps_bind keeps_require fun _ => ?_
      split
      · exact hmismatch
      · exact ih
    · exact ih

theorem keeps_checkObjectImplementations
    (hmissing : KeptByReport R .theField0InInterface1IsNotImplemented)
    (hmatch : KeptByReport R .type0DoesNotMatchType1FromTheInterface2)
    (hinterface : KeptByReport R .interface0IsNotDefined) : Keeps R checkObjectImplementations := by
  refine keeps_bind h.keeps_read fun objects => keeps_forM fun id _ => ?_
  refine keeps_bind keeps_require fun d => ?_
  split
  · refine keeps_bind keeps_require fun implementations => keeps_forM fun implementation _ => ?_
    refine keeps_bind h.keeps_read fun interfaces => ?_
    split
    · exact hinterface.keeps_reportAt
    split
    · exact keeps_pure
    refine keeps_bind keeps_require fun d => ?_
    split
    · exact keeps_bind keeps_require fun _ => keeps_bind keeps_require fun _ =>
        h.keeps_checkInterfaceFields _ _ _ _ _ hmissing hmatch
    · exact keeps_require
  · exact keeps_require

theorem keeps_checkUnionMembers : Keeps R checkUnionMembers := by
  refine keeps_bind h.keeps_read fun unions => keeps_forM fun id _ => ?_
  refine keeps_bind keeps_require fun d => ?_
  split
  · refine keeps_forM fun member _ => keeps_bind h.keeps_read fun symbols => ?_
    split
    · exact h.keeps_reportAt rfl
    · exact keeps_when (h.keeps_reportAt rfl)
  · exact keeps_require

end KeptByChecks

end GraphQlSchema

end Flashpoint
