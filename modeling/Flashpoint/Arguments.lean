import Flashpoint.Executor.Operations
import Flashpoint.Library.Occurrences
import Flashpoint.Schema.Operations

/-!
# Arguments that are given again

Both parsers enter the arguments of a list into a map. The one for queries keeps the first of a name
and reports nothing; the one for schemas reports an argument that is given again, and the first of its
name unless a report is found at its place. The lists are those of all the arguments read, which
`readArguments` and `readTurns` collect on the way.
-/

namespace Flashpoint

open Library Climb

/-- The names of the directives that are recorded to stand again. -/
def repeatedDirectives (steps : List Step) : List Ustring :=
  steps.filterMap fun
    | .repeatDirective name => some name
    | _ => none

/-- The name of an argument with its place. -/
def Name.placed (name : Name) : Ustring × Span := (name.identifier, name.span)

/-- From one state to the other, a duplicate argument was reported for the directives that stand again
on the way, and for those of the given names that occur at least twice, one for each, at the names. -/
def ReportsArguments {M : Type} (names : List Name) (s s' : GraphQlParser M) : Prop :=
  ∃ steps ofDirectives ofArguments, s'.steps = s.steps ++ steps ∧
    (reportsOf .duplicateArgument0 s'.diagnostics).Perm
      (reportsOf .duplicateArgument0 s.diagnostics ++ ofDirectives ++ ofArguments) ∧
    ofDirectives.map (·.arguments) = (repeatedDirectives steps).map ([·]) ∧
    List.Forall₂ (IsReportOf .duplicateArgument0 s') ofArguments
      ((repeated Name.identifier names).map Name.placed)

namespace GraphQlExecutor

open ParserM

/-! ## The arguments of a query -/

/-- The arguments that `parse_arguments` reads, also those it does not keep, and whether it reads to
the end of the list. -/
def readArguments : Nat → UstringMap InputValueDefinition → ExecutorM (List Argument × Bool)
  | 0, _ => outOfFuel
  | fuel + 1, definitions => do
    let token ← takeNextToken true true
    if token ≠ .gName then
      recordStep (.argumentsEnd token)
      return ([], true)
    else
      match ← parseArgument fuel definitions (parseDirectives fuel .argumentDefinition ∅) with
      | none => return ([], false)
      | some argument =>
        let rest ← readArguments fuel definitions
        return (argument :: rest.1, rest.2)

/-- The arguments read, entered into a map. -/
def enterArguments (arguments : UstringMap Argument) (read : List Argument × Bool) :
    Option (UstringMap Argument) :=
  if read.2 then
    some (read.1.foldl (fun m argument => m.emplace argument.name.identifier argument) arguments)
  else none

/-- The loop enters what is read. -/
theorem parseArgumentsLoop_eq (fuel : Nat) (definitions : UstringMap InputValueDefinition)
    (arguments : UstringMap Argument) :
    parseArgumentsLoop fuel definitions arguments =
      readArguments fuel definitions >>= fun read => pure (enterArguments arguments read) := by
  induction fuel generalizing arguments with
  | zero => rfl
  | succ fuel ih =>
    unfold parseArgumentsLoop readArguments
    rw [bind_assoc]
    refine congrArg _ (funext fun token => ?_)
    split
    · rw [bind_assoc]
      rfl
    rw [bind_assoc]
    refine congrArg _ (funext fun argument? => ?_)
    cases argument? with
    | none => rfl
    | some argument =>
      simp only [ih, bind_assoc, pure_bind]
      rfl

/-- The names of the arguments that a call in the state reads. -/
def argumentNames (fuel : Nat) (definitions : UstringMap InputValueDefinition)
    (s : GraphQlExecutor) : List Name :=
  ((readArguments fuel definitions).run s).value?.elim [] fun read => read.1.map Argument.name

/-- What is reported is reported of directives. -/
def AddsDirectives (s s' : GraphQlExecutor) : Prop :=
  ∃ steps new, s'.steps = s.steps ++ steps ∧
    reportsOf .duplicateArgument0 s'.diagnostics =
      reportsOf .duplicateArgument0 s.diagnostics ++ new ∧
    new.map (·.arguments) = (repeatedDirectives steps).map ([·])

instance : IsPreorder GraphQlExecutor AddsDirectives where
  refl _ := ⟨[], [], (List.append_nil _).symm, (List.append_nil _).symm, rfl⟩
  trans _ _ _ h h' := by
    obtain ⟨steps, new, hsteps, hnew, hdirectives⟩ := h
    obtain ⟨steps', new', hsteps', hnew', hdirectives'⟩ := h'
    refine ⟨steps ++ steps', new ++ new', ?_, ?_, ?_⟩
    · rw [hsteps', hsteps, List.append_assoc]
    · rw [hnew', hnew, List.append_assoc]
    · rw [List.map_append, hdirectives, hdirectives', ← List.map_append]
      exact congrArg _ List.filterMap_append.symm

theorem addsDirectives_of_eq {s s' : GraphQlExecutor} (hsteps : s'.steps = s.steps)
    (hdiagnostics : s'.diagnostics = s.diagnostics) : AddsDirectives s s' :=
  ⟨[], [], by rw [hsteps, List.append_nil], by rw [hdiagnostics, List.append_nil], rfl⟩

theorem addsDirectives_report {s : GraphQlExecutor} {d : DiagnosticMessage}
    (hd : d.template ≠ .duplicateArgument0) :
    AddsDirectives s { s with diagnostics := s.diagnostics ++ [d] } :=
  ⟨[], [], (List.append_nil _).symm, by rw [reportsOf_append, reportsOf_other hd], rfl⟩

theorem addsDirectives_record {s : GraphQlExecutor} {step : Step}
    (hstep : repeatedDirectives [step] = []) :
    AddsDirectives s { s with steps := s.steps ++ [step] } :=
  ⟨[step], [], rfl, (List.append_nil _).symm, by rw [hstep]; rfl⟩

theorem keptByValues_addsDirectives : KeptByValues AddsDirectives fun _ _ => True where
  scan _ _ _ := addsDirectives_of_eq rfl rfl
  update _ _ _ hdiagnostics hsteps _ := addsDirectives_of_eq hsteps hdiagnostics
  report _ d hd := addsDirectives_report fun heq => by simp [heq, D.isPlain] at hd
  record _ step hstep := addsDirectives_record (by cases step <;> first | rfl | cases hstep)
  addDuplicateField _ := keepsOr_bind (keepsOr_step fun _ => addsDirectives_of_eq rfl rfl) fun _ =>
    keepsOr_step fun _ => addsDirectives_record rfl
  reportDuplicateFields fields s _ := keepsOr_reportDuplicateFields
    (keepsOr_step fun _ => addsDirectives_record rfl)
    (fun _ _ => keepsOr_step fun _ => addsDirectives_report nofun) s

/-- A directive that stands again is recorded and reported. -/
theorem addsDirectives_addDirective (directive : Directive) (directives : UstringMap Directive) :
    Keeps AddsDirectives (addDirective directive directives) := by
  refine keeps_bind (keeps_step fun _ => addsDirectives_of_eq rfl rfl) fun _ => ?_
  split
  · exact keeps_pure
  · intro s a s' hrun
    obtain ⟨-, rfl⟩ := Outcome.ok.inj hrun
    refine ⟨[.repeatDirective directive.name.identifier], _, rfl, reportsOf_append _ _ _, ?_⟩
    rw [reportsOf_self]
    rfl

theorem keptByParts_addsDirectives : KeptByParts AddsDirectives fun _ _ => True where
  toKeptByValues := keptByValues_addsDirectives
  recordArguments _ _ _ := keepsOr_step fun _ => addsDirectives_record rfl
  reportMissingArguments _ _ _ := keptByValues_addsDirectives.keeps_reportMissingArguments
    fun _ _ => keepsOr_step fun _ => addsDirectives_report nofun
  addDirective directive directives := (addsDirectives_addDirective directive directives).keepsOr
  reportDuplicateFragment name fragment s _ _ :=
    keptByValues_addsDirectives.keeps_reportDuplicateFragment
      (fun _ _ => keepsOr_step fun _ => addsDirectives_record rfl)
      (fun _ _ => keepsOr_step fun _ => addsDirectives_report nofun)
      (fun _ _ _ => keepsOr_step fun _ => addsDirectives_of_eq rfl rfl) name fragment s

/-- Since nothing is reported of the arguments, it is right where none is given again. -/
theorem reportsArguments_iff_of_adds {names : List Name} {s s' : GraphQlExecutor}
    (h : AddsDirectives s s') :
    ReportsArguments names s s' ↔ (names.map Name.identifier).Nodup := by
  obtain ⟨steps, new, hsteps, hnew, hdirectives⟩ := h
  rw [← repeated_eq_nil_iff]
  constructor
  · rintro ⟨steps', ofDirectives, ofArguments, hsteps', hperm, hdirectives', harguments⟩
    obtain rfl := List.append_cancel_left (hsteps.symm.trans hsteps')
    have hlength := congrArg List.length (hdirectives.trans hdirectives'.symm)
    have htotal := hperm.length_eq
    have hnames := harguments.length_eq
    rw [hnew] at htotal
    simp only [List.length_map, List.length_append] at hlength htotal hnames
    exact List.length_eq_zero_iff.1 (by omega)
  · intro hnil
    refine ⟨steps, new, [], hsteps, ?_, hdirectives, ?_⟩
    · rw [hnew, List.append_nil]
    · rw [hnil]
      exact .nil

end GraphQlExecutor

namespace GraphQlSchema

open ParserM

/-! ## The arguments of a directive in a schema -/

/-- A turn of the loop: the argument that was read and, when its name was read before, whether the
search found a report at the first one. -/
structure Turn where
  argument : Argument
  isReported : Bool

namespace Turn

/-- The name of the argument. -/
def name (t : Turn) : Name := t.argument.name

def key (t : Turn) : Ustring := t.name.identifier

end Turn

/-- The turns of `parse_arguments_after_open_paren`. -/
def readTurns : Nat → UstringMap Argument → SchemaM (List Turn)
  | 0, _ => outOfFuel
  | fuel + 1, arguments => do
    let token ← takeNextToken true true
    if token = .closeParen then return []
    else
      let tokenValue ← getTokenValue
      let name ← createName tokenValue
      let span ← createSpan
      if ← scanExpected .colon false then
        let value ← parseValue fuel
        match arguments.find? tokenValue with
        | none =>
          let turns ← readTurns fuel (arguments.emplace tokenValue (.mk span name value []))
          return ⟨.mk span name value [], false⟩ :: turns
        | some first =>
          let isReported ← hasDiagnosticInSyntax first.name.span .duplicateArgument0
          reportDuplicateArgument first.name name
          let turns ← readTurns fuel arguments
          return ⟨.mk span name value [], isReported⟩ :: turns
      else
        let _ ← skipTo [.closeBrace]
        return []

/-- The turns of a call in the state. -/
def turnsOf (fuel : Nat) (s : GraphQlSchema) : List Turn :=
  ((readTurns fuel ∅).run s).value?.getD []

theorem run_hasDiagnosticInSyntax {span : Span} {template : D} {reported : Bool}
    {s s' : GraphQlSchema} (h : (hasDiagnosticInSyntax span template).run s = .ok reported s') :
    s' = s := by
  obtain ⟨_, _, hget, hread⟩ := run_bind_eq_ok.1 h
  obtain ⟨-, rfl⟩ := run_require_eq_ok.1 hget
  exact (Outcome.ok.inj hread).2.symm

/-- The loop enters what its turns read. -/
theorem turns_of_parseArgumentsAfterOpenParen {fuel : Nat} {arguments result : UstringMap Argument}
    {s s' : GraphQlSchema}
    (hrun : (parseArgumentsAfterOpenParen fuel arguments).run s = .ok result s') :
    ∃ turns, (readTurns fuel arguments).run s = .ok turns s' := by
  induction fuel generalizing arguments s with
  | zero => cases hrun
  | succ fuel ih =>
    unfold parseArgumentsAfterOpenParen at hrun
    obtain ⟨token, s₁, htoken, hrun₁⟩ := run_bind_eq_ok.1 hrun
    unfold readTurns
    rw [run_bind_ok htoken]
    split at hrun₁
    · next hclose =>
      rw [if_pos hclose]
      obtain ⟨-, rfl⟩ := Outcome.ok.inj hrun₁
      exact ⟨[], rfl⟩
    next hopen =>
    rw [if_neg hopen]
    obtain ⟨value, s₂, hvalue, hrun₂⟩ := run_bind_eq_ok.1 hrun₁
    obtain ⟨name, s₃, hname, hrun₃⟩ := run_bind_eq_ok.1 hrun₂
    obtain ⟨span, s₄, hspan, hrun₄⟩ := run_bind_eq_ok.1 hrun₃
    obtain ⟨colon, s₅, hcolon, hrun₅⟩ := run_bind_eq_ok.1 hrun₄
    rw [run_bind_ok hvalue, run_bind_ok hname, run_bind_ok hspan, run_bind_ok hcolon]
    split at hrun₅
    · next htrue =>
      rw [if_pos htrue]
      obtain ⟨argumentValue, s₆, hargument, hrun₆⟩ := run_bind_eq_ok.1 hrun₅
      rw [run_bind_ok hargument]
      revert hrun₆
      cases hfind : arguments.find? value with
      | none =>
        intro hrun₆
        obtain ⟨turns, hturns⟩ := ih hrun₆
        exact ⟨_, run_bind_ok hturns⟩
      | some first =>
        intro hrun₆
        obtain ⟨_, s₇, hreport, hrun₇⟩ := run_bind_eq_ok.1 hrun₆
        obtain ⟨isReported, _, hsearch, -⟩ := run_bind_eq_ok.1 hreport
        obtain rfl := run_hasDiagnosticInSyntax hsearch
        obtain ⟨turns, hturns⟩ := ih hrun₇
        exact ⟨_, (run_bind_ok hsearch).trans ((run_bind_ok hreport).trans (run_bind_ok hturns))⟩
    · next hfalse =>
      rw [if_neg hfalse]
      obtain ⟨t, s₆, hskip, hpure⟩ := run_bind_eq_ok.1 hrun₅
      obtain ⟨-, rfl⟩ := Outcome.ok.inj hpure
      exact ⟨_, run_bind_ok hskip⟩

/-- Nothing was reported of arguments, and nothing recorded. -/
structure KeepsArguments (s s' : GraphQlSchema) : Prop where
  scanner : s.scanner.Advances s'.scanner
  reports : reportsOf .duplicateArgument0 s'.diagnostics = reportsOf .duplicateArgument0 s.diagnostics
  steps : s'.steps = s.steps

instance : IsPreorder GraphQlSchema KeepsArguments where
  refl _ := ⟨.rfl, rfl, rfl⟩
  trans _ _ _ h h' :=
    ⟨h.scanner.trans h'.scanner, h'.reports.trans h.reports, h'.steps.trans h.steps⟩

theorem keptByTokens_arguments : KeptByTokens KeepsArguments where
  change _ _ hscanner h := ⟨hscanner ▸ .rfl, by rw [h.diagnostics], h.steps⟩
  setFlags _ _ _ := keeps_step fun _ => ⟨.rfl, rfl, rfl⟩
  report template htemplate s d hd := by
    refine ⟨.rfl, ?_, rfl⟩
    have hother : d.template ≠ .duplicateArgument0 := by
      intro heq
      rw [← hd, heq] at htemplate
      cases htemplate
    rw [reportsOf_append, reportsOf_other hother, List.append_nil]
  scan _ _ hadvances _ := ⟨hadvances, rfl, rfl⟩
  update _ _ hscanner h := ⟨hscanner ▸ .rfl, by rw [h.diagnostics], h.steps⟩

/-- What is told of a turn after those before it: the argument, when its name was read before, and the
first one, unless a report was found there. -/
def tellTurn : List Turn → Turn → List Turn :=
  tellIf Turn.key (fun _ _ => true) fun _ t => !t.isReported

theorem tellTurn_none {before : List Turn} {t : Turn}
    (h : (before.find? fun t' => t'.key = t.key) = none) : tellTurn before t = [] := by
  rw [tellTurn, tellIf, h]

theorem tellTurn_some {before : List Turn} {t first : Turn}
    (h : (before.find? fun t' => t'.key = t.key) = some first) :
    tellTurn before t = [t] ++ if t.isReported = false then [first] else [] := by
  rw [tellTurn, tellIf, h]
  cases t.isReported <;> rfl

/-- The reports that were made are those of the turns. -/
def TellsTurns (turns : List Turn) (s s' : GraphQlSchema) : Prop :=
  s.scanner.Advances s'.scanner ∧ s'.steps = s.steps ∧
    ∃ new, (reportsOf .duplicateArgument0 s'.diagnostics).Perm
        (reportsOf .duplicateArgument0 s.diagnostics ++ new) ∧
      List.Forall₂ (IsReportOf .duplicateArgument0 s') new
        (turns.map fun t => t.name.placed)

theorem KeepsArguments.tells {s s' : GraphQlSchema} (h : KeepsArguments s s') :
    TellsTurns [] s s' :=
  ⟨h.scanner, h.steps, [], by rw [h.reports, List.append_nil], .nil⟩

theorem TellsTurns.trans {turns turns' : List Turn} {s s' s'' : GraphQlSchema}
    (h : TellsTurns turns s s') (h' : TellsTurns turns' s' s'') :
    TellsTurns (turns ++ turns') s s'' := by
  obtain ⟨hscanner, hsteps, new, hperm, hnew⟩ := h
  obtain ⟨hscanner', hsteps', new', hperm', hnew'⟩ := h'
  refine ⟨hscanner.trans hscanner', hsteps'.trans hsteps, new ++ new', ?_, ?_⟩
  · rw [← List.append_assoc]
    exact hperm'.trans (hperm.append_right new')
  · rw [List.map_append]
    exact List.rel_append (hnew.imp fun _ _ hreport => hreport.later hscanner') hnew'

/-- One report, at the name of an argument. -/
theorem tellsTurns_reportAt {t : Turn} {arguments : List Ustring} {s s' : GraphQlSchema}
    (harguments : arguments = [t.key])
    (hrun : (do
      let location ← getLocationFromSyntax t.name.span
      addDiagnosticAt location .duplicateArgument0 arguments : SchemaM Unit).run s = .ok () s') :
    TellsTurns [t] s s' := by
  obtain ⟨location, _, hget, hadd⟩ := run_bind_eq_ok.1 hrun
  obtain ⟨hlocation, rfl⟩ := run_require_eq_ok.1 hget
  obtain ⟨-, rfl⟩ := Outcome.ok.inj hadd
  refine ⟨.rfl, rfl, _, .of_eq (reportsOf_append _ _ _), ?_⟩
  rw [reportsOf_self, harguments]
  exact .cons ⟨_, .rfl, location, .inl hlocation, rfl⟩ .nil

theorem tells_reportDuplicateArgument {f t : Turn} {isReported : Bool} {s s' : GraphQlSchema}
    (hkey : f.key = t.key)
    (hsearch : (hasDiagnosticInSyntax f.name.span .duplicateArgument0).run s = .ok isReported s)
    (hrun : (reportDuplicateArgument f.name t.name).run s = .ok () s') :
    TellsTurns ((if isReported = false then [f] else []) ++ [t]) s s' := by
  obtain ⟨_, _, hsearch', hrun₁⟩ := run_bind_eq_ok.1 hrun
  obtain ⟨rfl, rfl⟩ := Outcome.ok.inj (hsearch.symm.trans hsearch')
  obtain ⟨_, s₁, hfirst, hlast⟩ := run_bind_eq_ok.1 hrun₁
  refine TellsTurns.trans ?_ (tellsTurns_reportAt rfl hlast)
  unfold when at hfirst
  split at hfirst
  · next hfalse =>
    rw [if_pos hfalse]
    exact tellsTurns_reportAt (congrArg ([·]) hkey.symm) hfirst
  · next htrue =>
    rw [if_neg htrue]
    obtain ⟨-, rfl⟩ := Outcome.ok.inj hfirst
    exact (refl_of KeepsArguments _).tells

/-- The order of the turns does not matter. -/
theorem TellsTurns.of_perm {turns turns' : List Turn} {s s' : GraphQlSchema}
    (h : TellsTurns turns s s') (hperm : turns.Perm turns') : TellsTurns turns' s s' := by
  obtain ⟨hscanner, hsteps, new, hnew, hreports⟩ := h
  obtain ⟨new', hperm', hreports'⟩ : Relation.Comp List.Perm
      (List.Forall₂ (IsReportOf .duplicateArgument0 s')) new
      (turns'.map fun t => t.name.placed) := by
    rw [← List.forall₂_comp_perm_eq_perm_comp_forall₂]
    exact ⟨_, hreports, hperm.map _⟩
  exact ⟨hscanner, hsteps, new', hnew.trans (hperm'.append_left _), hreports'⟩

/-- The map after a turn whose name is new. -/
theorem find?_emplace_turn {arguments : UstringMap Argument} {before : List Turn} {t : Turn}
    (h : ∀ k, arguments.find? k = (before.find? fun t' => t'.key = k).map Turn.argument)
    (hnone : arguments.find? t.key = none) (k : Ustring) :
    (arguments.emplace t.key t.argument).find? k =
      ((before ++ [t]).find? fun t' => t'.key = k).map Turn.argument := by
  rw [SortedMap.find?_emplace, List.find?_append, hnone, h k]
  by_cases hk : k = t.key
  · subst hk
    rw [h, Option.map_eq_none_iff] at hnone
    rw [if_pos rfl, hnone]
    simp
  · rw [if_neg hk]
    cases before.find? fun t' => t'.key = k with
    | none => simp [Ne.symm hk]
    | some first => rfl

/-- The map after a turn whose name is taken. -/
theorem find?_taken_turn {arguments : UstringMap Argument} {before : List Turn} {t first : Turn}
    (h : ∀ k, arguments.find? k = (before.find? fun t' => t'.key = k).map Turn.argument)
    (hfirst : (before.find? fun t' => t'.key = t.key) = some first) (k : Ustring) :
    arguments.find? k = ((before ++ [t]).find? fun t' => t'.key = k).map Turn.argument := by
  rw [List.find?_append, h k]
  by_cases hk : k = t.key
  · subst hk
    rw [hfirst]
    rfl
  · simp [Ne.symm hk]

theorem tells_readTurns {fuel : Nat} {arguments : UstringMap Argument} {before turns : List Turn}
    {s s' : GraphQlSchema}
    (hbefore : ∀ k, arguments.find? k = (before.find? fun t => t.key = k).map Turn.argument)
    (hrun : (readTurns fuel arguments).run s = .ok turns s') :
    TellsTurns (along tellTurn before turns) s s' := by
  induction fuel generalizing arguments before turns s with
  | zero => cases hrun
  | succ fuel ih =>
    have hkept := keptByTokens_arguments
    unfold readTurns at hrun
    obtain ⟨token, s₁, htoken, hrun₁⟩ := run_bind_eq_ok.1 hrun
    have h₁ : KeepsArguments s s₁ := hkept.keeps_takeNextToken _ _ _ htoken
    split at hrun₁
    · obtain ⟨rfl, rfl⟩ := Outcome.ok.inj hrun₁
      exact h₁.tells
    obtain ⟨value, _, hvalue, hrun₂⟩ := run_bind_eq_ok.1 hrun₁
    obtain ⟨-, rfl⟩ := Outcome.ok.inj hvalue
    obtain ⟨name, _, hname, hrun₃⟩ := run_bind_eq_ok.1 hrun₂
    obtain ⟨hidentifier, rfl⟩ := Outcome.ok.inj hname
    obtain rfl : name.identifier = value := congrArg Name.identifier hidentifier.symm
    obtain ⟨span, _, hspan, hrun₄⟩ := run_bind_eq_ok.1 hrun₃
    obtain ⟨-, rfl⟩ := Outcome.ok.inj hspan
    obtain ⟨colon, s₂, hcolon, hrun₅⟩ := run_bind_eq_ok.1 hrun₄
    have h₂ : KeepsArguments s s₂ := trans_of _ h₁ (hkept.keeps_scanExpected _ _ _ hcolon)
    split at hrun₅
    · obtain ⟨argumentValue, s₃, hargument, hrun₆⟩ := run_bind_eq_ok.1 hrun₅
      have h₃ : KeepsArguments s s₃ :=
        trans_of _ h₂ ((hkept.keeps_parseValues fuel).1 _ _ _ hargument)
      split at hrun₆
      · next hnone =>
        obtain ⟨rest, _, hrest, hpure⟩ := run_bind_eq_ok.1 hrun₆
        obtain ⟨rfl, rfl⟩ := Outcome.ok.inj hpure
        have hnew := hnone
        rw [hbefore, Option.map_eq_none_iff] at hnew
        have hbefore' := find?_emplace_turn (t := ⟨.mk span name argumentValue [], false⟩) hbefore
          hnone
        have htold := ih hbefore' hrest
        rw [along, tellTurn_none (t := ⟨.mk span name argumentValue [], false⟩) hnew]
        exact h₃.tells.trans htold
      · next first hsome =>
        obtain ⟨isReported, _, hsearch, hrun₇⟩ := run_bind_eq_ok.1 hrun₆
        obtain rfl := run_hasDiagnosticInSyntax hsearch
        obtain ⟨_, s₄, hreport, hrun₈⟩ := run_bind_eq_ok.1 hrun₇
        obtain ⟨rest, _, hrest, hpure⟩ := run_bind_eq_ok.1 hrun₈
        obtain ⟨rfl, rfl⟩ := Outcome.ok.inj hpure
        rw [hbefore] at hsome
        obtain ⟨firstTurn, hfirst, rfl⟩ := Option.map_eq_some_iff.1 hsome
        have hkey : firstTurn.key = name.identifier := by simpa using List.find?_some hfirst
        have htold := ih (find?_taken_turn (t := ⟨.mk span name argumentValue [], isReported⟩)
          hbefore hfirst) hrest
        have hreported := tells_reportDuplicateArgument (f := firstTurn)
          (t := ⟨.mk span name argumentValue [], isReported⟩) hkey hsearch hreport
        rw [along]
        refine h₃.tells.trans (TellsTurns.trans (hreported.of_perm ?_) htold)
        rw [tellTurn_some (t := ⟨.mk span name argumentValue [], isReported⟩) hfirst]
        exact List.perm_append_comm
    · obtain ⟨t, s₃, hskip, hpure⟩ := run_bind_eq_ok.1 hrun₅
      obtain ⟨rfl, rfl⟩ := Outcome.ok.inj hpure
      exact (trans_of KeepsArguments h₂ (hkept.keeps_skipTo _ _ _ hskip)).tells

/-- The search answers no once for a name that occurs again. -/
def SearchesRight (turns : List Turn) : Prop :=
  ∀ k, 2 ≤ times Turn.key turns k →
    times Turn.key (again Turn.key (fun _ t => !t.isReported) turns) k = 1

/-- The names of the turns that occur again. -/
theorem map_repeated_turns (turns : List Turn) :
    repeated Name.identifier (turns.map Turn.name) = (repeated Turn.key turns).map Turn.name := by
  have htimes : ∀ k, times Name.identifier (turns.map Turn.name) k = times Turn.key turns k :=
    fun k => List.countP_map
  simp only [repeated, htimes, List.filter_map]
  rfl

theorem reportsArguments_iff_of_tells {turns : List Turn} {s s' : GraphQlSchema}
    (h : TellsTurns (along tellTurn [] turns) s s') :
    ReportsArguments (turns.map Turn.name) s s' ↔ SearchesRight turns := by
  have hplaced : ∀ ts : List Turn, (ts.map Turn.name).map Name.placed =
      ts.map fun t => t.name.placed := fun ts => List.map_map
  constructor
  · rintro ⟨steps, ofDirectives, ofArguments, hsteps, hperm, hdirectives, harguments⟩
    obtain ⟨-, hsame, new, hnew, hreports⟩ := h
    obtain rfl : steps = [] := by
      rw [hsame] at hsteps
      exact List.append_cancel_left (hsteps.symm.trans (List.append_nil _).symm)
    obtain rfl : ofDirectives = [] := List.map_eq_nil_iff.1 hdirectives
    rw [List.append_nil] at hperm
    have hsplit : new.Perm ofArguments := (List.perm_append_left_iff _).1 (hnew.symm.trans hperm)
    rw [map_repeated_turns, hplaced] at harguments
    have hkeys : ((along tellTurn [] turns).map Turn.key).Perm
        ((repeated Turn.key turns).map Turn.key) := by
      have hfirst : ReportsNames .duplicateArgument0 { s' with diagnostics := new }
          ((along tellTurn [] turns).map fun t => t.name.placed) :=
        ⟨new, .of_eq (reportsOf_reports hreports), hreports⟩
      have hsecond : ReportsNames .duplicateArgument0 { s' with diagnostics := new }
          ((repeated Turn.key turns).map fun t => t.name.placed) :=
        ⟨ofArguments, (reportsOf_reports hreports).symm ▸ hsplit, harguments⟩
      have hnames := hfirst.perm hsecond
      rw [List.map_map, List.map_map] at hnames
      exact hnames
    intro k htwo
    have htimes := times_eq_of_perm hkeys k
    rw [tellTurn, times_along_tellIf, times_again, times_repeated, if_pos htwo] at htimes
    omega
  · intro hright
    have hperm : (along tellTurn [] turns).Perm (repeated Turn.key turns) := by
      refine along_tellIf_perm_repeated rfl fun k => ?_
      split
      · next htwo => exact hright k htwo
      · next hone =>
        have hle := times_again_add_not (f := Turn.key) (p := fun _ t => !t.isReported) turns k
        omega
    obtain ⟨-, hsame, new, hnew, hreports⟩ := h.of_perm hperm
    refine ⟨[], [], new, by rw [hsame, List.append_nil], ?_, rfl, ?_⟩
    · rw [List.append_nil]
      exact hnew
    · rw [map_repeated_turns, hplaced]
      exact hreports

end GraphQlSchema

/-! ## Both sides -/

end Flashpoint
