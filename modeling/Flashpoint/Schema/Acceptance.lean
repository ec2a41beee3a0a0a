import Flashpoint.Library.Passes
import Flashpoint.Schema.CheckedValues
import Flashpoint.Schema.Directives
import Flashpoint.Schema.Recursion

/-!
# Which schemas are accepted

The passes after the parsing loop are tests: where they report nothing they set the root types and tag
the types that name enumerations, and they come to that exactly if the schema is valid (`Valid`). Valid
is what the code takes for it: a value may be what `check_value` passes over, an unknown argument of a
directive is noticed only beside a known one, and the marks of the types do not count where an interface
is implemented.
-/

namespace Flashpoint

open Library Climb

/-- The node after its name was looked up. -/
def TypeNode.linked (symbols : UstringMap Symbol) (t : TypeNode) : TypeNode :=
  if t.name.any fun n => GraphQlSchema.namesEnum symbols n.identifier then { t with type := .enum }
  else t

namespace GraphQlSchema

open ParserM

/-! ## Valid schemas -/

/-- There is a type for queries, and the other root types that the schema block names are there. -/
structure RootsResolve (symbols : UstringMap Symbol) (schema : Schema) : Prop where
  query : rootSymbol symbols schema.query "Query".toList ≠ none
  mutation : rootSymbol symbols schema.mutation "Mutation".toList = none → schema.mutation = none
  subscription : rootSymbol symbols schema.subscription "Subscription".toList = none →
    schema.subscription = none

/-- What a type names is defined and may stand there; from an argument of a directive no input object
that contains itself is reached, and nothing that carries the directive. -/
def ReferenceFits (g : TypeGraph) (turn : List TypeId × TypeId) : Prop :=
  ∀ t n, g.types[turn.2]? = some t → t.name = some n →
    ∃ symbol, g.symbols.find? n.identifier = some symbol ∧ ¬ TypeGraph.Misplaced symbol t ∧
      (symbol.kind.isInput = true → ∀ parent, t.parentDirectiveDefinition = some parent →
        AcyclicFrom (g.HasField []) n.identifier ∧
          ¬ g.ReachesAnnotated turn.1 parent.identifier n.identifier)

/-- Nothing of what was found is reported, and nothing stops the check. -/
def Passed (findings : List Finding) : Prop :=
  .stops ∉ findings ∧ .detected ∉ findings ∧ .falseAlarm ∉ findings

section Checked

variable (s : GraphQlSchema)

/-- A declared argument is supplied with a value that passes, or may be left out. -/
def ArgumentFits (directive : Directive) (definition : InputValueDefinition) : Prop :=
  ∃ id t, definition.type = some id ∧ s.pool.types[id]? = some t ∧
    match SortedMap.findEntry directive.arguments definition.name.identifier with
    | none => t.isNonNull = false ∧ t.isNonNullList = false
    | some supplied => ∃ value, supplied.value = some value ∧ Passed (inspect s [] value id t t)

/-- A directive is defined, for its place and not annotating an argument of its own; its declared
arguments fit, and the supplied ones are all declared, or none of them is. -/
def DirectiveFits (directive : Directive) : Prop :=
  ∃ definition, s.members.directiveDefinitions.find? directive.name.identifier = some definition ∧
    directive.parentDirectiveDefinition.map (·.identifier) ≠ some directive.name.identifier ∧
    directive.location ∈ definition.locations ∧
    (∀ argument ∈ definition.arguments.entries, ArgumentFits s directive argument.2) ∧
    ((∀ name ∈ suppliedNames directive, name ∈ declaredNames definition) ∨
      ∀ name ∈ suppliedNames directive, name ∉ declaredNames definition)

/-- There is a field of the name, with a type of the same name. -/
def FieldFits (fields : UstringMap FieldDefinition) (field : FieldDefinition) : Prop :=
  ∃ own t t', fields.find? field.name.identifier = some own ∧ s.pool.types[own.type]? = some t ∧
    s.pool.types[field.type]? = some t' ∧ t.type = t'.type ∧
    (t.type.isSymbolicType = true →
      ∃ n n', t.name = some n ∧ t'.name = some n' ∧ n.identifier = n'.identifier)

/-- The object has the fields of the interface under the name. -/
def ImplementationFits (object : Object) (implementation : Ustring × Name) : Prop :=
  ∃ id, s.members.interfaces.find? implementation.1 = some id ∧
    ∀ fields, object.fields = some fields →
      ∃ i, s.pool.declarations[id]? = some (.interface i) ∧
        ∃ interfaceFields, i.fields = some interfaceFields ∧ object.name.isSome = true ∧
          ∀ field ∈ interfaceFields.entries, FieldFits s fields field.2

def ObjectFits (id : DeclarationId) : Prop :=
  ∃ object, s.pool.declarations[id]? = some (.object object) ∧
    ∃ implementations, object.implementations = some implementations ∧
      ∀ implementation ∈ implementations.entries, ImplementationFits s object implementation

/-- The members of the union are objects. -/
def UnionFits (id : DeclarationId) : Prop :=
  ∃ u, s.pool.declarations[id]? = some (.union u) ∧ ∀ member ∈ u.members.entries,
    ∃ symbol, s.members.symbols.find? member.2.identifier = some symbol ∧ symbol.kind = .object

end Checked

/-- The schema block, or an empty one. -/
def blockOf (schema? : Option Schema) : Schema := schema?.getD { span := ⟨0, 0⟩ }

/-- The schema with its root types. -/
def rootedBy (s : GraphQlSchema) (schema? : Option Schema) : GraphQlSchema :=
  { s with members := setRoots s.members (blockOf schema?) }

/-- The schema with its root types and the tags of its types. -/
def linkedBy (s : GraphQlSchema) (schema? : Option Schema) : GraphQlSchema :=
  { s.rootedBy schema? with pool := { s.pool with
      types := s.pool.types.map (TypeNode.linked s.members.symbols) } }

/-- A schema that was parsed is valid. -/
structure Valid (s : GraphQlSchema) (schema? : Option Schema) : Prop where
  roots : RootsResolve s.members.symbols (blockOf schema?)
  references : ∀ turn ∈ turns [] s.members.forwardTypeReferences, ReferenceFits s.typeGraph turn
  directives : ∀ directive ∈ s.directives, DirectiveFits (s.linkedBy schema?) directive
  objects : ∀ id ∈ s.members.objectsWithImplementations, ObjectFits (s.linkedBy schema?) id
  unions : ∀ id ∈ s.members.unions, UnionFits (s.linkedBy schema?) id

/-! ## Rules for the parser -/

section Rules

variable {s : GraphQlSchema} {α : Type}

theorem passes_read {f : GraphQlSchema → α} (hs : s ∈ clean) :
    Passes clean (read f) s (f s) s True :=
  passes_after (passes_get hs) (passes_pure hs)

theorem passes_modifyMembers {f : SchemaMembers → SchemaMembers} (hs : s ∈ clean) :
    Passes clean (modifyMembers f) s () { s with members := f s.members } True := by
  refine fun u s' => ends_step.trans ⟨fun h => ⟨trivial, h.1, h.2.1⟩, ?_⟩
  rintro ⟨-, rfl, rfl⟩
  exact ⟨rfl, rfl, hs⟩

theorem passes_modifyType {id : TypeId} {f : TypeNode → TypeNode} (hs : s ∈ clean) :
    Passes clean (modifyType id f) s ()
      { s with pool := { s.pool with types := s.pool.types.modify id f } } True := by
  refine fun u s' => ends_step.trans ⟨fun h => ⟨trivial, h.1, h.2.1⟩, ?_⟩
  rintro ⟨-, rfl, rfl⟩
  exact ⟨rfl, rfl, hs⟩

/-- A declaration that is to be of one kind. -/
theorem passes_declared {of : α → Declaration} {k : Declaration → SchemaM Unit} {Q : α → Prop}
    {id : DeclarationId} (hs : s ∈ clean)
    (hk : ∀ d, Passes clean (k d) s () s (∃ x, d = of x ∧ Q x)) :
    Passes clean (declaration id >>= k) s () s
      (∃ x, s.pool.declarations[id]? = some (of x) ∧ Q x) := by
  refine Passes.congr (passes_require hs fun d _ => hk d) ?_
  constructor
  · rintro ⟨d, hd, x, rfl, hx⟩
    exact ⟨x, hd, hx⟩
  · rintro ⟨x, hd, hx⟩
    exact ⟨_, hd, x, rfl, hx⟩

theorem passes_reportLocation {wrong : Prop} [Decidable wrong] {name : Name} {template : D}
    (hs : s ∈ clean) : Passes clean (reportLocation wrong name template) s () s (¬ wrong) :=
  never_reportAt.passes_when hs

/-- A walk that returns within its bound and reports nothing. -/
theorem Walked.passes {m : SchemaM Unit} {report : Option DiagnosticMessage} {ends reports : Prop}
    (h : Walked s m report ends reports) (hs : s ∈ clean) :
    Passes clean m s () s (ends ∧ ¬ reports) := by
  have hs : s.diagnostics = [] := hs
  have hstart : { s with diagnostics := [] } = s := by rw [← hs]
  intro u s'
  constructor
  · rintro ⟨hrun, hclean⟩
    rw [← hstart] at hrun
    obtain ⟨⟨hends, -⟩, new, rfl, -, hnew⟩ := h.1 [] u s' hrun
    have hnone : new = [] := hclean
    refine ⟨⟨hends, fun hreports => hnew.2 hreports hnone⟩, rfl, ?_⟩
    rw [hnone]
    exact hstart
  · rintro ⟨⟨hends, hsilent⟩, rfl, rfl⟩
    obtain ⟨_, s', hrun⟩ := h.2 hends (fun hreports => absurd hreports hsilent) []
    obtain ⟨-, new, rfl, -, hnew⟩ := h.1 [] _ s' hrun
    have hnone : new = [] := Classical.byContradiction fun hne => hsilent (hnew.1 hne)
    rw [hnone, List.nil_append, hstart] at hrun
    exact ⟨hrun, hs⟩

end Rules

/-! ## Root types -/

section Roots

variable {s : GraphQlSchema}

theorem passes_setRootType {given : Option Name} {default : Ustring}
    {set : SchemaMembers → Option DeclarationId → SchemaMembers} {whenMissing : SchemaM Unit}
    {c : Prop} (hs : s ∈ clean)
    (hmissing : Passes clean whenMissing s () { s with members := set s.members none } c) :
    Passes clean (setRootType given default set whenMissing) s ()
      { s with
        members := set s.members ((rootSymbol s.members.symbols given default).map (·.declaration)) }
      (rootSymbol s.members.symbols given default = none → given = none ∧ c) := by
  refine passes_after (passes_read hs) ?_
  cases given with
  | some name =>
    have hroot : rootSymbol s.members.symbols (some name) default =
        s.members.symbols.find? name.identifier := rfl
    simp only [hroot]
    cases s.members.symbols.find? name.identifier with
    | some symbol => exact (passes_modifyMembers hs).congr (iff_of_true trivial nofun)
    | none => exact never_addDiagnostic.passes.congr (iff_of_false id fun h => nomatch (h rfl).1)
  | none =>
    have hroot : rootSymbol s.members.symbols none default = s.members.symbols.find? default := rfl
    simp only [hroot]
    cases s.members.symbols.find? default with
    | some symbol => exact (passes_modifyMembers hs).congr (iff_of_true trivial nofun)
    | none => exact hmissing.congr ⟨fun h _ => ⟨trivial, h⟩, fun h => (h rfl).2⟩

/-- The root types are set exactly if they resolve. -/
theorem passes_setRootTypes {schema : Schema} (hs : s ∈ clean) :
    Passes clean (setRootTypes schema) s () { s with members := setRoots s.members schema }
      (RootsResolve s.members.symbols schema) := by
  -- the members change, the diagnostics do not
  have hkept : ∀ members, { s with members } ∈ (clean : LowerSet GraphQlSchema) := fun _ => hs
  refine (passes_bind (passes_setRootType hs never_addDiagnosticAt.passes) (passes_bind
    (passes_setRootType (hkept _) (passes_modifyMembers (hkept _)))
    (passes_setRootType (hkept _) (passes_modifyMembers (hkept _))))).congr ?_
  constructor
  · rintro ⟨hquery, hmutation, hsubscription⟩
    exact ⟨fun hnone => (hquery hnone).2, fun hnone => (hmutation hnone).1,
      fun hnone => (hsubscription hnone).1⟩
  · rintro ⟨hquery, hmutation, hsubscription⟩
    exact ⟨fun hnone => absurd hnone hquery, fun hnone => ⟨hmutation hnone, trivial⟩,
      fun hnone => ⟨hsubscription hnone, trivial⟩⟩

/-- The span of an empty block is of no account. -/
theorem passes_schemaOrEmpty (schema? : Option Schema) (hs : s ∈ clean) :
    ∃ schema, Passes clean (schemaOrEmpty schema?) s schema s True ∧
      (∀ members, setRoots members schema = setRoots members (blockOf schema?)) ∧
        ∀ symbols, RootsResolve symbols schema ↔ RootsResolve symbols (blockOf schema?) := by
  cases schema? with
  | some schema => exact ⟨schema, passes_pure hs, fun _ => rfl, fun _ => .rfl⟩
  | none =>
    refine ⟨_, passes_after (passes_read hs) (passes_pure hs), fun _ => rfl, fun _ => ?_⟩
    exact ⟨fun h => ⟨h.query, h.mutation, h.subscription⟩,
      fun h => ⟨h.query, h.mutation, h.subscription⟩⟩

end Roots

/-! ## Type references -/

theorem linked_eq_self {symbols : UstringMap Symbol} {t : TypeNode} (h : t.name = none) :
    t.linked symbols = t := by
  rw [TypeNode.linked, h]
  rfl

theorem linked_untagged {symbols : UstringMap Symbol} {t : TypeNode} :
    (t.linked symbols).untagged = t.untagged := by
  unfold TypeNode.linked
  split <;> rfl

/-- The schema when the references under the indices were visited. -/
def visiting (s : GraphQlSchema) (visited : List TypeId) : GraphQlSchema :=
  { s with pool := { s.pool with
      types := s.pool.types.mapIdx fun i t => if i ∈ visited then t.linked s.members.symbols else t } }

section References

variable {s : GraphQlSchema} {visited : List TypeId} {id : TypeId} {t : TypeNode} {n : Name}

theorem visiting_nil : s.visiting [] = s := by
  have htypes : (s.pool.types.mapIdx fun i t =>
      if i ∈ ([] : List TypeId) then t.linked s.members.symbols else t) = s.pool.types := by
    refine List.ext_getElem? fun i => ?_
    simp only [List.getElem?_mapIdx, List.not_mem_nil, if_false, Option.map_id']
  rw [visiting, htypes]

/-- The named types are the ones that are visited. -/
theorem visiting_eq_map {references : List TypeId} (h : TypesWellFormed s.pool.types references) :
    s.visiting references =
      { s with pool := { s.pool with types := s.pool.types.map (TypeNode.linked s.members.symbols) } } := by
  have htypes : (s.pool.types.mapIdx fun i t =>
      if i ∈ references then t.linked s.members.symbols else t) =
        s.pool.types.map (TypeNode.linked s.members.symbols) := by
    refine List.ext_getElem? fun i => ?_
    rw [List.getElem?_mapIdx, List.getElem?_map]
    cases hnode : s.pool.types[i]? with
    | none => rfl
    | some t =>
      simp only [Option.map_some, Option.some.injEq]
      split
      · rfl
      · next hother =>
        refine (linked_eq_self ?_).symm
        cases hname : t.name with
        | none => rfl
        | some n => exact absurd ((h.references i).2 ⟨t, hnode, by rw [hname]; rfl⟩) hother
  rw [visiting, htypes]

theorem getElem?_visiting (ht : s.pool.types[id]? = some t) :
    ∃ t', (s.visiting visited).pool.types[id]? = some t' ∧ t'.untagged = t.untagged := by
  refine ⟨_, by rw [visiting, List.getElem?_mapIdx, ht]; rfl, ?_⟩
  split
  · exact linked_untagged
  · rfl

theorem visit_visiting (ht : s.pool.types[id]? = some t) (hn : t.name = some n) :
    (s.visiting visited).visit id n = s.visiting (visited ++ [id]) := by
  have htypes : (s.visiting (visited ++ [id])).pool.types =
      if namesEnum s.members.symbols n.identifier then
        (s.visiting visited).pool.types.modify id fun t => { t with type := .enum }
      else (s.visiting visited).pool.types := by
    refine List.ext_getElem? fun i => ?_
    by_cases hi : id = i
    · subst hi
      have hlinked : t.linked s.members.symbols =
          if namesEnum s.members.symbols n.identifier then { t with type := .enum } else t := by
        rw [TypeNode.linked, hn]
        rfl
      have hmem : id ∈ visited ++ [id] := List.mem_append_right _ (List.mem_singleton_self id)
      split
      · next henum =>
        rw [if_pos henum] at hlinked
        simp only [visiting, List.getElem?_modify, List.getElem?_mapIdx, ht, hmem, if_true,
          Option.map_some, Option.map_eq_map, hlinked, Option.some.injEq]
        split <;> rfl
      · next henum =>
        rw [if_neg henum] at hlinked
        simp only [visiting, List.getElem?_mapIdx, ht, hmem, if_true, Option.map_some, hlinked, ite_self]
    · have hmem : i ∈ visited ++ [id] ↔ i ∈ visited := by
        rw [List.mem_append, List.mem_singleton]
        exact or_iff_left (Ne.symm hi)
      split
      · simp only [visiting, List.getElem?_modify, List.getElem?_mapIdx, hmem, hi, if_false,
          Option.map_eq_map, Option.map_id']
      · simp only [visiting, List.getElem?_mapIdx, hmem]
  have hvisit : (s.visiting visited).visit id n = { s with pool := { s.pool with
      types := (s.visiting (visited ++ [id])).pool.types } } := by
    rw [htypes, visit]
    by_cases henum : namesEnum s.members.symbols n.identifier = true
    · exact (if_pos henum).trans (by rw [if_pos henum]; rfl)
    · exact (if_neg henum).trans (by rw [if_neg henum]; rfl)
  exact hvisit

theorem typeGraph_visiting : (s.visiting visited).typeGraph = s.typeGraph := by
  have htypes : (s.visiting visited).pool.types.map TypeNode.untagged =
      s.pool.types.map TypeNode.untagged := by
    refine List.ext_getElem? fun i => ?_
    rw [visiting, List.getElem?_map, List.getElem?_map, List.getElem?_mapIdx]
    cases s.pool.types[i]? with
    | none => rfl
    | some t =>
      simp only [Option.map_some, Option.some.injEq]
      split
      · exact linked_untagged
      · rfl
  rw [typeGraph, htypes]
  rfl

/-- A type at its turn, where the walk is the one of the code. -/
def Links (g : TypeGraph) (turn : List TypeId × TypeId) : Prop :=
  ∀ t n, g.types[turn.2]? = some t → t.name = some n →
    ∃ symbol, g.symbols.find? n.identifier = some symbol ∧ ¬ TypeGraph.Misplaced symbol t ∧
      (symbol.kind.isInput = true → ∀ parent, t.parentDirectiveDefinition = some parent →
        g.Walks turn.1 (g.declarations.length + 1) n.identifier ∧
          ¬ g.ReachesAnnotated turn.1 parent.identifier n.identifier)

theorem passes_checkTypeOfDirective (hs : s ∈ clean)
    (htagged : Tagged s.members.symbols visited s.pool.types) (hn : t.name = some n) :
    Passes clean (checkTypeOfDirective t) s () s
      (∀ parent, t.parentDirectiveDefinition = some parent →
        s.typeGraph.Walks visited (s.typeGraph.declarations.length + 1) n.identifier ∧
          ¬ s.typeGraph.ReachesAnnotated visited parent.identifier n.identifier) := by
  unfold checkTypeOfDirective
  cases t.parentDirectiveDefinition with
  | none => exact (passes_pure hs).congr (iff_of_true trivial nofun)
  | some parent =>
    refine (passes_after (passes_read hs)
      ((walked_checkRecursiveDirectives htagged _ _ _ hn).passes hs)).congr ?_
    simp only [Option.some.injEq, forall_eq']
    rfl

theorem passes_checkForwardReference (hs : s ∈ clean)
    (htagged : Tagged s.members.symbols visited s.pool.types) (ht : s.pool.types[id]? = some t)
    (hn : t.name = some n) :
    Passes clean (checkForwardReference id) s () (s.visit id n)
      (Links s.typeGraph (visited ++ [id], id)) := by
  have hlinks : Links s.typeGraph (visited ++ [id], id) ↔
      ∃ symbol, s.members.symbols.find? n.identifier = some symbol ∧
        ¬ TypeGraph.Misplaced symbol t ∧
          (symbol.kind.isInput = true → ∀ parent, t.parentDirectiveDefinition = some parent →
            s.typeGraph.Walks (visited ++ [id]) (s.typeGraph.declarations.length + 1) n.identifier ∧
              ¬ s.typeGraph.ReachesAnnotated (visited ++ [id]) parent.identifier n.identifier) := by
    refine ⟨fun h => h t.untagged n (typeGraph_type ht) hn, fun h t' n' ht' hn' => ?_⟩
    obtain rfl := Option.some.inj ((typeGraph_type ht).symm.trans ht')
    obtain rfl := Option.some.inj (hn.symm.trans hn')
    exact h
  have hvisited := tagged_visit htagged ht hn
  refine Passes.congr ?_ hlinks.symm
  have hwalk := fun t' hn' hs' => passes_checkTypeOfDirective (t := t') hs' hvisited (n := n) hn'
  rw [typeGraph_visit] at hwalk
  refine passes_found hs ht (passes_found hs hn (passes_after (passes_read hs) ?_))
  cases hsymbol : s.members.symbols.find? n.identifier with
  | none =>
    refine never_reportAt.passes.congr (iff_of_false not_false ?_)
    rintro ⟨symbol, hnone, -⟩
    cases hnone
  | some symbol =>
    simp only [Option.some.injEq, exists_eq_left']
    by_cases henum : symbol.kind = .enum
    · have hvisit : s.visit id n = { s with pool := { s.pool with
          types := s.pool.types.modify id fun t => { t with type := .enum } } } := by
        rw [visit, namesEnum, hsymbol, Option.any_some, if_pos (decide_eq_true henum)]
      rw [if_pos henum]
      refine Passes.congr (passes_after (a := ()) ?_ (hwalk { t with type := .enum } hn ?_)) ?_
      · rw [hvisit]
        exact passes_modifyType hs
      · rw [hvisit]
        exact hs
      · have hplaced : ¬ TypeGraph.Misplaced symbol t := by
          rw [TypeGraph.Misplaced, henum]
          exact fun h => h.elim (fun h => absurd h.1 (by decide)) fun h => h.1 rfl
        have hinput : symbol.kind.isInput = true := by rw [henum]; rfl
        exact ⟨fun h => ⟨hplaced, fun _ => h⟩, fun h => h.2 hinput⟩
    · have hvisit : s.visit id n = s := by
        rw [visit, namesEnum, hsymbol, Option.any_some, if_neg fun h => henum (of_decide_eq_true h)]
      rw [if_neg henum]
      rw [hvisit] at hwalk ⊢
      refine Passes.congr (passes_bind (passes_when hs fun _ => passes_bind (passes_reportLocation hs)
        (hwalk t hn hs)) (passes_reportLocation hs)) ?_
      rw [TypeGraph.Misplaced]
      generalize (∀ parent, _ → _ ∧ _) = walks
      revert henum
      cases symbol.kind <;> simp [SymbolKind.isInput, SymbolKind.isOutput]

theorem passes_forM_checkForwardReference {references : List TypeId} (hs : s ∈ clean)
    (htagged : Tagged s.members.symbols visited (s.visiting visited).pool.types)
    (hnamed : ∀ id ∈ references, ∃ t, s.pool.types[id]? = some t ∧ t.name.isSome = true) :
    Passes clean (references.forM checkForwardReference) (s.visiting visited) ()
      (s.visiting (visited ++ references))
      (∀ turn ∈ turns visited references, Links s.typeGraph turn) := by
  induction references generalizing visited with
  | nil =>
    rw [List.append_nil]
    refine Passes.congr (passes_pure (s := s.visiting visited) hs) (iff_of_true trivial ?_)
    exact fun _ h => absurd h List.not_mem_nil
  | cons id references ih =>
    rw [List.forall_mem_cons] at hnamed
    obtain ⟨⟨t, ht, hname⟩, hrest⟩ := hnamed
    obtain ⟨n, hn⟩ := Option.isSome_iff_exists.1 hname
    obtain ⟨t', ht', hsame⟩ := getElem?_visiting ht
    have hn' : t'.name = some n := (congrArg TypeNode.name hsame).trans hn
    have hturn := passes_checkForwardReference (s := s.visiting visited) hs htagged ht' hn'
    have htagged' := tagged_visit (s := s.visiting visited) htagged ht' hn'
    rw [visit_visiting ht hn] at hturn htagged'
    rw [typeGraph_visiting] at hturn
    have hloop := ih htagged' hrest
    rw [List.append_assoc, List.singleton_append] at hloop
    refine Passes.congr (passes_bind hturn hloop) ?_
    rw [turns, List.forall_mem_cons]

theorem passes_checkForwardReferences (hs : s ∈ clean)
    (htypes : TypesWellFormed s.pool.types s.members.forwardTypeReferences) :
    Passes clean checkForwardReferences s () (s.visiting s.members.forwardTypeReferences)
      (∀ turn ∈ turns [] s.members.forwardTypeReferences, Links s.typeGraph turn) := by
  refine passes_after (passes_read hs) ?_
  have htagged := tagged_of_wellFormed htypes s.members.symbols
  have hloop := passes_forM_checkForwardReference hs
    (show Tagged _ [] (s.visiting []).pool.types by rwa [visiting_nil]) fun id =>
      (htypes.references id).1
  rwa [visiting_nil, List.nil_append] at hloop

end References

/-! ### The walks of a schema that was parsed -/

section Walks

variable {s : GraphQlSchema} (hwf : WellFormed NoneOpen s.pool s.members)
include hwf

/-- The declaration that an input type names was read to its end. -/
theorem exists_of_namesInput {a : Ustring} (h : s.typeGraph.namesInput a = true) :
    ∃ d, s.typeGraph.declarationNamed a = some d ∧ d.kind.isInput = true ∧
      d.Complete s.pool.types := by
  obtain ⟨symbol, hsymbol, hinput⟩ := (Option.any_eq_true _ _).1 h
  obtain ⟨d, hd, hkind, hcomplete⟩ := hwf.symbols a symbol hsymbol
  exact ⟨d, declarationNamed_eq hsymbol hd, hkind ▸ hinput, (hcomplete not_false).1⟩

/-- The types of the fields of an input object stand in input locations. -/
theorem isTypeAt_of_mem_inputFields {a : Ustring} {field : InputFieldDefinition}
    (h : s.typeGraph.namesInput a = true) (hfield : field ∈ s.typeGraph.inputFields a) :
    IsTypeAt s.pool.types true field.type := by
  obtain ⟨d, hd, -, hcomplete⟩ := exists_of_namesInput hwf h
  obtain ⟨o, ho⟩ := TypeGraph.exists_of_mem_inputFields hfield
  obtain rfl := Option.some.inj (hd.symm.trans ho)
  obtain ⟨fields, hfields, -, htypes⟩ := hcomplete
  simp only [TypeGraph.inputFields, ho, hfields, Option.elim_some] at hfield
  obtain ⟨f, hf, rfl⟩ := List.mem_map.1 hfield
  exact (htypes _ _ (SortedMap.mem_entries_iff.1 hf)).2

/-- What names an input type can be walked through. -/
theorem walkable_of_namesInput {a : Ustring} (h : s.typeGraph.namesInput a = true) :
    s.typeGraph.Walkable a := by
  obtain ⟨d, hd, hinput, hcomplete⟩ := exists_of_namesInput hwf h
  rw [TypeGraph.Walkable, hd]
  cases d with
  | inputObject o =>
    obtain ⟨fields, hfields, -, -⟩ := hcomplete
    refine ⟨by rw [hfields]; rfl, fun field hfield => ?_⟩
    obtain ⟨t, ht, -⟩ := isTypeAt_of_mem_inputFields hwf h hfield
    rw [typeGraph_type ht]
    rfl
  | enum e => trivial
  | _ => cases hinput

/-- Where the types name what may stand there, the fields of an input type name input types. -/
theorem namesInput_of_hasField {a b : Ustring} (h : s.typeGraph.namesInput a = true)
    (hplaced : ∀ (id : TypeId) t n, s.typeGraph.types[id]? = some t → t.name = some n →
      ∃ symbol, s.typeGraph.symbols.find? n.identifier = some symbol ∧
        ¬ TypeGraph.Misplaced symbol t)
    (hab : s.typeGraph.HasField [] a b) : s.typeGraph.namesInput b = true := by
  obtain ⟨field, hfield, hname, -⟩ := hab
  obtain ⟨t, ht, hin⟩ := isTypeAt_of_mem_inputFields hwf h hfield
  rw [TypeGraph.typeName, typeGraph_type ht] at hname
  obtain ⟨n, hn, rfl⟩ := Option.map_eq_some_iff.1 hname
  obtain ⟨symbol, hsymbol, hsymbolPlaced⟩ := hplaced _ _ n (typeGraph_type ht) hn
  refine (Option.any_eq_true _ _).2 ⟨symbol, hsymbol, ?_⟩
  refine Bool.of_not_eq_false fun hnot => hsymbolPlaced (.inr ?_)
  revert hnot
  cases symbol.kind <;> simp [SymbolKind.isInput, SymbolKind.isOutput, TypeNode.untagged, hin]

theorem walkable_of_placed {a b : Ustring} (h : s.typeGraph.namesInput a = true)
    (hplaced : ∀ (id : TypeId) t n, s.typeGraph.types[id]? = some t → t.name = some n →
      ∃ symbol, s.typeGraph.symbols.find? n.identifier = some symbol ∧
        ¬ TypeGraph.Misplaced symbol t)
    (hab : Relation.ReflTransGen (s.typeGraph.HasField []) a b) : s.typeGraph.Walkable b := by
  refine walkable_of_namesInput hwf ?_
  induction hab with
  | refl => exact h
  | tail _ hstep ih => exact namesInput_of_hasField hwf ih hplaced hstep

/-- The walks of the turns return, exactly if what they walk through is acyclic. -/
theorem forall_links_iff (hkinds : ∀ name symbol, s.members.symbols.find? name = some symbol →
      ∃ d, s.pool.declarations[symbol.declaration]? = some d ∧ d.kind = symbol.kind) :
    (∀ turn ∈ turns [] s.members.forwardTypeReferences, Links s.typeGraph turn) ↔
      ∀ turn ∈ turns [] s.members.forwardTypeReferences, ReferenceFits s.typeGraph turn := by
  constructor
  · intro h turn hturn t n ht hn
    obtain ⟨symbol, hsymbol, hplaced, hwalks⟩ := h turn hturn t n ht hn
    refine ⟨symbol, hsymbol, hplaced, fun hinput parent hparent => ?_⟩
    obtain ⟨hwalk, hreaches⟩ := hwalks hinput parent hparent
    exact ⟨(TypeGraph.acyclicFrom_of_walks hkinds hwalk).1, hreaches⟩
  · intro h turn hturn t n ht hn
    have hplaced : ∀ (id : TypeId) t n, s.typeGraph.types[id]? = some t → t.name = some n →
        ∃ symbol, s.typeGraph.symbols.find? n.identifier = some symbol ∧
          ¬ TypeGraph.Misplaced symbol t := by
      intro id t n ht hn
      have hmem : id ∈ s.members.forwardTypeReferences := by
        rw [typeGraph, List.getElem?_map] at ht
        obtain ⟨t₀, ht₀, rfl⟩ := Option.map_eq_some_iff.1 ht
        exact (hwf.types.references id).2 ⟨t₀, ht₀, Option.isSome_of_eq_some hn⟩
      obtain ⟨turn, hturn, rfl⟩ := exists_mem_turns hmem
      obtain ⟨symbol, hsymbol, hplaced, -⟩ := h turn hturn t n ht hn
      exact ⟨symbol, hsymbol, hplaced⟩
    obtain ⟨symbol, hsymbol, hsymbolPlaced, hfits⟩ := h turn hturn t n ht hn
    refine ⟨symbol, hsymbol, hsymbolPlaced, fun hinput parent hparent => ?_⟩
    obtain ⟨hacyclic, hreaches⟩ := hfits hinput parent hparent
    have hnames : s.typeGraph.namesInput n.identifier = true :=
      (Option.any_eq_true _ _).2 ⟨symbol, hsymbol, hinput⟩
    exact ⟨TypeGraph.walks_of_acyclicFrom hacyclic fun b => walkable_of_placed hwf hnames hplaced,
      hreaches⟩

end Walks

/-! ## Directives -/

/-- The declared arguments that are supplied, with those collected so far. -/
def collected (directive : Directive) : List (Ustring × InputValueDefinition) → UstringSet → UstringSet
  | [], checked => checked
  | (_, definition) :: rest, checked =>
    match SortedMap.findEntry directive.arguments definition.name.identifier with
    | none => collected directive rest checked
    | some _ => collected directive rest (checked.emplace definition.name.identifier ())

theorem mem_keys_collected {directive : Directive} {name : Ustring}
    (definitions : List (Ustring × InputValueDefinition)) (checked : UstringSet) :
    name ∈ (collected directive definitions checked).entries.map Prod.fst ↔
      name ∈ checked.entries.map Prod.fst ∨
        (SortedMap.findEntry directive.arguments name).isSome = true ∧
          name ∈ definitions.map fun definition => definition.2.name.identifier := by
  induction definitions generalizing checked with
  | nil => simp [collected]
  | cons definition rest ih =>
    obtain ⟨k, definition⟩ := definition
    unfold collected
    rw [List.map_cons, List.mem_cons]
    split
    · next hnone =>
      rw [ih]
      refine or_congr_right (and_congr_right fun hsupplied => (or_iff_right ?_).symm)
      rintro rfl
      rw [hnone] at hsupplied
      cases hsupplied
    · next hsome =>
      rw [ih, SortedMap.mem_keys_emplace, or_assoc]
      refine or_congr_right ⟨?_, ?_⟩
      · rintro (rfl | ⟨hsupplied, hrest⟩)
        · exact ⟨Option.isSome_of_eq_some hsome, .inl rfl⟩
        · exact ⟨hsupplied, .inr hrest⟩
      · rintro ⟨hsupplied, rfl | hrest⟩
        · exact .inl rfl
        · exact .inr ⟨hsupplied, hrest⟩

section Directives

variable {s : GraphQlSchema} {directive : Directive}

theorem passes_checkValue (hs : s ∈ clean) (hresolve : s.TypesResolve) {value : Value} {id : TypeId}
    {t : TypeNode} (ht : s.pool.types[id]? = some t) (hin : t.inInputLocation = true) :
    Passes clean (checkValue value id) s () s (Passed (inspect s [] value id t t)) := by
  have hstart : s.during [] [] = s := by
    rw [during_nil, ← (show s.diagnostics = [] from hs)]
  have hcurrent : whileReading [] id t = t := if_neg List.not_mem_nil
  obtain ⟨hstops, hreturns⟩ := yields_checkValue hresolve value ht hin t []
  rw [hcurrent, hstart] at hstops hreturns
  by_cases hstop : .stops ∈ inspect s [] value id t t
  · obtain ⟨e, s', hrun⟩ := hstops hstop
    exact fun u s' => iff_of_false (fun hends => nomatch hends.1.symm.trans hrun) fun h => h.1.1 hstop
  · obtain ⟨new, hrun, hnew⟩ := hreturns hstop
    rw [List.nil_append, during_nil] at hrun
    intro u s'
    constructor
    · rintro ⟨hrun', hclean⟩
      obtain ⟨-, rfl⟩ := Outcome.ok.inj (hrun.symm.trans hrun')
      have hnone : new = [] := hclean
      refine ⟨⟨hstop, hnew.1 hnone⟩, rfl, ?_⟩
      rw [hnone, ← (show s.diagnostics = [] from hs)]
    · rintro ⟨⟨-, hsilent⟩, rfl, rfl⟩
      rw [hnew.2 hsilent, ← (show s'.diagnostics = [] from hs)] at hrun
      exact ⟨hrun, hs⟩

theorem passes_checkDirectiveArguments (hs : s ∈ clean) (hresolve : s.TypesResolve)
    {definitions : List (Ustring × InputValueDefinition)} (checked : UstringSet)
    (htypes : ∀ definition ∈ definitions, ∃ id, definition.2.type = some id ∧
      IsTypeAt s.pool.types true id) :
    Passes clean (checkDirectiveArguments directive definitions checked) s
      (collected directive definitions checked) s
      (∀ definition ∈ definitions, ArgumentFits s directive definition.2) := by
  induction definitions generalizing checked with
  | nil => exact (passes_pure hs).congr (iff_of_true trivial fun _ h => absurd h List.not_mem_nil)
  | cons definition rest ih =>
    obtain ⟨k, definition⟩ := definition
    rw [List.forall_mem_cons] at htypes
    obtain ⟨⟨id, hid, t, ht, hin⟩, hrest⟩ := htypes
    have hfits : ArgumentFits s directive definition ↔
        match SortedMap.findEntry directive.arguments definition.name.identifier with
        | none => t.isNonNull = false ∧ t.isNonNullList = false
        | some supplied =>
          ∃ value, supplied.value = some value ∧ Passed (inspect s [] value id t t) := by
      refine ⟨?_, fun h => ⟨id, t, hid, ht, h⟩⟩
      rintro ⟨id', t', hid', ht', h⟩
      obtain rfl := Option.some.inj (hid.symm.trans hid')
      obtain rfl := Option.some.inj (ht.symm.trans ht')
      exact h
    rw [List.forall_mem_cons, hfits]
    unfold checkDirectiveArguments collected
    simp only
    cases SortedMap.findEntry directive.arguments definition.name.identifier with
    | none =>
      refine passes_bind (a := ()) ?_ (ih checked hrest)
      refine passes_found hs hid (passes_found hs ht ((never_reportAt.passes_when hs).congr ?_))
      rw [not_or, Bool.not_eq_true, Bool.not_eq_true]
    | some supplied =>
      refine Passes.congr (passes_require hs fun value _ => passes_found hs hid (passes_bind (a := ())
        (passes_checkValue hs hresolve ht hin) (ih _ hrest))) ?_
      simp only [← and_assoc, exists_and_right]

/-- What is left over is noticed, but not that it is unknown. -/
theorem reportsNone_iff (hkeyed : directive.Keyed) {definition : DirectiveDefinition} :
    ((collected directive definition.arguments.entries ∅).size < directive.arguments.length →
      ∀ argument ∈ directive.arguments,
        ¬ ((collected directive definition.arguments.entries ∅).find?
          argument.2.name.identifier).isSome = true) ↔
      (∀ name ∈ suppliedNames directive, name ∈ declaredNames definition) ∨
        ∀ name ∈ suppliedNames directive, name ∉ declaredNames definition := by
  have hkeys : directive.arguments.map Prod.fst = suppliedNames directive :=
    List.map_congr_left hkeyed.1
  have hmem : ∀ name, name ∈ (collected directive definition.arguments.entries ∅).entries.map Prod.fst ↔
      name ∈ suppliedNames directive ∧ name ∈ declaredNames definition := by
    intro name
    have hfound : (SortedMap.findEntry directive.arguments name).isSome = true ↔
        name ∈ directive.arguments.map Prod.fst := by
      refine ⟨fun h => ?_, SortedMap.isSome_findEntry⟩
      rw [SortedMap.findEntry, Option.isSome_map, List.find?_isSome] at h
      obtain ⟨argument, hargument, hname⟩ := h
      exact List.mem_map.2 ⟨argument, hargument, by simpa using hname⟩
    rw [mem_keys_collected, hfound, hkeys]
    exact or_iff_right List.not_mem_nil
  generalize collected directive definition.arguments.entries ∅ = checked at hmem ⊢
  have hnodup : (suppliedNames directive).Nodup := hkeys ▸ hkeyed.2
  have hlength : directive.arguments.length = (suppliedNames directive).length := by
    rw [← hkeys, List.length_map]
  have hsize : checked.size = (checked.entries.map Prod.fst).length := by rw [List.length_map]; rfl
  constructor
  · intro h
    by_cases hknown : ∀ name ∈ suppliedNames directive, name ∈ declaredNames definition
    · exact .inl hknown
    · simp only [not_forall] at hknown
      obtain ⟨unknown, hsupplied, hunknown⟩ := hknown
      refine .inr fun name hname hdeclared => ?_
      have hsubset : unknown :: checked.entries.map Prod.fst ⊆ suppliedNames directive :=
        List.cons_subset.2 ⟨hsupplied, fun name hname => ((hmem name).1 hname).1⟩
      have hlt := (List.subperm_of_subset (List.nodup_cons.2
        ⟨fun h => hunknown ((hmem unknown).1 h).2, checked.nodup_keys⟩) hsubset).length_le
      obtain ⟨argument, hargument, rfl⟩ := List.mem_map.1 hname
      refine h ?_ argument hargument (SortedMap.mem_keys_iff.1 ((hmem _).2 ⟨hname, hdeclared⟩))
      rw [hsize, hlength]
      exact hlt
  · rintro (hknown | hunknown) hless argument hargument hfound
    · have hle := (List.subperm_of_subset hnodup fun name hname =>
        (hmem name).2 ⟨hname, hknown name hname⟩).length_le
      rw [hsize, hlength] at hless
      exact absurd hle (Nat.not_le.2 hless)
    · exact hunknown _ (List.mem_map_of_mem hargument)
        ((hmem _).1 (SortedMap.mem_keys_iff.2 hfound)).2

theorem passes_checkDirectiveReference (hs : s ∈ clean) (hconstructed : Constructed s)
    (hkeyed : directive.Keyed) :
    Passes clean (checkDirectiveReference directive) s () s (DirectiveFits s directive) := by
  refine passes_after (passes_read hs) ?_
  unfold DirectiveFits
  cases hdefinition : s.members.directiveDefinitions.find? directive.name.identifier with
  | none => exact never_reportAt.passes.congr (iff_of_false not_false nofun)
  | some definition =>
    simp only [Option.some.injEq, exists_eq_left', ← reportsNone_iff hkeyed]
    have hlocation : Never clean (do
        let location ← getLocationFromSyntax directive.span
        let text ← Climb.require .exception fun _ => directiveLocationToString directive.location
        addDiagnosticAt location .theDirective0DoesNotSupportTheLocation1
          ['@' :: directive.name.identifier, text] : SchemaM Unit) :=
      never_bind fun _ => never_bind fun _ => never_addDiagnosticAt
    refine Passes.congr (passes_bind (never_reportAt.passes_when hs) (passes_bind
      (hlocation.passes_when hs) (passes_bind (passes_checkDirectiveArguments hs
        hconstructed.typesResolve ∅ ?_) (passes_when hs fun _ => passes_forM hs fun argument _ =>
          never_addDiagnostic.passes_when hs)))) ?_
    · intro argument hargument
      have harguments := hconstructed.directives.arguments _ _ hdefinition
      exact (harguments _ _ (SortedMap.mem_entries_iff.1 hargument)).2
    · rw [not_not]

end Directives

/-! ## Interfaces and unions -/

section Interfaces

variable {s : GraphQlSchema}

theorem passes_checkInterfaceFields (hs : s ∈ clean) {objectName : Name}
    {fields : UstringMap FieldDefinition} {implementation : Ustring} {interfaceName : Option Name}
    (interfaceFields : List (Ustring × FieldDefinition)) :
    Passes clean (checkInterfaceFields objectName fields implementation interfaceName interfaceFields)
      s () s (∀ field ∈ interfaceFields, FieldFits s fields field.2) := by
  have hmismatch : ∀ objectType interfaceType : TypeNode, Never clean (do
      let name ← follow interfaceName
      reportTypeMismatch objectType interfaceType name.identifier : SchemaM Unit) :=
    fun _ _ => never_bind fun _ => never_bind fun _ => never_bind fun _ => never_bind fun _ =>
      never_addDiagnosticAt
  induction interfaceFields with
  | nil => exact (passes_pure hs).congr (iff_of_true trivial fun _ h => absurd h List.not_mem_nil)
  | cons field rest ih =>
    obtain ⟨k, field⟩ := field
    rw [List.forall_mem_cons]
    unfold checkInterfaceFields FieldFits
    cases fields.find? field.name.identifier with
    | none =>
      refine Never.passes ?_ |>.congr (iff_of_false not_false ?_)
      · exact never_bind fun _ => Never.bind never_addDiagnosticAt
      · rintro ⟨⟨own, t, t', hnone, -⟩, -⟩
        cases hnone
    | some own =>
      have hfits : ∀ t t' : TypeNode, Passes clean (
          if t.type ≠ t'.type then do
            let name ← follow interfaceName
            reportTypeMismatch t t' name.identifier
          else if t.type.isSymbolicType then do
            let objectTypeName ← follow t.name
            let interfaceTypeName ← follow t'.name
            if objectTypeName.identifier ≠ interfaceTypeName.identifier then do
              let name ← follow interfaceName
              reportTypeMismatch t t' name.identifier
            else checkInterfaceFields objectName fields implementation interfaceName rest
          else checkInterfaceFields objectName fields implementation interfaceName rest) s () s
          ((t.type = t'.type ∧ (t.type.isSymbolicType = true →
            ∃ n n', t.name = some n ∧ t'.name = some n' ∧ n.identifier = n'.identifier)) ∧
              ∀ field ∈ rest, FieldFits s fields field.2) := by
        intro t t'
        split
        · next hother =>
          exact (hmismatch t t').passes.congr (iff_of_false not_false fun h => hother h.1.1)
        next hsame =>
        split
        · next hsymbolic =>
          refine Passes.congr (passes_require hs fun n _ => passes_require hs fun n' _ =>
            (?_ : Passes clean _ s () s (n.identifier = n'.identifier ∧
              ∀ field ∈ rest, FieldFits s fields field.2))) ?_
          · split
            · next hother =>
              exact (hmismatch t t').passes.congr (iff_of_false not_false fun h => hother h.1)
            · next hname =>
              exact ih.congr (iff_and_self.2 fun _ => not_not.1 hname)
          · constructor
            · rintro ⟨n, hn, n', hn', hname, hrest⟩
              exact ⟨⟨not_not.1 hsame, fun _ => ⟨n, n', hn, hn', hname⟩⟩, hrest⟩
            · rintro ⟨⟨-, hnames⟩, hrest⟩
              obtain ⟨n, n', hn, hn', hname⟩ := hnames hsymbolic
              exact ⟨n, hn, n', hn', hname, hrest⟩
        · next hscalar =>
          exact ih.congr (iff_and_self.2 fun _ => ⟨not_not.1 hsame, fun h => absurd h hscalar⟩)
      refine Passes.congr (passes_require hs fun t _ => passes_require hs fun t' _ => hfits t t') ?_
      constructor
      · rintro ⟨t, ht, t', ht', ⟨hsame, hnames⟩, hrest⟩
        exact ⟨⟨own, t, t', rfl, ht, ht', hsame, hnames⟩, hrest⟩
      · rintro ⟨⟨own', t, t', hown, ht, ht', hsame, hnames⟩, hrest⟩
        obtain rfl := Option.some.inj hown
        exact ⟨t, ht, t', ht', ⟨hsame, hnames⟩, hrest⟩

theorem passes_checkImplementation (hs : s ∈ clean) {object : Object}
    {implementation : Ustring × Name} :
    Passes clean (checkImplementation object implementation) s () s
      (ImplementationFits s object implementation) := by
  refine passes_after (passes_read hs) ?_
  unfold ImplementationFits
  cases s.members.interfaces.find? implementation.1 with
  | none => exact never_reportAt.passes.congr (iff_of_false not_false nofun)
  | some id =>
    simp only [Option.some.injEq, exists_eq_left']
    cases object.fields with
    | none => exact (passes_pure hs).congr (iff_of_true trivial nofun)
    | some fields =>
      simp only [Option.some.injEq, forall_eq']
      refine passes_declared hs fun d => ?_
      split
      · next i =>
        refine Passes.congr (passes_require hs fun interfaceFields _ => passes_require hs fun name _ =>
          passes_checkInterfaceFields hs interfaceFields.entries) ?_
        simp only [Declaration.interface.injEq, exists_eq_left', exists_and_right,
          Option.isSome_iff_exists]
      · next hother =>
        refine (passes_absent rfl).congr (iff_of_false not_false ?_)
        rintro ⟨i, rfl, -⟩
        exact hother i rfl

theorem passes_checkObjectImplementation (hs : s ∈ clean) (id : DeclarationId) :
    Passes clean (checkObjectImplementation id) s () s (ObjectFits s id) := by
  refine passes_declared hs fun d => ?_
  split
  · next object =>
    refine Passes.congr (passes_require hs fun implementations _ =>
      passes_forM hs fun implementation _ => passes_checkImplementation hs) ?_
    simp only [Declaration.object.injEq, exists_eq_left']
  · next hother =>
    refine (passes_absent rfl).congr (iff_of_false not_false ?_)
    rintro ⟨object, rfl, -⟩
    exact hother object rfl

theorem passes_checkUnionMember (hs : s ∈ clean) {name : Name} :
    Passes clean (checkUnionMember name) s () s
      (∃ symbol, s.members.symbols.find? name.identifier = some symbol ∧ symbol.kind = .object) := by
  refine passes_after (passes_read hs) ?_
  cases s.members.symbols.find? name.identifier with
  | none => exact never_reportAt.passes.congr (iff_of_false not_false nofun)
  | some symbol =>
    simp only [Option.some.injEq, exists_eq_left']
    exact (never_reportAt.passes_when hs).congr not_not

theorem passes_checkUnion (hs : s ∈ clean) (id : DeclarationId) :
    Passes clean (checkUnion id) s () s (UnionFits s id) := by
  refine passes_declared hs fun d => ?_
  split
  · next u =>
    refine Passes.congr (passes_forM hs fun member _ => passes_checkUnionMember hs) ?_
    simp only [Declaration.union.injEq, exists_eq_left']
  · next hother =>
    refine (passes_absent rfl).congr (iff_of_false not_false ?_)
    rintro ⟨u, rfl, -⟩
    exact hother u rfl

end Interfaces

/-! ## Acceptance -/

section Acceptance

variable {s : GraphQlSchema} {schema? : Option Schema}

theorem blockOf_roots (schema? : Option Schema) :
    (blockOf schema?).query = schema?.bind (·.query) ∧
      (blockOf schema?).mutation = schema?.bind (·.mutation) ∧
        (blockOf schema?).subscription = schema?.bind (·.subscription) := by
  cases schema? with
  | some schema => exact ⟨rfl, rfl, rfl⟩
  | none => exact ⟨rfl, rfl, rfl⟩

theorem visiting_rootedBy
    (htypes : TypesWellFormed s.pool.types s.members.forwardTypeReferences) :
    (s.rootedBy schema?).visiting s.members.forwardTypeReferences = s.linkedBy schema? :=
  visiting_eq_map (s := s.rootedBy schema?) htypes

theorem passes_link (schema? : Option Schema) (hs : s ∈ clean)
    (htypes : TypesWellFormed s.pool.types s.members.forwardTypeReferences) :
    Passes clean checkForwardReferences (s.rootedBy schema?) () (s.linkedBy schema?)
      (∀ turn ∈ turns [] s.members.forwardTypeReferences, Links s.typeGraph turn) := by
  rw [← visiting_rootedBy htypes]
  exact passes_checkForwardReferences (s := s.rootedBy schema?) hs htypes

theorem constructed_linkedBy (hs : s ∈ clean) (hwf : WellFormed NoneOpen s.pool s.members)
    (hroots : RootsResolve s.members.symbols (blockOf schema?))
    (hlinks : ∀ turn ∈ turns [] s.members.forwardTypeReferences, Links s.typeGraph turn) :
    Constructed (s.linkedBy schema?) := by
  have hends := (passes_link schema? hs hwf.types () _).2 ⟨hlinks, rfl, rfl⟩
  have hlinked := ensures_checkForwardReferences hwf.types.parsed (s.rootedBy schema?) _ _
    ⟨rfl, rfl⟩ hends
  obtain ⟨hquery, hmutation, hsubscription⟩ := blockOf_roots schema?
  have hfrom : RootsFrom s.members.symbols schema? (s.rootedBy schema?).members := by
    refine ⟨?_, ?_, ?_, ?_⟩
    · rw [← hquery]
      exact Option.isSome_iff_ne_none.2 hroots.query
    · rw [← hquery]
      rfl
    · rw [← hmutation]
      rfl
    · rw [← hsubscription]
      rfl
  exact constructed_of_linking hwf hfrom rfl hlinked.1 hlinked.2

/-- **The passes come to their end without a report exactly if the schema is valid.** -/
theorem passes_checkSchema (hs : s ∈ clean) (hwf : WellFormed NoneOpen s.pool s.members)
    (hkinds : ∀ name symbol, s.members.symbols.find? name = some symbol →
      ∃ d, s.pool.declarations[symbol.declaration]? = some d ∧ d.kind = symbol.kind)
    (hkeyed : ∀ directive ∈ s.directives, directive.Keyed) :
    Passes clean (checkSchema schema?) s () (s.linkedBy schema?) (Valid s schema?) := by
  have ht : s.linkedBy schema? ∈ clean := hs
  obtain ⟨schema, hschema, hset, hresolve⟩ := passes_schemaOrEmpty schema? hs
  have hroots : Passes clean (setRootTypes schema) s () (s.rootedBy schema?)
      (RootsResolve s.members.symbols (blockOf schema?)) := by
    rw [rootedBy, ← hset]
    exact (passes_setRootTypes hs).congr (hresolve _)
  have hobjects : Passes clean checkObjectImplementations (s.linkedBy schema?) ()
      (s.linkedBy schema?)
      (∀ id ∈ s.members.objectsWithImplementations, ObjectFits (s.linkedBy schema?) id) :=
    passes_after (passes_read ht) (passes_forM ht fun id _ => passes_checkObjectImplementation ht id)
  have hunions : Passes clean checkUnionMembers (s.linkedBy schema?) () (s.linkedBy schema?)
      (∀ id ∈ s.members.unions, UnionFits (s.linkedBy schema?) id) :=
    passes_after (passes_read ht) (passes_forM ht fun id _ => passes_checkUnion ht id)
  refine Passes.congr (passes_after hschema (passes_bind_of hroots fun hroots =>
    passes_bind_of (passes_link schema? hs hwf.types) fun hlinks => passes_bind (a := ())
      (passes_after (passes_read ht) (passes_forM ht fun directive hdirective =>
        passes_checkDirectiveReference ht (constructed_linkedBy hs hwf hroots hlinks)
          (hkeyed directive hdirective)))
      (passes_bind hobjects hunions))) ?_
  rw [forall_links_iff hwf hkinds]
  constructor
  · rintro ⟨hroots, hreferences, hdirectives, hobjects, hunions⟩
    exact ⟨hroots, hreferences, hdirectives, hobjects, hunions⟩
  · rintro ⟨hroots, hreferences, hdirectives, hobjects, hunions⟩
    exact ⟨hroots, hreferences, hdirectives, hobjects, hunions⟩

/-- **A source is accepted exactly if it is parsed without a report and what it reads as is valid.** -/
theorem accepts_iff {source : Ustring} {schema : GraphQlSchema} :
    Accepts source schema ↔ ∃ schema? parsed,
      Ends clean (parseDocument source) (initial source) schema? parsed ∧ Valid parsed schema? ∧
        schema = linkedBy parsed schema? := by
  have hrun : Accepts source schema ↔ Ends clean (construct source) (initial source) () schema := .rfl
  rw [hrun]
  unfold construct
  rw [ends_bind]
  refine exists_congr fun schema? => exists_congr fun parsed => and_congr_right fun hparse => ?_
  obtain ⟨token, s₁, htoken, hloop⟩ := ends_bind.1 hparse
  have hinitial := ensures_quiet quiet_takeToken _ _ _ (wellFormed_initial source) htoken
  have hwf := wellFormed_parseDefinitions _ _ _ _ _ _ hinitial hloop
  have hkeyed : ∀ directive ∈ parsed.directives, directive.Keyed := by
    have hsteady : Steady .unknownArgument0 (initial source) parsed :=
      @steady_parseDocument .unknownArgument0 rfl rfl (by decide) source _ _ _ hparse.1
    exact (hsteady (regular_initial source)).1.keyed
  rw [passes_checkSchema hparse.stays hwf (tabled_parseDocument hparse.1).kinds hkeyed () schema]
  exact ⟨fun h => ⟨h.1, h.2.2⟩, fun h => ⟨h.1, rfl, h.2⟩⟩

end Acceptance

end GraphQlSchema

end Flashpoint
