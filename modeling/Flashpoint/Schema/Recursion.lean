import Flashpoint.Library.Paths
import Flashpoint.Schema.Tables

/-!
# The search for recursive directives

`check_recursive_directives` walks from the type of an argument of a directive through the types of the
input fields it finds there. It keeps no account of where it was, so it ends exactly if no input object
on its way contains itself. It goes on where a field has the tag of an object, and the loop that starts
the walks changes the tags of the types that name enumerations, so an enumeration that was seen before
is left out.
-/

namespace Flashpoint

open Library Climb Relation

/-- The declaration, one of its fields or one of its values carries the directive. -/
def Declaration.annotated (directive : Ustring) : Declaration → Bool
  | .inputObject o => (o.directives.find? directive).isSome ||
      (o.fields.elim [] (·.entries)).any fun f => (f.2.directives.find? directive).isSome
  | .enum e => (e.directives.find? directive).isSome ||
      e.values.entries.any fun v => (v.2.directives.find? directive).isSome
  | _ => false

/-- What the search reads, but for the tags of the type nodes. -/
structure TypeGraph where
  scanner : GraphQlScanner
  symbols : UstringMap Symbol
  declarations : List Declaration
  types : List TypeNode

namespace TypeGraph

variable (g : TypeGraph)

/-- The declaration a name stands for. -/
def declarationNamed (name : Ustring) : Option Declaration :=
  (g.symbols.find? name).bind fun symbol => g.declarations[symbol.declaration]?

/-- The fields of the input object a name stands for. -/
def inputFields (name : Ustring) : List InputFieldDefinition :=
  match g.declarationNamed name with
  | some (.inputObject o) => (o.fields.elim [] (·.entries)).map Prod.snd
  | _ => []

/-- The name of the type under an index. -/
def typeName (id : TypeId) : Option Ustring :=
  g.types[id]?.bind fun t => t.name.map (·.identifier)

/-- The type is passed over: it names an enumeration and was visited. -/
def skips (visited : List TypeId) (id : TypeId) (name : Ustring) : Bool :=
  id ∈ visited && GraphQlSchema.namesEnum g.symbols name

/-- A field of the first has the second as its type, and is not passed over. -/
def HasField (visited : List TypeId) (a b : Ustring) : Prop :=
  ∃ field ∈ g.inputFields a, g.typeName field.type = some b ∧ g.skips visited field.type b = false

instance (visited : List TypeId) : DecidableRel (g.HasField visited) := fun a _ =>
  inferInstanceAs (Decidable (∃ field ∈ g.inputFields a, _))

/-- Something that carries the directive can be reached. -/
def ReachesAnnotated (visited : List TypeId) (directive a : Ustring) : Prop :=
  ∃ b, ReflTransGen (g.HasField visited) a b ∧
    (g.declarationNamed b).any (·.annotated directive) = true

/-- The name stands for an enumeration, or for an input object with fields that have types. -/
def Walkable (name : Ustring) : Prop :=
  match g.declarationNamed name with
  | some (.inputObject o) => o.fields.isSome = true ∧
      ∀ field ∈ g.inputFields name, g.types[field.type]?.isSome = true
  | some (.enum _) => True
  | _ => False

instance : DecidablePred g.Walkable := fun name =>
  match hd : g.declarationNamed name with
  | some (.inputObject o) => decidable_of_iff (o.fields.isSome = true ∧
      ∀ field ∈ g.inputFields name, g.types[field.type]?.isSome = true) (by rw [Walkable, hd])
  | some (.enum _) => .isTrue (by rw [Walkable, hd]; trivial)
  | some (.object _) => .isFalse (by rw [Walkable, hd]; exact id)
  | some (.interface _) => .isFalse (by rw [Walkable, hd]; exact id)
  | some (.union _) => .isFalse (by rw [Walkable, hd]; exact id)
  | none => .isFalse (by rw [Walkable, hd]; exact id)

/-- The walk from the name ends within the bound. -/
def Walks (visited : List TypeId) : Nat → Ustring → Prop
  | 0, _ => False
  | n + 1, a => g.Walkable a ∧ ∀ b, g.HasField visited a b → Walks visited n b

/-- The node can be located. -/
def Located (span : Span) : Prop :=
  (g.scanner.getTokenLocation span.start span.stop).isSome = true

instance : DecidablePred g.Located := fun _ => inferInstanceAs (Decidable (_ = true))

variable {g}

theorem walks_iff {visited : List TypeId} {n : Nat} {a : Ustring} :
    g.Walks visited n a ↔ Bounded (g.HasField visited) n a ∧
      ∀ b, ReflTransGen (g.HasField visited) a b → g.Walkable b := by
  induction n generalizing a with
  | zero => exact iff_of_false id fun h => h.1
  | succ n ih =>
    constructor
    · rintro ⟨hwalkable, hwalks⟩
      refine ⟨fun b hab => (ih.1 (hwalks b hab)).1, fun b hab => ?_⟩
      rcases hab.cases_head with rfl | ⟨c, hac, hcb⟩
      · exact hwalkable
      · exact (ih.1 (hwalks c hac)).2 b hcb
    · rintro ⟨hbounded, hwalkable⟩
      exact ⟨hwalkable a .refl, fun b hab => ih.2 ⟨hbounded b hab, fun c hbc =>
        hwalkable c (.head hab hbc)⟩⟩

/-- A name whose declaration has input fields is that of an input object. -/
theorem exists_of_mem_inputFields {a : Ustring} {field : InputFieldDefinition}
    (h : field ∈ g.inputFields a) : ∃ o, g.declarationNamed a = some (.inputObject o) := by
  unfold inputFields at h
  split at h
  · next o ho => exact ⟨o, ho⟩
  · exact absurd h List.not_mem_nil

theorem reachesAnnotated_iff {visited : List TypeId} {directive a : Ustring} :
    g.ReachesAnnotated visited directive a ↔
      (g.declarationNamed a).any (·.annotated directive) = true ∨
        ∃ b, g.HasField visited a b ∧ g.ReachesAnnotated visited directive b := by
  constructor
  · rintro ⟨c, hac, hannotated⟩
    rcases hac.cases_head with rfl | ⟨b, hab, hbc⟩
    · exact .inl hannotated
    · exact .inr ⟨b, hab, c, hbc, hannotated⟩
  · rintro (hannotated | ⟨b, hab, c, hbc, hannotated⟩)
    · exact ⟨a, .refl, hannotated⟩
    · exact ⟨c, .head hab hbc, hannotated⟩

theorem not_hasField_of_enum {visited : List TypeId} {a b : Ustring} {e : EnumTypeDefinition}
    (ha : g.declarationNamed a = some (.enum e)) : ¬ g.HasField visited a b := by
  rintro ⟨field, hfield, -⟩
  obtain ⟨o, ho⟩ := exists_of_mem_inputFields hfield
  cases ha.symm.trans ho

theorem walks_enum {visited : List TypeId} {n : Nat} {a : Ustring} {e : EnumTypeDefinition}
    (ha : g.declarationNamed a = some (.enum e)) : g.Walks visited (n + 1) a := by
  refine ⟨?_, fun b hab => absurd hab (not_hasField_of_enum ha)⟩
  rw [Walkable, ha]
  trivial

theorem reachesAnnotated_enum {visited : List TypeId} {directive a : Ustring}
    {e : EnumTypeDefinition} (ha : g.declarationNamed a = some (.enum e)) :
    g.ReachesAnnotated visited directive a ↔ (Declaration.enum e).annotated directive = true := by
  rw [reachesAnnotated_iff, ha, Option.any_some]
  exact or_iff_left fun ⟨b, hab, _⟩ => not_hasField_of_enum ha hab

theorem hasField_of_visited {visited : List TypeId} {a b : Ustring} (h : g.HasField visited a b) :
    g.HasField [] a b := by
  obtain ⟨field, hfield, hname, -⟩ := h
  exact ⟨field, hfield, hname, rfl⟩

theorem reachesAnnotated_nil {visited : List TypeId} {directive a : Ustring}
    (h : g.ReachesAnnotated visited directive a) : g.ReachesAnnotated [] directive a := by
  obtain ⟨b, hab, hannotated⟩ := h
  exact ⟨b, ReflTransGen.mono (fun _ _ hxy => hasField_of_visited hxy) a b hab, hannotated⟩

/-- A step that is not taken leads to an enumeration. -/
theorem hasField_or_namesEnum {visited : List TypeId} {a b : Ustring} (h : g.HasField [] a b) :
    g.HasField visited a b ∨ GraphQlSchema.namesEnum g.symbols b = true := by
  obtain ⟨field, hfield, hname, -⟩ := h
  by_cases henum : GraphQlSchema.namesEnum g.symbols b = true
  · exact .inr henum
  · refine .inl ⟨field, hfield, hname, ?_⟩
    rw [skips, Bool.of_not_eq_true henum, Bool.and_false]

/-- Where no input object contains itself, a walk passes every declaration at most once. -/
theorem walks_of_acyclicFrom {visited : List TypeId} {a : Ustring}
    (hacyclic : AcyclicFrom (g.HasField []) a)
    (hwalkable : ∀ b, ReflTransGen (g.HasField []) a b → g.Walkable b) :
    g.Walks visited (g.declarations.length + 1) a := by
  have hkey : ∀ name, g.declarationNamed name =
      ((g.symbols.find? name).map (·.declaration)).bind (g.declarations[·]?) := by
    intro name
    rw [declarationNamed, Option.bind_map]
    rfl
  refine walks_iff.2 ⟨Bounded.of_imp (fun _ _ => hasField_of_visited) (hacyclic.bounded
    (fun a => (g.symbols.find? a).map (·.declaration)) ?_ ?_), fun b hab => hwalkable b ?_⟩
  · rintro x y ⟨field, hfield, -⟩
    obtain ⟨o, ho⟩ := exists_of_mem_inputFields hfield
    obtain ⟨symbol, hsymbol, hd⟩ := Option.bind_eq_some_iff.1 ho
    exact ⟨symbol.declaration, by rw [hsymbol]; rfl, (List.getElem?_eq_some_iff.1 hd).1⟩
  · rintro x x' y hsame ⟨field, hfield, hname⟩
    refine ⟨field, ?_, hname⟩
    unfold inputFields at hfield ⊢
    rwa [hkey x', ← hsame, ← hkey x]
  · exact ReflTransGen.mono (fun _ _ hxy => hasField_of_visited hxy) a b hab

section Kinds

variable (hkinds : ∀ name symbol, g.symbols.find? name = some symbol →
  ∃ d, g.declarations[symbol.declaration]? = some d ∧ d.kind = symbol.kind)
include hkinds

theorem namesEnum_iff {name : Ustring} :
    GraphQlSchema.namesEnum g.symbols name = true ↔ ∃ e, g.declarationNamed name = some (.enum e) := by
  unfold GraphQlSchema.namesEnum declarationNamed
  cases hsymbol : g.symbols.find? name with
  | none => exact iff_of_false Bool.false_ne_true nofun
  | some symbol =>
    obtain ⟨d, hd, hkind⟩ := hkinds name symbol hsymbol
    rw [Option.any_some, decide_eq_true_eq, ← hkind, Option.bind_some, hd]
    cases d with
    | enum e => exact iff_of_true rfl ⟨e, rfl⟩
    | _ => exact iff_of_false nofun nofun

/-- Within whatever bound a walk ends, no input object that it reaches contains itself. -/
theorem acyclicFrom_of_walks {visited : List TypeId} {n : Nat} {a : Ustring}
    (h : g.Walks visited n a) :
    AcyclicFrom (g.HasField []) a ∧ ∀ b, ReflTransGen (g.HasField []) a b → g.Walkable b := by
  obtain ⟨hbounded, hwalkable⟩ := walks_iff.1 h
  have hsteps : ∀ x y z, g.HasField [] x y → g.HasField [] y z → g.HasField visited x y := by
    intro x y z hxy hyz
    refine (hasField_or_namesEnum hxy).resolve_right fun henum => ?_
    obtain ⟨e, he⟩ := (namesEnum_iff hkinds).1 henum
    exact not_hasField_of_enum he hyz
  refine ⟨hbounded.acyclicFrom hsteps, fun b hab => ?_⟩
  -- an enumeration that is passed over is an end of the way
  rcases hab.cases_tail with rfl | ⟨c, hac, hcb⟩
  · exact hwalkable _ .refl
  rcases hasField_or_namesEnum hcb with hcb' | henum
  · refine hwalkable b (.tail ?_ hcb')
    clear hcb' hab
    induction hac generalizing b with
    | refl => exact .refl
    | tail hax hxy ih => exact .tail (ih _ hxy) (hsteps _ _ _ hxy hcb)
  · obtain ⟨e, he⟩ := (namesEnum_iff hkinds).1 henum
    rw [Walkable, he]
    trivial

end Kinds

end TypeGraph

namespace GraphQlSchema

open ParserM

/-- The tables that the search reads. -/
def typeGraph (s : GraphQlSchema) : TypeGraph where
  scanner := s.scanner
  symbols := s.members.symbols
  declarations := s.pool.declarations
  types := s.pool.types.map TypeNode.untagged

/-! ## One walk -/

/-- From the state, whatever was reported before, the computation returns exactly if `ends` and the
report can be made where it is to be made; it makes no other report, and this one exactly if
`reports`. -/
def Walked (s : GraphQlSchema) (m : SchemaM Unit) (report : Option DiagnosticMessage)
    (ends reports : Prop) : Prop :=
  (∀ ds u s', m.run { s with diagnostics := ds } = .ok u s' →
    (ends ∧ (reports → report.isSome = true)) ∧ ∃ new, s' = { s with diagnostics := ds ++ new } ∧
      (∀ d ∈ new, report = some d) ∧ (new ≠ [] ↔ reports)) ∧
  (ends → (reports → report.isSome = true) →
    ∀ ds, ∃ u s', m.run { s with diagnostics := ds } = .ok u s')

section Walked

variable {α : Type} {s : GraphQlSchema} {report : Option DiagnosticMessage}
  {ends ends' reports reports' : Prop}

theorem Walked.congr {m : SchemaM Unit} (h : Walked s m report ends reports)
    (hends : ends ↔ ends') (hreports : ends → (reports ↔ reports')) :
    Walked s m report ends' reports' := by
  refine ⟨fun ds u s' hrun => ?_, fun hends' hreport => ?_⟩
  · obtain ⟨⟨hend, hreport⟩, new, hstate, hnew, hnonempty⟩ := h.1 ds u s' hrun
    have hiff := hreports hend
    exact ⟨⟨hends.1 hend, fun h => hreport (hiff.2 h)⟩, new, hstate, hnew, hnonempty.trans hiff⟩
  · have hend := hends.2 hends'
    exact h.2 hend fun h => hreport ((hreports hend).1 h)

theorem walked_pure : Walked s (pure ()) report True False := by
  refine ⟨fun ds u s' hrun => ?_, fun _ _ ds => ⟨(), _, rfl⟩⟩
  obtain ⟨-, rfl⟩ := Outcome.ok.inj hrun
  exact ⟨⟨trivial, False.elim⟩, [], by rw [List.append_nil], fun d hd => absurd hd List.not_mem_nil,
    iff_of_false (fun h => h rfl) id⟩

theorem walked_bind {m : SchemaM Unit} {f : Unit → SchemaM Unit}
    (hm : Walked s m report ends reports) (hf : Walked s (f ()) report ends' reports') :
    Walked s (m >>= f) report (ends ∧ ends') (reports ∨ reports') := by
  refine ⟨fun ds u s' hrun => ?_, fun hends hreport ds => ?_⟩
  · obtain ⟨_, s₁, hfirst, hrest⟩ := run_bind_eq_ok.1 hrun
    obtain ⟨⟨hend, hreport⟩, new, rfl, hnew, hnonempty⟩ := hm.1 ds _ s₁ hfirst
    obtain ⟨⟨hend', hreport'⟩, new', rfl, hnew', hnonempty'⟩ := hf.1 _ u s' hrest
    refine ⟨⟨⟨hend, hend'⟩, fun h => h.elim hreport hreport'⟩, new ++ new', by rw [List.append_assoc],
      fun d hd => (List.mem_append.1 hd).elim (hnew d) (hnew' d), ?_⟩
    rw [← hnonempty, ← hnonempty', ne_eq, List.append_eq_nil_iff, not_and_or]
  · obtain ⟨u, s₁, hfirst⟩ := hm.2 hends.1 (fun h => hreport (.inl h)) ds
    obtain ⟨-, new, rfl, -⟩ := hm.1 ds u s₁ hfirst
    obtain ⟨u', s', hrest⟩ := hf.2 hends.2 (fun h => hreport (.inr h)) (ds ++ new)
    exact ⟨u', s', run_bind_eq_ok.2 ⟨u, _, hfirst, hrest⟩⟩

theorem walked_require {e : Stop} {f : GraphQlSchema → Option α} {k : α → SchemaM Unit} {a : α}
    (hf : ∀ ds, f { s with diagnostics := ds } = some a) (h : Walked s (k a) report ends reports) :
    Walked s (Climb.require e f >>= k) report ends reports := by
  have hrun : ∀ ds, (Climb.require e f >>= k).run { s with diagnostics := ds } =
      (k a).run { s with diagnostics := ds } := fun ds => run_bind_ok (run_require_some (hf ds))
  unfold Walked
  simp only [hrun]
  exact h

theorem walked_absent {e : Stop} {f : GraphQlSchema → Option α} {k : α → SchemaM Unit}
    (hf : ∀ ds, f { s with diagnostics := ds } = none) (hends : ¬ ends) :
    Walked s (Climb.require e f >>= k) report ends reports := by
  refine ⟨fun ds u s' hrun => ?_, fun h => absurd h hends⟩
  obtain ⟨a, _, hrequire, -⟩ := run_bind_eq_ok.1 hrun
  cases (hf ds).symm.trans (run_require_eq_ok.1 hrequire).1

theorem walked_follow_some {a : α} {k : α → SchemaM Unit} (h : Walked s (k a) report ends reports) :
    Walked s (follow (some a) >>= k) report ends reports :=
  walked_require (e := .absentRead) (f := fun _ => some a) (fun _ => rfl) h

theorem walked_follow_none {k : α → SchemaM Unit} :
    Walked s (follow none >>= k) report False False :=
  walked_absent (e := .absentRead) (f := fun _ => none) (fun _ => rfl) id

theorem walked_deref_none (hends : ¬ ends) :
    Walked s (deref fun _ => none) report ends reports := by
  refine ⟨fun ds u s' hrun => ?_, fun h => absurd h hends⟩
  cases (run_require_eq_ok.1 hrun).1

theorem walked_forM {xs : List α} {f : α → SchemaM PUnit} {ends reports : α → Prop}
    (hf : ∀ x ∈ xs, Walked s (f x) report (ends x) (reports x)) :
    Walked s (xs.forM f) report (∀ x ∈ xs, ends x) (∃ x ∈ xs, reports x) := by
  induction xs with
  | nil =>
    refine walked_pure.congr (iff_of_true trivial fun x hx => absurd hx List.not_mem_nil) fun _ => ?_
    exact iff_of_false id fun ⟨x, hx, _⟩ => absurd hx List.not_mem_nil
  | cons x xs ih =>
    rw [List.forall_mem_cons] at hf
    refine (walked_bind hf.1 (ih hf.2)).congr List.forall_mem_cons.symm fun _ => ?_
    simp only [List.exists_mem_cons_iff]

end Walked

theorem walked_reportRecursion {s : GraphQlSchema} {parent : Ustring} {location : Span}
    {directives : UstringMap Directive} :
    Walked s (reportRecursion parent location directives)
      (reportAt s location .cannotAnnotateWithATypeThatRecursivelyReferencesTheDirective0
        ['@' :: parent]) True ((directives.find? parent).isSome = true) := by
  unfold reportRecursion when
  split
  · next hfind =>
    refine ⟨fun ds u s' hrun => ?_, fun _ hreport ds => ?_⟩
    · obtain ⟨new, hnew, rfl⟩ := tells_reportAt ds u s' hrun
      obtain ⟨d, rfl⟩ : ∃ d, new = [d] := by
        have hlength := congrArg List.length hnew
        rw [List.length_map, List.length_singleton] at hlength
        exact List.length_eq_one_iff.1 hlength
      have hd := List.head_eq_of_cons_eq hnew
      refine ⟨⟨trivial, fun _ => by rw [← hd]; rfl⟩, [d], rfl, fun d' hd' => ?_,
        iff_of_true (List.cons_ne_nil _ _) hfind⟩
      rw [List.mem_singleton.1 hd', hd]
    · obtain ⟨d, hd⟩ := Option.isSome_iff_exists.1 (hreport hfind)
      obtain ⟨l, hl, -⟩ := Option.map_eq_some_iff.1 hd
      exact ⟨(), _, run_bind_eq_ok.2 ⟨l, _, run_require_some hl, rfl⟩⟩
  · next hfind => exact walked_pure.congr Iff.rfl fun _ => iff_of_false id hfind

section Walk

variable {s : GraphQlSchema} {visited : List TypeId}

theorem typeGraph_type {id : TypeId} {t : TypeNode} (ht : s.pool.types[id]? = some t) :
    s.typeGraph.types[id]? = some t.untagged := by
  rw [typeGraph, List.getElem?_map, ht]
  rfl

theorem typeGraph_typeName {id : TypeId} {t : TypeNode} (ht : s.pool.types[id]? = some t) :
    s.typeGraph.typeName id = t.name.map (·.identifier) := by
  rw [TypeGraph.typeName, typeGraph_type ht]
  rfl

theorem declarationNamed_eq {name : Ustring} {symbol : Symbol} {d : Declaration}
    (hsymbol : s.members.symbols.find? name = some symbol)
    (hd : s.pool.declarations[symbol.declaration]? = some d) :
    s.typeGraph.declarationNamed name = some d := by
  rw [TypeGraph.declarationNamed, typeGraph, hsymbol, Option.bind_some, hd]

/-- A field is followed exactly if its type has a name and is not passed over. -/
theorem type_eq_object_iff (htagged : Tagged s.members.symbols visited s.pool.types) {id : TypeId}
    {t : TypeNode} (ht : s.pool.types[id]? = some t) :
    t.type = .object ↔ ∃ b, s.typeGraph.typeName id = some b ∧
      s.typeGraph.skips visited id b = false := by
  rw [typeGraph_typeName ht]
  cases hname : t.name with
  | none =>
    refine iff_of_false (fun htype => ?_) nofun
    have hscalar := htagged.unnamed t (List.mem_of_getElem? ht) hname
    rw [htype] at hscalar
    cases hscalar
  | some n =>
    rw [htagged.named id t n ht hname]
    simp only [Option.map_some, Option.some.injEq, exists_eq_left', TypeGraph.skips, typeGraph,
      Bool.and_eq_false_imp, decide_eq_true_eq]
    split
    · next hboth => exact iff_of_false nofun fun h => by rw [h hboth.1] at hboth; cases hboth.2
    · next hboth =>
      exact iff_of_true rfl fun hvisited => Bool.of_not_eq_true fun h => hboth ⟨hvisited, h⟩

/-- A field of an input object. -/
theorem walked_inputField (htagged : Tagged s.members.symbols visited s.pool.types)
    {parent : Ustring} {location : Span} {fuel : Nat} (id : TypeId)
    (ih : ∀ {type : TypeNode} {name : Name}, type.name = some name →
      Walked s (checkRecursiveDirectives parent location fuel type)
        (reportAt s location .cannotAnnotateWithATypeThatRecursivelyReferencesTheDirective0
          ['@' :: parent])
        (s.typeGraph.Walks visited fuel name.identifier)
        (s.typeGraph.ReachesAnnotated visited parent name.identifier)) :
    Walked s (do
      let fieldType ← typeNode id
      when (fieldType.type = .object) (checkRecursiveDirectives parent location fuel fieldType))
      (reportAt s location .cannotAnnotateWithATypeThatRecursivelyReferencesTheDirective0
        ['@' :: parent])
      (s.typeGraph.types[id]?.isSome = true ∧ ∀ b, s.typeGraph.typeName id = some b →
        s.typeGraph.skips visited id b = false → s.typeGraph.Walks visited fuel b)
      (∃ b, (s.typeGraph.typeName id = some b ∧ s.typeGraph.skips visited id b = false) ∧
        s.typeGraph.ReachesAnnotated visited parent b) := by
  cases ht : s.pool.types[id]? with
  | none =>
    refine walked_absent (fun _ => ht) fun h => ?_
    rw [typeGraph, List.getElem?_map, ht] at h
    cases h.1
  | some t =>
    refine walked_require (fun _ => ht) ?_
    have hobject := type_eq_object_iff htagged ht
    have hsome : s.typeGraph.types[id]?.isSome = true := by rw [typeGraph_type ht]; rfl
    unfold when
    split
    · next htype =>
      obtain ⟨b, hb, hskips⟩ := hobject.1 htype
      have hname := hb
      rw [typeGraph_typeName ht] at hname
      obtain ⟨n, hn, rfl⟩ := Option.map_eq_some_iff.1 hname
      refine (ih hn).congr ⟨fun h => ⟨hsome, fun b' hb' _ => ?_⟩, fun h => h.2 _ hb hskips⟩
        fun _ => ⟨fun h => ⟨_, ⟨hb, hskips⟩, h⟩, fun ⟨b', hb', h⟩ => ?_⟩
      · exact Option.some.inj (hb.symm.trans hb') ▸ h
      · exact Option.some.inj (hb.symm.trans hb'.1) ▸ h
    · next htype =>
      refine walked_pure.congr (iff_of_true trivial ⟨hsome, fun b hb hskips => ?_⟩) fun _ =>
        iff_of_false False.elim fun ⟨b, hb, _⟩ => htype (hobject.2 ⟨b, hb⟩)
      exact absurd (hobject.2 ⟨b, hb, hskips⟩) htype

theorem walked_inputObject (htagged : Tagged s.members.symbols visited s.pool.types)
    {parent : Ustring} {location : Span} {fuel : Nat} {a : Ustring} {o : InputObject}
    (hnamed : s.typeGraph.declarationNamed a = some (.inputObject o))
    (ih : ∀ {type : TypeNode} {name : Name}, type.name = some name →
      Walked s (checkRecursiveDirectives parent location fuel type)
        (reportAt s location .cannotAnnotateWithATypeThatRecursivelyReferencesTheDirective0
          ['@' :: parent])
        (s.typeGraph.Walks visited fuel name.identifier)
        (s.typeGraph.ReachesAnnotated visited parent name.identifier)) :
    Walked s (do
      reportRecursion parent location o.directives
      let fields ← follow o.fields
      fields.entries.forM fun f => do
        reportRecursion parent location f.2.directives
        let fieldType ← typeNode f.2.type
        when (fieldType.type = .object) (checkRecursiveDirectives parent location fuel fieldType))
      (reportAt s location .cannotAnnotateWithATypeThatRecursivelyReferencesTheDirective0
        ['@' :: parent])
      (s.typeGraph.Walks visited (fuel + 1) a) (s.typeGraph.ReachesAnnotated visited parent a) := by
  cases hfields : o.fields with
  | none =>
    refine (walked_bind walked_reportRecursion walked_follow_none).congr
      (iff_of_false And.right fun h => ?_) fun h => h.2.elim
    have hwalkable := h.1
    rw [TypeGraph.Walkable, hnamed] at hwalkable
    have hsome := hwalkable.1
    rw [hfields] at hsome
    cases hsome
  | some fields =>
    have hinput : s.typeGraph.inputFields a = fields.entries.map Prod.snd := by
      rw [TypeGraph.inputFields, hnamed]
      simp only [hfields, Option.elim_some]
    refine (walked_bind walked_reportRecursion (walked_follow_some (walked_forM fun f _ =>
      walked_bind walked_reportRecursion (walked_inputField htagged f.2.type ih)))).congr ?_ fun _ => ?_
    · rw [TypeGraph.Walks, TypeGraph.Walkable, hnamed]
      simp only [hfields, Option.isSome_some, true_and, hinput, List.forall_mem_map]
      refine ⟨fun h => ⟨fun f hf => (h f hf).1, ?_⟩, fun h f hf => ⟨h.1 f hf, fun b hb hskips => ?_⟩⟩
      · rintro b ⟨field, hfield, hb, hskips⟩
        rw [hinput] at hfield
        obtain ⟨f, hf, rfl⟩ := List.mem_map.1 hfield
        exact (h f hf).2 b hb hskips
      · exact h.2 b ⟨f.2, hinput ▸ List.mem_map_of_mem hf, hb, hskips⟩
    · rw [TypeGraph.reachesAnnotated_iff, hnamed, Option.any_some, Declaration.annotated,
        Bool.or_eq_true, List.any_eq_true, or_assoc]
      refine or_congr Iff.rfl ?_
      rw [hfields, Option.elim_some]
      constructor
      · rintro ⟨f, hf, hannotated | ⟨b, hb, hreaches⟩⟩
        · exact .inl ⟨f, hf, hannotated⟩
        · exact .inr ⟨b, ⟨f.2, hinput ▸ List.mem_map_of_mem hf, hb⟩, hreaches⟩
      · rintro (⟨f, hf, hannotated⟩ | ⟨b, ⟨field, hfield, hb⟩, hreaches⟩)
        · exact ⟨f, hf, .inl hannotated⟩
        · rw [hinput] at hfield
          obtain ⟨f, hf, rfl⟩ := List.mem_map.1 hfield
          exact ⟨f, hf, .inr ⟨b, hb, hreaches⟩⟩

/-- **The walk returns exactly if it ends within its bound and what it reports can be located, and it
reports exactly if it reaches something that carries the directive.** -/
theorem walked_checkRecursiveDirectives
    (htagged : Tagged s.members.symbols visited s.pool.types) (parent : Ustring) (location : Span)
    (fuel : Nat) {type : TypeNode} {name : Name} (hname : type.name = some name) :
    Walked s (checkRecursiveDirectives parent location fuel type)
      (reportAt s location .cannotAnnotateWithATypeThatRecursivelyReferencesTheDirective0
        ['@' :: parent])
      (s.typeGraph.Walks visited fuel name.identifier)
      (s.typeGraph.ReachesAnnotated visited parent name.identifier) := by
  induction fuel generalizing type name with
  | zero => exact ⟨nofun, False.elim⟩
  | succ fuel ih =>
    unfold checkRecursiveDirectives
    refine walked_require (fun _ => hname) ?_
    cases hsymbol : s.members.symbols.find? name.identifier with
    | none =>
      refine walked_absent (fun _ => hsymbol) fun h => ?_
      have hwalkable := h.1
      rw [TypeGraph.Walkable, TypeGraph.declarationNamed, typeGraph, hsymbol] at hwalkable
      exact hwalkable
    | some symbol =>
      refine walked_require (fun _ => hsymbol) ?_
      cases hd : s.pool.declarations[symbol.declaration]? with
      | none =>
        refine walked_absent (fun _ => hd) fun h => ?_
        have hwalkable := h.1
        rw [TypeGraph.Walkable, TypeGraph.declarationNamed, typeGraph, hsymbol, Option.bind_some,
          hd] at hwalkable
        exact hwalkable
      | some d =>
        refine walked_require (fun _ => hd) ?_
        have hnamed := declarationNamed_eq hsymbol hd
        cases d with
        | inputObject o => exact walked_inputObject htagged hnamed fun hname => ih hname
        | enum e =>
          refine (walked_bind walked_reportRecursion (walked_forM fun v _ =>
            walked_reportRecursion)).congr (iff_of_true (by simp only [implies_true, and_self])
              (TypeGraph.walks_enum hnamed)) fun _ => ?_
          rw [TypeGraph.reachesAnnotated_enum hnamed, Declaration.annotated, Bool.or_eq_true,
            List.any_eq_true]
        | _ =>
          refine walked_deref_none fun h => ?_
          have hwalkable := h.1
          rw [TypeGraph.Walkable, hnamed] at hwalkable
          exact hwalkable

end Walk

/-! ## One turn of the loop -/

/-- From the first state, whatever was reported before, the computation returns exactly if `ends`, and
then in the second state with new reports of the given sort. -/
def Says (s s₁ : GraphQlSchema) (m : SchemaM Unit) (ends : Prop)
    (sort : List DiagnosticMessage → Prop) : Prop :=
  (∀ ds u s', m.run { s with diagnostics := ds } = .ok u s' →
    ends ∧ ∃ new, s' = { s₁ with diagnostics := ds ++ new } ∧ sort new) ∧
  (ends → ∀ ds, ∃ u s', m.run { s with diagnostics := ds } = .ok u s')

/-- No report of the search. -/
def Silent (new : List DiagnosticMessage) : Prop :=
  reportsOf .cannotAnnotateWithATypeThatRecursivelyReferencesTheDirective0 new = []

section Says

variable {α : Type} {s s₁ s₂ : GraphQlSchema} {ends ends' : Prop} {sort sort' : List DiagnosticMessage → Prop}

theorem Says.congr {m : SchemaM Unit} (h : Says s s₁ m ends sort) (hends : ends ↔ ends')
    (hsort : ∀ new, sort new → sort' new) : Says s s₁ m ends' sort' := by
  refine ⟨fun ds u s' hrun => ?_, fun hend => h.2 (hends.2 hend)⟩
  obtain ⟨hend, new, hstate, hnew⟩ := h.1 ds u s' hrun
  exact ⟨hends.1 hend, new, hstate, hsort new hnew⟩

theorem says_bind {m : SchemaM Unit} {f : Unit → SchemaM Unit} (hm : Says s s₁ m ends sort)
    (hf : Says s₁ s₂ (f ()) ends' sort') : Says s s₂ (m >>= f) (ends ∧ ends') fun new =>
      ∃ first rest, new = first ++ rest ∧ sort first ∧ sort' rest := by
  refine ⟨fun ds u s' hrun => ?_, fun hends ds => ?_⟩
  · obtain ⟨_, _, hfirst, hrest⟩ := run_bind_eq_ok.1 hrun
    obtain ⟨hend, new, rfl, hnew⟩ := hm.1 ds _ _ hfirst
    obtain ⟨hend', new', rfl, hnew'⟩ := hf.1 _ u s' hrest
    exact ⟨⟨hend, hend'⟩, new ++ new', by rw [List.append_assoc], new, new', rfl, hnew, hnew'⟩
  · obtain ⟨u, _, hfirst⟩ := hm.2 hends.1 ds
    obtain ⟨-, new, rfl, -⟩ := hm.1 ds u _ hfirst
    obtain ⟨u', s', hrest⟩ := hf.2 hends.2 (ds ++ new)
    exact ⟨u', s', run_bind_eq_ok.2 ⟨u, _, hfirst, hrest⟩⟩

theorem says_require {e : Stop} {f : GraphQlSchema → Option α} {k : α → SchemaM Unit} {a : α}
    (hf : ∀ ds, f { s with diagnostics := ds } = some a) (h : Says s s₁ (k a) ends sort) :
    Says s s₁ (Climb.require e f >>= k) ends sort := by
  have hrun : ∀ ds, (Climb.require e f >>= k).run { s with diagnostics := ds } =
      (k a).run { s with diagnostics := ds } := fun ds => run_bind_ok (run_require_some (hf ds))
  unfold Says
  simp only [hrun]
  exact h

theorem says_read {f : GraphQlSchema → α} {k : α → SchemaM Unit} {a : α}
    (hf : ∀ ds, f { s with diagnostics := ds } = a) (h : Says s s₁ (k a) ends sort) :
    Says s s₁ (read f >>= k) ends sort := by
  have hrun : ∀ ds, (read f >>= k).run { s with diagnostics := ds } =
      (k a).run { s with diagnostics := ds } := fun ds => hf ds ▸ run_bind_ok rfl
  unfold Says
  simp only [hrun]
  exact h

theorem says_pure : Says s s (pure ()) True Silent := by
  refine ⟨fun ds u s' hrun => ?_, fun _ ds => ⟨(), _, rfl⟩⟩
  obtain ⟨-, rfl⟩ := Outcome.ok.inj hrun
  exact ⟨trivial, [], by rw [List.append_nil], rfl⟩

theorem says_reportAt {span : Span} {template : D} {arguments : List Ustring}
    (htemplate : template ≠ .cannotAnnotateWithATypeThatRecursivelyReferencesTheDirective0) :
    Says s s (do
      let location ← getLocationFromSyntax span
      addDiagnosticAt location template arguments) (s.typeGraph.Located span) Silent := by
  refine ⟨fun ds u s' hrun => ?_, fun hlocated ds => ?_⟩
  · obtain ⟨l, _, hlocation, hreport⟩ := run_bind_eq_ok.1 hrun
    obtain ⟨hl, rfl⟩ := run_require_eq_ok.1 hlocation
    obtain ⟨-, rfl⟩ := Outcome.ok.inj hreport
    exact ⟨Option.isSome_iff_exists.2 ⟨l, hl⟩, [⟨template, arguments, l⟩], rfl,
      reportsOf_other htemplate⟩
  · obtain ⟨l, hl⟩ := Option.isSome_iff_exists.1 hlocated
    exact ⟨(), _, run_bind_eq_ok.2 ⟨l, _, run_require_some hl, rfl⟩⟩

theorem says_reportLocation {wrong : Prop} [Decidable wrong] {name : Name} {template : D}
    (htemplate : template ≠ .cannotAnnotateWithATypeThatRecursivelyReferencesTheDirective0) :
    Says s s (reportLocation wrong name template) (wrong → s.typeGraph.Located name.span) Silent := by
  unfold reportLocation when
  split
  · next hwrong =>
    exact (says_reportAt htemplate).congr ⟨fun h _ => h, fun h => h hwrong⟩ fun _ h => h
  · next hwrong =>
    exact says_pure.congr (iff_of_true trivial fun h => absurd h hwrong) fun _ h => h

end Says

end GraphQlSchema

namespace TypeGraph

variable (g : TypeGraph)

/-- The report of the search at the type of an argument. -/
def report (t : TypeNode) (parent : Name) : Option DiagnosticMessage :=
  (g.scanner.getTokenLocation t.span.start t.span.stop).map
    (⟨.cannotAnnotateWithATypeThatRecursivelyReferencesTheDirective0, ['@' :: parent.identifier], ·⟩)

/-- The node under the index is the named type of an argument of a directive. -/
structure IsArgument (id : TypeId) (t : TypeNode) (n parent : Name) : Prop where
  node : g.types[id]? = some t
  name : t.name = some n
  parent : t.parentDirectiveDefinition = some parent

/-- The symbol may not stand where the type does. -/
def Misplaced (symbol : Symbol) (t : TypeNode) : Prop :=
  symbol.kind = .inputObject ∧ t.inInputLocation = false ∨
    symbol.kind ≠ .enum ∧ symbol.kind.isOutput = true ∧ t.inInputLocation = true

/-- The names that a turn reports can be located. -/
def NamesLocated (t : TypeNode) (n : Name) : Prop :=
  (g.symbols.find? n.identifier = none → g.Located n.span) ∧
    ∀ symbol, g.symbols.find? n.identifier = some symbol → Misplaced symbol t → g.Located n.span

/-- The name is that of an input type. -/
def namesInput (name : Ustring) : Bool := (g.symbols.find? name).any (·.kind.isInput)

/-- The walk of a turn returns, when the types under the given indices were visited. -/
def WalkReturns (visited : List TypeId) (t : TypeNode) (n : Name) : Prop :=
  g.namesInput n.identifier = true → ∀ parent, t.parentDirectiveDefinition = some parent →
    g.Walks visited (g.declarations.length + 1) n.identifier ∧
      (g.ReachesAnnotated visited parent.identifier n.identifier → g.Located t.span)

/-- The reports of a turn. -/
def Reported (visited : List TypeId) (t : TypeNode) (n : Name) (new : List DiagnosticMessage) :
    Prop :=
  (∀ d ∈ reportsOf .cannotAnnotateWithATypeThatRecursivelyReferencesTheDirective0 new,
    ∃ parent, t.parentDirectiveDefinition = some parent ∧ g.report t parent = some d) ∧
  (reportsOf .cannotAnnotateWithATypeThatRecursivelyReferencesTheDirective0 new ≠ [] ↔
    ∃ parent, t.parentDirectiveDefinition = some parent ∧
      g.ReachesAnnotated visited parent.identifier n.identifier)

variable {g}

section Kinds

variable (hkinds : ∀ name symbol, g.symbols.find? name = some symbol →
  ∃ d, g.declarations[symbol.declaration]? = some d ∧ d.kind = symbol.kind)
include hkinds

theorem isInput_eq_false {a : Ustring} (ha : g.namesInput a = false) {d : Declaration}
    (hd : g.declarationNamed a = some d) : d.kind.isInput = false := by
  obtain ⟨symbol, hsymbol, hdeclaration⟩ := Option.bind_eq_some_iff.1 hd
  obtain ⟨d', hd', hkind⟩ := hkinds a symbol hsymbol
  obtain rfl := Option.some.inj (hdeclaration.symm.trans hd')
  rw [namesInput, hsymbol] at ha
  rw [hkind]
  exact ha

/-- Nothing leads on from what does not name an input type. -/
theorem not_hasField_of_namesInput {visited : List TypeId} {a b : Ustring}
    (ha : g.namesInput a = false) : ¬ g.HasField visited a b := by
  rintro ⟨field, hfield, -⟩
  obtain ⟨o, ho⟩ := exists_of_mem_inputFields hfield
  exact nomatch (show true = false from isInput_eq_false hkinds ha ho)

theorem not_reachesAnnotated {visited : List TypeId} {directive a : Ustring}
    (ha : g.namesInput a = false) : ¬ g.ReachesAnnotated visited directive a := by
  rw [reachesAnnotated_iff]
  rintro (hannotated | ⟨b, hab, -⟩)
  · cases hd : g.declarationNamed a with
    | none =>
      rw [hd] at hannotated
      cases hannotated
    | some d =>
      have hkind := isInput_eq_false hkinds ha hd
      rw [hd] at hannotated
      revert hkind hannotated
      cases d with
      | inputObject o => exact fun _ hkind => nomatch (show true = false from hkind)
      | enum e => exact fun _ hkind => nomatch (show true = false from hkind)
      | _ => exact fun hannotated _ => nomatch (show false = true from hannotated)
  · exact not_hasField_of_namesInput hkinds ha hab

end Kinds

end TypeGraph

namespace GraphQlSchema

open ParserM

section Turn

variable {s : GraphQlSchema} {visited : List TypeId}
  (hkinds : ∀ name symbol, s.members.symbols.find? name = some symbol →
    ∃ d, s.pool.declarations[symbol.declaration]? = some d ∧ d.kind = symbol.kind)
  (htagged : Tagged s.members.symbols visited s.pool.types)

/-- A silent turn of a type that reaches nothing. -/
theorem reported_of_silent {t : TypeNode} {n : Name} {new : List DiagnosticMessage}
    (hreaches : ∀ parent, t.parentDirectiveDefinition = some parent →
      ¬ s.typeGraph.ReachesAnnotated visited parent.identifier n.identifier) (hnew : Silent new) :
    s.typeGraph.Reported visited t n new := by
  have hnew : reportsOf .cannotAnnotateWithATypeThatRecursivelyReferencesTheDirective0 new = [] := hnew
  rw [TypeGraph.Reported, hnew]
  exact ⟨fun d hd => absurd hd List.not_mem_nil, iff_of_false (fun h => h rfl)
    fun ⟨parent, hparent, h⟩ => hreaches parent hparent h⟩

theorem reported_append {t : TypeNode} {n : Name} {first rest : List DiagnosticMessage}
    (h : s.typeGraph.Reported visited t n rest) (hfirst : Silent first) :
    s.typeGraph.Reported visited t n (first ++ rest) ∧
      s.typeGraph.Reported visited t n (rest ++ first) := by
  have hfirst : reportsOf .cannotAnnotateWithATypeThatRecursivelyReferencesTheDirective0 first = [] :=
    hfirst
  rw [TypeGraph.Reported, TypeGraph.Reported, reportsOf_append, reportsOf_append, hfirst,
    List.nil_append, List.append_nil]
  exact ⟨h, h⟩

include htagged in
theorem says_checkTypeOfDirective {t : TypeNode} {n : Name} (hn : t.name = some n) :
    Says s s (checkTypeOfDirective t)
      (∀ parent, t.parentDirectiveDefinition = some parent →
        s.typeGraph.Walks visited (s.typeGraph.declarations.length + 1) n.identifier ∧
          (s.typeGraph.ReachesAnnotated visited parent.identifier n.identifier →
            s.typeGraph.Located t.span))
      (s.typeGraph.Reported visited t n) := by
  unfold checkTypeOfDirective
  cases hparent : t.parentDirectiveDefinition with
  | none =>
    refine says_pure.congr (iff_of_true trivial nofun) fun new hnew => reported_of_silent ?_ hnew
    rw [hparent]
    exact nofun
  | some parent =>
    have hwalked := walked_checkRecursiveDirectives htagged parent.identifier t.span
      (s.pool.declarations.length + 1) hn
    have hsome : (reportAt s t.span .cannotAnnotateWithATypeThatRecursivelyReferencesTheDirective0
        ['@' :: parent.identifier]).isSome = true ↔ s.typeGraph.Located t.span := by
      rw [reportAt, Option.isSome_map]
      rfl
    unfold Walked at hwalked
    rw [hsome] at hwalked
    refine ⟨fun ds u s' hrun => ?_, fun hends ds => ?_⟩
    · obtain ⟨depth, _, hread, hrun⟩ := run_bind_eq_ok.1 hrun
      obtain ⟨rfl, rfl⟩ := Outcome.ok.inj hread
      obtain ⟨hends, new, rfl, hnew, hnonempty⟩ := hwalked.1 ds u s' hrun
      refine ⟨fun p hp => Option.some.inj hp ▸ hends, new, rfl, ?_⟩
      have hall : reportsOf .cannotAnnotateWithATypeThatRecursivelyReferencesTheDirective0 new =
          new := by
        refine List.filter_eq_self.2 fun d hd => ?_
        obtain ⟨l, -, rfl⟩ := Option.map_eq_some_iff.1 (hnew d hd)
        exact decide_eq_true rfl
      rw [TypeGraph.Reported, hall, hnonempty, hparent]
      simp only [Option.some.injEq, exists_eq_left', iff_self, and_true]
      exact hnew
    · obtain ⟨hwalks, hlocated⟩ := hends parent rfl
      obtain ⟨u, s', hrun⟩ := hwalked.2 hwalks hlocated ds
      exact ⟨u, s', run_bind_eq_ok.2 ⟨_, _, rfl, hrun⟩⟩

/-- The nodes after the turn of a reference. -/
def visit (s : GraphQlSchema) (id : TypeId) (n : Name) : GraphQlSchema :=
  if namesEnum s.members.symbols n.identifier then
    { s with pool := { s.pool with
        types := s.pool.types.modify id fun t => { t with type := .enum } } }
  else s

theorem typeGraph_visit {id : TypeId} {n : Name} : (s.visit id n).typeGraph = s.typeGraph := by
  unfold visit
  split
  · have htag : ∀ t : TypeNode, TypeNode.untagged { t with type := .enum } = t.untagged := fun _ => rfl
    rw [typeGraph, typeGraph, map_modify_of_eq htag]
  · rfl

include htagged in
theorem tagged_visit {id : TypeId} {t : TypeNode} {n : Name} (ht : s.pool.types[id]? = some t)
    (hn : t.name = some n) :
    Tagged (s.visit id n).members.symbols (visited ++ [id]) (s.visit id n).pool.types := by
  have hvisit := htagged.visit ht hn
  unfold visit
  split
  · next henum => rwa [if_pos henum] at hvisit
  · next henum => rwa [if_neg henum] at hvisit

include hkinds htagged in
/-- What a turn does: it tags the node, returns exactly if its walk does and the names can be located,
and reports exactly if its walk reaches something that carries the directive. -/
theorem turn_checkForwardReference {id : TypeId} {t : TypeNode} {n : Name}
    (ht : s.pool.types[id]? = some t) (hn : t.name = some n) :
    Says s (s.visit id n) (checkForwardReference id)
      (s.typeGraph.NamesLocated t n ∧ s.typeGraph.WalkReturns (visited ++ [id]) t n)
      (s.typeGraph.Reported (visited ++ [id]) t n) := by
  have hvisited := tagged_visit htagged ht hn
  have hunread : s.typeGraph.namesInput n.identifier = false → ∀ parent,
      t.parentDirectiveDefinition = some parent →
        ¬ s.typeGraph.ReachesAnnotated (visited ++ [id]) parent.identifier n.identifier :=
    fun hinput _ _ => TypeGraph.not_reachesAnnotated hkinds hinput
  refine says_require (fun _ => ht) (says_require (fun _ => hn) ?_)
  refine says_read (a := s.members.symbols) (fun _ => rfl) ?_
  cases hsymbol : s.members.symbols.find? n.identifier with
  | none =>
    have hinput : s.typeGraph.namesInput n.identifier = false := by
      rw [TypeGraph.namesInput, typeGraph, hsymbol]
      rfl
    have hvisit : s.visit id n = s := by
      rw [visit, namesEnum, hsymbol]
      rfl
    rw [hvisit]
    refine (says_reportAt (by decide)).congr ?_ fun new hnew =>
      reported_of_silent (hunread hinput) hnew
    rw [TypeGraph.NamesLocated, TypeGraph.WalkReturns, hinput]
    simp only [typeGraph, hsymbol, Bool.false_eq_true, false_implies, and_true, true_implies,
      reduceCtorEq, implies_true]
  | some symbol =>
    have hinput : s.typeGraph.namesInput n.identifier = symbol.kind.isInput := by
      rw [TypeGraph.namesInput, typeGraph, hsymbol]
      rfl
    have hnames : s.typeGraph.NamesLocated t n ↔
        (TypeGraph.Misplaced symbol t → s.typeGraph.Located n.span) := by
      rw [TypeGraph.NamesLocated]
      simp only [typeGraph, hsymbol, reduceCtorEq, false_implies, true_and, Option.some.injEq,
        forall_eq']
    rw [hnames, TypeGraph.WalkReturns, hinput]
    by_cases henum : symbol.kind = .enum
    · simp only [henum, if_true]
      have hvisit : Says s (s.visit id n) (modifyType id fun t => { t with type := .enum }) True
          Silent := by
        rw [visit, namesEnum, hsymbol, Option.any_some, if_pos (decide_eq_true henum)]
        refine ⟨fun ds u s' hrun => ?_, fun _ ds => ⟨(), _, rfl⟩⟩
        obtain ⟨-, rfl⟩ := Outcome.ok.inj hrun
        exact ⟨trivial, [], by rw [List.append_nil], rfl⟩
      have hwalk := says_checkTypeOfDirective hvisited (t := { t with type := .enum }) hn
      rw [typeGraph_visit] at hwalk
      refine (says_bind hvisit hwalk).congr ?_ ?_
      · have hplaced : ¬ TypeGraph.Misplaced symbol t := by
          rw [TypeGraph.Misplaced, henum]
          exact fun h => h.elim (fun h => absurd h.1 (by decide)) fun h => h.1 rfl
        simp only [hplaced, false_implies, true_and, SymbolKind.isInput, decide_true, Bool.true_or,
          true_implies]
      · rintro _ ⟨first, rest, rfl, hfirst, hrest⟩
        exact (reported_append hrest hfirst).1
    · simp only [henum, if_false]
      have hvisit : s.visit id n = s := by
        rw [visit, namesEnum, hsymbol, Option.any_some, if_neg fun h => henum (of_decide_eq_true h)]
      rw [hvisit] at hvisited ⊢
      by_cases hobject : symbol.kind = .inputObject
      · have hwhen : when (symbol.kind.isInput) (checkInputType t n) = checkInputType t n :=
          if_pos (by rw [hobject]; rfl)
        have hwalk := says_checkTypeOfDirective hvisited hn
        rw [hwhen]
        unfold checkInputType
        refine (says_bind (says_bind (says_reportLocation (by decide)) hwalk)
          (says_reportLocation (by decide))).congr ?_ ?_
        · rw [TypeGraph.Misplaced]
          simp only [hobject, SymbolKind.isInput, SymbolKind.isOutput, decide_true, Bool.or_true,
            true_and, true_implies, reduceCtorEq, decide_false, Bool.or_self, Bool.false_eq_true,
            false_and, and_false, or_false, false_implies, and_true]
        · rintro _ ⟨_, last, rfl, ⟨first, rest, rfl, hfirst, hrest⟩, hlast⟩
          exact (reported_append (reported_append hrest hfirst).1 hlast).2
      · have hinput' : symbol.kind.isInput = false := by
          rw [SymbolKind.isInput, decide_eq_false henum, decide_eq_false hobject]
          rfl
        have hcheck : Says s s (when (symbol.kind.isInput) (checkInputType t n)) True Silent := by
          simp only [when, hinput', Bool.false_eq_true, if_false]
          exact says_pure
        refine (says_bind hcheck (says_reportLocation (by decide))).congr ?_ ?_
        · rw [TypeGraph.Misplaced, hinput']
          simp only [hobject, henum, true_and, false_and, false_or, ne_eq, not_false_eq_true,
            Bool.false_eq_true, false_implies, and_true]
        · rintro _ ⟨first, rest, rfl, hfirst, hrest⟩
          have hsilent : s.typeGraph.Reported (visited ++ [id]) t n rest :=
            reported_of_silent (hunread (hinput.trans hinput')) hrest
          exact (reported_append hsilent hfirst).1

end Turn

/-! ## The loop -/

/-- The references as they are visited: the ones visited up to a turn, with the one of the turn. -/
def turns (visited : List TypeId) : List TypeId → List (List TypeId × TypeId)
  | [] => []
  | id :: rest => (visited ++ [id], id) :: turns (visited ++ [id]) rest

end GraphQlSchema

namespace TypeGraph

variable (g : TypeGraph)

/-- The turn returns. -/
def TurnReturns (turn : List TypeId × TypeId) : Prop :=
  ∀ t n, g.types[turn.2]? = some t → t.name = some n → g.NamesLocated t n ∧ g.WalkReturns turn.1 t n

/-- The walk of the turn reaches something that carries the directive, and would be reported so. -/
def TurnReports (turn : List TypeId × TypeId) (report : Option DiagnosticMessage) : Prop :=
  ∃ t n parent, g.IsArgument turn.2 t n parent ∧
    g.ReachesAnnotated turn.1 parent.identifier n.identifier ∧ g.report t parent = report

end TypeGraph

namespace GraphQlSchema

open ParserM

/-- The reports of the turns. -/
def ReportsTurns (g : TypeGraph) (turns : List (List TypeId × TypeId))
    (new : List DiagnosticMessage) : Prop :=
  (∀ d ∈ reportsOf .cannotAnnotateWithATypeThatRecursivelyReferencesTheDirective0 new,
    ∃ turn ∈ turns, g.TurnReports turn (some d)) ∧
  ∀ turn ∈ turns, ∀ report, g.TurnReports turn report →
    ∃ d ∈ reportsOf .cannotAnnotateWithATypeThatRecursivelyReferencesTheDirective0 new, report = some d

theorem reportsTurns_cons {g : TypeGraph} {turn : List TypeId × TypeId}
    {rest : List (List TypeId × TypeId)} {first new : List DiagnosticMessage} {t : TypeNode} {n : Name}
    (ht : g.types[turn.2]? = some t) (hn : t.name = some n) (hfirst : g.Reported turn.1 t n first)
    (hnew : ReportsTurns g rest new) : ReportsTurns g (turn :: rest) (first ++ new) := by
  rw [ReportsTurns, reportsOf_append]
  refine ⟨fun d hd => ?_, fun other hother report hreports => ?_⟩
  · rcases List.mem_append.1 hd with hd | hd
    · obtain ⟨parent, hparent, hreport⟩ := hfirst.1 d hd
      obtain ⟨parent', hparent', hreaches⟩ := hfirst.2.1 (List.ne_nil_of_mem hd)
      obtain rfl := Option.some.inj (hparent.symm.trans hparent')
      exact ⟨turn, List.mem_cons_self .., t, n, parent, ⟨ht, hn, hparent⟩, hreaches, hreport⟩
    · obtain ⟨other, hother, hreports⟩ := hnew.1 d hd
      exact ⟨other, List.mem_cons_of_mem _ hother, hreports⟩
  · rcases List.mem_cons.1 hother with rfl | hother
    · obtain ⟨t', n', parent, hargument, hreaches, rfl⟩ := hreports
      obtain rfl := Option.some.inj (ht.symm.trans hargument.node)
      obtain rfl := Option.some.inj (hn.symm.trans hargument.name)
      obtain ⟨d, hd⟩ := List.exists_mem_of_ne_nil _ (hfirst.2.2 ⟨parent, hargument.parent, hreaches⟩)
      obtain ⟨parent', hparent', hreport⟩ := hfirst.1 d hd
      obtain rfl := Option.some.inj (hargument.parent.symm.trans hparent')
      exact ⟨d, List.mem_append_left _ hd, hreport⟩
    · obtain ⟨d, hd, hreport⟩ := hnew.2 other hother report hreports
      exact ⟨d, List.mem_append_right _ hd, hreport⟩

/-- **The loop returns exactly if all of its turns do, and its reports are those of the turns whose
walks reach something that carries the directive.** -/
theorem loop_checkForwardReference {g : TypeGraph} (hkinds : ∀ name symbol,
      g.symbols.find? name = some symbol →
        ∃ d, g.declarations[symbol.declaration]? = some d ∧ d.kind = symbol.kind)
    {references visited : List TypeId} {s : GraphQlSchema} (hg : s.typeGraph = g)
    (htagged : Tagged s.members.symbols visited s.pool.types)
    (hnamed : ∀ id ∈ references, ∃ t, g.types[id]? = some t ∧ t.name.isSome = true) :
    (∀ ds u s', (references.forM checkForwardReference).run { s with diagnostics := ds } = .ok u s' →
      (∀ turn ∈ turns visited references, g.TurnReturns turn) ∧
        ∃ new, s'.diagnostics = ds ++ new ∧ ReportsTurns g (turns visited references) new) ∧
    ((∀ turn ∈ turns visited references, g.TurnReturns turn) →
      ∀ ds, ∃ u s', (references.forM checkForwardReference).run { s with diagnostics := ds } =
        .ok u s') := by
  induction references generalizing s visited with
  | nil =>
    refine ⟨fun ds u s' hrun => ?_, fun _ ds => ⟨_, _, rfl⟩⟩
    obtain ⟨-, rfl⟩ := Outcome.ok.inj hrun
    exact ⟨fun turn hturn => absurd hturn List.not_mem_nil, [], (List.append_nil _).symm,
      fun d hd => absurd hd List.not_mem_nil, fun turn hturn => absurd hturn List.not_mem_nil⟩
  | cons id references ih =>
    rw [List.forall_mem_cons] at hnamed
    obtain ⟨⟨t₀, ht₀, hname⟩, hrest⟩ := hnamed
    obtain ⟨n, hn⟩ := Option.isSome_iff_exists.1 hname
    obtain ⟨t, ht, rfl⟩ : ∃ t, s.pool.types[id]? = some t ∧ t.untagged = t₀ := by
      rw [← hg, typeGraph, List.getElem?_map] at ht₀
      exact Option.map_eq_some_iff.1 ht₀
    subst hg
    have hturn := turn_checkForwardReference hkinds htagged ht hn
    have hgraph : (s.visit id n).typeGraph = s.typeGraph := typeGraph_visit
    have hloop := ih hgraph (tagged_visit htagged ht hn) hrest
    have hreturns : s.typeGraph.TurnReturns (visited ++ [id], id) ↔
        s.typeGraph.NamesLocated t n ∧ s.typeGraph.WalkReturns (visited ++ [id]) t n := by
      refine ⟨fun h => h t.untagged n ht₀ hn, fun h t' n' ht' hn' => ?_⟩
      obtain rfl := Option.some.inj (ht₀.symm.trans ht')
      obtain rfl := Option.some.inj (hn.symm.trans hn')
      exact h
    rw [turns, List.forall_mem_cons, hreturns]
    refine ⟨fun ds u s' hrun => ?_, fun hends ds => ?_⟩
    · obtain ⟨_, _, hfirst, hrun⟩ := run_bind_eq_ok.1 hrun
      obtain ⟨hend, first, rfl, hreported⟩ := hturn.1 ds _ _ hfirst
      obtain ⟨hends, new, hdiagnostics, hnew⟩ := hloop.1 _ u s' hrun
      refine ⟨⟨hend, hends⟩, first ++ new, by rw [hdiagnostics, List.append_assoc], ?_⟩
      exact reportsTurns_cons ht₀ hn hreported hnew
    · obtain ⟨u, _, hfirst⟩ := hturn.2 hends.1 ds
      obtain ⟨-, first, rfl, -⟩ := hturn.1 ds u _ hfirst
      obtain ⟨u', s', hrun⟩ := hloop.2 hends.2 (ds ++ first)
      exact ⟨u', s', run_bind_eq_ok.2 ⟨u, _, hfirst, hrun⟩⟩

theorem exists_mem_turns {visited references : List TypeId} {id : TypeId} (h : id ∈ references) :
    ∃ turn ∈ turns visited references, turn.2 = id := by
  induction references generalizing visited with
  | nil => exact absurd h List.not_mem_nil
  | cons id' references ih =>
    rcases List.mem_cons.1 h with rfl | h
    · exact ⟨_, List.mem_cons_self .., rfl⟩
    · obtain ⟨turn, hturn, hid⟩ := @ih (visited ++ [id']) h
      exact ⟨turn, List.mem_cons_of_mem _ hturn, hid⟩

/-- What the loop starts from. -/
structure Linkable (s : GraphQlSchema) : Prop where
  types : TypesWellFormed s.pool.types s.members.forwardTypeReferences
  tables : Tabled (fun _ => False) s

/-- The named type of an argument is among the references. -/
theorem Linkable.mem_references {s : GraphQlSchema} (h : Linkable s) {id : TypeId} {t : TypeNode}
    {n parent : Name} (hargument : s.typeGraph.IsArgument id t n parent) :
    id ∈ s.members.forwardTypeReferences := by
  have hnode := hargument.node
  rw [typeGraph, List.getElem?_map] at hnode
  obtain ⟨t₀, ht₀, rfl⟩ := Option.map_eq_some_iff.1 hnode
  refine (h.types.references id).2 ⟨t₀, ht₀, ?_⟩
  rw [show t₀.name = some n from hargument.name]
  rfl

/-- What the loop does, from the state it starts from. -/
theorem Linkable.loop {s : GraphQlSchema} (h : Linkable s) :
    (∀ s', checkForwardReferences.run s = .ok () s' →
      (∀ turn ∈ turns [] s.members.forwardTypeReferences, s.typeGraph.TurnReturns turn) ∧
        ∃ new, s'.diagnostics = s.diagnostics ++ new ∧
          ReportsTurns s.typeGraph (turns [] s.members.forwardTypeReferences) new) ∧
    ((∀ turn ∈ turns [] s.members.forwardTypeReferences, s.typeGraph.TurnReturns turn) →
      ∃ s', checkForwardReferences.run s = .ok () s') := by
  have hnamed : ∀ id ∈ s.members.forwardTypeReferences,
      ∃ t, s.typeGraph.types[id]? = some t ∧ t.name.isSome = true := by
    intro id hid
    obtain ⟨t, ht, hname⟩ := (h.types.references id).1 hid
    exact ⟨t.untagged, typeGraph_type ht, hname⟩
  have hloop := loop_checkForwardReference h.tables.kinds rfl (tagged_of_wellFormed h.types _) hnamed
  refine ⟨fun s' hrun => hloop.1 s.diagnostics () s' hrun, fun hturns => ?_⟩
  obtain ⟨_, s', hrun⟩ := hloop.2 hturns s.diagnostics
  exact ⟨s', hrun⟩

/-! ## Where the search ends -/

/-- The constructor up to `check_forward_references`. -/
def beforeReferences (source : Ustring) : SchemaM Unit := do
  let schema? ← parseDocument source
  let schema ← schemaOrEmpty schema?
  setRootTypes schema

theorem linkable_of_run {source : Ustring} {rooted : GraphQlSchema}
    (h : (beforeReferences source).run (initial source) = .ok () rooted) : Linkable rooted := by
  obtain ⟨schema?, parsed, hparse, h₁⟩ := run_bind_eq_ok.1 h
  obtain ⟨schema, _, hschema, hroots⟩ := run_bind_eq_ok.1 h₁
  obtain rfl := run_schemaOrEmpty hschema
  exact ⟨keptByParts_typed.keeps_setRootTypes _ _ _ hroots (typesWellFormed_parseDocument hparse),
    (tabled_parseDocument hparse).same (keptByParts_same.keeps_setRootTypes _ _ _ hroots)⟩

end GraphQlSchema

namespace TypeGraph

variable (g : TypeGraph)

/-- The references resolve: what an argument of a directive reaches through input fields are
enumerations, and input objects whose fields were read. -/
def ReferencesResolve : Prop :=
  ∀ id t n parent, g.IsArgument id t n parent → g.namesInput n.identifier = true →
    ∀ b, ReflTransGen (g.HasField []) n.identifier b → g.Walkable b

variable {g} in
/-- Names that lead only to each other. -/
theorem ReferencesResolve.of_closed (names : List Ustring)
    (harguments : ∀ t ∈ g.types, t.parentDirectiveDefinition.isSome = true → ∀ n ∈ t.name,
      n.identifier ∈ names)
    (hclosed : ∀ a ∈ names, g.Walkable a ∧ ∀ field ∈ g.inputFields a,
      ∀ b ∈ g.typeName field.type, b ∈ names) : g.ReferencesResolve := by
  intro id t n parent hargument _ b hreaches
  have hmem : b ∈ names := by
    induction hreaches with
    | refl =>
      refine harguments t (List.mem_of_getElem? hargument.node) ?_ n hargument.name
      rw [hargument.parent]
      rfl
    | tail _ hstep ih =>
      obtain ⟨field, hfield, hname, -⟩ := hstep
      exact (hclosed _ ih).2 field hfield _ hname
  exact (hclosed b hmem).1

/-- No argument of a directive reaches an input object that contains itself. -/
def ArgumentsAcyclic : Prop :=
  ∀ id t n parent, g.IsArgument id t n parent → AcyclicFrom (g.HasField []) n.identifier

/-- What the loop reports can be located. -/
def ReportsLocated (references : List TypeId) : Prop :=
  ∀ turn ∈ GraphQlSchema.turns [] references, ∀ t n, g.types[turn.2]? = some t → t.name = some n →
    g.NamesLocated t n ∧ ∀ parent, t.parentDirectiveDefinition = some parent →
      g.ReachesAnnotated turn.1 parent.identifier n.identifier → g.Located t.span

variable {g}

/-- Arguments whose types have fields of scalar types only. -/
theorem ArgumentsAcyclic.of_scalars
    (h : ∀ t ∈ g.types, t.parentDirectiveDefinition.isSome = true → ∀ n ∈ t.name,
      ∀ field ∈ g.inputFields n.identifier, g.typeName field.type = none) : g.ArgumentsAcyclic := by
  intro id t n parent hargument
  refine acyclicFrom_of_end ?_
  rintro b ⟨field, hfield, hname, -⟩
  have hnone := h t (List.mem_of_getElem? hargument.node) (by rw [hargument.parent]; rfl) n
    hargument.name field hfield
  rw [hnone] at hname
  cases hname

theorem ReportsLocated.of_nodes {references : List TypeId}
    (h : ∀ t ∈ g.types, g.Located t.span ∧ ∀ n ∈ t.name, g.Located n.span) :
    g.ReportsLocated references := by
  intro turn _ t n ht hn
  obtain ⟨hnode, hname⟩ := h t (List.mem_of_getElem? ht)
  exact ⟨⟨fun _ => hname n hn, fun _ _ _ => hname n hn⟩, fun _ _ _ => hnode⟩

end TypeGraph

namespace GraphQlSchema

open ParserM

/-- **The loop returns exactly if no argument of a directive reaches an input object that contains
itself, and what it reports can be located.** -/
theorem checkForwardReferences_returns_iff {source : Ustring} {rooted : GraphQlSchema}
    (h : (beforeReferences source).run (initial source) = .ok () rooted)
    (hresolve : rooted.typeGraph.ReferencesResolve) :
    (∃ linked, checkForwardReferences.run rooted = .ok () linked) ↔
      rooted.typeGraph.ArgumentsAcyclic ∧
        rooted.typeGraph.ReportsLocated rooted.members.forwardTypeReferences := by
  have hlinkable := linkable_of_run h
  constructor
  · rintro ⟨linked, hrun⟩
    have hturns := (hlinkable.loop.1 linked hrun).1
    refine ⟨fun id t n parent hargument => ?_, fun turn hturn t n ht hn => ?_⟩
    · cases hinput : rooted.typeGraph.namesInput n.identifier with
      | true =>
        obtain ⟨turn, hturn, rfl⟩ := exists_mem_turns (hlinkable.mem_references hargument)
        have hreturns := (hturns turn hturn t n hargument.node hargument.name).2 hinput parent
          hargument.parent
        exact (TypeGraph.acyclicFrom_of_walks hlinkable.tables.kinds hreturns.1).1
      | false => exact acyclicFrom_of_end fun b =>
        TypeGraph.not_hasField_of_namesInput hlinkable.tables.kinds hinput
    · refine ⟨(hturns turn hturn t n ht hn).1, fun parent hparent hreaches => ?_⟩
      have hinput : rooted.typeGraph.namesInput n.identifier = true := by
        refine Bool.of_not_eq_false fun hinput => ?_
        exact TypeGraph.not_reachesAnnotated hlinkable.tables.kinds hinput hreaches
      exact ((hturns turn hturn t n ht hn).2 hinput parent hparent).2 hreaches
  · rintro ⟨hacyclic, hlocated⟩
    refine hlinkable.loop.2 fun turn hturn t n ht hn => ?_
    obtain ⟨hnames, hreports⟩ := hlocated turn hturn t n ht hn
    refine ⟨hnames, fun hinput parent hparent => ⟨?_, hreports parent hparent⟩⟩
    have hargument : rooted.typeGraph.IsArgument turn.2 t n parent := ⟨ht, hn, hparent⟩
    exact TypeGraph.walks_of_acyclicFrom (hacyclic _ t n parent hargument)
      (hresolve _ t n parent hargument hinput)

/-- On the way to an input object that contains itself no bound is enough. -/
theorem not_returns_of_cycle {s : GraphQlSchema} {visited : List TypeId}
    (hkinds : ∀ name symbol, s.members.symbols.find? name = some symbol →
      ∃ d, s.pool.declarations[symbol.declaration]? = some d ∧ d.kind = symbol.kind)
    (htagged : Tagged s.members.symbols visited s.pool.types) {type : TypeNode} {name : Name}
    (hname : type.name = some name)
    (hcycle : ¬ AcyclicFrom (s.typeGraph.HasField []) name.identifier) (parent : Ustring)
    (location : Span) (fuel : Nat) (s' : GraphQlSchema) :
    (checkRecursiveDirectives parent location fuel type).run s ≠ .ok () s' := by
  intro hrun
  have hwalks := (walked_checkRecursiveDirectives htagged parent location fuel hname).1
    s.diagnostics () s' hrun
  exact hcycle (TypeGraph.acyclicFrom_of_walks hkinds hwalks.1.1).1

/-- The search ends where an argument has an input object of scalars as its type. -/
theorem checkForwardReferences_returns_of_scalars : ∃ rooted : GraphQlSchema,
    (beforeReferences "directive @d(a:A)on OBJECT input A{b:Int}type Query{f:Int}".toList).run
        (initial "directive @d(a:A)on OBJECT input A{b:Int}type Query{f:Int}".toList) =
      .ok () rooted ∧ ∃ linked, checkForwardReferences.run rooted = .ok () linked := by
  obtain ⟨_, hrun⟩ := Outcome.exists_eq_ok
    (o := (beforeReferences "directive @d(a:A)on OBJECT input A{b:Int}type Query{f:Int}".toList).run
      (initial "directive @d(a:A)on OBJECT input A{b:Int}type Query{f:Int}".toList))
    (by decide +kernel)
  refine ⟨_, hrun, (checkForwardReferences_returns_iff hrun ?_).2 ⟨?_, ?_⟩⟩
  · exact TypeGraph.ReferencesResolve.of_closed ["A".toList] (by decide +kernel)
      (by decide +kernel)
  · exact TypeGraph.ArgumentsAcyclic.of_scalars (by decide +kernel)
  · exact TypeGraph.ReportsLocated.of_nodes (by decide +kernel)

/-- An input object that contains itself can be the type of an argument, and the search does not
return, whatever the bound. -/
theorem not_checkForwardReferences_returns_of_cycle : ∃ rooted : GraphQlSchema,
    (beforeReferences "directive @d(a:A)on OBJECT input A{a:A}type Query{f:Int}".toList).run
        (initial "directive @d(a:A)on OBJECT input A{a:A}type Query{f:Int}".toList) =
      .ok () rooted ∧ rooted.typeGraph.ReferencesResolve ∧
      (¬ ∃ linked, checkForwardReferences.run rooted = .ok () linked) ∧
      ∀ t n, t.name = some n → n.identifier = "A".toList → ∀ parent location fuel s',
        (checkRecursiveDirectives parent location fuel t).run rooted ≠ .ok () s' := by
  obtain ⟨_, hrun⟩ := Outcome.exists_eq_ok
    (o := (beforeReferences "directive @d(a:A)on OBJECT input A{a:A}type Query{f:Int}".toList).run
      (initial "directive @d(a:A)on OBJECT input A{a:A}type Query{f:Int}".toList))
    (by decide +kernel)
  refine ⟨_, hrun, ?_, ?_, fun t n hn hidentifier parent location fuel s' => ?_⟩
  · exact TypeGraph.ReferencesResolve.of_closed ["A".toList] (by decide +kernel)
      (by decide +kernel)
  · rintro ⟨linked, hlinked⟩
    exact absurd (show _ = none from congrArg Outcome.stop? hlinked) (by decide +kernel)
  · have hlinkable := linkable_of_run hrun
    refine not_returns_of_cycle hlinkable.tables.kinds (tagged_of_wellFormed hlinkable.types _) hn
      (fun hacyclic => ?_) parent location fuel s'
    rw [hidentifier] at hacyclic
    exact hacyclic _ .refl (.single (by decide +kernel))

/-! ## What the search reports -/

/-- The reports of the search are those of the arguments whose types reach something that carries the
directive. -/
def ReportsRecursion (s : GraphQlSchema) : Prop :=
  (∀ id t n parent, s.typeGraph.IsArgument id t n parent →
    s.typeGraph.ReachesAnnotated [] parent.identifier n.identifier →
      ∃ d ∈ reportsOf .cannotAnnotateWithATypeThatRecursivelyReferencesTheDirective0 s.diagnostics,
        s.typeGraph.report t parent = some d) ∧
  ∀ d ∈ reportsOf .cannotAnnotateWithATypeThatRecursivelyReferencesTheDirective0 s.diagnostics,
    ∃ id t n parent, s.typeGraph.IsArgument id t n parent ∧
      s.typeGraph.ReachesAnnotated [] parent.identifier n.identifier ∧
        s.typeGraph.report t parent = some d

/-- What an argument reaches that carries the directive is reached too, from it or from an argument at
the same place, when the fields are passed over that have an enumeration as their type and stand before
that argument. -/
def ReachesUnvisited (s : GraphQlSchema) : Prop :=
  ∀ id t n parent, s.typeGraph.IsArgument id t n parent →
    s.typeGraph.ReachesAnnotated [] parent.identifier n.identifier →
      ∃ turn ∈ turns [] s.members.forwardTypeReferences,
        s.typeGraph.TurnReports turn (s.typeGraph.report t parent)

theorem Phases.linkable {source : Ustring} {schema : GraphQlSchema} (p : Phases source schema) :
    Linkable p.rooted := ⟨p.types_rooted, p.tabled_rooted⟩

/-- The passes after the loop leave what the search reads. -/
theorem Phases.typeGraph_eq {source : Ustring} {schema : GraphQlSchema} (p : Phases source schema) :
    schema.typeGraph = p.rooted.typeGraph ∧
      schema.members.forwardTypeReferences = p.rooted.members.forwardTypeReferences := by
  have hquiet : Quiet p.linked schema :=
    trans_of _ (quiet_checkDirectiveReferences _ _ _ p.direct) (trans_of _
      (quiet_checkObjectImplementations _ _ _ p.implement) (quiet_checkUnionMembers _ _ _ p.unite))
  have htables : KeepsTables p.rooted schema :=
    trans_of _ p.tables_linked (trans_of _ p.tables_directed
      (trans_of _ p.tables_implemented p.tables_united))
  refine ⟨?_, htables.forwardTypeReferences⟩
  simp only [typeGraph, TypeGraph.mk.injEq]
  refine ⟨htables.scanner, htables.symbols, htables.declarations, ?_⟩
  rw [hquiet.pool]
  exact p.nodes_linked.types

/-- The reports of the search in the end are those of the loop. -/
theorem Phases.reportsTurns {source : Ustring} {schema : GraphQlSchema} (p : Phases source schema) :
    ReportsTurns schema.typeGraph (turns [] schema.members.forwardTypeReferences)
      schema.diagnostics := by
  have htemplate : D.isOfOnePlace .cannotAnnotateWithATypeThatRecursivelyReferencesTheDirective0 =
      true := rfl
  obtain ⟨hparsed, hnone⟩ := p.regular_parsed _ htemplate rfl nofun
  obtain ⟨hrooted, hrootedReports⟩ := p.steady_rooted _ htemplate hparsed
  obtain ⟨-, new, hnew, hreports⟩ := p.linkable.loop.1 p.linked p.link
  obtain ⟨hgraph, hreferences⟩ := p.typeGraph_eq
  have hlinked : Regular p.linked := by
    refine ⟨?_, ?_⟩
    · rw [p.tables_linked.scanner]
      exact hrooted.errors
    · rw [p.tables_linked.directives]
      exact hrooted.keyed
  obtain ⟨hdirected, hdirectedReports⟩ := p.steady_directed _ htemplate nofun hlinked
  obtain ⟨himplemented, himplementedReports⟩ :=
    p.steady_implemented _ htemplate nofun nofun nofun hdirected
  have hfinal := (p.steady_united _ htemplate himplemented).2
  rw [ReportsTurns, hfinal, himplementedReports, hdirectedReports, hnew, reportsOf_append,
    hrootedReports, hnone, List.nil_append, hgraph, hreferences]
  exact hreports

/-- **The search reports the arguments that it should exactly if no way to something that carries the
directive depends on a field whose type is an enumeration and stands before the argument.** -/
theorem reportsRecursion_iff {source : Ustring} {schema : GraphQlSchema}
    (h : run source = .ok () schema) : ReportsRecursion schema ↔ ReachesUnvisited schema := by
  obtain ⟨p⟩ := nonempty_phases h
  obtain ⟨hsound, hcomplete⟩ := p.reportsTurns
  constructor
  · rintro ⟨hreported, -⟩ id t n parent hargument hreaches
    obtain ⟨d, hd, hreport⟩ := hreported id t n parent hargument hreaches
    rw [hreport]
    exact hsound d hd
  · intro hunvisited
    refine ⟨fun id t n parent hargument hreaches => ?_, fun d hd => ?_⟩
    · obtain ⟨turn, hturn, hreports⟩ := hunvisited id t n parent hargument hreaches
      exact hcomplete turn hturn _ hreports
    · obtain ⟨turn, -, t, n, parent, hargument, hreaches, hreport⟩ := hsound d hd
      exact ⟨turn.2, t, n, parent, hargument, TypeGraph.reachesAnnotated_nil hreaches, hreport⟩

/-- Every argument has its turn. -/
theorem Phases.exists_turn {source : Ustring} {schema : GraphQlSchema} (p : Phases source schema)
    {id : TypeId} {t : TypeNode} {n parent : Name}
    (hargument : schema.typeGraph.IsArgument id t n parent) :
    ∃ turn ∈ turns [] schema.members.forwardTypeReferences, turn.2 = id := by
  obtain ⟨hgraph, hreferences⟩ := p.typeGraph_eq
  rw [hgraph] at hargument
  rw [hreferences]
  exact exists_mem_turns (p.linkable.mem_references hargument)

/-- Where the types of the arguments carry the directives themselves, no way is needed. -/
theorem reachesUnvisited_of_annotated {source : Ustring} {schema : GraphQlSchema}
    (h : run source = .ok () schema)
    (hannotated : ∀ t ∈ schema.typeGraph.types, ∀ n ∈ t.name,
      ∀ parent ∈ t.parentDirectiveDefinition,
        (schema.typeGraph.declarationNamed n.identifier).any (·.annotated parent.identifier) = true) :
    ReachesUnvisited schema := by
  intro id t n parent hargument _
  obtain ⟨p⟩ := nonempty_phases h
  obtain ⟨turn, hturn, rfl⟩ := p.exists_turn hargument
  have hnode := List.mem_of_getElem? hargument.node
  refine ⟨turn, hturn, t, n, parent, hargument, ?_, rfl⟩
  exact ⟨_, .refl, hannotated t hnode n hargument.name parent hargument.parent⟩

/-- A directive whose argument has a type that carries the directive. -/
theorem reportsRecursion_of_annotated : ∃ schema : GraphQlSchema,
    run "directive @d(a:A)on OBJECT input A@d{b:Int}type Query{f:Int}".toList = .ok () schema ∧
      ReportsRecursion schema := by
  obtain ⟨_, hrun⟩ := Outcome.exists_eq_ok
    (o := run "directive @d(a:A)on OBJECT input A@d{b:Int}type Query{f:Int}".toList)
    (by decide +kernel)
  refine ⟨_, hrun, (reportsRecursion_iff hrun).2 (reachesUnvisited_of_annotated hrun ?_)⟩
  decide +kernel

/-- An argument whose type has a field of an annotated type, and nothing is reported. -/
theorem not_reportsRecursion_of_silent {s : GraphQlSchema} {e : Ustring}
    (hsilent : (reportsOf .cannotAnnotateWithATypeThatRecursivelyReferencesTheDirective0
      s.diagnostics).length = 0)
    (hreaches : ∃ t ∈ s.typeGraph.types, ∃ n ∈ t.name, ∃ parent ∈ t.parentDirectiveDefinition,
      s.typeGraph.HasField [] n.identifier e ∧
        (s.typeGraph.declarationNamed e).any (·.annotated parent.identifier) = true) :
    ¬ ReportsRecursion s := by
  rintro ⟨hreported, -⟩
  obtain ⟨t, ht, n, hn, parent, hparent, hfield, hannotated⟩ := hreaches
  obtain ⟨id, hid⟩ := List.mem_iff_getElem?.1 ht
  obtain ⟨d, hd, -⟩ := hreported id t n parent ⟨hid, hn, hparent⟩ ⟨e, .single hfield, hannotated⟩
  exact Nat.ne_of_gt (List.length_pos_of_mem hd) hsilent

/-- The type of the argument has a field whose type is an enumeration that carries the directive, and
the field stands before the directive. -/
theorem not_reportsRecursion_of_enum : ∃ schema : GraphQlSchema,
    run "enum E@d{X}input A{e:E}directive @d(a:A)on ENUM type Query{f:Int}".toList =
        .ok () schema ∧ ¬ ReportsRecursion schema := by
  obtain ⟨_, hrun⟩ := Outcome.exists_eq_ok
    (o := run "enum E@d{X}input A{e:E}directive @d(a:A)on ENUM type Query{f:Int}".toList)
    (by decide +kernel)
  refine ⟨_, hrun, not_reportsRecursion_of_silent (e := "E".toList) ?_ ?_⟩
  · decide +kernel
  · decide +kernel

end GraphQlSchema

end Flashpoint
