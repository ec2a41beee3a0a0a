import Flashpoint.Parser
import Flashpoint.Scanner.Progress

/-!
# Parsing ends

The measure of both parsers is the number of characters left. `HaltsIn n m` says that `m`, run where
at most `n` are left, does not use up its bound and does not move back; `TakesIn n c m` that it takes
a character when its value meets `c`. A loop or a recursion goes on only after a token was taken, so
its bound need not exceed a multiple of `n`.
-/

namespace Flashpoint

open Library Climb

namespace ParserM

variable {M α β : Type} {n : Nat}

/-- At most so many characters are left. -/
def Within (n : Nat) (s : GraphQlParser M) : Prop := s.scanner.left ≤ n

/-- A run that does not stop for want of a larger bound. -/
def Halted (e : Stop) (_ : GraphQlParser M) : Prop := e ≠ .outOfFuel

/-- Where at most `n` characters are left, the computation halts and has no more of them left then;
and it has taken one if its value meets `c`. -/
def TakesIn (n : Nat) (c : α → Prop) (m : ParserM M α) : Prop :=
  ∀ k, k ≤ n → Triple (Within k) m (fun a s => Within k s ∧ (c a → s.scanner.left < k)) Halted

/-- Where at most `n` characters are left, the computation halts and has no more of them left then. -/
def HaltsIn (n : Nat) (m : ParserM M α) : Prop := TakesIn n (fun _ => False) m

/-! ## Rules -/

theorem TakesIn.weaken {c d : α → Prop} {m : ParserM M α} (h : TakesIn n c m)
    (hd : ∀ a, d a → c a) : TakesIn n d m := fun k hk =>
  (h k hk).conseq (fun _ hs => hs) fun a _ hs => ⟨hs.1, fun ha => hs.2 (hd a ha)⟩

theorem TakesIn.halts {c : α → Prop} {m : ParserM M α} (h : TakesIn n c m) : HaltsIn n m :=
  h.weaken fun _ => False.elim

/-- What halts does not use up its bound. -/
theorem TakesIn.stop_ne_outOfFuel {c : α → Prop} {m : ParserM M α} (h : TakesIn n c m)
    {s : GraphQlParser M} (hs : s.scanner.left ≤ n) : (m.run s).stop? ≠ some .outOfFuel := by
  have hrun := h n (Nat.le_refl _) s hs
  cases hm : m.run s with
  | ok a s' => exact Option.some_ne_none _ |>.symm
  | stop e s' =>
    rw [hm] at hrun
    exact fun heq => hrun (Option.some.inj heq)

theorem takesIn_pure {c : α → Prop} {a : α} (h : ¬ c a) : TakesIn n c (pure a : ParserM M α) :=
  fun _ _ => triple_pure fun _ hs => ⟨hs, fun ha => absurd ha h⟩

theorem haltsIn_pure {a : α} : HaltsIn n (pure a : ParserM M α) := takesIn_pure id

/-- After what may have taken a character, the rest has fewer characters to go when it did. -/
theorem takesIn_bind {c : α → Prop} {d : β → Prop} {m : ParserM M α} {f : α → ParserM M β}
    (hm : TakesIn n c m) (htaken : ∀ a, c a → ∀ i, i < n → HaltsIn i (f a))
    (hleft : ∀ a, ¬ c a → TakesIn n d (f a)) : TakesIn n d (m >>= f) := by
  intro k hk
  refine triple_bind (hm k hk) fun a s hs => ?_
  by_cases ha : c a
  · have hlt := hs.2 ha
    have hrest := htaken a ha s.scanner.left (by omega) _ (Nat.le_refl _) s (Nat.le_refl _)
    cases hrun : (f a).run s with
    | ok b s' =>
      rw [hrun] at hrest
      have hle : s'.scanner.left ≤ s.scanner.left := hrest.1
      exact ⟨Nat.le_trans hle (Nat.le_of_lt hlt), fun _ => Nat.lt_of_le_of_lt hle hlt⟩
    | stop e s' =>
      rw [hrun] at hrest
      exact hrest
  · exact hleft a ha k hk s hs.1

theorem haltsIn_bind {m : ParserM M α} {f : α → ParserM M β} (hm : HaltsIn n m)
    (hf : ∀ a, HaltsIn n (f a)) : HaltsIn n (m >>= f) :=
  takesIn_bind hm (fun _ h => h.elim) fun a _ => hf a

/-- What comes first takes no character that counts. -/
theorem takesIn_after {d : β → Prop} {m : ParserM M α} {f : α → ParserM M β} (hm : HaltsIn n m)
    (hf : ∀ a, TakesIn n d (f a)) : TakesIn n d (m >>= f) :=
  takesIn_bind hm (fun _ h => h.elim) fun a _ => hf a

theorem haltsIn_when {c : Prop} [Decidable c] {m : ParserM M Unit} (hm : HaltsIn n m) :
    HaltsIn n (when c m) := by
  unfold when
  split
  · exact hm
  · exact haltsIn_pure

theorem haltsIn_forM {xs : List β} {f : β → ParserM M PUnit} (hf : ∀ x, HaltsIn n (f x)) :
    HaltsIn n (xs.forM f) := by
  induction xs with
  | nil => exact haltsIn_pure
  | cons x xs ih => exact haltsIn_bind (hf x) fun _ => ih

theorem haltsIn_step {f : GraphQlParser M → α × GraphQlParser M} {h : ∀ s, s ≤ (f s).2}
    (hf : ∀ s, (f s).2.scanner.left ≤ s.scanner.left) : HaltsIn n (step f h : ParserM M α) :=
  fun _ _ => triple_step fun s hs => ⟨Nat.le_trans (hf s) hs, False.elim⟩

theorem haltsIn_scan {f : GraphQlScanner → α × GraphQlScanner}
    (hf : ∀ s : GraphQlScanner, s.Advances (f s).2) : HaltsIn n (scan f : ParserM M α) :=
  haltsIn_step fun s => (hf s.scanner).left_le

theorem haltsIn_require {e : Stop} (he : e ≠ .outOfFuel) {f : GraphQlParser M → Option α} :
    HaltsIn n (Climb.require e f) := fun _ _ =>
  triple_require (fun _ _ hs _ => ⟨hs, False.elim⟩) fun _ _ _ => he

theorem takesIn_stop {e : Stop} (he : e ≠ .outOfFuel) {c : α → Prop} :
    TakesIn n c (stop e : ParserM M α) := fun _ _ => triple_stop fun _ _ => he

/-! ## The operations of the parser -/

theorem haltsIn_read {f : GraphQlParser M → α} : HaltsIn n (ParserM.read f) := fun _ _ =>
  triple_bind (Q := fun _ => Within _) (triple_get fun _ hs => hs) fun _ =>
    triple_pure fun _ hs => ⟨hs, False.elim⟩

/-- A change that leaves the scanner alone. -/
theorem haltsIn_update {f : GraphQlParser M → GraphQlParser M}
    (hf : ∀ s, (f s).scanner = s.scanner) : HaltsIn n (update f) :=
  haltsIn_step fun s => Nat.le_of_eq (congrArg GraphQlScanner.left (hf s))

theorem haltsIn_modifyMembers {f : M → M} : HaltsIn n (modifyMembers f) :=
  haltsIn_update fun _ => rfl

theorem haltsIn_recordStep {step : Step} : HaltsIn n (recordStep step : ParserM M Unit) :=
  haltsIn_step fun _ => Nat.le_refl _

theorem haltsIn_deref {f : GraphQlParser M → Option α} : HaltsIn n (deref f) :=
  haltsIn_require (by decide)

theorem haltsIn_follow {p : Option α} : HaltsIn n (follow p : ParserM M α) := haltsIn_deref

theorem takesIn_throwException {c : α → Prop} : TakesIn n c (throwException : ParserM M α) :=
  takesIn_stop (by decide)

theorem haltsIn_addDiagnosticAt {location : Location} {template : D} {arguments : List Ustring} :
    HaltsIn n (addDiagnosticAt location template arguments : ParserM M Unit) :=
  haltsIn_step fun _ => Nat.le_refl _

theorem haltsIn_addDiagnostic {template : D} {arguments : List Ustring} :
    HaltsIn n (addDiagnostic template arguments : ParserM M Unit) :=
  haltsIn_bind haltsIn_read fun _ => haltsIn_addDiagnosticAt

theorem haltsIn_getLocationFromSyntax {span : Span} :
    HaltsIn n (getLocationFromSyntax span : ParserM M Location) := haltsIn_require (by decide)

/-- A report at a node. -/
theorem haltsIn_reportAt {span : Span} {template : D} {arguments : List Ustring} :
    HaltsIn n (do
      let location ← getLocationFromSyntax span
      addDiagnosticAt location template arguments : ParserM M Unit) :=
  haltsIn_bind haltsIn_getLocationFromSyntax fun _ => haltsIn_addDiagnosticAt

theorem haltsIn_hasDiagnosticInSyntax {span : Span} {template : D} :
    HaltsIn n (hasDiagnosticInSyntax span template : ParserM M Bool) :=
  haltsIn_bind haltsIn_getLocationFromSyntax fun _ => haltsIn_read

theorem haltsIn_takeErrorsFromScanner : HaltsIn n (takeErrorsFromScanner : ParserM M Unit) :=
  haltsIn_step fun _ => Nat.le_refl _

/-- A report about the value of the token just taken. -/
theorem haltsIn_reportValue {template : D} {arguments : Ustring → List Ustring} :
    HaltsIn n (do
      let value ← getTokenValue
      addDiagnostic template (arguments value) : ParserM M Unit) :=
  haltsIn_bind haltsIn_read fun _ => haltsIn_addDiagnostic

/-- A token that is not the end of the document takes a character. -/
theorem takesIn_takeNextToken {treatKeywordAsName skipWhiteSpace : Bool} :
    TakesIn n (· ≠ .endOfDocument)
      (takeNextToken treatKeywordAsName skipWhiteSpace : ParserM M GraphQlToken) := by
  intro k hk
  refine triple_step fun s hs => ?_
  have hadvances := (s.scanner.scans_takeNextToken treatKeywordAsName skipWhiteSpace).toAdvances
  refine ⟨Nat.le_trans hadvances.left_le hs, fun htoken => ?_⟩
  exact Nat.lt_of_lt_of_le (GraphQlScanner.left_takeNextToken_lt htoken) hs

theorem takesIn_takeToken : TakesIn n (· ≠ .endOfDocument) (takeToken : ParserM M GraphQlToken) :=
  takesIn_takeNextToken

theorem haltsIn_reportExpected {text : Ustring} {result : GraphQlToken} :
    HaltsIn n (reportExpected text result : ParserM M Unit) := by
  unfold reportExpected
  split
  · exact haltsIn_addDiagnostic
  · exact haltsIn_reportValue

theorem takesIn_scanExpected {token : GraphQlToken} (htoken : token ≠ .endOfDocument)
    {treatKeywordAsName : Bool} :
    TakesIn n (· = true) (scanExpected token treatKeywordAsName : ParserM M Bool) := by
  refine takesIn_bind takesIn_takeNextToken (fun result _ i _ => ?_) fun result hend => ?_
  · split
    · exact haltsIn_pure
    split
    · exact takesIn_throwException
    · exact haltsIn_bind haltsIn_reportExpected fun _ => haltsIn_pure
  · split
    · next hresult => exact absurd (hresult ▸ htoken) hend
    split
    · exact takesIn_throwException
    · exact takesIn_after haltsIn_reportExpected fun _ => takesIn_pure Bool.false_ne_true

theorem haltsIn_scanExpected {token : GraphQlToken} (htoken : token ≠ .endOfDocument)
    {treatKeywordAsName : Bool} :
    HaltsIn n (scanExpected token treatKeywordAsName : ParserM M Bool) :=
  (takesIn_scanExpected htoken).halts

theorem haltsIn_scanExpectedOr {token : GraphQlToken} {template : D} {treatKeywordAsName : Bool} :
    HaltsIn n (scanExpectedOr token template treatKeywordAsName : ParserM M Bool) := by
  refine haltsIn_bind takesIn_takeNextToken.halts fun result => ?_
  split
  · exact haltsIn_pure
  · exact haltsIn_bind haltsIn_read fun _ => haltsIn_bind haltsIn_addDiagnostic fun _ => haltsIn_pure

theorem takesIn_scanOptional {token : GraphQlToken} (htoken : token ≠ .endOfDocument)
    {treatKeywordAsName : Bool} :
    TakesIn n (· = true) (scanOptional token treatKeywordAsName : ParserM M Bool) := by
  intro k _ s hs
  have hadvances := s.scanner.advances_tryScan token treatKeywordAsName
  refine ⟨Nat.le_trans hadvances.left_le hs, fun hfound => ?_⟩
  exact Nat.lt_of_lt_of_le (GraphQlScanner.left_tryScan_lt htoken (of_decide_eq_true hfound)) hs

theorem haltsIn_scanOptional {token : GraphQlToken} (htoken : token ≠ .endOfDocument)
    {treatKeywordAsName : Bool} :
    HaltsIn n (scanOptional token treatKeywordAsName : ParserM M Bool) :=
  (takesIn_scanOptional htoken).halts

theorem haltsIn_skipTo {tokens : List GraphQlToken} :
    HaltsIn n (skipTo tokens : ParserM M GraphQlToken) := haltsIn_scan fun s => s.advances_skipTo _

theorem haltsIn_skipBlock : HaltsIn n (skipBlock : ParserM M Unit) :=
  haltsIn_scan fun s => s.advances_skipBlock

theorem haltsIn_scanDirectiveLocation :
    HaltsIn n (scan fun s => s.scanDirectiveLocation : ParserM M DirectiveLocation) :=
  haltsIn_scan fun s => s.scans_scanDirectiveLocation.toAdvances

/-- A token that is looked at and perhaps taken back: if it is, the computation goes on from where
it was; if not, a character was taken unless the document had ended. -/
theorem haltsIn_lookAhead {f : GraphQlToken → ParserM M β} {c : GraphQlToken → Prop}
    (hback : ∀ token, c token → ∃ g : Unit → ParserM M β,
      f token = (scan (fun s => ((), s.revert)) >>= g) ∧ ∀ a, HaltsIn n (g a))
    (hend : c .endOfDocument)
    (htaken : ∀ token, ¬ c token → ∀ i, i < n → HaltsIn i (f token)) :
    HaltsIn n (scan (fun s => ((), s.save)) >>= fun _ => takeToken >>= f) := by
  intro k hk s hs
  have hscans := GraphQlScanner.scans_takeNextToken s.scanner.save false true
  have hrun : (scan (fun s => ((), s.save)) >>= fun _ => takeToken >>= f : ParserM M β).run s =
      (f (s.scanner.save.takeNextToken false true).1).run
        { s with scanner := (s.scanner.save.takeNextToken false true).2 } := rfl
  rw [hrun]
  by_cases hc : c (s.scanner.save.takeNextToken false true).1
  · obtain ⟨g, hg, hrest⟩ := hback _ hc
    rw [hg]
    have hle := (GraphQlScanner.advances_revert hscans).left_le
    exact hrest () k hk { s with scanner := (s.scanner.save.takeNextToken false true).2.revert }
      (Nat.le_trans hle hs)
  · have hlt : (s.scanner.save.takeNextToken false true).2.left < s.scanner.left :=
      GraphQlScanner.left_takeNextToken_lt (s := s.scanner.save) fun h => hc (h ▸ hend)
    have hs' : s.scanner.left ≤ k := hs
    have hrest := htaken _ hc _ (Nat.lt_of_lt_of_le hlt (Nat.le_trans hs' hk)) _ (Nat.le_refl _)
      { s with scanner := (s.scanner.save.takeNextToken false true).2 } (Nat.le_refl _)
    revert hrest
    cases (f (s.scanner.save.takeNextToken false true).1).run
      { s with scanner := (s.scanner.save.takeNextToken false true).2 } with
    | ok b s' =>
      intro hrest
      exact ⟨Nat.le_trans hrest.1 (Nat.le_trans (Nat.le_of_lt hlt) hs'), False.elim⟩
    | stop e s' => exact id

theorem haltsIn_createName {identifier : Ustring} :
    HaltsIn n (createName identifier : ParserM M Name) :=
  haltsIn_bind haltsIn_read fun _ => haltsIn_pure

theorem haltsIn_modifyType {id : TypeId} {f : TypeNode → TypeNode} :
    HaltsIn n (modifyType id f : ParserM M Unit) := haltsIn_update fun _ => rfl

theorem haltsIn_createType {node : TypeNode} : HaltsIn n (createType node : ParserM M TypeId) :=
  haltsIn_bind haltsIn_read fun _ => haltsIn_bind (haltsIn_update fun _ => rfl) fun _ => haltsIn_pure

theorem haltsIn_createDeclaration {d : Declaration} :
    HaltsIn n (createDeclaration d : ParserM M DeclarationId) :=
  haltsIn_bind haltsIn_read fun _ => haltsIn_bind (haltsIn_update fun _ => rfl) fun _ => haltsIn_pure

theorem haltsIn_setDeclaration {id : DeclarationId} {d : Declaration} :
    HaltsIn n (setDeclaration id d : ParserM M Unit) := haltsIn_update fun _ => rfl

theorem haltsIn_getTypeName {type : TypeNode} : HaltsIn n (getTypeName type : ParserM M Ustring) := by
  refine haltsIn_bind ?_ fun _ => haltsIn_pure
  unfold typeNameText
  split
  all_goals first
    | exact haltsIn_pure
    | exact haltsIn_bind haltsIn_follow fun _ => haltsIn_pure
    | exact takesIn_throwException

end ParserM

end Flashpoint
