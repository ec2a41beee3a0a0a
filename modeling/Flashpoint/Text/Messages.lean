import Flashpoint.Diagnostics
import Flashpoint.Library.Holes
import Flashpoint.Text.TextWriter

/-!
# Messages

`create_diagnostic` puts its arguments into a template with one `boost::regex_replace` after another.
What `boost` makes of an argument as a format is a parameter (`Format`): in the Perl-style syntax `$`
and `\` have a meaning, which may depend on what stands before and behind the match.

The message is the template with the arguments as they are if the formats mean themselves and no
argument brings a hole for one that comes after it (`createDiagnostic_literal`).
-/

namespace Flashpoint

namespace Messages

open Library

def openBrace : UInt8 := 0x7B

def closeBrace : UInt8 := 0x7D

/-- The digit between the braces. -/
def digit (i : Nat) : UInt8 := UInt8.ofNat (0x30 + i)

/-- A match: what stands before it, behind the match before, and behind it. -/
structure Match where
  before : StdString
  behind : StdString
deriving DecidableEq, Repr

/-- What `boost` puts in for a format at a match. -/
abbrev Format := Match → StdString → StdString

/-- `$` and `\` are the characters of the syntax that have a meaning. -/
def IsPerlStyle (expand : Format) : Prop :=
  ∀ m format, 0x24 ∉ format → 0x5C ∉ format → expand m format = format

/-- `boost::regex_replace` for the expression `\{i\}`, behind the match before. -/
def regexReplace (expand : Format) (i : Nat) (format : StdString) :
    StdString → StdString → StdString
  | before, ch :: d :: ch' :: rest =>
    if ch = openBrace ∧ d = digit i ∧ ch' = closeBrace then
      expand ⟨before, rest⟩ format ++ regexReplace expand i format [] rest
    else ch :: regexReplace expand i format (before ++ [ch]) (d :: ch' :: rest)
  | _, rest => rest

structure DiagnosticMessage where
  template : StdString
  message : StdString
  location : Location
deriving DecidableEq, Repr

/-- The replacements for the arguments from the `i`-th on. -/
def replaceArguments (expand : Format) : Nat → List StdString → StdString → StdString
  | _, [], message => message
  | i, arg :: args, message =>
    replaceArguments expand (i + 1) args (regexReplace expand i arg [] message)

/-- `create_diagnostic`, which is overloaded for up to three arguments. -/
def createDiagnostic (expand : Format) (location : Location) (template : StdString)
    (args : List StdString) : DiagnosticMessage :=
  ⟨template, replaceArguments expand 0 args template, location⟩

/-! ## The template with the arguments -/

/-- The argument for the digit of a hole. -/
def argumentAt (args : List StdString) (d : UInt8) : Option StdString :=
  if 0x30 ≤ d then args[d.toNat - 0x30]? else none

/-- Every hole for an argument is replaced by it, and nothing else. -/
def substitute (args : List StdString) (template : StdString) : StdString :=
  fillHoles openBrace closeBrace (argumentAt args) template

/-- How often the `i`-th argument is asked for. -/
def holes (i : Nat) (text : StdString) : Nat := countHoles openBrace closeBrace (digit i) text

/-- The matches of `regexReplace`. -/
def matchesOf (i : Nat) : StdString → StdString → List Match
  | before, ch :: d :: ch' :: rest =>
    if ch = openBrace ∧ d = digit i ∧ ch' = closeBrace then ⟨before, rest⟩ :: matchesOf i [] rest
    else matchesOf i (before ++ [ch]) (d :: ch' :: rest)
  | _, _ => []

/-- An argument means itself where it is put in, and the arguments before it have brought no further
holes for it, unless it is its own hole. -/
structure IsLiteral (expand : Format) (template : StdString) (args : List StdString) (i : Nat)
    (arg : StdString) : Prop where
  expands : ∀ m ∈ matchesOf i [] (substitute (args.take i) template), expand m arg = arg
  brings : holes i (substitute (args.take i) template) = holes i template ∨
    arg = hole openBrace closeBrace (digit i)

/-! ## One replacement -/

theorem regexReplace_eq_fillHoles {expand : Format} {i : Nat} {format before text : StdString}
    (h : ∀ m ∈ matchesOf i before text, expand m format = format) :
    regexReplace expand i format before text =
      fillHoles openBrace closeBrace (only (digit i) format) text := by
  fun_induction regexReplace expand i format before text with
  | case1 before ch d ch' rest hmatch ih =>
    obtain ⟨rfl, rfl, rfl⟩ := hmatch
    rw [matchesOf, if_pos ⟨rfl, rfl, rfl⟩, List.forall_mem_cons] at h
    have hfill := fillHoles_hole (o := openBrace) (c := closeBrace) (d := digit i)
      (f := only (digit i) format) rest (if_pos rfl)
    rw [h.1, ih h.2]
    exact hfill.symm
  | case2 before ch d ch' rest hmatch ih =>
    rw [matchesOf, if_neg hmatch] at h
    rw [ih h]
    refine (fillHoles_cons fun e rest' hopen heq => ?_).symm
    cases heq
    refine if_neg fun hd => hmatch ⟨hopen, hd, rfl⟩
  | case3 before text hshort =>
    match text, hshort with
    | [], _ => rfl
    | [_], _ => rfl
    | [_, _], _ => rfl
    | ch :: d :: ch' :: rest, hshort => exact absurd rfl (hshort ch d ch' rest)

/-! ## All of them -/

theorem toNat_digit {i : Nat} (hi : i < 3) : (digit i).toNat = 0x30 + i := by
  show (0x30 + i) % 256 = 0x30 + i
  exact Nat.mod_eq_of_lt (by omega)

theorem digit_ne {i : Nat} (hi : i < 3) : digit i ≠ openBrace ∧ digit i ≠ closeBrace := by
  have hdigit := toNat_digit hi
  constructor <;> intro heq <;> rw [heq] at hdigit
  · have hbrace : openBrace.toNat = 0x7B := rfl
    omega
  · have hbrace : closeBrace.toNat = 0x7D := rfl
    omega

theorem argumentAt_nil : argumentAt [] = fun _ => none := by
  funext d
  simp [argumentAt]

theorem substitute_nil (template : StdString) : substitute [] template = template := by
  rw [substitute, argumentAt_nil, fillHoles_none]

theorem argumentAt_append (args : List StdString) (arg : StdString) (hlength : args.length < 3) :
    argumentAt (args ++ [arg]) = extend (argumentAt args) (digit args.length) arg := by
  funext d
  have hdigit := toNat_digit hlength
  unfold extend
  by_cases hd : d = digit args.length
  · have hle : (0x30 : UInt8) ≤ d := by
      rw [UInt8.le_iff_toNat_le, hd, hdigit]
      exact Nat.le_add_right _ _
    rw [argumentAt, if_pos hle, if_pos hd, hd, hdigit, Nat.add_sub_cancel_left, List.getElem?_concat_length]
  · rw [if_neg hd]
    by_cases hle : (0x30 : UInt8) ≤ d
    · have hne : d.toNat - 0x30 ≠ args.length := by
        intro heq
        apply hd
        rw [UInt8.le_iff_toNat_le] at hle
        have hzero : (0x30 : UInt8).toNat = 0x30 := rfl
        rw [← UInt8.toNat_inj, hdigit]
        omega
      rw [argumentAt, argumentAt, if_pos hle, if_pos hle]
      by_cases hlt : d.toNat - 0x30 < args.length
      · rw [List.getElem?_append_left hlt]
      · rw [List.getElem?_eq_none (by rw [List.length_append, List.length_singleton]; omega),
          List.getElem?_eq_none (by omega)]
    · rw [argumentAt, argumentAt, if_neg hle, if_neg hle]

theorem argumentAt_digit {args : List StdString} (hlength : args.length < 3) :
    argumentAt args (digit args.length) = none := by
  have hdigit := toNat_digit hlength
  unfold argumentAt
  split
  · rw [hdigit, Nat.add_sub_cancel_left, List.getElem?_eq_none (Nat.le_refl _)]
  · rfl

section

variable {expand : Format} {template : StdString}

/-- The replacement for an argument that means itself does what one replacement of all would do exactly
if there are no further holes for it. -/
theorem regexReplace_substitute_iff (args : List StdString) {arg : StdString}
    (hlength : args.length < 3)
    (hexpands : ∀ m ∈ matchesOf args.length [] (substitute args template), expand m arg = arg) :
    regexReplace expand args.length arg [] (substitute args template) =
        substitute (args ++ [arg]) template ↔
      holes args.length (substitute args template) = holes args.length template ∨
        arg = hole openBrace closeBrace (digit args.length) := by
  have hbraces : openBrace ≠ closeBrace := by decide
  obtain ⟨hopen, hclose⟩ := digit_ne hlength
  rw [regexReplace_eq_fillHoles hexpands, substitute, substitute, argumentAt_append args arg hlength,
    fillHoles_only_eq_iff hbraces hopen hclose (argumentAt_digit hlength)]
  rfl

theorem replaceArguments_of_isLiteral (args rest : List StdString)
    (hlength : (args ++ rest).length ≤ 3)
    (h : ∀ i arg, args.length ≤ i → (args ++ rest)[i]? = some arg →
      IsLiteral expand template (args ++ rest) i arg) :
    replaceArguments expand args.length rest (substitute args template) =
      substitute (args ++ rest) template := by
  induction rest generalizing args with
  | nil => rw [List.append_nil]; rfl
  | cons arg rest ih =>
    have hassoc : args ++ arg :: rest = (args ++ [arg]) ++ rest := by simp
    have hlt : args.length < 3 := by
      rw [List.length_append, List.length_cons] at hlength
      omega
    have hliteral := h args.length arg (Nat.le_refl _) (by simp)
    obtain ⟨hexpands, hbrings⟩ := hliteral
    rw [List.take_left] at hexpands hbrings
    have hlength' : (args ++ [arg]).length = args.length + 1 := by simp
    rw [replaceArguments, (regexReplace_substitute_iff args hlt hexpands).2 hbrings, hassoc, ← hlength']
    rw [hassoc] at hlength h
    exact ih (args ++ [arg]) hlength fun i arg' hi => h i arg' (by omega)

/-- An argument without the characters of the syntax means itself. -/
theorem IsPerlStyle.isLiteral (h : IsPerlStyle expand) {args : List StdString} {i : Nat}
    {arg : StdString} (hdollar : 0x24 ∉ arg) (hbackslash : 0x5C ∉ arg)
    (hbrings : holes i (substitute (args.take i) template) = holes i template ∨
      arg = hole openBrace closeBrace (digit i)) : IsLiteral expand template args i arg :=
  ⟨fun m _ => h m arg hdollar hbackslash, hbrings⟩

/-- **The message is the template with the arguments as they are if every argument is taken literally;
for at most two arguments that mean themselves it is so only then.** -/
theorem createDiagnostic_literal (expand : Format) (location : Location) (template : StdString)
    {args : List StdString} (hlength : args.length ≤ 3) :
    ((∀ i arg, args[i]? = some arg → IsLiteral expand template args i arg) →
      (createDiagnostic expand location template args).message = substitute args template) ∧
    (args.length ≤ 2 → (∀ m, ∀ arg ∈ args, expand m arg = arg) →
      (createDiagnostic expand location template args).message = substitute args template →
      ∀ i arg, args[i]? = some arg → IsLiteral expand template args i arg) := by
  constructor
  · intro h
    have hreplace := replaceArguments_of_isLiteral [] args hlength fun i arg _ => h i arg
    rwa [substitute_nil] at hreplace
  · intro htwo hexpands hmessage i arg hi
    have hmem : arg ∈ args := List.mem_of_getElem? hi
    refine ⟨fun m _ => hexpands m arg hmem, ?_⟩
    match args, i with
    | _, 0 => exact .inl (congrArg (holes 0) (substitute_nil template))
    | [first, second], 1 =>
      cases hi
      have hfirst : regexReplace expand 0 first [] template = substitute [first] template := by
        have hreplace := (regexReplace_substitute_iff [] (Nat.succ_pos 2) fun m _ =>
          hexpands m first (List.mem_cons_self ..)).2
            (.inl (congrArg (holes 0) (substitute_nil template)))
        rwa [substitute_nil] at hreplace
      have hsecond : regexReplace expand 1 arg [] (substitute [first] template) =
          substitute [first, arg] template := by
        rw [← hfirst]
        exact hmessage
      exact (regexReplace_substitute_iff [first] (Nat.one_lt_succ_succ 1) fun m _ =>
        hexpands m arg hmem).1 hsecond
    | [_], 1 => cases hi
    | [_], i + 2 => cases hi
    | [_, _], i + 2 => cases hi
    | [], _ => cases hi
    | _ :: _ :: _ :: _, _ + 1 =>
      simp only [List.length_cons] at htwo
      omega

end

/-- A format that is put in as it is, like one without `$` and `\`. -/
def verbatim : Format := fun _ format => format

theorem verbatim_isPerlStyle : IsPerlStyle verbatim := fun _ _ _ _ => rfl

def notAssignable : StdString := TextWriter.ascii "The value '{0}' is not assignable to type '{1}'."

/-- The second argument is a hole for itself. -/
theorem createDiagnostic_of_own_hole :
    (createDiagnostic verbatim ⟨1, 1, 2, false⟩ notAssignable
      [TextWriter.ascii "{2}", TextWriter.ascii "{1}"]).message =
      substitute [TextWriter.ascii "{2}", TextWriter.ascii "{1}"] notAssignable := by
  refine (createDiagnostic_literal verbatim _ notAssignable (by decide)).1 fun i arg hi => ?_
  match i with
  | 0 =>
    cases hi
    exact verbatim_isPerlStyle.isLiteral (by decide) (by decide) (.inl (by decide +kernel))
  | 1 =>
    cases hi
    exact verbatim_isPerlStyle.isLiteral (by decide) (by decide) (.inr (by decide))
  | _ + 2 => cases hi

/-- The first argument is a hole for the second, which is put into it. -/
theorem createDiagnostic_of_other_hole :
    (createDiagnostic verbatim ⟨1, 1, 3, false⟩ notAssignable
        [TextWriter.ascii "{1}", TextWriter.ascii "Int"]).message =
      TextWriter.ascii "The value 'Int' is not assignable to type 'Int'." ∧
    (createDiagnostic verbatim ⟨1, 1, 3, false⟩ notAssignable
        [TextWriter.ascii "{1}", TextWriter.ascii "Int"]).message ≠
      substitute [TextWriter.ascii "{1}", TextWriter.ascii "Int"] notAssignable := by
  decide +kernel

end Messages

end Flashpoint
