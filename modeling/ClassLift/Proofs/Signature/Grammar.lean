import ClassLift.Proofs.Signature.Reading

namespace ClassLift

namespace Signature

/-! ## Abstract signatures -/

structure Identifier where
  letters : List Char
  plain : ∀ letter ∈ letters, letter ∉ ['.', ';', '[', '/', '<', '>', ':']

inductive Primitive where
  | byte | char | double | float | int | long | short | boolean

mutual

inductive JavaType where
  | primitive (type : Primitive)
  | reference (type : ReferenceType)

inductive ReferenceType where
  | object (type : ClassType)
  | typeVariable (name : Identifier)
  | array (element : JavaType)

inductive ClassType where
  | inPackage (path : List Identifier) (chain : Chain)

/-- A class and the member classes that lead to the one meant, each with its type arguments. -/
inductive Chain where
  | last (name : Identifier) (arguments : List Argument)
  | outer (name : Identifier) (arguments : List Argument) (inner : Chain)

inductive Argument where
  | any
  | exactly (type : ReferenceType)
  | extending (type : ReferenceType)
  | above (type : ReferenceType)

end

/-- A formal type parameter. Only an interface bound can follow an empty class bound. -/
structure Formal where
  name : List Char
  plain : ∀ letter ∈ name, letter ≠ ':' ∧ letter ≠ '>'
  classBound : Option ReferenceType
  interfaceBounds : List ReferenceType
  bounded : classBound.isSome ∨ interfaceBounds ≠ []

inductive Thrown where
  | object (type : ClassType)
  | typeVariable (name : Identifier)

inductive Generic where
  | ofClass (formals : List Formal) (superclass : ClassType) (interfaces : List ClassType)
  | ofMethod (formals : List Formal) (parameters : List JavaType) (result : Option JavaType) (thrown : List Thrown)
  | ofField (type : JavaType)

/-! ## Spelling -/

/-- Letters, each with the name of the class type that it closes. -/
abbrev Spelling := List (Char × Option String)

namespace Spelling

def letters (spelling : Spelling) : List Char := spelling.map Prod.fst

def names (spelling : Spelling) : List String := spelling.filterMap Prod.snd

end Spelling

def spellPlain (letters : List Char) : Spelling := letters.map (·, none)

def Primitive.letter : Primitive → Char
  | byte => 'B'
  | char => 'C'
  | double => 'D'
  | float => 'F'
  | int => 'I'
  | long => 'J'
  | short => 'S'
  | boolean => 'Z'

def pathLetters (path : List Identifier) : List Char := path.flatMap fun part => part.letters ++ ['/']

def Chain.letters : Chain → List Char
  | last name _ => name.letters
  | outer name _ inner => name.letters ++ '$' :: inner.letters

def ClassType.name : ClassType → String
  | inPackage path chain => .ofList (pathLetters path ++ chain.letters)

mutual

def JavaType.spell : JavaType → Spelling
  | .primitive type => spellPlain [type.letter]
  | .reference type => type.spell

def ReferenceType.spell : ReferenceType → Spelling
  | .object type => type.spell
  | .typeVariable name => spellPlain ('T' :: name.letters ++ [';'])
  | .array element => spellPlain ['['] ++ element.spell

def ClassType.spell : ClassType → Spelling
  | .inPackage path chain =>
      spellPlain ('L' :: pathLetters path) ++ chain.spell (ClassType.inPackage path chain).name

def Chain.spell (whole : String) : Chain → Spelling
  | .last name arguments => spellPlain name.letters ++ spellArguments arguments ++ [(';', some whole)]
  | .outer name arguments inner =>
      spellPlain name.letters ++ spellArguments arguments ++ spellPlain ['.'] ++ inner.spell whole

def spellArguments : List Argument → Spelling
  | [] => []
  | argument :: rest => spellPlain ['<'] ++ argument.spell ++ spellEach rest ++ spellPlain ['>']

def spellEach : List Argument → Spelling
  | [] => []
  | argument :: rest => argument.spell ++ spellEach rest

def Argument.spell : Argument → Spelling
  | .any => spellPlain ['*']
  | .exactly type => type.spell
  | .extending type => spellPlain ['+'] ++ type.spell
  | .above type => spellPlain ['-'] ++ type.spell

end

def spellAll {α : Type} (spell : α → Spelling) (parts : List α) : Spelling := parts.flatMap spell

def spellInterfaceBound (bound : ReferenceType) : Spelling := spellPlain [':'] ++ bound.spell

def Formal.spellBounds (formal : Formal) : Spelling :=
  formal.classBound.elim [] ReferenceType.spell ++ spellAll spellInterfaceBound formal.interfaceBounds

def Formal.spell (formal : Formal) : Spelling := spellPlain (formal.name ++ [':']) ++ formal.spellBounds

def spellFormals : List Formal → Spelling
  | [] => []
  | formals => spellPlain ['<'] ++ spellAll Formal.spell formals ++ spellPlain ['>']

def Thrown.type : Thrown → ReferenceType
  | object type => .object type
  | typeVariable name => .typeVariable name

def Thrown.spell (thrown : Thrown) : Spelling := spellPlain ['^'] ++ thrown.type.spell

def spellResult : Option JavaType → Spelling
  | none => spellPlain ['V']
  | some type => type.spell

namespace Generic

def spell : Generic → Spelling
  | ofClass formals superclass interfaces =>
      spellFormals formals ++ superclass.spell ++ spellAll ClassType.spell interfaces
  | ofMethod formals parameters result thrown =>
      spellFormals formals ++ spellPlain ['('] ++ spellAll JavaType.spell parameters ++ spellPlain [')'] ++
        spellResult result ++ spellAll Thrown.spell thrown
  | ofField type => type.spell

def text (signature : Generic) : String := .ofList signature.spell.letters

/-- The class types of a signature by the order of their closing letters. -/
def names (signature : Generic) : List String := signature.spell.names

end Generic

/-! ## Reading a spelling -/

namespace Spelling

variable {spelling other : Spelling}

@[simp] theorem letters_nil : letters [] = [] := rfl

@[simp] theorem names_nil : names [] = [] := rfl

@[simp] theorem letters_append : letters (spelling ++ other) = spelling.letters ++ other.letters := List.map_append

@[simp] theorem names_append : names (spelling ++ other) = spelling.names ++ other.names := List.filterMap_append

@[simp] theorem letters_plain (text : List Char) : letters (spellPlain text) = text := by
  simp [letters, spellPlain, Function.comp_def]

@[simp] theorem names_plain (text : List Char) : names (spellPlain text) = [] := by
  simp [names, spellPlain]

@[simp] theorem spellAll_nil {α : Type} (spell : α → Spelling) : spellAll spell [] = [] := rfl

@[simp] theorem spellAll_cons {α : Type} (spell : α → Spelling) (part : α) (parts : List α) :
    spellAll spell (part :: parts) = spell part ++ spellAll spell parts := rfl

@[simp] theorem letters_closing (name : String) : letters [(';', some name)] = [';'] := rfl

@[simp] theorem names_closing (name : String) : names [(';', some name)] = [name] := rfl

end Spelling

variable {reader : Reader} {text rest : List Char}

/-- The reader takes the spelling off the front of any text and finds its names. -/
def Takes (reader : Reader) (spelling : Spelling) : Prop :=
  ∀ rest, Reads reader (spelling.letters ++ rest) (spelling.names, some rest)

theorem plainText_nil : PlainText [] := by simp [PlainText]

theorem Identifier.plainText (name : Identifier) : PlainText name.letters := by
  intro letter inside
  have apart := name.plain letter inside
  simp only [List.mem_cons, not_or] at apart
  simp [endsName, apart]

theorem plainText_pathLetters (path : List Identifier) : PlainText (pathLetters path) := by
  intro letter inside
  simp only [pathLetters, List.mem_flatMap, List.mem_append, List.mem_singleton] at inside
  obtain ⟨part, _, inside | rfl⟩ := inside
  · exact part.plainText letter inside
  · rfl

theorem PlainText.takeWhile (plain : PlainText text) {stop : Char} (ends : endsName stop = true) :
    (text ++ stop :: rest).takeWhile (!endsName ·) = text := by
  rw [List.takeWhile_append_of_pos fun letter inside => by simp [plain letter inside]]
  simp [ends]

theorem PlainText.dropWhile (plain : PlainText text) {stop : Char} (ends : endsName stop = true) :
    (text ++ stop :: rest).dropWhile (!endsName ·) = stop :: rest := by
  rw [List.dropWhile_append_of_pos fun letter inside => by simp [plain letter inside]]
  simp [ends]

theorem takes_typeVariable (name : Identifier) : Takes .type (ReferenceType.typeVariable name).spell := by
  intro rest
  have cut : (name.letters ++ ';' :: rest).dropWhile (· != ';') = ';' :: rest := by
    rw [List.dropWhile_append_of_pos]
    · simp
    · intro letter inside
      have apart := name.plain letter inside
      simp only [List.mem_cons, not_or] at apart
      simp [apart]
  have move : Reader.type.move ('T' :: (name.letters ++ ';' :: rest)) = .done [] rest := by
    simp [Reader.move, isPrimitive, cut]
  simpa [ReferenceType.spell] using Reads.done move

theorem takes_primitive (type : Primitive) : Takes .type (JavaType.primitive type).spell := by
  intro rest
  have move : Reader.type.move (type.letter :: rest) = .done [] rest := by
    cases type <;> simp [Reader.move, isPrimitive, Primitive.letter]
  simpa [JavaType.spell] using Reads.done move

theorem ReferenceType.begins (type : ReferenceType) :
    ∃ letter rest, type.spell.letters = letter :: rest ∧ beginsBound letter = true := by
  cases type with
  | object type =>
    cases type with
    | inPackage path chain =>
      exact ⟨'L', pathLetters path ++ (chain.spell (ClassType.inPackage path chain).name).letters,
        by simp [spell, ClassType.spell], rfl⟩
  | typeVariable name => exact ⟨'T', name.letters ++ [';'], by simp [spell], rfl⟩
  | array element => exact ⟨'[', element.spell.letters, by simp [spell], rfl⟩

theorem reads_piece {sofar piece : List Char} {arguments : List Argument} {stop : Char} {found : Found}
    (plain : PlainText piece) (ends : endsName stop = true) (apart : stop ≠ '<')
    (inner : ∀ rest, Reads .arguments ((spellEach arguments).letters ++ '>' :: rest) ((spellEach arguments).names, some rest))
    (behind : Reads (.suffix (sofar ++ piece)) (stop :: rest) found) :
    Reads (.className sofar) (piece ++ ((spellArguments arguments).letters ++ stop :: rest))
      ((spellArguments arguments).names ++ found.1, found.2) := by
  cases arguments with
  | nil =>
    have move : (Reader.className sofar).move (piece ++ stop :: rest) = .become (.suffix (sofar ++ piece)) (stop :: rest) := by
      simp [Reader.move, plain.takeWhile ends, plain.dropWhile ends, apart]
    simpa [spellArguments] using Reads.become move behind
  | cons argument more =>
    have move (after : List Char) : (Reader.className sofar).move (piece ++ '<' :: after) =
        .letFirst .arguments after (.suffix (sofar ++ piece)) := by
      have opens : endsName '<' = true := rfl
      simp [Reader.move, plain.takeWhile opens, plain.dropWhile opens]
    simpa [spellArguments, spellEach] using Reads.letFirst (move _) (inner (stop :: rest)) behind

theorem reads_argument {type : ReferenceType} {mark : List Char} {found : Found} (marked : mark ∈ [[], ['+'], ['-']])
    (takes : Takes .type type.spell) (behind : Reads .arguments rest found) :
    Reads .arguments (mark ++ (type.spell.letters ++ rest)) (type.spell.names ++ found.1, found.2) := by
  obtain ⟨letter, after, begins, bounds⟩ := type.begins
  have move : Reader.arguments.move (mark ++ (type.spell.letters ++ rest)) =
      .letFirst .type (type.spell.letters ++ rest) .arguments := by
    simp only [beginsBound, Bool.or_eq_true, beq_iff_eq] at bounds
    simp only [List.mem_cons, List.not_mem_nil, or_false] at marked
    rw [begins]
    rcases bounds with (rfl | rfl) | rfl <;> rcases marked with rfl | rfl | rfl <;> rfl
  exact .letFirst move (takes rest) behind

mutual

theorem JavaType.takes : ∀ type : JavaType, Takes .type type.spell
  | .primitive type => takes_primitive type
  | .reference type => type.takes

theorem ReferenceType.takes : ∀ type : ReferenceType, Takes .type type.spell
  | .object type => type.takes
  | .typeVariable name => takes_typeVariable name
  | .array element => fun rest => by
      have move (after : List Char) : Reader.type.move ('[' :: after) = .become .type after := rfl
      simpa [ReferenceType.spell] using Reads.become (move _) (element.takes rest)

theorem ClassType.takes : ∀ type : ClassType, Takes .type type.spell
  | .inPackage path chain => fun rest => by
      have move (after : List Char) : Reader.type.move ('L' :: after) = .become (.className []) after := rfl
      have named := chain.reads [] (plainText_pathLetters path) rest
      simpa [ClassType.spell, ClassType.name] using Reads.become (move _) named

theorem Chain.reads : ∀ (chain : Chain) (sofar : List Char) {path : List Char}, PlainText path → ∀ rest,
    Reads (.className sofar) (path ++ ((chain.spell (.ofList (sofar ++ path ++ chain.letters))).letters ++ rest))
      ((chain.spell (.ofList (sofar ++ path ++ chain.letters))).names, some rest)
  | .last name arguments => fun sofar path plain rest => by
      have behind : Reads (.suffix (sofar ++ (path ++ name.letters))) (';' :: rest)
          ([.ofList (sofar ++ (path ++ name.letters))], some rest) := .done rfl
      simpa [Chain.spell, Chain.letters] using
        reads_piece (plain.append name.plainText) rfl (by decide) (takes_arguments arguments) behind
  | .outer name arguments inner => fun sofar path plain rest => by
      have nested := inner.reads (sofar ++ (path ++ name.letters) ++ ['$']) plainText_nil rest
      have behind : Reads (.suffix (sofar ++ (path ++ name.letters))) ('.' :: _) _ := .become rfl nested
      simpa [Chain.spell, Chain.letters] using
        reads_piece (plain.append name.plainText) rfl (by decide) (takes_arguments arguments) behind

theorem takes_arguments : ∀ (arguments : List Argument) (rest : List Char),
    Reads .arguments ((spellEach arguments).letters ++ '>' :: rest) ((spellEach arguments).names, some rest)
  | [], rest => .done rfl
  | .any :: more, rest => by
      have move (after : List Char) : Reader.arguments.move ('*' :: after) = .become .arguments after := rfl
      simpa [spellEach, Argument.spell] using Reads.become (move _) (takes_arguments more rest)
  | .exactly type :: more, rest => by
      have unmarked : [] ∈ [[], ['+'], ['-']] := by simp
      simpa [spellEach, Argument.spell] using reads_argument unmarked type.takes (takes_arguments more rest)
  | .extending type :: more, rest => by
      have marked : ['+'] ∈ [[], ['+'], ['-']] := by simp
      simpa [spellEach, Argument.spell] using reads_argument marked type.takes (takes_arguments more rest)
  | .above type :: more, rest => by
      have marked : ['-'] ∈ [[], ['+'], ['-']] := by simp
      simpa [spellEach, Argument.spell] using reads_argument marked type.takes (takes_arguments more rest)

end

/-! ## Type parameters -/

section Formals

variable {found : Found}

theorem reads_bound (type : ReferenceType) (behind : Reads .moreBounds rest found) :
    Reads .bound (type.spell.letters ++ rest) (type.spell.names ++ found.1, found.2) := by
  obtain ⟨letter, after, begins, bounds⟩ := type.begins
  have move : Reader.bound.move (type.spell.letters ++ rest) = .letFirst .type (type.spell.letters ++ rest) .moreBounds := by
    simp [Reader.move, begins, bounds]
  exact .letFirst move (type.takes rest) behind

theorem reads_interfaceBounds (bounds : List ReferenceType) (behind : Reads .moreBounds rest found) :
    Reads .moreBounds ((spellAll spellInterfaceBound bounds).letters ++ rest)
      ((spellAll spellInterfaceBound bounds).names ++ found.1, found.2) := by
  induction bounds with
  | nil => exact behind
  | cons bound others continues =>
    have move (after : List Char) : Reader.moreBounds.move (':' :: after) = .become .bound after := rfl
    simpa [spellInterfaceBound] using Reads.become (move _) (reads_bound bound continues)

theorem Formal.reads_bounds (formal : Formal) (behind : Reads .moreBounds rest found) :
    Reads .bound (formal.spellBounds.letters ++ rest) (formal.spellBounds.names ++ found.1, found.2) := by
  have interfaces := reads_interfaceBounds formal.interfaceBounds behind
  cases first : formal.classBound with
  | some type => simpa [spellBounds, first] using reads_bound type interfaces
  | none =>
    -- the text goes on with the `:` of an interface bound
    have bounded := formal.bounded
    simp only [first, Option.isSome_none, Bool.false_eq_true, false_or] at bounded
    obtain ⟨bound, others, listed⟩ := List.exists_cons_of_ne_nil bounded
    have move (after : List Char) : Reader.bound.move (':' :: after) = .become .moreBounds (':' :: after) := rfl
    simp only [spellBounds, first, Option.elim_none, List.nil_append, listed] at interfaces ⊢
    simp only [spellInterfaceBound, Spelling.spellAll_cons, Spelling.letters_append, Spelling.letters_plain, List.cons_append,
      List.append_assoc, List.nil_append] at interfaces ⊢
    exact .become (move _) interfaces

theorem Formal.move_formals (formal : Formal) (rest : List Char) :
    Reader.formals.move (formal.name ++ ':' :: rest) = .letFirst .bound rest .formals := by
  have cut : (formal.name ++ ':' :: rest).dropWhile (· != ':') = ':' :: rest := by
    rw [List.dropWhile_append_of_pos fun letter inside => by simp [(formal.plain letter inside).1]]
    simp
  cases named : formal.name with
  | nil => rfl
  | cons letter others =>
    have apart := (formal.plain letter (by simp [named])).2
    rw [named] at cut
    simp only [List.cons_append] at cut ⊢
    simp [Reader.move, apart, cut]

/-- The text of type parameters is read as such; and if the reader takes it for further bounds first, it still finds the
same. That happens at a parameter with an empty name, which begins like a bound. -/
theorem reads_formals (formals : List Formal) (rest : List Char) :
    Reads .formals ((spellAll Formal.spell formals).letters ++ '>' :: rest) ((spellAll Formal.spell formals).names, some rest) ∧
      ∃ names after more, Reads .moreBounds ((spellAll Formal.spell formals).letters ++ '>' :: rest) (names, some after) ∧
        Reads .formals after (more, some rest) ∧ names ++ more = (spellAll Formal.spell formals).names := by
  induction formals with
  | nil => exact ⟨.done rfl, [], '>' :: rest, [], .done rfl, .done rfl, rfl⟩
  | cons formal others continues =>
    obtain ⟨_, names, after, more, bounded, further, same⟩ := continues
    have bounds := formal.reads_bounds bounded
    have whole : Reads .formals ((spellAll Formal.spell (formal :: others)).letters ++ '>' :: rest)
        ((spellAll Formal.spell (formal :: others)).names, some rest) := by
      simpa [Formal.spell, ← same] using Reads.letFirst (formal.move_formals _) bounds further
    refine ⟨whole, ?_⟩
    cases named : formal.name with
    | nil =>
      have move (after : List Char) : Reader.moreBounds.move (':' :: after) = .become .bound after := rfl
      refine ⟨formal.spellBounds.names ++ names, after, more, ?_, further, by simp [Formal.spell, ← same]⟩
      simpa [Formal.spell, named] using Reads.become (move _) bounds
    | cons letter others =>
      have apart := (formal.plain letter (by simp [named])).1
      refine ⟨[], _, _, .done ?_, whole, rfl⟩
      simp [Formal.spell, named, Reader.move, apart]

end Formals

/-! ## Whole signatures -/

theorem Takes.begins {spelling : Spelling} (takes : Takes .type spelling) (rest : List Char) :
    Reader.type.move (spelling.letters ++ rest) ≠ .stop := by
  intro stops
  cases congrArg Prod.snd ((takes rest).unique (.stop stops))

theorem moves_at_type (begins : Reader.type.move text ≠ .stop) :
    Reader.parameters.move text = .letFirst .type text .parameters ∧ Reader.types.move text = .letFirst .type text .types ∧
      Reader.body.move text = .become .types text ∧ Reader.signature.move text = .become .body text := by
  cases text with
  | nil => exact absurd rfl begins
  | cons letter rest =>
    have apart (other : Char) (stops : Reader.type.move (other :: rest) = .stop) : letter ≠ other := by
      rintro rfl
      exact begins stops
    simp [Reader.move, apart ')' rfl, apart '(' rfl, apart '<' rfl]

section Lists

variable {α : Type} {spell : α → Spelling} (takes : ∀ part, Takes .type (spell part))
include takes

theorem reads_parameters (parts : List α) (rest : List Char) :
    Reads .parameters ((spellAll spell parts).letters ++ ')' :: rest) ((spellAll spell parts).names, some rest) := by
  induction parts with
  | nil => exact .done rfl
  | cons part others continues =>
    have move := (moves_at_type ((takes part).begins ((spellAll spell others).letters ++ ')' :: rest))).1
    simpa using Reads.letFirst move (takes part _) continues

theorem reads_types (parts : List α) :
    Reads .types (spellAll spell parts).letters ((spellAll spell parts).names, some []) := by
  induction parts with
  | nil => exact .done rfl
  | cons part others continues =>
    have move := (moves_at_type ((takes part).begins (spellAll spell others).letters)).2.1
    simpa using Reads.letFirst move (takes part _) continues

theorem reads_body_of_types (part : α) (parts : List α) :
    Reads .body (spellAll spell (part :: parts)).letters ((spellAll spell (part :: parts)).names, some []) := by
  have move := (moves_at_type ((takes part).begins (spellAll spell parts).letters)).2.2.1
  rw [← Spelling.letters_append, ← Spelling.spellAll_cons] at move
  exact .become move (reads_types takes (part :: parts))

end Lists

theorem Thrown.reads (thrown : List Thrown) :
    Reads .thrown (spellAll Thrown.spell thrown).letters ((spellAll Thrown.spell thrown).names, some []) := by
  induction thrown with
  | nil => exact .done rfl
  | cons type others continues =>
    have move (after : List Char) : Reader.thrown.move ('^' :: after) = .letFirst .type after .thrown := rfl
    simpa [Thrown.spell] using Reads.letFirst (move _) (type.type.takes _) continues

theorem takes_result (result : Option JavaType) : Takes .type (spellResult result) := by
  cases result with
  | none => exact fun rest => .done rfl
  | some type => exact type.takes

theorem reads_signature (formals : List Formal) {found : Found} (body : Reads .body text found)
    (plain : formals = [] → Reader.signature.move text = .become .body text) :
    Reads .signature ((spellFormals formals).letters ++ text) ((spellFormals formals).names ++ found.1, found.2) := by
  cases formals with
  | nil => exact .become (plain rfl) body
  | cons formal others =>
    have move (after : List Char) : Reader.signature.move ('<' :: after) = .letFirst .formals after .body := rfl
    simpa [spellFormals] using Reads.letFirst (move _) (reads_formals (formal :: others) text).1 body

theorem Generic.reads (signature : Generic) : Reads .signature signature.spell.letters (signature.names, some []) := by
  cases signature with
  | ofClass formals superclass interfaces =>
    have body := reads_body_of_types ClassType.takes superclass interfaces
    have begins := superclass.takes.begins (spellAll ClassType.spell interfaces).letters
    rw [← Spelling.letters_append, ← Spelling.spellAll_cons] at begins
    simpa [names, spell] using reads_signature formals body fun _ => (moves_at_type begins).2.2.2
  | ofMethod formals parameters result thrown =>
    have move (after : List Char) : Reader.body.move ('(' :: after) = .letFirst .parameters after .result := rfl
    have returned : Reads .result _ _ := .letFirst rfl (takes_result result _) (Thrown.reads thrown)
    have body := Reads.letFirst (move _) (reads_parameters JavaType.takes parameters _) returned
    simpa [names, spell] using reads_signature formals body fun _ => rfl
  | ofField type =>
    have body := reads_body_of_types JavaType.takes type []
    have begins := type.takes.begins []
    simp only [Spelling.spellAll_cons, Spelling.spellAll_nil, List.append_nil] at body begins
    exact .become (moves_at_type begins).2.2.2 body

/-- Reading a signature gives its class types in the order in which they are closed. On any text, well formed or not, reading
comes to an end, and no name has a letter that would have ended it. -/
theorem classNames_reads_signatures :
    (∀ signature : Generic, classNames signature.text = signature.names) ∧
    ∀ text : String,
      (∃! found, Reads .signature text.toList found) ∧ (∃ rest, Reads .signature text.toList (classNames text, rest)) ∧
      ∀ name ∈ classNames text, '<' ∉ name.toList ∧ ';' ∉ name.toList ∧ '.' ∉ name.toList := by
  refine ⟨fun signature => ?_, fun text => ?_⟩
  · obtain ⟨rest, reads⟩ := reads_classNames signature.text
    rw [Generic.text, String.toList_ofList] at reads
    exact congrArg Prod.fst (reads.unique signature.reads)
  · obtain ⟨rest, reads⟩ := reads_classNames text
    refine ⟨⟨_, reads, fun found other => other.unique reads⟩, ⟨rest, reads⟩, fun name among => ?_⟩
    have plain := reads.plain trivial name among
    have absent (letter : Char) (ends : endsName letter = true) : letter ∉ name.toList := by
      intro inside
      rw [plain letter inside] at ends
      cases ends
    exact ⟨absent '<' rfl, absent ';' rfl, absent '.' rfl⟩

/-- A method with a type parameter `E`, a parameter `a.Map<? extends E, *>` and a result `a.Map<E, *>.Entry[]`. -/
def entries : Generic :=
  let map : List Identifier × Identifier := ([⟨['a'], by simp⟩], ⟨['M', 'a', 'p'], by simp⟩)
  let element : Identifier := ⟨['E'], by simp⟩
  let object : ReferenceType := .object (.inPackage [] (.last ⟨['O'], by simp⟩ []))
  .ofMethod [⟨['E'], by simp, none, [object], .inr (by simp)⟩]
    [.reference (.object (.inPackage map.1 (.last map.2 [.extending (.typeVariable element), .any])))]
    (some (.reference (.array (.reference (.object (.inPackage map.1 (.outer map.2 [.exactly (.typeVariable element), .any]
      (.last ⟨['E', 'n', 't', 'r', 'y'], by simp⟩ []))))))))
    [.typeVariable element]

theorem text_entries : entries.text = "<E::LO;>(La/Map<+TE;*>;)[La/Map<TE;*>.Entry;^TE;" := by
  decide +kernel

theorem classNames_entries :
    classNames "<E::LO;>(La/Map<+TE;*>;)[La/Map<TE;*>.Entry;^TE;" = ["O", "a/Map", "a/Map$Entry"] ∧
      '<' ∉ "a/Map$Entry".toList := by
  have names : classNames entries.text = entries.names := classNames_reads_signatures.1 entries
  have listed : classNames entries.text = ["O", "a/Map", "a/Map$Entry"] := names.trans (by decide +kernel)
  have plain := (classNames_reads_signatures.2 entries.text).2.2 "a/Map$Entry" (by rw [listed]; simp)
  rw [text_entries] at listed
  exact ⟨listed, plain.1⟩

end Signature

end ClassLift
