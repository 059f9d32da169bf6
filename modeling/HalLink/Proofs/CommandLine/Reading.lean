import HalLink.CommandLine
import HalLink.Proofs.Catalog.Consultation

set_option autoImplicit false

namespace HalLink.CommandLine

/-- A stretch of the arguments: a name, which is no option, or an option and the path behind it,
which may be any text. -/
inductive Part where
  | name (text : String) (plain : ∀ side, text ≠ optionOf side)
  | option (side : Side) (path : String)

namespace Part

def arguments : Part → List String
  | name text _ => [text]
  | option side path => [optionOf side, path]

def name? : Part → Option String
  | name text _ => some text
  | option .. => none

def pathFor? (side : Side) : Part → Option String
  | name .. => none
  | option x path => if x = side then some path else none

end Part

/-- A list of arguments as it is read, with the option that is left without a path. -/
structure Reading where
  parts : List Part
  dangling : Option Side

namespace Reading

def arguments (r : Reading) : List String :=
  r.parts.flatMap Part.arguments ++ (r.dangling.map optionOf).toList

def names (r : Reading) : List String := r.parts.filterMap Part.name?

def lastPath? (r : Reading) (side : Side) : Option String :=
  (r.parts.filterMap (Part.pathFor? side)).getLast?

def paths (r : Reading) (environment : Environment) : Sides String :=
  Sides.ofFn fun side =>
    (r.lastPath? side).getD ((environment.get side).getD (standardPaths.get side))

def cons (part : Part) (r : Reading) : Reading := { r with parts := part :: r.parts }

/-- A reading is an end, with or without an option left over, that parts are put in front of. -/
@[elab_as_elim, induction_eliminator]
theorem induction {motive : Reading → Prop} (bare : ∀ dangling, motive ⟨[], dangling⟩)
    (cons : ∀ part r, motive r → motive (r.cons part)) (r : Reading) : motive r := by
  obtain ⟨parts, dangling⟩ := r
  induction parts with
  | nil => exact bare dangling
  | cons part rest ih => exact cons part ⟨rest, dangling⟩ ih

@[simp] theorem arguments_bare (dangling : Option Side) :
    (⟨[], dangling⟩ : Reading).arguments = (dangling.map optionOf).toList := rfl

@[simp] theorem arguments_cons (part : Part) (r : Reading) :
    (r.cons part).arguments = part.arguments ++ r.arguments := by
  simp [cons, arguments]

@[simp] theorem dangling_cons (part : Part) (r : Reading) : (r.cons part).dangling = r.dangling :=
  rfl

@[simp] theorem names_cons (part : Part) (r : Reading) :
    (r.cons part).names = part.name?.toList ++ r.names := by
  cases h : part.name? <;> simp [cons, names, h]

@[simp] theorem lastPath?_cons (part : Part) (r : Reading) (side : Side) :
    (r.cons part).lastPath? side = (r.lastPath? side <|> part.pathFor? side) := by
  cases h : part.pathFor? side <;> simp [lastPath?, cons, h, List.getLast?_cons]

end Reading

theorem optionOf_injective {x y : Side} (h : optionOf x = optionOf y) : x = y := by
  cases x <;> cases y <;> simp_all [optionOf]

theorem optionSide?_optionOf (side : Side) : optionSide? (optionOf side) = some side := by
  cases side <;> rfl

theorem optionSide?_eq_some_iff {argument : String} {side : Side} :
    optionSide? argument = some side ↔ argument = optionOf side := by
  constructor
  · intro h
    unfold optionSide? at h
    grind
  · rintro rfl
    exact optionSide?_optionOf side

theorem optionSide?_eq_none_iff {argument : String} :
    optionSide? argument = none ↔ ∀ side, argument ≠ optionOf side := by
  rw [Option.eq_none_iff_forall_ne_some]
  exact forall_congr' fun side => not_congr optionSide?_eq_some_iff

namespace Reading

theorem exists_arguments_eq (arguments : List String) : ∃ r : Reading, r.arguments = arguments := by
  induction arguments using readArguments.induct with
  | case1 => exact ⟨⟨[], none⟩, rfl⟩
  | case2 argument rest h ih =>
    obtain ⟨r, rfl⟩ := ih
    exact ⟨r.cons (.name argument (optionSide?_eq_none_iff.1 h)), by simp [Part.arguments]⟩
  | case3 argument side h =>
    exact ⟨⟨[], some side⟩, by simp [arguments, optionSide?_eq_some_iff.1 h]⟩
  | case4 argument side h path rest ih =>
    obtain ⟨r, rfl⟩ := ih
    exact ⟨r.cons (.option side path), by simp [Part.arguments, optionSide?_eq_some_iff.1 h]⟩

theorem arguments_cons_ne_bare (part : Part) (r : Reading) (dangling : Option Side) :
    (r.cons part).arguments ≠ (⟨[], dangling⟩ : Reading).arguments := by
  rw [arguments_cons, arguments_bare]
  cases dangling with
  | none => cases part <;> simp [Part.arguments]
  | some side =>
    cases part with
    | name text plain => exact fun h => plain side (List.cons.inj h).1
    | option x path => simp [Part.arguments]

/-- The first argument settles which part comes first and where that part ends. -/
theorem part_eq {part part' : Part} {rest rest' : List String}
    (h : part.arguments ++ rest = part'.arguments ++ rest') : part = part' ∧ rest = rest' := by
  cases part with
  | name text plain =>
    cases part' with
    | name text' _ => simpa [Part.arguments] using h
    | option side path => exact absurd (List.cons.inj h).1 (plain side)
  | option side path =>
    cases part' with
    | name text plain => exact absurd (List.cons.inj h).1.symm (plain side)
    | option side' path' =>
      obtain ⟨hside, hpath, hrest⟩ :
          optionOf side = optionOf side' ∧ path = path' ∧ rest = rest' := by
        simpa [Part.arguments] using h
      rw [optionOf_injective hside, hpath]
      exact ⟨rfl, hrest⟩

theorem arguments_injective {r r' : Reading} (h : r.arguments = r'.arguments) : r = r' := by
  induction r generalizing r' with
  | bare dangling =>
    induction r' with
    | bare dangling' =>
      cases dangling <;> cases dangling' <;> simp at h
      · rfl
      · rw [optionOf_injective h]
    | cons part' r' _ => exact absurd h.symm (arguments_cons_ne_bare part' r' dangling)
  | cons part r ih =>
    induction r' with
    | bare dangling' => exact absurd h (arguments_cons_ne_bare part r dangling')
    | cons part' r' _ =>
      obtain ⟨rfl, hrest⟩ := part_eq (by simpa using h)
      rw [ih hrest]

end Reading

theorem readArguments_name {text : String} (plain : ∀ side, text ≠ optionOf side)
    (rest : List String) :
    readArguments (text :: rest) =
      (readArguments rest).map fun r => { r with names := text :: r.names } := by
  simp [readArguments, optionSide?_eq_none_iff.2 plain]

theorem readArguments_option (side : Side) (path : String) (rest : List String) :
    readArguments (optionOf side :: path :: rest) =
      (readArguments rest).map fun r =>
        { r with paths := r.paths.set (r.paths.get side <|> some path) side } := by
  simp [readArguments, optionSide?_optionOf]

/-- Arguments are read as their one reading says: a dangling option is the error whatever stands in
front of it, and otherwise the path given last counts for each side. -/
theorem Reading.readArguments_arguments (r : Reading) :
    readArguments r.arguments =
      match r.dangling with
      | some side => .error (optionOf side)
      | none => .ok ⟨Sides.ofFn r.lastPath?, r.names⟩ := by
  induction r with
  | bare dangling =>
    cases dangling with
    | none => rfl
    | some side => cases side <;> rfl
  | cons part r ih =>
    rw [arguments_cons]
    cases part with
    | name text plain =>
      rw [Part.arguments, List.singleton_append, readArguments_name plain, ih, dangling_cons]
      cases r.dangling with
      | none =>
        have hpaths : (r.cons (.name text plain)).lastPath? = r.lastPath? := by
          funext side
          simp [Part.pathFor?]
        simp [hpaths, Part.name?, Except.map]
      | some side => rfl
    | option side path =>
      rw [Part.arguments, List.cons_append, List.singleton_append, readArguments_option, ih,
        dangling_cons]
      cases r.dangling with
      | none =>
        have hpaths : (Sides.ofFn r.lastPath?).set (r.lastPath? side <|> some path) side =
            Sides.ofFn (r.cons (.option side path)).lastPath? := by
          cases side <;> simp [Sides.set, Sides.ofFn, Part.pathFor?]
        simp only [Except.map, Sides.get_ofFn, hpaths, names_cons, Part.name?, Option.toList_none,
          List.nil_append]
      | some side => rfl

end HalLink.CommandLine
