import CompilerRelay.Proofs.RequestReading

/-!
# The members of a request

Which objects of JSON are a request, told by the values that stand under each name.

**Form.**  `Told members envelope`: under the name of the command stands the command; under the names of the number
and of the fields of the command stands what they are, or nothing where that is the default.

**Results.**
* `Fields.ofMembers_eq_ok_iff`: fields are found just when each of them stands under its name, and no other does.
* `Envelope.read_eq_ok_iff_told`: a text is a request just when it is an object whose members tell it.
-/

namespace CompilerRelay

section Defs

/-- The values that stand under a name. -/
def valuesOf (members : List (String × Json)) (key : String) : List Json :=
  (members.filter (·.1 == key)).map (·.2)

/-- The members that may be left out. -/
def defaultMembers : List (String × Json) :=
  [(idKey, .null), (FieldName.failure.text, .null), (FieldName.start.text, .bool true),
   (FieldName.keepOutput.text, .bool false)]

/-- Under this name stands this value, or nothing if it is the default. -/
def Given (members : List (String × Json)) (key : String) (value : Json) : Prop :=
  valuesOf members key = [value] ∨ valuesOf members key = [] ∧ (key, value) ∈ defaultMembers

/-- An object of these members is this request. -/
structure Told (members : List (String × Json)) (envelope : Envelope) : Prop where
  command : ∃ value, valuesOf members commandKey = [value] ∧ CommandName.ofJson value = .ok envelope.request.command
  id : Given members idKey (envelope.id.elim .null .nat)
  fields : ∀ member ∈ envelope.request.fields, Given members member.1.text member.2

/-- The value of a field, as it is written. -/
def Fields.value? (fields : Fields) : FieldName → Option Json
  | .file => fields.file.map Request.pathValue
  | .directory => fields.directory.map Request.pathValue
  | .directories => fields.directories.map fun directories => .array (directories.map Request.pathValue)
  | .code => fields.code.map .string
  | .success => fields.success.map .string
  | .failure => fields.failure.map (·.elim .null .string)
  | .start => fields.start.map .bool
  | .keepOutput => fields.keepOutput.map .bool
  | .offset => fields.offset.map .nat
  | .enabled => fields.enabled.map .bool

/-- The fields that may be left out. -/
def FieldName.isOptional : FieldName → Bool
  | .failure | .start | .keepOutput => true
  | .file | .directory | .directories | .code | .success | .offset | .enabled => false

/-- The values that a field may have. -/
def FieldName.Fits : FieldName → Json → Prop
  | .file, .string _ | .directory, .string _ | .code, .string _ | .success, .string _ => True
  | .failure, .null | .failure, .string _ => True
  | .directories, .array items => ∀ item ∈ items, ∃ text, item = .string text
  | .start, .bool _ | .keepOutput, .bool _ | .enabled, .bool _ => True
  | .offset, .number (.natural _) => True
  | _, _ => False

/-- The field has this value, or none if it is the default. -/
def Fields.Stands (fields : Fields) (member : FieldName × Json) : Prop :=
  fields.value? member.1 = some member.2 ∨
    fields.value? member.1 = none ∧ (member.1.text, member.2) ∈ defaultMembers

end Defs

/-! ## Values under a name -/

section Values

variable {key other : String} {value : Json} {members : List (String × Json)}

@[simp] theorem valuesOf_nil (key : String) : valuesOf [] key = [] := rfl

@[simp] theorem valuesOf_cons_self (key : String) (value : Json) (members : List (String × Json)) :
    valuesOf ((key, value) :: members) key = value :: valuesOf members key := by
  simp [valuesOf]

theorem valuesOf_cons_of_ne (h : other ≠ key) (value : Json) (members : List (String × Json)) :
    valuesOf ((other, value) :: members) key = valuesOf members key := by
  simp [valuesOf, h]

theorem valuesOf_filter_ne (h : key ≠ other) (members : List (String × Json)) :
    valuesOf (members.filter (·.1 != other)) key = valuesOf members key := by
  induction members with
  | nil => rfl
  | cons member members ih =>
      obtain ⟨name, value⟩ := member
      by_cases hother : name = other
      · subst hother
        rw [List.filter_cons_of_neg (by simp), ih, valuesOf_cons_of_ne h.symm]
      · rw [List.filter_cons_of_pos (by simpa using hother)]
        by_cases hkey : name = key
        · subst hkey
          rw [valuesOf_cons_self, valuesOf_cons_self, ih]
        · rw [valuesOf_cons_of_ne hkey, valuesOf_cons_of_ne hkey, ih]

@[simp] theorem valuesOf_append (members others : List (String × Json)) (key : String) :
    valuesOf (members ++ others) key = valuesOf members key ++ valuesOf others key := by
  simp [valuesOf]

theorem valuesOf_eq_nil_iff : valuesOf members key = [] ↔ key ∉ members.map Prod.fst := by
  rw [valuesOf, List.map_eq_nil_iff, List.filter_eq_nil_iff, List.mem_map, not_exists]
  simp only [beq_iff_eq, not_and]

/-- Where no name stands twice, the value under a name is the only one. -/
theorem valuesOf_of_nodup (h : (members.map Prod.fst).Nodup) (hmem : (key, value) ∈ members) :
    valuesOf members key = [value] := by
  induction members with
  | nil => cases hmem
  | cons member members ih =>
      obtain ⟨name, other⟩ := member
      obtain ⟨hnot, hrest⟩ := List.nodup_cons.mp h
      obtain hsame | hmem := List.mem_cons.mp hmem
      · obtain ⟨rfl, rfl⟩ := Prod.mk.inj hsame
        rw [valuesOf_cons_self, valuesOf_eq_nil_iff.mpr hnot]
      · have hne : name ≠ key := by
          rintro rfl
          exact hnot (List.mem_map.mpr ⟨_, hmem, rfl⟩)
        rw [valuesOf_cons_of_ne hne, ih hrest hmem]

end Values

/-! ## The command -/

namespace CommandName

/-- Look at one more member for the command. -/
def gather (found : Option CommandName) (member : String × Json) : Except RequestFault (Option CommandName) :=
  if member.1 == commandKey then
    if found.isSome then .error (.duplicate commandKey) else (ofJson member.2).map some
  else .ok found

theorem gather_some_eq_ok_iff (command : CommandName) (members : List (String × Json)) (found : Option CommandName) :
    members.foldlM gather (some command) = .ok found ↔ valuesOf members commandKey = [] ∧ found = some command := by
  induction members with
  | nil => simp [pure, Except.pure, eq_comm]
  | cons member members ih =>
      obtain ⟨name, value⟩ := member
      rw [List.foldlM_cons]
      by_cases hname : name = commandKey
      · subst hname
        simp [gather, bind, Except.bind]
      · rw [valuesOf_cons_of_ne hname, ← ih]
        simp [gather, hname, bind, Except.bind]

theorem gather_none_eq_ok_iff (members : List (String × Json)) (command : CommandName) :
    members.foldlM gather none = .ok (some command) ↔
      ∃ value, valuesOf members commandKey = [value] ∧ ofJson value = .ok command := by
  induction members with
  | nil => simp [pure, Except.pure]
  | cons member members ih =>
      obtain ⟨name, value⟩ := member
      rw [List.foldlM_cons]
      by_cases hname : name = commandKey
      · subst hname
        have hgather : gather none (commandKey, value) = (ofJson value).map some := by simp [gather]
        rw [valuesOf_cons_self, hgather]
        cases hvalue : ofJson value with
        | error fault =>
            refine iff_of_false (fun h => by cases h) ?_
            rintro ⟨other, hsame, hother⟩
            obtain ⟨rfl, -⟩ := List.cons.inj hsame
            cases hvalue.symm.trans hother
        | ok found =>
            refine (gather_some_eq_ok_iff found members (some command)).trans ?_
            constructor
            · rintro ⟨hnil, hsame⟩
              obtain rfl := Option.some.inj hsame
              exact ⟨value, by rw [hnil], hvalue⟩
            · rintro ⟨other, hsame, hother⟩
              obtain ⟨rfl, hnil⟩ := List.cons.inj hsame
              exact ⟨hnil, congrArg some (Except.ok.inj (hother.symm.trans hvalue))⟩
      · have hgather : gather none (name, value) = .ok none := by simp [gather, hname]
        rw [valuesOf_cons_of_ne hname, hgather]
        exact ih

theorem ofMembers_eq_ok_iff (members : List (String × Json)) (command : CommandName) :
    ofMembers members = .ok command ↔ ∃ value, valuesOf members commandKey = [value] ∧ ofJson value = .ok command := by
  rw [← gather_none_eq_ok_iff]
  change (members.foldlM gather none).bind _ = .ok command ↔ _
  cases members.foldlM gather none with
  | error fault => exact iff_of_false (fun h => by cases h) fun h => by cases h
  | ok found => cases found <;> simp [Except.bind, pure, Except.pure]

end CommandName

/-! ## The fields -/

theorem FieldName.text_injective : Function.Injective FieldName.text := by
  intro name other h
  cases name <;> cases other <;> revert h <;> decide

theorem notMem_default_of_needed {name : FieldName} (h : name.isOptional = false) (value : Json) :
    (name.text, value) ∉ defaultMembers := by
  revert h
  cases name <;> simp [FieldName.isOptional, defaultMembers, FieldName.text, idKey]

namespace Fields

theorem pathValue_injective : Function.Injective Request.pathValue := by
  rintro ⟨text⟩ ⟨other⟩ h
  exact congrArg Path.mk (Json.string.inj h)

section Types

variable {value : Json}

theorem textOf_eq_ok_iff (expected : String) {text : String} :
    textOf expected value = .ok text ↔ value = .string text := by
  cases value <;> simp [textOf]

theorem pathOf_eq_ok_iff {path : Path} : pathOf value = .ok path ↔ value = Request.pathValue path := by
  obtain ⟨text⟩ := path
  cases value <;> simp [pathOf, textOf, Except.map, Request.pathValue]

theorem mapM_pathOf_eq_ok_iff {items : List Json} {paths : List Path} :
    items.mapM pathOf = .ok paths ↔ items = paths.map Request.pathValue := by
  induction items generalizing paths with
  | nil => simp [pure, Except.pure, eq_comm]
  | cons item items ih =>
      rw [List.mapM_cons]
      cases hitem : pathOf item with
      | error fault =>
          refine iff_of_false (fun h => by cases h) fun hsame => ?_
          obtain ⟨path, -, rfl⟩ := List.mem_map.mp (hsame ▸ List.mem_cons_self)
          cases hitem.symm.trans (pathOf_eq_ok_iff.mpr rfl)
      | ok path =>
          obtain rfl := pathOf_eq_ok_iff.mp hitem
          cases hrest : items.mapM pathOf with
          | error fault =>
              refine iff_of_false (fun h => by cases h) fun hsame => ?_
              obtain ⟨-, rest, -, -, hitems⟩ := List.map_eq_cons_iff.mp hsame.symm
              cases hrest.symm.trans (ih.mpr hitems.symm)
          | ok rest =>
              obtain rfl := ih.mp hrest
              rw [← List.map_cons, pathValue_injective.list_map.eq_iff]
              exact ⟨Except.ok.inj, congrArg Except.ok⟩

theorem pathsOf_eq_ok_iff {paths : List Path} :
    pathsOf value = .ok paths ↔ value = .array (paths.map Request.pathValue) := by
  cases value <;> simp [pathsOf, mapM_pathOf_eq_ok_iff]

theorem optionalTextOf_eq_ok_iff {text : Option String} :
    optionalTextOf value = .ok text ↔ value = text.elim .null .string := by
  cases value <;> cases text <;> simp [optionalTextOf, textOf, Except.map]

theorem truthOf_eq_ok_iff {truth : Bool} : truthOf value = .ok truth ↔ value = .bool truth := by
  cases value <;> simp [truthOf]

theorem naturalOf_eq_ok_iff (expected : String) {natural : Nat} :
    naturalOf expected value = .ok natural ↔ value = .nat natural := by
  cases value with
  | number number => cases number <;> simp [naturalOf, Json.nat]
  | _ => simp [naturalOf, Json.nat]

end Types

theorem holds_eq (fields : Fields) (name : FieldName) : fields.holds name = (fields.value? name).isSome := by
  cases name <;> simp [holds, value?]

theorem value?_injective : Function.Injective value? := by
  intro fields other h
  have hpath := Option.map_injective pathValue_injective
  have hpaths : Function.Injective fun directories : List Path => Json.array (directories.map Request.pathValue) :=
    fun _ _ h => pathValue_injective.list_map (Json.array.inj h)
  have htext := Option.map_injective fun _ _ => Json.string.inj
  have htruth := Option.map_injective fun _ _ => Json.bool.inj
  have hoptional : Function.Injective fun text : Option String => text.elim Json.null .string := by
    intro text other h
    cases text <;> cases other <;> simp_all
  have hnatural : Function.Injective Json.nat := fun _ _ h => JsonNumber.natural.inj (Json.number.inj h)
  cases fields
  cases other
  rw [mk.injEq]
  exact ⟨hpath (congrFun h .file), hpath (congrFun h .directory), Option.map_injective hpaths (congrFun h .directories),
    htext (congrFun h .code), htext (congrFun h .success), Option.map_injective hoptional (congrFun h .failure),
    htruth (congrFun h .start), htruth (congrFun h .keepOutput), Option.map_injective hnatural (congrFun h .offset),
    htruth (congrFun h .enabled)⟩

theorem map_eq_ok_iff {ε α β : Type} {make : α → β} {part : Except ε α} {whole : β} :
    part.map make = .ok whole ↔ ∃ value, part = .ok value ∧ make value = whole := by
  cases part <;> simp [Except.map]

/-- A value that is stored is that of its field, and the other fields stay. -/
theorem value?_store
    {fields next : Fields} {value : Json} {name : FieldName} (h : fields.store value name = .ok next) :
    next.value? = Function.update fields.value? name (some value) := by
  cases name
  all_goals
    obtain ⟨part, hpart, rfl⟩ := map_eq_ok_iff.mp h
    funext other
  case file | directory =>
    obtain rfl := pathOf_eq_ok_iff.mp hpart
    cases other <;> rfl
  case directories =>
    obtain rfl := pathsOf_eq_ok_iff.mp hpart
    cases other <;> rfl
  case code | success =>
    obtain rfl := (textOf_eq_ok_iff _).mp hpart
    cases other <;> rfl
  case failure =>
    obtain rfl := optionalTextOf_eq_ok_iff.mp hpart
    cases other <;> rfl
  case start | keepOutput | enabled =>
    obtain rfl := truthOf_eq_ok_iff.mp hpart
    cases other <;> rfl
  case offset =>
    obtain rfl := (naturalOf_eq_ok_iff _).mp hpart
    cases other <;> rfl

/-- A field can hold the values that it may have. -/
theorem fits_value?
    {fields : Fields} {value : Json} {name : FieldName} (h : fields.value? name = some value) : name.Fits value := by
  cases name
  all_goals obtain ⟨part, -, rfl⟩ := Option.map_eq_some_iff.mp h
  case directories => simp [FieldName.Fits, Request.pathValue]
  case failure => cases part <;> trivial
  all_goals trivial

theorem exists_paths
    {items : List Json} (h : ∀ item ∈ items, ∃ text, item = .string text) :
    ∃ paths : List Path, items = paths.map Request.pathValue := by
  induction items with
  | nil => exact ⟨[], rfl⟩
  | cons item items ih =>
      obtain ⟨⟨text, rfl⟩, hrest⟩ := List.forall_mem_cons.mp h
      obtain ⟨paths, rfl⟩ := ih hrest
      exact ⟨⟨text⟩ :: paths, rfl⟩

/-- Just the values that a field may have can be stored in it. -/
theorem exists_store_iff (fields : Fields) (name : FieldName) (value : Json) :
    (∃ next, fields.store value name = .ok next) ↔ name.Fits value := by
  constructor
  · rintro ⟨next, hnext⟩
    have hvalue : next.value? name = some value := by rw [value?_store hnext, Function.update_self]
    exact fits_value? hvalue
  · intro h
    cases name
    case directories =>
      cases value with
      | array items =>
          obtain ⟨paths, rfl⟩ := exists_paths h
          simp [store, pathsOf_eq_ok_iff.mpr rfl, Except.map]
      | _ => exact False.elim h
    case file | directory | code | success =>
      cases value with
      | string text => exact ⟨_, rfl⟩
      | _ => exact False.elim h
    case failure =>
      cases value with
      | null => exact ⟨_, rfl⟩
      | string text => exact ⟨_, rfl⟩
      | _ => exact False.elim h
    case start | keepOutput | enabled =>
      cases value with
      | bool truth => exact ⟨_, rfl⟩
      | _ => exact False.elim h
    case offset =>
      cases value with
      | number number =>
          cases number with
          | natural natural => exact ⟨_, rfl⟩
          | _ => exact False.elim h
      | _ => exact False.elim h

/-- The values that stand under the name of a field, if it is one of the command. -/
def found (command : CommandName) (members : List (String × Json)) (name : FieldName) : List Json :=
  if name ∈ command.fields then valuesOf members name.text else []

/-- Look at one more member for a field. -/
def gather (command : CommandName) (fields : Fields) (member : String × Json) : Except RequestFault Fields :=
  match command.fields.find? (·.text == member.1) with
  | some field => fields.put field member.2
  | none => .ok fields

theorem found_cons_of_none
    {command : CommandName} {key : String} (h : command.fields.find? (·.text == key) = none) (value : Json)
    (members : List (String × Json)) (name : FieldName) :
    found command ((key, value) :: members) name = found command members name := by
  unfold found
  split
  · next hname =>
      have hne : name.text ≠ key := by simpa using List.find?_eq_none.mp h name hname
      exact valuesOf_cons_of_ne hne.symm value members
  · rfl

theorem found_cons_of_some
    {command : CommandName} {key : String} {field : FieldName}
    (h : command.fields.find? (·.text == key) = some field) (value : Json) (members : List (String × Json)) :
    found command ((key, value) :: members) =
      Function.update (found command members) field (value :: found command members field) := by
  have hmem := List.mem_of_find?_eq_some h
  obtain rfl : field.text = key := by simpa using List.find?_some h
  funext name
  by_cases hname : name = field
  · subst hname
    rw [Function.update_self, found, found, if_pos hmem, if_pos hmem, valuesOf_cons_self]
  · have hne : field.text ≠ name.text := fun hsame => hname (FieldName.text_injective hsame).symm
    rw [Function.update_of_ne hname, found, found, valuesOf_cons_of_ne hne]

theorem gather_eq_ok_iff (command : CommandName) (members : List (String × Json)) (before fields : Fields) :
    members.foldlM (gather command) before = .ok fields ↔
      ∀ name, (fields.value? name).toList = (before.value? name).toList ++ found command members name := by
  induction members generalizing before with
  | nil =>
      have hnone (name : FieldName) : found command [] name = [] := by simp [found]
      simp only [hnone, List.append_nil]
      constructor
      · intro h
        obtain rfl := Except.ok.inj h
        exact fun _ => rfl
      · intro h
        refine congrArg Except.ok (value?_injective (funext fun name => ?_))
        have hname := h name
        cases hbefore : before.value? name <;> cases hvalue : fields.value? name <;> simp_all
  | cons member members ih =>
      obtain ⟨key, value⟩ := member
      rw [List.foldlM_cons]
      cases hfind : command.fields.find? (·.text == key) with
      | none =>
          have hgather : gather command before (key, value) = .ok before := by simp [gather, hfind]
          simp only [hgather, found_cons_of_none hfind]
          exact ih before
      | some field =>
          have hgather : gather command before (key, value) = before.put field value := by simp [gather, hfind]
          have hself (hall : ∀ name, (fields.value? name).toList =
              (before.value? name).toList ++ found command ((key, value) :: members) name) :
              before.value? field = none ∧ fields.value? field = some value := by
            have h := hall field
            rw [found_cons_of_some hfind, Function.update_self] at h
            cases hbefore : before.value? field <;> cases hvalue : fields.value? field <;> simp_all
          rw [hgather, put]
          split
          · next hholds =>
              refine iff_of_false (fun h => by cases h) fun hall => ?_
              rw [holds_eq, (hself hall).1] at hholds
              cases hholds
          · next hholds =>
              rw [holds_eq, Bool.not_eq_true, Option.isSome_eq_false_iff, Option.isNone_iff_eq_none] at hholds
              cases hstore : before.store value field with
              | error fault =>
                  refine iff_of_false (fun h => by cases h) fun hall => ?_
                  obtain ⟨next, hnext⟩ := (exists_store_iff before field value).mpr (fits_value? (hself hall).2)
                  cases hstore.symm.trans hnext
              | ok next =>
                  refine (ih next).trans (forall_congr' fun name => ?_)
                  rw [value?_store hstore, found_cons_of_some hfind]
                  by_cases hname : name = field
                  · subst hname
                    simp [hholds]
                  · simp [Function.update_of_ne hname]

/-- Fields are found just when each of them stands under its name, and no other does. -/
theorem ofMembers_eq_ok_iff (command : CommandName) (members : List (String × Json)) (fields : Fields) :
    ofMembers command members = .ok fields ↔ ∀ name, (fields.value? name).toList = found command members name :=
  (gather_eq_ok_iff command members {} fields).trans (forall_congr' fun name => by cases name <;> rfl)

/-! ## The request -/

theorem need_eq_ok_iff {α : Type} (name : FieldName) {part : Option α} {value : α} :
    need name part = .ok value ↔ part = some value := by
  cases part <;> simp [need]

section Stands

variable {fields : Fields} {name : FieldName} {value other : Json}

theorem stands_iff_of_needed (hname : name.isOptional = false) :
    fields.Stands (name, value) ↔ fields.value? name = some value :=
  or_iff_left fun h => notMem_default_of_needed hname value h.2

theorem stands_iff_of_default
    (hname : (name, other) ∈ [(FieldName.failure, .null), (.start, .bool true), (.keepOutput, .bool false)]) :
    fields.Stands (name, value) ↔ (fields.value? name).getD other = value := by
  have hdefault : (name.text, value) ∈ defaultMembers ↔ other = value := by
    revert hname
    cases name <;> simp +contextual [defaultMembers, FieldName.text, idKey, eq_comm]
  unfold Stands
  rw [hdefault]
  cases fields.value? name <;> simp

end Stands

theorem runStatement_eq_ok_iff (fields : Fields) (statement : StatementRequest) :
    fields.request .runStatement = .ok (.runStatement statement) ↔
      fields.code = some statement.code ∧ fields.success = some statement.success ∧
        fields.failure.join = statement.failure ∧ fields.start.getD true = statement.start ∧
        fields.keepOutput.getD false = statement.keepOutput := by
  obtain ⟨code, success, failure, start, keepOutput⟩ := statement
  cases hcode : fields.code <;> cases hsuccess : fields.success <;>
    simp [Fields.request, need, hcode, hsuccess, bind, Except.bind, pure, Except.pure]

theorem getD_failure_eq_iff (fields : Fields) (failure : Option String) :
    (fields.value? .failure).getD .null = failure.elim .null .string ↔ fields.failure.join = failure := by
  rw [value?]
  cases fields.failure with
  | none => cases failure <;> simp
  | some text => cases text <;> cases failure <;> simp

theorem getD_start_eq_iff (fields : Fields) (start : Bool) :
    (fields.value? .start).getD (.bool true) = .bool start ↔ fields.start.getD true = start := by
  rw [value?]
  cases fields.start <;> simp

theorem getD_keepOutput_eq_iff (fields : Fields) (keepOutput : Bool) :
    (fields.value? .keepOutput).getD (.bool false) = .bool keepOutput ↔ fields.keepOutput.getD false = keepOutput := by
  rw [value?]
  cases fields.keepOutput <;> simp

theorem goto_eq_ok_iff (fields : Fields) (file : Path) (offset : Nat) :
    fields.request .goto = .ok (.goto file offset) ↔ fields.file = some file ∧ fields.offset = some offset := by
  cases hfile : fields.file <;> cases hoffset : fields.offset <;>
    simp [Fields.request, need, hfile, hoffset, bind, Except.bind, pure, Except.pure]

/-- What is made of the fields of a command is a request of the command. -/
theorem command_of_request
    {fields : Fields} {command : CommandName} {request : Request} (h : fields.request command = .ok request) :
    request.command = command := by
  cases command
  case compileFile | compileWorkspace | compileFolders | runCurrentFile | loadAllKnown | run | runIfStarted |
      outputFile =>
    obtain ⟨part, -, rfl⟩ := map_eq_ok_iff.mp h
    rfl
  case runStatement =>
    cases hcode : fields.code <;> cases hsuccess : fields.success <;>
      simp [Fields.request, need, hcode, hsuccess, bind, Except.bind, pure, Except.pure] at h
    obtain rfl := h
    rfl
  case goto =>
    cases hfile : fields.file <;> cases hoffset : fields.offset <;>
      simp [Fields.request, need, hfile, hoffset, bind, Except.bind, pure, Except.pure] at h
    obtain rfl := h
    rfl
  all_goals
    obtain rfl := Except.ok.inj h
    rfl

/-- A request is what its fields are, and what they are by default. -/
theorem request_eq_ok_iff (fields : Fields) (request : Request) :
    fields.request request.command = .ok request ↔ ∀ member ∈ request.fields, fields.Stands member := by
  cases request
  case runStatement statement =>
    simp only [Request.command, Request.fields, List.forall_mem_cons]
    rw [runStatement_eq_ok_iff, stands_iff_of_needed rfl, stands_iff_of_needed rfl,
      stands_iff_of_default (show (FieldName.failure, Json.null) ∈ _ by simp),
      stands_iff_of_default (show (FieldName.start, Json.bool true) ∈ _ by simp),
      stands_iff_of_default (show (FieldName.keepOutput, Json.bool false) ∈ _ by simp),
      getD_failure_eq_iff, getD_start_eq_iff, getD_keepOutput_eq_iff]
    simp [value?]
  case goto file offset =>
    simp only [Request.command, Request.fields, List.forall_mem_cons]
    rw [goto_eq_ok_iff, stands_iff_of_needed rfl, stands_iff_of_needed rfl]
    simp [value?, pathValue_injective.eq_iff, Json.nat]
  case compileFile | compileWorkspace | compileFolders | runCurrentFile | loadAllKnown | run | runIfStarted |
      outputFile =>
    simp only [Request.command, Request.fields, List.forall_mem_cons]
    rw [stands_iff_of_needed rfl]
    simp [Fields.request, map_eq_ok_iff, need_eq_ok_iff, value?, pathValue_injective.eq_iff,
      pathValue_injective.list_map.eq_iff]
  all_goals exact iff_of_true rfl (by simp [Request.fields])

end Fields

/-! ## All members -/

theorem field_text_ne (name : FieldName) : name.text ≠ commandKey ∧ name.text ≠ idKey := by
  cases name <;> decide

theorem given_filter_iff {key other : String} (h : key ≠ other) (members : List (String × Json)) (value : Json) :
    Given (members.filter (·.1 != other)) key value ↔ Given members key value := by
  unfold Given
  rw [valuesOf_filter_ne h]

theorem fits_of_mem_fields {request : Request} {member : FieldName × Json} (h : member ∈ request.fields) :
    member.1.Fits member.2 := by
  revert member
  cases request with
  | runStatement statement =>
      obtain ⟨code, success, failure, start, keepOutput⟩ := statement
      cases failure <;> simp [Request.fields, FieldName.Fits]
  | _ => simp [Request.fields, Request.pathValue, Json.nat, FieldName.Fits]

section Members

variable {members : List (String × Json)}

theorem stands_iff_given
    {command : CommandName} {fields : Fields} (hfields : Fields.ofMembers command members = .ok fields)
    {member : FieldName × Json} (hname : member.1 ∈ command.fields) :
    fields.Stands member ↔ Given members member.1.text member.2 := by
  have hfound := (Fields.ofMembers_eq_ok_iff command members fields).mp hfields member.1
  rw [Fields.found, if_pos hname] at hfound
  unfold Fields.Stands Given
  rw [← hfound]
  cases fields.value? member.1 <;> simp

/-- There are fields for any values that they may have. -/
theorem exists_fields (chosen : FieldName → Option Json) (h : ∀ name, ∀ value ∈ chosen name, name.Fits value) :
    ∃ fields : Fields, fields.value? = chosen := by
  suffices hnames : ∀ names : List FieldName, ∃ fields : Fields, ∀ name,
      fields.value? name = if name ∈ names then chosen name else none by
    obtain ⟨fields, hfields⟩ := hnames FieldName.all
    exact ⟨fields, funext fun name => (hfields name).trans (if_pos (FieldName.mem_all name))⟩
  intro names
  induction names with
  | nil => exact ⟨{}, fun name => by cases name <;> rfl⟩
  | cons first names ih =>
      obtain ⟨fields, hfields⟩ := ih
      cases hfirst : chosen first with
      | none =>
          refine ⟨fields, fun name => ?_⟩
          rw [hfields]
          by_cases hname : name = first
          · subst hname
            simp [hfirst]
          · simp [hname]
      | some value =>
          obtain ⟨next, hnext⟩ := (Fields.exists_store_iff fields first value).mpr (h first value hfirst)
          refine ⟨next, fun name => ?_⟩
          rw [Fields.value?_store hnext]
          by_cases hname : name = first
          · subst hname
            simp [hfirst]
          · simp [hname, hfields]

/-- The fields of a command are found if under each name stands nothing, or one value that the field may have. -/
theorem exists_fields_of_fits
    {command : CommandName}
    (h : ∀ name ∈ command.fields, valuesOf members name.text = [] ∨
      ∃ value, valuesOf members name.text = [value] ∧ name.Fits value) :
    ∃ fields, Fields.ofMembers command members = .ok fields := by
  have hfound (name : FieldName) : Fields.found command members name = [] ∨
      ∃ value, Fields.found command members name = [value] ∧ name.Fits value := by
    unfold Fields.found
    split
    · next hname => exact h name hname
    · exact Or.inl rfl
  let chosen (name : FieldName) : Option Json := (Fields.found command members name).head?
  obtain ⟨fields, hfields⟩ := exists_fields chosen fun name value hvalue => by
    obtain hnone | ⟨other, hone, hfits⟩ := hfound name
    · simp [chosen, hnone] at hvalue
    · obtain rfl : other = value := by simpa [chosen, hone] using hvalue
      exact hfits
  refine ⟨fields, (Fields.ofMembers_eq_ok_iff _ _ _).mpr fun name => ?_⟩
  obtain hnone | ⟨other, hone, -⟩ := hfound name
  · simp [hfields, chosen, hnone]
  · simp [hfields, chosen, hone]

theorem exists_fields_of_given
    {request : Request} (h : ∀ member ∈ request.fields, Given members member.1.text member.2) :
    ∃ fields, Fields.ofMembers request.command members = .ok fields := by
  refine exists_fields_of_fits fun name hname => ?_
  rw [← Request.map_fst_fields] at hname
  obtain ⟨member, hmem, rfl⟩ := List.mem_map.mp hname
  obtain hgiven | ⟨hgiven, -⟩ := h member hmem
  · exact Or.inr ⟨member.2, hgiven, fits_of_mem_fields hmem⟩
  · exact Or.inl hgiven

/-- The members tell a request by its command and its fields. -/
theorem Request.ofMembers_eq_ok_iff (members : List (String × Json)) (request : Request) :
    Request.ofMembers members = .ok request ↔
      (∃ value, valuesOf members commandKey = [value] ∧ CommandName.ofJson value = .ok request.command) ∧
        ∀ member ∈ request.fields, Given members member.1.text member.2 := by
  have hgiven (member : FieldName × Json) :
      Given (members.filter (·.1 != commandKey)) member.1.text member.2 ↔ Given members member.1.text member.2 :=
    given_filter_iff (field_text_ne member.1).1 members member.2
  have hname {member : FieldName × Json} (hmem : member ∈ request.fields) : member.1 ∈ request.command.fields := by
    rw [← Request.map_fst_fields]
    exact List.mem_map_of_mem hmem
  rw [← CommandName.ofMembers_eq_ok_iff]
  unfold Request.ofMembers
  constructor
  · intro h
    cases hcommand : CommandName.ofMembers members with
    | error fault => simp [hcommand, bind, Except.bind] at h
    | ok command =>
        cases hfields : Fields.ofMembers command (members.filter (·.1 != commandKey)) with
        | error fault => simp [hcommand, hfields, bind, Except.bind] at h
        | ok fields =>
            simp only [hcommand, hfields, bind, Except.bind] at h
            obtain rfl := Fields.command_of_request h
            refine ⟨rfl, fun member hmem => ?_⟩
            rw [← hgiven, ← stands_iff_given hfields (hname hmem)]
            exact (Fields.request_eq_ok_iff fields request).mp h member hmem
  · rintro ⟨hcommand, hall⟩
    obtain ⟨fields, hfields⟩ := exists_fields_of_given fun member hmem => (hgiven member).mpr (hall member hmem)
    simp only [hcommand, hfields, bind, Except.bind]
    refine (Fields.request_eq_ok_iff fields request).mpr fun member hmem => ?_
    rw [stands_iff_given hfields (hname hmem), hgiven]
    exact hall member hmem

theorem idValue?_eq_some_iff (value : Json) (id : Option Nat) :
    idValue? value = some id ↔ value = id.elim .null .nat := by
  cases id with
  | none =>
      cases value with
      | number number => cases number <;> simp [idValue?]
      | _ => simp [idValue?]
  | some id =>
      cases value with
      | number number => cases number <;> simp [idValue?, Json.nat]
      | _ => simp [idValue?, Json.nat]

theorem noted_iff_given (members : List (String × Json)) (id : Option Nat) :
    (∃ noted, Noted noted (members.filter (·.1 == idKey)) ∧ noted.join = id) ↔
      Given members idKey (id.elim .null .nat) := by
  unfold Given valuesOf
  have hkey : ∀ member ∈ members.filter (·.1 == idKey), member.1 = idKey := fun member hmem => by
    simpa using (List.mem_filter.mp hmem).2
  generalize members.filter (·.1 == idKey) = ids at hkey
  constructor
  · rintro ⟨noted, hnoted, rfl⟩
    cases hnoted with
    | nothing => exact Or.inr ⟨rfl, by simp [defaultMembers]⟩
    | once hvalue => exact Or.inl (by simp [(idValue?_eq_some_iff _ _).mp hvalue])
  · rintro (hone | ⟨hnone, hdefault⟩)
    · obtain ⟨member, rfl, hvalue⟩ := List.map_eq_singleton_iff.mp hone
      obtain ⟨key, value⟩ := member
      obtain rfl : key = idKey := hkey _ List.mem_cons_self
      exact ⟨some id, .once ((idValue?_eq_some_iff _ _).mpr hvalue), rfl⟩
    · obtain rfl := List.map_eq_nil_iff.mp hnone
      refine ⟨none, .nothing, ?_⟩
      cases id with
      | none => rfl
      | some id => simp [defaultMembers, FieldName.text, idKey, Json.nat] at hdefault

/-- The members tell a request just when they ask for it. -/
theorem asks_iff_told (members : List (String × Json)) (envelope : Envelope) :
    Asks members envelope ↔ Told members envelope := by
  have hgiven (member : FieldName × Json) :
      Given (members.filter (·.1 != idKey)) member.1.text member.2 ↔ Given members member.1.text member.2 :=
    given_filter_iff (field_text_ne member.1).2 members member.2
  have hcommand := valuesOf_filter_ne (show commandKey ≠ idKey by decide) members
  constructor
  · rintro ⟨hnoted, hrequest⟩
    obtain ⟨hvalue, hfields⟩ := (Request.ofMembers_eq_ok_iff _ _).mp hrequest
    rw [hcommand] at hvalue
    exact ⟨hvalue, (noted_iff_given members _).mp hnoted, fun member hmem => (hgiven member).mp (hfields member hmem)⟩
  · rintro ⟨hvalue, hid, hfields⟩
    rw [← hcommand] at hvalue
    exact ⟨(noted_iff_given members _).mpr hid, (Request.ofMembers_eq_ok_iff _ _).mpr
      ⟨hvalue, fun member hmem => (hgiven member).mpr (hfields member hmem)⟩⟩

end Members

/-- A text is a request just when it is an object whose members tell it. -/
theorem Envelope.read_eq_ok_iff_told (text : String) (envelope : Envelope) :
    read text = .ok envelope ↔ ∃ members, Json.read text = .ok (.object members) ∧ Told members envelope := by
  simp only [read_eq_ok_iff, asks_iff_told]

end CompilerRelay
