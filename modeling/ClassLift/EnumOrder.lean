import ClassLift.Survey.SwitchMap

/-!
# Enums

An enum class keeps an array of its constants in a compiler-made field, filled in `<clinit>` with an array literal or by a
method that returns one. The literal gives the order of declaration. Switch maps of other enums are filled in the `<clinit>` of
a compiler-made class and decoded here too.
-/

namespace ClassLift

/-- An action on a class that reads its pool. What it changed before it failed stays. -/
abbrev Decoding := ExceptT PoolError (StateM ClassFile)

instance : MonadLift (Except PoolError) Decoding where
  monadLift result := fun file => (result, file)

namespace ClassFile

/-! ## Switch maps -/

/-- The name index of the own `$SwitchMap$` field that an ordinal store goes to. -/
def switchMapKey? (file : ClassFile) (className : String) (store : Store) (found : OrdinalStore) :
    Except PoolError (Option PoolIndex) :=
  match store.kind? found.map with
  | some (.read (.static index)) => do
      let field ← file.pool.member index
      if field.owner == className && "$SwitchMap$".toList.isPrefixOf field.name.toList then return some field.nameIndex
      return none
  | _ => .ok none

def keyedStores (file : ClassFile) (className : String) (store : Store) :
    List OrdinalStore → Except PoolError (List (PoolIndex × OrdinalStore))
  | [] => .ok []
  | found :: rest => do
      let key ← file.switchMapKey? className store found
      let others ← file.keyedStores className store rest
      return key.elim others fun key => (key, found) :: others

def recordSwitchMap (keyed : List (PoolIndex × OrdinalStore)) (file : ClassFile) (key : PoolIndex) : ClassFile :=
  let stores := (keyed.filter (·.1 == key)).map (·.2)
  let isCache (field : Field) : Bool :=
    field.nameIndex == key || (file.pool.utf8 key).toOption.any (field.hasName file.pool)
  let file := (file.fields.findIdx? isCache).elim file (file.modifyField · Field.markSynthetic)
  { file with switchMaps := file.switchMaps.insert key (OrdinalStore.caseOrder stores) }

def decodeSwitchMaps (file : ClassFile) : Except PoolError ClassFile := do
  let some code := file.staticInitializer?.bind file.code? | return file
  let className ← file.name
  let stores ← OrdinalStore.collect file.pool code.store code.statements
  let keyed ← file.keyedStores className code.store stores
  return (keyed.map (·.1)).eraseDups.foldl (recordSwitchMap keyed) file

/-! ## The order of the constants -/

def literalConstants? (pool : Pool) (store : Store) (value : NodeId) : Except PoolError (Option (List PoolIndex)) :=
  match store.kind? value with
  | some (.arrayLiteral _ values) => names values
  | _ => .ok none
where
  names : List NodeId → Except PoolError (Option (List PoolIndex))
    | [] => .ok (some [])
    | id :: rest =>
        match store.kind? id with
        | some (.read (.static field)) => do
            let first := (← pool.member field).nameIndex
            return (← names rest).map (first :: ·)
        | _ => .ok none

def returnedConstants? (file : ClassFile) (method : Nat) : Except PoolError (Option (List PoolIndex)) :=
  match file.code? method with
  | none => .ok none
  | some code =>
      let returned := code.statements.findSome? fun id =>
        match code.store.kind? id with
        | some (.ret (some value)) => some value
        | _ => none
      returned.elim (.ok none) (literalConstants? file.pool code.store)

def writtenValue? (pool : Pool) (className fieldName : String) (store : Store) :
    List NodeId → Except PoolError (Option NodeId)
  | [] => .ok none
  | id :: rest =>
      match store.kind? id with
      | some (.write (.static index) value) => do
          let target ← pool.member index
          if target.owner == className && target.name == fieldName then return some value
          writtenValue? pool className fieldName store rest
      | _ => writtenValue? pool className fieldName store rest

/-- The value of the field of all constants: lifted into its declaration, or still in the static initializer. -/
def valuesOf? (file : ClassFile) (className : String) (field : Field) : Except PoolError (Option Initializer) := do
  if let some found := field.initializer then return some found
  let some method := file.staticInitializer? | return none
  let some code := file.code? method | return none
  let fieldName ← file.pool.utf8 field.nameIndex
  return (← writtenValue? file.pool className fieldName code.store code.statements).map (⟨method, ·⟩)

def markMethod (file : ClassFile) (name descriptor : String) : ClassFile :=
  (file.findMethod? name descriptor).elim file (file.modifyMethod · Method.markSynthetic)

def recordEnumValues (file : ClassFile) (className : String) (constants : List PoolIndex) : ClassFile :=
  let file := { file with enumValues := some constants }
  (file.markMethod "values" ("()[L" ++ className ++ ";")).markMethod "valueOf"
    ("(Ljava/lang/String;)L" ++ className ++ ";")

def enumConstants? (className : String) (values : Initializer) : Decoding (Option (List PoolIndex)) := do
  let file ← get
  let some code := file.code? values.method | return none
  match code.store.kind? values.value with
  | some (.call .static index _ _) =>
      let called ← file.pool.member index
      if called.owner != className || called.name != "$values" then return none
      let some method := file.findMethod? called.name called.descriptor | return none
      modify (·.modifyMethod method Method.markSynthetic)
      file.returnedConstants? method
  | _ => literalConstants? file.pool code.store values.value

def decodeEnumValues : Decoding Unit := do
  let file ← get
  let className ← file.name
  let descriptor := "[L" ++ className ++ ";"
  let some index := (file.findField? "$VALUES" descriptor).or (file.findField? "ENUM$VALUES" descriptor) | return
  modify (·.modifyField index Field.markSynthetic)
  let some field := file.fields[index]? | return
  let some values ← file.valuesOf? className field | return
  let some constants ← enumConstants? className values | return
  modify (·.recordEnumValues className constants)

def decodeEnum : Decoding Unit := do
  set (← (← get).decodeSwitchMaps)
  if (← get).isEnum then decodeEnumValues

end ClassFile

end ClassLift
