import ClassLift.Proofs.Initializer.EnumOrder
import ClassLift.Proofs.Survey.Accessor
import ClassLift.Proofs.Survey.OrdinalStore

namespace ClassLift

namespace ClassFile

open OrdinalStore (At Dense entry firstWith caseOrder)

variable {file : ClassFile} {className : String} {store : Store} {found : OrdinalStore} {stores : List OrdinalStore}
  {keyed : List (PoolIndex × OrdinalStore)}

/-! ## Maps in fields -/

def IsMap (file : ClassFile) (className : String) (store : Store) (id : NodeId) (key : PoolIndex) : Prop :=
  ∃ index field, store.kind? id = some (.read (.static index)) ∧ file.pool.member index = .ok field ∧
    field.owner = className ∧ "$SwitchMap$".toList <+: field.name.toList ∧ field.nameIndex = key

theorem switchMapKey?_ok {result : Option PoolIndex} {key : PoolIndex}
    (ran : file.switchMapKey? className store found = .ok result) :
    result = some key ↔ file.IsMap className store found.map key := by
  unfold switchMapKey? at ran
  split at ran
  case h_1 index static =>
    obtain ⟨field, reads, ran⟩ := except_bind_ok.mp ran
    have alike : file.IsMap className store found.map key ↔
        (field.owner = className ∧ "$SwitchMap$".toList <+: field.name.toList) ∧ field.nameIndex = key := by
      constructor
      · rintro ⟨_, _, otherStatic, otherReads, own, named, keyed⟩
        cases static.symm.trans otherStatic
        cases reads.symm.trans otherReads
        exact ⟨⟨own, named⟩, keyed⟩
      · rintro ⟨⟨own, named⟩, keyed⟩
        exact ⟨index, field, static, reads, own, named, keyed⟩
    rw [alike]
    split at ran
    · rename_i own
      cases ran
      simpa using fun _ => own
    · rename_i other
      cases ran
      simpa using fun own named => absurd (by simp [own, named]) other
  case h_2 other =>
    cases ran
    refine iff_of_false (by simp) ?_
    rintro ⟨index, _, static, _⟩
    exact other index static

theorem IsMap.unique {id : NodeId} {key other : PoolIndex} (one : file.IsMap className store id key)
    (second : file.IsMap className store id other) : key = other := by
  obtain ⟨_, _, static, reads, _, _, rfl⟩ := one
  obtain ⟨_, _, otherStatic, otherReads, _, _, rfl⟩ := second
  cases static.symm.trans otherStatic
  cases reads.symm.trans otherReads
  rfl

def Keys (file : ClassFile) (className : String) (store : Store) (found : OrdinalStore)
    (keyed : PoolIndex × PoolIndex × Int32) : Prop :=
  file.IsMap className store found.map keyed.1 ∧ keyed.2 = found.entry

theorem keyedStores_ok (ran : file.keyedStores className store stores = .ok keyed) :
    Gathers (file.Keys className store) stores (keyed.map fun pair => (pair.1, pair.2.entry)) := by
  induction stores generalizing keyed with
  | nil =>
    cases ran
    exact .nil
  | cons found rest continues =>
    obtain ⟨key, read, ran⟩ := except_bind_ok.mp ran
    obtain ⟨others, later, ran⟩ := except_bind_ok.mp ran
    cases ran
    cases key with
    | none =>
      refine .skip ?_ (continues later)
      rintro value ⟨isMap, _⟩
      cases (switchMapKey?_ok read).mpr isMap
    | some key => exact .take ⟨(switchMapKey?_ok read).mp rfl, rfl⟩ (continues later)

@[simp] theorem recordSwitchMap_switchMaps (keyed : List (PoolIndex × OrdinalStore)) (file : ClassFile) (key : PoolIndex) :
    (recordSwitchMap keyed file key).switchMaps =
      file.switchMaps.insert key (caseOrder ((keyed.filter (·.1 == key)).map (·.2))) := by
  unfold recordSwitchMap
  extract_lets stores isCache marked
  have marks : marked.switchMaps = file.switchMaps := by
    unfold marked
    cases file.fields.findIdx? isCache <;> rfl
  rw [marks]

theorem foldl_recordSwitchMap (keyed : List (PoolIndex × OrdinalStore)) (keys : List PoolIndex) (file : ClassFile)
    (key : PoolIndex) :
    (keys.foldl (recordSwitchMap keyed) file).switchMaps[key]? =
      if key ∈ keys then some (caseOrder ((keyed.filter (·.1 == key)).map (·.2))) else file.switchMaps[key]? := by
  induction keys generalizing file with
  | nil => rfl
  | cons first rest continues =>
    rw [List.foldl_cons, continues, recordSwitchMap_switchMaps, Std.TreeMap.getElem?_insert]
    by_cases later : key ∈ rest
    · rw [if_pos later, if_pos (List.mem_cons_of_mem _ later)]
    · rw [if_neg later]
      by_cases here : first = key
      · subst here
        rw [if_pos (by simp), if_pos List.mem_cons_self]
      · rw [if_neg (by simpa using here), if_neg (by simp [later, Ne.symm here])]

def FillsMap (file : ClassFile) (store : Store) (id : NodeId) (keyed : PoolIndex × PoolIndex × Int32) : Prop :=
  ∃ className found, file.name = .ok className ∧ At file.pool store id found ∧ file.Keys className store found keyed

/-- The stores into switch maps that the static initializer of the class makes, in the order of the walk. -/
def FillsMaps (file : ClassFile) (stores : List (PoolIndex × PoolIndex × Int32)) : Prop :=
  ∃ index code, file.staticInitializer? = some index ∧ file.code? index = some code ∧
    Gathers (file.FillsMap code.store) (code.statements.flatMap code.store.preorder) stores

def entriesOf (stores : List (PoolIndex × PoolIndex × Int32)) (key : PoolIndex) : List (PoolIndex × Int32) :=
  (stores.filter (·.1 == key)).map (·.2)

theorem FillsMap.unique {id : NodeId} {one other : PoolIndex × PoolIndex × Int32} (first : file.FillsMap store id one)
    (second : file.FillsMap store id other) : one = other := by
  obtain ⟨className, found, named, here, isMap, entries⟩ := first
  obtain ⟨_, _, otherNamed, there, otherMap, otherEntries⟩ := second
  cases named.symm.trans otherNamed
  cases here.unique there
  exact Prod.ext (isMap.unique otherMap) (entries.trans otherEntries.symm)

theorem FillsMaps.unique {stores others : List (PoolIndex × PoolIndex × Int32)} (one : file.FillsMaps stores)
    (other : file.FillsMaps others) : stores = others := by
  obtain ⟨_, _, initializer, body, gathered⟩ := one
  obtain ⟨_, _, sameInitializer, sameBody, otherGathered⟩ := other
  cases initializer.symm.trans sameInitializer
  cases body.symm.trans sameBody
  exact gathered.unique otherGathered fun _ _ _ => FillsMap.unique

theorem fillsMaps_of_keyed {index : Nat} {code : Code} (initializer : file.staticInitializer? = some index)
    (body : file.code? index = some code) (named : file.name = .ok className)
    (collected : OrdinalStore.collect file.pool code.store code.statements = .ok stores)
    (read : file.keyedStores className code.store stores = .ok keyed) :
    file.FillsMaps (keyed.map fun pair => (pair.1, pair.2.entry)) := by
  have both := (OrdinalStore.collect_ok collected).comp (keyedStores_ok read) fun _ _ _ => At.unique
  refine ⟨index, code, initializer, body, both.mono fun id value => ?_⟩
  constructor
  · rintro ⟨found, here, keys⟩
    exact ⟨className, found, named, here, keys⟩
  · rintro ⟨_, found, same, here, keys⟩
    cases named.symm.trans same
    exact ⟨found, here, keys⟩

theorem decodeSwitchMaps_ok {stores : List (PoolIndex × PoolIndex × Int32)} {after : ClassFile} (fills : file.FillsMaps stores)
    (ran : file.decodeSwitchMaps = .ok after) (key : PoolIndex) :
    ∃ found, found.map entry = entriesOf stores key ∧ after.switchMaps[key]? =
      if key ∈ stores.map Prod.fst then some (caseOrder found) else file.switchMaps[key]? := by
  obtain ⟨index, code, initializer, body, gathered⟩ := fills
  unfold decodeSwitchMaps at ran
  rw [initializer, Option.bind_some, body] at ran
  obtain ⟨className, named, ran⟩ := except_bind_ok.mp ran
  obtain ⟨found, collected, ran⟩ := except_bind_ok.mp ran
  obtain ⟨keyed, read, ran⟩ := except_bind_ok.mp ran
  cases ran
  obtain rfl := FillsMaps.unique ⟨index, code, initializer, body, gathered⟩
    (fillsMaps_of_keyed initializer body named collected read)
  refine ⟨(keyed.filter (·.1 == key)).map (·.2), ?_, ?_⟩
  · simp only [entriesOf, List.filter_map, List.map_map]
    rfl
  · rw [foldl_recordSwitchMap, List.map_map]
    exact if_congr List.mem_eraseDups rfl rfl

/-! Reading the constants of an enum leaves the switch maps alone. -/

def KeepsMaps (before after : ClassFile) : Prop := after.switchMaps = before.switchMaps

instance : Std.Refl KeepsMaps := ⟨fun _ => rfl⟩

instance : IsTrans ClassFile KeepsMaps := ⟨fun _ _ _ first second => Eq.trans second first⟩

theorem decodeEnum_keeps {after : ClassFile} (ran : decodeEnum file = (.ok (), after)) :
    ∃ middle, file.decodeSwitchMaps = .ok middle ∧ after.switchMaps = middle.switchMaps := by
  have keeps : Preserves KeepsMaps decodeEnumValues := decodeEnumValues_preserves (fun _ _ => rfl) (fun _ _ => rfl) fun _ _ => rfl
  obtain ⟨middle, decoded, ran⟩ := decodeEnum_run ran
  refine ⟨middle, decoded, ?_⟩
  split at ran
  · exact keeps.of_run ran
  · cases ran
    rfl

theorem decodeEnum_switchMaps {stores : List (PoolIndex × PoolIndex × Int32)} {after : ClassFile}
    (fills : file.FillsMaps stores) (ran : decodeEnum file = (.ok (), after)) (key : PoolIndex) :
    ∃ found, found.map entry = entriesOf stores key ∧ after.switchMaps[key]? =
      if key ∈ stores.map Prod.fst then some (caseOrder found) else file.switchMaps[key]? := by
  obtain ⟨middle, decoded, same⟩ := decodeEnum_keeps ran
  rw [same]
  exact decodeSwitchMaps_ok fills decoded key

/-! ## Maps in local variables -/

def FillsLocal (pool : Pool) (store : Store) (id : NodeId) (stored : PoolIndex × Int32) : Prop :=
  ∃ found, At pool store id found ∧ (∃ type slot, store.kind? found.map = some (.read (.slot type slot))) ∧ stored = found.entry

/-- A switch table method that makes these stores, all of whose calls to `ordinal` can be read. -/
structure IsTable (file : ClassFile) (method : Method) (code : Code) (stores : List (PoolIndex × Int32)) : Prop where
  static : method.access.isStatic = true
  synthetic : method.access.isSynthetic = true
  descriptor : file.pool.utf8 method.descriptorIndex = .ok "()[I"
  named : ∃ name, file.pool.utf8 method.nameIndex = .ok name ∧ isSwitchTableName name = true
  body : method.code = some code
  legible : ∀ id ∈ code.instructions.flatMap code.store.preorder, ∀ kind, code.store.kind? id = some kind →
    OrdinalStore.Legible file.pool code.store kind
  fills : Gathers (FillsLocal file.pool code.store) (code.instructions.flatMap code.store.preorder) stores

theorem gathers_locals (store : Store) (stores : List OrdinalStore) :
    Gathers (fun found stored => (∃ type slot, store.kind? found.map = some (.read (.slot type slot))) ∧ stored = found.entry)
      stores ((stores.filter fun found => store.isSlotRead found.map).map entry) := by
  induction stores with
  | nil => exact .nil
  | cons found rest continues =>
    by_cases slot : store.isSlotRead found.map = true
    · rw [List.filter_cons_of_pos (l := rest) (a := found) slot]
      exact .take ⟨Accessor.isSlotRead_iff.mp slot, rfl⟩ continues
    · rw [List.filter_cons_of_neg (l := rest) (a := found) slot]
      exact .skip (fun _ here => slot (Accessor.isSlotRead_iff.mpr here.1)) continues

theorem FillsLocal.unique {pool : Pool} {id : NodeId} {one other : PoolIndex × Int32} (first : FillsLocal pool store id one)
    (second : FillsLocal pool store id other) : one = other := by
  obtain ⟨found, here, _, rfl⟩ := first
  obtain ⟨_, there, _, rfl⟩ := second
  rw [here.unique there]

theorem IsTable.switchTableOf?_ok {method : Method} {code : Code} {stores : List (PoolIndex × Int32)}
    (table : file.IsTable method code stores) (filled : stores ≠ []) :
    ∃ found, found.map entry = stores ∧ file.switchTableOf? method = .ok (some (method.nameIndex, caseOrder found)) := by
  obtain ⟨name, named, isName⟩ := table.named
  obtain ⟨collected, ran⟩ := OrdinalStore.collect_returns table.legible
  have both := (OrdinalStore.collect_ok ran).comp (gathers_locals code.store collected) fun _ _ _ => At.unique
  have same := both.unique table.fills fun _ _ _ => FillsLocal.unique
  refine ⟨_, same, ?_⟩
  unfold switchTableOf?
  rw [table.static, table.synthetic, table.descriptor, named, table.body]
  dsimp only [bind, Except.bind]
  rw [isName, ran]
  dsimp only
  cases among : collected.filter fun found => code.store.isSlotRead found.map with
  | nil =>
    rw [among] at same
    exact absurd same.symm filled
  | cons first rest => rfl

/-! ## The order of the stores -/

theorem entriesOf_ne_nil {stores : List (PoolIndex × PoolIndex × Int32)} {key : PoolIndex} (stored : key ∈ stores.map Prod.fst) :
    entriesOf stores key ≠ [] := by
  obtain ⟨keyed, among, rfl⟩ := List.mem_map.mp stored
  exact List.ne_nil_of_mem (List.mem_map_of_mem (List.mem_filter.mpr ⟨among, beq_self_eq_true _⟩))

theorem entriesOf_perm {stores permuted : List (PoolIndex × PoolIndex × Int32)} (same : permuted.Perm stores) (key : PoolIndex) :
    (entriesOf permuted key).Perm (entriesOf stores key) :=
  (same.filter _).map _

/-- The labels of each map are the numbers from one up. The constants of a map then stand at the places of their labels, the first
that is stored counts, and a table in a local variable gives the same list. If no label is stored twice, the stores may come in
any order. -/
theorem decodeEnum_orders_constants (file after : ClassFile) (stores : List (PoolIndex × PoolIndex × Int32))
    (fills : file.FillsMaps stores) (ran : decodeEnum file = (.ok (), after)) :
    (∀ key ∈ stores.map Prod.fst, ∀ count, Dense (entriesOf stores key) count →
      ∃ constants, after.switchMaps[key]? = some constants ∧ constants.length = count ∧
        (∀ number, 1 ≤ number → number ≤ count → constants[number - 1]? = firstWith (entriesOf stores key) number) ∧
        ∀ (other : ClassFile) (method : Method) (code : Code), other.IsTable method code (entriesOf stores key) →
          other.switchTableOf? method = .ok (some (method.nameIndex, constants))) ∧
    ∀ (other last : ClassFile) (permuted : List (PoolIndex × PoolIndex × Int32)), permuted.Perm stores →
      (∀ key ∈ stores.map Prod.fst, ∃ count, Dense (entriesOf stores key) count ∧ ((entriesOf stores key).map Prod.snd).Nodup) →
        other.FillsMaps permuted → decodeEnum other = (.ok (), last) →
          (∀ key : PoolIndex, key ∉ stores.map Prod.fst → other.switchMaps[key]? = file.switchMaps[key]?) →
            ∀ key : PoolIndex, last.switchMaps[key]? = after.switchMaps[key]? := by
  refine ⟨fun key stored count dense => ?_, fun other last permuted same once fillsOther ranOther start key => ?_⟩
  · obtain ⟨found, entries, recorded⟩ := decodeEnum_switchMaps fills ran key
    rw [if_pos stored] at recorded
    have filled := entriesOf_ne_nil stored
    rw [← entries] at dense filled ⊢
    obtain ⟨length, places⟩ := OrdinalStore.caseOrder_places dense
    refine ⟨caseOrder found, recorded, length, places, fun other method code table => ?_⟩
    obtain ⟨locals, alike, returned⟩ := table.switchTableOf?_ok filled
    rw [returned, OrdinalStore.caseOrder_congr dense (.of_eq alike) fun number => by rw [alike]]
  · obtain ⟨found, entries, recorded⟩ := decodeEnum_switchMaps fills ran key
    obtain ⟨others, otherEntries, otherRecorded⟩ := decodeEnum_switchMaps fillsOther ranOther key
    have keys : key ∈ permuted.map Prod.fst ↔ key ∈ stores.map Prod.fst := (same.map Prod.fst).mem_iff
    rw [recorded, otherRecorded]
    by_cases stored : key ∈ stores.map Prod.fst
    · obtain ⟨count, dense, distinct⟩ := once key stored
      have permutes := entriesOf_perm same key
      rw [← entries] at dense distinct permutes
      rw [← otherEntries] at permutes
      rw [if_pos stored, if_pos (keys.mpr stored),
        OrdinalStore.caseOrder_congr dense permutes (OrdinalStore.firstWith_perm permutes distinct)]
    · rw [if_neg stored, if_neg (mt keys.mp stored), start key stored]

/-! A map of two constants, which are stored in the order of the statements, one of them in a `try`. -/

def mapPool : Pool :=
  ⟨#[none, some (.utf8 "Main$1"), some (.classInfo 1), some (.utf8 "<clinit>"), some (.utf8 "()V"), some (.utf8 "$SwitchMap$E"),
    some (.utf8 "[I"), some (.nameAndType 5 6), some (.fieldRef 2 7), some (.utf8 "E"), some (.classInfo 9), some (.utf8 "A"),
    some (.utf8 "LE;"), some (.nameAndType 11 12), some (.fieldRef 10 13), some (.utf8 "B"), some (.nameAndType 15 12),
    some (.fieldRef 10 16), some (.utf8 "ordinal"), some (.utf8 "()I"), some (.nameAndType 18 19), some (.methodRef 10 20),
    some (.utf8 "$SWITCH_TABLE$E"), some (.utf8 "()[I")]⟩

def mapStores (array : Place) : Store :=
  ⟨#[⟨0, none, .read array⟩, ⟨1, none, .read (.static 17)⟩, ⟨2, none, .call .virtual 21 (some 1) []⟩,
    ⟨3, none, .literal (.int 2)⟩, ⟨4, none, .write (.element .int 0 2) 3⟩, ⟨5, none, .read array⟩, ⟨6, none, .read (.static 14)⟩,
    ⟨7, none, .call .virtual 21 (some 6) []⟩, ⟨8, none, .literal (.int 1)⟩, ⟨9, none, .write (.element .int 5 7) 8⟩,
    ⟨10, none, .tryCatch [9] [] []⟩]⟩

def mapClass (statements : List NodeId) : ClassFile where
  thisIndex := 2
  pool := mapPool
  methods := #[{
    access := ⟨8⟩, nameIndex := 3, descriptorIndex := 4
    code := some { store := mapStores (.static 8), statements } }]

def tableCode : Code := { store := mapStores (.slot .reference 0), instructions := [4, 10] }

def tableMethod : Method := { access := ⟨0x1008⟩, nameIndex := 22, descriptorIndex := 23, code := some tableCode }

theorem mapClass_fillsMaps {statements : List NodeId}
    (collected : OrdinalStore.collect mapPool (mapStores (.static 8)) statements = .ok stores)
    (read : (mapClass statements).keyedStores "Main$1" (mapStores (.static 8)) stores = .ok keyed) :
    (mapClass statements).FillsMaps (keyed.map fun pair => (pair.1, pair.2.entry)) := by
  have initializer : (mapClass statements).staticInitializer? = some 0 := by with_unfolding_all rfl
  exact fillsMaps_of_keyed initializer rfl rfl collected read

theorem mapClass_fillsMaps_falling : (mapClass [4, 10]).FillsMaps [(5, 15, 2), (5, 11, 1)] := by
  have collected : OrdinalStore.collect mapPool (mapStores (.static 8)) [4, 10] = .ok [⟨0, 15, 2⟩, ⟨5, 11, 1⟩] := rfl
  have read : (mapClass [4, 10]).keyedStores "Main$1" (mapStores (.static 8)) [⟨0, 15, 2⟩, ⟨5, 11, 1⟩] =
    .ok [(5, ⟨0, 15, 2⟩), (5, ⟨5, 11, 1⟩)] := rfl
  exact mapClass_fillsMaps collected read

theorem mapClass_fillsMaps_rising : (mapClass [10, 4]).FillsMaps [(5, 11, 1), (5, 15, 2)] := by
  have collected : OrdinalStore.collect mapPool (mapStores (.static 8)) [10, 4] = .ok [⟨5, 11, 1⟩, ⟨0, 15, 2⟩] := rfl
  have read : (mapClass [10, 4]).keyedStores "Main$1" (mapStores (.static 8)) [⟨5, 11, 1⟩, ⟨0, 15, 2⟩] =
    .ok [(5, ⟨5, 11, 1⟩), (5, ⟨0, 15, 2⟩)] := rfl
  exact mapClass_fillsMaps collected read

theorem tableMethod_isTable (statements : List NodeId) :
    (mapClass statements).IsTable tableMethod tableCode [(15, 2), (11, 1)] where
  static := rfl
  synthetic := rfl
  descriptor := rfl
  named := ⟨"$SWITCH_TABLE$E", rfl, by with_unfolding_all rfl⟩
  body := rfl
  legible id among kind found := by
    rw [← OrdinalStore.ofKind?_returns_iff]
    have order : tableCode.instructions.flatMap tableCode.store.preorder = [4, 0, 2, 1, 3, 10, 9, 5, 7, 6, 8] := rfl
    simp only [order, List.mem_cons, List.not_mem_nil, or_false] at among
    rcases among with rfl | rfl | rfl | rfl | rfl | rfl | rfl | rfl | rfl | rfl | rfl <;> cases found <;> exact ⟨_, rfl⟩
  fills := by
    have collected : OrdinalStore.collect mapPool tableCode.store [4, 10] = .ok [⟨0, 15, 2⟩, ⟨5, 11, 1⟩] := rfl
    exact (OrdinalStore.collect_ok collected).comp (gathers_locals tableCode.store _) fun _ _ _ => At.unique

theorem mapClass_dense : Dense (entriesOf [(5, 15, 2), (5, 11, 1)] 5) 2 where
  within entry among := by
    change entry ∈ [(15, 2), (11, 1)] at among
    simp only [List.mem_cons, List.not_mem_nil, or_false] at among
    rcases among with rfl | rfl
    · exact ⟨2, by decide, by decide, rfl⟩
    · exact ⟨1, by decide, by decide, rfl⟩
  covered number more most := by
    obtain rfl | rfl : number = 1 ∨ number = 2 := by omega
    · exact ⟨(11, 1), by decide, rfl⟩
    · exact ⟨(15, 2), by decide, rfl⟩

theorem decodeEnum_orders_mapClass :
    (mapClass [4, 10]).FillsMaps [(5, 15, 2), (5, 11, 1)] ∧ (mapClass [10, 4]).FillsMaps [(5, 11, 1), (5, 15, 2)] ∧
      (decodeEnum (mapClass [4, 10])).1 = .ok () ∧
      (decodeEnum (mapClass [4, 10])).2.switchMaps[(5 : PoolIndex)]? = some [11, 15] ∧
      (decodeEnum (mapClass [10, 4])).2.switchMaps[(5 : PoolIndex)]? = some [11, 15] ∧
      (mapClass [4, 10]).switchTableOf? tableMethod = .ok (some (22, [11, 15])) := by
  have ran : decodeEnum (mapClass [4, 10]) = (.ok (), (decodeEnum (mapClass [4, 10])).2) :=
    Prod.ext (by with_unfolding_all rfl) rfl
  have ranRising : decodeEnum (mapClass [10, 4]) = (.ok (), (decodeEnum (mapClass [10, 4])).2) :=
    Prod.ext (by with_unfolding_all rfl) rfl
  obtain ⟨places, orders⟩ := decodeEnum_orders_constants _ _ _ mapClass_fillsMaps_falling ran
  obtain ⟨constants, recorded, length, place, table⟩ := places 5 (by decide) 2 mapClass_dense
  obtain rfl : constants = [11, 15] := by
    obtain ⟨one, two, rfl⟩ := List.length_eq_two.mp length
    have first := place 1 (by decide) (by decide)
    have second := place 2 (by decide) (by decide)
    cases first
    cases second
    rfl
  have same := orders _ _ _ (.swap _ _ _) (fun key stored => ?_) mapClass_fillsMaps_rising ranRising (fun _ _ => rfl) 5
  · exact ⟨mapClass_fillsMaps_falling, mapClass_fillsMaps_rising, congrArg Prod.fst ran, recorded, same.trans recorded,
      table _ _ _ (tableMethod_isTable [4, 10])⟩
  · obtain rfl : key = 5 := by simpa using stored
    exact ⟨2, mapClass_dense, by decide⟩

end ClassFile

end ClassLift
