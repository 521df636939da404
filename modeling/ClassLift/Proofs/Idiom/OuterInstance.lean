import ClassLift.Idiom.OuterInstance
import ClassLift.Proofs.Idiom.OnTable
import ClassLift.Proofs.Body.Store
import ClassLift.Proofs.Survey.Accessor

namespace ClassLift

namespace OuterInstance

def importMember (home owner : ClassId) : Accessor → OnTable PoolIndex
  | .call method _ => importMethod home owner method
  | accessor => importField home owner accessor.member

/-- What replaces a call of an accessor: the call as a value, or the statement that drops its result. -/
inductive Expands (store : Store) (id : NodeId) (member : PoolIndex) : Accessor → List NodeId → Store → Prop
  | readStatic {field : PoolIndex} :
      Expands store id member (.readStatic field) [] (store.replace id (.read (.static member)))
  | readField {field : PoolIndex} {object : NodeId} :
      Expands store id member (.readField field) [object] (store.replace id (.read (.field member object)))
  | assignStatic {field : PoolIndex} {value : NodeId} :
      Expands store id member (.writeStatic field) [value]
        ((store.allocate id (.read (.static member))).2.replace id (.assign .plain store.size value))
  | assignField {field : PoolIndex} {object value : NodeId} :
      Expands store id member (.writeField field) [object, value]
        ((store.allocate id (.read (.field member object))).2.replace id (.assign .plain store.size value))
  | callStatic {method : PoolIndex} {arguments : List NodeId} :
      Expands store id member (.call method true) arguments (store.replace id (.call .static member none arguments))
  | callVirtual {method : PoolIndex} {object : NodeId} {arguments : List NodeId} :
      Expands store id member (.call method false) (object :: arguments)
        (store.replace id (.call .virtual member (some object) arguments))
  | writeStatic {field : PoolIndex} {value : NodeId} :
      Expands store id member (.writeStatic field) [value] (store.replace id (.write (.static member) value))
  | writeField {field : PoolIndex} {object value : NodeId} :
      Expands store id member (.writeField field) [object, value] (store.replace id (.write (.field member object) value))

variable {table last : ClassTable} {home owner : ClassId} {store changed : Store} {id statement : NodeId}
  {arguments : List NodeId} {accessor : Accessor}

theorem inlineCall_ok (ran : inlineCall home owner store id arguments accessor table = (.ok changed, last)) :
    changed = store ∧ last = table ∨
      ∃ member, importMember home owner accessor table = (.ok member, last) ∧
        Expands store id member accessor arguments changed := by
  cases accessor with
  | readStatic field =>
    simp only [inlineCall] at ran
    split at ran
    · exact .inl (OnTable.return_ok ran)
    · rename_i nonempty
      obtain rfl : arguments = [] := by simpa using nonempty
      obtain ⟨member, imported, rfl⟩ := OnTable.map_ok ran
      exact .inr ⟨member, imported, .readStatic⟩
  | readField field =>
    simp only [inlineCall] at ran
    split at ran
    · obtain ⟨member, imported, rfl⟩ := OnTable.map_ok ran
      exact .inr ⟨member, imported, .readField⟩
    · exact .inl (OnTable.return_ok ran)
  | writeStatic field =>
    simp only [inlineCall, Store.allocate_fst] at ran
    split at ran
    · obtain ⟨member, imported, rfl⟩ := OnTable.map_ok ran
      exact .inr ⟨member, imported, .assignStatic⟩
    · exact .inl (OnTable.return_ok ran)
  | writeField field =>
    simp only [inlineCall, Store.allocate_fst] at ran
    split at ran
    · obtain ⟨member, imported, rfl⟩ := OnTable.map_ok ran
      exact .inr ⟨member, imported, .assignField⟩
    · exact .inl (OnTable.return_ok ran)
  | call method isStatic =>
    cases isStatic with
    | true =>
      obtain ⟨member, imported, rfl⟩ := OnTable.map_ok ran
      exact .inr ⟨member, imported, .callStatic⟩
    | false =>
      simp only [inlineCall] at ran
      split at ran
      · obtain ⟨member, imported, rfl⟩ := OnTable.map_ok ran
        exact .inr ⟨member, imported, .callVirtual⟩
      · exact .inl (OnTable.return_ok ran)

theorem inlineSetter_ok (ran : inlineSetter home store statement table = (.ok changed, last)) :
    changed = store ∧ last = table ∨
      ∃ call kind arguments accessor owner member, droppedCall? store statement = some call ∧ store.kind? call = some kind ∧
        (∃ method object, kind = .call .static method object arguments) ∧
        accessor? table ((table.get? home).elim {} ClassFile.pool) kind = .ok (some (accessor, owner)) ∧
        importMember home owner accessor table = (.ok member, last) ∧
        Expands store statement member accessor arguments changed := by
  unfold inlineSetter at ran
  cases dropped : droppedCall? store statement with
  | none =>
    rw [dropped] at ran
    exact .inl (OnTable.return_ok ran)
  | some call =>
    cases found : store.kind? call with
    | none =>
      simp only [dropped, found] at ran
      exact .inl (OnTable.return_ok ran)
    | some kind =>
      simp only [dropped, found, OnTable.get_bind_ok, OnTable.pool_bind_ok, OnTable.read_bind_ok] at ran
      obtain ⟨exposed, looked, ran⟩ := ran
      cases exposed with
      | none => exact .inl (OnTable.return_ok ran)
      | some pair =>
        obtain ⟨accessor, owner⟩ := pair
        have static : ∃ method object arguments, kind = .call .static method object arguments := by
          unfold accessor? at looked
          split at looked
          · exact ⟨_, _, _, rfl⟩
          · cases looked
        obtain ⟨method, object, arguments, rfl⟩ := static
        cases accessor with
        | writeStatic field =>
          match arguments, looked, found, ran with
          | [value], looked, found, ran =>
            obtain ⟨member, imported, rfl⟩ := OnTable.map_ok ran
            exact .inr ⟨call, _, _, _, owner, member, rfl, found, ⟨_, _, rfl⟩, looked, imported, .writeStatic⟩
          | [], _, _, ran | _ :: _ :: _, _, _, ran => exact .inl (OnTable.return_ok ran)
        | writeField field =>
          match arguments, looked, found, ran with
          | [object, value], looked, found, ran =>
            obtain ⟨member, imported, rfl⟩ := OnTable.map_ok ran
            exact .inr ⟨call, _, _, _, owner, member, rfl, found, ⟨_, _, rfl⟩, looked, imported, .writeField⟩
          | [], _, _, ran | [_], _, _, ran | _ :: _ :: _ :: _, _, _, ran => exact .inl (OnTable.return_ok ran)
        | readStatic field => exact .inl (OnTable.return_ok ran)
        | readField field => exact .inl (OnTable.return_ok ran)
        | call method isStatic => exact .inl (OnTable.return_ok ran)

theorem foldNode_ok (ran : foldNode home store id table = (.ok changed, last)) :
    changed = store ∧ last = table ∨
      (∃ kind arguments accessor owner member, store.kind? id = some kind ∧
        (∃ method object, kind = .call .static method object arguments) ∧
        accessor? table ((table.get? home).elim {} ClassFile.pool) kind = .ok (some (accessor, owner)) ∧
        importMember home owner accessor table = (.ok member, last) ∧
        Expands store id member accessor arguments changed) ∨
      ∃ field object kind name type, store.kind? id = some (.read (.field field object)) ∧ store.kind? object = some kind ∧
        outerName? table home ((table.get? home).elim {} ClassFile.pool) field kind = .ok (some name) ∧
        OnTable.interning home (Pool.internClass name) table = (.ok type, last) ∧
        changed = store.replace id (.outerThis type) := by
  unfold foldNode at ran
  generalize store.kind? id = shape at ran ⊢
  split at ran
  case h_1 _ method object arguments =>
    simp only [OnTable.get_bind_ok, OnTable.pool_bind_ok, OnTable.read_bind_ok] at ran
    obtain ⟨exposed, looked, ran⟩ := ran
    cases exposed with
    | none => exact .inl (OnTable.return_ok ran)
    | some pair =>
      obtain ⟨accessor, owner⟩ := pair
      rcases inlineCall_ok ran with unchanged | ⟨member, imported, expands⟩
      · exact .inl unchanged
      · exact .inr (.inl ⟨_, arguments, accessor, owner, member, rfl, ⟨method, object, rfl⟩, looked, imported, expands⟩)
  case h_2 _ field object =>
    cases foundObject : store.kind? object with
    | none =>
      simp only [foundObject] at ran
      exact .inl (OnTable.return_ok ran)
    | some kind =>
      simp only [foundObject, OnTable.get_bind_ok, OnTable.pool_bind_ok, OnTable.read_bind_ok] at ran
      obtain ⟨named, looked, ran⟩ := ran
      cases named with
      | none => exact .inl (OnTable.return_ok ran)
      | some name =>
        obtain ⟨type, interned, same⟩ := OnTable.map_ok ran
        exact .inr (.inr ⟨field, object, kind, name, type, rfl, foundObject, looked, interned, same⟩)
  case h_3 => exact .inl (OnTable.return_ok ran)

end OuterInstance

end ClassLift
