import ClassLift.Pool.Basic

/-!
# Adding constants to a pool

Interning a constant finds its first occurrence or appends it. A composite constant is interned after its parts, and the
parts that were appended stay when a later one no longer fits.
-/

namespace ClassLift

/-- A computation that may extend a pool and may run out of room. What it appended before it failed stays. -/
abbrev Interning := ExceptT PoolError (StateM Pool)

namespace Pool

def limit : Nat := 65535

def append (pool : Pool) (constant : Constant) : Pool :=
  ⟨if constant.isWide then (pool.entries.push (some constant)).push none else pool.entries.push (some constant)⟩

def push (constant : Constant) : Interning PoolIndex := fun pool =>
  if pool.count + constant.slots > limit then (.error .overflow, pool)
  else (.ok (.ofNat pool.count), pool.append constant)

def indexOf? (pool : Pool) (constant : Constant) : Option PoolIndex :=
  (pool.entries.findIdx? (· == some constant)).map UInt16.ofNat

def intern (constant : Constant) : Interning PoolIndex := fun pool =>
  match pool.indexOf? constant with
  | some index => (.ok index, pool)
  | none => push constant pool

def internUtf8 (text : String) : Interning PoolIndex := intern (.utf8 text)

def internClass (name : String) : Interning PoolIndex := do
  intern (.classInfo (← internUtf8 name))

def internString (text : String) : Interning PoolIndex := do
  intern (.string (← internUtf8 text))

def internNameAndType (name descriptor : String) : Interning PoolIndex := do
  let nameIndex ← internUtf8 name
  let descriptorIndex ← internUtf8 descriptor
  intern (.nameAndType nameIndex descriptorIndex)

def internField (owner name descriptor : String) : Interning PoolIndex := do
  let ownerIndex ← internClass owner
  let nameAndTypeIndex ← internNameAndType name descriptor
  intern (.fieldRef ownerIndex nameAndTypeIndex)

def internMethod (owner name descriptor : String) : Interning PoolIndex := do
  let ownerIndex ← internClass owner
  let nameAndTypeIndex ← internNameAndType name descriptor
  intern (.methodRef ownerIndex nameAndTypeIndex)

end Pool

end ClassLift
