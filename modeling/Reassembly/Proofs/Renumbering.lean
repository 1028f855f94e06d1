import Reassembly.Proofs.Refinement

/-!
Stores whose blocks go by other numbers. A number counts for nothing but which blocks are the same and
which of two that start alike came first; so stores that differ in the numbers of some blocks are compared
by a renaming of references.
-/

namespace Reassembly

open Store

/-- References change their numbers only, and different ones stay different. -/
structure Renames (rename : Ref → Ref) : Prop where
  injective : Function.Injective rename
  key : ∀ ref, (rename ref).key = ref.key

namespace Store

/-- The same block under another reference and in another slot. -/
structure Item.Twin (rename : Ref → Ref) (x y : Item) : Prop where
  ref : y.ref = rename x.ref
  header : y.header = x.header
  body : y.body = x.body

/-- The same block under another reference; if its number is from before `next`, in the same slot. -/
structure Item.Renumbered (next : UInt64) (rename : Ref → Ref) (x y : Item) : Prop
    extends x.Twin rename y where
  slot : x.ref.generation < next → y.slot = x.slot

variable {rename : Ref → Ref} {x y : Item}

namespace Item.Twin

variable (twin : x.Twin rename y)
include twin

theorem isPayload : y.isPayload = x.isPayload := by
  rw [Item.isPayload, Item.isPayload, twin.header]

theorem grown (start : Seq) (chunk : ByteArray) (now : Micros) :
    (x.grown start chunk now).Twin rename (y.grown start chunk now) := by
  refine ⟨twin.ref, ?_, ?_⟩
  · rw [Item.grown, Item.grown, twin.header]
  · rw [Item.grown, Item.grown, twin.body]

variable (renames : Renames rename)
include renames

theorem key : y.key = x.key := (congrArg Ref.key twin.ref).trans (renames.key x.ref)

theorem start : y.start = x.start := congrArg FlowKey.seq (twin.key renames)

theorem lane : y.lane = x.lane := congrArg FlowKey.lane (twin.key renames)

end Item.Twin

end Store

def PerSide.map {α β : Type} (f : α → β) (p : PerSide α) : PerSide β :=
  ⟨f p.source, f p.destination⟩

namespace PerSide

variable {α β : Type} (f : α → β) (p : PerSide α)

@[simp] theorem get_map (side : Side) : (p.map f).get side = f (p.get side) := by
  cases side <;> rfl

theorem map_set (value : α) (side : Side) : (p.set value side).map f = (p.map f).set (f value) side := by
  cases side <;> rfl

theorem map_eq_self {f : α → α} {p : PerSide α} (same : ∀ side, f (p.get side) = p.get side) :
    p.map f = p := by
  have source : f p.source = p.source := same .source
  have destination : f p.destination = p.destination := same .destination
  rw [map, source, destination]

end PerSide

def SideCursor.renumbered (rename : Ref → Ref) (cursor : SideCursor) : SideCursor :=
  { cursor with openBlock := cursor.openBlock.map rename }

def WriterFlow.renumbered (rename : Ref → Ref) (writer : WriterFlow) : WriterFlow :=
  { writer with sides := writer.sides.map (·.renumbered rename) }

def Attachment.renumbered (rename : Ref → Ref) (a : Attachment) : Attachment :=
  { a with writers := a.writers.map fun _ writer => writer.renumbered rename }

theorem WriterFlow.openBlock_renumbered (rename : Ref → Ref) (writer : WriterFlow) (side : Side) :
    ((writer.renumbered rename).sides.get side).openBlock =
      ((writer.sides.get side).openBlock).map rename := by
  rw [renumbered, PerSide.get_map, SideCursor.renumbered]

theorem WriterFlow.initialSeq_renumbered (rename : Ref → Ref) (writer : WriterFlow) (side : Side) :
    ((writer.renumbered rename).sides.get side).initialSeq = (writer.sides.get side).initialSeq := by
  rw [renumbered, PerSide.get_map, SideCursor.renumbered]

theorem WriterFlow.renumbered_eq_self {rename : Ref → Ref} {writer : WriterFlow}
    (same : ∀ side ref, (writer.sides.get side).openBlock = some ref → rename ref = ref) :
    writer.renumbered rename = writer := by
  rw [renumbered, PerSide.map_eq_self]
  intro side
  rw [SideCursor.renumbered]
  cases current : (writer.sides.get side).openBlock with
  | none =>
    rw [Option.map_none, ← current]
  | some ref =>
    rw [Option.map_some, same side ref current, ← current]

theorem Attachment.renumbered_eq_self {rename : Ref → Ref} {a : Attachment}
    (same : WriterFlows.Opens (fun _ _ ref => rename ref = ref) a.writers) :
    a.renumbered rename = a := by
  suffices writers : a.writers.map (fun _ writer => writer.renumbered rename) = a.writers by
    rw [renumbered, writers]
  refine Std.ExtTreeMap.ext_getElem? fun flow => ?_
  rw [Std.ExtTreeMap.getElem?_map]
  cases known : a.writers[flow]? with
  | none => rfl
  | some writer => exact congrArg some (WriterFlow.renumbered_eq_self fun side ref => same _ _ side ref known)

def exchanged (next first second number : Nat) : Nat :=
  if number < next then number
  else if number < next + first then number + second
  else if number < next + first + second then number - first
  else number

theorem exchanged_injective (next first second : Nat) : Function.Injective (exchanged next first second) := by
  intro one other same
  simp only [exchanged] at same
  split_ifs at same <;> omega

theorem exchanged_lt {next first second number bound : Nat} (last : next + first + second ≤ bound)
    (small : number < bound) : exchanged next first second number < bound := by
  rw [exchanged]
  split_ifs <;> omega

def exchange (next : UInt64) (first second : Nat) (ref : Ref) : Ref :=
  ⟨ref.key, .ofNat (exchanged next.toNat first second ref.generation.toNat)⟩

section Exchange

variable {next : UInt64} {first second : Nat} (last : next.toNat + first + second ≤ UInt64.size)
include last

theorem generation_exchange (ref : Ref) : (exchange next first second ref).generation.toNat =
    exchanged next.toNat first second ref.generation.toNat := by
  rw [exchange, UInt64.toNat_ofNat']
  exact Nat.mod_eq_of_lt (exchanged_lt last ref.generation.toNat_lt)

theorem renames_exchange : Renames (exchange next first second) := by
  refine ⟨fun one other same => ?_, fun ref => rfl⟩
  have numbers : exchanged next.toNat first second one.generation.toNat =
      exchanged next.toNat first second other.generation.toNat := by
    rw [← generation_exchange last, ← generation_exchange last, same]
  have key := congrArg Ref.key same
  change one.key = other.key at key
  have generation := UInt64.toNat_inj.mp (exchanged_injective _ _ _ numbers)
  cases one
  cases other
  cases key
  cases generation
  rfl

end Exchange

theorem exchange_eq {next : UInt64} {first second : Nat} {number other : UInt64}
    (moved : exchanged next.toNat first second number.toNat = other.toNat) (key : FlowKey) :
    exchange next first second ⟨key, number⟩ = ⟨key, other⟩ := by
  rw [exchange, moved, UInt64.ofNat_toNat]

theorem exchange_of_lt {next : UInt64} {ref : Ref} (old : ref.generation < next) (first second : Nat) :
    exchange next first second ref = ref := by
  rw [UInt64.lt_iff_toNat_lt] at old
  rw [exchange, exchanged, if_pos old, UInt64.ofNat_toNat]

namespace Store.Catalog.Written

variable {a b c : Catalog} {count more : Nat}

theorem entry_of_ref (written : Written a count b) (separate : b.Distinct) {old item : Item}
    (known : old ∈ a.items) (there : item ∈ b.items) (same : old.ref = item.ref) :
    item.entry = old.entry := by
  obtain ⟨still, present, kept⟩ := written.keeps known
  obtain rfl := separate.eq_of_ref there present (same.symm.trans kept.ref_eq.symm)
  exact kept.entry

theorem renumbered {rename : Ref → Ref} {x y : Item} (one : Written a count b) (other : Written a more c)
    (numbered : a.Numbered) (last : a.nextGeneration.toNat + count < UInt64.size) (separate : c.Distinct)
    (old : ∀ ref : Ref, ref.generation < a.nextGeneration → rename ref = ref) (first : x ∈ b.items)
    (second : y ∈ c.items) (twin : x.Twin rename y) : x.Renumbered a.nextGeneration rename y := by
  obtain ⟨numbered', precedes⟩ := one.numbered numbered last
  refine ⟨twin, fun early => ?_⟩
  rcases precedes.fresh x first with ⟨known, there, same⟩ | late
  · have same' : known.ref = y.ref := by rw [twin.ref, old _ early, same]
    have entry := one.entry_of_ref numbered'.refs there first same
    have entry' := other.entry_of_ref separate there second same'
    exact congrArg Entry.slot (entry'.trans entry.symm)
  · exact absurd early (UInt64.not_lt.mpr late)

end Store.Catalog.Written

end Reassembly
