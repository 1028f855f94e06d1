import Reassembly.Proofs.Opening

/-!
Which headers are accepted: those that begin like a header that formatting writes, and no others. What
decides are the bytes of the fixed fields; the counters and the padding do not matter, and a hash that fits
does not make up for offsets that the geometry does not give.
-/

namespace Reassembly

namespace Store

open Bytes

/-- The fixed fields of two headers stand there in the same bytes. -/
def SameTitle (a b : ByteArray) : Prop := slice a 0 20 = slice b 0 20 ∧ slice a 24 32 = slice b 24 32

section
variable {a b : ByteArray} {offset : Nat}

theorem u32At_eq_iff (first : offset + 4 ≤ a.size) (second : offset + 4 ≤ b.size) :
    u32At a offset = u32At b offset ↔ slice a offset 4 = slice b offset 4 := by
  constructor
  · intro same
    rw [← ofU32_u32At first, ← ofU32_u32At second, same]
  · exact u32At_congr

theorem u64At_eq_iff (first : offset + 8 ≤ a.size) (second : offset + 8 ≤ b.size) :
    u64At a offset = u64At b offset ↔ slice a offset 8 = slice b offset 8 := by
  constructor
  · intro same
    rw [← ofU64_u64At first, ← ofU64_u64At second, same]
  · exact u64At_congr

theorem sameTitle_iff (first : headerSize ≤ a.size) (second : headerSize ≤ b.size) :
    SameTitle a b ↔ slice a 0 magic.size = slice b 0 magic.size ∧ u32At a 8 = u32At b 8 ∧
      HeaderFields.ofBytes a = HeaderFields.ofBytes b := by
  rw [headerSize] at first second
  have front : slice a 0 20 = slice b 0 20 ↔ slice a 0 8 = slice b 0 8 ∧ slice a 8 4 = slice b 8 4 ∧
      slice a 12 4 = slice b 12 4 ∧ slice a 16 4 = slice b 16 4 := by
    apply (@slice_add_eq_iff a b 0 8 12).trans
    apply and_congr_right'
    apply (@slice_add_eq_iff a b 8 4 8).trans
    exact and_congr_right' (@slice_add_eq_iff a b 12 4 4)
  have back : slice a 24 32 = slice b 24 32 ↔ slice a 24 8 = slice b 24 8 ∧ slice a 32 8 = slice b 32 8 ∧
      slice a 40 8 = slice b 40 8 ∧ slice a 48 8 = slice b 48 8 := by
    apply (@slice_add_eq_iff a b 24 8 24).trans
    apply and_congr_right'
    apply (@slice_add_eq_iff a b 32 8 16).trans
    exact and_congr_right' (@slice_add_eq_iff a b 40 8 8)
  unfold SameTitle HeaderFields.ofBytes
  rw [front, back, HeaderFields.mk.injEq, u32At_eq_iff (by omega) (by omega), u32At_eq_iff (by omega) (by omega),
    u32At_eq_iff (by omega) (by omega), u64At_eq_iff (by omega) (by omega), u64At_eq_iff (by omega) (by omega),
    u64At_eq_iff (by omega) (by omega), u64At_eq_iff (by omega) (by omega), size_magic]
  simp only [and_assoc]

end

namespace Layout

variable {header : ByteArray} {l : Layout}

theorem ofBytes_congr {a b : ByteArray} (first : headerSize ≤ a.size) (second : headerSize ≤ b.size)
    (same : SameTitle a b) : ofBytes a = ofBytes b := by
  obtain ⟨marks, versions, fields⟩ := (sameTitle_iff first second).mp same
  unfold ofBytes
  rw [if_neg (Nat.not_lt.mpr first), if_neg (Nat.not_lt.mpr second)]
  simp only [marks, versions, fields]

theorem ofBytes_toBytes (l : Layout) : ofBytes l.toBytes = .ok l := by
  apply ofBytes_title
  · rw [size_toBytes]
  · rfl

theorem title_of_ofBytes (found : ofBytes header = .ok l) :
    headerSize ≤ header.size ∧ slice header 0 magic.size = magic ∧ u32At header 8 = formatVersion := by
  unfold ofBytes at found
  split at found
  · cases found
  · next long =>
    split at found
    · cases found
    · next marked =>
      dsimp only at found
      split at found
      · cases found
      · next version =>
        refine ⟨Nat.not_lt.mp long, ?_, not_not.mp version⟩
        apply ByteArray.ext
        exact not_not.mp marked

theorem ofBytes_eq_ok_iff : ofBytes header = .ok l ↔ headerSize ≤ header.size ∧ SameTitle header l.toBytes := by
  have size : headerSize ≤ l.toBytes.size := by rw [size_toBytes]
  constructor
  · intro found
    obtain ⟨long, marked, version⟩ := title_of_ofBytes found
    have fields := fields_of_ofBytes found
    refine ⟨long, (sameTitle_iff long size).mpr ⟨?_, ?_, ?_⟩⟩
    · rw [marked]
      exact (HeaderFields.magic_toBytes l.fields).symm
    · rw [version]
      exact (HeaderFields.version_toBytes l.fields).symm
    · rw [fields]
      exact (HeaderFields.ofBytes_toBytes l.fields).symm
  · rintro ⟨long, same⟩
    rw [ofBytes_congr long size same, ofBytes_toBytes]

theorem isLayout_of_ofBytes {fault : Fault} (refused : ofBytes header = .error fault) : fault.isLayout = true := by
  unfold ofBytes at refused
  split at refused
  · obtain rfl := Except.error.inj refused
    rfl
  split at refused
  · obtain rfl := Except.error.inj refused
    rfl
  dsimp only at refused
  split at refused
  · obtain rfl := Except.error.inj refused
    rfl
  split at refused
  · obtain rfl := Except.error.inj refused
    rfl
  split at refused
  · obtain rfl := Except.error.inj refused
    rfl
  · split at refused
    · obtain rfl := Except.error.inj refused
      rfl
    · cases refused

/-- Offsets that the geometry in the same header does not give. -/
def IsForeign (f : HeaderFields) : Prop :=
  f.indexOffset ≠ UInt64.ofNat headerSize ∨ f.slabOffset ≠ slabOffsetFor f.maxBlocks ∨
    f.slotSize ≠ slotSizeFor f.blockCapacity

theorem not_isForeign (l : Layout) : ¬ IsForeign l.fields := by
  unfold IsForeign
  simp [fields, slabOffset, slotSize]

theorem ofBytes_of_isForeign (foreign : IsForeign (HeaderFields.ofBytes header)) :
    ∃ fault, ofBytes header = .error fault := by
  cases found : ofBytes header with
  | error fault => exact ⟨fault, rfl⟩
  | ok l =>
    rw [fields_of_ofBytes found] at foreign
    exact absurd foreign l.not_isForeign

end Layout

end Store

/-- The first bytes of a region can be read: memory is always there, a file may have been cut. -/
def Region.Offers (r : Region) (len : Nat) : Prop :=
  match r.handle.place with
  | .memory _ => True
  | .file .. => len ≤ r.bytes.size

theorem Region.read_front {r : Region} {len : Nat} (some : 0 < len) (long : len ≤ r.handle.length) :
    (r.Offers len ∧ Region.read 0 len r = .ok (r.bytes.read 0 len) r) ∨
      (¬ r.Offers len ∧ Region.read 0 len r = .error .io r) := by
  have inside : Region.check 0 len r = .ok () r := by
    unfold Region.check
    exact if_pos (by omega)
  rw [Region.read, Work.bind_ok inside]
  unfold Region.fetch Region.Offers
  cases r.handle.place with
  | memory index => exact .inl ⟨trivial, rfl⟩
  | file shown place =>
    by_cases reaches : len ≤ r.bytes.size
    · apply Or.inl
      refine ⟨reaches, ?_⟩
      exact if_pos (.inr (by omega))
    · apply Or.inr
      refine ⟨reaches, ?_⟩
      exact if_neg (by omega)

namespace Store.Layout

open Bytes

theorem attach_eq_ok_iff {r r' : Region} {l : Layout} :
    attach r = .ok l r' ↔ r' = r ∧ l.required ≤ r.handle.length ∧ r.Offers headerSize ∧
      ofBytes (r.bytes.read 0 headerSize) = .ok l := by
  have room : headerSize ≤ l.required := l.headerSize_le_slab.trans l.slab_le_required
  rw [attach, Work.bind_ok (Work.get_run _)]
  by_cases short : r.handle.length < headerSize
  · simp only [if_pos short]
    constructor
    · intro ran
      cases ran
    · rintro ⟨_, long, _⟩
      omega
  simp only [if_neg short]
  rcases Region.read_front (by decide) (Nat.not_lt.mp short) with ⟨offered, read⟩ | ⟨cut, failed⟩
  · rw [Work.bind_ok read]
    constructor
    · intro ran
      obtain ⟨l', r₁, parsed, ran⟩ := Work.of_bind_ok ran
      obtain ⟨found, rfl⟩ := Work.of_check_ok parsed
      obtain ⟨_, r₂, checked, ran⟩ := Work.of_bind_ok ran
      obtain ⟨rfl, rfl⟩ := EStateM.Result.ok.inj ran
      unfold checkLength at checked
      split at checked
      · cases checked
      · next long =>
        obtain ⟨_, rfl⟩ := EStateM.Result.ok.inj checked
        exact ⟨rfl, Nat.not_lt.mp long, offered, found⟩
    · rintro ⟨rfl, long, _, found⟩
      have checked : l.checkLength r' = .ok () r' := by
        unfold checkLength
        exact if_neg (Nat.not_lt.mpr long)
      rw [Work.bind_ok (Work.check_ok found r'), Work.bind_ok checked]
      rfl
  · rw [Work.bind_error failed]
    constructor
    · intro ran
      cases ran
    · rintro ⟨_, _, offered, _⟩
      exact absurd offered cut

/-- A header is accepted exactly when it is long enough and begins, its padding apart, like the header that
formatting writes for some geometry; and a region is attached to exactly when it begins with such a header
and is as long as its layout. What formatting writes is accepted, counters and padding do not matter, offsets
that the geometry does not give are refused whatever the hash is, and every refusal says that the region
cannot be trusted. -/
theorem recognizes (header : ByteArray) (l : Layout) :
    (ofBytes header = .ok l ↔ headerSize ≤ header.size ∧ ∃ capacity maxBlocks,
      ofGeometry capacity maxBlocks = .ok l ∧ slice header 0 20 = slice l.toBytes 0 20 ∧
        slice header 24 32 = slice l.toBytes 24 32) ∧
    (∀ fault, ofBytes header = .error fault → fault.isLayout = true) ∧
    (∀ r r' : Region, attach r = .ok l r' ↔ r' = r ∧ l.required ≤ r.handle.length ∧ r.Offers headerSize ∧
      ofBytes (r.bytes.read 0 headerSize) = .ok l) ∧
    ofBytes l.toBytes = .ok l ∧
    (∀ other : ByteArray, headerSize ≤ header.size → headerSize ≤ other.size → SameTitle header other →
      ofBytes header = ofBytes other) ∧
    (IsForeign (HeaderFields.ofBytes header) → ∃ fault, ofBytes header = .error fault) := by
  refine ⟨?_, fun _ => isLayout_of_ofBytes, fun _ _ => attach_eq_ok_iff, ofBytes_toBytes l,
    fun _ => ofBytes_congr, ofBytes_of_isForeign⟩
  rw [ofBytes_eq_ok_iff]
  constructor
  · rintro ⟨long, front, back⟩
    exact ⟨long, _, _, l.ofGeometry_self, front, back⟩
  · rintro ⟨long, _, _, _, front, back⟩
    exact ⟨long, front, back⟩

/-- Slots that begin one place too late, under a hash that fits. -/
example :
    let late : HeaderFields := ⟨64, 8, 128, 328, 104, 0⟩
    let signed := { late with checksum := late.computedChecksum }
    let own : Layout := ⟨64, 8, by decide, by decide, by decide⟩
    ofBytes signed.toBytes = .error (.layoutMismatch (.foreignOffsets signed own.fields)) := by decide +kernel

end Store.Layout

end Reassembly
