import Reassembly.Proofs.Locking

/-!
Where catalogs begin. Formatting makes a region carry the empty catalog, whatever it held. Attaching
to a region that carries a catalog finds the layout that it was formatted with: the counters, which
move, stand behind the fields that the header's hash protects.
-/

namespace Reassembly.Store

open Bytes

@[simp] theorem size_magic : magic.size = 8 := rfl

namespace HeaderFields

@[simp] theorem size_toBytes (f : HeaderFields) : f.toBytes.size = headerSize := by
  simp [toBytes, headerSize]

theorem ofBytes_toBytes (f : HeaderFields) : ofBytes f.toBytes = f := by
  simp (disch := simp) only [ofBytes, toBytes, u32At, u64At, wordAt_append_left,
    wordAt_append_right, ByteArray.size_append, size_magic, size_ofU32, size_ofU64, size_zeros,
    Nat.reduceAdd, Nat.reduceSub, wordAt_ofU32, wordAt_ofU64, UInt32.ofNat_toNat,
    UInt64.ofNat_toNat]

theorem version_toBytes (f : HeaderFields) : u32At f.toBytes 8 = formatVersion := by
  simp (disch := simp) only [toBytes, u32At, wordAt_append_left]
  rw [wordAt_append_right _ _ (by rw [size_magic]), size_magic, Nat.sub_self, wordAt_ofU32,
    UInt32.ofNat_toNat]

theorem magic_toBytes (f : HeaderFields) : slice f.toBytes 0 magic.size = magic := by
  refine ext_byteAt ?_ fun place => ?_
  · rw [size_slice, size_toBytes, headerSize, size_magic]
    rfl
  · rw [byteAt_slice, Nat.zero_add]
    split
    · next inside =>
      simp only [toBytes]
      repeat rw [byteAt_append, if_pos (by simp only [ByteArray.size_append, size_magic,
        size_ofU32, size_ofU64, size_zeros] at inside ⊢; omega)]
    · next outside => exact (byteAt_of_size_le _ (Nat.not_lt.mp outside)).symm

end HeaderFields

namespace Layout
open Catalog

@[simp] theorem size_toBytes (l : Layout) : l.toBytes.size = headerSize := HeaderFields.size_toBytes _

theorem ofGeometry_self (l : Layout) : ofGeometry l.blockCapacity l.maxBlocks = .ok l := by
  rw [ofGeometry, dif_pos l.framable, dif_pos l.inhabited, dif_pos l.fits]

theorem wordAt_title {l : Layout} {header : ByteArray}
    (title : slice header 0 titleSize = slice l.toBytes 0 titleSize) {offset width : Nat}
    (inside : offset + width ≤ titleSize) :
    wordAt header offset width = wordAt l.toBytes offset width := by
  refine wordAt_congr (ext_byteAt ?_ fun place => ?_)
  · have sizes := congrArg ByteArray.size title
    rw [size_slice, size_slice, size_toBytes, headerSize] at sizes
    rw [size_slice, size_slice, size_toBytes, headerSize]
    rw [titleSize] at sizes inside
    omega
  · rw [byteAt_slice, byteAt_slice]
    split
    · have same := congrArg (byteAt · (offset + place)) title
      rw [byteAt_slice, byteAt_slice, if_pos (by omega), if_pos (by omega), Nat.zero_add] at same
      exact same
    · rfl

theorem ofBytes_title {l : Layout} {header : ByteArray} (long : headerSize ≤ header.size)
    (title : slice header 0 titleSize = slice l.toBytes 0 titleSize) :
    ofBytes header = .ok l := by
  have marked : slice header 0 magic.size = magic := by
    have front := HeaderFields.magic_toBytes l.fields
    refine Eq.trans (ext_byteAt ?_ fun place => ?_) front
    · rw [headerSize] at long
      rw [size_slice, size_slice, HeaderFields.size_toBytes, headerSize, size_magic]
      omega
    · rw [byteAt_slice, byteAt_slice]
      split
      · next inside =>
        rw [size_magic] at inside
        have same := congrArg (byteAt · place) title
        rw [byteAt_slice, byteAt_slice, titleSize, if_pos (by omega), if_pos (by omega)] at same
        exact same
      · rfl
  have version : u32At header 8 = formatVersion := by
    rw [u32At, wordAt_title title (by decide)]
    exact HeaderFields.version_toBytes l.fields
  have fields : HeaderFields.ofBytes header = l.fields := by
    rw [← HeaderFields.ofBytes_toBytes l.fields]
    simp only [HeaderFields.ofBytes, u32At, u64At]
    rw [wordAt_title title (by decide), wordAt_title title (by decide),
      wordAt_title title (by decide), wordAt_title title (by decide),
      wordAt_title title (by decide), wordAt_title title (by decide)]
    rfl
  have geometry : ofGeometry l.fields.blockCapacity l.fields.maxBlocks = .ok l := ofGeometry_self l
  have checked : l.fields.checksum = l.fields.computedChecksum := by
    simp only [Layout.fields, HeaderFields.computedChecksum]
  rw [ofBytes, if_neg (Nat.not_lt.mpr long), if_neg (by rw [marked]; simp)]
  simp only [version, fields, checked, geometry, ne_eq, not_true_eq_false, if_false]

theorem fields_of_ofBytes {header : ByteArray} {l : Layout} (found : ofBytes header = .ok l) :
    HeaderFields.ofBytes header = l.fields := by
  unfold ofBytes at found
  split at found
  · cases found
  split at found
  · cases found
  dsimp only at found
  split at found
  · cases found
  split at found
  · cases found
  split at found
  · cases found
  · split at found
    · cases found
    · next same =>
      obtain rfl := Except.ok.inj found
      exact (not_not.mp same).symm

theorem ofGeometry_eq {capacity maxBlocks : UInt32} {l : Layout}
    (found : ofGeometry capacity maxBlocks = .ok l) :
    l.blockCapacity = capacity ∧ l.maxBlocks = maxBlocks := by
  unfold ofGeometry at found
  split at found
  · split at found
    · split at found
      · obtain rfl := Except.ok.inj found
        exact ⟨rfl, rfl⟩
      · cases found
    · cases found
  · cases found

end Layout

namespace Catalog

def empty : Catalog := ⟨[], [], 0, 0⟩

theorem Ordered.empty (l : Layout) : Catalog.empty.Ordered l where
  sorted := List.Pairwise.nil
  nodup := List.nodup_nil
  inside := fun _ listed => absurd listed List.not_mem_nil
  full := rfl
  high := UInt32.le_iff_toNat_le.mpr (Nat.zero_le _)
  fits := fun _ listed => absurd listed List.not_mem_nil

end Catalog

theorem Layout.format_written {l : Layout} {r : Region} (reach : r.Reaches l.required) :
    l.format r = .ok () (r.written 0 l.toBytes) := by
  have room : headerSize ≤ l.required := l.headerSize_le_slab.trans l.slab_le_required
  have wrote := (@Region.write_run _ _ reach 0 l.toBytes)
    (by rw [Layout.size_toBytes]; omega)
  have long : l.checkLength r = .ok () r := by
    rw [Layout.checkLength, if_neg (Nat.not_lt.mpr reach.handle)]
  rw [Layout.format, Work.bind_ok long]
  exact wrote

open Catalog in
theorem Layout.written_carries {l : Layout} {r : Region} (reach : r.Reaches l.required) :
    Carries l (r.written 0 l.toBytes) .empty := by
  have counters : countersIn (r.written 0 l.toBytes).bytes = ⟨0, 0, 0, 0⟩ := by
    have size : l.toBytes.size = 128 := l.size_toBytes
    rw [countersIn, Region.bytes_written, SparseBytes.u32_write _ _ _ (by omega) (by omega),
      SparseBytes.u32_write _ _ _ (by omega) (by omega),
      SparseBytes.u32_write _ _ _ (by omega) (by omega),
      SparseBytes.u64_write _ _ _ (by omega) (by omega)]
    simp (disch := simp) only [Layout.toBytes, HeaderFields.toBytes, u32At, u64At,
      wordAt_append_right, ByteArray.size_append, size_magic, size_ofU32, size_ofU64, size_zeros,
      Nat.reduceAdd, Nat.reduceSub, wordAt_zeros]
    rfl
  refine ⟨reach.written _ _, ⟨?_, rfl⟩, ?_, ?_, ?_, ?_, ?_, ?_, Ordered.empty l⟩
  · rw [Region.bytes_written, SparseBytes.read_write _ _ _ (Nat.le_refl _)
      (by rw [Layout.size_toBytes]; decide)]
  · simp only [counters]
    rfl
  · intro pos item there
    cases there
  · intro item listed
    exact absurd listed List.not_mem_nil
  · simp only [counters]
    rfl
  · simp only [counters]
    rfl
  · simp only [counters]
    rfl

theorem Layout.attach_cases (r : Region) :
    (∃ fault, Layout.attach r = .error fault r) ∨
      ∃ l, Layout.ofBytes (r.bytes.read 0 headerSize) = .ok l ∧ l.required ≤ r.handle.length ∧
        Layout.attach r = .ok l r := by
  rw [Layout.attach, Work.bind_ok (Work.get_run _)]
  by_cases short : r.handle.length < headerSize
  · refine .inl ⟨.regionTooSmall headerSize r.handle.length, ?_⟩
    simp only [if_pos short]
    rfl
  simp only [if_neg short]
  have read : Region.read 0 headerSize r = .error .io r ∨
      Region.read 0 headerSize r = .ok (r.bytes.read 0 headerSize) r := by
    have inside : Region.check 0 headerSize r = .ok () r := by
      rw [Region.check, if_pos (by omega)]
    rw [Region.read, Work.bind_ok inside, Region.fetch]
    split
    · exact .inr rfl
    · split
      · exact .inr rfl
      · exact .inl rfl
  rcases read with failed | read
  · exact .inl ⟨.io, Work.bind_error failed⟩
  rw [Work.bind_ok read]
  cases found : Layout.ofBytes (r.bytes.read 0 headerSize) with
  | error fault => exact .inl ⟨fault, Work.bind_error (Work.check_error rfl r)⟩
  | ok l =>
    rw [Work.bind_ok (Work.check_ok rfl r)]
    by_cases cramped : r.handle.length < l.required
    · have failed : l.checkLength r = .error (.regionTooSmall l.required r.handle.length) r := by
        rw [Layout.checkLength, if_pos cramped]
      exact .inl ⟨_, Work.bind_error failed⟩
    · have long : l.checkLength r = .ok () r := by
        rw [Layout.checkLength, if_neg cramped]
      exact .inr ⟨l, rfl, Nat.not_lt.mp cramped, by rw [Work.bind_ok long, Work.pure_run]⟩

namespace Carries
open Catalog
variable {l : Layout} {bytes : SparseBytes} {handle : RegionHandle} {cat : Catalog}

theorem attach_eq {own : RegionHandle} (carries : Carries l ⟨own, bytes⟩ cat) :
    Layout.attach ⟨handle, bytes⟩ =
      if handle.length < headerSize then
        .error (.regionTooSmall headerSize handle.length) ⟨handle, bytes⟩
      else if handle.length < l.required then
        .error (.regionTooSmall l.required handle.length) ⟨handle, bytes⟩
      else .ok l ⟨handle, bytes⟩ := by
  have room : headerSize ≤ l.required := l.headerSize_le_slab.trans l.slab_le_required
  have size : l.required ≤ bytes.size := carries.reach.bytes
  rw [Layout.attach, Work.bind_ok (Work.get_run _)]
  by_cases short : handle.length < headerSize
  · simp only [if_pos short]
    rfl
  · have reach : (⟨handle, bytes⟩ : Region).Reaches headerSize := ⟨Nat.not_lt.mp short, room.trans size⟩
    have read := (@Region.read_run _ _ reach 0 headerSize) (by omega)
    have title : slice (bytes.read 0 headerSize) 0 titleSize = slice l.toBytes 0 titleSize := by
      rw [SparseBytes.slice_read _ _ _ _ _ (by decide), Nat.zero_add]
      exact carries.front.title
    have found := Layout.ofBytes_title (l := l)
      (by rw [SparseBytes.size_read]) title
    simp only [if_neg short]
    rw [Work.bind_ok read, found, Work.bind_ok (Work.check_ok rfl _)]
    by_cases cramped : handle.length < l.required
    · rw [if_pos cramped]
      refine Work.bind_error ?_
      rw [Layout.checkLength, if_pos cramped]
    · have long : l.checkLength ⟨handle, bytes⟩ = .ok () ⟨handle, bytes⟩ := by
        rw [Layout.checkLength, if_neg cramped]
      rw [if_neg cramped, Work.bind_ok long, Work.pure_run]

theorem attach_run {own : RegionHandle} (carries : Carries l ⟨own, bytes⟩ cat) :
    (∃ fault, Layout.attach ⟨handle, bytes⟩ = .error fault ⟨handle, bytes⟩) ∨
      (Layout.attach ⟨handle, bytes⟩ = .ok l ⟨handle, bytes⟩ ∧ l.required ≤ handle.length) := by
  rw [attach_eq carries]
  split
  · exact .inl ⟨_, rfl⟩
  · split
    · exact .inl ⟨_, rfl⟩
    · next long => exact .inr ⟨rfl, Nat.not_lt.mp long⟩

end Carries

end Reassembly.Store

namespace Reassembly.Attachment

open Store

theorem format_written {config : StoreConfig} {l : Layout} {r : Region}
    (valid : config.validate = .ok ()) (divided : layoutFor config = .ok l)
    (reach : r.Reaches l.required) :
    format config r = .ok (fresh r.handle l config) (r.written 0 l.toBytes) := by
  rw [format, Work.bind_ok (Work.check_ok valid r), Work.bind_ok (Work.check_ok divided r),
    Work.bind_ok (Layout.format_written reach), Work.bind_ok (Work.get_run _), Work.pure_run,
    Region.handle_written]

theorem format_run {config : StoreConfig} {l : Layout} {r : Region}
    (valid : config.validate = .ok ()) (divided : layoutFor config = .ok l)
    (reach : r.Reaches l.required) :
    ∃ r', format config r = .ok (fresh r.handle l config) r' ∧ r'.handle = r.handle ∧
      Carries l r' .empty :=
  ⟨_, format_written valid divided reach, Region.handle_written .., Layout.written_carries reach⟩

theorem format_ok {config : StoreConfig} {r r' : Region} {a : Attachment}
    (there : r.handle.length ≤ r.bytes.size) (made : format config r = .ok a r') :
    config.validate = .ok () ∧ layoutFor config = .ok a.layout ∧
      a = fresh r.handle a.layout config ∧ a.layout.required ≤ r.handle.length ∧
      Carries a.layout r' .empty := by
  obtain ⟨⟨⟩, _, validated, more⟩ := Work.of_bind_ok made
  obtain ⟨valid, rfl⟩ := Work.of_check_ok validated
  obtain ⟨l, _, divided, rest⟩ := Work.of_bind_ok more
  obtain ⟨layout, rfl⟩ := Work.of_check_ok divided
  obtain ⟨⟨⟩, _, formatted, _⟩ := Work.of_bind_ok rest
  have long : l.required ≤ r.handle.length := by
    by_contra short
    obtain ⟨_, _, checked, _⟩ := Work.of_bind_ok formatted
    rw [Layout.checkLength, if_pos (Nat.not_le.mp short)] at checked
    cases checked
  obtain ⟨r'', ran, _, carries⟩ := format_run valid layout ⟨long, long.trans there⟩
  obtain ⟨rfl, rfl⟩ := EStateM.Result.ok.inj (ran.symm.trans made)
  exact ⟨valid, layout, rfl, long, carries⟩

theorem attach_ok {l : Layout} {own handle : RegionHandle} {bytes : SparseBytes} {cat : Catalog}
    {config : StoreConfig} (carries : Carries l ⟨own, bytes⟩ cat) :
    (∃ fault, attach config ⟨handle, bytes⟩ = .error fault ⟨handle, bytes⟩) ∨
      ∃ config', attach config ⟨handle, bytes⟩ = .ok (fresh handle l config') ⟨handle, bytes⟩ ∧
        config'.writerFlowTimeout = config.writerFlowTimeout ∧ l.required ≤ handle.length := by
  rw [attach]
  rcases carries.attach_run with ⟨fault, failed⟩ | ⟨found, long⟩
  · exact .inl ⟨fault, Work.bind_error failed⟩
  · rw [Work.bind_ok found]
    cases valid : StoreConfig.validate
        { config with blockCapacity := l.blockCapacity, maxBlocks := l.maxBlocks } with
    | error fault => exact .inl ⟨fault, Work.bind_error rfl⟩
    | ok checked => exact .inr ⟨_, rfl, rfl, long⟩

variable {config : StoreConfig} {l : Layout}

def adopt (config : StoreConfig) (l : Layout) : StoreConfig :=
  { config with blockCapacity := l.blockCapacity, maxBlocks := l.maxBlocks }

theorem geometry_of_layoutFor (divided : layoutFor config = .ok l) :
    l.blockCapacity = config.blockCapacity ∧ l.maxBlocks = config.maxBlocks := by
  unfold layoutFor at divided
  cases found : Layout.ofGeometry config.blockCapacity config.maxBlocks with
  | error why => rw [found] at divided; cases divided
  | ok l' =>
    rw [found] at divided
    obtain rfl := Except.ok.inj divided
    exact Layout.ofGeometry_eq found

theorem adopt_of_layoutFor (divided : layoutFor config = .ok l) : adopt config l = config := by
  obtain ⟨capacity, blocks⟩ := geometry_of_layoutFor divided
  rw [adopt, capacity, blocks]

theorem attach_cases (config : StoreConfig) (r : Region) :
    (∃ fault, attach config r = .error fault r) ∨
      ∃ l, Layout.ofBytes (r.bytes.read 0 headerSize) = .ok l ∧ l.required ≤ r.handle.length ∧
        attach config r = .ok (fresh r.handle l (adopt config l)) r := by
  rcases Layout.attach_cases r with ⟨fault, failed⟩ | ⟨l, found, long, attached⟩
  · exact .inl ⟨fault, Work.bind_error failed⟩
  rw [attach, Work.bind_ok attached, ← adopt]
  cases checked : (adopt config l).validate with
  | error fault => exact .inl ⟨fault, Work.bind_error (Work.check_error rfl r)⟩
  | ok =>
    refine .inr ⟨l, found, long, ?_⟩
    rw [Work.bind_ok (Work.check_ok rfl r)]
    rfl

end Reassembly.Attachment
