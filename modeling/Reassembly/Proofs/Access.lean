import Reassembly.Proofs.Words
import Reassembly.Region

/-!
What each access to a region does, where the region reaches far enough: reads return the bytes that
are there, writes replace a range and nothing else, and none of them fails.
-/

namespace Reassembly

theorem Work.bind_ok {σ α β : Type} {work : Work σ α} {next : α → Work σ β} {s t : σ} {a : α}
    (ran : work s = .ok a t) : (work >>= next) s = next a t := by
  simp [bind, EStateM.bind, ran]

theorem Work.bind_error {σ α β : Type} {work : Work σ α} {next : α → Work σ β} {s t : σ}
    {fault : Fault} (ran : work s = .error fault t) : (work >>= next) s = .error fault t := by
  simp [bind, EStateM.bind, ran]

theorem Work.of_bind_ok {σ α β : Type} {work : Work σ α} {next : α → Work σ β} {s t : σ} {b : β}
    (ran : (work >>= next) s = .ok b t) : ∃ a u, work s = .ok a u ∧ next a u = .ok b t := by
  cases first : work s with
  | ok a u => exact ⟨a, u, rfl, (bind_ok first).symm.trans ran⟩
  | error fault u => exact absurd ((bind_error first).symm.trans ran) nofun

theorem Work.check_ok {σ α : Type} {check : Except Fault α} {a : α} (passed : check = .ok a) (s : σ) :
    (liftM check : Work σ α) s = .ok a s := by
  rw [passed]
  rfl

theorem Work.check_error {σ α : Type} {check : Except Fault α} {fault : Fault}
    (failed : check = .error fault) (s : σ) : (liftM check : Work σ α) s = .error fault s := by
  rw [failed]
  rfl

theorem Work.of_check_ok {σ α : Type} {check : Except Fault α} {s t : σ} {a : α}
    (ran : (liftM check : Work σ α) s = .ok a t) : check = .ok a ∧ s = t := by
  cases check with
  | ok b =>
    obtain ⟨rfl, rfl⟩ := EStateM.Result.ok.inj ran
    exact ⟨rfl, rfl⟩
  | error fault => exact absurd ran nofun

theorem Work.map_ok {σ α β : Type} {work : Work σ α} {f : α → β} {s t : σ} {a : α}
    (ran : work s = .ok a t) : (f <$> work) s = .ok (f a) t := by
  simp [Functor.map, EStateM.map, ran]

theorem Work.map_error {σ α β : Type} {work : Work σ α} {f : α → β} {s t : σ} {fault : Fault}
    (ran : work s = .error fault t) : (f <$> work) s = .error fault t := by
  simp [Functor.map, EStateM.map, ran]

theorem Work.pure_run {σ α : Type} (a : α) (s : σ) : (pure a : Work σ α) s = .ok a s := rfl

theorem Work.get_run {σ : Type} (s : σ) : (get : Work σ σ) s = .ok s s := rfl

theorem Work.modify_run {σ : Type} (f : σ → σ) (s : σ) :
    (modify f : Work σ PUnit) s = .ok ⟨⟩ (f s) := rfl

theorem Work.onPart_ok {σ τ ρ α : Type} {split : σ → τ × ρ} {join : τ → ρ → σ} {work : Work τ α}
    {s : σ} {a : α} {part : τ} (ran : work (split s).1 = .ok a part) :
    onPart split join work s = .ok a (join part (split s).2) := by
  simp [onPart, ran]

theorem Work.onPart_error {σ τ ρ α : Type} {split : σ → τ × ρ} {join : τ → ρ → σ}
    {work : Work τ α} {s : σ} {fault : Fault} {part : τ}
    (ran : work (split s).1 = .error fault part) :
    onPart split join work s = .error fault (join part (split s).2) := by
  simp [onPart, ran]

namespace SparseBytes

def u32 (s : SparseBytes) (place : Nat) : UInt32 := Bytes.u32At (s.read place 4) 0

def u64 (s : SparseBytes) (place : Nat) : UInt64 := Bytes.u64At (s.read place 8) 0

def Agree (s t : SparseBytes) (offset len : Nat) : Prop :=
  ∀ place, offset ≤ place → place < offset + len → s.byteAt place = t.byteAt place

theorem Agree.symm {s t : SparseBytes} {offset len : Nat} (same : s.Agree t offset len) :
    t.Agree s offset len := fun place low high => (same place low high).symm

theorem Agree.trans {s t u : SparseBytes} {offset len : Nat} (first : s.Agree t offset len)
    (second : t.Agree u offset len) : s.Agree u offset len :=
  fun place low high => (first place low high).trans (second place low high)

theorem Agree.mono {s t : SparseBytes} {offset len inner width : Nat} (same : s.Agree t offset len)
    (low : offset ≤ inner) (high : inner + width ≤ offset + len) : s.Agree t inner width :=
  fun place first last => same place (by omega) (by omega)

theorem agree_write (s : SparseBytes) (target : Nat) (data : ByteArray) {offset len : Nat}
    (apart : offset + len ≤ target ∨ target + data.size ≤ offset) :
    (s.write target data).Agree s offset len := by
  intro place low high
  rw [byteAt_write, if_neg (by omega)]

theorem read_congr {s t : SparseBytes} {offset len : Nat} (same : s.Agree t offset len) :
    s.read offset len = t.read offset len := by
  refine Bytes.ext_byteAt (by rw [size_read, size_read]) fun place => ?_
  rw [byteAt_read, byteAt_read]
  split
  · exact same _ (by omega) (by omega)
  · rfl

theorem u32_congr {s t : SparseBytes} {place : Nat} (same : s.Agree t place 4) :
    s.u32 place = t.u32 place := by
  rw [u32, u32, read_congr same]

theorem u64_congr {s t : SparseBytes} {place : Nat} (same : s.Agree t place 8) :
    s.u64 place = t.u64 place := by
  rw [u64, u64, read_congr same]

theorem read_write (s : SparseBytes) (target : Nat) (data : ByteArray) {offset len : Nat}
    (low : target ≤ offset) (high : offset + len ≤ target + data.size) :
    (s.write target data).read offset len = Bytes.slice data (offset - target) len := by
  refine Bytes.ext_byteAt (by rw [size_read, Bytes.size_slice]; omega) fun place => ?_
  rw [byteAt_read, Bytes.byteAt_slice]
  split
  · rw [byteAt_write, if_pos (by omega)]
    congr 1
    omega
  · rfl

theorem read_write_self (s : SparseBytes) (target : Nat) (data : ByteArray) :
    (s.write target data).read target data.size = data := by
  rw [read_write s target data (Nat.le_refl _) (Nat.le_refl _), Nat.sub_self]
  refine Bytes.ext_byteAt (by rw [Bytes.size_slice]; omega) fun place => ?_
  rw [Bytes.byteAt_slice, Nat.zero_add]
  split
  · rfl
  · exact (Bytes.byteAt_of_size_le data (by omega)).symm

theorem read_append (s : SparseBytes) (offset first second : Nat) :
    s.read offset (first + second) = s.read offset first ++ s.read (offset + first) second := by
  refine Bytes.ext_byteAt (by simp only [size_read, ByteArray.size_append]) fun place => ?_
  rw [Bytes.byteAt_append, size_read, byteAt_read, byteAt_read, byteAt_read]
  by_cases early : place < first
  · rw [if_pos early, if_pos early, if_pos (by omega)]
  · rw [if_neg early]
    by_cases inside : place < first + second
    · rw [if_pos inside, if_pos (by omega)]
      congr 1
      omega
    · rw [if_neg inside, if_neg (by omega)]

theorem slice_read (s : SparseBytes) (offset len inner width : Nat) (inside : inner + width ≤ len) :
    Bytes.slice (s.read offset len) inner width = s.read (offset + inner) width := by
  refine Bytes.ext_byteAt ?_ fun place => ?_
  · rw [Bytes.size_slice, size_read, size_read]
    omega
  · rw [Bytes.byteAt_slice, byteAt_read, byteAt_read]
    split
    · rw [if_pos (by omega), Nat.add_assoc]
    · rfl

theorem wordAt_slice (bytes : ByteArray) (offset width : Nat) :
    Bytes.wordAt (Bytes.slice bytes offset width) 0 width = Bytes.wordAt bytes offset width := by
  have inner : Bytes.slice (Bytes.slice bytes offset width) 0 width = Bytes.slice bytes offset width := by
    refine Bytes.ext_byteAt ?_ fun place => ?_
    · simp only [Bytes.size_slice]
      omega
    · rw [Bytes.byteAt_slice]
      split
      · rw [Nat.zero_add]
      · exact (Bytes.byteAt_of_size_le _ (by rw [Bytes.size_slice]; omega)).symm
  rw [Bytes.wordAt, inner, Bytes.wordAt]

theorem u32_write (s : SparseBytes) (target : Nat) (data : ByteArray) {place : Nat}
    (low : target ≤ place) (high : place + 4 ≤ target + data.size) :
    (s.write target data).u32 place = Bytes.u32At data (place - target) := by
  rw [u32, read_write s target data low high, Bytes.u32At, wordAt_slice, Bytes.u32At]

theorem u64_write (s : SparseBytes) (target : Nat) (data : ByteArray) {place : Nat}
    (low : target ≤ place) (high : place + 8 ≤ target + data.size) :
    (s.write target data).u64 place = Bytes.u64At data (place - target) := by
  rw [u64, read_write s target data low high, Bytes.u64At, wordAt_slice, Bytes.u64At]

theorem size_le_write (s : SparseBytes) (offset : Nat) (data : ByteArray) :
    s.size ≤ (s.write offset data).size := by
  unfold write
  split
  · exact Nat.le_refl _
  · exact Nat.le_max_left ..

theorem read_shift {s t : SparseBytes} {inner goal len : Nat}
    (same : ∀ k, k < len → t.byteAt (goal + k) = s.byteAt (inner + k)) :
    t.read goal len = s.read inner len := by
  refine Bytes.ext_byteAt (by rw [size_read, size_read]) fun place => ?_
  rw [byteAt_read, byteAt_read]
  split
  next inside => exact same place inside
  next => rfl

end SparseBytes

namespace Region

/-- A region whose first `len` bytes are there, in its handle and in its bytes. -/
structure Reaches (r : Region) (len : Nat) : Prop where
  handle : len ≤ r.handle.length
  bytes : len ≤ r.bytes.size

def written (r : Region) (offset : Nat) (data : ByteArray) : Region :=
  ⟨r.handle, r.bytes.write offset data⟩

@[simp] theorem handle_written (r : Region) (offset : Nat) (data : ByteArray) :
    (r.written offset data).handle = r.handle := rfl

@[simp] theorem bytes_written (r : Region) (offset : Nat) (data : ByteArray) :
    (r.written offset data).bytes = r.bytes.write offset data := rfl

theorem agree_written (r : Region) (target : Nat) (data : ByteArray) {offset len : Nat}
    (apart : offset + len ≤ target ∨ target + data.size ≤ offset) :
    (r.written target data).bytes.Agree r.bytes offset len := by
  rw [bytes_written]
  exact r.bytes.agree_write target data apart

theorem Reaches.written {r : Region} {len : Nat} (reach : r.Reaches len) (offset : Nat)
    (data : ByteArray) : (r.written offset data).Reaches len :=
  ⟨reach.handle, reach.bytes.trans (SparseBytes.size_le_write ..)⟩

variable {r : Region} {len : Nat} (reach : r.Reaches len)
include reach

theorem check_run {offset width : Nat} (inside : offset + width ≤ len) :
    check offset width r = .ok () r := by
  unfold check
  rw [if_pos (inside.trans reach.handle)]

theorem fetch_run {offset width : Nat} (inside : offset + width ≤ len) :
    fetch offset width r = .ok (r.bytes.read offset width) r := by
  unfold fetch
  have there : width = 0 ∨ offset + width ≤ r.bytes.size := .inr (inside.trans reach.bytes)
  split
  · rfl
  · rw [if_pos there]

theorem read_run {offset width : Nat} (inside : offset + width ≤ len) :
    read offset width r = .ok (r.bytes.read offset width) r := by
  rw [read, Work.bind_ok (check_run reach inside)]
  exact fetch_run reach inside

theorem readU32_run {offset : Nat} (inside : offset + 4 ≤ len) :
    readU32 offset r = .ok (r.bytes.u32 offset) r := by
  rw [readU32, Work.bind_ok (read_run reach inside)]
  rfl

theorem readU64_run {offset : Nat} (inside : offset + 8 ≤ len) :
    readU64 offset r = .ok (r.bytes.u64 offset) r := by
  rw [readU64, Work.bind_ok (read_run reach inside)]
  rfl

theorem write_run {offset : Nat} {data : ByteArray} (inside : offset + data.size ≤ len) :
    write offset data r = .ok () (r.written offset data) := by
  rw [write, Work.bind_ok (check_run reach inside)]
  rfl

theorem writeU32_run {offset : Nat} (word : UInt32) (inside : offset + 4 ≤ len) :
    writeU32 offset word r = .ok () (r.written offset (Bytes.ofU32 word)) :=
  write_run reach (by rw [Bytes.size_ofU32]; exact inside)

theorem writeU64_run {offset : Nat} (word : UInt64) (inside : offset + 8 ≤ len) :
    writeU64 offset word r = .ok () (r.written offset (Bytes.ofU64 word)) :=
  write_run reach (by rw [Bytes.size_ofU64]; exact inside)

theorem zero_run {offset width : Nat} (inside : offset + width ≤ len) :
    zero offset width r = .ok () (r.written offset (Bytes.zeros width)) := by
  rw [zero, Work.bind_ok (check_run reach inside)]
  rfl

theorem copyWithin_run {source target width : Nat} (here : source + width ≤ len)
    (there : target + width ≤ len) :
    copyWithin source target width r = .ok () (r.written target (r.bytes.read source width)) := by
  rw [copyWithin, Work.bind_ok (check_run reach here), Work.bind_ok (check_run reach there),
    Work.bind_ok (fetch_run reach here)]
  rfl

end Region

end Reassembly
