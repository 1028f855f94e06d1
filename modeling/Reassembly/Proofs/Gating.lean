import Reassembly.Block.Gate
import Reassembly.Proofs.Edits

/-!
The gate and the frames behind it. A block that goes through any offers and closings holds the frames of the
segments that were admitted, one behind the other, and reading its used bytes gives them back in order. What
is read from other bytes is the longest run of whole frames that they begin with.
-/

namespace Reassembly

namespace Bytes

theorem padTo_add (bytes : ByteArray) (len : Nat) : padTo bytes (bytes.size + len) = bytes ++ zeros len := by
  unfold padTo
  split
  · rw [Nat.add_sub_cancel_left]
  · have none : len = 0 := by omega
    rw [none]
    exact (ByteArray.append_empty).symm

theorem growingOverwrite_end (bytes data : ByteArray) : growingOverwrite bytes bytes.size data = bytes ++ data := by
  have front : (bytes.data ++ Array.replicate data.size 0).extract 0 bytes.size = bytes.data := by
    refine (@Array.extract_append_left _ bytes.data (Array.replicate data.size 0)).trans ?_
    exact Array.extract_size
  have middle : data.data.extract 0 (0 + data.size) = data.data := by
    rw [Nat.zero_add]
    exact Array.extract_size
  unfold growingOverwrite overwrite
  rw [padTo_add]
  apply ByteArray.ext
  simp only [ByteArray.copySlice, ByteArray.data_append, zeros, front, middle]
  rw [Array.extract_empty_of_stop_le_start, Array.append_empty]
  have size : data.data.size = data.size := rfl
  rw [Array.size_append, Array.size_replicate, Nat.sub_zero, size, Nat.min_self]
  exact Nat.le_refl _

theorem size_le_growingOverwrite (bytes : ByteArray) (offset : Nat) (data : ByteArray) :
    bytes.size ≤ (growingOverwrite bytes offset data).size := by
  have long := size_padTo bytes (offset + data.size)
  rw [growingOverwrite, size_overwrite (by omega)]
  omega

end Bytes

namespace Block

open Bytes

theorem dataLength_eq (frames : List Frame) : dataLength frames = streamLength (frames.map Frame.data) := by
  induction frames with
  | nil => rfl
  | cons f rest ih =>
    rw [List.map_cons, streamLength_cons, ← ih]
    rfl

theorem framesFrom_eq_lay (payload : ByteArray) (offset : Nat) (start : Seq) :
    framesFrom payload offset start = lay start ((framesFrom payload offset start).map Frame.data) := by
  fun_induction framesFrom payload offset start with
  | case1 => rfl
  | case2 => rfl
  | case3 offset start whole len body inside ih =>
    have size : (slice payload body len).size = len := size_slice_of_le (Nat.not_lt.mp inside)
    rw [List.map_cons, lay, size, ← ih]

def IsCut (rest : ByteArray) : Prop :=
  rest.size < frameLengthSize ∨ rest.size < frameLengthSize + (u32At rest 0).toNat

theorem exists_rest (payload : ByteArray) (offset : Nat) (start : Seq) : ∃ rest,
    payload.extract offset payload.size = train ((framesFrom payload offset start).map Frame.data) ++ rest ∧
      IsCut rest := by
  fun_induction framesFrom payload offset start with
  | case1 offset start cut =>
    refine ⟨payload.extract offset payload.size, ?_, .inl ?_⟩
    · rw [List.map_nil, train, ByteArray.empty_append]
    · rw [frameLengthSize] at cut ⊢
      rw [ByteArray.size_extract, Nat.min_self]
      omega
  | case2 offset start whole len body cut =>
    refine ⟨payload.extract offset payload.size, ?_, .inr ?_⟩
    · rw [List.map_nil, train, ByteArray.empty_append]
    · rw [frameLengthSize] at whole
      have same : slice (payload.extract offset payload.size) 0 4 = slice payload offset 4 := by
        unfold slice
        rw [ByteArray.extract_extract, Nat.min_eq_left (by omega)]
        rfl
      have word : u32At (payload.extract offset payload.size) 0 = u32At payload offset := by
        unfold u32At wordAt
        rw [same]
      rw [word, ByteArray.size_extract, Nat.min_self]
      omega
  | case3 offset start whole len body inside ih =>
    obtain ⟨rest, parts, cut⟩ := ih
    refine ⟨rest, ?_, cut⟩
    have size : (slice payload body len).size = len := size_slice_of_le (Nat.not_lt.mp inside)
    have length : ofU32 (UInt32.ofNat (slice payload body len).size) = slice payload offset frameLengthSize := by
      rw [size, UInt32.ofNat_toNat]
      exact ofU32_u32At (Nat.not_lt.mp whole)
    have front : slice payload offset (frameLengthSize + len) = framed (slice payload body len) := by
      rw [slice_add, framed, length]
    have split : payload.extract offset payload.size =
        slice payload offset (frameLengthSize + len) ++ payload.extract (body + len) payload.size := by
      have place : offset + (frameLengthSize + len) = body + len := (Nat.add_assoc _ _ _).symm
      unfold slice
      rw [place, ByteArray.extract_append_extract, Nat.min_eq_left (by omega),
        Nat.max_eq_right (Nat.not_lt.mp inside)]
    rw [split, front, parts, List.map_cons, train, ByteArray.append_assoc]

/-- What is read from a payload is the longest run of whole frames behind the initial number. -/
structure IsRun (payload : ByteArray) (start : Seq) (read : List Frame) : Prop where
  /-- The first frame is at the start, and each of the others where the one before it ends. -/
  consecutive : read = lay start (read.map Frame.data)
  /-- The payload has the frames one behind the other, and no other whole frame behind them. -/
  inside : ∃ rest,
    payload = slice payload 0 initialSize ++ train (read.map Frame.data) ++ rest ∧ IsCut rest
  short : ∀ f ∈ read, f.data.size < UInt32.size
  /-- Every frame takes the bytes of its length at least. -/
  few : read.length * frameLengthSize ≤ payload.size

theorem size_lt_of_mem_framesFrom {payload : ByteArray} {offset : Nat} {start : Seq} {f : Frame}
    (listed : f ∈ framesFrom payload offset start) : f.data.size < UInt32.size := by
  fun_induction framesFrom payload offset start with
  | case1 => exact absurd listed List.not_mem_nil
  | case2 => exact absurd listed List.not_mem_nil
  | case3 offset start whole len body inside ih =>
    rcases List.mem_cons.mp listed with rfl | later
    · have small := (u32At payload offset).toNat_lt
      rw [size_slice_of_le (Nat.not_lt.mp inside)]
      exact small
    · exact ih later

theorem isRun_frames (payload : ByteArray) (start : Seq) : IsRun payload start (frames payload start) := by
  obtain ⟨rest, behind, cut⟩ := exists_rest payload initialSize start
  have whole : payload = slice payload 0 initialSize ++ payload.extract initialSize payload.size := by
    unfold slice
    rw [Nat.zero_add, ByteArray.extract_append_extract, Nat.min_eq_left (Nat.zero_le _)]
    apply ByteArray.ext
    rw [ByteArray.data_extract]
    exact (Array.extract_eq_self_of_le (Nat.le_max_right _ _)).symm
  rw [behind, ← ByteArray.append_assoc] at whole
  refine ⟨framesFrom_eq_lay payload initialSize start, ⟨rest, whole, cut⟩,
    fun f listed => size_lt_of_mem_framesFrom listed, ?_⟩
  have size := congrArg ByteArray.size whole
  rw [ByteArray.size_append, ByteArray.size_append, size_train, List.length_map] at size
  unfold frames
  omega

/-- What is done to a block: a segment is offered to it, or it is completed. -/
inductive Handling where
  | offer (data : ByteArray) (start : Seq) (now : Micros)
  | close

namespace Gate

def handled (g : Gate) (block : Header × ByteArray) : Handling → Header × ByteArray
  | .offer data start now => (g.pushGrowing (some block) data start now).2.getD block
  | .close => (block.1.close, block.2)

/-- The frame that a handling adds, by the verdict on it. -/
def admitted (g : Gate) (block : Header × ByteArray) : Handling → List Frame
  | .offer data start now => if (g.pushGrowing (some block) data start now).1 = .ok then [⟨start, data⟩] else []
  | .close => []

def run (g : Gate) (block : Header × ByteArray) (handlings : List Handling) : Header × ByteArray :=
  handlings.foldl g.handled block

def admittedBy (g : Gate) (block : Header × ByteArray) : List Handling → List Frame
  | [] => []
  | first :: rest => g.admitted block first ++ g.admittedBy (g.handled block first) rest

/-- What a segment needs to be admitted to a block. -/
structure Admits (g : Gate) (h : Header) (data : ByteArray) (start : Seq) : Prop where
  writable : h.isComplete = false
  nonempty : 0 < data.size
  short : data.size < UInt32.size
  room : h.used + frameLengthSize + data.size ≤ g.capacity
  follows : h.hasData = false ∨ start = h.endSeq

theorem judge_eq_ok_iff (g : Gate) {h : Header} (word : h.used + frameLengthSize + UInt32.size ≤ UInt64.size)
    (data : ByteArray) (start : Seq) : g.judge h start data.size = .ok ↔ g.Admits h data start := by
  constructor
  · intro fine
    unfold judge at fine
    split at fine
    · cases fine
    split at fine
    · cases fine
    split at fine
    · cases fine
    split at fine
    · cases fine
    split at fine
    · cases fine
    rename_i writable some room follows short
    refine ⟨by simpa using writable, by omega, by omega, ?_, ?_⟩
    · rw [← Header.hasRoom_iff _ (by omega)]
      simpa using room
    · cases data : h.hasData with
      | false => exact .inl rfl
      | true =>
        rw [data] at follows
        rw [Header.endSeq, if_pos data]
        exact .inr (by simpa using follows)
  · intro admits
    have follows : h.hasData = true → h.endSeq = start := by
      intro data
      rcases admits.follows with none | next
      · rw [none] at data
        cases data
      · exact next.symm
    have short := admits.short
    rw [judge_eq g admits.writable admits.nonempty short follows,
      if_pos ((Header.hasRoom_iff _ (by omega)).mpr admits.room)]

/-- The judgement decides: an admitted segment is written behind what the header says is used, and counted
in; lack of room completes the block; and any other segment leaves it as it is. -/
theorem pushGrowing_some (g : Gate) (h : Header) (area data : ByteArray) (start : Seq) (now : Micros) :
    g.pushGrowing (some (h, area)) data start now =
      match g.judge h start data.size with
      | .ok =>
        (.ok, some (h.accept start data.size now,
          growingOverwrite (growingOverwrite area h.used (ofU32 (UInt32.ofNat data.size)))
            (wordSum h.used frameLengthSize) data))
      | .noSpace => (.noSpace, some (h.close, area))
      | other => (other, some (h, area)) := by
  unfold pushGrowing push
  dsimp only
  cases g.judge h start data.size <;> rfl

theorem size_le_handled (g : Gate) (block : Header × ByteArray) (handling : Handling) :
    block.2.size ≤ (g.handled block handling).2.size := by
  cases handling with
  | close => exact Nat.le_refl _
  | offer data start now =>
    obtain ⟨h, area⟩ := block
    simp only [handled, pushGrowing_some]
    cases g.judge h start data.size with
    | ok => exact (size_le_growingOverwrite ..).trans (size_le_growingOverwrite ..)
    | _ => exact Nat.le_refl _

theorem size_le_run (g : Gate) (block : Header × ByteArray) (handlings : List Handling) :
    block.2.size ≤ (g.run block handlings).2.size := by
  induction handlings generalizing block with
  | nil => exact Nat.le_refl _
  | cons first rest ih => exact (g.size_le_handled block first).trans (ih _)

/-- A block holds just these frames: the area is written with them and the header counts them. -/
structure Mirrors (g : Gate) (initial : UInt32) (block : Header × ByteArray) (told : List Frame) : Prop where
  area : block.2 = Block.area initial (told.map Frame.data)
  used : block.1.used = block.2.size
  room : block.1.used ≤ max g.capacity initialSize
  short : ∀ f ∈ told, f.data.size < UInt32.size
  laid : told = lay block.1.base (told.map Frame.data)
  hasData : block.1.hasData = false ↔ told = []
  stop : block.1.endSeq = block.1.base.advance (dataLength told)

theorem dataLength_append_singleton (told : List Frame) (f : Frame) :
    dataLength (told ++ [f]) = dataLength told + f.data.size := by
  rw [dataLength_eq, dataLength_eq, List.map_append, streamLength_append, List.map_singleton, streamLength_singleton]

namespace Mirrors

variable {g : Gate} {initial : UInt32} {block : Header × ByteArray} {told : List Frame}

theorem fresh (g : Gate) (kind : Kind) (base : Seq) (initial : UInt32) (now : Micros) :
    g.Mirrors initial (.fresh kind base 4 now, ofU32 initial) [] where
  area := by rw [List.map_nil, Block.area, train, ByteArray.append_empty]
  used := (size_ofU32 initial).symm
  room := Nat.le_max_right _ _
  short := fun _ listed => absurd listed List.not_mem_nil
  laid := rfl
  hasData := ⟨fun _ => rfl, fun _ => rfl⟩
  stop := (Seq.advance_zero base).symm

theorem close (m : g.Mirrors initial block told) : g.Mirrors initial (block.1.close, block.2) told where
  area := m.area
  used := m.used
  room := m.room
  short := m.short
  laid := m.laid
  hasData := m.hasData
  stop := m.stop

theorem accept (m : g.Mirrors initial block told) (limit : g.capacity < UInt64.size) {data : ByteArray} {start : Seq}
    (now : Micros) (admits : g.Admits block.1 data start) :
    g.Mirrors initial
      (block.1.accept start data.size now,
        growingOverwrite (growingOverwrite block.2 block.1.used (ofU32 (UInt32.ofNat data.size)))
          (wordSum block.1.used frameLengthSize) data)
      (told ++ [⟨start, data⟩]) := by
  have written : growingOverwrite (growingOverwrite block.2 block.1.used (ofU32 (UInt32.ofNat data.size)))
      (wordSum block.1.used frameLengthSize) data = block.2 ++ framed data := by
    have behind : wordSum block.1.used frameLengthSize = block.1.used + frameLengthSize := by
      have room := admits.room
      exact wordSum_eq (by omega)
    have size : (block.2 ++ ofU32 (UInt32.ofNat data.size)).size = block.2.size + frameLengthSize := by
      rw [ByteArray.size_append, size_ofU32, frameLengthSize]
    rw [behind, m.used, growingOverwrite_end, ← size, growingOverwrite_end, ByteArray.append_assoc]
    rfl
  have used := Header.used_accept_of_lt_size start now admits.room limit
  -- the first frame sets the base, and any other starts where the frames before it end
  have place : (block.1.accept start data.size now).base.advance (dataLength told) = start ∧
      told = lay (block.1.accept start data.size now).base (told.map Frame.data) := by
    cases some : block.1.hasData with
    | false =>
      have none := m.hasData.mp some
      have base : (block.1.accept start data.size now).base = start := by
        rw [Header.accept, some]
        rfl
      rw [base, none]
      exact ⟨Seq.advance_zero start, rfl⟩
    | true =>
      have base : (block.1.accept start data.size now).base = block.1.base := by
        rw [Header.accept, some]
        rfl
      rcases admits.follows with none | next
      · rw [none] at some
        cases some
      · rw [base, ← m.stop, next]
        exact ⟨rfl, m.laid⟩
  rw [written]
  constructor
  case area =>
    rw [List.map_append, List.map_singleton, ← area_append_framed, ← m.area]
  case used =>
    rw [used, m.used, ByteArray.size_append, size_framed, Nat.add_assoc]
  case room =>
    rw [used]
    exact admits.room.trans (Nat.le_max_left _ _)
  case short =>
    intro f listed
    rcases List.mem_append.mp listed with before | last
    · exact m.short f before
    · rw [List.mem_singleton.mp last]
      exact admits.short
  case laid =>
    rw [List.map_append, List.map_singleton, lay_append, ← place.2, ← dataLength_eq, place.1]
    rfl
  case hasData =>
    constructor
    · intro none
      cases none
    · intro none
      exact absurd none (List.append_ne_nil_of_right_ne_nil told (List.cons_ne_nil _ _))
  case stop =>
    rw [dataLength_append_singleton, ← Seq.advance_advance, place.1]
    exact Seq.advance_pred_advance start data.size

theorem word (m : g.Mirrors initial block told) (vector : block.2.size < 2 ^ 63) :
    block.1.used + frameLengthSize + UInt32.size ≤ UInt64.size := by
  rw [m.used, frameLengthSize, UInt32.size, UInt64.size]
  omega

theorem handled (m : g.Mirrors initial block told) (limit : g.capacity < UInt64.size)
    (vector : block.2.size < 2 ^ 63) (handling : Handling) :
    g.Mirrors initial (g.handled block handling) (told ++ g.admitted block handling) := by
  cases handling with
  | close =>
    unfold Gate.handled admitted
    rw [List.append_nil]
    exact m.close
  | offer data start now =>
    obtain ⟨h, area⟩ := block
    simp only [Gate.handled, admitted, pushGrowing_some]
    cases verdict : g.judge h start data.size with
    | ok => exact m.accept limit now ((judge_eq_ok_iff g (m.word vector) data start).mp verdict)
    | noSpace =>
      rw [if_neg (by simp), List.append_nil]
      exact m.close
    | noBlock | inconsistentSeq | blockClosed | pushError =>
      rw [if_neg (by simp), List.append_nil]
      exact m

theorem run (m : g.Mirrors initial block told) (limit : g.capacity < UInt64.size) (handlings : List Handling)
    (vector : (g.run block handlings).2.size < 2 ^ 63) :
    g.Mirrors initial (g.run block handlings) (told ++ g.admittedBy block handlings) := by
  induction handlings generalizing block told with
  | nil =>
    rw [admittedBy, List.append_nil]
    exact m
  | cons first rest ih =>
    have before := (g.size_le_handled block first).trans (g.size_le_run _ rest)
    rw [admittedBy, ← List.append_assoc]
    exact ih (m.handled limit (before.trans_lt vector) first) vector

theorem used_eq (m : g.Mirrors initial block told) :
    block.1.used = initialSize + (told.map fun f => frameLengthSize + f.data.size).sum := by
  have sum (list : List Frame) : (list.map fun f => frameLengthSize + f.data.size).sum =
      list.length * frameLengthSize + streamLength (list.map Frame.data) := by
    induction list with
    | nil => rfl
    | cons f rest ih =>
      rw [List.map_cons, List.sum_cons, ih, List.map_cons, streamLength_cons, List.length_cons, Nat.succ_mul]
      omega
  rw [m.used, m.area, size_area, List.length_map, sum, Nat.add_assoc]

theorem frames_eq (m : g.Mirrors initial block told) :
    frames (slice block.2 0 block.1.used) block.1.base = told := by
  have whole : slice block.2 0 block.1.used = block.2 := by
    unfold slice
    rw [m.used, Nat.zero_add]
    exact ByteArray.extract_zero_size
  have short : ∀ chunk ∈ told.map Frame.data, chunk.size < UInt32.size := by
    intro chunk listed
    obtain ⟨f, member, rfl⟩ := List.mem_map.mp listed
    exact m.short f member
  rw [whole, m.area, frames_area initial _ _ short, ← m.laid]

end Mirrors

/-- The gate and the frames behind it. Take a block with the four bytes of any number as its area, under a
gate of any capacity, and let any segments be offered to it and any closings occur. As long as the area is no
longer than a vector can be, the frames that are read from its used bytes are the segments that were admitted,
in order; the header has counted them, within the capacity; they end where the block ends; and whatever is
offered next is admitted exactly where the block is open and its frame fits and continues it. What is not
admitted changes nothing, but that lack of room completes the block. And from any bytes at all the longest run
of whole frames is read. -/
theorem mirrors (capacity : UInt64) (kind : Kind) (base : Seq) (initial : UInt32) (born : Micros)
    (handlings : List Handling) :
    let g : Gate := ⟨capacity.toNat⟩
    let first : Header × ByteArray := (.fresh kind base 4 born, ofU32 initial)
    let h := (g.run first handlings).1
    let area := (g.run first handlings).2
    let told := g.admittedBy first handlings
    (area.size < 2 ^ 63 →
      frames (slice area 0 h.used) h.base = told ∧
      h.used = initialSize + (told.map fun f => frameLengthSize + f.data.size).sum ∧
      h.used ≤ max capacity.toNat initialSize ∧
      h.endSeq = h.base.advance (dataLength told) ∧
      (h.hasData = false ↔ told = []) ∧
      ∀ data start now, (g.pushGrowing (some (h, area)) data start now).1 = .ok ↔ g.Admits h data start) ∧
    (∀ data start now,
      let verdict := (g.pushGrowing (some (h, area)) data start now).1
      let after := (g.pushGrowing (some (h, area)) data start now).2
      (verdict = .noSpace → after = some (h.close, area)) ∧
        (verdict ≠ .ok → verdict ≠ .noSpace → after = some (h, area))) ∧
    (∀ payload start, IsRun payload start (frames payload start)) := by
  intro g first h area told
  refine ⟨fun vector => ?_, fun data start now => ?_, isRun_frames⟩
  · have m : g.Mirrors initial (h, area) told :=
      (Mirrors.fresh g kind base initial born).run capacity.toNat_lt handlings vector
    refine ⟨m.frames_eq, m.used_eq, m.room, m.stop, m.hasData, fun data start now => ?_⟩
    have fine := judge_eq_ok_iff g (m.word vector) data start
    rw [← fine, pushGrowing_some]
    cases g.judge h start data.size <;> exact Iff.rfl
  · simp only [pushGrowing_some]
    cases g.judge h start data.size with
    | ok => exact ⟨nofun, fun refused => absurd rfl refused⟩
    | noSpace => exact ⟨fun _ => rfl, fun _ roomy => absurd rfl roomy⟩
    | noBlock | inconsistentSeq | blockClosed | pushError => exact ⟨nofun, fun _ _ => rfl⟩

/-- Two segments that follow one another around the end of the sequence numbers, one between them that does
not, and one for which there is no room. -/
theorem mirrors_around_the_end :
    let g : Gate := ⟨18⟩
    let first : Header × ByteArray := (.fresh .l4Payload ⟨4294967294⟩ 4 1000000, ofU32 4294967294)
    let handlings : List Handling := [.offer ⟨#[3, 4, 5]⟩ ⟨4294967294⟩ 1000001, .offer ⟨#[6]⟩ ⟨7⟩ 1000002,
      .offer ⟨#[8, 9]⟩ ⟨1⟩ 1000003, .offer ⟨#[10]⟩ ⟨3⟩ 1000004]
    (g.run first handlings).2.size = 17 ∧ (g.run first handlings).1.isComplete = true ∧
      frames (slice (g.run first handlings).2 0 (g.run first handlings).1.used) (g.run first handlings).1.base =
        [⟨⟨4294967294⟩, ⟨#[3, 4, 5]⟩⟩, ⟨⟨1⟩, ⟨#[8, 9]⟩⟩] := by
  intro g first handlings
  have size : (g.run first handlings).2.size = 17 := by decide +kernel
  have told : g.admittedBy first handlings = [⟨⟨4294967294⟩, ⟨#[3, 4, 5]⟩⟩, ⟨⟨1⟩, ⟨#[8, 9]⟩⟩] := rfl
  have read := ((mirrors 18 .l4Payload ⟨4294967294⟩ 4294967294 1000000 handlings).1 (size.trans_lt (by decide))).1
  exact ⟨size, by decide +kernel, read.trans told⟩

end Gate

end Block

end Reassembly
