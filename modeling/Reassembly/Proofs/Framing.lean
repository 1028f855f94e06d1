import Mathlib.Algebra.Ring.Nat
import Reassembly.Block.Frames
import Reassembly.Proofs.Circle
import Reassembly.Proofs.Words

/-!
Frames in a payload area. An area is an initial number and chunks of stream bytes, each behind its
length; the frames read from it are those chunks, each where the one before it ends.
-/

namespace Reassembly.Block

open Bytes

def framed (chunk : ByteArray) : ByteArray := ofU32 (UInt32.ofNat chunk.size) ++ chunk

/-- Frames one behind the other. -/
def train : List ByteArray → ByteArray
  | [] => .empty
  | chunk :: rest => framed chunk ++ train rest

def area (initial : UInt32) (chunks : List ByteArray) : ByteArray := ofU32 initial ++ train chunks

def streamLength (chunks : List ByteArray) : Nat := (chunks.map ByteArray.size).sum

/-- The frames of chunks, the first of which starts at `start`. -/
def lay (start : Seq) : List ByteArray → List Frame
  | [] => []
  | chunk :: rest => ⟨start, chunk⟩ :: lay (start.advance chunk.size) rest

theorem streamLength_cons (chunk : ByteArray) (rest : List ByteArray) :
    streamLength (chunk :: rest) = chunk.size + streamLength rest := by
  rw [streamLength, List.map_cons, List.sum_cons]
  rfl

theorem size_framed (chunk : ByteArray) : (framed chunk).size = frameLengthSize + chunk.size := by
  rw [framed, ByteArray.size_append, size_ofU32, frameLengthSize]

theorem size_train (chunks : List ByteArray) :
    (train chunks).size = chunks.length * frameLengthSize + streamLength chunks := by
  induction chunks with
  | nil => rfl
  | cons chunk rest ih =>
    rw [train, ByteArray.size_append, size_framed, ih, streamLength_cons, List.length_cons,
      frameLengthSize]
    omega

theorem size_area (initial : UInt32) (chunks : List ByteArray) :
    (area initial chunks).size =
      initialSize + chunks.length * frameLengthSize + streamLength chunks := by
  rw [area, ByteArray.size_append, size_ofU32, size_train, initialSize, Nat.add_assoc]

theorem train_append (first second : List ByteArray) :
    train (first ++ second) = train first ++ train second := by
  induction first with
  | nil => rw [List.nil_append, train, ByteArray.empty_append]
  | cons chunk rest ih => rw [List.cons_append, train, ih, train, ByteArray.append_assoc]

theorem area_append_framed (initial : UInt32) (chunks : List ByteArray) (chunk : ByteArray) :
    area initial chunks ++ framed chunk = area initial (chunks ++ [chunk]) := by
  rw [area, area, train_append, train, train, ByteArray.append_empty, ByteArray.append_assoc]

theorem streamLength_append (first second : List ByteArray) :
    streamLength (first ++ second) = streamLength first + streamLength second := by
  rw [streamLength, List.map_append, List.sum_append]
  rfl

theorem streamLength_singleton (chunk : ByteArray) : streamLength [chunk] = chunk.size := by
  rw [streamLength, List.map_singleton, List.sum_singleton]

theorem lay_append (start : Seq) (first second : List ByteArray) :
    lay start (first ++ second) = lay start first ++ lay (start.advance (streamLength first)) second := by
  induction first generalizing start with
  | nil => rw [List.nil_append, lay, streamLength, List.map_nil, List.sum_nil, Seq.advance_zero,
      List.nil_append]
  | cons chunk rest ih =>
    rw [List.cons_append, lay, ih, lay, Seq.advance_advance, List.cons_append]
    rfl

theorem data_mem_of_lay {start : Seq} {chunks : List ByteArray} {f : Frame} (listed : f ∈ lay start chunks) :
    f.data ∈ chunks := by
  induction chunks generalizing start with
  | nil => exact absurd listed List.not_mem_nil
  | cons chunk rest ih =>
    rcases List.mem_cons.mp listed with rfl | later
    · exact List.mem_cons_self
    · exact List.mem_cons_of_mem _ (ih later)

theorem slice_middle (front chunk back : ByteArray) :
    slice (front ++ (chunk ++ back)) front.size chunk.size = chunk := by
  refine ext_byteAt ?_ fun place => ?_
  · rw [size_slice, ByteArray.size_append, ByteArray.size_append]
    omega
  · rw [byteAt_slice]
    split
    · next inside =>
      rw [byteAt_append, if_neg (by omega), byteAt_append, Nat.add_sub_cancel_left, if_pos inside]
    · next outside => exact (byteAt_of_size_le chunk (Nat.not_lt.mp outside)).symm

theorem framesFrom_train (front : ByteArray) (chunks : List ByteArray) (start : Seq)
    (short : ∀ chunk ∈ chunks, chunk.size < UInt32.size) :
    framesFrom (front ++ train chunks) front.size start = lay start chunks := by
  induction chunks generalizing front start with
  | nil =>
    rw [framesFrom, train, ByteArray.append_empty, dif_pos (by rw [frameLengthSize]; omega), lay]
  | cons chunk rest ih =>
    have small := short chunk List.mem_cons_self
    have whole : front ++ train (chunk :: rest) =
        front ++ ofU32 (UInt32.ofNat chunk.size) ++ (chunk ++ train rest) := by
      rw [train, framed, ByteArray.append_assoc, ByteArray.append_assoc]
    have length : (u32At (front ++ train (chunk :: rest)) front.size).toNat = chunk.size := by
      rw [whole, u32At, wordAt_append_left _ _ (by rw [ByteArray.size_append, size_ofU32]),
        wordAt_append_right _ _ (Nat.le_refl _), Nat.sub_self, wordAt_ofU32, UInt32.ofNat_toNat,
        UInt32.toNat_ofNat_of_lt' small]
    have size : (front ++ train (chunk :: rest)).size =
        front.size + frameLengthSize + (chunk.size + (train rest).size) := by
      rw [whole, ByteArray.size_append, ByteArray.size_append, size_ofU32, ByteArray.size_append,
        frameLengthSize]
    have head : (front ++ ofU32 (UInt32.ofNat chunk.size)).size = front.size + frameLengthSize := by
      rw [ByteArray.size_append, size_ofU32, frameLengthSize]
    have data : slice (front ++ train (chunk :: rest)) (front.size + frameLengthSize) chunk.size =
        chunk := by
      rw [whole, ← head]
      exact slice_middle _ _ _
    have later := ih (front ++ ofU32 (UInt32.ofNat chunk.size) ++ chunk) (start.advance chunk.size)
      fun other member => short other (List.mem_cons_of_mem _ member)
    rw [ByteArray.size_append, head, ByteArray.append_assoc, ← whole] at later
    rw [framesFrom, dif_neg (by rw [size]; omega)]
    simp only [length, data]
    rw [if_neg (by rw [size]; omega), later, lay]

theorem frames_area (initial : UInt32) (chunks : List ByteArray) (base : Seq)
    (short : ∀ chunk ∈ chunks, chunk.size < UInt32.size) :
    frames (area initial chunks) base = lay base chunks := by
  have behind := framesFrom_train (ofU32 initial) chunks base short
  rw [size_ofU32] at behind
  exact behind

end Reassembly.Block
