import Std.Data.ExtTreeMap
import Reassembly.Bytes

/-!
Long byte strings of which little was ever written. They are kept in pages of equal length, and a page
only as far as something was written to it; all other bytes are zero and take no room. What a string
holds is said by `byteAt`, and each operation by what it does to that: `read` copies a range out,
`write` replaces a range and nothing else.
-/

namespace Reassembly

/-- A byte string: its length, and by their numbers the pages that were written to. -/
structure SparseBytes where
  size : Nat
  pages : Std.ExtTreeMap Nat ByteArray := ∅

namespace SparseBytes

def pageSize : Nat := 4096

def touched (offset len : Nat) : Nat := (offset % pageSize + len + (pageSize - 1)) / pageSize

def page (pages : Std.ExtTreeMap Nat ByteArray) (number : Nat) : ByteArray :=
  pages.getD number .empty

def pagesAt (pages : Std.ExtTreeMap Nat ByteArray) (place : Nat) : UInt8 :=
  Bytes.byteAt (page pages (place / pageSize)) (place % pageSize)

def byteAt (s : SparseBytes) (place : Nat) : UInt8 := pagesAt s.pages place

def zeros (len : Nat) : SparseBytes := { size := len }

def readPage (pages : Std.ExtTreeMap Nat ByteArray) (offset len : Nat) : ByteArray :=
  Bytes.padTo (Bytes.slice (page pages (offset / pageSize)) (offset % pageSize) len) len

def readPages (pages : Std.ExtTreeMap Nat ByteArray) :
    (count offset len : Nat) → ByteArray → ByteArray
  | 0, _, _, found => found
  | count + 1, offset, len, found =>
    let here := min len (pageSize - offset % pageSize)
    readPages pages count (offset + here) (len - here) (found ++ readPage pages offset here)

def read (s : SparseBytes) (offset len : Nat) : ByteArray :=
  readPages s.pages (touched offset len) offset len .empty

def writePage (pages : Std.ExtTreeMap Nat ByteArray) (offset : Nat) (part : ByteArray) :
    Std.ExtTreeMap Nat ByteArray :=
  pages.alter (offset / pageSize) fun old =>
    let start := offset % pageSize
    some (Bytes.overwrite (Bytes.padTo (old.getD .empty) start) start part)

def writePages (data : ByteArray) : (count offset done : Nat) → Std.ExtTreeMap Nat ByteArray →
    Std.ExtTreeMap Nat ByteArray
  | 0, _, _, pages => pages
  | count + 1, offset, done, pages =>
    let here := min (data.size - done) (pageSize - offset % pageSize)
    writePages data count (offset + here) (done + here)
      (writePage pages offset (Bytes.slice data done here))

/-- Writes `data` at `offset`. The string grows where `data` reaches past its end; the bytes between
are zero. -/
def write (s : SparseBytes) (offset : Nat) (data : ByteArray) : SparseBytes :=
  if data.size = 0 then s
  else
    { size := max s.size (offset + data.size)
      pages := writePages data (touched offset data.size) offset 0 s.pages }

/-- The string cut, or lengthened with zeros, to `len` bytes. -/
def resize (s : SparseBytes) (len : Nat) : SparseBytes :=
  if s.size ≤ len then { s with size := len }
  else
    let kept := s.pages.filter fun number _ => number ≤ len / pageSize
    { size := len
      pages := kept.alter (len / pageSize) (·.map (Bytes.slice · 0 (len % pageSize))) }

def ofBytes (bytes : ByteArray) : SparseBytes := (zeros 0).write 0 bytes

def toBytes (s : SparseBytes) : ByteArray := s.read 0 s.size

theorem pagesAt_writePage (pages : Std.ExtTreeMap Nat ByteArray) (offset : Nat) (part : ByteArray)
    (place : Nat) (fits : offset % pageSize + part.size ≤ pageSize) :
    pagesAt (writePage pages offset part) place =
      if offset ≤ place ∧ place < offset + part.size then Bytes.byteAt part (place - offset)
      else pagesAt pages place := by
  simp only [pageSize] at fits
  simp only [pagesAt, page, writePage, Std.ExtTreeMap.getD_alter, Std.compare_eq_iff_eq, pageSize]
  by_cases same : offset / 4096 = place / 4096
  · have near (old : ByteArray) : offset % 4096 ≤ (Bytes.padTo old (offset % 4096)).size := by
      rw [Bytes.size_padTo]
      omega
    rw [if_pos same, Option.getD_some, Bytes.byteAt_overwrite _ _ _ _ (near _),
      Bytes.byteAt_padTo, same, Std.ExtTreeMap.getD_eq_getD_getElem?]
    by_cases inside : offset ≤ place ∧ place < offset + part.size
    · rw [if_pos inside, if_pos (by omega)]
      congr 1
      omega
    · rw [if_neg inside, if_neg (by omega)]
  · rw [if_neg same, if_neg (by omega)]

theorem pagesAt_writePages (data : ByteArray) (count offset done : Nat)
    (pages : Std.ExtTreeMap Nat ByteArray) (place : Nat)
    (enough : data.size - done ≤ count * pageSize - offset % pageSize) :
    pagesAt (writePages data count offset done pages) place =
      if offset ≤ place ∧ place < offset + (data.size - done) then
        Bytes.byteAt data (done + (place - offset))
      else pagesAt pages place := by
  induction count generalizing offset done pages with
  | zero => rw [writePages, if_neg (by omega)]
  | succ count ih =>
    rw [writePages]
    simp only [pageSize] at enough ih ⊢
    generalize here_eq : min (data.size - done) (4096 - offset % 4096) = here
    have size : (Bytes.slice data done here).size = here := by
      rw [Bytes.size_slice]
      omega
    have left : data.size - (done + here) ≤ count * 4096 - (offset + here) % 4096 := by omega
    rw [ih _ _ _ left, pagesAt_writePage _ _ _ _ (by rw [size]; simp only [pageSize]; omega), size]
    by_cases inside : offset ≤ place ∧ place < offset + (data.size - done)
    · rw [if_pos inside]
      by_cases here_in : place < offset + here
      · rw [if_neg (by omega), if_pos (by omega), Bytes.byteAt_slice, if_pos (by omega)]
      · rw [if_pos (by omega)]
        congr 1
        omega
    · rw [if_neg inside, if_neg (by omega), if_neg (by omega)]

theorem enough_touched (offset len : Nat) :
    len ≤ touched offset len * pageSize - offset % pageSize := by
  simp only [touched, pageSize]
  omega

theorem byteAt_write (s : SparseBytes) (offset : Nat) (data : ByteArray) (place : Nat) :
    (s.write offset data).byteAt place =
      if offset ≤ place ∧ place < offset + data.size then Bytes.byteAt data (place - offset)
      else s.byteAt place := by
  unfold write
  split
  · rw [if_neg (by omega)]
  · simp only [byteAt]
    rw [pagesAt_writePages _ _ _ _ _ _ (enough_touched offset data.size), Nat.sub_zero,
      Nat.zero_add]

theorem byteAt_readPage (pages : Std.ExtTreeMap Nat ByteArray) (offset len place : Nat)
    (fits : offset % pageSize + len ≤ pageSize) :
    Bytes.byteAt (readPage pages offset len) place =
      if place < len then pagesAt pages (offset + place) else 0 := by
  simp only [pageSize] at fits
  simp only [readPage, pagesAt, pageSize, Bytes.byteAt_padTo, Bytes.byteAt_slice]
  by_cases inside : place < len
  · rw [if_pos inside, if_pos inside, show (offset + place) / 4096 = offset / 4096 by omega,
      show (offset + place) % 4096 = offset % 4096 + place by omega]
  · rw [if_neg inside, if_neg inside]

theorem size_readPage (pages : Std.ExtTreeMap Nat ByteArray) (offset len : Nat) :
    (readPage pages offset len).size = len := by
  rw [readPage, Bytes.size_padTo, Bytes.size_slice]
  omega

theorem size_readPages (pages : Std.ExtTreeMap Nat ByteArray) (count offset len : Nat)
    (found : ByteArray) (enough : len ≤ count * pageSize - offset % pageSize) :
    (readPages pages count offset len found).size = found.size + len := by
  induction count generalizing offset len found with
  | zero => rw [readPages]; omega
  | succ count ih =>
    rw [readPages]
    simp only [pageSize] at enough ih ⊢
    rw [ih _ _ _ (by omega), ByteArray.size_append, size_readPage]
    omega

theorem byteAt_readPages (pages : Std.ExtTreeMap Nat ByteArray) (count offset len : Nat)
    (found : ByteArray) (place : Nat) (enough : len ≤ count * pageSize - offset % pageSize) :
    Bytes.byteAt (readPages pages count offset len found) place =
      if place < found.size then Bytes.byteAt found place
      else if place < found.size + len then pagesAt pages (offset + (place - found.size)) else 0 := by
  induction count generalizing offset len found with
  | zero =>
    rw [readPages]
    split
    · rfl
    · rw [if_neg (by omega), Bytes.byteAt_of_size_le found (by omega)]
  | succ count ih =>
    rw [readPages]
    simp only [pageSize] at enough ih ⊢
    generalize here_eq : min len (4096 - offset % 4096) = here
    rw [ih _ _ _ (by omega), ByteArray.size_append, size_readPage, Bytes.byteAt_append,
      byteAt_readPage _ _ _ _ (by simp only [pageSize]; omega)]
    by_cases before : place < found.size
    · rw [if_pos (by omega), if_pos before, if_pos before]
    · by_cases here_in : place < found.size + here
      · rw [if_pos here_in, if_neg before, if_pos (by omega), if_neg before, if_pos (by omega)]
      · rw [if_neg here_in, if_neg before]
        split
        · rw [if_pos (by omega)]
          congr 1
          omega
        · rw [if_neg (by omega)]

theorem size_read (s : SparseBytes) (offset len : Nat) : (s.read offset len).size = len := by
  rw [read, size_readPages _ _ _ _ _ (enough_touched offset len), ByteArray.size_empty, Nat.zero_add]

theorem byteAt_read (s : SparseBytes) (offset len place : Nat) :
    Bytes.byteAt (s.read offset len) place =
      if place < len then s.byteAt (offset + place) else 0 := by
  rw [read, byteAt_readPages _ _ _ _ _ _ (enough_touched offset len), ByteArray.size_empty,
    if_neg (by omega), Nat.zero_add, Nat.sub_zero]
  rfl

theorem byteAt_zeros (len place : Nat) : (zeros len).byteAt place = 0 := by
  simp [byteAt, zeros, pagesAt, page, Bytes.byteAt]

theorem page_resize (s : SparseBytes) (len number : Nat) (cut : len < s.size) :
    page (s.resize len).pages number =
      if number < len / pageSize then page s.pages number
      else if number = len / pageSize then Bytes.slice (page s.pages number) 0 (len % pageSize)
      else .empty := by
  rw [resize, if_neg (by omega)]
  simp only [page, Std.ExtTreeMap.getD_eq_getD_getElem?, Std.ExtTreeMap.getElem?_alter,
    Std.compare_eq_iff_eq, Std.ExtTreeMap.getElem?_filter, Std.ExtTreeMap.getKey_eq]
  generalize len / pageSize = last
  by_cases same : last = number
  · rw [if_pos same, if_neg (by omega), if_pos same.symm, same]
    cases s.pages[number]? with
    | none => exact (Bytes.slice_empty 0 (len % pageSize)).symm
    | some kept => simp [Option.pfilter]
  · rw [if_neg same, if_neg (show ¬ number = last by omega)]
    by_cases before : number < last
    · rw [if_pos before]
      cases s.pages[number]? <;> simp [Option.pfilter, Nat.le_of_lt before]
    · rw [if_neg before]
      cases s.pages[number]? <;> simp [Option.pfilter, show ¬ number ≤ last by omega]

theorem byteAt_resize (s : SparseBytes) (len place : Nat) (cut : len < s.size) :
    (s.resize len).byteAt place = if place < len then s.byteAt place else 0 := by
  simp only [byteAt, pagesAt, page_resize s len _ cut]
  by_cases before : place / 4096 < len / 4096
  · rw [if_pos (show place / pageSize < len / pageSize from before), if_pos (by omega)]
  · rw [if_neg (show ¬ place / pageSize < len / pageSize from before)]
    by_cases last : place / 4096 = len / 4096
    · rw [if_pos (show place / pageSize = len / pageSize from last), Bytes.byteAt_slice,
        Nat.zero_add]
      by_cases inside : place < len
      · rw [if_pos inside, if_pos (show place % pageSize < len % pageSize by
          simp only [pageSize]; omega)]
      · rw [if_neg inside, if_neg (show ¬ place % pageSize < len % pageSize by
          simp only [pageSize]; omega)]
    · rw [if_neg (show ¬ place / pageSize = len / pageSize from last), if_neg (by omega)]
      exact Bytes.byteAt_of_size_le .empty (Nat.zero_le _)

theorem size_write (s : SparseBytes) (offset : Nat) (data : ByteArray) (filled : data.size ≠ 0) :
    (s.write offset data).size = max s.size (offset + data.size) := by
  rw [write, if_neg filled]

theorem toBytes_ofBytes (bytes : ByteArray) : (ofBytes bytes).toBytes = bytes := by
  have size : (ofBytes bytes).size = bytes.size := by
    unfold ofBytes write
    split
    · simp only [zeros]; omega
    · simp only [zeros]; omega
  refine Bytes.ext_byteAt (by rw [toBytes, size_read, size]) fun place => ?_
  rw [toBytes, byteAt_read, size, Nat.zero_add, ofBytes, byteAt_write, byteAt_zeros, Nat.sub_zero]
  by_cases inside : place < bytes.size
  · rw [if_pos inside, if_pos (by omega)]
  · rw [if_neg inside, Bytes.byteAt_of_size_le bytes (by omega)]

end SparseBytes

end Reassembly
