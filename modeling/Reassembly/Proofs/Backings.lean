import Reassembly.Proofs.Filing
import Reassembly.Request

/-!
Memory and files serve requests alike. The reference is a plain string of bytes: a request whose ranges lie
within it is granted, and all that it writes is taken from the string as it was before; any other request is
refused at its first range that does not, and changes nothing. A region whose bytes are all there, wherever
they are, gives the answers of that string and becomes what it becomes, request by request.
-/

namespace Reassembly

namespace SparseBytes

variable {s : SparseBytes} {offset len : Nat}

theorem size_toBytes (s : SparseBytes) : s.toBytes.size = s.size := by rw [toBytes, size_read]

theorem slice_toBytes (inside : offset + len ≤ s.size) :
    Bytes.slice s.toBytes offset len = s.read offset len := by
  rw [toBytes, slice_read s 0 s.size offset len inside, Nat.zero_add]

theorem u32At_toBytes (inside : offset + 4 ≤ s.size) : Bytes.u32At s.toBytes offset = s.u32 offset := by
  rw [u32, ← slice_toBytes inside, Bytes.u32At, Bytes.u32At, wordAt_slice]

theorem u64At_toBytes (inside : offset + 8 ≤ s.size) : Bytes.u64At s.toBytes offset = s.u64 offset := by
  rw [u64, ← slice_toBytes inside, Bytes.u64At, Bytes.u64At, wordAt_slice]

theorem size_write_inside {data : ByteArray} (inside : offset + data.size ≤ s.size) :
    (s.write offset data).size = s.size := by
  unfold write
  split
  · rfl
  · exact Nat.max_eq_left inside

theorem toBytes_write {data : ByteArray} (inside : offset + data.size ≤ s.size) :
    (s.write offset data).toBytes = Bytes.overwrite s.toBytes offset data := by
  have size := size_write_inside inside
  have near : offset + data.size ≤ s.toBytes.size := by rwa [size_toBytes]
  refine Bytes.ext_byteAt (by rw [size_toBytes, size, Bytes.size_overwrite near, size_toBytes]) fun place => ?_
  rw [Bytes.byteAt_overwrite _ _ _ _ (by omega), toBytes, toBytes, byteAt_read, byteAt_read, size,
    Nat.zero_add, byteAt_write]
  split <;> split <;> first | rfl | omega

end SparseBytes

namespace Request

/-- The ranges that a request names, in the order in which they are checked. -/
def ranges : Request → List (Nat × Nat)
  | .fill offset len | .read offset len | .zero offset len => [(offset, len)]
  | .write offset data => [(offset, data.size)]
  | .copyWithin source target len => [(source, len), (target, len)]
  | .readU32 offset | .writeU32 offset _ => [(offset, 4)]
  | .readU64 offset | .writeU64 offset _ => [(offset, 8)]

def fault? (request : Request) (length : Nat) : Option Fault :=
  (request.ranges.find? fun (offset, len) => length < offset + len).map
    fun (offset, len) => .outOfBounds offset len length

def reply (flat : ByteArray) : Request → Reply
  | .fill offset len | .read offset len => .bytes (Bytes.slice flat offset len)
  | .readU32 offset => .word32 (Bytes.u32At flat offset)
  | .readU64 offset => .word64 (Bytes.u64At flat offset)
  | _ => .done

def writes (flat : ByteArray) : Request → Option (Nat × ByteArray)
  | .write offset data => some (offset, data)
  | .copyWithin source target len => some (target, Bytes.slice flat source len)
  | .zero offset len => some (offset, Bytes.zeros len)
  | .writeU32 offset word => some (offset, Bytes.ofU32 word)
  | .writeU64 offset word => some (offset, Bytes.ofU64 word)
  | _ => none

/-- A string of bytes behind a request that was granted. -/
def effect (flat : ByteArray) (request : Request) : ByteArray :=
  match request.writes flat with
  | none => flat
  | some (offset, data) => Bytes.overwrite flat offset data

def onFlat (request : Request) (flat : ByteArray) : Except Fault Reply × ByteArray :=
  match request.fault? flat.size with
  | some fault => (.error fault, flat)
  | none => (.ok (request.reply flat), request.effect flat)

def allOnFlat : List Request → ByteArray → List (Except Fault Reply) × ByteArray
  | [], flat => ([], flat)
  | request :: rest, flat =>
    let (answer, flat) := request.onFlat flat
    let (answers, flat) := allOnFlat rest flat
    (answer :: answers, flat)

/-- What the caller hears of an answer: nothing if its buffer cannot be made. -/
def heard (request : Request) (answer : Except Fault Reply) : Heard :=
  if request.Overlong then none else some answer

theorem fault?_single {request : Request} {length offset len : Nat} (ranges : request.ranges = [(offset, len)]) :
    request.fault? length =
      if length < offset + len then some (.outOfBounds offset len length) else none := by
  rw [fault?, ranges, List.find?_cons]
  by_cases outside : length < offset + len
  · simp [outside]
  · simp [outside]

/-- A string of bytes refuses a request exactly if one of its ranges does not lie within it, and is left as
it was. -/
theorem onFlat_refused_iff (request : Request) (flat : ByteArray) (fault : Fault) :
    (request.onFlat flat).1 = .error fault ↔ request.fault? flat.size = some fault := by
  rw [onFlat]
  cases request.fault? flat.size with
  | some found => exact ⟨fun same => by rw [Except.error.inj same], fun same => by rw [Option.some.inj same]⟩
  | none => exact iff_of_false nofun nofun

theorem exists_fault?_iff (request : Request) (length : Nat) :
    (∃ range ∈ request.ranges, length < range.1 + range.2) ↔
      ∃ range ∈ request.ranges, length < range.1 + range.2 ∧
        request.fault? length = some (.outOfBounds range.1 range.2 length) := by
  refine ⟨fun ⟨range, named, outside⟩ => ?_, fun ⟨range, named, outside, _⟩ => ⟨range, named, outside⟩⟩
  cases found : request.ranges.find? fun (offset, len) => length < offset + len with
  | none => exact absurd (decide_eq_true outside) (List.find?_eq_none.mp found range named)
  | some first =>
    exact ⟨first, List.mem_of_find?_eq_some found, of_decide_eq_true (List.find?_some found :),
      by rw [fault?, found]; rfl⟩

theorem onFlat_copyWithin {flat : ByteArray} {source target len : Nat} (here : source + len ≤ flat.size)
    (there : target + len ≤ flat.size) :
    ((Request.copyWithin source target len).onFlat flat).1 = .ok .done ∧
      ∀ place, Bytes.byteAt ((Request.copyWithin source target len).onFlat flat).2 place =
        if target ≤ place ∧ place < target + len then Bytes.byteAt flat (source + (place - target))
        else Bytes.byteAt flat place := by
  have granted : (Request.copyWithin source target len).fault? flat.size = none := by
    simp [fault?, ranges, here, there]
  have size : (Bytes.slice flat source len).size = len := by
    rw [Bytes.size_slice]
    omega
  rw [onFlat, granted]
  refine ⟨rfl, fun place => ?_⟩
  rw [effect, writes, Bytes.byteAt_overwrite _ _ _ _ (by omega), size, Bytes.byteAt_slice]
  split
  · rw [if_pos (by omega)]
  · rfl

theorem onFlat_overlong {request : Request} (overlong : request.Overlong) {flat : ByteArray}
    (small : flat.size ≤ maxBufferLength) : (request.onFlat flat).2 = flat := by
  have refused {offset len : Nat} (ranges : request.ranges = [(offset, len)])
      (long : maxBufferLength < len) : (request.onFlat flat).2 = flat := by
    rw [onFlat, fault?_single ranges, if_pos (by omega)]
  cases request with
  | read offset len | zero offset len => exact refused rfl overlong
  | fill | write | copyWithin | readU32 | writeU32 | readU64 | writeU64 =>
    exact absurd overlong (Nat.not_lt_zero _)

theorem length_allOnFlat (requests : List Request) (flat : ByteArray) :
    (allOnFlat requests flat).1.length = requests.length := by
  induction requests generalizing flat with
  | nil => rfl
  | cons request rest ih => exact congrArg Nat.succ (ih _)

theorem heard_all_iff {requests : List Request} {answers : List (Except Fault Reply)}
    (length : answers.length = requests.length) :
    List.zipWith heard requests answers = answers.map some ↔ ∀ request ∈ requests, ¬request.Overlong := by
  induction requests generalizing answers with
  | nil =>
    rw [List.length_eq_zero_iff.mp length]
    exact iff_of_true rfl nofun
  | cons request rest ih =>
    obtain ⟨answer, others, rfl⟩ := List.exists_cons_of_length_eq_add_one length
    rw [List.zipWith_cons_cons, List.map_cons, List.cons.injEq, ih (Nat.succ.inj length),
      List.forall_mem_cons, heard]
    refine and_congr_left' ?_
    split
    · exact iff_of_false nofun (not_not_intro ‹_›)
    · exact iff_of_true rfl ‹_›

end Request

namespace Region

theorem check_error {r : Region} {offset len : Nat} (outside : r.handle.length < offset + len) :
    check offset len r = .error (.outOfBounds offset len r.handle.length) r := by
  unfold check
  rw [if_neg (by omega)]

def Whole (r : Region) : Prop := r.bytes.size = r.handle.length

theorem Whole.reaches {r : Region} (whole : r.Whole) : r.Reaches r.handle.length :=
  ⟨Nat.le_refl _, Nat.le_of_eq whole.symm⟩

section Refusals

variable {r : Region} {offset len : Nat} (outside : r.handle.length < offset + len)
include outside

theorem read_refused : read offset len r = .error (.outOfBounds offset len r.handle.length) r :=
  Work.bind_error (check_error outside)

theorem zero_refused : zero offset len r = .error (.outOfBounds offset len r.handle.length) r :=
  Work.bind_error (check_error outside)

theorem write_refused {data : ByteArray} (size : data.size = len) :
    write offset data r = .error (.outOfBounds offset len r.handle.length) r := by
  subst size
  exact Work.bind_error (check_error outside)

end Refusals

/-- What a run of work for a request on a region has to be, told by the region's bytes alone. -/
structure Serves (r : Region) (request : Request) (run : EStateM.Result Fault Region Reply) : Prop where
  refused : ∀ fault, request.fault? r.bytes.size = some fault → run = .error fault r
  granted : request.fault? r.bytes.size = none → ∃ after : SparseBytes,
    run = .ok (request.reply r.bytes.toBytes) ⟨r.handle, after⟩ ∧ after.size = r.bytes.size ∧
      after.toBytes = request.effect r.bytes.toBytes

variable {r : Region} {request : Request} {run : EStateM.Result Fault Region Reply}

theorem Serves.of_refused {fault : Fault} (refused : request.fault? r.bytes.size = some fault)
    (ran : run = .error fault r) : r.Serves request run := by
  refine ⟨fun other found => ?_, fun found => ?_⟩
  · rw [ran, Option.some.inj (refused.symm.trans found)]
  · rw [refused] at found
    cases found

theorem Serves.of_granted (granted : request.fault? r.bytes.size = none)
    (ran : ∃ after : SparseBytes,
      run = .ok (request.reply r.bytes.toBytes) ⟨r.handle, after⟩ ∧ after.size = r.bytes.size ∧
        after.toBytes = request.effect r.bytes.toBytes) : r.Serves request run := by
  refine ⟨fun fault found => ?_, fun _ => ran⟩
  rw [granted] at found
  cases found

theorem Serves.of_range (whole : r.Whole) {offset len : Nat} (ranges : request.ranges = [(offset, len)])
    (outside : r.handle.length < offset + len →
      run = .error (.outOfBounds offset len r.handle.length) r)
    (inside : offset + len ≤ r.bytes.size → ∃ after : SparseBytes,
      run = .ok (request.reply r.bytes.toBytes) ⟨r.handle, after⟩ ∧ after.size = r.bytes.size ∧
        after.toBytes = request.effect r.bytes.toBytes) :
    r.Serves request run := by
  have decided : request.fault? r.bytes.size = _ := Request.fault?_single ranges
  by_cases fits : offset + len ≤ r.bytes.size
  · rw [if_neg (by omega)] at decided
    exact .of_granted decided (inside fits)
  · rw [if_pos (by omega)] at decided
    refine .of_refused decided ?_
    rw [whole]
    exact outside (whole ▸ Nat.not_le.mp fits)

theorem Serves.of_reading (whole : r.Whole) {offset len : Nat} (ranges : request.ranges = [(offset, len)])
    (outside : r.handle.length < offset + len →
      run = .error (.outOfBounds offset len r.handle.length) r)
    (idle : request.writes r.bytes.toBytes = none)
    (inside : offset + len ≤ r.bytes.size → run = .ok (request.reply r.bytes.toBytes) r) :
    r.Serves request run :=
  .of_range whole ranges outside fun fits =>
    ⟨r.bytes, inside fits, rfl, by rw [Request.effect, idle]⟩

theorem Serves.of_writing (whole : r.Whole) {offset : Nat} {data : ByteArray}
    (ranges : request.ranges = [(offset, data.size)])
    (outside : r.handle.length < offset + data.size →
      run = .error (.outOfBounds offset data.size r.handle.length) r)
    (written : request.writes r.bytes.toBytes = some (offset, data))
    (inside : offset + data.size ≤ r.bytes.size →
      run = .ok (request.reply r.bytes.toBytes) (r.written offset data)) :
    r.Serves request run :=
  .of_range whole ranges outside fun fits =>
    ⟨r.bytes.write offset data, inside fits, SparseBytes.size_write_inside fits,
      by rw [Request.effect, written, SparseBytes.toBytes_write fits]⟩

theorem serves_copyWithin (whole : r.Whole) (source target len : Nat) :
    r.Serves (.copyWithin source target len) ((Request.copyWithin source target len).work r) := by
  have reach := whole.reaches
  have length : r.bytes.size = r.handle.length := whole
  by_cases here : source + len ≤ r.handle.length
  · by_cases there : target + len ≤ r.handle.length
    · have granted : (Request.copyWithin source target len).fault? r.bytes.size = none := by
        simp [Request.fault?, Request.ranges, length, here, there]
      have ran : (Request.copyWithin source target len).work r =
          .ok .done (r.written target (r.bytes.read source len)) :=
        Work.bind_ok (copyWithin_run reach here there)
      have fits : target + (r.bytes.read source len).size ≤ r.bytes.size := by
        rw [SparseBytes.size_read, length]
        exact there
      refine .of_granted granted ⟨_, ran, SparseBytes.size_write_inside fits, ?_⟩
      rw [SparseBytes.toBytes_write fits, Request.effect, Request.writes,
        SparseBytes.slice_toBytes (length ▸ here)]
    · have refused : (Request.copyWithin source target len).fault? r.bytes.size =
          some (.outOfBounds target len r.handle.length) := by
        simp [Request.fault?, Request.ranges, length, here, Nat.not_le.mp there]
      have stopped : copyWithin source target len r =
          .error (.outOfBounds target len r.handle.length) r := by
        rw [copyWithin, Work.bind_ok (check_run reach here)]
        exact Work.bind_error (check_error (Nat.not_le.mp there))
      exact .of_refused refused (Work.bind_error stopped)
  · have refused : (Request.copyWithin source target len).fault? r.bytes.size =
        some (.outOfBounds source len r.handle.length) := by
      simp [Request.fault?, Request.ranges, length, Nat.not_le.mp here]
    exact .of_refused refused (Work.bind_error (Work.bind_error (check_error (Nat.not_le.mp here))))

theorem serves_work (whole : r.Whole) (request : Request) : r.Serves request (request.work r) := by
  have reach := whole.reaches
  have length : r.bytes.size = r.handle.length := whole
  cases request with
  | fill offset len | read offset len =>
    refine .of_reading whole rfl (fun outside => Work.bind_error (read_refused outside)) rfl fun fits => ?_
    rw [Request.reply, SparseBytes.slice_toBytes fits]
    exact Work.bind_ok (read_run reach (length ▸ fits))
  | write offset data =>
    exact .of_writing whole rfl (fun outside => Work.bind_error (write_refused outside rfl)) rfl
      fun fits => Work.bind_ok (write_run reach (length ▸ fits))
  | copyWithin source target len => exact serves_copyWithin whole source target len
  | zero offset len =>
    have size := Bytes.size_zeros len
    exact .of_writing whole
      (show (Request.zero offset len).ranges = [(offset, (Bytes.zeros len).size)] by rw [size]; rfl)
      (fun outside => by rw [size] at outside ⊢; exact Work.bind_error (zero_refused outside)) rfl
      fun fits => Work.bind_ok (zero_run reach (by rw [size] at fits; exact length ▸ fits))
  | readU32 offset =>
    refine .of_reading whole rfl
      (fun outside => Work.bind_error (Work.bind_error (read_refused outside))) rfl fun fits => ?_
    rw [Request.reply, SparseBytes.u32At_toBytes fits]
    exact Work.bind_ok (readU32_run reach (length ▸ fits))
  | readU64 offset =>
    refine .of_reading whole rfl
      (fun outside => Work.bind_error (Work.bind_error (read_refused outside))) rfl fun fits => ?_
    rw [Request.reply, SparseBytes.u64At_toBytes fits]
    exact Work.bind_ok (readU64_run reach (length ▸ fits))
  | writeU32 offset word =>
    have size := Bytes.size_ofU32 word
    exact .of_writing whole
      (show (Request.writeU32 offset word).ranges = [(offset, (Bytes.ofU32 word).size)] by rw [size]; rfl)
      (fun outside => Work.bind_error (write_refused outside rfl)) rfl
      fun fits => Work.bind_ok (writeU32_run reach word (by rw [size] at fits; exact length ▸ fits))
  | writeU64 offset word =>
    have size := Bytes.size_ofU64 word
    exact .of_writing whole
      (show (Request.writeU64 offset word).ranges = [(offset, (Bytes.ofU64 word).size)] by rw [size]; rfl)
      (fun outside => Work.bind_error (write_refused outside rfl)) rfl
      fun fits => Work.bind_ok (writeU64_run reach word (by rw [size] at fits; exact length ▸ fits))

end Region

def Place.Shares : Place → Place → Prop
  | .memory index, .memory other => index = other
  | .file _ place, .file _ other => place = other
  | _, _ => False

namespace Storage

def bytesAt (s : Storage) : Place → Option SparseBytes
  | .memory index => s.memory[index]?
  | .file _ place => s.files[place]?

section
variable {s : Storage} {home place : Place} {bytes : SparseBytes}

theorem bytesAt_shares (shared : place.Shares home) : s.bytesAt place = s.bytesAt home := by
  cases place <;> cases home <;> simp_all [Place.Shares, bytesAt]

theorem putBytes_shares (shared : place.Shares home) : s.putBytes bytes place = s.putBytes bytes home := by
  cases place <;> cases home <;> simp_all [Place.Shares, putBytes]

theorem takeBytes_fst (there : s.bytesAt place = some bytes) : (s.takeBytes place).1 = bytes := by
  cases place with
  | memory index =>
    rw [bytesAt] at there
    rw [takeBytes, Array.getD_eq_getD_getElem?, there, Option.getD_some]
  | file shown place => exact fileBytes_of_getElem? there

theorem putBytes_takeBytes (s : Storage) (place : Place) (bytes : SparseBytes) :
    (s.takeBytes place).2.putBytes bytes place = s.putBytes bytes place := by
  cases place with
  | memory index => simp [takeBytes, putBytes]
  | file shown place => exact setFile_setFile ..

theorem putBytes_putBytes (s : Storage) (place : Place) (first second : SparseBytes) :
    (s.putBytes first place).putBytes second place = s.putBytes second place := by
  cases place with
  | memory index => simp [putBytes]
  | file shown place => exact setFile_setFile ..

theorem bytesAt_putBytes (there : s.bytesAt place = some bytes) (after : SparseBytes) :
    (s.putBytes after place).bytesAt place = some after := by
  cases place with
  | memory index =>
    rw [bytesAt] at there
    have bound := (Array.getElem?_eq_some_iff.mp there).1
    simp [putBytes, bytesAt, bound]
  | file shown place =>
    rw [bytesAt, putBytes, getElem?_setFile, if_pos rfl]

theorem putBytes_self (there : s.bytesAt place = some bytes) : s.putBytes bytes place = s := by
  cases place with
  | memory index =>
    rw [bytesAt] at there
    obtain ⟨bound, here⟩ := Array.getElem?_eq_some_iff.mp there
    rw [putBytes, ← here, Array.setIfInBounds_def, dif_pos bound, Array.set_getElem_self]
  | file shown place => exact setFile_self there

theorem serve_eq {handle : RegionHandle} (shared : handle.place.Shares home)
    (there : s.bytesAt home = some bytes) (whole : bytes.size = handle.length)
    (small : bytes.size ≤ Request.maxBufferLength) (request : Request) :
    ∃ after : SparseBytes, after.size = bytes.size ∧
      after.toBytes = (request.onFlat bytes.toBytes).2 ∧
      s.serve handle request = (request.heard (request.onFlat bytes.toBytes).1, s.putBytes after home) := by
  by_cases overlong : request.Overlong
  · refine ⟨bytes, rfl, (Request.onFlat_overlong overlong (by rwa [SparseBytes.size_toBytes])).symm, ?_⟩
    rw [serve, if_pos overlong, Request.heard, if_pos overlong, putBytes_self there]
  · have here : s.bytesAt handle.place = some bytes := by rw [bytesAt_shares shared, there]
    have served := Region.serves_work (r := ⟨handle, bytes⟩) whole request
    have size := bytes.size_toBytes
    have lent := takeBytes_fst here
    rw [serve, if_neg overlong, lend, Work.onPart, Request.heard, if_neg overlong, Request.onFlat, size]
    simp only [lent]
    cases decided : request.fault? bytes.size with
    | some fault =>
      rw [served.refused fault decided]
      exact ⟨bytes, rfl, rfl, by rw [← putBytes_shares shared, ← putBytes_takeBytes]⟩
    | none =>
      obtain ⟨after, ran, kept, became⟩ := served.granted decided
      rw [ran]
      exact ⟨after, kept, became, by rw [← putBytes_shares shared, ← putBytes_takeBytes]⟩

theorem serveAll_eq {asked : List (RegionHandle × Request)}
    (handles : ∀ each ∈ asked, each.1.length = bytes.size ∧ each.1.place.Shares home)
    (there : s.bytesAt home = some bytes) (small : bytes.size ≤ Request.maxBufferLength) :
    ∃ after : SparseBytes, after.size = bytes.size ∧
      after.toBytes = (Request.allOnFlat (asked.map Prod.snd) bytes.toBytes).2 ∧
      s.serveAll asked =
        (List.zipWith Request.heard (asked.map Prod.snd)
          (Request.allOnFlat (asked.map Prod.snd) bytes.toBytes).1, s.putBytes after home) := by
  induction asked generalizing s bytes with
  | nil => exact ⟨bytes, rfl, rfl, by rw [putBytes_self there]; rfl⟩
  | cons first rest ih =>
    obtain ⟨handle, request⟩ := first
    obtain ⟨⟨length, shared⟩, others⟩ := List.forall_mem_cons.mp handles
    obtain ⟨between, kept, became, served⟩ := serve_eq shared there length.symm small request
    rw [← kept] at others small
    obtain ⟨after, still, last, all⟩ := ih others (bytesAt_putBytes there between) small
    refine ⟨after, still.trans kept, ?_, ?_⟩
    · rw [last, became]
      rfl
    · rw [serveAll, served]
      simp only [all, became, putBytes_putBytes]
      rfl

end

/-- Memory and a file of equal bytes serve any requests through any of their handles alike, and as a plain
string of these bytes does; and all that the string answers is heard if and only if no request needs a buffer
that cannot be made. The string refuses what does not lie within it, changes nothing then, and copies what was
there before. -/
theorem backings_alike {len index : Nat} {place : String} {s t : Storage} {inMemory inFile : SparseBytes}
    {heapAsked fileAsked : List (RegionHandle × Request)} (small : len ≤ Request.maxBufferLength)
    (heap : s.memory[index]? = some inMemory) (file : t.files[place]? = some inFile)
    (heapSize : inMemory.size = len) (fileSize : inFile.size = len)
    (same : inMemory.toBytes = inFile.toBytes)
    (heapHandles : ∀ each ∈ heapAsked, each.1 = ⟨len, .memory index⟩)
    (fileHandles : ∀ each ∈ fileAsked, ∃ shown, each.1 = ⟨len, .file shown place⟩)
    (alike : heapAsked.map Prod.snd = fileAsked.map Prod.snd) :
    let flat := Request.allOnFlat (heapAsked.map Prod.snd) inMemory.toBytes
    (s.serveAll heapAsked).1 = (t.serveAll fileAsked).1 ∧
      (s.serveAll heapAsked).1 = List.zipWith Request.heard (heapAsked.map Prod.snd) flat.1 ∧
      ((s.serveAll heapAsked).1 = flat.1.map some ↔ ∀ each ∈ heapAsked, ¬each.2.Overlong) ∧
      (∃ afterMemory afterFile : SparseBytes,
        (s.serveAll heapAsked).2 = { s with memory := s.memory.setIfInBounds index afterMemory } ∧
        (t.serveAll fileAsked).2 = t.setFile place afterFile ∧
        afterMemory.size = len ∧ afterFile.size = len ∧
        afterMemory.toBytes = flat.2 ∧ afterFile.toBytes = flat.2) ∧
      (∀ (request : Request) (bytes : ByteArray),
        ((∃ range ∈ request.ranges, bytes.size < range.1 + range.2) ↔
          ∃ range ∈ request.ranges, bytes.size < range.1 + range.2 ∧
            (request.onFlat bytes).1 = .error (.outOfBounds range.1 range.2 bytes.size)) ∧
        ∀ fault, (request.onFlat bytes).1 = .error fault → (request.onFlat bytes).2 = bytes) ∧
      ∀ (bytes : ByteArray) (source target width : Nat),
        source + width ≤ bytes.size → target + width ≤ bytes.size →
          ((Request.copyWithin source target width).onFlat bytes).1 = .ok .done ∧
          ∀ place, Bytes.byteAt ((Request.copyWithin source target width).onFlat bytes).2 place =
            if target ≤ place ∧ place < target + width then Bytes.byteAt bytes (source + (place - target))
            else Bytes.byteAt bytes place := by
  intro flat
  have heapShared : ∀ each ∈ heapAsked,
      each.1.length = inMemory.size ∧ each.1.place.Shares (.memory index) := by
    intro each here
    rw [heapHandles each here]
    exact ⟨heapSize.symm, rfl⟩
  have fileShared : ∀ each ∈ fileAsked,
      each.1.length = inFile.size ∧ each.1.place.Shares (.file "" place) := by
    intro each here
    obtain ⟨shown, handle⟩ := fileHandles each here
    rw [handle]
    exact ⟨fileSize.symm, rfl⟩
  obtain ⟨afterMemory, memorySize, memoryBytes, memoryRun⟩ :=
    serveAll_eq heapShared heap (heapSize ▸ small)
  obtain ⟨afterFile, fileKept, fileBytes, fileRun⟩ := serveAll_eq fileShared file (fileSize ▸ small)
  rw [← alike, ← same] at fileBytes fileRun
  have heard := Request.heard_all_iff (Request.length_allOnFlat (heapAsked.map Prod.snd) inMemory.toBytes)
  rw [List.forall_mem_map] at heard
  refine ⟨by rw [memoryRun, fileRun], by rw [memoryRun], by rw [memoryRun]; exact heard,
    ⟨afterMemory, afterFile, by rw [memoryRun]; rfl, by rw [fileRun]; rfl, memorySize.trans heapSize,
      fileKept.trans fileSize, memoryBytes, fileBytes⟩,
    fun request bytes => ⟨?_, fun fault refused => ?_⟩,
    fun _ _ _ _ here there => Request.onFlat_copyWithin here there⟩
  · simp only [Request.onFlat_refused_iff]
    exact request.exists_fault?_iff bytes.size
  · rw [Request.onFlat, (request.onFlat_refused_iff bytes fault).mp refused]

/-- Bytes copied over themselves in both directions, a request that ends behind the region, and one that ends
behind the last address: fresh memory and a fresh file, through two of its paths, answer alike. -/
theorem backings_alike_overlapping :
    let asked : List Request := [.write 0 (.mk #[1, 2, 3, 4]), .copyWithin 0 2 4, .writeU64 1 7,
      .copyWithin 18446744073709551615 0 2, .copyWithin 2 1 4, .read 0 8]
    let memory : Storage := ⟨#[.zeros 8], ∅, []⟩
    let file : Storage := ({} : Storage).setFile "r" (.zeros 8)
    newMemory 8 {} = .ok ⟨8, .memory 0⟩ memory ∧ fillFile "r" "r" 8 {} = .ok ⟨8, .file "r" "r"⟩ file ∧
      (memory.serveAll (asked.map fun request => (⟨8, .memory 0⟩, request))).1 =
        [some (.ok .done), some (.ok .done), some (.error (.outOfBounds 1 8 8)),
          some (.error (.outOfBounds 18446744073709551615 2 8)), some (.ok .done),
          some (.ok (.bytes (.mk #[1, 1, 2, 3, 4, 4, 0, 0])))] ∧
      (memory.serveAll (asked.map fun request => (⟨8, .memory 0⟩, request))).1 =
        (file.serveAll (asked.zipWith (fun request shown => (⟨8, .file shown "r"⟩, request))
          ["r", "./r", "r", "./r", "r", "./r"])).1 := by
  intro asked memory file
  have there : file.files["r"]? = some (.zeros 8) := by rw [getElem?_setFile, if_pos rfl]
  have here : memory.memory[0]? = some (.zeros 8) := rfl
  have inMemory : ∀ each ∈ asked.map fun request => ((⟨8, .memory 0⟩ : RegionHandle), request),
      each.1 = ⟨8, .memory 0⟩ := by simp [asked]
  have inFile : ∀ each ∈ asked.zipWith (fun request shown => ((⟨8, .file shown "r"⟩ : RegionHandle), request))
      ["r", "./r", "r", "./r", "r", "./r"], ∃ shown, each.1 = ⟨8, .file shown "r"⟩ := by simp [asked]
  have run := backings_alike (by decide) here there rfl rfl rfl inMemory inFile rfl
  have flat : Request.allOnFlat asked (SparseBytes.zeros 8).toBytes =
      ([.ok .done, .ok .done, .error (.outOfBounds 1 8 8), .error (.outOfBounds 18446744073709551615 2 8),
        .ok .done, .ok (.bytes (.mk #[1, 1, 2, 3, 4, 4, 0, 0]))], .mk #[1, 1, 2, 3, 4, 4, 0, 0]) := by
    decide +kernel
  have heard := run.2.2.1.mpr (by decide)
  rw [List.map_map, show (Prod.snd ∘ fun request : Request => ((⟨8, .memory 0⟩ : RegionHandle), request)) = id
    from rfl, List.map_id, flat] at heard
  exact ⟨rfl, rfl, heard, run.1⟩

/-- For zeros up to the last address and beyond no buffer can be made: the caller is stopped, in memory and in
a file, where a string of bytes refuses the range. -/
theorem overlong_not_refused :
    let request : Request := .zero 8 18446744073709551615
    let memory : Storage := ⟨#[.zeros 16], ∅, []⟩
    let file : Storage := ({} : Storage).setFile "r" (.zeros 16)
    memory.serve ⟨16, .memory 0⟩ request = (none, memory) ∧
      file.serve ⟨16, .file "r" "r"⟩ request = (none, file) ∧
      (request.onFlat (SparseBytes.zeros 16).toBytes).1 =
        .error (.outOfBounds 8 18446744073709551615 16) := by
  refine ⟨rfl, rfl, by decide +kernel⟩

end Storage

end Reassembly
