import Reassembly.Publication
import Reassembly.Proofs.Opening

/-!
What is in storage. Files are told apart by their places and by nothing but their contents; a region's
bytes that were lent out come back with what was done to them, and a place that was free is free again
once its file is removed.
-/

namespace Reassembly

namespace Bytes

theorem toBytes_write_zeros {len : Nat} {data : ByteArray} (fits : data.size ≤ len) :
    ((SparseBytes.zeros len).write 0 data).toBytes = data ++ zeros (len - data.size) := by
  have size : ((SparseBytes.zeros len).write 0 data).size = len := by
    unfold SparseBytes.write
    split
    · rfl
    · exact Nat.max_eq_left (by rw [Nat.zero_add]; exact fits)
  apply ext_byteAt
  · rw [SparseBytes.toBytes, SparseBytes.size_read, size, ByteArray.size_append, size_zeros]
    omega
  · intro place
    rw [SparseBytes.toBytes, SparseBytes.byteAt_read, size, Nat.zero_add, SparseBytes.byteAt_write,
      byteAt_append, byteAt_zeros, SparseBytes.byteAt_zeros]
    by_cases inside : place < data.size
    · rw [if_pos (by omega), if_pos (by omega), if_pos inside, Nat.sub_zero]
    · rw [if_neg (by omega : ¬ (0 ≤ place ∧ place < 0 + data.size)), if_neg inside]
      split <;> rfl

end Bytes

theorem SparseBytes.toBytes_zeros (len : Nat) : (zeros len).toBytes = Bytes.zeros len := by
  apply Bytes.ext_byteAt
  · rw [toBytes, size_read, Bytes.size_zeros]
    rfl
  · intro place
    rw [toBytes, byteAt_read, byteAt_zeros, Bytes.byteAt_zeros]
    split <;> rfl

namespace Storage

variable {s : Storage} {place other : String} {bytes : SparseBytes}

def contents (s : Storage) (place : String) : Option ByteArray :=
  s.files[place]?.map SparseBytes.toBytes

/-- Whether two storages have the same files, with the same contents, and the same folders. -/
structure Alike (s t : Storage) : Prop where
  contents : ∀ place, s.contents place = t.contents place
  folders : s.folders = t.folders

theorem Alike.refl (s : Storage) : s.Alike s := ⟨fun _ => rfl, rfl⟩

theorem ext_files {s t : Storage} (memory : s.memory = t.memory)
    (files : ∀ place : String, s.files[place]? = t.files[place]?)
    (folders : s.folders = t.folders) : s = t := by
  obtain ⟨_, files₁, _⟩ := s
  obtain ⟨_, files₂, _⟩ := t
  obtain rfl : files₁ = files₂ := Std.ExtTreeMap.ext_getElem? files
  obtain rfl := memory
  obtain rfl := folders
  rfl

theorem getElem?_setFile (s : Storage) (place other : String) (bytes : SparseBytes) :
    (s.setFile place bytes).files[other]? = if place = other then some bytes else s.files[other]? := by
  simp [setFile, Std.ExtTreeMap.getElem?_insert]

theorem getElem?_removeFile (s : Storage) (place other : String) :
    (s.removeFile place).files[other]? = if place = other then none else s.files[other]? := by
  simp [removeFile, Std.ExtTreeMap.getElem?_erase]

theorem contents_setFile (s : Storage) (place other : String) (bytes : SparseBytes) :
    (s.setFile place bytes).contents other =
      if place = other then some bytes.toBytes else s.contents other := by
  unfold contents
  rw [getElem?_setFile]
  split <;> rfl

theorem fileBytes_of_getElem? (there : s.files[place]? = some bytes) : s.fileBytes place = bytes := by
  rw [fileBytes, Std.ExtTreeMap.getD_eq_getD_getElem?, there, Option.getD_some]

theorem fileBytes_setFile : (s.setFile place bytes).fileBytes place = bytes :=
  fileBytes_of_getElem? (by rw [getElem?_setFile, if_pos rfl])

theorem setFile_setFile (s : Storage) (place : String) (first second : SparseBytes) :
    (s.setFile place first).setFile place second = s.setFile place second := by
  refine ext_files rfl (fun other => ?_) rfl
  simp only [getElem?_setFile]
  split <;> rfl

theorem setFile_self (there : s.files[place]? = some bytes) : s.setFile place bytes = s := by
  refine ext_files rfl (fun other => ?_) rfl
  rw [getElem?_setFile]
  split
  · next same => rw [← same, there]
  · rfl

theorem removeFile_setFile (free : s.files[place]? = none) :
    (s.setFile place bytes).removeFile place = s := by
  refine ext_files rfl (fun other => ?_) rfl
  rw [getElem?_removeFile, getElem?_setFile]
  split
  · next same => rw [← same, free]
  · rfl

theorem removeFile_setFile_setFile {draft : String} (free : s.files[draft]? = none)
    (apart : draft ≠ place) (first second : SparseBytes) :
    (((s.setFile draft first).setFile place second).removeFile draft) = s.setFile place second := by
  refine ext_files rfl (fun other => ?_) rfl
  simp only [getElem?_removeFile, getElem?_setFile]
  by_cases same : draft = other
  · rw [if_pos same, if_neg (by rintro rfl; exact apart same), ← same, free]
  · rw [if_neg same, if_neg same]

section
variable {α : Type} {shown : String} {len : Nat} {work : Access α}

theorem lend_ok (there : s.files[place]? = some bytes) {a : α} {handle : RegionHandle}
    {after : SparseBytes} (ran : work ⟨⟨len, .file shown place⟩, bytes⟩ = .ok a ⟨handle, after⟩) :
    lend ⟨len, .file shown place⟩ work s = .ok a (s.setFile place after) := by
  simp only [lend, Work.onPart, takeBytes, fileBytes_of_getElem? there, ran, putBytes, setFile_setFile]

theorem lend_error (there : s.files[place]? = some bytes) {fault : Fault} {handle : RegionHandle}
    {after : SparseBytes}
    (ran : work ⟨⟨len, .file shown place⟩, bytes⟩ = .error fault ⟨handle, after⟩) :
    lend ⟨len, .file shown place⟩ work s = .error fault (s.setFile place after) := by
  simp only [lend, Work.onPart, takeBytes, fileBytes_of_getElem? there, ran, putBytes, setFile_setFile]

end

theorem createFile_cases {α : Type} (path : String) (len : Nat) (s : Storage)
    (next : RegionHandle → Storing α) :
    (createFile path len >>= next) s = .error (.cannotOpen path) s ∨
    ∃ place, (s.locate path = .file place ∨ s.locate path = .vacant place) ∧
      (createFile path len >>= next) s = (fillFile path place len >>= next) s := by
  have entered {place : String} (opened : createFile path len s = fillFile path place len s) :
      (createFile path len >>= next) s = (fillFile path place len >>= next) s := by
    simp only [bind, EStateM.bind, opened]
  cases leads : s.locate path with
  | file place => exact .inr ⟨place, .inl rfl, entered (by rw [createFile, leads])⟩
  | vacant place => exact .inr ⟨place, .inr rfl, entered (by rw [createFile, leads])⟩
  | folder | fileAsFolder | nowhere => exact .inl (Work.bind_error (by rw [createFile, leads]))

theorem above_ne_file (names : List String) :
    above names ≠ .file place ∧ above names ≠ .vacant place := by
  unfold above
  split
  · exact ⟨nofun, nofun⟩
  · exact ⟨nofun, nofun⟩

theorem follow_file {folder names : List String} (leads : s.follow folder names = .file place) :
    s.files.contains place = true := by
  fun_induction follow s folder names with
  | case1 | case8 | case9 => cases leads
  | case2 | case4 | case5 =>
    rename_i ih
    exact ih leads
  | case3 => exact absurd leads (above_ne_file _).1
  | case6 =>
    rename_i there
    obtain rfl := Spot.file.inj leads
    exact there
  | case7 => cases leads

theorem follow_vacant {t : Storage} (folders : t.folders = s.folders)
    (filled : t.files.contains place = true) {folder names : List String}
    (leads : s.follow folder names = .vacant place) :
    s.files.contains place = false ∧ t.follow folder names = .file place := by
  fun_induction follow s folder names with
  | case1 | case6 | case8 | case9 => cases leads
  | case2 folder name rest idle ih =>
    rw [follow, if_pos idle]
    exact ih leads
  | case3 => exact absurd leads (above_ne_file _).2
  | case4 folder rest idle inside ih =>
    rw [follow, if_neg idle, if_pos rfl, if_neg inside]
    exact ih leads
  | case5 folder name rest idle up path listed ih =>
    rw [follow, if_neg idle, if_neg up, if_pos (folders ▸ listed)]
    exact ih leads
  | case7 folder name rest idle up path place' unlisted last free =>
    obtain rfl := Spot.vacant.inj leads
    rw [follow, if_neg idle, if_neg up, if_neg (folders ▸ unlisted), if_pos last, if_pos filled]
    exact ⟨Bool.not_eq_true _ ▸ free, rfl⟩

theorem contains_of_locate_file {path : String} (leads : s.locate path = .file place) :
    s.files.contains place = true := by
  rw [locate] at leads
  split at leads
  · cases leads
  · split at leads
    · exact absurd leads (above_ne_file _).1
    · exact follow_file leads

theorem locate_vacant {t : Storage} (folders : t.folders = s.folders)
    (filled : t.files.contains place = true) {path : String} (leads : s.locate path = .vacant place) :
    s.files.contains place = false ∧ t.locate path = .file place := by
  rw [locate] at leads ⊢
  split at leads
  · cases leads
  · next short =>
    split at leads
    · exact absurd leads (above_ne_file _).2
    · next below =>
      rw [if_neg short, if_neg below]
      exact follow_vacant folders filled leads

theorem file_of_locate {path : String} (leads : s.locate path = .file place) :
    ∃ bytes, s.files[place]? = some bytes := by
  have there := contains_of_locate_file leads
  rwa [Std.ExtTreeMap.contains_eq_isSome_getElem?, Option.isSome_iff_exists] at there

theorem openFile_ok {path : String} (leads : s.locate path = .file place)
    (there : s.files[place]? = some bytes) :
    openFile path s = .ok ⟨bytes.size, .file path place⟩ s := by
  rw [openFile, leads]
  simp only [fileBytes_of_getElem? there]

theorem locate_setFile {path : String} (leads : s.locate path = .vacant place) (bytes : SparseBytes) :
    s.files[place]? = none ∧ (s.setFile place bytes).locate path = .file place := by
  have filled : (s.setFile place bytes).files.contains place = true := by
    rw [Std.ExtTreeMap.contains_eq_isSome_getElem?, getElem?_setFile, if_pos rfl]
    rfl
  obtain ⟨free, found⟩ := @locate_vacant s place (s.setFile place bytes) rfl filled path leads
  refine ⟨?_, found⟩
  rwa [Std.ExtTreeMap.contains_eq_isSome_getElem?, Option.isSome_eq_false_iff,
    Option.isNone_iff_eq_none] at free

theorem free_of_freePlace {folder name : String} (free : s.freePlace folder name = some place) :
    s.files[place]? = none := by
  rw [freePlace] at free
  split at free
  · next leads =>
    obtain rfl := Option.some.inj free
    exact (locate_setFile leads (.zeros 0)).1
  · split at free
    · cases free
    · next absent =>
      obtain rfl := Option.some.inj free
      rw [Bool.not_eq_true, Std.ExtTreeMap.contains_eq_isSome_getElem?, Option.isSome_eq_false_iff,
        Option.isNone_iff_eq_none] at absent
      exact absent
  · cases free

end Storage

end Reassembly
