import Reassembly.Proofs.Filing

/-!
Making and opening stores among files that are there. Whatever is refused is refused before a file is
touched, and a draft is gone whether it was published or not; a store that is there is taken as it is. Only
a length that no file can have comes to light too late: the file is emptied before its length is set.
-/

namespace Reassembly

open Store

namespace Attachment

variable {config : StoreConfig} {l : Layout}

theorem store_valid {config : Config} (valid : config.validate = .ok ()) :
    config.store.validate = .ok () := by
  unfold Config.validate at valid
  cases checked : config.store.validate with
  | ok => rfl
  | error fault =>
    rw [checked] at valid
    cases valid

theorem adopt_valid (valid : config.validate = .ok ()) (l : Layout) :
    (adopt config l).validate = .ok () := by
  have framable : ¬ l.blockCapacity < minBlockCapacity := UInt32.not_lt.mpr l.framable
  unfold StoreConfig.validate at valid ⊢
  rw [adopt, if_neg framable, if_neg l.inhabited]
  split at valid
  · cases valid
  · split at valid
    · cases valid
    · exact valid

def blank (l : Layout) : SparseBytes := (SparseBytes.zeros l.required).write 0 l.toBytes

theorem size_blank (l : Layout) : (blank l).size = l.required := by
  have room : headerSize ≤ l.required := l.headerSize_le_slab.trans l.slab_le_required
  rw [blank, SparseBytes.size_write _ _ _ (by rw [Layout.size_toBytes]; decide), Layout.size_toBytes,
    Nat.zero_add]
  exact Nat.max_eq_left room

theorem format_blank (valid : config.validate = .ok ()) (divided : layoutFor config = .ok l)
    (place : Place) :
    format config ⟨⟨l.required, place⟩, .zeros l.required⟩ =
      .ok (fresh ⟨l.required, place⟩ l config) ⟨⟨l.required, place⟩, blank l⟩ :=
  format_written valid divided ⟨Nat.le_refl _, Nat.le_refl _⟩

theorem attach_carried {own handle : RegionHandle} {bytes : SparseBytes} {cat : Catalog}
    (carries : Carries l ⟨own, bytes⟩ cat) (long : l.required ≤ handle.length)
    (valid : config.validate = .ok ()) :
    attach config ⟨handle, bytes⟩ = .ok (fresh handle l (adopt config l)) ⟨handle, bytes⟩ := by
  have room : headerSize ≤ handle.length := (l.headerSize_le_slab.trans l.slab_le_required).trans long
  have found := @Carries.attach_eq l bytes handle cat own carries
  rw [if_neg (Nat.not_lt.mpr room), if_neg (Nat.not_lt.mpr long)] at found
  rw [attach, Work.bind_ok found, ← adopt, Work.bind_ok (Work.check_ok (adopt_valid valid l) _)]
  rfl

theorem attach_blank (valid : config.validate = .ok ()) (divided : layoutFor config = .ok l)
    (place : Place) :
    attach config ⟨⟨l.required, place⟩, blank l⟩ =
      .ok (fresh ⟨l.required, place⟩ l config) ⟨⟨l.required, place⟩, blank l⟩ := by
  have carries : Carries l ⟨⟨l.required, place⟩, blank l⟩ .empty :=
    Layout.written_carries (r := ⟨⟨l.required, place⟩, .zeros l.required⟩)
      ⟨Nat.le_refl _, Nat.le_refl _⟩
  rw [attach_carried carries (Nat.le_refl _) valid, adopt_of_layoutFor divided]

section
variable {s : Storage} {path draft : String}

inductive Creates (config : Config) (s : Storage) : EStateM.Result Fault Storage Attachment → Prop
  | refused (fault : Fault) : Creates config s (.error fault s)
  | emptied {path place : String} {l : Layout} (valid : config.validate = .ok ())
      (named : config.regionPath = some path)
      (leads : s.locate path = .file place ∨ s.locate path = .vacant place)
      (divided : layoutFor config.store = .ok l) (long : Storage.maxFileLength < l.required) :
      Creates config s (.error .io (s.setFile place (.zeros 0)))
  | made (a : Attachment) (s' : Storage) : Creates config s (.ok a s')

theorem requiredLength_ok (divided : layoutFor config = .ok l) :
    requiredLength config = .ok l.required := by
  rw [requiredLength, divided]
  rfl

theorem requiredLength_error {fault : Fault} (failed : layoutFor config = .error fault) :
    requiredLength config = .error fault := by
  rw [requiredLength, failed]
  rfl

theorem inMemory_made (valid : config.validate = .ok ()) (divided : layoutFor config = .ok l)
    (s : Storage) :
    ∃ s', (Storage.newMemory l.required >>= fun handle =>
      Storage.lend handle (format config)) s =
        .ok (fresh ⟨l.required, .memory s.memory.size⟩ l config) s' := by
  have made : Storage.newMemory l.required s = .ok ⟨l.required, .memory s.memory.size⟩
      { s with memory := s.memory.push (.zeros l.required) } := rfl
  have bytes : (s.memory.push (SparseBytes.zeros l.required)).getD s.memory.size (.zeros 0) =
      .zeros l.required := by
    simp [Array.getD]
  have formatted := format_blank valid divided (.memory s.memory.size)
  rw [← bytes] at formatted
  rw [Work.bind_ok made, Storage.lend]
  exact ⟨_, Work.onPart_ok formatted⟩

theorem fillFile_format (valid : config.validate = .ok ()) (divided : layoutFor config = .ok l)
    (short : l.required ≤ Storage.maxFileLength) (shown place : String) (s : Storage) :
    (Storage.fillFile shown place l.required >>= fun handle => Storage.lend handle (format config)) s =
      .ok (fresh ⟨l.required, .file shown place⟩ l config) (s.setFile place (blank l)) := by
  have filled : Storage.fillFile shown place l.required s =
      .ok ⟨l.required, .file shown place⟩ (s.setFile place (.zeros l.required)) := by
    rw [Storage.fillFile, if_pos short]
  have there : (s.setFile place (.zeros l.required)).files[place]? = some (.zeros l.required) := by
    rw [Storage.getElem?_setFile, if_pos rfl]
  rw [Work.bind_ok filled, Storage.lend_ok there (format_blank valid divided (.file shown place)),
    Storage.setFile_setFile]

theorem fillFile_emptied {α : Type} {len : Nat} (long : Storage.maxFileLength < len)
    (shown place : String) (next : RegionHandle → Storing α) (s : Storage) :
    (Storage.fillFile shown place len >>= next) s = .error .io (s.setFile place (.zeros 0)) := by
  refine Work.bind_error ?_
  rw [Storage.fillFile, if_neg (Nat.not_le.mpr long)]

theorem createStore_cases (config : Config) (s : Storage) :
    Creates config s (createStore config s) := by
  rw [createStore]
  cases valid : config.validate with
  | error fault =>
    rw [Work.bind_error (Work.check_error rfl s)]
    exact .refused fault
  | ok =>
    rw [Work.bind_ok (Work.check_ok rfl s)]
    have usable := store_valid valid
    cases divided : layoutFor config.store with
    | error fault =>
      rw [Work.bind_error (Work.check_error (requiredLength_error divided) s)]
      exact .refused fault
    | ok l =>
      rw [Work.bind_ok (Work.check_ok (requiredLength_ok divided) s)]
      cases named : config.regionPath with
      | none =>
        obtain ⟨s', made⟩ := inMemory_made usable divided s
        dsimp only
        rw [made]
        exact .made _ s'
      | some path =>
        dsimp only
        rcases Storage.createFile_cases path l.required s
            fun handle => Storage.lend handle (format config.store) with
          refused | ⟨place, leads, entered⟩
        · rw [refused]
          exact .refused _
        · rw [entered]
          rcases Nat.lt_or_ge Storage.maxFileLength l.required with long | short
          · rw [fillFile_emptied long]
            exact .emptied valid named leads divided long
          · rw [fillFile_format usable divided short]
            exact .made _ _

theorem withDraft_ok {α : Type} {work : Storing α} {a : α} {t : Storage}
    (ran : work (s.setFile draft (.zeros 0)) = .ok a t) :
    withDraft draft work s = .ok a (t.removeFile draft) := by
  simp only [withDraft, ran]

theorem withDraft_error {α : Type} {work : Storing α} {fault : Fault} {t : Storage}
    (ran : work (s.setFile draft (.zeros 0)) = .error fault t) :
    withDraft draft work s = .error fault (t.removeFile draft) := by
  simp only [withDraft, ran]

theorem draftPlace_spec (chosen : draftPlace s path = some draft) :
    s.files[draft]? = none ∧ s.locate path ≠ .vacant draft := by
  rw [draftPlace] at chosen
  split at chosen
  · obtain ⟨number, _, picked⟩ := List.exists_of_findSome?_eq_some chosen
    obtain ⟨free, other⟩ := Option.filter_eq_some_iff.mp picked
    exact ⟨Storage.free_of_freePlace free, by simpa using other⟩
  · cases chosen

theorem formatDraft_cases (config : StoreConfig) (free : s.files[draft]? = none) :
    (∃ fault t, t.removeFile draft = s ∧
      formatDraft config draft (s.setFile draft (.zeros 0)) = .error fault t) ∨
    ∃ l, layoutFor config = .ok l ∧ l.required ≤ Storage.maxFileLength := by
  rw [formatDraft]
  cases divided : layoutFor config with
  | error fault =>
    exact .inl ⟨fault, _, Storage.removeFile_setFile free,
      Work.bind_error (Work.check_error (requiredLength_error divided) _)⟩
  | ok l =>
    rcases Nat.lt_or_ge Storage.maxFileLength l.required with long | short
    · refine .inl ⟨.io, s.setFile draft (.zeros 0), Storage.removeFile_setFile free, ?_⟩
      rw [Work.bind_ok (Work.check_ok (requiredLength_ok divided) _), fillFile_emptied long,
        Storage.setFile_setFile]
    · exact .inr ⟨l, rfl, short⟩

theorem formatDraft_then (valid : config.validate = .ok ()) (divided : layoutFor config = .ok l)
    (short : l.required ≤ Storage.maxFileLength) (draft : String) (next : Storing Unit) (s : Storage) :
    (discard (formatDraft config draft) >>= fun _ => next) (s.setFile draft (.zeros 0)) =
      next (s.setFile draft (blank l)) := by
  have formatted : formatDraft config draft (s.setFile draft (.zeros 0)) =
      .ok (fresh ⟨l.required, .file draft draft⟩ l config) (s.setFile draft (blank l)) := by
    rw [formatDraft, Work.bind_ok (Work.check_ok (requiredLength_ok divided) _),
      fillFile_format valid divided short, Storage.setFile_setFile]
  exact Work.bind_ok (Work.map_ok formatted)

theorem withDraft_made (valid : config.validate = .ok ()) (divided : layoutFor config = .ok l)
    (short : l.required ≤ Storage.maxFileLength) (free : s.files[draft]? = none) {place : String}
    (apart : draft ≠ place) :
    withDraft draft (discard (formatDraft config draft) >>= fun _ => link draft (.vacant place)) s =
      .ok () (s.setFile place (blank l)) := by
  have linked : link draft (.vacant place) (s.setFile draft (blank l)) =
      .ok () ((s.setFile draft (blank l)).setFile place (blank l)) := by
    rw [link, Work.modify_run, Storage.fileBytes_setFile]
  rw [withDraft_ok ((formatDraft_then valid divided short draft _ s).trans linked),
    Storage.removeFile_setFile_setFile free apart]

inductive Publishes (config : StoreConfig) (spot : Spot) (s : Storage) :
    EStateM.Result Fault Storage Unit → Prop
  | refused (fault : Fault) : Publishes config spot s (.error fault s)
  | taken (there : ∀ place, spot ≠ .vacant place) : Publishes config spot s (.ok () s)
  | made {place : String} {l : Layout} (leads : spot = .vacant place)
      (divided : layoutFor config = .ok l) : Publishes config spot s (.ok () (s.setFile place (blank l)))

theorem withDraft_cases (valid : config.validate = .ok ()) (free : s.files[draft]? = none) (spot : Spot)
    (apart : spot ≠ .vacant draft) :
    Publishes config spot s
      (withDraft draft (discard (formatDraft config draft) >>= fun _ => link draft spot) s) := by
  rcases formatDraft_cases config free with ⟨fault, t, gone, failed⟩ | ⟨l, divided, short⟩
  · have dropped : (discard (formatDraft config draft) : Storing Unit) (s.setFile draft (.zeros 0)) =
        .error fault t := Work.map_error failed
    rw [withDraft_error (Work.bind_error dropped), gone]
    exact .refused fault
  · have refused (barred : link draft spot (s.setFile draft (blank l)) =
        .error .io (s.setFile draft (blank l))) : Publishes config spot s
          (withDraft draft (discard (formatDraft config draft) >>= fun _ => link draft spot) s) := by
      rw [withDraft_error ((formatDraft_then valid divided short draft _ s).trans barred),
        Storage.removeFile_setFile free]
      exact .refused _
    cases spot with
    | vacant place =>
      rw [withDraft_made valid divided short free fun same => apart (by rw [same])]
      exact .made rfl divided
    | fileAsFolder =>
      have left : link draft .fileAsFolder (s.setFile draft (blank l)) =
          .ok () (s.setFile draft (blank l)) := rfl
      rw [withDraft_ok ((formatDraft_then valid divided short draft _ s).trans left),
        Storage.removeFile_setFile free]
      exact .taken nofun
    | folder | file place | nowhere => exact refused rfl

theorem beside_cases (valid : config.validate = .ok ()) (path : String) (s : Storage) :
    Publishes config (s.locate path) s
      ((match draftPlace s path with
        | none => throw Fault.io
        | some draft => withDraft draft do
          discard (formatDraft config draft)
          link draft (s.locate path)) s) := by
  cases chosen : draftPlace s path with
  | none => exact .refused _
  | some draft =>
    obtain ⟨free, apart⟩ := draftPlace_spec chosen
    exact withDraft_cases valid free _ apart

theorem publish_cases (valid : config.validate = .ok ()) (path : String) (s : Storage) :
    Publishes config (s.locate path) s (publish config path s) := by
  have beside := beside_cases valid path s
  rw [publish, Work.bind_ok (Work.get_run s)]
  cases leads : s.locate path with
  | folder | file place =>
    apply Publishes.taken
    intro place same
    cases same
  | vacant place | fileAsFolder | nowhere =>
    rw [leads] at beside
    exact beside

inductive Opens (config : Config) (s : Storage) : EStateM.Result Fault Storage Attachment → Prop
  | refused (fault : Fault) : Opens config s (.error fault s)
  | unnamed (unnamed : config.regionPath = none) (a : Attachment) (s' : Storage) :
      Opens config s (.ok a s')
  | found {path place : String} {bytes : SparseBytes} {l : Layout} {handle : RegionHandle}
      (named : config.regionPath = some path) (leads : s.locate path = .file place)
      (there : s.files[place]? = some bytes) (header : Layout.ofBytes (bytes.read 0 headerSize) = .ok l)
      (long : l.required ≤ bytes.size) :
      Opens config s (.ok (fresh handle l (adopt config.store l)) s)
  | made {path place : String} {l : Layout} {handle : RegionHandle}
      (named : config.regionPath = some path) (leads : s.locate path = .vacant place)
      (divided : layoutFor config.store = .ok l) :
      Opens config s (.ok (fresh handle l config.store) (s.setFile place (blank l)))

theorem openFile_cases {path : String} (taken : ∀ place, s.locate path ≠ .vacant place)
    (next : RegionHandle → Storing Attachment) :
    (Storage.openFile path >>= next) s = .error (.cannotOpen path) s ∨
    ∃ place bytes, s.locate path = .file place ∧ s.files[place]? = some bytes ∧
      (Storage.openFile path >>= next) s = next ⟨bytes.size, .file path place⟩ s := by
  cases leads : s.locate path with
  | file place =>
    obtain ⟨bytes, there⟩ := Storage.file_of_locate leads
    exact .inr ⟨place, bytes, rfl, there, Work.bind_ok (Storage.openFile_ok leads there)⟩
  | vacant place => exact absurd leads (taken place)
  | folder | fileAsFolder | nowhere => exact .inl (Work.bind_error (by rw [Storage.openFile, leads]))

theorem openFile_blank (valid : config.validate = .ok ()) (divided : layoutFor config = .ok l)
    {place : String} (leads : s.locate path = .vacant place) :
    (Storage.openFile path >>= fun handle => Storage.lend handle (attach config))
        (s.setFile place (blank l)) =
      .ok (fresh ⟨l.required, .file path place⟩ l config) (s.setFile place (blank l)) := by
  have there : (s.setFile place (blank l)).files[place]? = some (blank l) := by
    rw [Storage.getElem?_setFile, if_pos rfl]
  have opened := Storage.openFile_ok (Storage.locate_setFile leads (blank l)).2 there
  rw [Work.bind_ok opened, size_blank, Storage.lend_ok there (attach_blank valid divided _),
    Storage.setFile_self there]

theorem openStore_cases (config : Config) (s : Storage) : Opens config s (openStore config s) := by
  rw [openStore]
  cases valid : config.validate with
  | error fault =>
    rw [Work.bind_error (Work.check_error rfl s)]
    exact .refused fault
  | ok =>
    rw [Work.bind_ok (Work.check_ok rfl s)]
    have usable := store_valid valid
    cases named : config.regionPath with
    | none =>
      dsimp only
      generalize made : createStore config s = result
      cases made ▸ createStore_cases config s with
      | refused fault => exact .refused fault
      | emptied _ named' => rw [named] at named'; cases named'
      | made a s' => exact .unnamed named a s'
    | some path =>
      dsimp only
      generalize published : publish config.store path s = result
      cases published ▸ publish_cases usable path s with
      | refused fault =>
        rw [Work.bind_error published]
        exact .refused fault
      | taken there =>
        rw [Work.bind_ok published]
        rcases openFile_cases there fun handle => Storage.lend handle (attach config.store) with
          refused | ⟨place, bytes, leads, there, opened⟩
        · rw [refused]
          exact .refused _
        · rw [opened]
          rcases attach_cases config.store ⟨⟨bytes.size, .file path place⟩, bytes⟩ with
            ⟨fault, failed⟩ | ⟨l, header, long, attached⟩
          · rw [Storage.lend_error there failed, Storage.setFile_self there]
            exact .refused fault
          · rw [Storage.lend_ok there attached, Storage.setFile_self there]
            exact .found named leads there header long
      | @made place l leads divided =>
        rw [Work.bind_ok published, openFile_blank usable divided leads]
        exact .made named leads divided

theorem openStore_founds {config : Config} (valid : config.validate = .ok ())
    (named : config.regionPath = some path) {place : String} (leads : s.locate path = .vacant place)
    (chosen : draftPlace s path = some draft) (divided : layoutFor config.store = .ok l)
    (short : l.required ≤ Storage.maxFileLength) :
    openStore config s =
      .ok (fresh ⟨l.required, .file path place⟩ l config.store) (s.setFile place (blank l)) := by
  obtain ⟨free, other⟩ := draftPlace_spec chosen
  have apart : draft ≠ place := by
    rintro rfl
    exact other leads
  have published : publish config.store path s = .ok () (s.setFile place (blank l)) := by
    rw [publish, Work.bind_ok (Work.get_run s), leads]
    dsimp only
    rw [chosen]
    exact withDraft_made (store_valid valid) divided short free apart
  rw [openStore, Work.bind_ok (Work.check_ok valid s), named]
  exact (Work.bind_ok published).trans (openFile_blank (store_valid valid) divided leads)

theorem openStore_finds {config : Config} (valid : config.validate = .ok ())
    (named : config.regionPath = some path) {place : String} (leads : s.locate path = .file place)
    {own : RegionHandle} {cat : Catalog} (carries : Carries l ⟨own, s.fileBytes place⟩ cat) :
    openStore config s =
      .ok (fresh ⟨(s.fileBytes place).size, .file path place⟩ l (adopt config.store l)) s := by
  obtain ⟨bytes, there⟩ := Storage.file_of_locate leads
  rw [Storage.fileBytes_of_getElem? there] at carries ⊢
  have published : publish config.store path s = .ok () s := by
    rw [publish, Work.bind_ok (Work.get_run s), leads]
    rfl
  have attached : attach config.store ⟨⟨bytes.size, .file path place⟩, bytes⟩ =
      .ok (fresh ⟨bytes.size, .file path place⟩ l (adopt config.store l))
        ⟨⟨bytes.size, .file path place⟩, bytes⟩ :=
    attach_carried carries carries.reach.bytes (store_valid valid)
  rw [openStore, Work.bind_ok (Work.check_ok valid s), named]
  refine (Work.bind_ok published).trans ((Work.bind_ok (Storage.openFile_ok leads there)).trans ?_)
  rw [Storage.lend_ok there attached, Storage.setFile_self there]

/-- A store that is found: its header decides on the geometry. -/
structure Found (config : Config) (s : Storage) (place : String) (a : Attachment) : Prop where
  header : ∃ bytes, s.contents place = some bytes ∧
    HeaderFields.ofBytes (Bytes.slice bytes 0 headerSize) = a.layout.fields
  geometry : a.config = adopt config.store a.layout

/-- A store that is made: a header, zeros behind it, and no change anywhere else. -/
structure Made (config : Config) (s : Storage) (place : String) (a : Attachment) (t : Storage) : Prop where
  layout : layoutFor config.store = .ok a.layout
  config : a.config = config.store
  contents : ∀ other, t.contents other =
    if place = other then some (a.layout.toBytes ++ Bytes.zeros (a.layout.required - headerSize))
    else s.contents other
  folders : t.folders = s.folders

/-- What making and opening a store owe to the files that are there. -/
structure Protects (config : Config) (s : Storage) : Prop where
  unmade : ∀ fault t, createStore config s = .error fault t → t.Alike s
  unopened : ∀ fault t, openStore config s = .error fault t → t.Alike s
  opened : ∀ path a t, config.regionPath = some path → openStore config s = .ok a t →
    (∃ place, s.locate path = .file place ∧ t.Alike s ∧ Found config s place a) ∨
    ∃ place, s.locate path = .vacant place ∧ Made config s place a t

/-- A store is to be made that no file is long enough for, and there is a file to lose or to leave
behind. -/
def Overlong (config : Config) (s : Storage) : Prop :=
  config.validate = .ok () ∧ ∃ path place l, config.regionPath = some path ∧
    (s.locate path = .file place ∨ s.locate path = .vacant place) ∧
    layoutFor config.store = .ok l ∧ Storage.maxFileLength < l.required ∧
    s.contents place ≠ some .empty

theorem toBytes_blank (l : Layout) :
    (blank l).toBytes = l.toBytes ++ Bytes.zeros (l.required - headerSize) := by
  have room : headerSize ≤ l.required := l.headerSize_le_slab.trans l.slab_le_required
  have fits : l.toBytes.size ≤ l.required := by
    rw [Layout.size_toBytes]
    exact room
  rw [blank, Bytes.toBytes_write_zeros fits, Layout.size_toBytes]

theorem alike_emptied_iff {place : String} :
    (s.setFile place (.zeros 0)).Alike s ↔ s.contents place = some .empty := by
  have nothing : (SparseBytes.zeros 0).toBytes = .empty := SparseBytes.toBytes_zeros 0
  refine ⟨fun same => ?_, fun bare => ⟨fun other => ?_, rfl⟩⟩
  · rw [← same.contents place, Storage.contents_setFile, if_pos rfl, nothing]
  · rw [Storage.contents_setFile, nothing]
    split
    · next here => rw [← here, bare]
    · rfl

theorem found_of_header {config : Config} {place : String} {bytes : SparseBytes} {handle : RegionHandle}
    (there : s.files[place]? = some bytes)
    (header : Layout.ofBytes (bytes.read 0 headerSize) = .ok l) (long : l.required ≤ bytes.size) :
    Found config s place (fresh handle l (adopt config.store l)) := by
  have room : headerSize ≤ l.required := l.headerSize_le_slab.trans l.slab_le_required
  refine ⟨⟨bytes.toBytes, by rw [Storage.contents, there]; rfl, ?_⟩, rfl⟩
  rw [SparseBytes.toBytes, SparseBytes.slice_read _ _ _ _ _ (by omega)]
  exact Layout.fields_of_ofBytes header

theorem not_protects_of_overlong {config : Config} (overlong : Overlong config s) :
    ¬ Protects config s := by
  obtain ⟨valid, path, place, l, named, leads, divided, long, filled⟩ := overlong
  intro protects
  have emptied : createStore config s = .error .io (s.setFile place (.zeros 0)) := by
    have entered : Storage.createFile path l.required s = .error .io (s.setFile place (.zeros 0)) := by
      rw [Storage.createFile]
      rcases leads with leads | leads <;> rw [leads] <;>
        exact if_neg (Nat.not_le.mpr long)
    rw [createStore, Work.bind_ok (Work.check_ok valid s),
      Work.bind_ok (Work.check_ok (requiredLength_ok divided) s), named]
    exact Work.bind_error entered
  exact filled (alike_emptied_iff.mp (protects.unmade _ _ emptied))

theorem locate_single (bytes : SparseBytes) :
    (Storage.setFile {} "a" bytes).locate "a" = .file "a" := by
  have names : "a".splitOn "/" = ["a"] := by
    rw [String.splitOn, if_neg (by decide), String.splitOnAux, if_neg (by decide +kernel),
      if_neg (by decide +kernel), String.splitOnAux, if_pos (by decide +kernel)]
    decide +kernel
  have below : "a".startsWith "/" = false := by decide +kernel
  have filled : (Storage.setFile {} "a" bytes).files.contains "a" = true := by simp [Storage.setFile]
  have place : "/".intercalate ([] ++ ["a"]) = "a" := by decide +kernel
  have name : (([] : List String).isEmpty && Storage.isName "a") = true := by decide +kernel
  rw [Storage.locate, if_neg (by decide +kernel), if_neg (by rw [below]; decide), names, Storage.follow,
    if_neg (by decide), if_neg (by decide), if_neg (by simp [Storage.setFile]), if_pos name, place,
    if_pos filled]

/-- Making and opening stores protect the files that are there, and leave none behind when they fail,
unless a file is asked to be longer than any file can be. -/
theorem protects_iff_not_overlong (config : Config) (s : Storage) :
    Protects config s ↔ ¬ Overlong config s := by
  refine ⟨fun protects overlong => not_protects_of_overlong overlong protects, fun sober => ?_⟩
  refine ⟨fun fault t refused => ?_, fun fault t refused => ?_, fun path a t named opened => ?_⟩
  · have created := createStore_cases config s
    rw [refused] at created
    cases created with
    | refused => exact .refl s
    | emptied valid named leads divided long =>
      -- What is emptied was empty, or the store would be overlong.
      by_contra changed
      exact sober ⟨valid, _, _, _, named, leads, divided, long, mt alike_emptied_iff.mpr changed⟩
  · have opens := openStore_cases config s
    rw [refused] at opens
    cases opens with
    | refused => exact .refl s
  · have opens := openStore_cases config s
    rw [opened] at opens
    cases opens with
    | unnamed unnamed =>
      rw [named] at unnamed
      cases unnamed
    | found named' leads there header long =>
      obtain rfl := Option.some.inj (named.symm.trans named')
      exact .inl ⟨_, leads, .refl s, found_of_header there header long⟩
    | made named' leads divided =>
      obtain rfl := Option.some.inj (named.symm.trans named')
      refine .inr ⟨_, leads, divided, rfl, fun other => ?_, rfl⟩
      rw [Storage.contents_setFile, toBytes_blank]
      rfl

/-- A file of one byte is lost to a store of more than 2^63 bytes. -/
theorem not_protects_giant :
    ¬ Protects { regionPath := some "a", store := { blockCapacity := 4294967295, maxBlocks := 2147483648 } }
      (Storage.setFile {} "a" (.zeros 1)) := by
  apply not_protects_of_overlong
  refine ⟨by decide, "a", "a", ⟨4294967295, 2147483648, by decide, by decide, by decide⟩, rfl,
    .inl (locate_single _), by decide +kernel, by decide +kernel, ?_⟩
  rw [Storage.contents_setFile, if_pos rfl, SparseBytes.toBytes_zeros]
  decide +kernel

end

end Attachment

end Reassembly
