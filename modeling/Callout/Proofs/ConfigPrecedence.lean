import Callout.Proofs.NearestSettings
import Callout.Proofs.RenderCommand

namespace Callout

theorem Attach.read?_eq_some_iff {text : String} {attach : Attach} :
    Attach.read? text = some attach ↔ attach.name = text := by
  constructor
  · intro h
    simpa using List.find?_some h
  · rintro rfl
    cases attach <;> decide

namespace Command

theorem charSet?_eq_some_iff {text : String} {set : CharSet} : charSet? text = some set ↔ set.name = text := by
  constructor
  · intro h
    simpa using List.find?_some h
  · rintro rfl
    cases set <;> decide

theorem optional_eq_some {α : Type} {read : String → Option α} {name : α → String}
    (hread : ∀ {text x}, read text = some x → name x = text) {text : Option String} {choice : Option α}
    (h : optional read text = some choice) : text = choice.map name := by
  cases text with
  | none =>
    cases h
    rfl
  | some text =>
    obtain ⟨x, hx, rfl⟩ := Option.map_eq_some_iff.mp h
    rw [Option.map_some, hread hx]

/-- The choices that switches make. Of several switches for one choice the last one counts. -/
structure Overrides.AreFlags (o : Overrides) (found : List RenderSwitch) : Prop where
  charSet : last? (fun | .charSet v => some v | _ => none) found = o.charSet.map CharSet.name
  attach : last? (fun | .attach v => some v | _ => none) found = o.attach.map Attach.name
  colors : last? (fun | .colors v => some v | _ => none) found = o.colors
  ellipsis : last? (fun | .ellipsis v => some v | _ => none) found = o.ellipsis
  underlines : last? (fun | .underlines v => some v | _ => none) found = o.underlines

theorem areFlags_of_renderRequest? {found : List RenderSwitch} {file : String} {request : RenderRequest}
    (h : renderRequest? found file = some request) :
    request.overrides.AreFlags found ∧ request.config = configPath found := by
  obtain ⟨labels, _, h⟩ := Option.bind_eq_some_iff.mp h
  obtain ⟨notes, _, h⟩ := Option.bind_eq_some_iff.mp h
  obtain ⟨severity, _, h⟩ := Option.bind_eq_some_iff.mp h
  obtain ⟨charSet, hcharSet, h⟩ := Option.bind_eq_some_iff.mp h
  obtain ⟨attach, hattach, h⟩ := Option.bind_eq_some_iff.mp h
  cases h
  exact ⟨⟨optional_eq_some charSet?_eq_some_iff.mp hcharSet,
    optional_eq_some Attach.read?_eq_some_iff.mp hattach, rfl, rfl, rfl⟩, rfl⟩

/-- A settings file: what messages call it, and its bytes. -/
structure SettingsFile where
  path : String
  bytes : List UInt8

/-- The settings file of a request: the one that it names, else the nearest one, else none. -/
inductive Selects (files : Files) (request : RenderRequest) : Option SettingsFile → Prop where
  | named {path : String} {bytes : List UInt8} (asked : request.config = some path)
    (found : files.read? path = some bytes) : Selects files request (some ⟨normalPath path, bytes⟩)
  | nearest {place : List String} {bytes : List UInt8} (unnamed : request.config = none)
    (looked : files.LooksUp request.file)
    (isNearest : files.tree.IsNearest Settings.fileName (files.directory request.file) place)
    (isFile : files.tree.at? place = some (.file bytes)) :
    Selects files request (some ⟨pathOf place, bytes⟩)
  | none (unnamed : request.config = none) (looked : files.LooksUp request.file)
    (lacks : ∀ owner, owner <+: files.directory request.file →
      files.tree.at? (owner ++ [Settings.fileName]) = none) : Selects files request none

/-- A request that names no settings file cannot have the nearest one: it could not even be looked for, or it
is a directory. -/
inductive Stops (files : Files) (request : RenderRequest) : SettingsFault → Prop where
  | overlong (unnamed : request.config = none) (overlong : ¬files.LooksUp request.file) :
    Stops files request .nameTooLong
  | directory {place : List String} {entries : List (String × FileTree)} (unnamed : request.config = none)
    (looked : files.LooksUp request.file)
    (isNearest : files.tree.IsNearest Settings.fileName (files.directory request.file) place)
    (isDirectory : files.tree.at? place = some (.directory entries)) : Stops files request .isDirectory

/-- The entries of the table `render` in the bytes of a file; there are none where the table is missing. -/
inductive HasTable (bytes : List UInt8) : Toml.Entries → Prop where
  | given {text : List Char} {document entries : Toml.Entries} {origin : Toml.Origin}
    (decoded : Utf8.decode bytes = .ok text) (read : Toml.read text = .ok document)
    (found : document.lookup "render" = some (.table origin entries)) : HasTable bytes entries
  | missing {text : List Char} {document : Toml.Entries} (decoded : Utf8.decode bytes = .ok text)
    (read : Toml.read text = .ok document) (lacks : document.lookup "render" = none) : HasTable bytes []

/-- Whether a value is the text of a place for messages. -/
def NamesAttach (value : Toml.Value) (attach : Attach) : Prop :=
  value = .text attach.name

/-- Whether a value is the text of a character set. -/
def NamesCharSet (value : Toml.Value) (set : CharSet) : Prop :=
  ∃ text, value = .text text ∧ CharSet.read text = .ok set

/-- The choices that the entries of a table make. -/
structure Overrides.AreEntries (o : Overrides) (entries : Toml.Entries) : Prop where
  charSet : Option.Rel NamesCharSet (entries.lookup "char_set") o.charSet
  attach : Option.Rel NamesAttach (entries.lookup "label_attach") o.attach
  colors : o.colors = (entries.lookup "colors").map Toml.Value.isOn
  ellipsis : o.ellipsis = (entries.lookup "ellipsis").map Toml.Value.isOn
  underlines : o.underlines = (entries.lookup "underlines").map Toml.Value.isOn

/-- The choices that a settings file makes, if there is one. -/
inductive Says : Option SettingsFile → Overrides → Prop where
  | nothing : Says none {}
  | entries {file : SettingsFile} {entries : Toml.Entries} {o : Overrides}
    (table : HasTable file.bytes entries) (choices : o.AreEntries entries) : Says (some file) o

/-- Why a value is no place for messages. It is shown unless it is too long or nests too deep. -/
def attachFault (path : String) (value : Toml.Value) : SettingsFault :=
  match value.obstacle? (Nat.pow 10 Text.maxDigits) Toml.maxNesting with
  | none => .invalidAttach path value
  | some .tooManyDigits => .attachTooLong
  | some .nestedTooDeep => .attachTooDeep

/-- A settings file is refused, by the first of its faults. -/
inductive Refuses : Option SettingsFile → SettingsFault → Prop where
  | encoding {file : SettingsFile} {fault : Utf8.Fault} (failed : Utf8.decode file.bytes = .error fault) :
    Refuses (some file) (.notText fault)
  | document {file : SettingsFile} {text : List Char} {fault : Toml.Fault}
    (decoded : Utf8.decode file.bytes = .ok text) (failed : Toml.read text = .error fault) :
    Refuses (some file) (.notDocument fault)
  | table {file : SettingsFile} {text : List Char} {document : Toml.Entries} {value : Toml.Value}
    (decoded : Utf8.decode file.bytes = .ok text) (read : Toml.read text = .ok document)
    (found : document.lookup "render" = some value)
    (invalid : ∀ origin entries, value ≠ .table origin entries) : Refuses (some file) .notTable
  | attach {file : SettingsFile} {entries : Toml.Entries} {value : Toml.Value}
    (table : HasTable file.bytes entries) (found : entries.lookup "label_attach" = some value)
    (invalid : ∀ attach, ¬NamesAttach value attach) : Refuses (some file) (attachFault file.path value)
  | charSetName {file : SettingsFile} {entries : Toml.Entries} {attach : Option Attach} {name : String}
    (table : HasTable file.bytes entries)
    (valid : Option.Rel NamesAttach (entries.lookup "label_attach") attach)
    (found : entries.lookup "char_set" = some (.text name))
    (invalid : ∀ set, CharSet.read name ≠ .ok set) : Refuses (some file) (.unknownCharSet file.path name)
  | charSetKind {file : SettingsFile} {entries : Toml.Entries} {attach : Option Attach} {value : Toml.Value}
    (table : HasTable file.bytes entries)
    (valid : Option.Rel NamesAttach (entries.lookup "label_attach") attach)
    (found : entries.lookup "char_set" = some value) (invalid : ∀ name, value ≠ .text name) :
    Refuses (some file) .charSetNotText

/-- The settings in the file of a request, if it has one. -/
def SettingsFile.load : Option SettingsFile → Except SettingsFault Settings
  | none => .ok {}
  | some file => Settings.ofBytes file.path file.bytes

section Load

variable {path : String} {value : Toml.Value} {entries : Toml.Entries} {bytes : List UInt8}
  {selected : Option SettingsFile}

theorem readAttach_of_names {attach : Attach} (h : NamesAttach value attach) (path : String) :
    Settings.readAttach path value = .ok attach := by
  rw [h, Settings.readAttach]
  simp only [Attach.read?_eq_some_iff.mpr rfl]

theorem readAttach_of_invalid (h : ∀ attach, ¬NamesAttach value attach) :
    Settings.readAttach path value = .error (attachFault path value) := by
  unfold Settings.readAttach attachFault
  generalize value.obstacle? _ _ = obstacle
  dsimp only
  split
  next name =>
    split
    next attach hread => exact absurd (congrArg _ (Attach.read?_eq_some_iff.mp hread).symm) (h attach)
    next => rcases obstacle with _ | _ | _ <;> rfl
  next => rcases obstacle with _ | _ | _ <;> rfl

theorem readCharSet_of_names {set : CharSet} (h : NamesCharSet value set) (path : String) :
    Settings.readCharSet path value = .ok set := by
  obtain ⟨text, rfl, hread⟩ := h
  rw [Settings.readCharSet, hread]
  rfl

theorem readCharSet_of_unknown {name : String} (h : ∀ set, CharSet.read name ≠ .ok set) :
    Settings.readCharSet path (.text name) = .error (.unknownCharSet path name) := by
  cases hread : CharSet.read name with
  | error e => simp only [Settings.readCharSet, hread, Except.mapError]
  | ok set => exact absurd hread (h set)

theorem readCharSet_of_kind (h : ∀ name, value ≠ .text name) :
    Settings.readCharSet path value = .error .charSetNotText := by
  unfold Settings.readCharSet
  split
  next name => exact absurd rfl (h name)
  next => rfl

/-- What an entry is read as, or the default where there is no entry. -/
def readEntry {α : Type} (read : Toml.Value → Except SettingsFault α) (default : α) (entry : Option Toml.Value) :
    Except SettingsFault α :=
  (entry.map read).getD (.ok default)

theorem readEntry_of_rel {α : Type} {valid : Toml.Value → α → Prop} {read : Toml.Value → Except SettingsFault α}
    {entry : Option Toml.Value} {choice : Option α} (h : Option.Rel valid entry choice)
    (hread : ∀ value x, valid value x → read value = .ok x) (default : α) :
    readEntry read default entry = .ok (choice.getD default) := by
  cases h with
  | none => rfl
  | some hvalid => exact hread _ _ hvalid

theorem exists_rel_or {α : Type} (valid : Toml.Value → α → Prop) (entry : Option Toml.Value) :
    (∃ choice, Option.Rel valid entry choice) ∨ ∃ value, entry = some value ∧ ∀ x, ¬valid value x := by
  cases entry with
  | none => exact .inl ⟨none, .none⟩
  | some value =>
    by_cases h : ∃ x, valid value x
    · obtain ⟨x, hx⟩ := h
      exact .inl ⟨some x, .some hx⟩
    · exact .inr ⟨value, rfl, not_exists.mp h⟩

/-- The settings in the entries of a table `render`. -/
def ofTable (path : String) (entries : Toml.Entries) : Except SettingsFault Settings := do
  let attach ← readEntry (Settings.readAttach path) .center (entries.lookup "label_attach")
  let charSet ← readEntry (Settings.readCharSet path) .rounded (entries.lookup "char_set")
  return {
    attach, charSet
    colors := (entries.lookup "colors").getD (.boolean true)
    underlines := (entries.lookup "underlines").getD (.boolean true)
    ellipsis := (entries.lookup "ellipsis").getD (.boolean true)
    tabWidth := (entries.lookup "tab_width").getD (.integer 4) }

theorem ofBytes_of_hasTable (h : HasTable bytes entries) (path : String) :
    Settings.ofBytes path bytes = ofTable path entries := by
  cases h with
  | given decoded read found =>
    simp only [Settings.ofBytes, decoded, read, Except.mapError, bind, Except.bind]
    rw [Settings.ofEntries, found]
    rfl
  | missing decoded read lacks =>
    simp only [Settings.ofBytes, decoded, read, Except.mapError, bind, Except.bind]
    rw [Settings.ofEntries, lacks]
    rfl

theorem isOn_getD (entry : Option Toml.Value) :
    (entry.getD (.boolean true)).isOn = (entry.map Toml.Value.isOn).getD true := by
  cases entry <;> rfl

theorem load_of_says {o : Overrides} (h : Says selected o) :
    ∃ settings, SettingsFile.load selected = .ok settings ∧ settings.config = o.apply {} := by
  cases h with
  | nothing => exact ⟨{}, rfl, rfl⟩
  | @entries file entries o table choices =>
    have hload : SettingsFile.load (some file) = ofTable file.path entries := ofBytes_of_hasTable table _
    have hattach := readEntry_of_rel choices.attach (fun _ _ h => readAttach_of_names h file.path) .center
    have hcharSet := readEntry_of_rel choices.charSet (fun _ _ h => readCharSet_of_names h file.path) .rounded
    rw [hload, ofTable, hattach, hcharSet]
    refine ⟨_, rfl, ?_⟩
    simp only [Settings.config, Overrides.apply, isOn_getD, choices.colors, choices.ellipsis,
      choices.underlines]

theorem load_of_refuses {fault : SettingsFault} (h : Refuses selected fault) :
    SettingsFile.load selected = .error fault := by
  cases h with
  | encoding failed =>
    simp only [SettingsFile.load, Settings.ofBytes, failed, Except.mapError, bind, Except.bind]
  | document decoded failed =>
    simp only [SettingsFile.load, Settings.ofBytes, decoded, failed, Except.mapError, bind, Except.bind]
  | table decoded read found invalid =>
    simp only [SettingsFile.load, Settings.ofBytes, decoded, read, Except.mapError, bind, Except.bind]
    rw [Settings.ofEntries, found, Option.getD_some]
    dsimp only
    split
    next origin entries => exact absurd rfl (invalid origin entries)
    next => rfl
  | attach table found invalid =>
    rw [SettingsFile.load, ofBytes_of_hasTable table, ofTable, readEntry, found, Option.map_some,
      Option.getD_some, readAttach_of_invalid invalid]
    rfl
  | @charSetName file entries attach name table valid found invalid =>
    rw [SettingsFile.load, ofBytes_of_hasTable table, ofTable,
      readEntry_of_rel valid fun _ _ h => readAttach_of_names h file.path, found]
    change readEntry (Settings.readCharSet file.path) .rounded (some (.text name)) >>= _ = _
    rw [readEntry, Option.map_some, Option.getD_some, readCharSet_of_unknown invalid]
    rfl
  | @charSetKind file entries attach value table valid found invalid =>
    rw [SettingsFile.load, ofBytes_of_hasTable table, ofTable,
      readEntry_of_rel valid fun _ _ h => readAttach_of_names h file.path, found]
    change readEntry (Settings.readCharSet file.path) .rounded (some value) >>= _ = _
    rw [readEntry, Option.map_some, Option.getD_some, readCharSet_of_kind invalid]
    rfl

theorem says_or_refuses_of_table {file : SettingsFile} (table : HasTable file.bytes entries) :
    (∃ o, Says (some file) o) ∨ ∃ fault, Refuses (some file) fault := by
  rcases exists_rel_or NamesAttach (entries.lookup "label_attach") with ⟨attach, hattach⟩ | ⟨value, found, invalid⟩
  · rcases exists_rel_or NamesCharSet (entries.lookup "char_set") with ⟨charSet, hcharSet⟩ | ⟨value, found, invalid⟩
    · exact .inl ⟨{
        charSet, attach
        colors := (entries.lookup "colors").map Toml.Value.isOn
        ellipsis := (entries.lookup "ellipsis").map Toml.Value.isOn
        underlines := (entries.lookup "underlines").map Toml.Value.isOn },
        .entries table ⟨hcharSet, hattach, rfl, rfl, rfl⟩⟩
    · by_cases htext : ∃ name, value = .text name
      · obtain ⟨name, rfl⟩ := htext
        exact .inr ⟨_, .charSetName table hattach found fun set hset => invalid set ⟨name, rfl, hset⟩⟩
      · exact .inr ⟨_, .charSetKind table hattach found (not_exists.mp htext)⟩
  · exact .inr ⟨_, .attach table found invalid⟩

/-- A settings file makes choices or is refused. -/
theorem says_or_refuses (selected : Option SettingsFile) :
    (∃ o, Says selected o) ∨ ∃ fault, Refuses selected fault := by
  cases selected with
  | none => exact .inl ⟨_, .nothing⟩
  | some file =>
    cases decoded : Utf8.decode file.bytes with
    | error fault => exact .inr ⟨_, .encoding decoded⟩
    | ok text =>
      cases read : Toml.read text with
      | error fault => exact .inr ⟨_, .document decoded read⟩
      | ok document =>
        cases found : document.lookup "render" with
        | none => exact says_or_refuses_of_table (.missing decoded read found)
        | some value =>
          by_cases htable : ∃ origin entries, value = .table origin entries
          · obtain ⟨origin, entries, rfl⟩ := htable
            exact says_or_refuses_of_table (.given decoded read found)
          · exact .inr ⟨_, .table decoded read found fun origin entries heq => htable ⟨origin, entries, heq⟩⟩

end Load

/-- A configuration in layers: each of its parts is what a switch says, else what an entry says, else the
default. -/
structure IsLayered (c : Config) (flags entries : Overrides) : Prop where
  charSet : c.charSet = (flags.charSet.or entries.charSet).getD .rounded
  attach : c.attach = (flags.attach.or entries.attach).getD .center
  colors : c.colors = (flags.colors.or entries.colors).getD true
  ellipsis : c.ellipsis = (flags.ellipsis.or entries.ellipsis).getD true
  underlines : c.underlines = (flags.underlines.or entries.underlines).getD true

theorem isLayered_iff {c : Config} {flags entries : Overrides} :
    IsLayered c flags entries ↔ c = flags.apply (entries.apply {}) := by
  constructor
  · obtain ⟨colors, underlines, ellipsis, attach, charSet⟩ := c
    rintro ⟨rfl, rfl, rfl, rfl, rfl⟩
    simp only [Overrides.apply, Option.getD_or]
  · rintro rfl
    constructor <;> simp only [Overrides.apply, Option.getD_or]

section Select

variable {files : Files} {request : RenderRequest} {selected : Option SettingsFile}

theorem settingsOf_of_selects (h : Selects files request selected) :
    settingsOf files request = SettingsFile.load selected := by
  cases h with
  | named asked found =>
    rw [settingsOf, asked]
    simp only [found]
    rfl
  | nearest unnamed looked isNearest isFile =>
    rw [settingsOf, unnamed]
    simp only [(Settings.find_eq_ok_iff looked).mpr isNearest, Settings.load, isFile]
    rfl
  | none unnamed looked lacks =>
    rw [settingsOf, unnamed]
    simp only [(Settings.find_eq_notFound_iff looked).mpr lacks]
    rfl

theorem selects_or_stops
    (hconfig : ∀ path, request.config = some path → ∃ bytes, files.read? path = some bytes) :
    (∃ selected, Selects files request selected) ∨ ∃ fault, Stops files request fault := by
  cases hnamed : request.config with
  | some path =>
    obtain ⟨bytes, found⟩ := hconfig path hnamed
    exact .inl ⟨_, .named hnamed found⟩
  | none =>
    by_cases looked : files.LooksUp request.file
    · cases hfind : Settings.find files request.file with
      | ok place =>
        have isNearest := (Settings.find_eq_ok_iff looked).mp hfind
        have hentry : (files.tree.at? place).isSome = true := by
          obtain ⟨_, has, _⟩ := isNearest
          exact has
        cases hat : files.tree.at? place with
        | none =>
          rw [hat] at hentry
          cases hentry
        | some entry =>
          cases entry with
          | file bytes => exact .inl ⟨_, .nearest hnamed looked isNearest hat⟩
          | directory entries => exact .inr ⟨_, .directory hnamed looked isNearest hat⟩
      | error fault =>
        rw [Settings.find_of_looksUp looked] at hfind
        split at hfind
        next => cases hfind
        next hnone =>
          refine .inl ⟨_, .none hnamed looked ?_⟩
          rw [← List.reverse_reverse (files.directory request.file)]
          exact FileTree.nearestUpward_eq_none_iff.mp hnone
    · exact .inr ⟨_, .overlong hnamed looked⟩

theorem settingsOf_of_stops (hnul : '\x00' ∉ request.file.toList) {fault : SettingsFault}
    (h : Stops files request fault) : settingsOf files request = .error fault := by
  cases h with
  | overlong unnamed overlong =>
    rw [settingsOf, unnamed]
    simp only [Settings.find_of_not_looksUp overlong, if_neg hnul]
  | directory unnamed looked isNearest isDirectory =>
    rw [settingsOf, unnamed]
    simp only [(Settings.find_eq_ok_iff looked).mpr isNearest, Settings.load, isDirectory]

end Select

/-- How the command ends when its settings cannot be had. -/
def endingOf (wording : String) (fault : SettingsFault) : Outcome :=
  if fault.isReported then .finished 1 "" (errorLine (fault.message wording)) else .stopped fault ""

section Invoke

variable {files : Files} {found : List RenderSwitch} {operands : List String} {request : RenderRequest}
  {bytes : List UInt8}

theorem exists_config_of_prepareRender (h : prepareRender files found operands = .ok (request, bytes))
    {path : String} (hconfig : configPath found = some path) : ∃ bytes, files.read? path = some bytes := by
  obtain ⟨_, hchecked, _⟩ := bind_eq_ok_iff.mp h
  have htopic : RenderTopic.config ∈ (found.map RenderSwitch.topic).eraseDups := by
    rw [List.mem_eraseDups]
    have hlast := List.mem_of_getLast? hconfig
    obtain ⟨switch, hswitch, hpick⟩ := List.mem_filterMap.mp hlast
    refine List.mem_map.mpr ⟨switch, hswitch, ?_⟩
    cases switch <;> cases hpick
    rfl
  have hcheck := forM_mem_ok hchecked htopic
  simp only [checkTopic, hconfig] at hcheck
  cases hfile : requireFile files path with
  | error refusal =>
    rw [hfile] at hcheck
    cases hcheck
  | ok bytes => exact ⟨bytes, (requireFile_eq_ok_iff.mp hfile).2⟩

end Invoke

/-- The settings file that is looked up from a start path is that of the nearest directory, from the directory
of the path to the root; it is missing just where none of these has one. Each part of the configuration of a
report is what the last of its switches says, else what the settings file says, which is the one that a switch
names or else the nearest, else the default. A settings file with a fault is refused, whatever the switches
say, and what other settings files hold makes no difference. -/
theorem config_precedence (files : Files) (wording : String) :
    (∀ start, files.LooksUp start →
      (∀ place, Settings.find files start = .ok place ↔
        files.tree.IsNearest Settings.fileName (files.directory start) place) ∧
      (Settings.find files start = .error .notFound ↔ ∀ owner, owner <+: files.directory start →
        files.tree.at? (owner ++ [Settings.fileName]) = none)) ∧
    (∀ start, ¬files.LooksUp start →
      Settings.find files start = .error (if '\x00' ∈ start.toList then .nulInPath else .nameTooLong)) ∧
    (∀ start place, files.tree.follow (files.start start) (pathNames start) = some place →
      files.place start = place) ∧
    ∀ words verbosity found operands request bytes,
      invocation? words = some (verbosity, .render found operands) →
      prepareRender files found operands = .ok (request, bytes) →
      request.overrides.AreFlags found ∧ request.config = configPath found ∧
      ((∃ selected, Selects files request selected) ∨ ∃ fault, Stops files request fault) ∧
      (∀ fault, Stops files request fault → run files words wording = .stopped fault "") ∧
      ∀ selected, Selects files request selected →
        ((∃ entries, Says selected entries) ∨ ∃ fault, Refuses selected fault) ∧
        (∀ fault, Refuses selected fault → run files words wording = endingOf wording fault) ∧
        (∀ entries, Says selected entries → ∃ settings, settingsOf files request = .ok settings ∧
          IsLayered (request.overrides.apply settings.config) request.overrides entries ∧
          run files words wording =
            renderBytes verbosity request (request.overrides.apply settings.config) bytes) ∧
        ∀ others : Files, Selects others request selected →
          prepareRender others found operands = .ok (request, bytes) →
          run others words wording = run files words wording := by
  refine ⟨fun start looked => ⟨fun place => Settings.find_eq_ok_iff looked, Settings.find_eq_notFound_iff looked⟩,
    fun start => Settings.find_of_not_looksUp, fun start place => FileTree.resolve_of_follow,
    fun words verbosity found operands request bytes hwords hrequest => ?_⟩
  obtain ⟨_, hfile, hasked⟩ := prepareRender_eq_ok hrequest
  obtain ⟨hflags, hconfig⟩ := areFlags_of_renderRequest? hasked
  have hrun : run files words wording = _ := run_eq_runRender hwords hrequest
  have hnamed : ∀ path, request.config = some path → ∃ bytes, files.read? path = some bytes :=
    fun path hpath => exists_config_of_prepareRender hrequest (hconfig.symm.trans hpath)
  refine ⟨hflags, hconfig, selects_or_stops hnamed, fun fault hstops => ?_, fun selected hselected => ?_⟩
  · rw [hrun, runRender, settingsOf_of_stops (requireFile_eq_ok_iff.mp hfile).1 hstops]
    cases hstops <;> rfl
  · have hsettings := settingsOf_of_selects hselected
    refine ⟨says_or_refuses selected, fun fault hrefuses => ?_, fun entries hsays => ?_,
      fun others hothers hsame => ?_⟩
    · rw [hrun, runRender, hsettings, load_of_refuses hrefuses]
      rfl
    · obtain ⟨settings, hload, hlayer⟩ := load_of_says hsays
      refine ⟨settings, hsettings.trans hload, ?_, ?_⟩
      · rw [isLayered_iff, hlayer]
      · rw [hrun, runRender, hsettings, hload]
    · rw [hrun, run_eq_runRender hwords hsame, runRender, runRender, hsettings, settingsOf_of_selects hothers]

def innerSettings : List Char :=
  "[render]\nchar_set = \"ascii\"\ncolors = false\n".toList

/-- Settings of two directories, one in the other. Those of the outer one are no text. -/
def projectFiles : Files where
  tree := .directory [("reportz.toml", .file [255]), ("inner", .directory [
    ("reportz.toml", .file (Utf8.encode innerSettings)),
    ("a.txt", .file [97, 98])])]
  here := ["inner"]

def projectWords : List String :=
  ["render", "a.txt", "--char-set", "square", "--no-ellipsis"]

def projectRequest : RenderRequest where
  file := "a.txt"
  labels := []
  severity := .error
  code := none
  message := ""
  notes := []
  overrides := { charSet := some .square, ellipsis := some false }
  config := none

theorem project_config :
    run projectFiles projectWords = renderBytes 0 projectRequest
      { charSet := .square, colors := false, ellipsis := false } [97, 98] := by
  have hwords : invocation? projectWords =
    some (0, .render [.charSet "square", .ellipsis false] ["a.txt"]) := rfl
  have hrequest : prepareRender projectFiles [.charSet "square", .ellipsis false] ["a.txt"] =
    .ok (projectRequest, [97, 98]) := rfl
  have hlooked : projectFiles.LooksUp "a.txt" := ⟨by decide, rfl, by decide, by decide⟩
  have hnearest : projectFiles.tree.IsNearest Settings.fileName (projectFiles.directory "a.txt")
      (["inner"] ++ [Settings.fileName]) :=
    .intro (List.prefix_refl _) rfl fun other hother hlt => absurd hother.length_le (Nat.not_le.mpr hlt)
  have hread : Toml.read innerSettings = .ok [("render", .table .declared
      [("char_set", .text "ascii"), ("colors", .boolean false)])] := by
    with_unfolding_all rfl
  have hsays : Says (some ⟨"/inner/reportz.toml", Utf8.encode innerSettings⟩)
      { charSet := some .ascii, colors := some false } :=
    .entries (.given (Utf8.decode_encode _) hread rfl) ⟨.some ⟨"ascii", rfl, rfl⟩, .none, rfl, rfl, rfl⟩
  obtain ⟨-, -, -, hrender⟩ := config_precedence projectFiles ""
  obtain ⟨-, -, -, -, hselected⟩ := hrender _ _ _ _ _ _ hwords hrequest
  obtain ⟨-, -, hlayers, -⟩ := hselected _ (.nearest rfl hlooked hnearest rfl)
  obtain ⟨settings, -, hlayered, hrun⟩ := hlayers _ hsays
  rw [isLayered_iff.mp hlayered] at hrun
  exact hrun

end Command

/-- Directories one in the other, around a tree. -/
def nested : List String → FileTree → FileTree
  | [], inside => inside
  | name :: rest, inside => .directory [(name, nested rest inside)]

theorem at?_nested (names : List String) (inside : FileTree) (rest : List String) :
    (nested names inside).at? (names ++ rest) = inside.at? rest := by
  induction names with
  | nil => rfl
  | cons name names ih =>
    rw [nested, List.cons_append, FileTree.at?, List.lookup_cons_self]
    exact ih

theorem utf8ByteSize_replicate (n : Nat) (c : Char) :
    (String.ofList (List.replicate n c)).utf8ByteSize = n * c.utf8Size := by
  induction n with
  | zero =>
    rw [Nat.zero_mul]
    rfl
  | succ n ih =>
    rw [List.replicate_succ, String.ofList_cons, String.utf8ByteSize_append, String.utf8ByteSize_singleton, ih,
      Nat.succ_mul, Nat.add_comm]

def longName : String :=
  String.ofList (List.replicate 193 'd')

def longNames : List String :=
  longName :: List.replicate 20 longName

/-- An empty file in many directories with long names, and a settings file beside the first of these. The path
of the file is short enough to be looked up, and that of a settings file beside it is not. -/
def deepFiles : Files where
  tree := nested ["tmp", "reports0000"] (.directory
    [(Settings.fileName, .file []), (longName, nested (List.replicate 20 longName ++ ["f"]) (.file []))])
  here := ["tmp", "reports0000"]

def deepStart : String :=
  "/".intercalate (longNames ++ ["f"])

theorem longName_toList : longName.toList = List.replicate 193 'd' :=
  String.toList_ofList ..

theorem longName_ne {text : String} (h : text.length < 193) : longName ≠ text := by
  rintro rfl
  rw [← String.length_toList, longName_toList, List.length_replicate] at h
  exact absurd h (Nat.lt_irrefl _)

theorem deepStart_relative : isAbsolute deepStart = false := by
  have hsplit : deepStart = longName ++ "/" ++ "/".intercalate (List.replicate 20 longName ++ ["f"]) :=
    String.intercalate_cons_of_ne_nil (by decide)
  rw [isAbsolute, hsplit, String.toList_append, String.toList_append, longName_toList]
  rfl

theorem place_deepStart : deepFiles.place deepStart = ["tmp", "reports0000"] ++ (longNames ++ ["f"]) := by
  have hslash : '/' ∉ longName.toList := by
    rw [longName_toList]
    exact fun h => absurd (List.eq_of_mem_replicate h) (by decide)
  have hnames : ∀ name ∈ longNames ++ ["f"], '/' ∉ name.toList ∧ name ≠ "" ∧ name ≠ "." ∧ name ≠ ".." := by
    intro name hname
    rcases List.mem_append.mp hname with h | h
    · rw [List.eq_of_mem_replicate (n := 21) h]
      exact ⟨hslash, longName_ne (by decide), longName_ne (by decide), longName_ne (by decide)⟩
    · rw [List.mem_singleton.mp h]
      decide
  rw [Files.place, Files.start, deepStart_relative, deepStart,
    pathNames_intercalate (List.append_ne_nil_of_right_ne_nil _ (by decide)) fun name h => (hnames name h).1,
    FileTree.resolve_eq_append fun name h => (hnames name h).2]
  rfl

theorem deepStart_file : deepFiles.tree.at? (deepFiles.place deepStart) = some (.file []) := by
  have hend := at?_nested (List.replicate 20 longName ++ ["f"]) (.file []) []
  rw [List.append_nil] at hend
  rw [place_deepStart, deepFiles, at?_nested, longNames, List.cons_append, FileTree.at?, List.lookup_cons,
    beq_false_of_ne (longName_ne (by decide)), List.lookup_cons_self, Option.bind_some, hend]
  rfl

theorem directory_deepStart : deepFiles.directory deepStart = ["tmp", "reports0000"] ++ longNames := by
  rw [Files.directory, FileTree.directoryOf, deepStart_file, place_deepStart, ← List.append_assoc]
  exact List.dropLast_concat

/-- No settings file is found from a file with a path near the longest that there is, although there is one in
a directory above it. -/
theorem deepStart_overlong :
    deepFiles.tree.at? (deepFiles.place deepStart) = some (.file []) ∧
    deepFiles.here <+: deepFiles.directory deepStart ∧
    deepFiles.tree.at? (deepFiles.here ++ [Settings.fileName]) = some (.file []) ∧
    ∀ place, Settings.find deepFiles deepStart ≠ .ok place := by
  have hname : longName.utf8ByteSize = 193 := utf8ByteSize_replicate 193 'd'
  have hlong : maxPathBytes ≤ (pathOf (deepFiles.directory deepStart ++ [Settings.fileName])).utf8ByteSize := by
    rw [directory_deepStart, utf8ByteSize_pathOf (List.append_ne_nil_of_right_ne_nil _ (by decide)), longNames]
    simp only [List.map_append, List.map_cons, List.map_replicate, List.map_nil, hname, List.sum_append_nat,
      List.sum_cons, List.sum_replicate_nat]
    decide
  have hnot : ¬deepFiles.LooksUp deepStart := fun h => absurd h.settings_fit (Nat.not_lt.mpr hlong)
  refine ⟨deepStart_file, ?_, rfl, ?_⟩
  · rw [directory_deepStart]
    exact List.prefix_append _ _
  · intro place
    rw [Settings.find_of_not_looksUp hnot]
    exact nofun

end Callout
