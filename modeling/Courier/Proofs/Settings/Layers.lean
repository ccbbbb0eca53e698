import Courier.Proofs.Text.Natural
import Courier.Settings.Load

/-!
# The layers of the settings

`Given` is what one file says about the settings, each of them by itself, and `Given.ofText?` reads it
off a document without any defaults. `ofText?_eq` says that reading a file is laying this over the
defaults. `load_by_layers` says what is loaded: from which file, when the file is refused, and otherwise
which layer each setting comes from.
-/

namespace Courier

/-- What a layer says about each setting. -/
structure Settings.Given where
  maxQueueSize : Option Nat := none
  closeGraceSecs : Option Nat := none
  flushTimeoutMs : Option Nat := none
  dir : Option String := none
  maxItems : Option Nat := none
  deriving DecidableEq

/-! ## Documents -/

namespace Toml

/-- The field of a record, if it is given; it must be readable then. -/
def given? {α : Type} (read? : Toml → Option α) (members : Members) (name : String) :
    Option (Option α) :=
  match members.lookup name with
  | none => some none
  | some value => (read? value).map some

/-- The fields of the record under a name, none if it is not given. -/
def fields? (members : Members) (name : String) (names : List String) : Option Members :=
  match members.lookup name with
  | none => some []
  | some value => value.record? names

theorem field?_eq {α : Type} (read? : Toml → Option α) (members : Members) (name : String)
    (otherwise : α) :
    field? read? members name otherwise =
      (given? read? members name).map fun value => value.getD otherwise := by
  unfold field? given?
  cases members.lookup name with
  | none => rfl
  | some value =>
    show read? value = ((read? value).map some).map fun value => value.getD otherwise
    cases read? value <;> rfl

end Toml

namespace Settings

/-- What a document says about the settings. -/
def Given.ofText? (text : String) : Option Given := do
  let members ← Toml.parse? text.toList
  let transport ← Toml.fields? members "transport"
    ["max_queue_size", "close_grace_secs", "flush_timeout_ms"]
  let maxQueueSize ← Toml.given? Toml.nat? transport "max_queue_size"
  let closeGraceSecs ← Toml.given? Toml.nat? transport "close_grace_secs"
  let flushTimeoutMs ← Toml.given? Toml.nat? transport "flush_timeout_ms"
  let cache ← Toml.fields? members "cache" ["dir", "max_items"]
  let dir ← Toml.given? Toml.string? cache "dir"
  let maxItems ← Toml.given? Toml.nat? cache "max_items"
  pure ⟨maxQueueSize, closeGraceSecs, flushTimeoutMs, dir, maxItems⟩

/-- The settings with what a layer says in place of them. -/
def Given.over (g : Given) (s : Settings) : Settings where
  transport := {
    maxQueueSize := g.maxQueueSize.getD s.transport.maxQueueSize
    closeGraceSecs := g.closeGraceSecs.getD s.transport.closeGraceSecs
    flushTimeoutMs := g.flushTimeoutMs.getD s.transport.flushTimeoutMs }
  cache := {
    dir := g.dir.getD s.cache.dir
    maxItems := g.maxItems.getD s.cache.maxItems }

theorem field?_transport (base : TransportSettings) (members : Toml.Members) :
    Toml.field? (TransportSettings.ofToml? base) members "transport" base = (do
      let fields ← Toml.fields? members "transport"
        ["max_queue_size", "close_grace_secs", "flush_timeout_ms"]
      let size ← Toml.given? Toml.nat? fields "max_queue_size"
      let grace ← Toml.given? Toml.nat? fields "close_grace_secs"
      let timeout ← Toml.given? Toml.nat? fields "flush_timeout_ms"
      pure ⟨size.getD base.maxQueueSize, grace.getD base.closeGraceSecs,
        timeout.getD base.flushTimeoutMs⟩) := by
  unfold Toml.field? Toml.fields?
  cases members.lookup "transport" with
  | none => rfl
  | some value =>
    simp only [TransportSettings.ofToml?, Toml.field?_eq]
    cases value.record? ["max_queue_size", "close_grace_secs", "flush_timeout_ms"] with
    | none => rfl
    | some fields => simp [Option.bind_map]

theorem field?_cache (base : CacheSettings) (members : Toml.Members) :
    Toml.field? (CacheSettings.ofToml? base) members "cache" base = (do
      let fields ← Toml.fields? members "cache" ["dir", "max_items"]
      let dir ← Toml.given? Toml.string? fields "dir"
      let items ← Toml.given? Toml.nat? fields "max_items"
      pure ⟨dir.getD base.dir, items.getD base.maxItems⟩) := by
  unfold Toml.field? Toml.fields?
  cases members.lookup "cache" with
  | none => rfl
  | some value =>
    simp only [CacheSettings.ofToml?, Toml.field?_eq]
    cases value.record? ["dir", "max_items"] with
    | none => rfl
    | some fields => simp [Option.bind_map]

/-- A document is read by laying what it says over what holds otherwise. -/
theorem ofText?_eq (base : Settings) (text : String) :
    base.ofText? text = (Given.ofText? text).map fun given => given.over base := by
  unfold ofText? Given.ofText?
  cases Toml.parse? text.toList with
  | none => rfl
  | some members =>
    simp [field?_transport, field?_cache, Given.over, Option.bind_assoc, Option.map_bind]

/-! ## Layers -/

variable {env : Environment} {fs : FileSystem} {file : Given} {s : Settings}

/-- What the file of the settings says: nothing where there is no file, and else what is read there. -/
inductive Given.ByFile (env : Environment) (fs : FileSystem) : Given → Prop
  | missing (hmissing : fs.contains env.settingsFile = false) : ByFile env fs {}
  | read {text : String} {given : Given} (hthere : fs.contains env.settingsFile = true)
      (hread : fs.readText env.settingsFile = .ok text)
      (hgiven : Given.ofText? text = some given) : ByFile env fs given

/-- Which number is in force: the word that the environment states under a name, and if it states none
there, what the file gives, or else what holds otherwise. -/
inductive WordInForce (env : Environment) (name : String) (file : Option Nat) (otherwise : Nat) :
    Nat → Prop
  | stated {text : String} {n : Nat} (hset : env name = some text)
      (hstates : Text.StatesWord text.toList n) : WordInForce env name file otherwise n
  | passedOver (hnone : ∀ text n, env name = some text → ¬ Text.StatesWord text.toList n) :
      WordInForce env name file otherwise (file.getD otherwise)

/-- Which settings are in force: each of them by itself, from the environment, the file, or the defaults
that hold in this environment. -/
structure InForce (env : Environment) (file : Given) (s : Settings) : Prop where
  maxQueueSize : WordInForce env "SLUICE_TRANSPORT__MAX_QUEUE_SIZE" file.maxQueueSize
    (Settings.default env).transport.maxQueueSize s.transport.maxQueueSize
  closeGraceSecs : WordInForce env "SLUICE_TRANSPORT__CLOSE_GRACE_SECS" file.closeGraceSecs
    (Settings.default env).transport.closeGraceSecs s.transport.closeGraceSecs
  flushTimeoutMs : WordInForce env "SLUICE_TRANSPORT__FLUSH_TIMEOUT_MS" file.flushTimeoutMs
    (Settings.default env).transport.flushTimeoutMs s.transport.flushTimeoutMs
  dir : s.cache.dir =
    (env "SLUICE_CACHE__DIR").getD (file.dir.getD (Settings.default env).cache.dir)
  maxItems : WordInForce env "SLUICE_CACHE__MAX_ITEMS" file.maxItems
    (Settings.default env).cache.maxItems s.cache.maxItems

/-- There is one number in force, and it is the overridden one. -/
theorem wordInForce_iff {name : String} {given : Option Nat} {otherwise n : Nat} :
    WordInForce env name given otherwise n ↔ n = overrideWord env name (given.getD otherwise) := by
  unfold overrideWord
  constructor
  · rintro (⟨hset, hstates⟩ | hnone)
    · rw [hset, Option.bind_some, Text.word?_eq_some_iff.2 hstates]
      rfl
    · have hword : ((env name).bind fun s => Text.word? s.toList) = none := by
        refine Option.eq_none_iff_forall_not_mem.2 fun n hn => ?_
        obtain ⟨text, hset, hword⟩ := Option.bind_eq_some_iff.1 hn
        exact hnone text n hset (Text.word?_eq_some_iff.1 hword)
      rw [hword]
      rfl
  · rintro rfl
    cases h : (env name).bind fun s => Text.word? s.toList with
    | none =>
      refine .passedOver fun text n hset hstates => ?_
      rw [hset, Option.bind_some, Text.word?_eq_some_iff.2 hstates] at h
      cases h
    | some n =>
      obtain ⟨text, hset, hword⟩ := Option.bind_eq_some_iff.1 h
      exact .stated hset (Text.word?_eq_some_iff.1 hword)

/-- There are settings in force, and they are the merged ones. -/
theorem inForce_iff :
    InForce env file s ↔ s = (file.over (Settings.default env)).override env := by
  constructor
  · intro h
    obtain ⟨⟨size, grace, timeout⟩, ⟨dir, items⟩⟩ := s
    obtain ⟨hsize, hgrace, htimeout, rfl, hitems⟩ := h
    rw [wordInForce_iff] at hsize hgrace htimeout hitems
    cases hsize
    cases hgrace
    cases htimeout
    cases hitems
    rfl
  · rintro rfl
    exact ⟨wordInForce_iff.2 rfl, wordInForce_iff.2 rfl, wordInForce_iff.2 rfl, rfl,
      wordInForce_iff.2 rfl⟩

theorem ofFile_of_byFile (h : Given.ByFile env fs file) :
    ofFile env fs = .ok (file.over (Settings.default env)) := by
  unfold ofFile
  cases h with
  | missing hmissing => rw [if_neg (by rw [hmissing]; decide)]; rfl
  | read hthere hread hgiven =>
    simp only [if_pos hthere, hread, ofText?_eq, hgiven, Option.map_some]

theorem load_of_ofFile {base : Settings} (h : ofFile env fs = .ok base) :
    load env fs = (base.override env).validate.map fun _ => base.override env := by
  unfold load
  rw [h]
  simp only [bind, Except.bind, pure, Except.pure, Except.map]

theorem load_of_ofFile_error {e : SettingsError} (h : ofFile env fs = .error e) :
    load env fs = .error e := by
  unfold load
  rw [h]
  rfl

theorem validate_eq (s : Settings) : s.validate =
    if s.transport.maxQueueSize = 0 then
      .error (.invalid "transport.max_queue_size must be positive")
    else if s.cache.maxItems = 0 then .error (.invalid "cache.max_items must be positive")
    else .ok () := by
  unfold validate TransportSettings.validate CacheSettings.validate
  split <;> rfl

/-- **Which settings are loaded.** The file is the one that is named, or else the one in the directory
that is named, or else the one below the home directory. If it is there but cannot be read, or is no
document of settings, loading fails with it, whatever the environment overrides. Otherwise each setting
by itself is what the environment states, or else what the file gives, or else the default; they are
loaded exactly if neither bound is zero, and refused with the name of the first one that is. What is
loaded is valid. -/
theorem load_by_layers (env : Environment) (fs : FileSystem) :
    let path := env.settingsFile
    path = (match env "SLUICE_CONFIG", env "XDG_CONFIG_HOME" with
      | some file, _ => file
      | none, some dir => Path.join (Path.join dir "sluice") "config.toml"
      | none, none => Path.join (Path.join (Path.join ((env "HOME").getD "/tmp") ".config") "sluice")
          "config.toml") ∧
    (∀ fault, fs.contains path = true → fs.readText path = .error fault →
      load env fs = .error (.readFailed path fault)) ∧
    (∀ text, fs.contains path = true → fs.readText path = .ok text → Given.ofText? text = none →
      load env fs = .error (.parseFailed path)) ∧
    (∀ file, Given.ByFile env fs file → ∃ s, InForce env file s ∧
      (load env fs = .ok s ↔ s.transport.maxQueueSize ≠ 0 ∧ s.cache.maxItems ≠ 0) ∧
      (s.transport.maxQueueSize = 0 →
        load env fs = .error (.invalid "transport.max_queue_size must be positive")) ∧
      (s.transport.maxQueueSize ≠ 0 → s.cache.maxItems = 0 →
        load env fs = .error (.invalid "cache.max_items must be positive"))) ∧
    ∀ s, load env fs = .ok s → s.validate = .ok () := by
  intro path
  refine ⟨?_, fun fault hthere hread => ?_, fun text hthere hread hnone => ?_, fun file hfile => ?_,
    fun s => validate_of_load⟩
  · show env.settingsFile = _
    unfold Environment.settingsFile Environment.configDir Environment.home
    cases env "SLUICE_CONFIG" <;> cases env "XDG_CONFIG_HOME" <;> rfl
  · apply load_of_ofFile_error
    simp only [ofFile, path, if_pos hthere, hread]
  · apply load_of_ofFile_error
    simp only [ofFile, path, if_pos hthere, hread, ofText?_eq, hnone, Option.map_none]
  · refine ⟨_, inForce_iff.2 rfl, ?_⟩
    have hload := load_of_ofFile (ofFile_of_byFile hfile)
    generalize (file.over (Settings.default env)).override env = s at hload
    rw [hload, validate_eq]
    by_cases hsize : s.transport.maxQueueSize = 0
    · simp [hsize, Except.map]
    · by_cases hitems : s.cache.maxItems = 0 <;> simp [hsize, hitems, Except.map]

/-- An environment that names the file, rescues one number and has blanks around another one. -/
def sampleEnvironment : Environment := fun name =>
  [("SLUICE_CONFIG", "/a.toml"), ("SLUICE_TRANSPORT__MAX_QUEUE_SIZE", "+7"),
    ("SLUICE_TRANSPORT__CLOSE_GRACE_SECS", " 9")].lookup name

/-- A document that gives two numbers, one of them zero. -/
def sampleText : String := "[transport]\nmax_queue_size = 0\nclose_grace_secs = 5\n"

/-- That document, where the environment says. -/
def sampleFiles : FileSystem where
  nodes := [(["a.toml"], ⟨.file (Bytes.ofText sampleText), 0⟩)]
  workingDirectory := []
  clock := 0

/-- The first number is overridden, the second one stays, and the rest are defaults. -/
theorem load_sampleFiles : load sampleEnvironment sampleFiles =
    .ok ⟨⟨7, 5, 15000⟩, ⟨"/tmp/.local/share/sluice/envelopes", 30⟩⟩ := by
  have hread : sampleFiles.readText sampleEnvironment.settingsFile = .ok sampleText := by
    decide +kernel
  have hgiven : Given.ofText? sampleText = some ⟨some 0, some 5, none, none, none⟩ := by
    decide +kernel
  have hfile := Given.ByFile.read (by decide +kernel) hread hgiven
  obtain ⟨-, -, -, hlayers, -⟩ := load_by_layers sampleEnvironment sampleFiles
  obtain ⟨s, hs, hload, -⟩ := hlayers _ hfile
  have hsettings : s = ⟨⟨7, 5, 15000⟩, ⟨"/tmp/.local/share/sluice/envelopes", 30⟩⟩ :=
    (inForce_iff.1 hs).trans (by decide +kernel)
  subst hsettings
  exact hload.2 (by decide)

end Settings
end Courier
