import Lasterm.Hub.Cascade
import Lasterm.Lib.OrderedMap
import Mathlib.Algebra.GroupWithZero.Nat
import Mathlib.Algebra.Order.Ring.Unbundled.Rat
import Mathlib.Data.Rat.Defs
import Mathlib.Logic.Function.Basic

/-!
# What a configuration resolver keeps of the files it read before

`loadFromFile` reads `config.toml` at the start and again after every save.  Each section is read
from the parsed file alone, over its defaults, but `[terminal]`: what was read of it stays when a
later file has no such section.

The TOML library's `parse` is a parameter, as is what a save makes of the text.

## Main results

* `holds_resolve`: the last layer to speak of a path says what is there.
* `reports_eq_iff`: what the reports of two resolvers that read one file differ by.
* `reload_forgets_iff`: when a reload leaves nothing of the past, after any history.
-/

namespace Lasterm.Hub.ConfigReload

open Cascade Function

/-! ### Values -/

/-- A number as TOML and JavaScript have it. -/
inductive Number
  | finite (q : ℚ)
  | infinite (positive : Bool)
  | nan
deriving DecidableEq

/-- The comparison `n >= bound`, false for NaN. -/
def Number.atLeast (bound : ℚ) : Number → Bool
  | .finite q => bound ≤ q
  | .infinite positive => positive
  | .nan => false

/-- `Number.isInteger`, from `low` to `high`. -/
def Number.wholeFrom (low high : ℚ) : Number → Bool
  | .finite q => q.den = 1 && low ≤ q && q ≤ high
  | _ => false

/-- `Math.max(0, n)`. -/
def Number.maxZero : Number → Number
  | .finite q => .finite (max 0 q)
  | .infinite false => .finite 0
  | n => n

/-- A scalar, or an array: of texts, or another by its text. -/
inductive Leaf
  | text (s : String)
  | number (n : Number)
  | big (n : ℤ)
  | truth (b : Bool)
  | texts (l : List String)
  | array (text : String)

/-- A date is an object without a key of its own. -/
abbrev Val := Value String Leaf

/-- A profile, or an object: `undefined` is a key it does not have. -/
abbrev Profile := String → Val

/-- A text value. -/
def str (s : String) : Val := .leaf (.text s)

/-- A number value. -/
def num (q : ℚ) : Val := .leaf (.number (.finite q))

/-- A Boolean value. -/
def truth (b : Bool) : Val := .leaf (.truth b)

/-- Whether `typeof` says it is an object. -/
def typeofObject : Val → Bool
  | .object _ | .leaf (.texts _) | .leaf (.array _) => true
  | _ => false

/-- What a name of the parsed file has: no object, or one by its entries (an array by its
indices). -/
inductive Section
  | scalar
  | object (entries : OrderedMap String Val)

/-- The sections of a parsed file, by name. -/
abbrev Parsed := String → Section

/-- The section's values by key, where it is an object. -/
def Section.raw : Section → Option Profile
  | .scalar => none
  | .object entries => some fun key => (entries.get key).getD .undefined

/-- A section inside a section. -/
def subsection (raw : Option Profile) (key : String) : Option Profile :=
  raw.bind fun raw => match raw key with
    | .object members => some members
    | _ => none

/-! ### The sections that are read over their defaults -/

/-- A key of a section: its name in the file and in the configuration, the value that is taken from
the file, and the default. -/
structure Field where
  raw : String
  key : String
  read : Val → Option Val
  default : Val

/-- The fields of a section, each as read or at its default. -/
def readSection (fields : List Field) (raw : Option Profile) : List (String × Val) :=
  fields.map fun f => (f.key, (raw.bind fun raw => f.read (raw f.raw)).getD f.default)

/-- A scalar that passes a test. -/
def check (p : Leaf → Bool) : Val → Option Val
  | .leaf a => if p a then some (.leaf a) else none
  | _ => none

/-- A Boolean, or nothing. -/
def boolean : Val → Option Val := check fun | .truth _ => true | _ => false

/-- A text that passes a test, or nothing. -/
def textWith (p : String → Bool) : Val → Option Val := check fun | .text s => p s | _ => false

/-- Any text. -/
def text : Val → Option Val := textWith fun _ => true

/-- A text that is not empty. -/
def nonempty : Val → Option Val := textWith (· ≠ "")

/-- One of these texts. -/
def oneOf (values : List String) : Val → Option Val := textWith values.contains

/-- A number that passes a test, or nothing. -/
def numberWith (p : Number → Bool) : Val → Option Val := check fun | .number n => p n | _ => false

/-- A number, 0 for one below 0. -/
def notNegative : Val → Option Val
  | .leaf (.number n) => some (.leaf (.number n.maxZero))
  | _ => none

/-- `validateCustomCommand` does not throw: the characters are allowed, the path absolute, and no
segment of it is `..` (a command that is only that is not absolute). -/
def validateCustomCommand (cmd : List Char) : Bool :=
  cmd.length ≤ 4096 && cmd.all (fun c => c.isAlphanum || "/\\._ :-".toList.contains c) &&
    (match cmd with
      | '/' :: _ => true
      | c :: ':' :: d :: _ => c.isAlpha && sep d
      | _ => false) &&
    !('/' :: cmd ++ ['/']).tails.any fun
      | a :: '.' :: '.' :: b :: _ => sep a && sep b
      | _ => false
where sep (c : Char) : Bool := c = '/' || c = '\\'

/-- The fields of `[gc]`. -/
def gcFields : List Field := [
  ⟨"dead_retention_hours", "deadRetentionHours", notNegative, num 24⟩,
  ⟨"max_size_per_channel_mb", "maxSizePerChannelMb", notNegative, num 10⟩]

/-- `extractGcConfig`. -/
def extractGcConfig (parsed : Parsed) : List (String × Val) :=
  readSection gcFields (parsed "gc").raw

/-- The sections of `UiConfig`, where `ui` has `onChannelDead`. -/
def uiFields : List (String × List Field) := [
  ("ui", [⟨"on_channel_dead", "onChannelDead", oneOf ["close", "readonly"], str "readonly"⟩]),
  ("tabs", [
    ⟨"close_button", "closeButton", boolean, truth true⟩,
    ⟨"new_tab_position", "newTabPosition", oneOf ["end", "afterActive"], str "end"⟩,
    ⟨"confirm_close_all", "confirmCloseAll", boolean, truth true⟩,
    ⟨"confirm_close_others", "confirmCloseOthers", boolean, truth true⟩,
    ⟨"host_marker", "hostMarker", oneOf ["dot", "initials", "edge", "none"], str "dot"⟩,
    ⟨"scope", "scope", oneOf ["global", "perHost"], str "global"⟩]),
  ("panes", [
    ⟨"max_panes", "maxPanes", numberWith (·.atLeast 1), num 4⟩,
    ⟨"keep_ended", "keepEnded", boolean, truth false⟩]),
  ("channels", [
    ⟨"default_group_name", "defaultGroupName", nonempty, str "General"⟩,
    ⟨"auto_group", "autoGroup", oneOf ["none", "first"], str "none"⟩]),
  ("startup", [⟨"auto_open_welcome", "autoOpenWelcome", boolean, truth true⟩]),
  ("title", [
    ⟨"source", "source", oneOf ["dynamic", "static", "process"], str "dynamic"⟩,
    ⟨"static_title", "staticTitle", text, .undefined⟩,
    ⟨"max_length", "maxLength", numberWith (·.atLeast 1), num 50⟩,
    ⟨"truncation", "truncation", oneOf ["end", "middle", "start"], str "end"⟩,
    ⟨"prefix", "prefix", text, .undefined⟩,
    ⟨"window_title", "windowTitle", boolean, truth true⟩,
    ⟨"window_format", "windowFormat", text,
      str "lasterm - \x7bprefix\x7d\x7bhost\x7d - \x7btitle\x7d"⟩]),
  ("search", [
    ⟨"position", "position", oneOf ["top-right", "bottom-right", "bottom-bar"], str "top-right"⟩,
    ⟨"highlight_on_close", "highlightOnClose", oneOf ["clear", "fade", "persist"], str "clear"⟩,
    ⟨"history_size", "historySize", numberWith (·.atLeast 1), num 20⟩]),
  ("layout", [
    ⟨"host_rail_columns", "hostRailColumns", numberWith (·.wholeFrom 1 5), num 1⟩,
    ⟨"host_rail_badge_size", "hostRailBadgeSize", oneOf ["small", "medium", "large"], str "medium"⟩,
    ⟨"sidebar_width", "sidebarWidth", numberWith (·.atLeast 0), num 200⟩,
    ⟨"transfer_panel_width", "transferPanelWidth", numberWith (·.wholeFrom 240 520), num 300⟩]),
  ("keyboard", [⟨"key_hints", "keyHints", boolean, truth true⟩]),
  ("transfer", [
    ⟨"panel_side", "panelSide", oneOf ["right", "left"], str "right"⟩,
    ⟨"open_on_drag", "openOnDrag", boolean, truth true⟩,
    ⟨"max_concurrent", "maxConcurrent", numberWith (·.wholeFrom 1 3), num 2⟩,
    ⟨"show_hidden", "showHidden", boolean, truth false⟩]),
  ("experimental", [⟨"file_transfer", "fileTransfer", boolean, truth false⟩])]

/-- `extractUiConfig`. -/
def extractUiConfig (parsed : Parsed) : List (String × List (String × Val)) :=
  uiFields.map fun (name, fields) => (name, readSection fields (parsed name).raw)

/-- The fields of the sections of `[appearance]`. -/
def appearanceFields : List (String × List Field) := [
  ("auto_switch", [
    ⟨"enabled", "enabled", boolean, truth false⟩,
    ⟨"dark_theme", "darkTheme", text, str "catppuccin-mocha"⟩,
    ⟨"light_theme", "lightTheme", text, str "one-half-light"⟩]),
  ("opacity", [
    ⟨"terminal", "terminal", numberWith fun _ => true, num 100⟩,
    ⟨"sidebar", "sidebar", numberWith fun _ => true, num 100⟩,
    ⟨"host_rail", "hostRail", numberWith fun _ => true, num 100⟩,
    ⟨"tab_bar", "tabBar", numberWith fun _ => true, num 100⟩]),
  ("scrollbar", [
    ⟨"style", "style", oneOf ["thin", "wide", "hidden"], str "thin"⟩,
    ⟨"thumb_color", "thumbColor", text, str ""⟩,
    ⟨"track_color", "trackColor", text, str ""⟩,
    ⟨"width_thin", "widthThin", numberWith fun _ => true, num 6⟩,
    ⟨"width_wide", "widthWide", numberWith fun _ => true, num 14⟩])]

/-- `extractAppearanceConfig`. -/
def extractAppearanceConfig (parsed : Parsed) : List (String × List (String × Val)) :=
  let raw := (parsed "appearance").raw
  ("theme", readSection [⟨"theme", "theme", text, str "catppuccin-mocha"⟩] raw) ::
    appearanceFields.map fun (name, fields) => (name, readSection fields (subsection raw name))

/-- The fields of `[elevation]`. -/
def elevationFields : List Field := [
  ⟨"method_linux", "methodLinux", oneOf ["sudo", "doas", "pkexec", "custom"], str "sudo"⟩,
  ⟨"method_darwin", "methodDarwin", oneOf ["sudo", "doas", "custom"], str "sudo"⟩,
  ⟨"method_windows", "methodWindows", oneOf ["gsudo", "custom"], str "gsudo"⟩,
  ⟨"custom_command_linux", "customCommandLinux", command, .undefined⟩,
  ⟨"custom_command_darwin", "customCommandDarwin", command, .undefined⟩,
  ⟨"custom_command_windows", "customCommandWindows", command, .undefined⟩]
where command : Val → Option Val := textWith fun s => validateCustomCommand s.toList

/-- `extractElevationConfig`. -/
def extractElevationConfig (parsed : Parsed) : List (String × Val) :=
  readSection elevationFields (parsed "elevation").raw

/-- `extractSshConfig`. -/
def extractSshConfig (parsed : Parsed) : List (String × Val) :=
  readSection [⟨"trust_known_hosts", "trustKnownHosts", boolean, truth false⟩,
    ⟨"remote_daemon", "remoteDaemon", boolean, truth false⟩] (parsed "ssh").raw

/-- `extractCorsConfig`: the origins, if they are a list of texts. -/
def extractCorsConfig (parsed : Parsed) : Option (List String) :=
  (parsed "server").raw.bind fun raw => match raw "cors_origins" with
    | .leaf (.texts origins) => some origins
    | _ => none

/-- A level of the log. -/
def level : Val → Option Val := oneOf ["trace", "debug", "info", "warn", "error"]

/-- `extractLogConfig`. -/
def extractLogConfig (parsed : Parsed) : List (String × Val) :=
  readSection [⟨"level", "level", level, str "info"⟩,
    ⟨"format", "format", oneOf ["text", "jsonl"], str "jsonl"⟩,
    ⟨"output", "output", oneOf ["stderr", "file", "both"], str "file"⟩,
    ⟨"max_age_days", "maxAgeDays", notNegative, num 30⟩,
    ⟨"max_size_mb", "maxSizeMb", notNegative, num 50⟩] (parsed "logging").raw

/-- The level and the format are those of `extractLogConfig`. -/
def extractAgentConfig (parsed : Parsed) : List (String × Val) :=
  readSection [⟨"socket_path", "socketPath", nonempty, .undefined⟩,
    ⟨"bind_timeout", "bindTimeout", numberWith fun n => n.atLeast 0 && n ≠ .finite 0, num 5000⟩]
    (parsed "agent").raw ++
  readSection [⟨"level", "logLevel", level, str "info"⟩,
    ⟨"format", "logFormat", oneOf ["text", "jsonl"], str "jsonl"⟩,
    ⟨"agent_files_kept", "logFilesKept", numberWith (·.wholeFrom 0 3650), num 7⟩]
    (parsed "logging").raw

/-! ### `[terminal]` -/

/-- `snakeToCamel`: `_` and a small letter are its capital. -/
def snakeToCamel : List Char → List Char
  | '_' :: c :: cs =>
    if c.isLower then c.toUpper :: snakeToCamel cs else '_' :: snakeToCamel (c :: cs)
  | c :: cs => c :: snakeToCamel cs
  | [] => []

/-- What the table of validators has for a key, which may throw: a rule of its own, or what any
object inherits, called without a `this`. -/
def transferProfileValidator : String → Option (Val → Option Bool)
  | "transferDrop" => rule (oneOf ["upload", "off"])
  | "transferOnConflict" => rule (oneOf ["ask", "replace", "keep_both", "skip"])
  | "transferConfirmDrop" | "transferFollowCwd" | "transferVerify" => rule boolean
  | "transferFallbackDir" => rule (textWith fun s =>
      (s.toList.map fun c => if c.val < 0x10000 then 1 else 2).sum ≤ 1024 &&
        s.toList.all (· ≠ '\x00'))
  | "constructor" | "toString" => some fun _ => some true
  | "isPrototypeOf" => some fun v => if typeofObject v then none else some false
  | "hasOwnProperty" | "propertyIsEnumerable" | "toLocaleString" | "valueOf" => some fun _ => none
  | _ => none
where rule (read : Val → Option Val) : Option (Val → Option Bool) :=
  some fun v => some (read v).isSome

/-- A variable that is removed is written `false` in the file. -/
def envFromToml : Val → Val
  | .object members => .object fun name => match members name with
    | .leaf (.truth false) => .null
    | entry => entry
  | v => v

/-- One key of `[terminal]`; a value its check refuses is left out. -/
def readTerminalKey (flat : Profile) : String × Val → Option Profile
  | ("env", val) => some (update flat "env" (envFromToml val))
  | (key, val) =>
    let profileKey := String.ofList (snakeToCamel key.toList)
    match transferProfileValidator profileKey with
    | none => some (update flat profileKey val)
    | some rule => (rule val).map fun valid => if valid then update flat profileKey val else flat

/-- A profile that says nothing. -/
def noOverrides : Profile := fun _ => .undefined

/-- The overrides that `[terminal]` gives. -/
def readTerminal (entries : OrderedMap String Val) : Option Profile :=
  entries.entries.foldlM readTerminalKey noOverrides

/-! ### The resolver -/

/-- What is read of a file besides `[terminal]`. -/
structure Settings where
  gcConfig : List (String × Val)
  uiConfig : List (String × List (String × Val))
  appearance : List (String × List (String × Val))
  elevation : List (String × Val)
  ssh : List (String × Val)
  corsOrigins : List String
  logConfig : List (String × Val)
  agentConfig : List (String × Val)

/-- The settings of a file, each at its default where the file says nothing. -/
def readSettings (parsed : Parsed) : Settings where
  gcConfig := extractGcConfig parsed
  uiConfig := extractUiConfig parsed
  appearance := extractAppearanceConfig parsed
  elevation := extractElevationConfig parsed
  ssh := extractSshConfig parsed
  corsOrigins := (extractCorsConfig parsed).getD ["tauri://localhost", "http://tauri.localhost"]
  logConfig := extractLogConfig parsed
  agentConfig := extractAgentConfig parsed

/-- What a resolver holds of the file it loaded last. -/
structure ConfigResolver where
  fileConfig : Option Profile
  settings : Settings
  configDir : Option String

/-- A new resolver has the defaults. -/
def fresh : ConfigResolver := ⟨none, readSettings fun _ => .scalar, none⟩

/-- The file is read: no result where a rule throws, before anything is set. -/
def ConfigResolver.read (r : ConfigResolver) (parsed : Parsed) : Option ConfigResolver :=
  match parsed "terminal" with
  | .scalar => some { r with settings := readSettings parsed }
  | .object entries => (readTerminal entries).map fun flat =>
      { r with fileConfig := some flat, settings := readSettings parsed }

variable (parse : String → Option Parsed)

/-- `loadFromFile`, with the text of the file, if there is one. -/
def ConfigResolver.loadFromFile (r : ConfigResolver) (configDir : String) (text : Option String) :
    ConfigResolver :=
  let r := { r with configDir := some configDir }
  match text.bind parse with
  | none => r
  | some parsed => (r.read parsed).getD r

/-- The profiles of the database, parsed, where they are. -/
structure MetaDal where
  getHostProfile : String → Option Profile
  getChannelProfile : String → Option Profile

/-- A profile of meta.db, by an id that may be empty. -/
def layer (get : String → Option Profile) (id : Option String) : Option Profile :=
  (id.filter (· ≠ "")).bind get

/-- `DEFAULT_PROFILE`. -/
def DEFAULT_PROFILE : Profile := fun key => ([
  ("fontFamily", str "\"Consolas\", \"Liberation Mono\", \"Courier New\", monospace"),
  ("fontSize", num 14), ("theme", str "catppuccin-mocha"), ("cursorStyle", str "block"),
  ("scrollback", num 5000), ("bellSound", str "mute"), ("bellBadge", truth true),
  ("scrollbarMarkers", truth true), ("wallpaper", str ""), ("wallpaperBlur", num 0),
  ("wallpaperDim", num 0), ("backgroundMode", str "image"), ("windowEffect", str "none"),
  ("envMode", str "inherit"), ("env", .object noOverrides), ("whenEnded", str "ask"),
  ("transferDrop", str "upload"), ("transferConfirmDrop", truth true),
  ("transferOnConflict", str "ask"), ("transferFollowCwd", truth true),
  ("transferFallbackDir", str ""), ("transferVerify", truth true)].lookup key).getD .undefined

/-- A layer that is there is merged into the profile. -/
def merged (profile : Profile) : Option Profile → Profile
  | none => profile
  | some source => deepMerge [some profile, some source]

namespace ConfigResolver

variable (r : ConfigResolver)

/-- `getGlobalTerminalOverrides`. -/
def getGlobalTerminalOverrides : Profile := r.fileConfig.getD noOverrides

/-- `resolve`: the defaults, the file, the host, the agent's hints and the terminal, merged. -/
def resolve (db : MetaDal) (hostId channelId : Option String) (hints : Option Profile) : Profile :=
  [r.fileConfig, layer db.getHostProfile hostId, hints, layer db.getChannelProfile channelId].foldl
    merged (deepMerge [some DEFAULT_PROFILE])

/-- `environmentLayers`: the `env` of the file, the host and the terminal. -/
def environmentLayers (db : MetaDal) (hostId channelId : Option String) : List Val :=
  let env (profile : Option Profile) : Val := profile.elim .undefined (· "env")
  env r.fileConfig :: ((hostId.filter (· ≠ "")).toList.map (env <| db.getHostProfile ·) ++
    (channelId.filter (· ≠ "")).toList.map (env <| db.getChannelProfile ·))

end ConfigResolver

/-- Everything a resolver says. -/
structure Reports where
  terminal : Profile
  resolved : Option String → Option String → Option Profile → Profile
  environment : Option String → Option String → List Val
  settings : Settings

/-- Everything a resolver is asked for. -/
def ConfigResolver.reports (db : MetaDal) (r : ConfigResolver) : Reports :=
  ⟨r.getGlobalTerminalOverrides, r.resolve db, r.environmentLayers db, r.settings⟩

/-! ### Histories -/

/-- What happens to a hub's configuration. -/
inductive Event
  | loadFromFile (configDir : String)
  /-- A save: `change` may throw. -/
  | editConfigFile (change : String → Option String)
  /-- The file of a directory is written or removed by something else. -/
  | changed (configDir : String) (text : Option String)

/-- The file of each directory, and the resolver. -/
structure HubConfig where
  files : String → Option String
  resolver : ConfigResolver

namespace HubConfig

/-- What an event has the resolver load: a directory, and its file. -/
def loads (hub : HubConfig) : Event → Option (String × Option String)
  | .loadFromFile configDir => some (configDir, hub.files configDir)
  | .editConfigFile change => do
    let configDir ← hub.resolver.configDir
    let text ← change ((hub.files configDir).getD "")
    some (configDir, some text)
  | .changed _ _ => none

/-- The hub after an event. -/
def next (hub : HubConfig) (e : Event) : HubConfig :=
  match e with
  | .changed configDir text => { hub with files := update hub.files configDir text }
  | e => (hub.loads e).elim hub fun (configDir, text) =>
      ⟨update hub.files configDir text, hub.resolver.loadFromFile parse configDir text⟩

/-- The hub after a history. -/
def after (files : String → Option String) (history : List Event) : HubConfig :=
  history.foldl (next parse) ⟨files, fresh⟩

end HubConfig

/-! ### What the layers come to -/

/-- What a layer, which may not be there, has for a key. -/
def said (layer : Option Profile) (key : String) : Val := layer.elim .undefined (· key)

theorem merged_noOverrides {profile : Profile} (h : ∀ key, profile key ≠ .null) :
    merged profile (some noOverrides) = profile := by
  funext key
  exact (put_undefined (profile key)).trans (fresh_of_ne_null (h key))

variable {parse} (db : MetaDal)

/-- No report tells a `[terminal]` that sets nothing from none. -/
theorem reports_eq (r : ConfigResolver) :
    r.reports db =
      ConfigResolver.reports db { r with fileConfig := some r.getGlobalTerminalOverrides } := by
  obtain ⟨fileConfig, settings, configDir⟩ := r
  cases fileConfig with
  | some flat => rfl
  | none =>
    have hmerged := merged_noOverrides (foldl_put_ne_null [DEFAULT_PROFILE])
    have hresolve : ConfigResolver.resolve ⟨none, settings, configDir⟩ db =
        ConfigResolver.resolve ⟨some noOverrides, settings, configDir⟩ db := by
      funext hostId channelId hints
      exact congrArg (List.foldl merged · [layer db.getHostProfile hostId, hints,
        layer db.getChannelProfile channelId]) hmerged.symm
    rw [ConfigResolver.reports, hresolve]
    rfl

/-- **What two resolvers with the same settings differ by.** -/
theorem reports_eq_iff {r r' : ConfigResolver} (h : r.settings = r'.settings) :
    r.reports db = r'.reports db ↔
      r.getGlobalTerminalOverrides = r'.getGlobalTerminalOverrides := by
  refine ⟨congrArg Reports.terminal, fun heq => ?_⟩
  rw [reports_eq db r, reports_eq db r', heq]
  obtain ⟨fileConfig, settings, configDir⟩ := r
  obtain rfl : settings = r'.settings := h
  rfl

/-- Nothing that was read of a `[terminal]` stays: the file has one itself, or what was read sets
nothing.  Where reading it throws, all of it stays. -/
def Forgets (r : ConfigResolver) (parsed : Parsed) : Prop :=
  match parsed "terminal" with
  | .scalar => r.getGlobalTerminalOverrides = noOverrides
  | .object entries => (readTerminal entries).isSome ∨
      r.getGlobalTerminalOverrides = noOverrides ∧ r.settings = fresh.settings

theorem reports_loadFromFile {text : Option String} {parsed : Parsed} (configDir : String)
    (h : text.bind parse = some parsed) (r : ConfigResolver) :
    (r.loadFromFile parse configDir text).reports db =
        (fresh.loadFromFile parse configDir text).reports db ↔ Forgets r parsed := by
  cases hterminal : parsed "terminal" with
  | scalar =>
    simp only [ConfigResolver.loadFromFile, h, ConfigResolver.read, Forgets, hterminal]
    exact reports_eq_iff db rfl
  | object entries =>
    simp only [ConfigResolver.loadFromFile, h, ConfigResolver.read, Forgets, hterminal]
    cases readTerminal entries with
    | some flat => exact iff_of_true ((reports_eq_iff db rfl).mpr rfl) (.inl rfl)
    | none =>
      simp only [Option.isSome_none, Bool.false_eq_true, false_or]
      constructor
      · exact fun heq => ⟨congrArg Reports.terminal heq, congrArg Reports.settings heq⟩
      · exact fun ⟨hterminal, hsettings⟩ => (reports_eq_iff db hsettings).mpr hterminal

/-- **A reload forgets the past just if** the file has a `[terminal]` section, or what had been
read of one sets nothing: after any history, for a load and for a save. -/
theorem reload_forgets_iff (files : String → Option String) (history : List Event) (e : Event)
    {configDir text : String} {parsed : Parsed}
    (hloads : (HubConfig.after parse files history).loads e = some (configDir, some text))
    (hparse : parse text = some parsed) :
    ((HubConfig.after parse files (history ++ [e])).resolver.reports db =
        (fresh.loadFromFile parse configDir (some text)).reports db) ↔
      Forgets (HubConfig.after parse files history).resolver parsed := by
  have hbind : (some text).bind parse = some parsed := hparse
  rw [← reports_loadFromFile db configDir hbind, HubConfig.after, List.foldl_append,
    ← HubConfig.after, List.foldl_cons, List.foldl_nil]
  cases e with
  | changed => cases hloads
  | _ =>
    simp only [HubConfig.next, hloads]
    rfl

/-- A file with a `[terminal]` section alone. -/
def terminalFile (entries : OrderedMap String Val) : Parsed := fun name =>
  if name = "terminal" then .object entries else .scalar

/-- Three texts, read as TOML. -/
def parseFontSize (text : String) : Option Parsed :=
  if text = "" then some fun _ => .scalar
  else if text = "[terminal]\n" then some (terminalFile .empty)
  else if text = "[terminal]\nfont_size = 20\n" then
    some (terminalFile (OrderedMap.empty.set "font_size" (num 20)))
  else none

/-- A font size is read, then removed from the file. -/
def fontSizeRemoved : List Event := [.changed "c" (some "[terminal]\nfont_size = 20\n"),
  .loadFromFile "c", .changed "c" (some "")]

theorem reload_forgets_saved : ∃ (db : MetaDal) (change : String → Option String),
    (HubConfig.after parseFontSize (fun _ => none)
        (fontSizeRemoved ++ [.editConfigFile change])).resolver.reports db =
      (fresh.loadFromFile parseFontSize "c" (some "[terminal]\n")).reports db := by
  have hforgets : ∀ r, Forgets r (terminalFile .empty) := by
    simp only [Forgets, terminalFile, if_true]
    exact fun r => .inl (by decide +kernel)
  exact ⟨⟨fun _ => none, fun _ => none⟩, fun _ => some "[terminal]\n",
    (reload_forgets_iff _ _ _ _ rfl rfl).mpr (hforgets _)⟩

/-- The font size that was removed from the file stays. -/
theorem removed_font_size_stays : ¬∀ (parse : String → Option Parsed) db files history e
    configDir text parsed,
      (HubConfig.after parse files history).loads e = some (configDir, some text) →
      parse text = some parsed →
      (HubConfig.after parse files (history ++ [e])).resolver.reports db =
        (fresh.loadFromFile parse configDir (some text)).reports db := by
  intro h
  have heq := h parseFontSize ⟨fun _ => none, fun _ => none⟩ (fun _ => none) fontSizeRemoved
    (.loadFromFile "c") "c" "" _ rfl rfl
  exact nomatch (show num 20 = .undefined from congrArg (·.terminal "fontSize") heq)

end Lasterm.Hub.ConfigReload
