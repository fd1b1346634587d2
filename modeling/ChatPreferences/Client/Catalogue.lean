import ChatPreferences.Client.Signal
import ChatPreferences.Key.Defaults
import ChatPreferences.Store.Records

/-!
# The catalogue of settings

The client has one fixed list of settings, in the order in which they stand in the preference file.
After them come the status bars and the key bindings.  The rest of the client refers to a setting by
a handle, a path of words such as `look`, `prefix`, `join`, which does not change when a setting
gets another name.

* `Catalogue.entries` — the settings with their handles.
* `Catalogue.freshStore` — the store of a client that has not read anything yet.
-/

namespace ChatPreferences.Catalogue

/-- A setting of the catalogue: its handle, which begins with the name of its section, and its
declaration. -/
structure CatalogueEntry where
  sectionName : Text
  handle : List Text
  declaration : Declaration Signal

/-- The greatest whole number for a setting without a tighter bound. -/
def greatest : Rat := 2147483647

/-- The reaction that only sends a signal. -/
def signals (signal : Signal) : Option (Reaction Signal) :=
  some ⟨signal, []⟩

/-- The reaction that only tells the screen something. -/
def tells (call : ScreenCall) : Option (Reaction Signal) :=
  signals (.screen call)

/-- An entry of the section `sectionName`. -/
def entry (sectionName : Text) (handle : List Text) (name : Text) (kind : Kind) (default : Text)
    (description : Text) (onChange : Option (Reaction Signal)) : CatalogueEntry :=
  ⟨sectionName, sectionName :: handle, ⟨name, kind, default, description, onChange⟩⟩

/-! ## The sections -/

/-- What is done at the start. -/
def startup : List CatalogueEntry := [
  entry "startup" ["logo"] "startup_logo" .boolean "on" "display logo at startup" none,
  entry "startup" ["version"] "startup_version" .boolean "on" "display version at startup" none,
  entry "startup" ["commandBeforePlugins"] "startup_command_before_plugins" (.string .absent) ""
    "command executed at startup, before loading plugins" none,
  entry "startup" ["commandAfterPlugins"] "startup_command_after_plugins" (.string .absent) ""
    "command executed at startup, after loading plugins" none]

/-- The marks in front of messages that are not said by anybody: what they mark, the mark, and its
colour. -/
def marks : List (Text × Text × Text) := [
  ("info", "-=-", "lightcyan"),
  ("error", "=!=", "yellow"),
  ("network", "--", "magenta"),
  ("action", "*", "white"),
  ("join", "-->", "lightgreen"),
  ("quit", "<--", "lightred")]

/-- The setting of a mark. -/
def markEntry (mark : Text × Text × Text) : CatalogueEntry :=
  entry "look" ["prefix", mark.1] ("look_prefix_".toList ++ mark.1) (.string .absent) mark.2.1
    ("prefix for ".toList ++ mark.1 ++ " messages".toList) (tells .rebuildPrefixes)

/-- How the client looks, in front of the marks. -/
def lookBefore : List CatalogueEntry := [
  entry "look" ["colorRealWhite"] "look_color_real_white" .boolean "off"
    "use real white color instead of the terminal foreground" (tells .rebuildColors),
  entry "look" ["saveOnExit"] "look_save_on_exit" .boolean "on"
    "save configuration file on exit" (signals .saveOnExit),
  entry "look" ["setTitle"] "look_set_title" .boolean "on"
    "set title for terminal window with name and version" (signals .title),
  entry "look" ["slogan"] "look_slogan" (.string .absent) "the chattiest terminal client!"
    "slogan (if empty, slogan is not used)" none,
  entry "look" ["scrollAmount"] "look_scroll_amount" (.integer 1 greatest) "3"
    "how many lines to scroll by with scroll_up and scroll_down" (tells .redrawCurrentBuffer),
  entry "look" ["bufferTimeFormat"] "look_buffer_time_format" (.string .absent) "[%H:%M:%S]"
    "time format for buffers" (tells .redrawCurrentBuffer),
  entry "look" ["nicklist"] "look_nicklist" .boolean "on"
    "display nicklist (on buffers with nicklist enabled)" (tells .refreshWindows),
  entry "look" ["nicklistPosition"] "look_nicklist_position"
    (.choice (labelsOf "left|right|top|bottom")) "right"
    "nicklist position" (tells .refreshWindows),
  entry "look" ["nicklistMinSize"] "look_nicklist_min_size" (.integer 0 100) "0"
    "min size for nicklist (0 = no min size)" (tells .refreshWindows),
  entry "look" ["nicklistMaxSize"] "look_nicklist_max_size" (.integer 0 100) "0"
    "max size for nicklist (0 = no max size)" (tells .refreshWindows)]

/-- How the client looks, after the marks. -/
def lookAfter : List CatalogueEntry := [
  entry "look" ["prefixAlign"] "look_prefix_align" (.choice (labelsOf "none|left|right")) "right"
    "prefix alignment" (tells .refreshWindows),
  entry "look" ["prefixAlignMax"] "look_prefix_align_max" (.integer 0 64) "0"
    "max size for prefix (0 = no max size)" (tells .refreshWindows),
  entry "look" ["prefixSuffix"] "look_prefix_suffix" (.string .absent) "|"
    "string displayed after prefix" (tells .refreshWindows),
  entry "look" ["hotlistSort"] "look_hotlist_sort"
    (.choice (labelsOf "group_time_asc|group_time_desc|group_number_asc|group_number_desc|number_asc|number_desc"))
    "group_time_asc" "hotlist sort type" (tells .resortHotlist),
  entry "look" ["dayChange"] "look_day_change" .boolean "on"
    "display special message when day changes" (signals .dayNotice),
  entry "look" ["dayChangeTimeFormat"] "look_day_change_time_format" (.string .absent) "%a, %d %b %Y"
    "time format for the day change message" none,
  entry "look" ["readMarker"] "look_read_marker" (.string 1) " "
    "marker shown on buffers before the first unread line" (tells .redrawAllBuffers),
  entry "look" ["inputFormat"] "look_input_format" (.string .absent) "[%n(%m)] "
    "format for input prompt ('%c' channel, '%n' nick, '%m' nick modes)"
    (tells .redrawCurrentBuffer),
  entry "look" ["pasteMaxLines"] "look_paste_max_lines" (.integer 0 greatest) "3"
    "max number of lines for paste without asking user (0 = disable)" none]

/-- How the client looks. -/
def look : List CatalogueEntry :=
  lookBefore ++ marks.map markEntry ++ lookAfter

/-- A colour. -/
def colorEntry (handle : List Text) (name default description : Text) : CatalogueEntry :=
  entry "colors" handle name .color default description (tells .rebuildColors)

/-- The colour of a mark. -/
def markColorEntry (mark : Text × Text × Text) : CatalogueEntry :=
  colorEntry ["chatPrefix", mark.1] ("color_chat_prefix_".toList ++ mark.1) mark.2.2
    ("color for ".toList ++ mark.1 ++ " prefix".toList)

/-- The colours. -/
def colors : List CatalogueEntry :=
  [colorEntry ["separator"] "color_separator" "blue" "color for window separators",
    colorEntry ["chat"] "color_chat" "default" "color for chat text",
    colorEntry ["chatBg"] "color_chat_bg" "default" "background color for chat",
    colorEntry ["chatTime"] "color_chat_time" "default" "color for time in chat window"]
  ++ marks.map markColorEntry ++
  [colorEntry ["status"] "color_status" "default" "color for status bar",
    colorEntry ["statusBg"] "color_status_bg" "blue" "background color for status bar",
    colorEntry ["input"] "color_input" "default" "color for input text",
    colorEntry ["inputBg"] "color_input_bg" "default" "background color for input window"]

/-- What is kept of the past. -/
def history : List CatalogueEntry := [
  entry "history" ["maxLines"] "history_max_lines" (.integer 0 greatest) "4096"
    "maximum number of lines in history per buffer (0 = unlimited)" none,
  entry "history" ["maxCommands"] "history_max_commands" (.integer 0 greatest) "100"
    "maximum number of user commands in history (0 = unlimited)" none,
  entry "history" ["displayDefault"] "history_display_default" (.integer 0 greatest) "5"
    "maximum number of commands to display by default in history listing" none]

/-- How the client reaches its servers. -/
def proxy : List CatalogueEntry := [
  entry "proxy" ["use"] "proxy_use" .boolean "off" "use a proxy server" none,
  entry "proxy" ["type"] "proxy_type" (.choice (labelsOf "http|socks4|socks5")) "http"
    "proxy type" none,
  entry "proxy" ["ipv6"] "proxy_ipv6" .boolean "off" "connect to proxy using ipv6" none,
  entry "proxy" ["address"] "proxy_address" (.string .absent) ""
    "proxy server address (IP or hostname)" none,
  entry "proxy" ["port"] "proxy_port" (.integer 0 65535) "3128"
    "port for connecting to proxy server" none,
  entry "proxy" ["username"] "proxy_username" (.string .absent) "" "username for proxy server" none,
  entry "proxy" ["password"] "proxy_password" (.string .absent) "" "password for proxy server" none]

/-- What is loaded besides the client itself. -/
def plugins : List CatalogueEntry := [
  entry "plugins" ["path"] "plugins_path" (.string .absent) "%h/plugins"
    "path for searching plugins ('%h' is replaced by the home directory)" none,
  entry "plugins" ["autoload"] "plugins_autoload" (.string .absent) "*"
    "comma separated list of plugins to load automatically at startup" none,
  entry "plugins" ["saveConfigOnUnload"] "plugins_save_config_on_unload" .boolean "on"
    "save configuration files when unloading plugins" none]

/-! ## The whole -/

/-- The sections that hold settings, in order. -/
def sectionNames : List Text := ["startup", "look", "colors", "history", "proxy", "plugins"]

/-- **All settings**, in order. -/
def entries : List CatalogueEntry :=
  startup ++ look ++ colors ++ history ++ proxy ++ plugins

/-- The address of the setting with a handle. -/
def address? (handle : List Text) : Option Address :=
  (entries.find? (·.handle == handle)).map fun e => ⟨e.sectionName, e.declaration.name⟩

/-- The setting that the preferences are saved at the end. -/
def saveOnExit : Address := ⟨"look", "look_save_on_exit"⟩

/-- The setting that a notice is shown when the day has changed. -/
def dayChange : Address := ⟨"look", "look_day_change"⟩

/-- The setting for the date in that notice. -/
def dayChangeTimeFormat : Address := ⟨"look", "look_day_change_time_format"⟩

/-- The section of the status bars. -/
def barsName : Text := "bars"

/-- The section of the key bindings. -/
def keysName : Text := "keys"

/-- Makes the sections and the settings, and the sections of the bars and of the keys. -/
def makeStore : Except DeclarationFault (Store Signal Records) := do
  let scalar ← sectionNames.foldlM (fun store name => store.create name none) Store.empty
  let declared ← entries.foldlM (fun store e => store.declare e.sectionName e.declaration) scalar
  let withBars ← declared.create barsName (some (.bars []))
  withBars.create keysName (some (.keys (KeyMap.bindDefaults ⟨Commands.builtIn, []⟩)))

/-- **The store of a client that has read nothing yet**: every setting at its default, no bars, and
the keys that are bound from the start. -/
def freshStore : Store Signal Records :=
  match makeStore with
  | .ok store => store
  | .error _ => Store.empty

end ChatPreferences.Catalogue
