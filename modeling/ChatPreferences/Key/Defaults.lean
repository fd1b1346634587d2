import ChatPreferences.Key.Binding

/-!
# The keys that are bound from the start

The client comes with bindings for the usual editing keys.  They are bound before the preference
file is read for the first time, so that a file which says nothing about a key leaves it bound.
-/

namespace ChatPreferences.KeyMap

/-- The keys and what they are bound to, in order. -/
def defaults : List (Text × Text) := [
  ⟨"ctrl-M", "return"⟩,
  ⟨"ctrl-J", "return"⟩,
  ⟨"ctrl-I", "tab"⟩,
  ⟨"ctrl-H", "backspace"⟩,
  ⟨"ctrl-?", "backspace"⟩,
  ⟨"meta2-3~", "delete"⟩,
  ⟨"ctrl-K", "delete_end_line"⟩,
  ⟨"ctrl-U", "delete_beginning_line"⟩,
  ⟨"ctrl-W", "delete_previous_word"⟩,
  ⟨"ctrl-Y", "clipboard_paste"⟩,
  ⟨"ctrl-T", "transpose_chars"⟩,
  ⟨"meta2-1~", "home"⟩,
  ⟨"meta2-H", "home"⟩,
  ⟨"ctrl-A", "home"⟩,
  ⟨"meta2-4~", "end"⟩,
  ⟨"meta2-F", "end"⟩,
  ⟨"ctrl-E", "end"⟩,
  ⟨"meta2-D", "left"⟩,
  ⟨"meta2-C", "right"⟩,
  ⟨"meta-b", "previous_word"⟩,
  ⟨"meta-f", "next_word"⟩,
  ⟨"meta2-A", "up"⟩,
  ⟨"meta2-B", "down"⟩,
  ⟨"meta2-5~", "page_up"⟩,
  ⟨"meta2-6~", "page_down"⟩,
  ⟨"meta-meta2-5~", "scroll_up"⟩,
  ⟨"meta-meta2-6~", "scroll_down"⟩,
  ⟨"meta-a", "jump_smart"⟩,
  ⟨"meta-j", "jump_last_buffer"⟩,
  ⟨"meta-u", "scroll_unread"⟩,
  ⟨"meta-h", "hotlist_clear"⟩,
  ⟨"ctrl-L", "refresh"⟩,
  ⟨"meta-k", "grab_key"⟩,
  ⟨"meta-1", "/buffer 1"⟩,
  ⟨"meta-2", "/buffer 2"⟩,
  ⟨"meta-3", "/buffer 3"⟩]

/-- Binds the keys that are bound from the start. -/
def bindDefaults (keys : KeyMap) : KeyMap :=
  defaults.foldl (fun keys (name, value) => keys.bind name value) keys

end ChatPreferences.KeyMap
