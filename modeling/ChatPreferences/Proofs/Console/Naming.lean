import ChatPreferences.Proofs.Console.Leaving
import ChatPreferences.Proofs.Store.Naming

/-!
# The setting that is shown is the one that is set

Whoever sets a setting at the console names it, is shown what the name means, and then gives a new value.
By then the file may have been read again, and the setting is looked up once more, this time under its
full name.  Both times the same setting has to be found.

* `Session.outline_play_reports` — reports on the file leave alone what names mean.
* `Session.find?_by_entries` — **looking up a name**: full names first, and then own names in the order
  of declaration; what was found is found again, and it is what a session sets.
-/

namespace ChatPreferences

/-! ## Reports on the file -/

theorem Store.outline_reload {σ ρ : Type} [RecordSet ρ] (store : Store σ ρ) (d : Document) :
    (store.reload d).store.outline = store.outline := by
  rw [reload, load, outline_takeLines, outline_cleared]

namespace Client

theorem outline_reload (c : Client) : c.reload.client.store.outline = c.store.outline := by
  cases hread : c.file.read c.disk with
  | ok d => rw [store_reload_of_ok hread, Store.outline_reload]
  | error fault => rw [store_reload_of_error hread]

theorem outline_fileChanged (c : Client) : c.fileChanged.1.store.outline = c.store.outline := by
  unfold fileChanged
  split
  · rfl
  · split
    · rfl
    · rename_i after _
      dsimp only
      split
      · exact outline_reload { c with watch := some after }
      · exact outline_reload { c with watch := some after }

theorem store_take (c : Client) (change : Change Signal Records) :
    (c.take change).client.store = change.store :=
  store_respond { c with store := change.store } change.events

end Client

namespace Store

variable {σ ρ : Type} {store : Store σ ρ} {name raw : Text} {a : Address}

/-- **A change sets one setting**, the one at an address: it comes of setting this one to a raw text, and
apart from what reactions assign, no other one holds anything else than before. -/
structure SetsOnly (store : Store σ ρ) (a : Address) (raw : Text) (c : Change σ ρ) : Prop where
  set : store.set a raw = some c
  own : ¬ store.Assigns a → c.store.get? a = (store.get? a).map (·.offered raw)
  others : ∀ b, b ≠ a → ¬ store.Assigns b → c.store.get? b = store.get? b

theorem setsOnly_of_set {c : Change σ ρ} (hc : store.set a raw = some c) : store.SetsOnly a raw c where
  set := hc
  own := get?_set hc
  others := fun b hb hassigns =>
    (set_frame hc).2.values b fun h => h.elim hb hassigns

/-- What a name means is the setting that is set under its full name. -/
theorem setNamed_fullName (h : store.WellNamed) (ha : store.find? name = some a) (raw : Text) :
    ∃ c, store.setNamed a.fullName raw = some c ∧ store.SetsOnly a raw c := by
  obtain ⟨o, ho⟩ := exists_of_find? h ha
  have hsome : (store.set a raw).isSome = true := by rw [isSome_set, ho, Option.isSome_some]
  obtain ⟨c, hc⟩ := Option.isSome_iff_exists.mp hsome
  refine ⟨c, ?_, setsOnly_of_set hc⟩
  rw [setNamed, find?_fullName h ha, Option.bind_some, hc]

end Store

namespace Session

variable {s : Session} {a : Address}

/-- **Reports on the file** leave alone what a session waits for and what names mean. -/
theorem outline_play_reports (s : Session) (count : Nat) :
    (s.play (List.replicate count .reported)).stage = s.stage ∧
      (s.play (List.replicate count .reported)).client.store.outline = s.client.store.outline := by
  induction count generalizing s with
  | zero => exact ⟨rfl, rfl⟩
  | succ count ih =>
    have hafter := ih (s.turn .reported)
    have houtline : (s.turn .reported).client.store.outline = s.client.store.outline :=
      Client.outline_fileChanged s.client
    exact ⟨hafter.1, hafter.2.trans houtline⟩

/-! ## Naming a setting -/

theorem answer_settingName {line : Text} {o : Setting Signal} (hstage : s.stage = .settingName)
    (ha : s.client.store.find? (Console.readLine false line) = some a)
    (ho : s.client.store.get? a = some o) :
    s.answer line = s.ask (.newValue a)
      (Console.info (a.fullName ++ " = ".toList ++ o.text ++ '\n' :: o.description) ++
        Console.lineQuestion "New value (empty to keep, \"\" to clear)") := by
  simp only [answer, hstage, nameGiven, ha, valueLine, ho]

theorem client_answer_newValue {line raw : Text} {c : Change Signal Records}
    (hstage : s.stage = .newValue a)
    (hraw : Console.newValue? (Console.readLine (keepsBlanks s.client a) line) = some raw)
    (hc : s.client.store.setNamed a.fullName raw = some c) :
    (s.answer line).1.client = (s.client.take c).client := by
  simp only [answer, hstage, valueGiven, hraw, Client.set, hc, Option.map_some]
  rfl

/-- **Looking up a name**, in a store whose names can be told apart: a setting that has it for its full
name is what it means; where there is none, it means the first setting in the order of declaration that
has it for its own name, or nothing.  What a name means is found again under its full name, and is what
is set under it.

So it goes in a session.  When a name has been given that means a setting, this one is shown and a new
value is asked for; and if one is given, be it after any number of reports on the file, then this one is
set. -/
theorem find?_by_entries {σ ρ : Type} (store : Store σ ρ) (h : store.WellNamed) (name : Text) :
    (∀ e ∈ store.entries, e.1.fullName = name → store.find? name = some e.1) ∧
      ((∀ e ∈ store.entries, e.1.fullName ≠ name) →
        store.find? name = (store.entries.find? (·.1.name == name)).map (·.1)) ∧
      (∀ a, store.find? name = some a →
        (∃ o, (a, o) ∈ store.entries ∧ store.get? a = some o) ∧
          store.find? a.fullName = some a ∧
          ∀ raw, ∃ c, store.setNamed a.fullName raw = some c ∧ store.SetsOnly a raw c) ∧
      ∀ (s : Session) (line : Text) (a : Address), s.client.store.WellNamed →
        s.stage = .settingName → s.client.store.find? (Console.readLine false line) = some a →
        ∃ o, s.client.store.get? a = some o ∧
          (s.answer line).2 = [.text
            (Console.info (a.fullName ++ " = ".toList ++ o.text ++ '\n' :: o.description) ++
              Console.lineQuestion "New value (empty to keep, \"\" to clear)")] ∧
          ∀ count, let asked := (s.answer line).1.play (List.replicate count .reported)
            asked.stage = .newValue a ∧
              ∀ answer raw, Console.newValue?
                  (Console.readLine (keepsBlanks asked.client a) answer) = some raw →
                ∃ c, asked.client.store.SetsOnly a raw c ∧
                  (asked.answer answer).1.client.store = c.store := by
  refine ⟨fun e he hname => ?_, fun hnone => ?_, fun a ha => ?_, fun s line a hs hstage ha => ?_⟩
  · have hget := (Store.mem_entries_iff h.distinct).mp he
    have hfull := (Store.findFull?_eq_some_iff h).mpr
      ⟨hname, by rw [hget, Option.isSome_some]⟩
    rw [Store.find?, hfull, Option.some_or]
  · have hfull : store.entries.find? (·.1.fullName == name) = none :=
      List.find?_eq_none.mpr fun e he => by simpa using hnone e he
    rw [Store.find?_eq_search h, hfull, Option.none_or]
  · obtain ⟨o, ho⟩ := Store.exists_of_find? h ha
    exact ⟨⟨o, (Store.mem_entries_iff h.distinct).mpr ho, ho⟩, Store.find?_fullName h ha,
      Store.setNamed_fullName h ha⟩
  · obtain ⟨o, ho⟩ := Store.exists_of_find? hs ha
    have hanswer := answer_settingName hstage ha ho
    refine ⟨o, ho, by rw [hanswer]; rfl, ?_⟩
    intro count asked
    have hnamed : (s.answer line).1.stage = .newValue a ∧ (s.answer line).1.client = s.client := by
      rw [hanswer]
      exact ⟨rfl, rfl⟩
    obtain ⟨hwaits, houtline⟩ := outline_play_reports (s.answer line).1 count
    rw [hnamed.1] at hwaits
    rw [hnamed.2] at houtline
    refine ⟨hwaits, fun answer raw hraw => ?_⟩
    -- what the name means is the same still, whatever reports have come
    have hfind : asked.client.store.find? (Console.readLine false line) = some a := by
      rw [Store.find?_eq houtline, ha]
    obtain ⟨c, hc, honly⟩ := Store.setNamed_fullName (hs.of_outline houtline.symm) hfind raw
    refine ⟨c, honly, ?_⟩
    rw [client_answer_newValue hwaits hraw hc, Client.store_take]

/-- Two sections, in the first of which a setting has the full name of one in the second for its own. -/
def dotted : Store Signal Records :=
  Store.after [
    .create "a" none,
    .declare "a" ⟨"b.x", .boolean, "on", "", none⟩,
    .declare "a" ⟨"x", .boolean, "on", "", none⟩,
    .create "b" none,
    .declare "b" ⟨"x", .boolean, "on", "The second.", none⟩]

/-- A session with these sections that waits for the name of a setting. -/
def dottedSession : Session :=
  ⟨{ Client.start ⟨"parley.conf", 1⟩ false ⟨.folder [], []⟩ [] 0 with store := dotted }, false,
    .settingName⟩

theorem find?_by_entries_dotted :
    (∃ e ∈ dotted.entries, e.1.fullName = "b.x" ∧ dotted.find? "b.x" = some e.1) ∧
      (∀ e ∈ dotted.entries, e.1.fullName ≠ "x") ∧ dotted.find? "x" = some ⟨"a", "x"⟩ ∧
      dotted.find? (⟨"a", "b.x"⟩ : Address).fullName = some ⟨"a", "b.x"⟩ ∧
      ∃ c, ((dottedSession.answer "b.x").1.turn .reported).client.store.SetsOnly ⟨"b", "x"⟩ "off" c ∧
        (((dottedSession.answer "b.x").1.turn .reported).answer "off").1.client.store = c.store := by
  have hnamed : dotted.WellNamed := Store.wellNamed_after _ (by decide +kernel)
  have hother : ∀ e ∈ dotted.entries, e.1.fullName ≠ "x".toList := by decide +kernel
  have hfull : ∃ e ∈ dotted.entries, e.1.fullName = "b.x".toList := by decide +kernel
  have hfirst : (dotted.entries.find? (·.1.name == "x".toList)).map (·.1) = some ⟨"a", "x"⟩ := by
    decide +kernel
  have hmeans : dotted.find? "a.b.x" = some ⟨"a", "b.x"⟩ := by decide +kernel
  obtain ⟨e, he, hname⟩ := hfull
  obtain ⟨o, -, -, hsession⟩ := (find?_by_entries dotted hnamed "b.x").2.2.2 dottedSession "b.x"
    ⟨"b", "x"⟩ hnamed rfl (by decide +kernel)
  refine ⟨⟨e, he, hname, (find?_by_entries dotted hnamed "b.x").1 e he hname⟩, hother, ?_, ?_, ?_⟩
  · exact ((find?_by_entries dotted hnamed "x").2.1 hother).trans hfirst
  · exact ((find?_by_entries dotted hnamed "a.b.x").2.2.1 _ hmeans).2.1
  · exact (hsession 1).2 "off" "off" (by decide +kernel)

end Session

end ChatPreferences
