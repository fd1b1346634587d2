import ChatPreferences.Console.Session
import ChatPreferences.Proofs.Client.Kept

/-!
# What a session leaves in the file

A session works on a store and only now and then on the file.  What is set, reset and reloaded changes
the store; what is in the file then is another matter.  It is written when saving is chosen, and at the
end if a setting says so at that moment, and a reload may have changed that setting, too.  Saving may
also fail, in the middle of a session without ending it.

Whatever is given to a session, one turn can do one of three things: save, end, or leave the file
alone.  So the file holds what was saved last, or what was in it when the menu was first shown.

* `Session.Turn`, `Session.play` — all that happens in a session.
* `Session.turn_cases` — **what a turn can do**.
* `Session.lastSaved?`, `Session.kept_play` — the store that was saved last, and **what is in the file
  while the session goes on**.
* `Session.kept_throughout` — **what a session leaves in the file**.
-/

namespace ChatPreferences

/-! ## Turns -/

namespace Session

variable {s t : Session} {text : Text}

/-- **What happens in a session**: somebody gives something to it, or a report on the file arrives. -/
inductive Turn where
  | given (input : Input)
  | reported
  deriving DecidableEq

/-- What comes of a turn. -/
def turn (s : Session) : Turn → Session
  | .given input => (s.receive input).1
  | .reported => s.fileChanged.1

/-- What comes of some turns, one after the other. -/
def play (s : Session) (turns : List Turn) : Session :=
  turns.foldl turn s

/-- A session without reports on the file. -/
theorem run_eq_play (inputs : List Input) (s : Session) :
    (s.run inputs).1 = s.play (inputs.map .given) := by
  induction inputs generalizing s with
  | nil => rfl
  | cons input rest ih => exact ih (s.receive input).1

theorem play_append (s : Session) (turns others : List Turn) :
    s.play (turns ++ others) = (s.play turns).play others :=
  List.foldl_append

theorem play_concat (s : Session) (turns : List Turn) (turn : Turn) :
    s.play (turns ++ [turn]) = (s.play turns).turn turn :=
  List.foldl_concat ..

/-- Whether a turn saves. -/
def saves (s : Session) : Turn → Bool
  | .given (.choice .save) => s.stage == .menu && s.client.canSave
  | _ => false

/-- **The store that was saved last**, in some turns. -/
def lastSaved? (s : Session) : List Turn → Option (Store Signal Records)
  | [] => none
  | turn :: rest =>
    ((s.turn turn).lastSaved? rest).or (if s.saves turn then some s.client.store else none)

theorem lastSaved?_concat (s : Session) (turns : List Turn) (turn : Turn) :
    s.lastSaved? (turns ++ [turn]) =
      if (s.play turns).saves turn then some (s.play turns).client.store else s.lastSaved? turns := by
  induction turns generalizing s with
  | nil => rfl
  | cons first rest ih =>
    have hplay : s.play (first :: rest) = (s.turn first).play rest := rfl
    rw [List.cons_append, lastSaved?, ih, lastSaved?, hplay]
    split
    · rw [Option.some_or]
    · rfl

/-- **The file is left alone**: it is the same file as before, and the session has come to an end only if
it had before. -/
structure LeftAlone (s t : Session) : Prop where
  file : s.client.SameFile t.client
  ending : t.stage.ending? = s.stage.ending?

namespace LeftAlone

theorem refl (s : Session) : LeftAlone s s := ⟨.refl s.client, rfl⟩

theorem toMenu (hopen : s.stage.ending? = none) {c : Client} (hc : s.client.SameFile c)
    (shown : List Shown) : LeftAlone s ((s.withClient c).toMenu shown).1 :=
  ⟨hc, hopen.symm⟩

theorem ask (hopen : s.stage.ending? = none) {stage : Stage} (hstage : stage.ending? = none)
    (question : Text) : LeftAlone s (s.ask stage question).1 :=
  ⟨.refl s.client, hstage.trans hopen.symm⟩

end LeftAlone

section Handlers

variable (hopen : s.stage.ending? = none)
include hopen

theorem leftAlone_nameGiven (name : Text) : LeftAlone s (s.nameGiven name).1 := by
  unfold nameGiven
  split
  · exact .toMenu hopen (.refl s.client) _
  · exact .ask hopen rfl _

theorem leftAlone_valueGiven (a : Address) (answer : Text) :
    LeftAlone s (s.valueGiven a answer).1 := by
  unfold valueGiven
  split
  · exact .toMenu hopen (.refl s.client) _
  · split
    · exact .toMenu hopen (.refl s.client) _
    · rename_i outcome ho
      exact .toMenu hopen (Client.sameFile_set ho) _

theorem leftAlone_resetGiven (name : Text) : LeftAlone s (s.resetGiven name).1 := by
  unfold resetGiven
  split
  · exact .toMenu hopen (.refl s.client) _
  · split
    · exact .toMenu hopen (.refl s.client) _
    · exact .toMenu hopen (Client.sameFile_take s.client _) _

theorem leftAlone_sectionGiven (answer : Text) : LeftAlone s (s.sectionGiven answer).1 := by
  unfold sectionGiven
  dsimp only
  split
  · exact .ask hopen rfl _
  · exact .ask hopen rfl _

theorem leftAlone_confirmationGiven (confirmed : Bool) :
    LeftAlone s (s.confirmationGiven confirmed).1 := by
  unfold confirmationGiven
  split
  · exact .toMenu hopen (.refl s.client) _
  · dsimp only
    split
    · exact .toMenu hopen (Client.sameFile_reload s.client) _
    · exact .toMenu hopen (Client.sameFile_reload s.client) _

end Handlers

theorem leftAlone_answer (s : Session) (line : Text) : LeftAlone s (s.answer line).1 := by
  unfold answer
  cases hstage : s.stage with
  | settingName => exact leftAlone_nameGiven (by rw [hstage]; rfl) _
  | newValue a => exact leftAlone_valueGiven (by rw [hstage]; rfl) _ _
  | resetName => exact leftAlone_resetGiven (by rw [hstage]; rfl) _
  | sectionNumber => exact leftAlone_sectionGiven (by rw [hstage]; rfl) _
  | pause => exact .toMenu (by rw [hstage]; rfl) (.refl s.client) _
  | confirmation => exact leftAlone_confirmationGiven (by rw [hstage]; rfl) _
  | menu => exact .refl s
  | ended ending => exact .refl s

/-- A choice that is neither to save nor to end only asks a question. -/
theorem leftAlone_choose {choice : Choice} (h : choice ≠ .save ∧ choice ≠ .exit ∨ s.stage ≠ .menu) :
    LeftAlone s (s.choose choice).1 := by
  unfold choose
  split
  · rename_i hmenu
    have hopen : s.stage.ending? = none := by rw [hmenu]; rfl
    obtain ⟨hsave, hexit⟩ := h.resolve_right (not_not_intro hmenu)
    cases choice with
    | save => exact absurd rfl hsave
    | exit => exact absurd rfl hexit
    | _ => exact .ask hopen rfl _
  · exact .refl s

/-- **What a turn can do**: save, or end the session, each where the menu is shown and it is chosen, or
leave the file alone. -/
theorem turn_cases (s : Session) (turn : Turn) :
    (turn = .given (.choice .save) ∧ s.stage = .menu ∧ s.turn turn = s.save.1) ∨
      (turn = .given (.choice .exit) ∧ s.stage = .menu ∧ s.turn turn = s.exit.1) ∨
      (s.saves turn = false ∧ LeftAlone s (s.turn turn)) := by
  cases turn with
  | reported => exact Or.inr (Or.inr ⟨rfl, Client.sameFile_fileChanged s.client, rfl⟩)
  | given input =>
    cases input with
    | answer line => exact Or.inr (Or.inr ⟨rfl, leftAlone_answer s line⟩)
    | choice choice =>
      by_cases hmenu : s.stage = .menu
      · cases choice with
        | save =>
          refine Or.inl ⟨rfl, hmenu, ?_⟩
          simp only [turn, receive, choose, hmenu]
        | exit =>
          refine Or.inr (Or.inl ⟨rfl, hmenu, ?_⟩)
          simp only [turn, receive, choose, hmenu]
        | _ => exact Or.inr (Or.inr ⟨rfl, leftAlone_choose (Or.inl (by decide))⟩)
      · refine Or.inr (Or.inr ⟨?_, leftAlone_choose (Or.inr hmenu)⟩)
        cases choice with
        | save => simp [saves, hmenu]
        | _ => rfl

/-! ## While the session goes on -/

/-- A session that has not ended goes on, unless its end is chosen. -/
theorem isOpen_of_turn {turn : Turn} (h : (s.turn turn).stage.ending? = none) :
    s.stage.ending? = none := by
  rcases turn_cases s turn with ⟨-, hmenu, -⟩ | ⟨-, hmenu, -⟩ | ⟨-, halone⟩
  · rw [hmenu]
    rfl
  · rw [hmenu]
    rfl
  · rw [← halone.ending, h]

theorem isOpen_of_play {turns : List Turn} (h : (s.play turns).stage.ending? = none) :
    s.stage.ending? = none := by
  induction turns generalizing s with
  | nil => exact h
  | cons turn rest ih => exact isOpen_of_turn (ih h)

theorem client_save (s : Session) : s.save.1.client = s.client.save.1 := by
  unfold save
  split
  · rename_i saved hsave
    rw [hsave]
    rfl
  · rename_i unsaved fault hsave
    rw [hsave]
    rfl

theorem exit_eq (s : Session) :
    s.exit.1.client = s.client.shutdown.1 ∧
      (s.exit.1.stage = .ended .chosen ↔ s.client.shutdown.2 = .ok ()) ∧
      s.exit.1.stage.ending? ≠ none := by
  unfold exit
  rcases s.client.shutdown with ⟨client, fault | ⟨⟩⟩
  · exact ⟨rfl, iff_of_false (fun h => by cases h) (fun h => by cases h), fun h => by cases h⟩
  · exact ⟨rfl, iff_of_true rfl rfl, fun h => by cases h⟩

/-- **What a turn that does not end the session makes of the file.** -/
theorem kept_turn {turn : Turn} (h : s.client.kept = .ok text)
    (hopen : (s.turn turn).stage.ending? = none) :
    (s.turn turn).client.kept = .ok (if s.saves turn then s.client.rendered else text) ∧
      (s.turn turn).client.file = s.client.file := by
  rcases turn_cases s turn with ⟨rfl, hmenu, hturn⟩ | ⟨-, -, hturn⟩ | ⟨hsaves, halone⟩
  · have hsaves : s.saves (.given (.choice .save)) = s.client.canSave := by simp [saves, hmenu]
    rw [hturn, client_save, hsaves]
    exact ⟨Client.kept_save h, (Client.save_eq s.client).2⟩
  · rw [hturn] at hopen
    exact absurd hopen (exit_eq s).2.2
  · rw [hsaves, if_neg Bool.false_ne_true]
    exact ⟨halone.file.kept.trans h, halone.file.file⟩

/-- **What is in the file while the session goes on**: what was saved last, or else what was in it at
the beginning. -/
theorem kept_play {turns : List Turn} (h : s.client.kept = .ok text)
    (hopen : (s.play turns).stage.ending? = none) :
    (s.play turns).client.kept = .ok (((s.lastSaved? turns).map fun store =>
        Document.render s.client.file.name store.blocks).getD text) ∧
      (s.play turns).client.file = s.client.file := by
  induction turns using List.reverseRecOn with
  | nil => exact ⟨h, rfl⟩
  | append_singleton turns turn ih =>
    rw [play_concat] at hopen ⊢
    obtain ⟨hkept, hfile⟩ := ih (isOpen_of_turn hopen)
    obtain ⟨hturn, hsame⟩ := kept_turn hkept hopen
    refine ⟨?_, hsame.trans hfile⟩
    rw [hturn, lastSaved?_concat]
    split
    · rw [Client.rendered, hfile]
      rfl
    · rfl

/-! ## The end -/

/-- When the end has been chosen, nothing happens any more. -/
theorem play_of_gone (hend : s.stage = .ended .chosen) (hwatch : s.client.isWatching = false)
    (turns : List Turn) : s.play turns = s := by
  have hturn : ∀ turn, s.turn turn = s := by
    rintro (⟨choice | line⟩ | _)
    · simp only [turn, receive, choose, hend]
    · simp only [turn, receive, answer, hend]
    · rw [turn, fileChanged, Client.fileChanged_of_not_isWatching hwatch]
      rfl
  induction turns with
  | nil => rfl
  | cons turn rest ih =>
    have hplay : s.play (turn :: rest) = (s.turn turn).play rest := rfl
    rw [hplay, hturn, ih]

/-- **A session that has come to its end by choice** has come to it where the menu was shown, and has
stayed there. -/
theorem exists_exit {turns : List Turn} (hbegin : s.stage.ending? ≠ some .chosen)
    (hend : (s.play turns).stage = .ended .chosen) :
    ∃ before after, turns = before ++ .given (.choice .exit) :: after ∧
      (s.play before).stage = .menu ∧ (s.play before).exit.1.stage = .ended .chosen ∧
      s.play turns = (s.play before).exit.1.play after := by
  induction turns using List.reverseRecOn with
  | nil => exact absurd (congrArg Stage.ending? hend) hbegin
  | append_singleton turns turn ih =>
    rw [play_concat] at hend ⊢
    rcases turn_cases (s.play turns) turn with ⟨-, -, hturn⟩ | ⟨rfl, hmenu, hturn⟩ | ⟨-, halone⟩
    · -- saving comes back to the menu
      rw [hturn, save] at hend
      split at hend <;> cases hend
    · exact ⟨turns, [], rfl, hmenu, hturn ▸ hend, hturn⟩
    · have hended : (s.play turns).stage.ending? = some .chosen := by
        rw [← halone.ending, hend]
        rfl
      have hchosen : (s.play turns).stage = .ended .chosen := by
        revert hended
        cases (s.play turns).stage <;> simp [Stage.ending?]
      obtain ⟨before, after, rfl, hmenu, hexit, hplay⟩ := ih hchosen
      refine ⟨before, after ++ [turn], by simp, hmenu, hexit, ?_⟩
      rw [hplay, play_concat]

/-- **What is in the file at the end.** -/
theorem kept_exit (h : s.client.kept = .ok text) (hend : s.exit.1.stage = .ended .chosen) :
    s.exit.1.client.kept =
        .ok (if s.client.isOn Catalogue.saveOnExit then s.client.rendered else text) ∧
      s.exit.1.client.store = s.client.store ∧ s.exit.1.client.isWatching = false := by
  obtain ⟨hclient, hchosen, -⟩ := exit_eq s
  have hok := hchosen.mp hend
  have hcan : s.client.isOn Catalogue.saveOnExit = true → s.client.canSave = true := by
    intro hon
    rw [Client.result_shutdown, if_pos hon] at hok
    rw [Client.canSave, hok]
    rfl
  rw [hclient, Client.kept_shutdown h, Client.shutdown_eq, ← Client.canSave]
  cases hon : s.client.isOn Catalogue.saveOnExit with
  | false => exact ⟨rfl, rfl, Client.isWatching_dispose _⟩
  | true =>
    rw [hcan hon, if_pos rfl, if_pos rfl]
    exact ⟨rfl, (Client.save_eq s.client).1, Client.isWatching_dispose _⟩

/-! ## The beginning -/

/-- **What is in the file when the menu is first shown**: what was in it, or the store if there was no
file. -/
theorem start_cases (c : Client) (terminal : Bool) :
    (∃ fault, (start c terminal).1.stage = .ended (.failed fault)) ∨
      (start c terminal).1.stage = .menu ∧ (start c terminal).1.client.file = c.file ∧
        ∃ text, (start c terminal).1.client.kept = .ok text ∧
          (c.kept = .ok text ∨ c.kept = .error (.notFound c.file.path) ∧ text = c.rendered) := by
  have hfile := (Client.read_readFrom c).1
  cases hresult : c.read.result with
  | error fault =>
    refine Or.inl ⟨fault, ?_⟩
    rw [start]
    simp only [hresult]
    rfl
  | ok result =>
    have hstart : (start c terminal).1 = ⟨c.read.client, terminal, .menu⟩ := by
      rw [start]
      cases result <;> simp only [hresult] <;> rfl
    rw [hstart]
    exact Or.inr ⟨rfl, hfile, Client.kept_read hresult⟩

/-- **What a session leaves in the file**, if it has come to its end by choice.  When the menu was first
shown, there was a text in the file, the one that had been there, or the default store if there was no
file.  From then on until the end was chosen, no turn but a save that succeeded changed it.  At the end
it is the store of the session, if the setting for it was on when the end was chosen, and else the
store that was saved last, if any was. -/
theorem kept_throughout (file : PreferenceFile) (watched terminal : Bool) (disk : Disk) (now : Int)
    (turns : List Turn)
    (hend : ((start (Client.start file watched disk Console.buffers now) terminal).1.play turns).stage =
      .ended .chosen) :
    let s := (start (Client.start file watched disk Console.buffers now) terminal).1
    ∃ text before after,
      (file.readText disk = .ok text ∨ file.readText disk = .error (.notFound file.path) ∧
        text = Document.render file.name Catalogue.freshStore.blocks) ∧
      s.stage = .menu ∧ s.client.kept = .ok text ∧
      turns = before ++ .given (.choice .exit) :: after ∧ (s.play before).stage = .menu ∧
      (∀ first turn, first ++ [turn] <+: before → (s.play first).saves turn = false →
        (s.play (first ++ [turn])).client.kept = (s.play first).client.kept) ∧
      (s.play turns).client.kept = .ok
        (if (s.play before).client.isOn Catalogue.saveOnExit then
          Document.render file.name (s.play turns).client.store.blocks
        else
          ((s.lastSaved? before).map fun store =>
            Document.render file.name store.blocks).getD text) := by
  intro s
  have hstart := start_cases (Client.start file watched disk Console.buffers now) terminal
  have hbegin : s.stage.ending? ≠ some .chosen := by
    rcases hstart with ⟨fault, hfailed⟩ | ⟨hmenu, -⟩
    · exact fun h => by simp [s, hfailed, Stage.ending?] at h
    · exact fun h => by simp [s, hmenu, Stage.ending?] at h
  obtain ⟨before, after, hturns, hmenu, hexit, hplay⟩ := exists_exit hbegin hend
  have hopen : (s.play before).stage.ending? = none := by rw [hmenu]; rfl
  rcases hstart with ⟨fault, hfailed⟩ | ⟨hfirst, hfile, text, hkept, hcase⟩
  · -- a session that has failed does not come to the menu
    have hnone := isOpen_of_play hopen
    simp [s, hfailed, Stage.ending?] at hnone
  · simp only [Client.kept, Client.rendered, Client.start] at hcase
    refine ⟨text, before, after, hcase, hfirst, hkept, hturns, hmenu,
      fun first turn hprefix hsaves => ?_, ?_⟩
    · obtain ⟨rest, rfl⟩ := hprefix
      rw [play_append] at hopen
      have hnext := isOpen_of_play hopen
      rw [play_concat] at hnext ⊢
      obtain ⟨hbefore, -⟩ := kept_play hkept (isOpen_of_turn hnext)
      rw [(kept_turn hbefore hnext).1, hsaves, hbefore]
      rfl
    · obtain ⟨hlast, hname⟩ := kept_play hkept hopen
      obtain ⟨hleft, hstore, hwatch⟩ := kept_exit hlast hexit
      have hgone : s.play turns = (s.play before).exit.1 := by rw [hplay, play_of_gone hexit hwatch]
      rw [hgone, hleft, hstore, Client.rendered, hname, hfile]
      rfl

/-- Somebody turns off saving at the end, saves, and sets a text after that. -/
def unsavedTurns : List Turn := [
  .given (.choice .setOption),
  .given (.answer "look_save_on_exit"),
  .given (.answer "off"),
  .given (.choice .save),
  .reported,
  .given (.choice .setOption),
  .given (.answer "look.look_slogan"),
  .given (.answer "unsaved"),
  .given (.choice .exit)]

/-- At the end the file has what was saved, and not what was set after that. -/
theorem kept_throughout_unsaved :
    let file : PreferenceFile := ⟨"parley.conf", 1⟩
    let s := (start (Client.start file true (Disk.fresh []) Console.buffers 0) false).1
    (s.play unsavedTurns).stage = .ended .chosen ∧
      (s.play unsavedTurns).client.textAt ⟨"look", "look_slogan"⟩ = "unsaved".toList ∧
      ∃ store, s.lastSaved? unsavedTurns.dropLast = some store ∧
        (s.play unsavedTurns).client.kept = .ok (Document.render file.name store.blocks) := by
  intro file s
  have hplayed : (s.play unsavedTurns).stage = .ended .chosen ∧
      (s.play unsavedTurns).client.textAt ⟨"look", "look_slogan"⟩ = "unsaved".toList ∧
      (s.play unsavedTurns.dropLast).client.isOn Catalogue.saveOnExit = false ∧
      (s.lastSaved? unsavedTurns.dropLast).isSome := by
    decide +kernel
  obtain ⟨hend, hslogan, hoff, hsaved⟩ := hplayed
  obtain ⟨store, hstore⟩ := Option.isSome_iff_exists.mp hsaved
  refine ⟨hend, hslogan, store, hstore, ?_⟩
  obtain ⟨text, before, after, -, -, -, hturns, -, -, hkept⟩ :=
    kept_throughout file true false (Disk.fresh []) 0 unsavedTurns hend
  -- the end is chosen once
  have honce : before = unsavedTurns.dropLast ∧ after = [] := by
    simpa [unsavedTurns, List.cons_eq_append_iff] using hturns
  rw [honce.1, hoff, if_neg Bool.false_ne_true, hstore] at hkept
  exact hkept

end Session

end ChatPreferences
