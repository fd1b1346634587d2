import ChatPreferences.Calendar.Pattern
import ChatPreferences.DayNotice.Habit
import ChatPreferences.Proofs.DayNotice.Coherence

/-!
# Whom a firing reaches

A firing prints on the formatted buffers that are open when it begins.  Between two of its prints
anything may happen: the buffer that has printed may fail, turn the notice off and on, and start
firings of its own, which print on whatever buffers are open by then, and in which the same may happen
again.  What is seen of all this is one list of messages, in which the prints of one firing lie
scattered among those of the firings within it.

The prints are told apart here by the firings that are in progress around them.  A firing that has
begun owns what is shown until it ends, apart from what is shown while another one is in progress
within it.  Counted like this, each firing reaches its buffers one after the other, once each, and
reaches nobody else.

* `OpenBuffer`, `Prints.onto` — the buffers that are open, and the prints of a firing on them.
* `Scene`, `Scene.fire` — what a firing depends on, and a firing; `Reactions.run_fireIn` says that
  firings within a firing are no different, and `NoticeBoard.fire_eq_scene_fire` that buffers of fixed
  habits are reached in the same way.
* `ownShows`, `showsOfEach` — what a firing shows itself; the same for each firing in a list.
* `Prints.ownShows_occurrences` — **what a firing shows itself are its own prints**, whatever the
  buffers do.
* `Prints.shownIn_run` — what is shown in all is what each firing shows itself.
* `Scene.fire_reaches` — **a firing fails before it begins, or reaches each formatted buffer
  once**.
-/

namespace ChatPreferences

/-! ## Firings on open buffers -/

/-- A buffer that is open when a firing begins, and what it does when it has printed. -/
structure OpenBuffer where
  name : Text
  kind : BufferKind
  reactions : Reactions

/-- **The prints of a firing** on open buffers: one on each that is formatted. -/
def Prints.onto : List OpenBuffer → Prints
  | [] => .done
  | buffer :: rest =>
    match buffer.kind with
    | .formatted => .print buffer.name buffer.reactions (Prints.onto rest)
    | .free => Prints.onto rest

/-- **What a firing depends on**: the date, if the present moment has one, the pattern that it is shown
in, and the buffers that are open. -/
structure Scene where
  date : Option Date
  pattern : Text
  opened : List OpenBuffer

namespace Scene

/-- The names of the formatted buffers, in their order. -/
def formatted (scene : Scene) : List Text :=
  (scene.opened.filter (·.kind = .formatted)).map (·.name)

/-- **A firing in a scene.**  A date that cannot be shown is a fault, and nothing happens. -/
def fire (scene : Scene) (notice : DayNotice) : RunOutcome DayNotice NoticeEvent InvalidTime :=
  match Pattern.format scene.date scene.pattern with
  | .error fault => ⟨notice, [], some fault⟩
  | .ok text =>
    let (after, seen) := notice.fire (some text) (Prints.onto scene.opened)
    ⟨after, seen, none⟩

end Scene

/-- A buffer starts a firing in a scene. -/
def Reactions.fireIn (scene : Scene) (next : Reactions) : Reactions :=
  .fire (Pattern.format scene.date scene.pattern).toOption (Prints.onto scene.opened) next

/-- **A firing that a buffer starts** is one like all others.  With its fault the buffer fails. -/
theorem Reactions.run_fireIn (scene : Scene) (next : Reactions) (notice : DayNotice) :
    (Reactions.fireIn scene next).run notice =
      let fired := scene.fire notice
      match fired.fault with
      | some _ => (fired.state, fired.seen)
      | none =>
        let (after, seen) := next.run fired.state
        (after, fired.seen ++ .observed fired.state.isArmed :: seen) := by
  rw [Reactions.fireIn, Scene.fire]
  cases Pattern.format scene.date scene.pattern with
  | error fault => rfl
  | ok text => rfl

/-! ### Buffers of fixed habits -/

/-- A buffer of fixed habits that is open, where `inner` is what a step that starts a firing stands
for. -/
def Habit.opened (inner : Reactions → Reactions) (habit : Habit) : OpenBuffer :=
  ⟨habit.name, habit.kind, Habit.reactions inner habit.steps⟩

theorem Habit.printsWith_eq_onto (inner : Reactions → Reactions) (habits : List Habit) :
    Habit.printsWith inner habits = Prints.onto (habits.map (Habit.opened inner)) := by
  induction habits with
  | nil => rfl
  | cons habit rest ih =>
    rw [Habit.printsWith, List.map_cons, Prints.onto, ih]
    rfl

/-- The scene that a board makes.  A firing that one of its buffers starts is on the same date. -/
def NoticeBoard.scene (board : NoticeBoard) : Scene where
  date := board.date
  pattern := board.pattern
  opened :=
    let text := (Pattern.format board.date board.pattern).toOption
    board.habits.map (Habit.opened (.fire text (Habit.printsWith .other board.habits)))

/-- **Buffers of fixed habits** are reached by a firing like all others. -/
theorem NoticeBoard.fire_eq_scene_fire (board : NoticeBoard) (notice : DayNotice) :
    board.fire notice = board.scene.fire notice := by
  rw [NoticeBoard.fire, Scene.fire, NoticeBoard.scene]
  cases Pattern.format board.date board.pattern with
  | error fault => rfl
  | ok text =>
    dsimp only
    rw [Habit.prints, Habit.printsWith_eq_onto (.fire (some text) _)]
    rfl

/-! ## What a firing shows itself -/

/-- **What a firing shows itself**, in the occurrences from its beginning on, while `depth` other
firings are in progress within it. -/
def ownShows : (depth : Nat) → List Occurrence → List (Text × Text)
  | _, [] => []
  | depth, o :: rest =>
    match o, depth with
    | .began, depth => ownShows (depth + 1) rest
    | .ended, 0 => []
    | .ended, depth + 1 => ownShows depth rest
    | .shown buffer message, 0 => (buffer, message) :: ownShows 0 rest
    | _, depth => ownShows depth rest

/-- What each firing shows itself that begins among some occurrences. -/
def showsOfEach : List Occurrence → List (List (Text × Text))
  | [] => []
  | .began :: rest => ownShows 0 rest :: showsOfEach rest
  | _ :: rest => showsOfEach rest

/-- The buffers that a firing prints on. -/
def Prints.buffers : Prints → List Text
  | .done => []
  | .print buffer _ next => buffer :: next.buffers

/-- The buffers that are printed on are those that are formatted. -/
theorem Prints.buffers_onto (opened : List OpenBuffer) :
    (Prints.onto opened).buffers = (opened.filter (·.kind = .formatted)).map (·.name) := by
  induction opened with
  | nil => rfl
  | cons buffer rest ih =>
    rw [Prints.onto]
    cases hkind : buffer.kind with
    | formatted => simp [Prints.buffers, hkind, ih]
    | free => simp [hkind, ih]

/-- A firing that has a text to show. -/
structure Firing where
  text : Text
  prints : Prints

/-- What a firing is to show, on each of its buffers: that the day has changed to its date. -/
def Firing.shows (firing : Firing) : List (Text × Text) :=
  firing.prints.buffers.map (·, "Day changed to ".toList ++ firing.text)

mutual

/-- The firings that a buffer starts, and those within them, as they begin. -/
def Reactions.firings : Reactions → List Firing
  | .done => []
  | .fail => []
  | .apply _ next => next.firings
  | .other next => next.firings
  | .fire none _ _ => []
  | .fire (some text) prints next => ⟨text, prints⟩ :: (prints.firings ++ next.firings)

/-- The firings within a firing, as they begin. -/
def Prints.firings : Prints → List Firing
  | .done => []
  | .print _ reactions next => reactions.firings ++ next.firings

end

mutual

/-- A firing owns nothing of what comes of the reactions to one of its prints. -/
theorem Reactions.ownShows_occurrences : ∀ (reactions : Reactions) (depth : Nat)
    (rest : List Occurrence), ownShows depth (reactions.occurrences ++ rest) = ownShows depth rest
  | .done, _, _ => rfl
  | .fail, _, _ => rfl
  | .apply _ next, depth, rest => next.ownShows_occurrences depth rest
  | .other next, depth, rest => next.ownShows_occurrences depth rest
  | .fire none _ _, _, _ => rfl
  | .fire (some text) prints next, depth, rest =>
    calc ownShows depth ((Reactions.fire (some text) prints next).occurrences ++ rest)
      _ = ownShows (depth + 1) (prints.occurrences text ++ .ended :: (next.occurrences ++ rest)) := by
        rw [Reactions.occurrences, List.cons_append, List.append_assoc, List.cons_append]
        rfl
      _ = ownShows (depth + 1) (.ended :: (next.occurrences ++ rest)) :=
        prints.ownShows_within text depth _
      _ = ownShows depth rest := next.ownShows_occurrences depth rest

/-- A firing owns nothing of the prints of a firing within it. -/
theorem Prints.ownShows_within (text : Text) : ∀ (prints : Prints) (depth : Nat)
    (rest : List Occurrence),
    ownShows (depth + 1) (prints.occurrences text ++ rest) = ownShows (depth + 1) rest
  | .done, _, _ => rfl
  | .print buffer reactions next, depth, rest => by
      rw [Prints.occurrences, List.cons_append, List.append_assoc]
      exact (reactions.ownShows_occurrences (depth + 1) _).trans (next.ownShows_within text depth rest)

end

/-- **What a firing shows itself are its own prints**, in their order, whatever the buffers do. -/
theorem Prints.ownShows_occurrences (text : Text) (prints : Prints) (rest : List Occurrence) :
    ownShows 0 (prints.occurrences text ++ rest) =
      (Firing.mk text prints).shows ++ ownShows 0 rest := by
  match prints with
  | .done => rfl
  | .print buffer reactions next =>
    calc ownShows 0 ((Prints.print buffer reactions next).occurrences text ++ rest)
      _ = (buffer, DayNotice.message text) ::
          ownShows 0 (reactions.occurrences ++ (next.occurrences text ++ rest)) := by
        rw [Prints.occurrences, List.cons_append, List.append_assoc]
        rfl
      _ = (buffer, DayNotice.message text) :: ((Firing.mk text next).shows ++ ownShows 0 rest) := by
        rw [reactions.ownShows_occurrences, next.ownShows_occurrences]
      _ = (Firing.mk text (.print buffer reactions next)).shows ++ ownShows 0 rest := rfl

/-! ### Each of the firings -/

mutual

/-- Each firing that a buffer starts shows its own prints itself. -/
theorem Reactions.showsOfEach_occurrences : ∀ (reactions : Reactions) (rest : List Occurrence),
    showsOfEach (reactions.occurrences ++ rest) =
      reactions.firings.map Firing.shows ++ showsOfEach rest
  | .done, _ => rfl
  | .fail, _ => rfl
  | .apply _ next, rest => next.showsOfEach_occurrences rest
  | .other next, rest => next.showsOfEach_occurrences rest
  | .fire none _ _, _ => rfl
  | .fire (some text) prints next, rest => by
      let ended := Occurrence.ended :: (next.occurrences ++ rest)
      have hown : ownShows 0 (prints.occurrences text ++ ended) = (Firing.mk text prints).shows := by
        rw [prints.ownShows_occurrences]
        exact List.append_nil _
      calc showsOfEach ((Reactions.fire (some text) prints next).occurrences ++ rest)
        _ = ownShows 0 (prints.occurrences text ++ ended) ::
            showsOfEach (prints.occurrences text ++ ended) := by
          rw [Reactions.occurrences, List.cons_append, List.append_assoc, List.cons_append]
          rfl
        _ = (Firing.mk text prints).shows :: (prints.firings.map Firing.shows ++
            (next.firings.map Firing.shows ++ showsOfEach rest)) := by
          rw [hown, prints.showsOfEach_occurrences text, ← next.showsOfEach_occurrences]
          rfl
        _ = (Reactions.fire (some text) prints next).firings.map Firing.shows ++
            showsOfEach rest := by
          rw [Reactions.firings, List.map_cons, List.map_append, List.cons_append, List.append_assoc]

/-- Each firing within a firing shows its own prints itself. -/
theorem Prints.showsOfEach_occurrences (text : Text) : ∀ (prints : Prints) (rest : List Occurrence),
    showsOfEach (prints.occurrences text ++ rest) =
      prints.firings.map Firing.shows ++ showsOfEach rest
  | .done, _ => rfl
  | .print buffer reactions next, rest => by
      rw [Prints.occurrences, List.cons_append, List.append_assoc, Prints.firings, List.map_append,
        List.append_assoc, ← next.showsOfEach_occurrences text, ← reactions.showsOfEach_occurrences]
      rfl

end

/-! ## What is shown in all -/

/-- The messages among what is seen, with their buffers. -/
def shownIn (seen : List NoticeEvent) : List (Text × Text) :=
  seen.filterMap fun
    | .shown buffer message => some (buffer, message)
    | .observed _ => none

theorem shownIn_append (xs ys : List NoticeEvent) :
    shownIn (xs ++ ys) = shownIn xs ++ shownIn ys :=
  List.filterMap_append

theorem Prints.shownIn_run_print (text buffer : Text) (reactions : Reactions) (next : Prints)
    (notice : DayNotice) :
    shownIn ((Prints.print buffer reactions next).run text notice).2 =
      (buffer, DayNotice.message text) :: (shownIn (reactions.run notice).2 ++
        shownIn (next.run text (reactions.run notice).1).2) :=
  congrArg (List.cons _) (shownIn_append _ _)

mutual

/-- **What is shown in all** after a print is what each firing shows itself that its buffer starts. -/
theorem Reactions.shownIn_run : ∀ (reactions : Reactions) (notice : DayNotice),
    (shownIn (reactions.run notice).2).Perm (reactions.firings.flatMap Firing.shows)
  | .done, _ => .nil
  | .fail, _ => .nil
  | .apply on next, notice => next.shownIn_run (notice.apply on)
  | .other next, notice => next.shownIn_run notice
  | .fire none _ _, _ => .nil
  | .fire (some text) prints next, notice => by
      let fired := (prints.run text notice.beginFiring).1.endFiring
      have hrun : shownIn ((Reactions.fire (some text) prints next).run notice).2 =
          shownIn (prints.run text notice.beginFiring).2 ++ shownIn (next.run fired).2 :=
        shownIn_append _ _
      rw [hrun, Reactions.firings, List.flatMap_cons, List.flatMap_append, ← List.append_assoc]
      exact (prints.shownIn_run text notice.beginFiring).append (next.shownIn_run fired)

/-- **What is shown in all** in a firing is what it shows itself, and what each firing shows itself
within it. -/
theorem Prints.shownIn_run (text : Text) : ∀ (prints : Prints) (notice : DayNotice),
    (shownIn (prints.run text notice).2).Perm
      ((Firing.mk text prints).shows ++ prints.firings.flatMap Firing.shows)
  | .done, _ => .nil
  | .print buffer reactions next, notice => by
      let reacted := (reactions.run notice).1
      rw [Prints.shownIn_run_print, Prints.firings, List.flatMap_append]
      refine .cons _ (((reactions.shownIn_run notice).append (next.shownIn_run text reacted)).trans ?_)
      -- the firings within come before the prints that are left, and are put behind them
      exact List.perm_append_comm_assoc _ _ _

end

/-- **A firing fails before it begins, or reaches each formatted buffer once**, whatever the state of the
schedule, the buffers that are open, and what each of them does.

If the date cannot be shown, nothing is printed and the schedule stays as it is.  Else there is no
fault, and all that happens is a list of occurrences: what the schedule comes to is where they lead,
and what is seen is what is seen along them.  In that list the firing itself shows `Day changed to ` and
the text on each buffer that was formatted when it began, in the order of the buffers, once each; so
does each of the firings within it, with its own text and on its own buffers; and nothing is shown that
is not shown by one of them.  To dispose of the schedule is to turn the notice off. -/
theorem Scene.fire_reaches (scene : Scene) (notice : DayNotice) :
    match Pattern.format scene.date scene.pattern with
    | .error fault => scene.fire notice = ⟨notice, [], some fault⟩
    | .ok text =>
      let prints := Prints.onto scene.opened
      let occurrences := prints.occurrences text
      let own := scene.formatted.map (·, "Day changed to ".toList ++ text)
      scene.fire notice =
          ⟨(occurrences.foldl DayNotice.after notice.beginFiring).endFiring,
            seenAlong notice.isArmed occurrences, none⟩ ∧
        ownShows 0 occurrences = own ∧
        showsOfEach occurrences = prints.firings.map Firing.shows ∧
        (shownIn (scene.fire notice).seen).Perm (own ++ prints.firings.flatMap Firing.shows) := by
  cases hformat : Pattern.format scene.date scene.pattern with
  | error fault =>
    show scene.fire notice = _
    rw [Scene.fire, hformat]
  | ok text =>
    dsimp -zeta only
    intro prints occurrences own
    have hfire : scene.fire notice = ⟨(prints.run text notice.beginFiring).1.endFiring,
        (prints.run text notice.beginFiring).2, none⟩ := by
      rw [Scene.fire, hformat]
      rfl
    have hown : (Firing.mk text prints).shows = own :=
      congrArg (List.map _) (Prints.buffers_onto scene.opened)
    refine ⟨?_, ?_, ?_, ?_⟩
    · rw [hfire, prints.run_eq, prints.seen_eq]
      rfl
    · have hprints := prints.ownShows_occurrences text []
      rw [List.append_nil] at hprints
      exact (hprints.trans (List.append_nil _)).trans hown
    · have heach := prints.showsOfEach_occurrences text []
      rw [List.append_nil] at heach
      exact heach.trans (List.append_nil _)
    · rw [hfire, ← hown]
      exact prints.shownIn_run text notice.beginFiring

namespace Scene

/-- A firing that shows the day, on two buffers of which the first one fails. -/
def ofTheDay : Scene where
  date := Moment.date? 0
  pattern := "%d"
  opened := [⟨"core", .formatted, .fail⟩, ⟨"side", .formatted, .done⟩]

/-- A firing that shows the year, on two buffers and beside one that is not formatted.  The first one
turns the notice off, starts a firing that shows the day, and fails. -/
def ofTheYear : Scene where
  date := Moment.date? 0
  pattern := "%Y"
  opened := [⟨"core", .formatted, .apply false (Reactions.fireIn ofTheDay .fail)⟩,
    ⟨"raw", .free, .done⟩, ⟨"log", .formatted, .done⟩]

/-- Either firing reaches its two buffers, though the first one fails, and though the other firing
comes between. -/
theorem fire_reaches_ofTheYear :
    let notice := (DayNotice.initial .ideal DayNotice.dayPeriod).apply true
    let occurrences := (Prints.onto ofTheYear.opened).occurrences "1970"
    let fired := ofTheYear.fire notice
    notice.isArmed = true ∧
      ownShows 0 occurrences =
        ([("core", "Day changed to 1970"), ("log", "Day changed to 1970")] : List (Text × Text)) ∧
      showsOfEach occurrences =
        [([("core", "Day changed to 01"), ("side", "Day changed to 01")] : List (Text × Text))] ∧
      (shownIn fired.seen).Perm
        ([("core", "Day changed to 1970"), ("log", "Day changed to 1970"),
          ("core", "Day changed to 01"), ("side", "Day changed to 01")] : List (Text × Text)) ∧
      shownIn fired.seen =
        ([("core", "Day changed to 1970"), ("core", "Day changed to 01"), ("side", "Day changed to 01"),
          ("log", "Day changed to 1970")] : List (Text × Text)) ∧
      fired.state.isArmed = false ∧ fired.fault = none := by
  intro notice occurrences fired
  have hreaches := fire_reaches ofTheYear notice
  have hformat : Pattern.format ofTheYear.date ofTheYear.pattern = .ok "1970" := rfl
  rw [hformat] at hreaches
  obtain ⟨hfired, hown, heach, hshown⟩ := hreaches
  refine ⟨by decide +kernel, hown.trans (by decide), heach.trans (by decide),
    hshown.trans (.of_eq (by decide)), by decide +kernel, by decide +kernel, ?_⟩
  exact congrArg RunOutcome.fault hfired

end Scene

end ChatPreferences
