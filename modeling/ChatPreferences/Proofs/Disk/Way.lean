import ChatPreferences.Proofs.Disk.Failing

/-!
# Where plain paths lead

The path of a file is followed through folders, and the folders on its way are made first if they are
missing.  For a path that is made of plain names, without `.` and `..` and without a slash at the end,
it can be said at once where it leads, and whether the folders can be made: its place is where the path
begins, and the names behind it; and no file may stand where a folder is needed.  The folder of such a
path is found by the text of the path alone, and has the same names but for the last one.

* `Path.Plain`, `Path.Plain.folderOf` — plain paths, and the paths of their folders.
* `Node.follow_eq_ok_iff` — **where plain names lead**.
* `Node.Grown`, `Node.grown_makeWay` — making folders adds nothing but folders on the way.
* `Node.makeWay_eq_ok` — **when all folders on a way can be made**.
* `Disk.filePlace_eq_ok_iff` — the place of a plain path.
-/

namespace ChatPreferences

namespace Text.Utf8

@[simp] theorem size_nil : size [] = 0 := rfl

@[simp] theorem size_cons (c : Char) (t : Text) : size (c :: t) = c.utf8Size + size t := rfl

@[simp] theorem size_append (a b : Text) : size (a ++ b) = size a + size b := by
  induction a with
  | nil => simp
  | cons c cs ih => rw [List.cons_append, size_cons, size_cons, ih, Nat.add_assoc]

end Text.Utf8

namespace Path

/-! ## Plain paths -/

/-- **A plain path** is made of names of their own; it does not end in a slash, and it can be a path. -/
structure Plain (path : Text) : Prop where
  ne_nil : path ≠ []
  unclosed : isClosed path = false
  named : ∀ name ∈ parts path, name ≠ self ∧ name ≠ around
  possible : '\x00' ∉ path

variable {path name : Text}

/-- Nothing is cut off at the end of a path that does not end in a slash. -/
theorem dropWhile_reverse_of_unclosed (hclosed : isClosed path = false) :
    path.reverse.dropWhile (· = '/') = path.reverse := by
  cases hback : path.reverse with
  | nil => rfl
  | cons c cs =>
    have hlast : path.getLast? = some c := by rw [List.getLast?_eq_head?_reverse, hback]; rfl
    have hne : c ≠ '/' := by
      rintro rfl
      rw [isClosed, hlast] at hclosed
      cases hclosed
    exact List.dropWhile_cons_of_neg (by simpa using hne)

theorem isClosed_of_name (front : Text) (hne : name ≠ []) (hname : '/' ∉ name) :
    isClosed (front ++ name) = false := by
  rw [isClosed, List.getLast?_append_of_ne_nil _ hne]
  exact beq_eq_false_iff_ne.mpr fun hlast => hname (List.mem_of_getLast? hlast)

theorem isAbsolute_of_name (hname : '/' ∉ name) : isAbsolute name = false :=
  beq_eq_false_iff_ne.mpr fun hhead => hname (List.mem_of_mem_head? hhead)

/-- A name alone is in the folder `.`. -/
theorem folder_of_name (hne : name ≠ []) (hname : '/' ∉ name) : folder name = self := by
  have hpiece : name.reverse.dropWhile (· ≠ '/') = [] := by
    refine List.dropWhile_eq_nil_iff.mpr fun c hc => ?_
    simpa using ne_of_mem_of_not_mem (List.mem_reverse.mp hc) hname
  have hclosed : isClosed name = false := isClosed_of_name [] hne hname
  rw [folder, dropWhile_reverse_of_unclosed hclosed, hpiece, isAbsolute_of_name hname]
  rfl

/-- **The folder of a name behind a slash** is what stands before the slash, or the root. -/
theorem folder_append_name (front : Text) (hne : name ≠ []) (hname : '/' ∉ name) :
    folder (front ++ '/' :: name) = if front = [] then ['/'] else front := by
  have hclosed : isClosed (front ++ '/' :: name) = false := by
    rw [List.append_cons]
    exact isClosed_of_name _ hne hname
  have hpiece : (front ++ '/' :: name).reverse.dropWhile (· ≠ '/') = '/' :: front.reverse := by
    rw [List.reverse_append, List.reverse_cons, List.append_assoc, List.dropWhile_append_of_pos]
    · rfl
    · intro c hc
      simpa using ne_of_mem_of_not_mem (List.mem_reverse.mp hc) hname
  rw [folder, dropWhile_reverse_of_unclosed hclosed, hpiece]
  rcases List.eq_nil_or_concat front with rfl | ⟨more, c, rfl⟩
  · rfl
  · simp

/-- **A path that does not end in a slash** is a name, or ends in a name behind a slash. -/
theorem exists_name (hpath : path ≠ []) (hclosed : isClosed path = false) :
    ∃ name, name ≠ [] ∧ '/' ∉ name ∧ (path = name ∨ ∃ front, path = front ++ '/' :: name) := by
  by_cases hslash : '/' ∈ path
  · -- the last slash is the first one from the end
    obtain ⟨back, front, hback, hnone⟩ := List.eq_append_cons_of_mem (List.mem_reverse.mpr hslash)
    have heq : path = front.reverse ++ '/' :: back.reverse := by
      rw [← List.reverse_reverse path, hback]
      simp
    refine ⟨back.reverse, fun hnil => ?_, by rwa [List.mem_reverse], Or.inr ⟨_, heq⟩⟩
    rw [isClosed, heq, hnil] at hclosed
    simp at hclosed
  · exact ⟨path, hpath, hslash, Or.inl rfl⟩

theorem parts_of_name (hne : name ≠ []) (hname : '/' ∉ name) : parts name = [name] := by
  rw [parts, Text.splitOn_eq_singleton hname]
  simp [hne]

/-- A name behind a slash is the last one of a path. -/
theorem parts_append_name (front : Text) (hne : name ≠ []) (hname : '/' ∉ name) :
    parts (front ++ '/' :: name) = parts front ++ [name] := by
  rw [parts, Text.splitOn_append, List.filter_append]
  exact congrArg _ (parts_of_name hne hname)

/-- **A path fits** if the system takes it: neither it nor one of its names has too many bytes. -/
structure Fits (path : Text) : Prop where
  whole : Text.Utf8.size path ≤ longest
  names : ∀ name ∈ parts path, Text.Utf8.size name ≤ longestName

/-- What is known of the path of the folder that a path is in. -/
structure FolderOf (path folder : Text) : Prop where
  steps : (steps folder).filter (· ≠ self) = (parts path).dropLast
  upward : around ∉ Path.steps folder
  absolute : isAbsolute folder = isAbsolute path
  ne_nil : folder ≠ []
  possible : '\x00' ∉ folder
  size : Text.Utf8.size folder ≤ Text.Utf8.size path

namespace Plain

theorem parts_eq (h : Plain path) :
    ∃ before name, name ≠ [] ∧ name ≠ self ∧ name ≠ around ∧ parts path = before ++ [name] := by
  obtain ⟨before, name, hname, hparts, -⟩ :=
    parts_append h.ne_nil h.unclosed (List.not_mem_nil (a := '/'))
  obtain ⟨hself, haround⟩ := h.named name (by rw [hparts]; simp)
  exact ⟨before, name, hname, hself, haround, hparts⟩

theorem parts_ne_nil (h : Plain path) : parts path ≠ [] := by
  obtain ⟨before, name, -, -, -, hparts⟩ := h.parts_eq
  rw [hparts]
  exact List.append_ne_nil_of_right_ne_nil _ (List.cons_ne_nil _ _)

theorem steps_eq (h : Plain path) : steps path = parts path := by
  rw [steps, h.unclosed, if_neg Bool.false_ne_true, List.append_nil]

theorem endsInName (h : Plain path) : endsInName path = true := by
  obtain ⟨before, name, hname, hself, haround, hparts⟩ := h.parts_eq
  rw [Path.endsInName, isNamed, fileName, hparts, h.unclosed]
  simp [hname, hself, haround]

/-- **The folder of a plain path** is reached by its names but for the last one. -/
theorem folderOf (h : Plain path) : FolderOf path (folder path) := by
  obtain ⟨name, hne, hname, rfl | ⟨front, rfl⟩⟩ := exists_name h.ne_nil h.unclosed
  · have hsize : 1 ≤ Text.Utf8.size path := by
      obtain ⟨c, cs, rfl⟩ := List.exists_cons_of_ne_nil hne
      rw [Text.Utf8.size_cons]
      exact Nat.le_add_right_of_le c.utf8Size_pos
    rw [folder_of_name hne hname]
    refine ⟨?_, by decide, (isAbsolute_of_name hname).symm, by decide, by decide, hsize⟩
    rw [parts_of_name hne hname, List.dropLast_singleton]
    decide
  · have hparts := parts_append_name front hne hname
    rw [folder_append_name front hne hname]
    split
    · rename_i hfront
      subst hfront
      refine ⟨?_, by decide, rfl, by decide, by decide, Nat.le_add_right _ _⟩
      rw [hparts, List.dropLast_concat]
      decide
    · rename_i hfront
      have hplain : ∀ n ∈ parts front, n ≠ self ∧ n ≠ around := fun n hn =>
        h.named n (by rw [hparts]; exact List.mem_append_left _ hn)
      refine ⟨?_, ?_, ?_, hfront, fun hin => h.possible (List.mem_append_left _ hin), ?_⟩
      · have hkept : (parts front).filter (· ≠ self) = parts front :=
          List.filter_eq_self.mpr fun n hn => by simpa using (hplain n hn).1
        rw [hparts, List.dropLast_concat, steps, List.filter_append, hkept]
        split <;> simp
      · rw [steps, List.mem_append, not_or]
        refine ⟨fun hin => (hplain _ hin).2 rfl, ?_⟩
        split <;> decide
      · obtain ⟨c, cs, rfl⟩ := List.exists_cons_of_ne_nil hfront
        rfl
      · rw [Text.Utf8.size_append]
        exact Nat.le_add_right _ _

/-- **A longer name** makes another plain path of a plain one, in the same folder. -/
theorem append {more : Text} (h : Plain path) (hlong : 2 < more.length) (hslash : '/' ∉ more)
    (hpossible : '\x00' ∉ more) :
    Plain (path ++ more) ∧ ∃ before name, parts path = before ++ [name] ∧
      parts (path ++ more) = before ++ [name ++ more] := by
  obtain ⟨before, name, -, hparts, hlonger⟩ := parts_append h.ne_nil h.unclosed hslash
  have hmore : more ≠ [] := List.ne_nil_of_length_pos (Nat.zero_lt_of_lt hlong)
  refine ⟨⟨by simp [hmore], ?_, fun n hn => ?_, ?_⟩, before, name, hparts, hlonger⟩
  · exact isClosed_of_name path hmore hslash
  · rw [hlonger, List.mem_append, List.mem_singleton] at hn
    rcases hn with hn | rfl
    · exact h.named n (by rw [hparts]; exact List.mem_append_left _ hn)
    · -- the names of folders are shorter than what is put behind the name
      have hlength : ∀ t : Text, t.length ≤ 2 → name ++ more ≠ t := by
        rintro t ht rfl
        rw [List.length_append] at ht
        omega
      exact ⟨hlength _ (by decide), hlength _ (by decide)⟩
  · rw [List.mem_append, not_or]
    exact ⟨h.possible, hpossible⟩

end Plain

end Path

/-! ## Where plain names lead -/

namespace Node

variable {root : Node} {place next : List Text} {name : Text} {names : List Text}

/-- **A name leads on from a folder**, if it is not too long; the name `.` leads nowhere else. -/
theorem enter_eq_ok_iff (haround : name ≠ Path.around) :
    root.enter place name = .ok next ↔ root.sight place = some .folder ∧
      Text.Utf8.size name ≤ Path.longestName ∧ next = place ++ [name].filter (· ≠ Path.self) := by
  rw [sight_eq_folder_iff, enter]
  cases hat : root.at? place with
  | error fault => simp
  | ok node =>
    cases node with
    | file content => simp
    | folder children =>
      by_cases hself : name = Path.self
      · subst hself
        simp [eq_comm, show Text.Utf8.size Path.self ≤ Path.longestName by decide]
      · by_cases hlong : Path.longestName < Text.Utf8.size name
        · simp [hself, haround, hlong, Nat.not_le.mpr hlong]
        · simp [hself, haround, hlong, Nat.not_lt.mp hlong, eq_comm]

theorem follow_cons_eq_ok_iff :
    root.follow place (name :: names) = .ok next ↔
      ∃ mid, root.enter place name = .ok mid ∧ root.follow mid names = .ok next := by
  rw [follow]
  cases root.enter place name <;> simp

/-- **Plain names lead to their place**, if all but the last one are folders, and none of them is too
long. -/
theorem follow_eq_ok_iff (hplain : ∀ n ∈ names ++ [name], n ≠ Path.self ∧ n ≠ Path.around) :
    root.follow place (names ++ [name]) = .ok next ↔ root.sight (place ++ names) = some .folder ∧
      (∀ n ∈ names ++ [name], Text.Utf8.size n ≤ Path.longestName) ∧
        next = place ++ (names ++ [name]) := by
  induction names generalizing place with
  | nil =>
    obtain ⟨hself, haround⟩ := hplain name (by simp)
    rw [List.nil_append, follow_cons_eq_ok_iff]
    simp [enter_eq_ok_iff haround, hself, follow, and_assoc, eq_comm]
  | cons first rest ih =>
    obtain ⟨hself, haround⟩ := hplain first (by simp)
    have hrest : ∀ mid, root.follow mid (rest ++ [name]) = .ok next ↔ _ := fun _ =>
      ih fun n hn => hplain n (List.mem_cons_of_mem _ hn)
    rw [List.cons_append, follow_cons_eq_ok_iff]
    have hfirst : [first].filter (· ≠ Path.self) = [first] := by simp [hself]
    simp only [enter_eq_ok_iff haround, hfirst, hrest, List.forall_mem_cons]
    constructor
    · rintro ⟨mid, ⟨-, hfirst, rfl⟩, hfolder, hsizes, rfl⟩
      rw [List.append_assoc, List.singleton_append] at hfolder
      exact ⟨hfolder, ⟨hfirst, hsizes⟩, by simp⟩
    · rintro ⟨hfolder, ⟨hfirst, hsizes⟩, rfl⟩
      -- the folder that is asked for at the end is in all folders on the way to it
      refine ⟨_, ⟨sight_above hfolder (List.prefix_append _ _), hfirst, rfl⟩, ?_, hsizes, by simp⟩
      rwa [List.append_assoc, List.singleton_append]

/-! ## Making the folders on a way -/

/-- **Only folders were added**, and only on the way from a place to a place further on. -/
def Grown (place target : List Text) (before after : Node) : Prop :=
  ∀ other, after.sight other = before.sight other ∨
    (before.sight other = none ∧ after.sight other = some .folder ∧
      other <+: target ∧ place.length < other.length)

theorem Grown.refl (place target : List Text) (root : Node) : Grown place target root root :=
  fun _ => Or.inl rfl

theorem Grown.trans {a b c : Node} {target : List Text} (hab : Grown place target a b)
    (hbc : Grown next target b c) (hlength : place.length ≤ next.length) : Grown place target a c := by
  intro other
  rcases hbc other with hsame | ⟨hnone, hfolder, hway, hbeyond⟩
  · rw [hsame]
    exact hab other
  · rcases hab other with hsame | ⟨-, hmade, -⟩
    · exact Or.inr ⟨hsame ▸ hnone, hfolder, hway, Nat.lt_of_le_of_lt hlength hbeyond⟩
    · rw [hmade] at hnone
      cases hnone

/-- **Making folders adds only folders**, however far it goes. -/
theorem grown_makeWay (root : Node) (place : List Text) (haround : Path.around ∉ names) :
    Grown place (place ++ names.filter (· ≠ Path.self)) root (root.makeWay place names).1 := by
  induction names generalizing root place with
  | nil => exact .refl _ _ root
  | cons name rest ih =>
    rw [List.mem_cons, not_or] at haround
    rw [makeWay]
    split
    · exact .refl _ _ root
    · rename_i next henter
      obtain ⟨hfolder, -, hnext⟩ := (enter_eq_ok_iff (Ne.symm haround.1)).mp henter
      have hway : place <+: next := ⟨_, hnext.symm⟩
      have htarget : next ++ rest.filter (· ≠ Path.self) =
          place ++ (name :: rest).filter (· ≠ Path.self) := by
        rw [hnext, List.append_assoc, ← List.filter_append, List.singleton_append]
      have hrest : ∀ r : Node, Grown next (place ++ (name :: rest).filter (· ≠ Path.self)) r
          (r.makeWay next rest).1 := fun r => htarget ▸ ih r next haround.2
      split
      · exact (Grown.refl _ _ root).trans (hrest root) hway.length_le
      · exact .refl _ _ root
      · split
        · exact .refl _ _ root
        · rename_i made hmade
          obtain ⟨hnone, hsight⟩ := sight_makeFolder hmade
          refine Grown.trans (fun other => ?_) (hrest made) hway.length_le
          rw [hsight, Function.update_apply]
          split
          · rename_i heq
            rw [heq]
            refine Or.inr ⟨hnone, rfl, ⟨_, htarget⟩, Nat.lt_of_not_le fun hle => ?_⟩
            -- the folder one is in is there, so it is not the one that was made
            rw [← hway.eq_of_length_le hle, hfolder] at hnone
            cases hnone
          · exact Or.inl rfl

/-- **All folders on a way can be made**, if no file stands there and no name is too long. -/
theorem makeWay_eq_ok (hfolder : root.sight place = some .folder) (haround : Path.around ∉ names)
    (hsizes : ∀ n ∈ names, Text.Utf8.size n ≤ Path.longestName)
    (hfree : ∀ other content, other <+: place ++ names.filter (· ≠ Path.self) →
      root.sight other ≠ some (.file content)) :
    (root.makeWay place names).2 = .ok () ∧
      (root.makeWay place names).1.sight (place ++ names.filter (· ≠ Path.self)) = some .folder := by
  induction names generalizing root place with
  | nil => exact ⟨rfl, by rwa [List.filter_nil, List.append_nil]⟩
  | cons name rest ih =>
    rw [List.mem_cons, not_or] at haround
    rw [List.forall_mem_cons] at hsizes
    have henter := (enter_eq_ok_iff (Ne.symm haround.1)).mpr ⟨hfolder, hsizes.1, rfl⟩
    have htarget : place ++ [name].filter (· ≠ Path.self) ++ rest.filter (· ≠ Path.self) =
        place ++ (name :: rest).filter (· ≠ Path.self) := by
      rw [List.append_assoc, ← List.filter_append, List.singleton_append]
    generalize hnext : place ++ [name].filter (· ≠ Path.self) = next at henter htarget
    rw [← htarget] at hfree ⊢
    simp only [makeWay, henter]
    cases hat : root.at? next with
    | ok node =>
      cases node with
      | file content =>
        exact absurd (sight_eq_file_iff.mpr hat) (hfree next content (List.prefix_append _ _))
      | folder children =>
        exact ih (sight_eq_folder_iff.mpr ⟨children, hat⟩) haround.2 hsizes.2 hfree
    | error fault =>
      have hnone : root.sight next = none := by rw [sight, hat]; rfl
      have hself : name ≠ Path.self := by
        rintro rfl
        rw [← hnext, List.filter_cons_of_neg (by simp), List.filter_nil, List.append_nil,
          hfolder] at hnone
        cases hnone
      rw [List.filter_cons_of_pos (by simpa using hself), List.filter_nil] at hnext
      obtain ⟨made, hmade⟩ := exists_makeFolder (by simp [← hnext])
        (by rwa [← hnext, List.dropLast_concat]) hnone
      simp only [hmade]
      obtain ⟨-, hsight⟩ := sight_makeFolder hmade
      refine ih (by rw [hsight, Function.update_self]) haround.2 hsizes.2 fun other content hway => ?_
      rw [hsight, Function.update_apply]
      split
      · simp
      · exact hfree other content hway

end Node

/-! ## The place of a plain path -/

namespace Disk

variable {disk : Disk} {path : Text} {place : List Text}

/-- **The place of a plain path**: where the path begins, and its names behind it. -/
def plainPlace (disk : Disk) (path : Text) : List Text :=
  disk.start path ++ Path.parts path

theorem pathFault?_eq_none_iff :
    pathFault? path = none ↔ '\x00' ∉ path ∧ path ≠ [] ∧ Text.Utf8.size path ≤ Path.longest := by
  unfold pathFault?
  split
  · simp_all
  · split
    · simp_all
    · split <;> simp_all

theorem dropLast_plainPlace (hpath : Path.Plain path) :
    (disk.plainPlace path).dropLast = disk.start path ++ (Path.parts path).dropLast :=
  List.dropLast_append_of_ne_nil hpath.parts_ne_nil

/-- **A plain path leads to its place**, if it fits and the folder of the place is there. -/
theorem filePlace_eq_ok_iff (hpath : Path.Plain path) :
    disk.filePlace path = .ok place ↔ Path.Fits path ∧
      disk.root.sight (disk.plainPlace path).dropLast = some .folder ∧
        place = disk.plainPlace path := by
  obtain ⟨before, name, -, -, -, hparts⟩ := hpath.parts_eq
  have hfollow : disk.root.follow (disk.start path) (before ++ [name]) = .ok place ↔ _ :=
    Node.follow_eq_ok_iff (hparts ▸ hpath.named)
  rw [dropLast_plainPlace hpath, plainPlace, hparts, List.dropLast_concat, filePlace,
    if_pos hpath.endsInName, Disk.place, Disk.follow, hpath.steps_eq]
  cases hfault : pathFault? path with
  | none =>
    have hlength := (pathFault?_eq_none_iff.mp hfault).2.2
    simp only [hparts, hfollow]
    exact ⟨fun ⟨hfolder, hsizes, heq⟩ => ⟨⟨hlength, hparts ▸ hsizes⟩, hfolder, heq⟩,
      fun ⟨hfits, hfolder, heq⟩ => ⟨hfolder, hparts ▸ hfits.names, heq⟩⟩
  | some fault =>
    refine ⟨fun h => (nomatch h), fun ⟨hfits, _⟩ => ?_⟩
    rw [pathFault?_eq_none_iff.mpr ⟨hpath.possible, hpath.ne_nil, hfits.whole⟩] at hfault
    cases hfault

/-- The folder of a plain path is looked for from where the path begins. -/
theorem start_folder (disk : Disk) (hpath : Path.Plain path) :
    disk.start (Path.folder path) = disk.start path := by
  rw [start, start, hpath.folderOf.absolute]

/-- **Making the folder of a plain path** adds only folders, on the way to its place. -/
theorem grown_makeFolders (disk : Disk) (hpath : Path.Plain path) :
    Node.Grown (disk.start path) (disk.plainPlace path).dropLast disk.root
      (disk.makeFolders (Path.folder path)).1.root := by
  have hfolder := hpath.folderOf
  unfold makeFolders
  split
  · exact .refl _ _ disk.root
  · rw [dropLast_plainPlace hpath, ← hfolder.steps, ← start_folder disk hpath]
    exact Node.grown_makeWay disk.root _ hfolder.upward

/-- **The folder of a plain path can be made**, if the path fits and no file is on the way. -/
theorem makeFolders_eq_ok (hpath : Path.Plain path) (hfits : Path.Fits path)
    (hstart : disk.root.sight (disk.start path) = some .folder)
    (hfree : ∀ other content, other <+: (disk.plainPlace path).dropLast →
      disk.root.sight other ≠ some (.file content)) :
    (disk.makeFolders (Path.folder path)).2 = .ok () ∧
      (disk.makeFolders (Path.folder path)).1.root.sight (disk.plainPlace path).dropLast =
        some .folder := by
  have hfolder := hpath.folderOf
  have hsame := start_folder disk hpath
  have hsizes : ∀ n ∈ Path.steps (Path.folder path), Text.Utf8.size n ≤ Path.longestName := by
    intro n hn
    by_cases hself : n = Path.self
    · rw [hself]
      decide
    · have hkept : n ∈ (Path.steps (Path.folder path)).filter (· ≠ Path.self) :=
        List.mem_filter.mpr ⟨hn, by simpa using hself⟩
      rw [hfolder.steps] at hkept
      exact hfits.names n (List.mem_of_mem_dropLast hkept)
  have hway : disk.start (Path.folder path) ++
      (Path.steps (Path.folder path)).filter (· ≠ Path.self) = (disk.plainPlace path).dropLast := by
    rw [dropLast_plainPlace hpath, hfolder.steps, hsame]
  rw [← hway] at hfree ⊢
  have hfault : pathFault? (Path.folder path) = none :=
    pathFault?_eq_none_iff.mpr ⟨hfolder.possible, hfolder.ne_nil, hfolder.size.trans hfits.whole⟩
  simp only [makeFolders, hfault]
  exact Node.makeWay_eq_ok (hsame ▸ hstart) hfolder.upward hsizes hfree

/-! ## What each operation makes of a disk -/

variable {changed : Disk} {other : Text}

theorem plainPlace_ne_nil (disk : Disk) (hpath : Path.Plain path) : disk.plainPlace path ≠ [] :=
  List.append_ne_nil_of_right_ne_nil _ hpath.parts_ne_nil

/-- A file that is there is in a folder. -/
theorem sight_folder_of_file {content : Text} (hpath : Path.Plain path)
    (hfile : disk.root.sight (disk.plainPlace path) = some (.file content)) :
    disk.root.sight (disk.plainPlace path).dropLast = some .folder :=
  Node.sight_dropLast (plainPlace_ne_nil disk hpath) (by rw [hfile]; exact Option.some_ne_none _)

/-- **Writing under a plain path** is seen at its place. -/
theorem sight_write {content : Text} (hpath : Path.Plain path)
    (h : disk.write path content = .ok changed) :
    Path.Fits path ∧ disk.root.sight (disk.plainPlace path).dropLast = some .folder ∧
      changed.here = disk.here ∧ changed.root.sight =
        Function.update disk.root.sight (disk.plainPlace path) (some (.file content)) := by
  obtain ⟨place, root, hplace, hroot, rfl⟩ := exists_of_change h
  obtain ⟨hfits, hfolder, rfl⟩ := (filePlace_eq_ok_iff hpath).mp hplace
  exact ⟨hfits, hfolder, rfl, (Node.sight_write hroot).2.2⟩

theorem exists_write (content : Text) (hpath : Path.Plain path) (hfits : Path.Fits path)
    (hfolder : disk.root.sight (disk.plainPlace path).dropLast = some .folder)
    (hplace : disk.root.sight (disk.plainPlace path) ≠ some .folder) :
    ∃ changed, disk.write path content = .ok changed := by
  obtain ⟨root, hroot⟩ := Node.exists_write content (plainPlace_ne_nil disk hpath) hfolder hplace
  refine ⟨disk.withRoot root, ?_⟩
  rw [write, (filePlace_eq_ok_iff hpath).mpr ⟨hfits, hfolder, rfl⟩]
  simp only [Except.bind, hroot, Except.map]

/-- **Taking away what a plain path leads to** is seen at its place. -/
theorem sight_unlink (hpath : Path.Plain path) (h : disk.unlink path = .ok changed) :
    (∃ content, disk.root.sight (disk.plainPlace path) = some (.file content)) ∧
      changed.here = disk.here ∧
        changed.root.sight = Function.update disk.root.sight (disk.plainPlace path) none := by
  obtain ⟨place, root, hplace, hroot, rfl⟩ := exists_of_change h
  obtain ⟨-, -, rfl⟩ := (filePlace_eq_ok_iff hpath).mp hplace
  obtain ⟨hfile, hsight⟩ := Node.sight_unlink hroot
  exact ⟨hfile, rfl, hsight⟩

theorem exists_unlink {content : Text} (hpath : Path.Plain path) (hfits : Path.Fits path)
    (hfile : disk.root.sight (disk.plainPlace path) = some (.file content)) :
    ∃ changed, disk.unlink path = .ok changed := by
  obtain ⟨root, hroot⟩ := Node.exists_unlink (plainPlace_ne_nil disk hpath) hfile
  refine ⟨disk.withRoot root, ?_⟩
  rw [unlink, (filePlace_eq_ok_iff hpath).mpr ⟨hfits, sight_folder_of_file hpath hfile, rfl⟩]
  simp only [Except.bind, hroot, Except.map]

/-- **Moving a file** from one plain path to another is seen at both places. -/
theorem sight_rename (hpath : Path.Plain path) (hother : Path.Plain other)
    (hne : disk.plainPlace path ≠ disk.plainPlace other) (h : disk.rename path other = .ok changed) :
    disk.root.sight (disk.plainPlace other) ≠ some .folder ∧ changed.here = disk.here ∧
      ∃ content, disk.root.sight (disk.plainPlace path) = some (.file content) ∧
        changed.root.sight = Function.update (Function.update disk.root.sight (disk.plainPlace other)
          (some (.file content))) (disk.plainPlace path) none := by
  obtain ⟨place, target, root, hplace, htarget, hroot, rfl⟩ := exists_of_rename h
  obtain ⟨-, -, rfl⟩ := (filePlace_eq_ok_iff hpath).mp hplace
  obtain ⟨-, -, rfl⟩ := (filePlace_eq_ok_iff hother).mp htarget
  obtain ⟨content, hfile, hfolder, hsight⟩ := Node.sight_rename hne hroot
  exact ⟨hfolder, rfl, content, hfile, hsight⟩

theorem exists_rename {content : Text} (hpath : Path.Plain path) (hother : Path.Plain other)
    (hfits : Path.Fits path) (hfitsOther : Path.Fits other)
    (hne : disk.plainPlace path ≠ disk.plainPlace other)
    (hfile : disk.root.sight (disk.plainPlace path) = some (.file content))
    (hfolder : disk.root.sight (disk.plainPlace other).dropLast = some .folder)
    (hplace : disk.root.sight (disk.plainPlace other) ≠ some .folder) :
    ∃ changed, disk.rename path other = .ok changed := by
  obtain ⟨root, hroot⟩ := Node.exists_rename (plainPlace_ne_nil disk hpath)
    (plainPlace_ne_nil disk hother) hne hfile hfolder hplace
  refine ⟨disk.withRoot root, ?_⟩
  rw [rename, (filePlace_eq_ok_iff hpath).mpr ⟨hfits, sight_folder_of_file hpath hfile, rfl⟩,
    (filePlace_eq_ok_iff hother).mpr ⟨hfitsOther, hfolder, rfl⟩]
  simp only [Except.bind, hroot, Except.map]

end Disk

end ChatPreferences
