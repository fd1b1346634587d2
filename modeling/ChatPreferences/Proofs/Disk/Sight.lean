import Mathlib.Logic.Function.Basic
import ChatPreferences.Disk.Tree

/-!
# What is seen of a tree

Much of a tree is of no interest to those who use it: in which order the children of a folder are kept,
or which of several faults stands for nothing being there.  What is of interest is what is seen at each
place: nothing, a folder, or a file with its text.  Each operation on the tree then is a change of what
is seen at one place, and can be done or not according to what is seen at that place and around it.

* `Node.sight` — what is seen at a place.
* `Node.sight_eq_folder_of_below` — on the way to a place where something is seen there are folders.
* `Node.Altered`, `Node.altered_of_alter`, `Node.exists_alter` — a change at a place, and when it can be
  made.
* `Node.sight_write`, `Node.sight_unlink`, `Node.sight_makeFolder`, `Node.sight_rename` — **what each
  operation makes of what is seen**.
-/

namespace ChatPreferences

/-- What is seen at a place where something is. -/
inductive Sight where
  | folder
  | file (content : Text)
  deriving DecidableEq

namespace Node

/-- What is seen of a node. -/
def face : Node → Sight
  | .file content => .file content
  | .folder _ => .folder

/-- **What is seen at a place**, if anything. -/
def sight (root : Node) (place : List Text) : Option Sight :=
  (root.at? place).toOption.map face

variable {root changed : Node} {place other : List Text}

theorem sight_eq_folder_iff :
    root.sight place = some .folder ↔ ∃ children, root.at? place = .ok (.folder children) := by
  rw [sight]
  cases root.at? place with
  | error fault => simp [Except.toOption]
  | ok node => cases node <;> simp [Except.toOption, face]

theorem sight_eq_file_iff {content : Text} :
    root.sight place = some (.file content) ↔ root.at? place = .ok (.file content) := by
  rw [sight]
  cases root.at? place with
  | error fault => simp [Except.toOption]
  | ok node => cases node <;> simp [Except.toOption, face]

@[simp] theorem sight_file_cons (content name : Text) (rest : List Text) :
    sight (.file content) (name :: rest) = none := rfl

theorem sight_folder_cons (children : List (Text × Node)) (name : Text) (rest : List Text) :
    sight (.folder children) (name :: rest) = (child? name children).bind (·.sight rest) := by
  rw [sight, at?]
  cases child? name children <;> rfl

/-- What is seen further on is seen from the node on the way. -/
theorem sight_append (root : Node) (place more : List Text) :
    root.sight (place ++ more) = (root.at? place).toOption.bind (·.sight more) := by
  induction place generalizing root with
  | nil => rfl
  | cons name rest ih =>
    cases root with
    | file content => rfl
    | folder children =>
      rw [List.cons_append, sight_folder_cons, at?]
      cases child? name children with
      | none => rfl
      | some node => exact ih node

/-- **On the way** to a place where something is seen there are folders. -/
theorem sight_eq_folder_of_below {name : Text} {rest : List Text}
    (h : root.sight (place ++ name :: rest) ≠ none) : root.sight place = some .folder := by
  rw [sight_append] at h
  rw [sight]
  cases hnode : (root.at? place).toOption with
  | none => simp [hnode] at h
  | some node =>
    cases node with
    | file content => simp [hnode] at h
    | folder children => rfl

/-- Above a folder there are folders. -/
theorem sight_above (h : root.sight other = some .folder) (hp : place <+: other) :
    root.sight place = some .folder := by
  obtain ⟨rest, rfl⟩ := hp
  cases rest with
  | nil => rwa [List.append_nil] at h
  | cons name rest => exact sight_eq_folder_of_below (by rw [h]; exact Option.some_ne_none _)

/-- What is seen at a place other than the root is in a folder. -/
theorem sight_dropLast (hne : place ≠ []) (h : root.sight place ≠ none) :
    root.sight place.dropLast = some .folder := by
  rw [← List.dropLast_concat_getLast hne] at h
  exact sight_eq_folder_of_below h

/-! ## Named nodes -/

section Children

variable {name other : Text} {node : Node} {children : List (Text × Node)}

theorem child?_withChild_self : child? name (withChild name node children) = some node := by
  induction children with
  | nil => simp [withChild, child?]
  | cons child rest ih =>
    by_cases h : child.1 = name
    · simp [withChild, child?, h]
    · simp only [child?, withChild, h, if_false] at ih ⊢
      rw [List.find?_cons_of_neg (by simpa using h)]
      exact ih

theorem child?_withChild_of_ne (hne : other ≠ name) :
    child? other (withChild name node children) = child? other children := by
  induction children with
  | nil => simp [withChild, child?, Ne.symm hne]
  | cons child rest ih =>
    by_cases h : child.1 = name
    · simp [withChild, child?, h, Ne.symm hne]
    · simp only [child?, withChild, h, if_false, List.find?_cons] at ih ⊢
      split
      · rfl
      · exact ih

theorem child?_withoutChild_self : child? name (withoutChild name children) = none := by
  rw [child?, withoutChild, List.find?_eq_none.mpr]
  · rfl
  · intro child hchild
    have hne := (List.mem_filter.mp hchild).2
    simpa using hne

theorem child?_withoutChild_of_ne (hne : other ≠ name) :
    child? other (withoutChild name children) = child? other children := by
  rw [child?, child?, withoutChild, List.find?_filter]
  congr 2
  funext child
  by_cases h : child.1 = other
  · simp [h, hne]
  · simp [h]

end Children

/-! ## A change at one place -/

variable {f : Option Node → Except DiskFault (Option Node)}

/-- **What a change at a place has changed**: what is at the place has become what `f` makes of it, and
elsewhere everything looks as before. -/
structure Altered (f : Option Node → Except DiskFault (Option Node)) (place : List Text)
    (before after : Node) : Prop where
  within : before.sight place.dropLast = some .folder
  made : f (before.at? place).toOption = .ok (after.at? place).toOption
  elsewhere : ∀ other, ¬ place <+: other → after.sight other = before.sight other

/-- One child has become another one, or none. -/
theorem sight_elsewhere_of_child {name : Text} {children others : List (Text × Node)} {rest : List Text}
    (hsame : ∀ n, n ≠ name → child? n others = child? n children)
    (hbelow : ∀ more, ¬ rest <+: more →
      sight (.folder others) (name :: more) = sight (.folder children) (name :: more))
    (other : List Text) (hp : ¬ name :: rest <+: other) :
    sight (.folder others) other = sight (.folder children) other := by
  cases other with
  | nil => rfl
  | cons n more =>
    by_cases hn : n = name
    · subst hn
      exact hbelow more fun hpre => hp (List.cons_prefix_cons.mpr ⟨rfl, hpre⟩)
    · rw [sight_folder_cons, sight_folder_cons, hsame n hn]

/-- **A change at a place** changes what is there, and nothing that is seen elsewhere. -/
theorem altered_of_alter (h : alter f place root = .ok changed) : Altered f place root changed := by
  induction place generalizing root changed with
  | nil => cases h
  | cons name rest ih =>
    cases root with
    | file content => cases rest <;> cases h
    | folder children =>
      cases rest with
      | nil =>
        have hnothing : ∀ more : List Text, ¬ [] <+: more → ∀ p : Prop, p := fun more hp =>
          absurd List.nil_prefix hp
        have hold : (at? (.folder children) [name]).toOption = child? name children := by
          rw [at?]
          cases child? name children <;> rfl
        rw [alter] at h
        split at h
        · cases h
        · rename_i node hf
          obtain rfl := Except.ok.inj h
          refine ⟨rfl, ?_, sight_elsewhere_of_child (fun n hn => child?_withChild_of_ne hn)
            fun more hp => hnothing more hp _⟩
          rw [hold, hf, at?, child?_withChild_self]
          rfl
        · rename_i hf
          obtain rfl := Except.ok.inj h
          refine ⟨rfl, ?_, sight_elsewhere_of_child (fun n hn => child?_withoutChild_of_ne hn)
            fun more hp => hnothing more hp _⟩
          rw [hold, hf, at?, child?_withoutChild_self]
          rfl
      | cons next more =>
        rw [alter] at h
        split at h
        · cases h
        · rename_i node hchild
          split at h
          · cases h
          · rename_i inner hinner
            obtain rfl := Except.ok.inj h
            have halt := ih hinner
            constructor
            · rw [List.dropLast_cons_of_ne_nil (List.cons_ne_nil _ _), sight_folder_cons, hchild]
              exact halt.within
            · simp only [at?, hchild, child?_withChild_self]
              exact halt.made
            · refine sight_elsewhere_of_child (fun n hn => child?_withChild_of_ne hn) fun more hp => ?_
              rw [sight_folder_cons, sight_folder_cons, hchild, child?_withChild_self]
              exact halt.elsewhere more hp

/-- **A change can be made** in a folder, if `f` does not refuse it. -/
theorem exists_alter (new : Option Node) (hne : place ≠ [])
    (hfolder : root.sight place.dropLast = some .folder)
    (hf : f (root.at? place).toOption = .ok new) : ∃ changed, alter f place root = .ok changed := by
  obtain ⟨front, name, rfl⟩ : ∃ front name, place = front ++ [name] :=
    ⟨_, _, (List.dropLast_concat_getLast hne).symm⟩
  rw [List.dropLast_concat] at hfolder
  clear hne
  induction front generalizing root with
  | nil =>
    cases root with
    | file content => cases hfolder
    | folder children =>
      have hold : (at? (.folder children) [name]).toOption = child? name children := by
        rw [at?]
        cases child? name children <;> rfl
      rw [List.nil_append, hold] at hf
      rw [List.nil_append, alter, hf]
      cases new <;> exact ⟨_, rfl⟩
  | cons first more ih =>
    cases root with
    | file content => cases hfolder
    | folder children =>
      rw [sight_folder_cons] at hfolder
      cases hchild : child? first children with
      | none => simp [hchild] at hfolder
      | some node =>
        rw [hchild, Option.bind_some] at hfolder
        simp only [List.cons_append, at?, hchild] at hf
        obtain ⟨inner, hinner⟩ := ih hfolder hf
        obtain ⟨next, rest, hcons⟩ := List.exists_cons_of_ne_nil (l := more ++ [name]) (by simp)
        rw [List.cons_append, hcons, alter, hchild]
        rw [hcons] at hinner
        simp only [hinner]
        exact ⟨_, rfl⟩

/-! ## What each operation changes -/

/-- There is nothing in a node, or no node. -/
def Bare (node : Option Node) : Prop :=
  ∀ n ∈ node, ∀ name rest, n.sight (name :: rest) = none

theorem bare_file (content : Text) : Bare (some (.file content)) := by
  rintro n ⟨⟩ name rest
  rfl

theorem bare_folder : Bare (some (.folder [])) := by
  rintro n ⟨⟩ name rest
  rfl

theorem bare_none : Bare none := fun _ h => nomatch h

/-- **Where there was nothing in a node, and is nothing in it**, a change is seen at the place alone. -/
theorem Altered.sight_eq {before after : Node} (h : Altered f place before after)
    (hbefore : Bare (before.at? place).toOption) (hafter : Bare (after.at? place).toOption) :
    after.sight = Function.update before.sight place (after.sight place) := by
  have hbelow : ∀ root : Node, Bare (root.at? place).toOption → ∀ name rest,
      root.sight (place ++ name :: rest) = none := by
    intro root hbare name rest
    rw [sight_append]
    exact Option.bind_eq_none_iff.mpr fun n hn => hbare n hn name rest
  funext other
  rw [Function.update_apply]
  split
  · rename_i heq
    rw [heq]
  · rename_i hne
    by_cases hp : place <+: other
    · obtain ⟨more, rfl⟩ := hp
      cases more with
      | nil => exact absurd (List.append_nil place) hne
      | cons name rest => rw [hbelow before hbefore, hbelow after hafter]
    · exact h.elsewhere other hp

/-- **A change that is refused for a folder** is seen at its place alone, if what is put there has
nothing in it. -/
theorem sight_alter (seen : Option Sight)
    (hfolder : ∀ children new, f (some (.folder children)) ≠ .ok new)
    (hnew : ∀ old new, f old = .ok new → Bare new ∧ new.map face = seen)
    (h : alter f place root = .ok changed) :
    root.sight place.dropLast = some .folder ∧
      (∃ old new, f old = .ok new ∧ root.sight place = old.map face) ∧
      changed.sight = Function.update root.sight place seen := by
  have halt := altered_of_alter h
  have hmade := halt.made
  obtain ⟨hafter, hseen⟩ := hnew _ _ hmade
  have hbefore : Bare (root.at? place).toOption := by
    cases hold : (root.at? place).toOption with
    | none => exact bare_none
    | some node =>
      cases node with
      | file content => exact bare_file content
      | folder children => exact absurd (hold ▸ hmade) (hfolder children _)
  refine ⟨halt.within, ⟨_, _, hmade, rfl⟩, ?_⟩
  rw [halt.sight_eq hbefore hafter, ← hseen, sight]

/-- **Writing a file** is seen at its place, where no folder was, in a folder. -/
theorem sight_write {content : Text} (h : root.write place content = .ok changed) :
    root.sight place.dropLast = some .folder ∧ root.sight place ≠ some .folder ∧
      changed.sight = Function.update root.sight place (some (.file content)) := by
  obtain ⟨hwithin, ⟨old, new, hf, hold⟩, hsight⟩ := by
    refine sight_alter (some (.file content)) (fun children new hf => ?_) (fun old new hf => ?_) h
    · cases hf
    · split at hf
      · cases hf
      · obtain rfl := Except.ok.inj hf
        exact ⟨bare_file content, rfl⟩
  refine ⟨hwithin, fun hfolder => ?_, hsight⟩
  rw [hfolder] at hold
  obtain ⟨node, rfl, hface⟩ := Option.map_eq_some_iff.mp hold.symm
  cases node with
  | file c => cases hface
  | folder children => cases hf

theorem exists_write (content : Text) (hne : place ≠ [])
    (hfolder : root.sight place.dropLast = some .folder) (hplace : root.sight place ≠ some .folder) :
    ∃ changed, root.write place content = .ok changed := by
  rw [sight] at hplace
  refine exists_alter (some (.file content)) hne hfolder ?_
  cases hold : (root.at? place).toOption with
  | none => rfl
  | some node =>
    cases node with
    | folder children => simp [hold, face] at hplace
    | file c => rfl

/-- **Taking a file away** is seen at its place, where it was. -/
theorem sight_unlink (h : root.unlink place = .ok changed) :
    (∃ content, root.sight place = some (.file content)) ∧
      changed.sight = Function.update root.sight place none := by
  obtain ⟨-, ⟨old, new, hf, hold⟩, hsight⟩ := by
    refine sight_alter none (fun children new hf => ?_) (fun old new hf => ?_) h
    · cases hf
    · split at hf
      · obtain rfl := Except.ok.inj hf
        exact ⟨bare_none, rfl⟩
      · cases hf
      · cases hf
  refine ⟨?_, hsight⟩
  split at hf
  · rename_i content
    exact ⟨content, hold⟩
  · cases hf
  · cases hf

theorem exists_unlink {content : Text} (hne : place ≠ [])
    (hplace : root.sight place = some (.file content)) :
    ∃ changed, root.unlink place = .ok changed := by
  refine exists_alter none hne (sight_dropLast hne (by rw [hplace]; exact Option.some_ne_none _)) ?_
  rw [sight_eq_file_iff] at hplace
  rw [hplace]
  rfl

/-- **Making a folder** is seen at its place, where nothing was. -/
theorem sight_makeFolder (h : root.makeFolder place = .ok changed) :
    root.sight place = none ∧ changed.sight = Function.update root.sight place (some .folder) := by
  obtain ⟨-, ⟨old, new, hf, hold⟩, hsight⟩ := by
    refine sight_alter (some .folder) (fun children new hf => ?_) (fun old new hf => ?_) h
    · cases hf
    · split at hf
      · obtain rfl := Except.ok.inj hf
        exact ⟨bare_folder, rfl⟩
      · cases hf
  refine ⟨?_, hsight⟩
  split at hf
  · exact hold
  · cases hf

theorem exists_makeFolder (hne : place ≠ []) (hfolder : root.sight place.dropLast = some .folder)
    (hplace : root.sight place = none) : ∃ changed, root.makeFolder place = .ok changed := by
  refine exists_alter (some (.folder [])) hne hfolder ?_
  rw [sight, Option.map_eq_none_iff] at hplace
  rw [hplace]

/-- **Moving a file** is seen at both places: it is at the other one, where no folder was, and no more
at its own. -/
theorem sight_rename (hne : place ≠ other) (h : root.rename place other = .ok changed) :
    ∃ content, root.sight place = some (.file content) ∧ root.sight other ≠ some .folder ∧
      changed.sight =
        Function.update (Function.update root.sight other (some (.file content))) place none := by
  unfold rename at h
  split at h
  · cases h
  · rename_i content hread
    rw [if_neg hne] at h
    split at h
    · cases h
    · rename_i written hwrite
      have hfile : root.sight place = some (.file content) := by
        rw [sight_eq_file_iff]
        unfold read at hread
        split at hread
        · rename_i c hat
          rw [hat, Except.ok.inj hread]
        · cases hread
        · cases hread
      obtain ⟨-, hfolder, hsight⟩ := sight_write hwrite
      exact ⟨content, hfile, hfolder, by rw [(sight_unlink h).2, hsight]⟩

theorem exists_rename {content : Text} (hplace : place ≠ []) (hother : other ≠ []) (hne : place ≠ other)
    (hfile : root.sight place = some (.file content))
    (hfolder : root.sight other.dropLast = some .folder) (hfree : root.sight other ≠ some .folder) :
    ∃ changed, root.rename place other = .ok changed := by
  obtain ⟨written, hwrite⟩ := exists_write content hother hfolder hfree
  have hstill : written.sight place = some (.file content) := by
    rw [(sight_write hwrite).2.2, Function.update_of_ne hne, hfile]
  obtain ⟨changed, hunlink⟩ := exists_unlink hplace hstill
  refine ⟨changed, ?_⟩
  rw [sight_eq_file_iff] at hfile
  simp only [rename, read, hfile, if_neg hne, hwrite, hunlink]

end Node

end ChatPreferences
