import Mathlib.Data.List.Infix
import ChatPreferences.Key.Spelling
import ChatPreferences.Proofs.Document.Legible

/-!
# Key names that stand for their codes

A key is found in the file under a name, kept under its code, and written under the name of that
code, which need not be the name that it was found under.  Two things are needed of the written
name: that it stands in a line as well as the found one did, and that it stands for the same code.

* `Respelled` — a text in which some pieces have been replaced by signs.  Both translations are of
  this form, so that what they cannot bring into a text is said once for both.
* `mem_of_mem_name_code`, `isPrefix_of_name_code`, `isSuffix_of_name_code`, `isInfix_of_name_code` —
  what a written name holds, begins with or ends in, the found name did.
* `code_name_code` — **the written name stands for the same key**.
-/

namespace ChatPreferences

open Text

/-! ## Replacing pieces by signs -/

/-- **A text in which some pieces have been replaced**, by pieces that are made of `signs`. -/
inductive Respelled (signs : Text) : Text → Text → Prop
  | nil : Respelled signs [] []
  | copy (c : Char) {s t : Text} : Respelled signs s t → Respelled signs (c :: s) (c :: t)
  | sign (old : Text) {new s t : Text} : new ≠ [] → new ⊆ signs → Respelled signs s t →
      Respelled signs (old ++ s) (new ++ t)

namespace Respelled

variable {signs s t p : Text}

/-- Without signs in it, a text has nothing replaced. -/
theorem eq_of_disjoint (h : Respelled signs s t) (ht : ∀ c ∈ t, c ∉ signs) : t = s := by
  induction h with
  | nil => rfl
  | copy c _ ih => rw [ih fun x hx => ht x (List.mem_cons_of_mem _ hx)]
  | sign old hne hsigns _ _ =>
    obtain ⟨c, cs, rfl⟩ := List.exists_cons_of_ne_nil hne
    exact absurd (hsigns List.mem_cons_self) (ht c List.mem_cons_self)

theorem isPrefix_of_isPrefix (h : Respelled signs s t) (hp : ∀ c ∈ p, c ∉ signs) (hpt : p <+: t) :
    p <+: s := by
  induction h generalizing p with
  | nil => exact hpt
  | copy c _ ih =>
    cases p with
    | nil => exact List.nil_prefix
    | cons d ds =>
      obtain ⟨rfl, hds⟩ := List.cons_prefix_cons.mp hpt
      exact List.cons_prefix_cons.mpr
        ⟨rfl, ih (fun x hx => hp x (List.mem_cons_of_mem _ hx)) hds⟩
  | sign old hne hsigns _ _ =>
    cases p with
    | nil => exact List.nil_prefix
    | cons d ds =>
      obtain ⟨c, cs, rfl⟩ := List.exists_cons_of_ne_nil hne
      obtain ⟨rfl, -⟩ := List.cons_prefix_cons.mp hpt
      exact absurd (hsigns List.mem_cons_self) (hp d List.mem_cons_self)

/-- A text without signs that stands behind signs stands behind all of them. -/
theorem isSuffix_of_isSuffix_append {new x : Text} (hsigns : new ⊆ signs) (hp : ∀ c ∈ p, c ∉ signs)
    (h : p <:+ new ++ x) : p <:+ x := by
  induction new with
  | nil => exact h
  | cons c cs ih =>
    rcases List.suffix_cons_iff.mp h with rfl | h
    · exact absurd (hsigns List.mem_cons_self) (hp c List.mem_cons_self)
    · exact ih (fun x hx => hsigns (List.mem_cons_of_mem _ hx)) h

theorem isSuffix_of_isSuffix (h : Respelled signs s t) (hp : ∀ c ∈ p, c ∉ signs) (hpt : p <:+ t) :
    p <:+ s := by
  induction h with
  | nil => exact hpt
  | copy c h ih =>
    rcases List.suffix_cons_iff.mp hpt with rfl | hpt
    · rw [h.eq_of_disjoint fun x hx => hp x (List.mem_cons_of_mem _ hx)]
    · exact (ih hpt).trans (List.suffix_cons _ _)
  | sign old hne hsigns _ ih =>
    exact (ih (isSuffix_of_isSuffix_append hsigns hp hpt)).trans (List.suffix_append _ _)

/-- A text without signs that stands in front of or behind signs does not hold any of them. -/
theorem isInfix_of_isInfix_append {new x : Text} (hsigns : new ⊆ signs) (hp : ∀ c ∈ p, c ∉ signs)
    (h : p <:+: new ++ x) : p <:+: x := by
  induction new with
  | nil => exact h
  | cons c cs ih =>
    have hcs : cs ⊆ signs := fun x hx => hsigns (List.mem_cons_of_mem _ hx)
    rcases List.infix_cons_iff.mp h with h | h
    · cases p with
      | nil => exact List.nil_infix
      | cons d ds =>
        obtain ⟨rfl, -⟩ := List.cons_prefix_cons.mp h
        exact absurd (hsigns List.mem_cons_self) (hp d List.mem_cons_self)
    · exact ih hcs h

theorem isInfix_of_isInfix (h : Respelled signs s t) (hp : ∀ c ∈ p, c ∉ signs) (hpt : p <:+: t) :
    p <:+: s := by
  induction h with
  | nil => exact hpt
  | copy c h ih =>
    rcases List.infix_cons_iff.mp hpt with hpt | hpt
    · exact ((copy c h).isPrefix_of_isPrefix hp hpt).isInfix
    · exact (ih hpt).trans (List.suffix_cons _ _).isInfix
  | sign old hne hsigns _ ih =>
    exact (ih (isInfix_of_isInfix_append hsigns hp hpt)).trans (List.suffix_append _ _).isInfix

end Respelled

namespace Key

/-! ## What a written name holds -/

/-- The characters of control signs. -/
def codeSigns : Text := ['^', '[']

/-- The characters of words for keys. -/
def nameSigns : Text := ['m', 'e', 't', 'a', 'c', 'r', 'l', '2', '-']

theorem respelled_code (t : Text) : Respelled codeSigns t (code t) := by
  induction t using code.induct with
  | case1 rest ih => exact .sign "meta2-" (List.cons_ne_nil '^' ['[', '[']) (by decide) ih
  | case2 rest ih => exact .sign "meta-" (List.cons_ne_nil '^' ['[']) (by decide) ih
  | case3 rest ih => exact .sign "ctrl-" (List.cons_ne_nil '^' []) (by decide) ih
  | case4 c rest h₁ h₂ h₃ ih =>
    rw [code.eq_4 c rest h₁ h₂ h₃]
    exact .copy c ih
  | case5 => exact .nil

theorem respelled_name (t : Text) : Respelled nameSigns t (name t) := by
  induction t using name.induct with
  | case1 rest ih => exact .sign ['^', '[', '['] (by decide) (by decide) ih
  | case2 rest h ih =>
    rw [name.eq_2 rest h]
    exact .sign ['^', '['] (by decide) (by decide) ih
  | case3 c rest h₁ h₂ ih =>
    rw [name.eq_3 c rest h₁ h₂]
    exact .sign ['^'] (by decide) (by decide) ih
  | case4 c rest h₁ h₂ h₃ ih =>
    rw [name.eq_4 c rest h₁ h₂ h₃]
    exact .copy c ih
  | case5 => exact .nil

section Written

variable {p : Text} (t : Text) (hp : ∀ c ∈ p, c ∉ codeSigns ∧ c ∉ nameSigns)
include hp

/-- What a written name begins with, the found name did. -/
theorem isPrefix_of_name_code (h : p <+: name (code t)) : p <+: t :=
  (respelled_code t).isPrefix_of_isPrefix (fun c hc => (hp c hc).1)
    ((respelled_name _).isPrefix_of_isPrefix (fun c hc => (hp c hc).2) h)

theorem isSuffix_of_name_code (h : p <:+ name (code t)) : p <:+ t :=
  (respelled_code t).isSuffix_of_isSuffix (fun c hc => (hp c hc).1)
    ((respelled_name _).isSuffix_of_isSuffix (fun c hc => (hp c hc).2) h)

theorem isInfix_of_name_code (h : p <:+: name (code t)) : p <:+: t :=
  (respelled_code t).isInfix_of_isInfix (fun c hc => (hp c hc).1)
    ((respelled_name _).isInfix_of_isInfix (fun c hc => (hp c hc).2) h)

end Written

section WrittenSign

variable {c : Char} {t : Text} (hc : c ∉ codeSigns ∧ c ∉ nameSigns)
include hc

theorem head?_of_name_code (h : (name (code t)).head? = some c) : t.head? = some c := by
  rw [← List.singleton_prefix_iff_head?_eq_some] at h ⊢
  exact isPrefix_of_name_code t (fun x hx => List.mem_singleton.mp hx ▸ hc) h

theorem getLast?_of_name_code (h : (name (code t)).getLast? = some c) : t.getLast? = some c := by
  rw [← List.singleton_suffix_iff_getLast?_eq_some] at h ⊢
  exact isSuffix_of_name_code t (fun x hx => List.mem_singleton.mp hx ▸ hc) h

theorem mem_of_mem_name_code (h : c ∈ name (code t)) : c ∈ t := by
  rw [← List.singleton_infix_iff] at h ⊢
  exact isInfix_of_name_code t (fun x hx => List.mem_singleton.mp hx ▸ hc) h

end WrittenSign

theorem not_sign_of_isBlank {c : Char} (h : isBlank c = true) : c ∉ codeSigns ∧ c ∉ nameSigns := by
  have hsigns : ∀ x ∈ codeSigns ++ nameSigns, isBlank x = false := by
    simp [codeSigns, nameSigns, isBlank]
  refine ⟨fun hin => ?_, fun hin => ?_⟩
  · rw [hsigns c (List.mem_append_left _ hin)] at h
    cases h
  · rw [hsigns c (List.mem_append_right _ hin)] at h
    cases h

/-! ## The same key -/

/-- **A code without any words for keys in it.** -/
structure Settled (t : Text) : Prop where
  meta2 : ¬ "meta2-".toList <:+: t
  meta1 : ¬ "meta-".toList <:+: t
  ctrl : ¬ "ctrl-".toList <:+: t

theorem Settled.of_cons {c : Char} {t : Text} (h : Settled (c :: t)) : Settled t where
  meta2 := fun hin => h.meta2 (hin.trans (List.suffix_cons _ _).isInfix)
  meta1 := fun hin => h.meta1 (hin.trans (List.suffix_cons _ _).isInfix)
  ctrl := fun hin => h.ctrl (hin.trans (List.suffix_cons _ _).isInfix)

/-- A word that does not begin a text, and does not come into what follows, does not come into the
whole, unless it begins there. -/
theorem not_infix_copy {word : Text} {c : Char} {rest : Text} (hword : ∀ x ∈ word, x ∉ codeSigns)
    (hhead : ¬ word <+: c :: rest) (htail : ¬ word <:+: code rest) :
    ¬ word <:+: c :: code rest := by
  intro h
  rcases List.infix_cons_iff.mp h with h | h
  · exact hhead ((Respelled.copy c (respelled_code rest)).isPrefix_of_isPrefix hword h)
  · exact htail h

/-- **The code of a name is settled**: a word in it would have been one in the name. -/
theorem settled_code (t : Text) : Settled (code t) := by
  have hmeta2 : ∀ x ∈ "meta2-".toList, x ∉ codeSigns := by simp [codeSigns]
  have hmeta1 : ∀ x ∈ "meta-".toList, x ∉ codeSigns := by simp [codeSigns]
  have hctrl : ∀ x ∈ "ctrl-".toList, x ∉ codeSigns := by simp [codeSigns]
  induction t using code.induct with
  | case1 rest ih =>
    have hsigns : ['^', '[', '['] ⊆ codeSigns := by decide
    exact ⟨fun h => ih.meta2 (Respelled.isInfix_of_isInfix_append hsigns hmeta2 h),
      fun h => ih.meta1 (Respelled.isInfix_of_isInfix_append hsigns hmeta1 h),
      fun h => ih.ctrl (Respelled.isInfix_of_isInfix_append hsigns hctrl h)⟩
  | case2 rest ih =>
    have hsigns : ['^', '['] ⊆ codeSigns := by decide
    exact ⟨fun h => ih.meta2 (Respelled.isInfix_of_isInfix_append hsigns hmeta2 h),
      fun h => ih.meta1 (Respelled.isInfix_of_isInfix_append hsigns hmeta1 h),
      fun h => ih.ctrl (Respelled.isInfix_of_isInfix_append hsigns hctrl h)⟩
  | case3 rest ih =>
    have hsigns : ['^'] ⊆ codeSigns := by decide
    exact ⟨fun h => ih.meta2 (Respelled.isInfix_of_isInfix_append hsigns hmeta2 h),
      fun h => ih.meta1 (Respelled.isInfix_of_isInfix_append hsigns hmeta1 h),
      fun h => ih.ctrl (Respelled.isInfix_of_isInfix_append hsigns hctrl h)⟩
  | case4 c rest h₁ h₂ h₃ ih =>
    rw [code.eq_4 c rest h₁ h₂ h₃]
    refine ⟨not_infix_copy hmeta2 ?_ ih.meta2, not_infix_copy hmeta1 ?_ ih.meta1,
      not_infix_copy hctrl ?_ ih.ctrl⟩
    · rintro ⟨more, hmore⟩
      obtain ⟨rfl, rfl⟩ := List.cons.inj hmore
      exact h₁ more rfl rfl
    · rintro ⟨more, hmore⟩
      obtain ⟨rfl, rfl⟩ := List.cons.inj hmore
      exact h₂ more rfl rfl
    · rintro ⟨more, hmore⟩
      obtain ⟨rfl, rfl⟩ := List.cons.inj hmore
      exact h₃ more rfl rfl
  | case5 => exact ⟨by decide, by decide, by decide⟩

/-- What a name begins with, where no word begins there, its code does. -/
theorem isPrefix_of_name {p t : Text} (hp : ∀ c ∈ p, c ≠ 'm' ∧ c ≠ 'c') (h : p <+: name t) :
    p <+: t := by
  induction t using name.induct generalizing p with
  | case1 rest ih =>
    cases p with
    | nil => exact List.nil_prefix
    | cons c cs =>
      obtain ⟨rfl, -⟩ := List.cons_prefix_cons.mp h
      exact absurd rfl (hp 'm' List.mem_cons_self).1
  | case2 rest h₁ ih =>
    rw [name.eq_2 rest h₁] at h
    cases p with
    | nil => exact List.nil_prefix
    | cons c cs =>
      obtain ⟨rfl, -⟩ := List.cons_prefix_cons.mp h
      exact absurd rfl (hp 'm' List.mem_cons_self).1
  | case3 c rest h₁ h₂ ih =>
    rw [name.eq_3 c rest h₁ h₂] at h
    cases p with
    | nil => exact List.nil_prefix
    | cons d ds =>
      obtain ⟨rfl, -⟩ := List.cons_prefix_cons.mp h
      exact absurd rfl (hp 'c' List.mem_cons_self).2
  | case4 c rest h₁ h₂ h₃ ih =>
    rw [name.eq_4 c rest h₁ h₂ h₃] at h
    cases p with
    | nil => exact List.nil_prefix
    | cons d ds =>
      obtain ⟨rfl, hds⟩ := List.cons_prefix_cons.mp h
      exact List.cons_prefix_cons.mpr
        ⟨rfl, ih (fun x hx => hp x (List.mem_cons_of_mem _ hx)) hds⟩
  | case5 => exact h

/-- **A settled code is the code of its name.** -/
theorem code_name {t : Text} (ht : Settled t) : code (name t) = t := by
  induction t using name.induct with
  | case1 rest ih =>
    have hrest := ih ht.of_cons.of_cons.of_cons
    rw [name]
    exact congrArg (fun x : Text => '^' :: '[' :: '[' :: x) hrest
  | case2 rest h ih =>
    have hrest := ih ht.of_cons.of_cons
    rw [name.eq_2 rest h]
    exact congrArg (fun x : Text => '^' :: '[' :: x) hrest
  | case3 c rest h₁ h₂ ih =>
    have hrest := ih ht.of_cons
    rw [name.eq_3 c rest h₁ h₂]
    exact congrArg (fun x : Text => '^' :: x) hrest
  | case4 c rest h₁ h₂ h₃ ih =>
    have hrest := ih ht.of_cons
    rw [name.eq_4 c rest h₁ h₂ h₃]
    -- a word that begins here would have to stand in the code as well
    rw [code.eq_4 c (name rest), hrest]
    · rintro more rfl hmore
      refine ht.meta2 (List.IsPrefix.isInfix ?_)
      have hp := isPrefix_of_name (p := "eta2-") (t := rest) (by simp) ⟨more, hmore.symm⟩
      exact List.cons_prefix_cons.mpr ⟨rfl, hp⟩
    · rintro more rfl hmore
      refine ht.meta1 (List.IsPrefix.isInfix ?_)
      have hp := isPrefix_of_name (p := "eta-") (t := rest) (by simp) ⟨more, hmore.symm⟩
      exact List.cons_prefix_cons.mpr ⟨rfl, hp⟩
    · rintro more rfl hmore
      refine ht.ctrl (List.IsPrefix.isInfix ?_)
      have hp := isPrefix_of_name (p := "trl-") (t := rest) (by simp) ⟨more, hmore.symm⟩
      exact List.cons_prefix_cons.mpr ⟨rfl, hp⟩
  | case5 => rfl

/-- **The written name stands for the same key** as the name that was found. -/
theorem code_name_code (found : Text) : code (name (code found)) = code found :=
  code_name (settled_code found)

/-! ## Equals signs -/

/-- No word for keys holds an equals sign, and no control sign is one. -/
theorem count_code (t : Text) : (code t).count '=' = t.count '=' := by
  induction t using code.induct with
  | case1 rest ih => simp [code, ih]
  | case2 rest ih => simp [code, ih]
  | case3 rest ih => simp [code, ih]
  | case4 c rest h₁ h₂ h₃ ih =>
    rw [code.eq_4 c rest h₁ h₂ h₃, List.count_cons, List.count_cons, ih]
  | case5 => rfl

theorem name_code_ne_nil {t : Text} (h : t ≠ []) : name (code t) ≠ [] := by
  intro hnil
  have hcode := code_name_code t
  rw [hnil] at hcode
  induction t using code.induct with
  | case4 c rest h₁ h₂ h₃ ih =>
    rw [code.eq_4 c rest h₁ h₂ h₃] at hcode
    cases hcode
  | case5 => exact h rfl
  | _ => cases hcode

end Key

end ChatPreferences
