import Mathlib.Data.List.Infix
import ChatPreferences.Watch

/-!
# Reports on the client's own writes

The file system tells that a file was written, but not by whom.  The client announces its own writes,
and as many reports are passed over as writes were announced, whichever come first.  So it may be the
wrong ones: where somebody else writes the file while the client does, the report on the other write
may be passed over, and the file is read again upon the report on the client's own.  No change is lost
by that, as long as each write that is announced is also reported.

* `Watch.News`, `Watch.hear` — what a watch is told, and what becomes of it.
* `Watch.foldl_credit_le_iff` — how many reports are to be passed over, told from the news alone.
* `Watch.heedsAll_iff` — no report is passed over if none comes after an announcement.
* `Watch.Traffic` — own and foreign writes.
* `Watch.Accounts` — how announcements, reports and readings are balanced.
* `Watch.calls_of_traffic` — **no foreign write is lost among own ones**.
-/

namespace ChatPreferences.Watch

/-! ## What a watch is told -/

/-- What a watch is told. -/
inductive News where
  /-- A write of the client is announced. -/
  | announced
  /-- A report arrives. -/
  | reported
  deriving DecidableEq

/-- **What becomes of a watch** when it is told something. -/
def hear (w : Watch) : News → Watch
  | .announced => w.ignoreNext
  | .reported => w.report.1

/-- Whether the file is to be read again. -/
def heeds (w : Watch) : News → Bool
  | .announced => false
  | .reported => w.report.2

/-- How many reports are to be passed over, after one more of the news. -/
def News.credit (ignored : Nat) : News → Nat
  | .announced => ignored + 1
  | .reported => ignored - 1

variable {w : Watch}

theorem report_of_running (hrunning : w.running = true) :
    w.report = if 0 < w.ignored then ({ w with ignored := w.ignored - 1 }, false)
      else ({ w with calls := w.calls + 1 }, true) := by
  rw [report, hrunning]
  rfl

@[simp] theorem running_hear (w : Watch) (n : News) : (w.hear n).running = w.running := by
  cases n with
  | announced => rfl
  | reported =>
    rw [hear, report]
    split
    · rfl
    · split <;> rfl

theorem ignored_hear (hrunning : w.running = true) (n : News) :
    (w.hear n).ignored = n.credit w.ignored := by
  cases n with
  | announced => rfl
  | reported =>
    rw [hear, report_of_running hrunning, News.credit]
    split
    · rfl
    · show w.ignored = w.ignored - 1
      omega

theorem calls_hear (w : Watch) (n : News) :
    (w.hear n).calls = w.calls + if w.heeds n then 1 else 0 := by
  cases n with
  | announced => rfl
  | reported =>
    rw [hear, heeds, report]
    split
    · rfl
    · split <;> rfl

/-- Each report is either passed over or has the file read again. -/
theorem calls_add_ignored (hrunning : w.running = true) (n : News) :
    (w.hear n).calls + w.ignored + (if n = .announced then 1 else 0) =
      w.calls + (w.hear n).ignored + (if n = .reported then 1 else 0) := by
  cases n with
  | announced => rfl
  | reported =>
    rw [hear, report_of_running hrunning]
    split
    · simp
      omega
    · simp
      omega

/-- A report is heeded when none are to be passed over. -/
theorem heeds_iff (hrunning : w.running = true) (n : News) :
    w.heeds n = true ↔ n = .reported ∧ w.ignored = 0 := by
  cases n with
  | announced => simp [heeds]
  | reported =>
    rw [heeds, report_of_running hrunning]
    split
    · simp
      omega
    · simp
      omega

/-! ## How many reports are to be passed over -/

/-- What is so of all end stretches of a list that is one longer. -/
theorem forall_suffix_concat {α : Type} {P : List α → Prop} {l : List α} {a : α} :
    (∀ last, last <:+ l ++ [a] → P last) ↔ P [] ∧ ∀ last, last <:+ l → P (last ++ [a]) := by
  simp only [List.suffix_concat_iff]
  constructor
  · exact fun h => ⟨h [] (.inl rfl), fun last hlast => h _ (.inr ⟨last, rfl, hlast⟩)⟩
  · rintro ⟨hnil, hothers⟩ _ (rfl | ⟨last, rfl, hlast⟩)
    · exact hnil
    · exact hothers last hlast

/-- **How many reports are to be passed over** is a matter of the news: no more than `bound`, exactly if
in no end stretch of the news the announcements are ahead of the reports by more. -/
theorem foldl_credit_le_iff (news : List News) (bound : Nat) :
    news.foldl News.credit 0 ≤ bound ↔
      ∀ last, last <:+ news → last.count .announced ≤ last.count .reported + bound := by
  -- the last of the news belongs to every end stretch but the empty one
  induction news using List.reverseRecOn generalizing bound with
  | nil => simp
  | append_singleton news n ih =>
    have hnil : ([] : List News).count .announced ≤ ([] : List News).count .reported + bound :=
      Nat.zero_le _
    rw [List.foldl_concat, forall_suffix_concat, and_iff_right hnil]
    cases n with
    | reported =>
      rw [News.credit, Nat.sub_le_iff_le_add, ih]
      refine forall₂_congr fun last _ => ?_
      simp [List.count_append]
      omega
    | announced =>
      cases bound with
      | zero =>
        refine iff_of_false (Nat.not_succ_le_zero _) fun h => ?_
        exact absurd (h [] List.nil_suffix) (by decide)
      | succ bound =>
        rw [News.credit, Nat.add_le_add_iff_right, ih]
        refine forall₂_congr fun last _ => ?_
        simp [List.count_append]
        omega

/-- Where `ignored` reports are to be passed over at first, **no report is passed over** along some
news. -/
def HeedsAll : (ignored : Nat) → List News → Prop
  | _, [] => True
  | ignored, .announced :: rest => HeedsAll (ignored + 1) rest
  | ignored, .reported :: rest => ignored = 0 ∧ HeedsAll (ignored - 1) rest

theorem heedsAll_append (first others : List News) (ignored : Nat) :
    HeedsAll ignored (first ++ others) ↔
      HeedsAll ignored first ∧ HeedsAll (first.foldl News.credit ignored) others := by
  induction first generalizing ignored with
  | nil => simp [HeedsAll]
  | cons n rest ih => cases n <;> simp [HeedsAll, News.credit, ih, and_assoc]

/-- Where one is to be passed over, the first report is. -/
theorem heedsAll_succ_iff (news : List News) (ignored : Nat) :
    HeedsAll (ignored + 1) news ↔ .reported ∉ news := by
  induction news generalizing ignored with
  | nil => simp [HeedsAll]
  | cons n rest ih =>
    cases n with
    | announced => simp [HeedsAll, ih]
    | reported => simp [HeedsAll]

/-- **No report is passed over** if none comes after an announcement, and only then. -/
theorem heedsAll_iff (news : List News) :
    HeedsAll 0 news ↔ ¬ List.Sublist [.announced, .reported] news := by
  induction news with
  | nil => simp [HeedsAll]
  | cons n rest ih =>
    cases n with
    | announced => simp [HeedsAll, heedsAll_succ_iff, List.cons_sublist_cons]
    | reported => simp [HeedsAll, ih, List.sublist_cons_iff]

/-! ## Own and foreign writes -/

/-- **What goes on around a watch.**  The watch cannot tell reports on its own writes from others. -/
inductive Traffic where
  /-- A write of the client is announced. -/
  | announced
  /-- The report on a write of the client arrives. -/
  | own
  /-- A report on a write of somebody else arrives. -/
  | foreign
  deriving DecidableEq

/-- What the watch is told of it. -/
def Traffic.news : Traffic → News
  | .announced => .announced
  | .own => .reported
  | .foreign => .reported

/-- What becomes of a watch along some traffic. -/
def along (w : Watch) (traffic : List Traffic) : Watch :=
  traffic.foldl (fun w t => w.hear t.news) w

/-- **Reports follow their writes**: at no time have more own writes been reported than announced. -/
def Follows (traffic : List Traffic) : Prop :=
  ∀ past, past <+: traffic → past.count .own ≤ past.count .announced

/-- **How the books stand** when the watch `first` has become `w` along some traffic. -/
structure Accounts (first : Watch) (past : List Traffic) (w : Watch) : Prop where
  running : w.running = true
  /-- Each report was passed over or had the file read again, and each report that was passed over has
  used up an announcement. -/
  balance : w.calls + past.count .announced =
    first.calls + (past.count .own + past.count .foreign) + w.ignored
  /-- No more reports are to be passed over than own writes are still to be reported. -/
  covered : w.ignored + past.count .own ≤ past.count .announced

variable {first : Watch} {traffic : List Traffic}

theorem along_append (w : Watch) (past rest : List Traffic) :
    w.along (past ++ rest) = (w.along past).along rest :=
  List.foldl_append

/-- **One thing that goes on keeps the books in order**, unless it is the report on an own write that
was not announced. -/
theorem Accounts.concat {past : List Traffic} (h : Accounts first past w) {t : Traffic}
    (hdue : (past ++ [t]).count .own ≤ (past ++ [t]).count .announced) :
    Accounts first (past ++ [t]) (w.hear t.news) where
  running := (running_hear w t.news).trans h.running
  balance := by
    have hbalance := h.balance
    have hcalls := calls_add_ignored h.running t.news
    cases t <;> simp [Traffic.news, List.count_append] at hcalls ⊢ <;> omega
  covered := by
    have hcovered := h.covered
    have hignored := ignored_hear h.running t.news
    -- where none is to be passed over, the report on an own write is one that was still due
    cases t <;> simp [Traffic.news, News.credit, List.count_append] at hdue hignored ⊢ <;> omega

theorem accounts_along (hrunning : first.running = true) (hignored : first.ignored = 0)
    (hfollows : Follows traffic) : Accounts first traffic (first.along traffic) := by
  induction traffic using List.reverseRecOn with
  | nil => exact ⟨hrunning, by simp [along, hignored], by simp [along, hignored]⟩
  | append_singleton past t ih =>
    have hpast : Follows past := fun front hfront =>
      hfollows front (hfront.trans (List.prefix_append past [t]))
    rw [along, List.foldl_concat]
    exact (ih hpast).concat (hfollows _ (List.prefix_refl _))

/-- Where the file has been read again, some report has made it so. -/
theorem exists_heeds {rest : List Traffic} (h : w.calls < (w.along rest).calls) :
    ∃ passed t others, rest = passed ++ t :: others ∧ (w.along passed).heeds t.news = true := by
  induction rest generalizing w with
  | nil => exact absurd h (Nat.lt_irrefl _)
  | cons t rest ih =>
    cases hheeds : w.heeds t.news with
    | true => exact ⟨[], t, rest, rfl, hheeds⟩
    | false =>
      have hcalls : (w.hear t.news).calls = w.calls := by simp [calls_hear, hheeds]
      obtain ⟨passed, u, others, rfl, hu⟩ := ih (w := w.hear t.news) (by rw [hcalls]; exact h)
      exact ⟨t :: passed, u, others, rfl, hu⟩

/-- **No foreign write is lost among own ones.**  Where each own write that is announced is reported,
once and later, the file has been read again exactly as often as foreign reports have arrived, and no
report is to be passed over any more.  From any time on it is read at least as often as foreign reports
arrive; in particular it is read upon each of them, or upon some report after it. -/
theorem calls_of_traffic (hrunning : first.running = true) (hignored : first.ignored = 0)
    (hfollows : Follows traffic) (hall : traffic.count .own = traffic.count .announced) :
    (first.along traffic).calls = first.calls + traffic.count .foreign ∧
      (first.along traffic).ignored = 0 ∧
      (∀ past rest, traffic = past ++ rest →
        (first.along past).calls + rest.count .foreign ≤ (first.along traffic).calls) ∧
      ∀ past rest, traffic = past ++ .foreign :: rest → ∃ passed t others,
        .foreign :: rest = passed ++ t :: others ∧
          (first.along (past ++ passed)).heeds t.news = true := by
  have hend := accounts_along hrunning hignored hfollows
  have hzero : (first.along traffic).ignored = 0 := by
    have hcovered := hend.covered
    omega
  have hcalls : (first.along traffic).calls = first.calls + traffic.count .foreign := by
    have hbalance := hend.balance
    omega
  have hlater : ∀ past rest, traffic = past ++ rest →
      (first.along past).calls + rest.count .foreign ≤ (first.along traffic).calls := by
    rintro past rest rfl
    have hpast := accounts_along hrunning hignored fun front hfront =>
      hfollows front (hfront.trans (List.prefix_append past rest))
    have hbalance := hpast.balance
    have hcovered := hpast.covered
    rw [hcalls, List.count_append]
    omega
  refine ⟨hcalls, hzero, hlater, fun past rest h => ?_⟩
  have hmore := hlater past (.foreign :: rest) h
  rw [List.count_cons_self, h, along_append] at hmore
  have hlt : (first.along past).calls < ((first.along past).along (.foreign :: rest)).calls := by
    omega
  obtain ⟨passed, t, others, hrest, hheeds⟩ := exists_heeds hlt
  exact ⟨passed, t, others, hrest, by rw [along_append]; exact hheeds⟩

/-- Two own writes with two foreign ones in between: the first foreign report is passed over, and the
file is read again upon the second one and upon the last own report. -/
theorem calls_between :
    let first : Watch := (idle "parley.conf" usualStillness).start
    let traffic : List Traffic := [.announced, .foreign, .announced, .own, .foreign, .own]
    first.running = true ∧ first.ignored = 0 ∧ Follows traffic ∧
      traffic.count .own = traffic.count .announced ∧
      (first.along traffic).calls = 2 ∧ (first.along traffic).ignored = 0 := by
  have hfollows : Follows [.announced, .foreign, .announced, .own, .foreign, .own] := by
    simp only [Follows, ← List.mem_inits]
    decide
  obtain ⟨hcalls, hignored, -⟩ :=
    @calls_of_traffic (idle "parley.conf" usualStillness).start _ rfl rfl hfollows rfl
  exact ⟨rfl, rfl, hfollows, rfl, hcalls, hignored⟩

end ChatPreferences.Watch
