/-
Options put into a command line.

The arguments of a subcommand are taken in steps of one or two words, up to their end or to `--`. A step either gives an
option that was not given before or leaves it alone. So an option that a line does not give can be given between any two
of its steps: the steps behind it are taken as before, and the result differs in that option only.

Results:
- `taken_iff`: arguments are accepted exactly if they are taken in steps.
- `Taken.append`: what follows arguments that are taken is read from where they end.
- `Taken.give`: an option that arguments do not give may be given before them.
- `Taken.mem_positionals`: positional arguments are words of the line.
-/
import ResourceQuery.Cli.Command
import ResourceQuery.Proofs.Fallible

namespace ResourceQuery.Cli

variable {sub : Subcommand} {i j k : Invocation} {words rest : List String}

/-! ## Steps -/

namespace Invocation

/-- the words of one thing that is said are taken -/
inductive Step (sub : Subcommand) (i : Invocation) : List String → Invocation → Prop
  | positional {word text : String} {j : Invocation} (hword : Argument.ofString word = .positional text)
      (hnext : i.addPositionals sub [text] = .ok j) : Step sub i [word] j
  | letters {word : String} {letters : List Char} {j : Invocation} (hword : Argument.ofString word = .short letters)
      (hnext : i.addLetters letters = .ok j) : Step sub i [word] j
  | joined {word name value : String} {j : Invocation} (hword : Argument.ofString word = .long name (some value))
      (hnext : i.setValue name value = some j) : Step sub i [word] j
  | separate {word name value : String} {j : Invocation} (hword : Argument.ofString word = .long name none)
      (hname : takesValue name = true) (hvalue : canBeValue value = true) (hnext : i.setValue name value = some j) :
      Step sub i [word, value] j
  | flag {word name : String} {j : Invocation} (hword : Argument.ofString word = .long name none)
      (hname : takesValue name = false) (hhelp : name ≠ "help") (hnext : i.setFlag sub name = some j) :
      Step sub i [word] j

/-- arguments taken in steps, up to their end or to `--` -/
inductive Taken (sub : Subcommand) : Invocation → List String → Invocation → Prop
  | done (i : Invocation) : Taken sub i [] i
  | behind {i j : Invocation} {texts : List String} (h : i.addPositionals sub texts = .ok j) :
      Taken sub i ("--" :: texts) j
  | step {i j k : Invocation} {words rest : List String} (hstep : Step sub i words j) (hrest : Taken sub j rest k) :
      Taken sub i (words ++ rest) k

theorem eq_of_separator {word : String} (h : Argument.ofString word = .separator) : word = "--" := by
  unfold Argument.ofString at h
  split at h
  · rename_i htext
    rw [← String.toList_inj, htext]
    rfl
  all_goals cases h

theorem orUsage_eq_ok {α : Type} {o : Option α} {a : α} : orUsage o = .ok a ↔ o = some a := by
  cases o <;> simp [orUsage]

/-- a step is taken, whatever follows its words -/
theorem Step.addArguments (h : Step sub i words j) (rest : List String) :
    Invocation.addArguments sub i (words ++ rest) = Invocation.addArguments sub j rest := by
  cases h with
  | positional hword hnext =>
    rw [List.singleton_append, Invocation.addArguments, hword]
    simp only [hnext]
    rfl
  | letters hword hnext =>
    rw [List.singleton_append, Invocation.addArguments, hword]
    simp only [hnext]
    rfl
  | joined hword hnext =>
    rw [List.singleton_append, Invocation.addArguments, hword]
    simp only [hnext]
    rfl
  | separate hword hname hvalue hnext =>
    rw [List.cons_append, List.singleton_append, Invocation.addArguments, hword]
    simp only [hname, hvalue, hnext, if_true]
    rfl
  | flag hword hname hhelp hnext =>
    rw [List.singleton_append, Invocation.addArguments, hword]
    simp only [hname, hhelp, hnext, Bool.false_eq_true, if_false]
    rfl

theorem Taken.addArguments (h : Taken sub i words j) : Invocation.addArguments sub i words = .ok j := by
  induction h with
  | done i => rfl
  | behind h => exact h
  | step hstep _ ih => rw [hstep.addArguments, ih]

/-- all that taking arguments can do -/
theorem taken_of_addArguments (h : Invocation.addArguments sub i words = .ok j) : Taken sub i words j := by
  induction i, words using addArguments.induct generalizing j with
  | case1 i =>
    cases h
    exact .done i
  | case2 i word rest hword =>
    rw [eq_of_separator hword] at h ⊢
    exact .behind h
  | case3 i word rest text hword ih =>
    rw [Invocation.addArguments, hword] at h
    obtain ⟨k, hnext, h⟩ := except_bind_eq_ok.1 h
    exact .step (.positional hword hnext) (ih k h)
  | case4 i word rest letters hword ih =>
    rw [Invocation.addArguments, hword] at h
    obtain ⟨k, hnext, h⟩ := except_bind_eq_ok.1 h
    exact .step (.letters hword hnext) (ih k h)
  | case5 i word rest name value hword ih =>
    rw [Invocation.addArguments, hword] at h
    obtain ⟨k, hnext, h⟩ := except_bind_eq_ok.1 h
    exact .step (.joined hword (orUsage_eq_ok.1 hnext)) (ih k h)
  | case6 i word name hword hname =>
    rw [Invocation.addArguments, hword] at h
    simp only [hname, if_true] at h
    cases h
  | case7 i word name hword hname value rest hvalue ih =>
    rw [Invocation.addArguments, hword] at h
    simp only [hname, hvalue, if_true] at h
    obtain ⟨k, hnext, h⟩ := except_bind_eq_ok.1 h
    exact .step (.separate hword hname hvalue (orUsage_eq_ok.1 hnext)) (ih k h)
  | case8 i word name hword hname value rest hvalue =>
    rw [Invocation.addArguments, hword] at h
    simp only [hname, hvalue, if_true, Bool.false_eq_true, if_false] at h
    cases h
  | case9 i word rest hword hname =>
    rw [Invocation.addArguments, hword] at h
    simp only [hname, if_true, Bool.false_eq_true, if_false] at h
    cases h
  | case10 i word rest name hword hname hhelp ih =>
    rw [Invocation.addArguments, hword] at h
    simp only [hname, hhelp, Bool.false_eq_true, if_false] at h
    obtain ⟨k, hnext, h⟩ := except_bind_eq_ok.1 h
    exact .step (.flag hword (Bool.eq_false_iff.2 hname) hhelp (orUsage_eq_ok.1 hnext)) (ih k h)

theorem taken_iff : Invocation.addArguments sub i words = .ok j ↔ Taken sub i words j :=
  ⟨taken_of_addArguments, Taken.addArguments⟩

/-- What follows arguments that are taken is read from where they end, unless they end with `--`. -/
theorem Taken.append (h : Taken sub i words j) (hseparator : "--" ∉ words) (rest : List String) :
    Invocation.addArguments sub i (words ++ rest) = Invocation.addArguments sub j rest := by
  induction h with
  | done i => rfl
  | behind h => exact absurd List.mem_cons_self hseparator
  | step hstep _ ih =>
    rw [List.append_assoc, hstep.addArguments]
    exact ih fun hmem => hseparator (List.mem_append_right _ hmem)

/-- letters look at the verbosity and change it, and nothing else -/
theorem addLetters_eq_ok {letters : List Char} (h : i.addLetters letters = .ok j) :
    ∃ n, ∀ i' : Invocation, i'.options.verbosity = i.options.verbosity →
      i'.addLetters letters = .ok { i' with options := { i'.options with verbosity := n } } := by
  induction letters generalizing i with
  | nil =>
    refine ⟨i.options.verbosity, ?_⟩
    intro i' hi'
    rw [← hi']
    rfl
  | cons c letters ih =>
    unfold addLetters at h
    split at h
    · rename_i heq
      cases heq
    · rename_i heq
      cases heq
      obtain ⟨n, hn⟩ := ih h
      refine ⟨n, ?_⟩
      intro i' hi'
      rw [addLetters, hn _ (by simp only [hi'])]
    · cases h
    · cases h

/-! ## Settings -/

end Invocation

/-- one of the two page limits -/
inductive Limit where
  | page
  | nested
deriving DecidableEq

namespace Limit

/-- the name of its option -/
def option : Limit → String
  | page => "page-limit"
  | nested => "nested-page-limit"

/-- the value that options give it -/
def given : Limit → Options → Option UInt32
  | page, o => o.pageLimit
  | nested, o => o.nestedPageLimit

def give : Limit → UInt32 → Options → Options
  | page, n, o => { o with pageLimit := some n }
  | nested, n, o => { o with nestedPageLimit := some n }

end Limit

/-- what an option can say, once -/
inductive Setting where
  | strict
  | variablesOnly
  | limit (l : Limit) (n : UInt32)

namespace Setting

/-- nothing has been said of it so far -/
def Unset : Setting → Invocation → Prop
  | strict, i => i.strict = false
  | variablesOnly, i => i.variablesOnly = false
  | limit l _, i => l.given i.options = none

def give : Setting → Invocation → Invocation
  | strict, i => { i with strict := true }
  | variablesOnly, i => { i with variablesOnly := true }
  | limit l n, i => { i with options := l.give n i.options }

variable (s : Setting)

theorem addPositionals_give {texts : List String} (h : i.addPositionals sub texts = .ok j) :
    (s.Unset j → s.Unset i) ∧ (s.give i).addPositionals sub texts = .ok (s.give j) := by
  cases sub with
  | compile =>
    cases h
    cases s with
    | strict => exact ⟨id, rfl⟩
    | variablesOnly => exact ⟨id, rfl⟩
    | limit l n => exact ⟨id, rfl⟩
  | resources =>
    rw [Invocation.addPositionals] at h ⊢
    split at h
    · rename_i hnone
      cases h
      exact ⟨id, if_pos hnone⟩
    · cases h

theorem addLetters_give {letters : List Char} (h : i.addLetters letters = .ok j) :
    (s.Unset j → s.Unset i) ∧ (s.give i).addLetters letters = .ok (s.give j) := by
  obtain ⟨n, hn⟩ := Invocation.addLetters_eq_ok h
  have hj := hn i rfl
  rw [h] at hj
  cases hj
  cases s with
  | strict => exact ⟨id, hn _ rfl⟩
  | variablesOnly => exact ⟨id, hn _ rfl⟩
  | limit l m =>
    cases l with
    | page => exact ⟨id, hn _ rfl⟩
    | nested => exact ⟨id, hn _ rfl⟩

theorem setValue_give {name value : String} (h : i.setValue name value = some j) (hunset : s.Unset j) :
    s.Unset i ∧ (s.give i).setValue name value = some (s.give j) := by
  unfold Invocation.setValue at h
  split at h
  · split at h
    · rename_i hnew
      cases h
      cases s with
      | strict => exact ⟨hunset, if_pos hnew⟩
      | variablesOnly => exact ⟨hunset, if_pos hnew⟩
      | limit l n =>
        cases l with
        | page => exact ⟨hunset, if_pos hnew⟩
        | nested => exact ⟨hunset, if_pos hnew⟩
    · cases h
  · split at h
    · rename_i hnew
      obtain ⟨m, hm, rfl⟩ := Option.map_eq_some_iff.1 h
      cases s with
      | strict => exact ⟨hunset, by simp [give, Invocation.setValue, hnew, hm]⟩
      | variablesOnly => exact ⟨hunset, by simp [give, Invocation.setValue, hnew, hm]⟩
      | limit l n =>
        cases l with
        | page => cases hunset
        | nested => exact ⟨hunset, by simp [give, Limit.give, Invocation.setValue, hnew, hm]⟩
    · cases h
  · split at h
    · rename_i hnew
      obtain ⟨m, hm, rfl⟩ := Option.map_eq_some_iff.1 h
      cases s with
      | strict => exact ⟨hunset, by simp [give, Invocation.setValue, hnew, hm]⟩
      | variablesOnly => exact ⟨hunset, by simp [give, Invocation.setValue, hnew, hm]⟩
      | limit l n =>
        cases l with
        | page => exact ⟨hunset, by simp [give, Limit.give, Invocation.setValue, hnew, hm]⟩
        | nested => cases hunset
    · cases h
  · cases h

theorem setFlag_give {name : String} (h : i.setFlag sub name = some j) (hunset : s.Unset j) :
    s.Unset i ∧ (s.give i).setFlag sub name = some (s.give j) := by
  unfold Invocation.setFlag at h
  split at h
  · split at h
    · cases h
    · rename_i hnew
      cases h
      cases s with
      | strict => cases hunset
      | variablesOnly => exact ⟨hunset, if_neg hnew⟩
      | limit l n => exact ⟨hunset, if_neg hnew⟩
  · split at h
    · cases h
    · rename_i hnew
      cases h
      cases s with
      | strict => exact ⟨hunset, if_neg hnew⟩
      | variablesOnly => cases hunset
      | limit l n => exact ⟨hunset, if_neg hnew⟩
  · split at h
    · cases h
    · rename_i hnew
      cases h
      cases s with
      | strict => exact ⟨hunset, if_neg hnew⟩
      | variablesOnly => exact ⟨hunset, if_neg hnew⟩
      | limit l n => exact ⟨hunset, if_neg hnew⟩
  · cases h

end Setting

namespace Invocation

/-- A step that leaves a setting unset is taken in the same way once the setting is given. -/
theorem Step.give (s : Setting) (h : Step sub i words j) (hunset : s.Unset j) :
    s.Unset i ∧ Step sub (s.give i) words (s.give j) := by
  cases h with
  | positional hword hnext =>
    obtain ⟨hbefore, hgiven⟩ := s.addPositionals_give hnext
    exact ⟨hbefore hunset, .positional hword hgiven⟩
  | letters hword hnext =>
    obtain ⟨hbefore, hgiven⟩ := s.addLetters_give hnext
    exact ⟨hbefore hunset, .letters hword hgiven⟩
  | joined hword hnext =>
    obtain ⟨hbefore, hgiven⟩ := s.setValue_give hnext hunset
    exact ⟨hbefore, .joined hword hgiven⟩
  | separate hword hname hvalue hnext =>
    obtain ⟨hbefore, hgiven⟩ := s.setValue_give hnext hunset
    exact ⟨hbefore, .separate hword hname hvalue hgiven⟩
  | flag hword hname hhelp hnext =>
    obtain ⟨hbefore, hgiven⟩ := s.setFlag_give hnext hunset
    exact ⟨hbefore, .flag hword hname hhelp hgiven⟩

/-- An option that arguments do not give may be given before them. -/
theorem Taken.give (s : Setting) (h : Taken sub i words j) (hunset : s.Unset j) :
    s.Unset i ∧ Taken sub (s.give i) words (s.give j) := by
  induction h with
  | done i => exact ⟨hunset, .done _⟩
  | behind h =>
    obtain ⟨hbefore, hgiven⟩ := s.addPositionals_give h
    exact ⟨hbefore hunset, .behind hgiven⟩
  | step hstep _ ih =>
    obtain ⟨hmid, hrest⟩ := ih hunset
    obtain ⟨hbefore, hgiven⟩ := hstep.give s hmid
    exact ⟨hbefore, .step hgiven hrest⟩

/-- An option that a line does not give may be given between any two steps before `--`. -/
theorem Taken.insert {s : Setting} {before after : List String} (hbefore : Taken sub i before j)
    (hseparator : "--" ∉ before) (hstep : Step sub j words (s.give j)) (hafter : Taken sub j after k)
    (hunset : s.Unset k) : Taken sub i (before ++ (words ++ after)) (s.give k) := by
  have hline : Invocation.addArguments sub i (before ++ (words ++ after)) = .ok (s.give k) := by
    rw [hbefore.append hseparator, hstep.addArguments]
    exact (hafter.give s hunset).2.addArguments
  exact taken_of_addArguments hline

/-! ## Positional arguments -/

theorem mem_addPositionals {texts : List String} (h : i.addPositionals sub texts = .ok j) {text : String}
    (htext : text ∈ j.positionals) : text ∈ i.positionals ∨ text ∈ texts := by
  cases sub with
  | compile =>
    cases h
    exact List.mem_append.1 htext
  | resources =>
    rw [addPositionals] at h
    split at h
    · cases h
      exact .inl htext
    · cases h

theorem positionals_setValue {name value : String} (h : i.setValue name value = some j) :
    j.positionals = i.positionals := by
  unfold setValue at h
  split at h
  · split at h
    · cases h
      rfl
    · cases h
  · split at h
    · obtain ⟨m, -, rfl⟩ := Option.map_eq_some_iff.1 h
      rfl
    · cases h
  · split at h
    · obtain ⟨m, -, rfl⟩ := Option.map_eq_some_iff.1 h
      rfl
    · cases h
  · cases h

theorem positionals_setFlag {name : String} (h : i.setFlag sub name = some j) : j.positionals = i.positionals := by
  unfold setFlag at h
  split at h
  · split at h
    · cases h
    · cases h
      rfl
  · split at h
    · cases h
    · cases h
      rfl
  · split at h
    · cases h
    · cases h
      rfl
  · cases h

theorem positionals_addLetters {letters : List Char} (h : i.addLetters letters = .ok j) :
    j.positionals = i.positionals := by
  obtain ⟨n, hn⟩ := addLetters_eq_ok h
  have hj := hn i rfl
  rw [h] at hj
  cases hj
  rfl

theorem eq_of_positional {word text : String} (h : Argument.ofString word = .positional text) : text = word := by
  unfold Argument.ofString at h
  split at h
  · cases h
  · cases h
  · cases h
  · exact (Argument.positional.inj h).symm

/-- the positional arguments that a step adds are among its words -/
theorem Step.mem_positionals (h : Step sub i words j) {text : String} (htext : text ∈ j.positionals) :
    text ∈ i.positionals ∨ text ∈ words := by
  cases h with
  | positional hword hnext =>
    rw [← eq_of_positional hword]
    exact mem_addPositionals hnext htext
  | letters hword hnext => exact .inl (by rwa [← positionals_addLetters hnext])
  | joined hword hnext => exact .inl (by rwa [← positionals_setValue hnext])
  | separate hword hname hvalue hnext => exact .inl (by rwa [← positionals_setValue hnext])
  | flag hword hname hhelp hnext => exact .inl (by rwa [← positionals_setFlag hnext])

theorem Taken.mem_positionals (h : Taken sub i words j) {text : String} (htext : text ∈ j.positionals) :
    text ∈ i.positionals ∨ text ∈ words := by
  induction h with
  | done i => exact .inl htext
  | behind h => exact (mem_addPositionals h htext).imp_right (List.mem_cons_of_mem _)
  | step hstep _ ih =>
    rcases ih htext with hmid | hrest
    · exact (hstep.mem_positionals hmid).imp_right (List.mem_append_left _)
    · exact .inr (List.mem_append_right _ hrest)

end Invocation

/-! ## Commands -/

/-- the first positional argument is the root, and the others list what is selected -/
theorem toCommand_eq_ok_iff {c : Command} :
    i.toCommand .compile = .ok c ↔ ∃ root more, i.positionals = root :: more ∧
      c = .compile ⟨root⟩ (more.flatMap splitResources) i.strict i.variablesOnly i.options := by
  unfold Invocation.toCommand
  cases i.positionals with
  | nil => simp
  | cons root more => simp [eq_comm]

/-- what options a subcommand's arguments say, and how -/
theorem Subcommand.parse_eq_ok_iff {arguments : List String} {c : Command} :
    sub.parse arguments = .ok c ↔ ∃ i, Invocation.Taken sub {} arguments i ∧ i.toCommand sub = .ok c := by
  rw [Subcommand.parse, except_bind_eq_ok]
  simp only [Invocation.taken_iff]

end ResourceQuery.Cli
