/-
What the flags of `compile` change.

A flag that a line does not give can be put in front of its arguments. The line then says the same but for the flag, so
page limits, registry and query are the same. `--variables` prints the list of the header, one declaration to a line.
`--strict` matters only if something is left out: then what was warned of is the reason to fail.

Results:
- `Answers.headerList_eq`: the header of a document of the built-in registry lists its declarations.
- `compile_withStrict`: a strict request answers as the lenient one, or fails with what that leaves out.
- `flags_change_only_their_part`: both flags, for every line and every directory.
-/
import ResourceQuery.Cli.Run
import ResourceQuery.Proofs.BuiltIn
import ResourceQuery.Proofs.Insertions

namespace ResourceQuery

variable {r : Registry} {q : Request}

/-! ## The list of the header -/

/-- what is listed between the brackets of the first line -/
def headerList (text : String) : List String :=
  (splitAtCommas (((firstLine text).toList.dropWhile (· ≠ '(')).tail.takeWhile (· ≠ ')'))).map String.ofList

namespace GitHub

/-- types are letters, perhaps with an exclamation mark -/
theorem types_entries (limits : PageLimits) :
    ∀ e ∈ entries limits, ∀ v ∈ e.2.declarations, v.type.toList.all fun c => c.isAlpha || c == '!' :=
  forall_entries limits (P := fun e => ∀ v ∈ e.2.declarations, v.type.toList.all fun c => c.isAlpha || c == '!')
    (by decide)

theorem declarations_ne_nil (limits : PageLimits) : ∀ e ∈ entries limits, e.2.declarations ≠ [] :=
  forall_entries limits (P := fun e => e.2.declarations ≠ []) (by decide)

/-- a declaration has none of the marks that are around it in a header -/
theorem notMem_declaration {limits : PageLimits} {e : ResourceId × Metadata} (he : e ∈ entries limits) {v : Variable}
    (hv : v ∈ e.2.declarations) {c : Char} (hc : c ∈ [',', '(', ')', '\n']) : c ∉ v.text.toList := by
  have hname : IsName v.name := (exact_entries limits e he).1.names _ (List.mem_map_of_mem hv)
  have htypes := List.all_eq_true.1 (types_entries limits e he v hv)
  have hmark : isNameChar c = false ∧ (c.isAlpha || c == '!') = false ∧ c ∉ "$".toList ∧ c ∉ ": ".toList := by
    simp only [List.mem_cons, List.not_mem_nil, or_false] at hc
    rcases hc with rfl | rfl | rfl | rfl <;> decide
  obtain ⟨hletter, htype, hdollar, hcolon⟩ := hmark
  have hmem : c ∉ v.type.toList := notMem_of_forall htypes htype
  simp only [Variable.text, String.toList_append, List.mem_append, hdollar, hname.notMem hletter, hcolon, hmem,
    or_self, not_false_eq_true]

end GitHub

namespace Request.Answers

variable {limits : PageLimits} {m : Metadata} {d : Draft} {out : CompiledQuery}

theorem declarations_ne_nil (h : q.Answers (GitHub.registry limits) m d out) : out.declarations ≠ [] := by
  have hroot := GitHub.mem_entries_of_get? h.registered
  obtain ⟨v, hv⟩ := List.exists_mem_of_ne_nil _ (GitHub.declarations_ne_nil limits _ hroot)
  exact List.ne_nil_of_mem (h.mem_declarations_iff.2 ⟨q.root, m, .inl rfl, h.registered, hv⟩)

/-- the header of a document lists its declarations -/
theorem headerList_eq (h : q.Answers (GitHub.registry limits) m d out) :
    headerList (out.document ++ "\n") = out.declarations.map Variable.text := by
  have hmarks : ∀ text ∈ out.declarations.map Variable.text, ∀ c ∈ [',', '(', ')', '\n'], c ∉ text.toList := by
    intro text htext c hc
    obtain ⟨v, hv, rfl⟩ := List.mem_map.1 htext
    obtain ⟨id, n, -, hn, hv⟩ := h.mem_declarations_iff.1 hv
    exact GitHub.notMem_declaration (GitHub.mem_entries_of_get? hn) hv hc
  have hne : out.declarations.map Variable.text ≠ [] := mt List.map_eq_nil_iff.1 h.declarations_ne_nil
  have hlist : ∀ c ∈ ['(', ')', '\n'], c ∉ (", ".intercalate (out.declarations.map Variable.text)).toList := by
    have hseparator : ∀ c ∈ ['(', ')', '\n'], c ∉ ", ".toList := by simp
    intro c hc hmem
    rcases mem_toList_intercalate hmem with hmem | ⟨text, htext, hmem⟩
    · exact hseparator c hc hmem
    · exact hmarks text htext c (List.mem_cons_of_mem _ hc) hmem
  have hline : headerLine out.declarations =
      "query " ++ "(" ++ ", ".intercalate (out.declarations.map Variable.text) ++ ")" ++ " \x7b" := by
    have hopen : ("query (" : String) = "query " ++ "(" := by rfl
    have hclose : (") \x7b" : String) = ")" ++ " \x7b" := by rfl
    rw [headerLine, if_neg h.declarations_ne_nil, hopen, hclose]
    simp only [String.append_assoc]
  have hbreak : '\n' ∉ (headerLine out.declarations).toList := by
    rw [hline]
    simp only [String.toList_append, List.mem_append, hlist '\n' (by decide), or_false]
    decide
  have hfirst : firstLine (out.document ++ "\n") = headerLine out.declarations := by
    have hlayout : out.document ++ "\n" =
        headerLine out.declarations ++ "\n" ++ (q.body (GitHub.registry limits) m ++ "\n") := by
      rw [h.document, document_eq_layout h.drafted, ← h.declarations, layout]
      simp only [String.append_assoc]
    rw [hlayout]
    exact (firstLine_and_below_append hbreak _).1
  have hchars : (headerLine out.declarations).toList =
      "query ".toList ++ '(' ::
        ((", ".intercalate (out.declarations.map Variable.text)).toList ++ ')' :: " \x7b".toList) := by
    rw [hline]
    simp
  rw [headerList, hfirst, hchars, (takeWhile_ne_append_cons (by decide) _).2, List.tail_cons,
    (takeWhile_ne_append_cons (hlist ')' (by decide)) _).1, splitAtCommas_intercalate hne fun text htext =>
      hmarks text htext ',' (by decide), List.map_map]
  exact List.map_id'' (fun _ => String.ofList_toList) _

end Request.Answers

/-! ## Strict requests -/

/-- A strict request answers as the lenient one, if nothing is left out, and fails with it otherwise. -/
theorem Request.compile_withStrict (hlenient : q.strict = false) :
    (q.withStrict true).compile r =
      match q.compile r with
      | .error e => .error e
      | .ok out => if out.skipped = [] then .ok out else .error (.unresolved out.skipped) := by
  unfold compile
  have hroot : (q.withStrict true).root = q.root := rfl
  cases hget : r.get? q.root with
  | none => simp only [hroot, hget]
  | some m =>
    have hdraft : (q.withStrict true).draft r m = q.draft r m := rfl
    cases hd : q.draft r m with
    | error e => simp only [hroot, hget, hdraft, hd, bind, Except.bind]
    | ok d =>
      have hskipped : (q.withStrict true).skipped r d = q.skipped r d := rfl
      have hstrict : (q.withStrict true).strict = true := rfl
      simp only [hroot, hget, hdraft, hd, bind, Except.bind, hskipped, hstrict, hlenient, true_and, Bool.false_eq_true,
        false_and, if_false]
      by_cases hnone : q.skipped r d = []
      · rw [if_neg (not_not.2 hnone), if_pos hnone]
        rfl
      · rw [if_pos hnone, if_neg hnone]

namespace Cli

/-! ## Warnings -/

/-- the warning for a resource, if its name has no line break -/
def warningLine (s : Skipped) : String :=
  "left out of document resource=" ++ s.id.name ++ " reason=" ++ reasonLabel s.reason

theorem upToLineBreak_of_notMem {cs : List Char} (h : '\n' ∉ cs) : upToLineBreak cs = cs := by
  induction cs with
  | nil => rfl
  | cons c cs ih =>
    rw [List.mem_cons, not_or] at h
    rw [upToLineBreak, ih h.2]
    · rintro rfl
      exact h.1 rfl
    · rintro rest rfl rfl
      exact h.2 List.mem_cons_self

theorem warning_eq {s : Skipped} (h : '\n' ∉ s.id.name.toList) : warning s = warningLine s := by
  have hlabel : '\n' ∉ (reasonLabel s.reason).toList := by
    cases s.reason <;> simp [reasonLabel]
  have hframe : '\n' ∉ "left out of document resource=".toList ∧ '\n' ∉ " reason=".toList := by decide
  have hchars : '\n' ∉ (warningLine s).toList := by
    unfold warningLine
    simp only [String.toList_append, List.mem_append, hframe, h, hlabel, or_self, not_false_eq_true]
  calc warning s = String.ofList (upToLineBreak (warningLine s).toList) := rfl
    _ = warningLine s := by rw [upToLineBreak_of_notMem hchars, String.ofList_toList]

/-- a warning tells what was left out, and why -/
theorem warningLine_injective : Function.Injective warningLine := by
  have hlast : ∀ s, (warningLine s).toList.getLast? = (reasonLabel s.reason).toList.getLast? := by
    intro s
    unfold warningLine
    rw [String.toList_append, List.getLast?_append_of_ne_nil]
    cases s.reason <;> simp [reasonLabel]
  have hreasons : ∀ a b : SkipReason, (reasonLabel a).toList.getLast? = (reasonLabel b).toList.getLast? → a = b := by
    intro a b
    cases a <;> cases b <;> simp [reasonLabel]
  rintro ⟨⟨a⟩, reason⟩ ⟨⟨b⟩, reason'⟩ h
  have hlabel := hlast ⟨⟨a⟩, reason⟩
  rw [h, hlast ⟨⟨b⟩, reason'⟩] at hlabel
  obtain rfl : reason = reason' := hreasons _ _ hlabel.symm
  unfold warningLine at h
  rw [String.append_left_inj, String.append_left_inj, String.append_right_inj] at h
  cases h
  rfl

/-! ## Flags in front -/

variable {arguments : List String} {i : Invocation} {d : Directory}

open Invocation in
/-- A flag that the arguments do not give can be put in front of them. -/
theorem parse_flag_cons {s : Setting} {word : String} (hword : Step .compile {} [word] (s.give {}))
    (h : Taken .compile {} arguments i) (hunset : s.Unset i) :
    Command.parse ("compile" :: word :: arguments) = (s.give i).toCommand .compile := by
  have hline : Taken .compile {} ([] ++ ([word] ++ arguments)) (s.give i) :=
    (Taken.done {}).insert List.not_mem_nil hword h hunset
  have htaken := hline.addArguments
  calc Command.parse ("compile" :: word :: arguments)
      = addArguments .compile {} ([] ++ ([word] ++ arguments)) >>= fun i => i.toCommand .compile := rfl
    _ = (s.give i).toCommand .compile := by rw [htaken]; rfl

/-- the arguments of a line that says a command for `compile` -/
theorem exists_taken_of_parse {line : List String} {root : ResourceId} {ids : List ResourceId}
    {strict variablesOnly : Bool} {options : Options}
    (h : Command.parse line = .ok (.compile root ids strict variablesOnly options)) :
    ∃ arguments i, line = "compile" :: arguments ∧ Invocation.Taken .compile {} arguments i ∧
      i.toCommand .compile = .ok (.compile root ids strict variablesOnly options) := by
  unfold Command.parse at h
  split at h
  · rename_i arguments
    obtain ⟨i, htaken, hcommand⟩ := Subcommand.parse_eq_ok_iff.1 h
    exact ⟨arguments, i, rfl, htaken, hcommand⟩
  · obtain ⟨i, -, hcommand⟩ := Subcommand.parse_eq_ok_iff.1 h
    cases hcommand
  · split at h <;> cases h
  · split at h <;> cases h
  · cases h

/-! ## Main result -/

/-- a control character -/
def IsControl (c : Char) : Prop := c.val < 0x20 ∨ (0x7f ≤ c.val ∧ c.val ≤ 0x9f)

instance (c : Char) : Decidable (IsControl c) := inferInstanceAs (Decidable (_ ∨ _))

/-- What `--variables` makes of an outcome: what was the list of the header is printed, one declaration to a line. -/
def Outcome.variablesOf : Outcome → Outcome
  | printed text warnings => printed (linesOf (headerList text)) warnings
  | failed message => failed message
  | refused refusal => refused refusal

/-- What `--strict` makes of an outcome: with warnings it is a failure for the resources that these tell of. -/
inductive StrictOf : Outcome → Outcome → Prop
  | failed (message : String) : StrictOf (.failed message) (.failed message)
  | complete (text : String) : StrictOf (.printed text []) (.printed text [])
  | incomplete (text : String) (left : List Skipped) (hne : left ≠ []) :
      StrictOf (.printed text (left.map warningLine))
        (.failed ("error: " ++ toString left.length ++ " requested resources not in document: " ++
          ", ".intercalate (left.map Skipped.text)))

/-- what is left out was asked for -/
theorem mem_ids_of_skipped {r : Registry} {q : Request} {out : CompiledQuery} (h : q.compile r = .ok out) {s : Skipped}
    (hs : s ∈ out.skipped) : s.id ∈ q.ids := by
  obtain ⟨m, draft, ha⟩ := Request.compile_eq_ok_iff.1 h
  rw [ha.skipped, Request.skipped] at hs
  obtain ⟨id, hid, rfl⟩ := List.mem_map.1 hs
  exact (Request.mem_wanted_iff.1 (List.mem_of_mem_filter hid)).1

/-- the characters of a resource are those of the argument it is a piece of -/
theorem mem_of_splitResources {text : String} {id : ResourceId} (hid : id ∈ splitResources text) {c : Char}
    (hc : c ∈ id.name.toList) : c ∈ text.toList := by
  obtain ⟨piece, hpiece, rfl⟩ := List.mem_map.1 hid
  rw [String.toList_ofList] at hc
  have hmem : c ∈ [','].intercalate (text.toList.splitOn ',') :=
    mem_intercalate_of_mem (List.mem_of_mem_filter hpiece) hc
  rwa [List.intercalate_splitOn] at hmem

/-- what is printed for a query, and for its variables only -/
theorem variablesOf_printed {limits : PageLimits} {q : Request} {out : CompiledQuery}
    (h : q.compile (GitHub.registry limits) = .ok out) (warnings : List String) :
    (Outcome.printed (compiledText false out) warnings).variablesOf = .printed (compiledText true out) warnings := by
  obtain ⟨m, draft, ha⟩ := Request.compile_eq_ok_iff.1 h
  have hne : out.declarations.map Variable.text ≠ [] := mt List.map_eq_nil_iff.1 ha.declarations_ne_nil
  have hplain : compiledText false out = out.document ++ "\n" := rfl
  have hvariables : compiledText true out = "\n".intercalate (out.declarations.map Variable.text) ++ "\n" := rfl
  rw [hplain, hvariables, Outcome.variablesOf, ha.headerList_eq, intercalate_lineBreak hne]

namespace Command

variable (read : String → Option ByteArray) (root : ResourceId) {ids : List ResourceId} (options : Options)

theorem run_variablesOnly :
    (compile root ids false true options).run read = ((compile root ids false false options).run read).variablesOf := by
  simp only [run, Command.options]
  cases options.limits read with
  | error e => rfl
  | ok limits =>
    simp only [execute]
    cases hq : ({ root, ids, strict := false } : Request).compile (GitHub.registry limits) with
    | error e => rfl
    | ok out => exact (variablesOf_printed hq _).symm

theorem run_strict (hids : ∀ id ∈ ids, '\n' ∉ id.name.toList) :
    StrictOf ((compile root ids false false options).run read) ((compile root ids true false options).run read) := by
  simp only [run, Command.options]
  cases options.limits read with
  | error e => exact .failed _
  | ok limits =>
    have hstrict : ({ root, ids, strict := true } : Request).compile (GitHub.registry limits) = _ :=
      Request.compile_withStrict (q := { root, ids, strict := false }) rfl
    simp only [execute]
    rw [hstrict]
    cases hq : ({ root, ids, strict := false } : Request).compile (GitHub.registry limits) with
    | error e => exact .failed _
    | ok out =>
      have hwarnings : out.skipped.map warning = out.skipped.map warningLine :=
        List.map_congr_left fun s hs => warning_eq (hids s.id (mem_ids_of_skipped hq hs))
      by_cases hnone : out.skipped = []
      · simp only [hnone, if_true, List.map_nil]
        exact .complete _
      · have hmessage : (CompileError.unresolved out.skipped).message = toString out.skipped.length ++
            " requested resources not in document: " ++ ", ".intercalate (out.skipped.map Skipped.text) := rfl
        simp only [hnone, if_false, hwarnings, hmessage]
        rw [← String.append_assoc, ← String.append_assoc]
        exact .incomplete _ out.skipped hnone

end Command

/-- **Flags.** Put in front of a line for `compile` that has neither flag, and no control characters, `--variables`
changes what is printed: the list of the header, one declaration to a line, with the same warnings. `--strict` changes
nothing if there are no warnings: else it makes the line fail for the resources that these tell of. A line that fails
does so with either flag. -/
theorem flags_change_only_their_part (d : Directory) {line : List String} {root : ResourceId} {ids : List ResourceId}
    {options : Options} (hparse : Command.parse line = .ok (.compile root ids false false options))
    (hplain : ∀ word ∈ line, ∀ c ∈ word.toList, ¬ IsControl c) :
    (∃ arguments, line = "compile" :: arguments ∧
      run d ("compile" :: "--variables" :: arguments) = (run d line).variablesOf ∧
      StrictOf (run d line) (run d ("compile" :: "--strict" :: arguments))) ∧
    Function.Injective warningLine := by
  refine ⟨?_, warningLine_injective⟩
  obtain ⟨arguments, i, rfl, htaken, hcommand⟩ := exists_taken_of_parse hparse
  refine ⟨arguments, rfl, ?_⟩
  obtain ⟨name, more, hpositionals, hc⟩ := toCommand_eq_ok_iff.1 hcommand
  simp only [Command.compile.injEq] at hc
  obtain ⟨rfl, rfl, hstrict, hvariables, rfl⟩ := hc
  have hvariablesLine : Command.parse ("compile" :: "--variables" :: arguments) =
      .ok (.compile ⟨name⟩ (more.flatMap splitResources) false true i.options) := by
    have hword : Argument.ofString "--variables" = .long "variables" none := by decide
    rw [parse_flag_cons (s := .variablesOnly) (.flag hword rfl (by decide) rfl) htaken hvariables.symm,
      toCommand_eq_ok_iff]
    exact ⟨name, more, hpositionals, by simp [Setting.give, hstrict]⟩
  have hstrictLine : Command.parse ("compile" :: "--strict" :: arguments) =
      .ok (.compile ⟨name⟩ (more.flatMap splitResources) true false i.options) := by
    have hword : Argument.ofString "--strict" = .long "strict" none := by decide
    rw [parse_flag_cons (s := .strict) (.flag hword rfl (by decide) rfl) htaken hstrict.symm, toCommand_eq_ok_iff]
    exact ⟨name, more, hpositionals, by simp [Setting.give, hvariables]⟩
  -- a resource is a piece of a positional argument, so it has no line break, and its warning is not cut
  have hids : ∀ id ∈ more.flatMap splitResources, '\n' ∉ id.name.toList := by
    intro id hid hbreak
    obtain ⟨text, htext, hid⟩ := List.mem_flatMap.1 hid
    have hword : text ∈ arguments := by
      have hpositional : text ∈ i.positionals := by
        rw [hpositionals]
        exact List.mem_cons_of_mem _ htext
      exact (htaken.mem_positionals hpositional).resolve_left List.not_mem_nil
    exact hplain text (List.mem_cons_of_mem _ hword) '\n' (mem_of_splitResources hid hbreak) (.inl (by decide))
  unfold run
  rw [hparse, hvariablesLine, hstrictLine]
  exact ⟨Command.run_variablesOnly d.read ⟨name⟩ i.options, Command.run_strict d.read ⟨name⟩ i.options hids⟩

/-- a directory with one file, which sets the page size -/
def issueFiles : Directory := { files := [("sizes", "\x7b\"pageLimit\": 5\x7d".toUTF8)] }

/-- issues with their labels, and a name that is not registered -/
def issueArguments : List String := ["issues", "--config", "sizes", "labelsOnIssues,stars"]

/-- what is printed for them -/
def issueText : String :=
  "query ($query: String!, $issues: String, $labels: String) \x7b\n" ++
    "search(first: 25, after: $issues, type: ISSUE, query: $query) \x7b\nissueCount\nedges \x7b\nnode \x7b\n" ++
    "...issueFields\n... on Issue \x7b\nlabels(first: 5, after: $labels) \x7b\ntotalCount\nedges \x7b\nnode \x7b\n" ++
    "id\nname\n\x7d\n\x7d\npageInfo \x7b\nendCursor\nhasNextPage\n\x7d\n\x7d\n\x7d\n" ++
    "\x7d\n\x7d\npageInfo \x7b\nendCursor\nhasNextPage\n\x7d\n\x7d\n...rateLimit\n\x7d\n"

/-- The document is printed with a warning of the name that is not registered, or its variables are, with the same
warning. A strict line fails for that name. -/
theorem issue_flags :
    Command.parse ("compile" :: issueArguments) =
        .ok (.compile ⟨"issues"⟩ [⟨"labelsOnIssues"⟩, ⟨"stars"⟩] false false { config := some "sizes" }) ∧
      (∀ word ∈ "compile" :: issueArguments, ∀ c ∈ word.toList, ¬ IsControl c) ∧
      run issueFiles ("compile" :: issueArguments) =
        .printed issueText ["left out of document resource=stars reason=Unregistered"] ∧
      run issueFiles ("compile" :: "--variables" :: issueArguments) =
        .printed "$query: String!\n$issues: String\n$labels: String\n"
          ["left out of document resource=stars reason=Unregistered"] ∧
      run issueFiles ("compile" :: "--strict" :: issueArguments) =
        .failed "error: 1 requested resources not in document: `stars` (unregistered)" ∧
      run issueFiles ("compile" :: "--variables" :: issueArguments) =
        (run issueFiles ("compile" :: issueArguments)).variablesOf ∧
      StrictOf (run issueFiles ("compile" :: issueArguments))
        (run issueFiles ("compile" :: "--strict" :: issueArguments)) := by
  have hparse : Command.parse ("compile" :: issueArguments) =
      .ok (.compile ⟨"issues"⟩ [⟨"labelsOnIssues"⟩, ⟨"stars"⟩] false false { config := some "sizes" }) := by
    decide +kernel
  have hplain : ∀ word ∈ "compile" :: issueArguments, ∀ c ∈ word.toList, ¬ IsControl c := by
    simp [issueArguments, IsControl]
  obtain ⟨⟨arguments, hline, hvariables, hstrict⟩, -⟩ := flags_change_only_their_part issueFiles hparse hplain
  cases hline
  exact ⟨hparse, hplain, by decide +kernel, by decide +kernel, by decide +kernel, hvariables, hstrict⟩

end Cli

end ResourceQuery
