import HalfPrecision.CommandLine.Arguments
import HalfPrecision.Basic
import Mathlib.Data.List.TakeDrop

/-!
# Options that end without an argument

The layout and the log level have defaults, and what is given for the layout is the name of a
built-in one. Only a double dash that is joined by an equals sign takes the argument away again, so
a request without a layout or without a level has such an argument on its command line.
-/

namespace HalfPrecision.CommandLine

open Layout

/-- Whether an argument joins a double dash to the name of an option or to a beginning of it that
has at least one letter. -/
def Withdraws (flag : Flag) (argument : String) : Prop :=
  ∃ start, start <+: flag.label.toList ∧ 2 < start.length ∧
    argument.toList = start ++ "=--".toList

/-- The argument that is joined to an option. -/
def Joined.argument? : Joined → Option (List Char)
  | apart => none
  | directly argument | byEquals argument => some argument

/-- The settings that a command line can lead to: the layout is a built-in one, and what is missing
was taken away. -/
structure Explained (arguments : List String) (source : Option Layout)
    (logLevel : Option String) : Prop where
  isBuiltIn : ∀ L, source = some L → L.isBuiltIn = true
  sourceWithdrawn : source = none → ∃ a ∈ arguments, Withdraws .source a
  logLevelWithdrawn : logLevel = none → ∃ a ∈ arguments, Withdraws .logLevel a

theorem splitEquals_eq_some {s start argument : List Char}
    (h : splitEquals s = (start, some argument)) : s = start ++ '=' :: argument := by
  have hsplit := List.takeWhile_append_dropWhile (p := (· ≠ '=')) (l := s)
  rw [splitEquals, List.span_eq_takeWhile_dropWhile] at h
  split at h
  · cases h
  next before c after hspan =>
    obtain ⟨rfl, hdrop⟩ := Prod.mk.inj hspan
    cases h
    have hc := List.head?_dropWhile_not (· ≠ '=') s
    rw [hdrop] at hc hsplit
    obtain rfl : c = '=' := by simpa using hc
    exact hsplit.symm

theorem eq_label_of_mem_flagNames {name : String} {flag : Flag} (h : (name, flag) ∈ flagNames)
    (hflag : flag ≠ .help) : name = flag.label := by
  simp only [flagNames, List.mem_cons, Prod.mk.injEq, List.not_mem_nil, or_false] at h
  rcases h with ⟨_, rfl⟩ | ⟨_, rfl⟩ | ⟨rfl, rfl⟩ | ⟨rfl, rfl⟩
  · exact absurd rfl hflag
  · exact absurd rfl hflag
  · rfl
  · rfl

theorem mem_of_lookup_eq_some {α : Type} {entries : List (String × α)} {name : String} {a : α}
    (h : entries.lookup name = some a) : (name, a) ∈ entries := by
  obtain ⟨before, after, hsplit, _⟩ := List.lookup_eq_some_iff.1 h
  rw [hsplit]
  exact List.mem_append_right _ List.mem_cons_self

/-- A name of two characters is one of help. -/
theorem eq_help_of_length_le {name : String} {flag : Flag} (h : (name, flag) ∈ flagNames)
    (hlength : name.toList.length ≤ 2) : flag = .help := by
  by_contra hflag
  rw [eq_label_of_mem_flagNames h hflag] at hlength
  cases flag <;> exact absurd hlength (by decide)

/-- What starts with two dashes and is no full name is joined to the beginning of a name. -/
theorem mem_abbreviations_dashes {s argument : List Char} {flag : Flag} {name : String}
    {joined : Joined} (h : (flag, name, joined) ∈ abbreviations ('-' :: '-' :: s))
    (hjoined : joined.argument? = some argument) :
    (name, flag) ∈ flagNames ∧ ∃ start, start <+: name.toList ∧
      splitEquals ('-' :: '-' :: s) = (start, some argument) := by
  rw [abbreviations, List.mem_filterMap] at h
  obtain ⟨⟨name', flag'⟩, hmem, h⟩ := h
  simp only at h
  split at h
  next hprefix =>
    simp only [Option.some.injEq, Prod.mk.injEq] at h
    obtain ⟨rfl, rfl, rfl⟩ := h
    refine ⟨hmem, _, List.isPrefixOf_iff_prefix.1 hprefix, Prod.ext rfl ?_⟩
    cases hrest : (splitEquals ('-' :: '-' :: s)).2 with
    | none =>
        rw [hrest] at hjoined
        cases hjoined
    | some rest =>
        rw [hrest] at hjoined
        exact hjoined
  · cases h

/-- What starts otherwise is joined to a name of two characters. -/
theorem eq_help_of_mem_abbreviations {s : List Char} {flag : Flag} {name : String}
    {joined : Joined} (h : (flag, name, joined) ∈ abbreviations s)
    (hdashes : ∀ rest, s ≠ '-' :: '-' :: rest) : flag = .help := by
  unfold abbreviations at h
  split at h
  next rest => exact absurd rfl (hdashes rest)
  · obtain ⟨⟨name', flag'⟩, hmem, h⟩ := List.mem_filterMap.1 h
    simp only at h
    split at h
    next htake =>
      cases h
      refine eq_help_of_length_le hmem ?_
      rw [htake]
      exact List.length_take_le 2 s
    · cases h

/-- Two dashes alone are the beginning of all three long names. -/
theorem two_lt_length_of_splitEquals {s start argument : List Char}
    (h : splitEquals ('-' :: '-' :: s) = (start, some argument))
    (hlength : (abbreviations ('-' :: '-' :: s)).length ≠ 3) : 2 < start.length := by
  have hjoin := splitEquals_eq_some h
  -- The equals sign stands after both dashes, so there are at least these two before it.
  match start, hjoin with
  | [], hjoin => exact absurd (List.cons.inj hjoin).1 (by decide)
  | [_], hjoin => exact absurd (List.cons.inj (List.cons.inj hjoin).2).1 (by decide)
  | [_, _], hjoin =>
    simp only [List.cons_append, List.nil_append, List.cons.injEq] at hjoin
    obtain ⟨rfl, rfl, _⟩ := hjoin
    exact absurd (by simp [abbreviations, h, flagNames]) hlength
  | _ :: _ :: _ :: _, _ => simp

theorem two_lt_length_label (flag : Flag) : 2 < flag.label.toList.length := by
  cases flag <;> decide

/-- An argument that stands for an option and joins a double dash to it takes the argument of the
option away. -/
theorem Token.withdraws_of_ofArgument {argument : String} {flag : Flag} {name : String}
    {joined : Joined} (h : Token.ofArgument argument = .ok (.option flag name joined))
    (hjoined : joined.argument? = some "--".toList) (hflag : flag ≠ .help) :
    Withdraws flag argument := by
  unfold Token.ofArgument at h
  simp only at h
  split at h
  · cases h
  split at h
  · cases h
    cases hjoined
  split at h
  next found given hlookup hgiven =>
    cases h
    obtain rfl : given = "--".toList := by simpa [Joined.argument?] using hjoined
    have hname : (splitEquals argument.toList).1 = flag.label.toList := by
      rw [← eq_label_of_mem_flagNames (mem_of_lookup_eq_some hlookup) hflag,
        String.toList_ofList]
    exact ⟨_, List.prefix_rfl, two_lt_length_label flag, splitEquals_eq_some (Prod.ext hname hgiven)⟩
  split at h
  next habbreviations =>
    cases h
    have hmem : (flag, name, joined) ∈ abbreviations argument.toList := by
      rw [habbreviations]
      exact List.mem_singleton_self _
    -- After a single dash only the short name of help is recognised.
    by_cases hdashes : ∃ rest, argument.toList = '-' :: '-' :: rest
    · obtain ⟨rest, hrest⟩ := hdashes
      rw [hrest] at hmem habbreviations
      obtain ⟨hname, start, hprefix, hsplit⟩ := mem_abbreviations_dashes hmem hjoined
      rw [eq_label_of_mem_flagNames hname hflag] at hprefix
      refine ⟨start, hprefix, ?_, hrest.trans (splitEquals_eq_some hsplit)⟩
      exact two_lt_length_of_splitEquals hsplit (by simp [habbreviations])
    · exact absurd (eq_help_of_mem_abbreviations hmem (not_exists.1 hdashes)) hflag
  · split at h <;> cases h
  · cases h

theorem isBuiltIn_of_ofName? {name : String} {L : Layout} (h : ofName? name = some L) :
    L.isBuiltIn = true := by
  have hall : ∀ entry ∈ aliases, entry.2.isBuiltIn = true := by decide
  exact hall (name, L) (mem_of_lookup_eq_some h)

/-- A token that takes an argument away comes from an argument that does so. -/
def Token.Explained (arguments : List String) (token : Token) : Prop :=
  ∀ flag name joined, token = .option flag name joined → joined.argument? = some "--".toList →
    flag ≠ .help → ∃ a ∈ arguments, Withdraws flag a

namespace Progress

variable {arguments : List String} {progress : Progress}

/-- What has been read so far leads to explained settings. -/
def Explained (arguments : List String) (progress : Progress) : Prop :=
  CommandLine.Explained arguments progress.source progress.logLevel

theorem explained_start : Explained arguments {} :=
  ⟨by simp [isBuiltIn], by simp, by simp⟩

theorem Explained.take (h : progress.Explained arguments) (group : List String) :
    (progress.take group).Explained arguments := by
  unfold Progress.take
  split <;> exact h

theorem Explained.takeLast (h : progress.Explained arguments) (group : List String)
    (after : Option (List String)) : (progress.takeLast group after).Explained arguments := by
  unfold Progress.takeLast
  split
  · exact h.take group
  · split
    · exact h.take _
    · exact h

theorem Explained.give (h : progress.Explained arguments) {flag : Flag} {argument : String}
    {given : Progress} (hgiven : progress.give flag argument = .ok given) :
    given.Explained arguments := by
  unfold Progress.give at hgiven
  cases flag with
  | help =>
      cases hgiven
      exact h
  | source =>
      simp only at hgiven
      split at hgiven
      next L hname =>
        cases hgiven
        refine ⟨?_, fun hnone => (by cases hnone), h.logLevelWithdrawn⟩
        rintro _ ⟨⟩
        exact isBuiltIn_of_ofName? hname
      · cases hgiven
  | logLevel =>
      cases hgiven
      exact ⟨h.isBuiltIn, h.sourceWithdrawn, fun hnone => (by cases hnone)⟩

theorem Explained.withdraw (h : progress.Explained arguments) {flag : Flag}
    (hflag : flag ≠ .help → ∃ a ∈ arguments, Withdraws flag a) :
    (progress.withdraw flag).Explained arguments := by
  cases flag with
  | help => exact h
  | source =>
      exact ⟨fun _ hsome => (by cases hsome), fun _ => hflag (by decide), h.logLevelWithdrawn⟩
  | logLevel => exact ⟨h.isBuiltIn, h.sourceWithdrawn, fun _ => hflag (by decide)⟩

theorem Explained.giveJoined (h : progress.Explained arguments) {flag : Flag} {name : String}
    {joined : Joined} {argument : List Char} {given : Progress}
    (htoken : (Token.option flag name joined).Explained arguments)
    (hjoined : joined.argument? = some argument)
    (hgiven : progress.giveJoined flag (String.ofList argument) = .ok given) :
    given.Explained arguments := by
  unfold Progress.giveJoined at hgiven
  split at hgiven
  next hdashes =>
    cases hgiven
    apply h.withdraw
    apply htoken flag name joined rfl
    rw [hjoined, ← hdashes, String.toList_ofList]
  · exact h.give hgiven

theorem Explained.of_finish (h : progress.Explained arguments) {settings : Settings}
    (hfinish : progress.finish = .ok (.inspect settings)) :
    CommandLine.Explained arguments settings.source settings.logLevel := by
  unfold finish at hfinish
  split at hfinish
  · cases hfinish
  · split at hfinish
    · cases hfinish
      exact h
    · cases hfinish

end Progress

/-- Reading goes from explained progress to explained settings. -/
theorem explained_of_readTokens {arguments : List String} {after : Option (List String)}
    {tokens : List Token} {progress : Progress} {pending : List String} {settings : Settings}
    (h : progress.Explained arguments) (htokens : ∀ t ∈ tokens, t.Explained arguments)
    (hread : readTokens after tokens progress pending = .ok (.inspect settings)) :
    Explained arguments settings.source settings.logLevel := by
  induction tokens, progress, pending using readTokens.induct with
  | case1 progress pending => exact (h.takeLast pending after).of_finish hread
  | case2 text rest progress pending ih =>
      exact ih h (List.forall_mem_cons.1 htokens).2 hread
  | case3 text rest progress pending taken ih =>
      exact ih (h.take pending) (List.forall_mem_cons.1 htokens).2 hread
  | case4 name joined rest progress pending hcheck =>
      rw [readTokens, hcheck] at hread
      cases hread
  | case5 name joined rest progress pending e hcheck =>
      rw [readTokens, hcheck] at hread
      cases hread
  | case6 flag name argument rest progress pending hflag ih
  | case7 flag name argument rest progress pending hflag ih =>
      obtain ⟨htoken, hrest⟩ := List.forall_mem_cons.1 htokens
      rw [readTokens] at hread
      · obtain ⟨given, hgiven, hread⟩ := exists_of_bind_eq_ok hread
        exact ih given ((h.take pending).giveJoined htoken rfl hgiven) hrest hread
      · exact hflag
  | case8 flag name argument rest progress pending hflag ih =>
      obtain ⟨_, hrest⟩ := List.forall_mem_cons.1 (List.forall_mem_cons.1 htokens).2
      rw [readTokens] at hread
      · obtain ⟨given, hgiven, hread⟩ := exists_of_bind_eq_ok hread
        exact ih given ((h.take pending).give hgiven) hrest hread
      · exact hflag
  | case9 flag name rest progress pending hflag hvalue =>
      rw [readTokens] at hread
      · cases hread
      · exact hflag
      · exact hvalue

theorem explained_of_ofArguments {arguments : List String} {settings : Settings}
    (h : Request.ofArguments arguments = .ok (.inspect settings)) :
    Explained arguments settings.source settings.logLevel := by
  rw [Request.ofArguments, List.span_eq_takeWhile_dropWhile] at h
  obtain ⟨tokens, htokens, hread⟩ := exists_of_bind_eq_ok h
  refine explained_of_readTokens Progress.explained_start ?_ hread
  rintro token htoken flag name joined rfl hjoined hflag
  obtain ⟨argument, hmem, hargument⟩ := exists_of_mapM_eq_ok htokens htoken
  exact ⟨argument, List.takeWhile_subset _ hmem,
    Token.withdraws_of_ofArgument hargument hjoined hflag⟩

end HalfPrecision.CommandLine
