import De1Soc.Devmem.Lookup
import De1Soc.Getopt.Spelling

/-!
# De1Soc.Devmem.Spelling

Short and long spellings in `driver/test`.

The string `"dlc:sh"` and the table declare the same options but for `d`: the
long `write_led` takes an argument, the short `d` does not, and the handler
reads `optarg` in either case.  The two spellings have the same outcome exactly
on the command lines without this option: `outcome_of_alike` is about these, and
`outcome_of_mentions` about the others.
-/

namespace De1Soc.Devmem

open Getopt

namespace Tool

/-- The command line with long options for its short ones. -/
def inLong (tool : Tool) : List (List Char) → List (List Char)
  | [] => []
  | a :: args => a :: toLong tool.options args

/-- The command line with short options for its long ones. -/
def inShort (tool : Tool) : List (List Char) → List (List Char)
  | [] => []
  | a :: args => a :: toShort tool.options args

/-- `parse_cmdline` ends the program with a message. -/
def Rejects (tool : Tool) (argv : List (List Char)) : Prop :=
  ∃ tr extra message, tool.parseCmdline argv = some (tr, .error (.error extra message))

/-- `parse_cmdline` returns with these globals. -/
def Accepts (tool : Tool) (argv : List (List Char)) (g : Globals) : Prop :=
  ∃ tr, tool.parseCmdline argv = some (tr, .ok g)

/-- A handler uses `optarg` although there is no argument. -/
def UsesNull (tool : Tool) (argv : List (List Char)) : Prop :=
  ∃ tr, tool.parseCmdline argv = some (tr, .error .nullOptarg)

/-- Both command lines are rejected, or both are accepted with the same action
and the same `param_value`. -/
def SameOutcome (tool : Tool) (argv argv' : List (List Char)) : Prop :=
  tool.Rejects argv ∧ tool.Rejects argv' ∨ ∃ g, tool.Accepts argv g ∧ tool.Accepts argv' g

/-- **The spellings agree**: replacing short options by long ones or long ones
by short ones has the same outcome, and no handler misses its argument. -/
def SpellingsAgree (tool : Tool) (argv : List (List Char)) : Prop :=
  tool.SameOutcome argv (tool.inLong argv) ∧ tool.SameOutcome argv (tool.inShort argv) ∧
    ¬ tool.UsesNull argv

/-- The outcome of a reading. -/
def outcome (tool : Tool) (g : Globals) (x : List Token × List (List Char)) : Except Stop Globals :=
  (x.1.foldlM tool.handle g).bind fun g' => tool.verdict g' x.2

end Tool

theorem parseCmdline_eq_outcome (tool : Tool) (argv : List (List Char)) :
    tool.parseCmdline argv = some (reached tool.handle .initial (tool.decoded argv).1,
      tool.outcome .initial (tool.decoded argv)) :=
  tool.parseCmdline_eq argv

section Steps

variable {tool : Tool} {g g' : Globals} {t : Token} (ts : List Token) (ns : List (List Char))

theorem outcome_of_ok (h : tool.handle g t = .ok g') :
    tool.outcome g (t :: ts, ns) = tool.outcome g' (ts, ns) := by
  simp only [Tool.outcome, List.foldlM_cons, h]
  rfl

theorem outcome_of_error {e : Stop} (h : tool.handle g t = .error e) :
    tool.outcome g (t :: ts, ns) = .error e := by
  simp only [Tool.outcome, List.foldlM_cons, h]
  rfl

/-- The checks return what they are given, or end the program with a message. -/
theorem outcome_nil (tool : Tool) (g : Globals) (ns : List (List Char)) :
    tool.outcome g ([], ns) = .ok g ∨
      ∃ extra message, tool.outcome g ([], ns) = .error (.error extra message) := by
  by_cases h : ns ≠ [] ∨ tool.actionCount g ≠ 1
  · exact .inr (verdict_eq_error h)
  · simp only [ne_eq, not_or, not_not] at h
    obtain ⟨rfl, hcount⟩ := h
    exact .inl (verdict_eq_ok hcount)

end Steps

/-! ## The options of `driver/test` -/

theorem driverTest_twin : Twin driverTest.options 'd' where
  name := by decide
  long := by decide
  short := by decide
  hasArg := by decide
  dash := by decide
  shortArg_eq := by decide

/-- Every handler but that of `d` gets its argument. -/
theorem driverTest_supplies {c : Char} (hc : c ≠ 'd') : driverTest.Supplies c := by
  have h : ∀ cmd ∈ driverTest.commands, cmd.letter ≠ 'd' → cmd.takesValue = true →
      driverTest.SuppliesLetter cmd.letter := by decide
  rintro cmd hcmd rfl
  exact h cmd hcmd hc

/-- The handler of a short `d` reads through the null pointer. -/
theorem handle_lacks (g : Globals) :
    driverTest.handle g (.opt none 'd' none) = .error .nullOptarg := rfl

/-- An option for another letter is handled, and its spelling does not matter. -/
theorem handle_of_ne (g : Globals) {long : Option (List Char)} (long' : Option (List Char))
    {val : Char} {arg : Option (List Char)} (hval : val ≠ 'd')
    (ht : (Token.opt long val arg).Genuine driverTest.options) :
    ∃ g', driverTest.handle g (.opt long val arg) = .ok g' ∧
      driverTest.handle g (.opt long' val arg) = .ok g' := by
  obtain ⟨_, _, _, g', hg', _⟩ := handle_opt driverTest_covers (driverTest_supplies hval) g ht
  exact ⟨g', hg', hg'⟩

section Outcomes

variable {x y : List Token × List (List Char)}

/-- **Without `d`** readings that are alike have the same outcome. -/
theorem outcome_of_alike {stop : Token → List Token → Prop}
    (h : Alike driverTest.options 'd' stop x y) (hx : ∀ t ∈ x.1, t.Genuine driverTest.options)
    (hd : ¬ Mentions driverTest.options 'd' x.1) (g : Globals) :
    (∃ extra message, driverTest.outcome g x = .error (.error extra message)) ∧
        (∃ extra message, driverTest.outcome g y = .error (.error extra message)) ∨
      ∃ g', driverTest.outcome g x = .ok g' ∧ driverTest.outcome g y = .ok g' := by
  induction h generalizing g with
  | done ns =>
      rcases outcome_nil driverTest g ns with hok | herror
      · exact .inr ⟨g, hok, hok⟩
      · exact .inl ⟨herror, herror⟩
  | opt long long' arg hval _ ih =>
      rw [List.forall_mem_cons] at hx
      obtain ⟨g', hg', hg''⟩ := handle_of_ne g long' hval hx.1
      rw [outcome_of_ok _ _ hg', outcome_of_ok _ _ hg'']
      exact ih hx.2 (fun htail => hd (comes_cons.mpr (.inr ⟨rfl, htail⟩))) g'
  | @bad ts ts' ns ns' long long' hlong =>
      rw [outcome_of_error ts ns (handle_bad driverTest_covers long),
        outcome_of_error ts' ns' (handle_bad driverTest_covers long')]
      exact .inl ⟨⟨_, _, rfl⟩, ⟨_, _, rfl⟩⟩
  | differ ts ns ns' ht _ => exact absurd (comes_cons.mpr (.inl ht)) hd

/-- **With `d`** one of two readings ends in a handler without its argument. -/
theorem outcome_of_mentions (h : Alike driverTest.options 'd' (Lacks 'd') x y)
    (hx : ∀ t ∈ x.1, t.Genuine driverTest.options) (hd : Mentions driverTest.options 'd' x.1)
    (g : Globals) :
    driverTest.outcome g x = .error .nullOptarg ∨ driverTest.outcome g y = .error .nullOptarg := by
  induction h generalizing g with
  | done ns => exact absurd hd (not_comes_nil _ _)
  | opt long long' arg hval _ ih =>
      rw [List.forall_mem_cons] at hx
      obtain ⟨g', hg', hg''⟩ := handle_of_ne g long' hval hx.1
      rw [outcome_of_ok _ _ hg', outcome_of_ok _ _ hg'']
      rcases comes_cons.mp hd with hstands | ⟨_, htail⟩
      · exact absurd (Option.some.inj hstands) hval
      · exact ih hx.2 htail g'
  | bad ts ts' ns ns' long' hlong =>
      rcases comes_cons.mp hd with hstands | ⟨hopt, _⟩
      · exact absurd hstands hlong
      · contradiction
  | differ ts ns ns' ht hlacks =>
      rcases hlacks with rfl | ⟨us, rfl⟩
      · exact .inl (outcome_of_error ts ns (handle_lacks g))
      · exact .inr (outcome_of_error us ns' (handle_lacks g))

end Outcomes

/-! ## The two spellings -/

theorem decoded_inLong_alike (argv : List (List Char)) :
    Alike driverTest.options 'd' (fun _ _ => True) (driverTest.decoded argv)
      (driverTest.decoded (driverTest.inLong argv)) := by
  cases argv with
  | nil => exact .done []
  | cons a args => exact driverTest_twin.toLong_alike args

theorem decoded_inShort_alike (argv : List (List Char)) :
    Alike driverTest.options 'd' (Lacks 'd') (driverTest.decoded argv)
      (driverTest.decoded (driverTest.inShort argv)) := by
  cases argv with
  | nil => exact .done []
  | cons a args => exact driverTest_twin.toShort_alike args

/-- Alike readings without `d` have the same outcome for `parse_cmdline`. -/
theorem sameOutcome_of_alike {stop : Token → List Token → Prop} {argv argv' : List (List Char)}
    (h : Alike driverTest.options 'd' stop (driverTest.decoded argv) (driverTest.decoded argv'))
    (hd : ¬ Mentions driverTest.options 'd' (driverTest.decoded argv).1) :
    driverTest.SameOutcome argv argv' ∧ ¬ driverTest.UsesNull argv := by
  have hcases := outcome_of_alike h (decoded_genuine driverTest argv) hd .initial
  unfold Tool.SameOutcome Tool.Rejects Tool.Accepts Tool.UsesNull
  simp only [parseCmdline_eq_outcome]
  rcases hcases with ⟨⟨extra, message, hx⟩, ⟨extra', message', hy⟩⟩ | ⟨g, hx, hy⟩
  · refine ⟨.inl ⟨⟨_, extra, message, by rw [hx]⟩, ⟨_, extra', message', by rw [hy]⟩⟩, ?_⟩
    simp [hx]
  · refine ⟨.inr ⟨g, ⟨_, by rw [hx]⟩, ⟨_, by rw [hy]⟩⟩, ?_⟩
    simp [hx]

/-- No outcome is the same as that of a handler without its argument. -/
theorem not_sameOutcome_of_null {tool : Tool} {argv argv' : List (List Char)}
    (h : tool.outcome .initial (tool.decoded argv') = .error .nullOptarg) :
    ¬ tool.SameOutcome argv argv' := by
  unfold Tool.SameOutcome Tool.Rejects Tool.Accepts
  simp [parseCmdline_eq_outcome, h]

/-- **The spellings agree** exactly on the command lines that have no option for
`d`, be it `-d`, `--write_led` or an abbreviation, before their first error or
in it. -/
theorem spellings_agree_iff (argv : List (List Char)) :
    driverTest.SpellingsAgree argv ↔
      ¬ Mentions driverTest.options 'd' (driverTest.decoded argv).1 := by
  constructor
  · rintro ⟨_, hshort, hnull⟩ hd
    rcases outcome_of_mentions (decoded_inShort_alike argv) (decoded_genuine driverTest argv) hd
      .initial with hx | hy
    · exact hnull ⟨_, by rw [parseCmdline_eq_outcome, hx]⟩
    · exact not_sameOutcome_of_null hy hshort
  · intro hd
    obtain ⟨hlong, hnull⟩ := sameOutcome_of_alike (decoded_inLong_alike argv) hd
    exact ⟨hlong, (sameOutcome_of_alike (decoded_inShort_alike argv) hd).1, hnull⟩

/-- `--write_led 5` writes the byte five to the LEDs, and `-d 5` reads through
the null pointer. -/
theorem write_led_spellings_differ :
    driverTest.inShort ["tool".toList, "--write_led".toList, "5".toList] =
        ["tool".toList, "-d".toList, "5".toList] ∧
      driverTest.Accepts ["tool".toList, "--write_led".toList, "5".toList] ⟨{'d'}, 5⟩ ∧
      driverTest.UsesNull ["tool".toList, "-d".toList, "5".toList] ∧
      ¬ driverTest.SpellingsAgree ["tool".toList, "--write_led".toList, "5".toList] ∧
      ¬ driverTest.SpellingsAgree ["tool".toList, "-d".toList, "5".toList] := by
  have hshort : driverTest.inShort ["tool".toList, "--write_led".toList, "5".toList] =
      ["tool".toList, "-d".toList, "5".toList] := by decide
  have hlong : driverTest.parseCmdline ["tool".toList, "--write_led".toList, "5".toList] =
      some ([.opt (some "write_led".toList) 'd' (some "5".toList)], .ok ⟨{'d'}, 5⟩) := by decide
  have hnull : driverTest.parseCmdline ["tool".toList, "-d".toList, "5".toList] =
      some ([.opt none 'd' none], .error .nullOptarg) := by decide
  have houtcome : driverTest.outcome .initial
      (driverTest.decoded ["tool".toList, "-d".toList, "5".toList]) = .error .nullOptarg := by decide
  refine ⟨hshort, ⟨_, hlong⟩, ⟨_, hnull⟩, ?_, ?_⟩
  · rintro ⟨_, hsame, _⟩
    rw [hshort] at hsame
    exact not_sameOutcome_of_null houtcome hsame
  · rintro ⟨_, _, huses⟩
    exact huses ⟨_, hnull⟩

end De1Soc.Devmem
