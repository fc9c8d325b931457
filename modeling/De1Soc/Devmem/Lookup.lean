import De1Soc.Devmem.Parse

/-!
# De1Soc.Devmem.Lookup

Where the search for a long option ends.

None of the three `long_options` tables has the entry with a null name that
`getopt_long` looks for, so the scan for a name that is not declared runs off
the array.  An abbreviation is such a name, even where it is unambiguous.
`searchesInside_iff` says which command lines keep all searches inside.
-/

namespace De1Soc.Devmem

open Getopt

namespace Tool

/-- Every search that `getopt_long` makes for `parse_cmdline` ends within the
array. -/
def SearchesInside (tool : Tool) (argv : List (List Char)) : Prop :=
  ∃ tr r, tool.parseCmdline argv = some (tr, r) ∧ ∀ t ∈ tr, ∀ name, t.searched = some name →
    ∃ i, scan tool.options.long name = some i ∧ i < tool.options.long.length

/-- The token ends the program: it is no option, or its handler takes an
argument that it does not have. -/
def Ends (tool : Tool) (t : Token) : Prop :=
  t.isOpt = false ∨
    ∃ cmd ∈ tool.commands, cmd.letter = t.ret ∧ cmd.takesValue = true ∧ t.optarg = none

/-- The command line has a long option with this name, and nothing before it
ends the program. -/
def Encounters (tool : Tool) (argv : List (List Char)) (name : List Char) : Prop :=
  Comes (¬ tool.Ends ·) (·.searched = some name) (tool.decoded argv).1

/-- The name is in the table, written out. -/
def Declares (tool : Tool) (name : List Char) : Prop :=
  ∃ o ∈ tool.options.long, o.name = some name

end Tool

section Searches

variable {tool : Tool}

/-- **What ends the loop** does not depend on what was read before. -/
theorem handle_error_iff (h : tool.Covers) (g : Globals) {t : Token}
    (ht : t.Genuine tool.options) : (∃ e, tool.handle g t = .error e) ↔ tool.Ends t := by
  cases t with
  | bad long => exact iff_of_true ⟨_, handle_bad h long⟩ (.inl rfl)
  | opt long val arg =>
      obtain ⟨cmd, hcmd, hfind, hletter⟩ :=
        exists_command (c := (Token.opt long val arg).ret) (ret_mem_letters h ht)
      rw [Tool.handle, hfind]
      by_cases hvalue : cmd.takesValue = true
      · cases arg with
        | none =>
            exact iff_of_true ⟨.nullOptarg, if_pos hvalue⟩ (.inr ⟨cmd, hcmd, hletter, hvalue, rfl⟩)
        | some a =>
            refine iff_of_false ?_ ?_
            · simp [hvalue, Token.optarg]
            · simp [Tool.Ends, Token.isOpt, Token.optarg]
      · refine iff_of_false ?_ ?_
        · simp [hvalue]
        · rintro (hopt | ⟨cmd', hcmd', hletter', hvalue', _⟩)
          · contradiction
          · have hsame : cmd' = cmd :=
              List.inj_on_of_nodup_map h.nodup hcmd' hcmd (hletter'.trans hletter.symm)
            exact hvalue (hsame ▸ hvalue')

/-- **The searches stay inside** exactly when every name they are for is written
out. -/
theorem searchesInside_iff (h : tool.Covers) (hnull : ∀ o ∈ tool.options.long, o.name ≠ none)
    (argv : List (List Char)) :
    tool.SearchesInside argv ↔ ∀ name, tool.Encounters argv name → tool.Declares name := by
  have hends : ∀ g, ∀ t ∈ (tool.decoded argv).1, (∃ e, tool.handle g t = .error e) ↔ tool.Ends t :=
    fun g t ht => handle_error_iff h g (decoded_genuine tool argv t ht)
  have hreached := mem_reached_iff hends .initial
  constructor
  · rintro ⟨tr, r, hparse, hinside⟩ name ⟨pre, t, post, hdecoded, hpre, hname⟩
    rw [Tool.parseCmdline_eq, Option.some.injEq, Prod.mk.injEq] at hparse
    have ht : t ∈ tr := hparse.1 ▸ (hreached t).mpr ⟨pre, t, post, hdecoded, hpre, rfl⟩
    exact (scan_stops_iff hnull name).mp (hinside t ht name hname)
  · intro hdeclared
    refine ⟨_, _, tool.parseCmdline_eq argv, fun t ht name hname => ?_⟩
    obtain ⟨pre, t, post, hdecoded, hpre, rfl⟩ := (hreached t).mp ht
    exact (scan_stops_iff hnull name).mpr (hdeclared name ⟨pre, t, post, hdecoded, hpre, hname⟩)

end Searches

theorem driverTest_covers : driverTest.Covers where
  nodup := by decide
  short := by decide
  long := by decide
  question := by decide

/-- **In none of the three tools** do the searches stay inside for a name that
is not written out. -/
theorem option_lookup_inside_iff (argv : List (List Char)) :
    (blinkerDevmemTest.SearchesInside argv ↔
      ∀ name, blinkerDevmemTest.Encounters argv name → blinkerDevmemTest.Declares name) ∧
    (gpioTestDevmem.SearchesInside argv ↔
      ∀ name, gpioTestDevmem.Encounters argv name → gpioTestDevmem.Declares name) ∧
    (driverTest.SearchesInside argv ↔
      ∀ name, driverTest.Encounters argv name → driverTest.Declares name) :=
  ⟨searchesInside_iff blinkerDevmemTest_covers (by decide) argv,
    searchesInside_iff gpioTestDevmem_covers (by decide) argv,
    searchesInside_iff driverTest_covers (by decide) argv⟩

theorem not_searchesInside {tool : Tool} {argv : List (List Char)} {tr : List Token}
    {r : Except Stop Globals} {t : Token} {name : List Char}
    (hparse : tool.parseCmdline argv = some (tr, r)) (ht : t ∈ tr) (hname : t.searched = some name)
    (hscan : scan tool.options.long name = none) : ¬ tool.SearchesInside argv := by
  rintro ⟨tr', r', hparse', hinside⟩
  obtain ⟨rfl, rfl⟩ := Prod.mk.inj (Option.some.inj (hparse.symm.trans hparse'))
  obtain ⟨i, hi, _⟩ := hinside t ht name hname
  rw [hscan] at hi
  contradiction

/-- The search for `--read` runs off all three arrays; in the first two tools
this abbreviation is unambiguous. -/
theorem read_abbreviation_overruns :
    ¬ blinkerDevmemTest.SearchesInside ["tool".toList, "--read".toList] ∧
    ¬ gpioTestDevmem.SearchesInside ["tool".toList, "--read".toList] ∧
    ¬ driverTest.SearchesInside ["tool".toList, "--read".toList] := by
  have hblinker : blinkerDevmemTest.parseCmdline ["tool".toList, "--read".toList] =
      some ([.opt (some "read".toList) 's' none], .ok ⟨{'s'}, 0⟩) := by decide
  have hgpio : gpioTestDevmem.parseCmdline ["tool".toList, "--read".toList] =
      some ([.opt (some "read".toList) 's' none], .ok ⟨{'s'}, 0⟩) := by decide
  have hdriver : driverTest.parseCmdline ["tool".toList, "--read".toList] =
      some ([.bad (some "read".toList)], .error wrongOptions) := by decide
  exact ⟨not_searchesInside hblinker (List.mem_singleton_self _) rfl (by decide),
    not_searchesInside hgpio (List.mem_singleton_self _) rfl (by decide),
    not_searchesInside hdriver (List.mem_singleton_self _) rfl (by decide)⟩

end De1Soc.Devmem
