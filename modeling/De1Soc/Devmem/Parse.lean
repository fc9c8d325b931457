import De1Soc.Devmem

/-!
# De1Soc.Devmem.Parse

One action per invocation.

`parseCmdline_eq` replaces the loop by a fold over the options of the command
line, and the checks behind it by `verdict`.  In a tool whose option tables
cover its commands (`Covers`) and supply every handler with the argument that it
takes (`Supplies`) a fold over declared options succeeds, and records their
letters and the last argument.  `oneAction_of_covers` is the result.
-/

namespace De1Soc.Devmem

open Getopt

namespace Tool

/-- The options and the other arguments of a command line. -/
def decoded (tool : Tool) (argv : List (List Char)) : List Token × List (List Char) :=
  decode tool.options false argv.tail

/-- The checks behind the loop, on the arguments that are left. -/
def verdict (tool : Tool) (g : Globals) (left : List (List Char)) : Except Stop Globals :=
  if left ≠ [] then .error (.error left "ERROR: wrong command line options")
  else if tool.actionCount g = 0 then .error (.error [] "ERROR: no options parsed")
  else if 1 < tool.actionCount g then .error (.error [] "ERROR: too many options parsed")
  else .ok g

theorem checks_eq_verdict (tool : Tool) (g : Globals) (st : State) :
    tool.checks g st = tool.verdict g st.left := by
  have hleft : st.left ≠ [] ↔ st.optind < st.argv.length := by
    rw [State.left, ne_eq, List.drop_eq_nil_iff, not_le]
  unfold checks verdict
  by_cases h : st.optind < st.argv.length
  · rw [if_pos h, if_pos (hleft.mpr h)]
  · rw [if_neg h, if_neg (hleft.not.mpr h)]

/-- **`parse_cmdline`** always comes to an end: it folds the handlers over the
options, and then makes its checks. -/
theorem parseCmdline_eq (tool : Tool) (argv : List (List Char)) :
    tool.parseCmdline argv = some (reached tool.handle .initial (tool.decoded argv).1,
      ((tool.decoded argv).1.foldlM tool.handle .initial).bind fun g =>
        tool.verdict g (tool.decoded argv).2) :=
  loop_bind_eq tool.options tool.handle argv .initial (Nat.lt_succ_self (weight argv))
    tool.checks_eq_verdict

/-! ## The handlers -/

/-- Every option that is declared is a command, and `?` is none. -/
structure Covers (tool : Tool) : Prop where
  nodup : tool.letters.Nodup
  short : tool.options.short.all
    (fun c => (shortArg tool.options.short c).isNone || tool.letters.contains c) = true
  long : ∀ o ∈ tool.options.long, o.ret ∈ tool.letters
  question : '?' ∉ tool.letters

/-- An option for `c` always has an argument. -/
def SuppliesLetter (tool : Tool) (c : Char) : Prop :=
  shortArg tool.options.short c = some .required ∧
    ∀ o ∈ tool.options.long, o.ret = c → o.hasArg = .required

instance (tool : Tool) (c : Char) : Decidable (tool.SuppliesLetter c) :=
  inferInstanceAs (Decidable (_ ∧ _))

/-- Every handler of an option for `c` that takes an argument gets one. -/
def Supplies (tool : Tool) (c : Char) : Prop :=
  ∀ cmd ∈ tool.commands, cmd.letter = c → cmd.takesValue = true → tool.SuppliesLetter c

end Tool

section Handlers

variable {tool : Tool} {g g' : Globals} {t : Token} {ts : List Token}

theorem ret_mem_letters (h : tool.Covers) {long : Option (List Char)} {val : Char}
    {arg : Option (List Char)} (ht : (Token.opt long val arg).Genuine tool.options) :
    val ∈ tool.letters := by
  cases long with
  | none =>
      obtain ⟨k, hk, _⟩ := ht
      have hval := List.all_eq_true.mp h.short val (mem_of_shortArg hk)
      simpa [hk] using hval
  | some name =>
      obtain ⟨o, ho, rfl, _⟩ := ht
      exact h.long o (mem_of_lookup ho)

/-- The command of a letter. -/
theorem exists_command {c : Char} (hc : c ∈ tool.letters) :
    ∃ cmd ∈ tool.commands, tool.commands.find? (·.letter = c) = some cmd ∧ cmd.letter = c := by
  obtain ⟨cmd, hmem, rfl⟩ := List.mem_map.mp hc
  cases hfind : tool.commands.find? (·.letter = cmd.letter) with
  | none =>
      have hne := List.find?_eq_none.mp hfind cmd hmem
      simp at hne
  | some cmd' =>
      have hletter := List.find?_some hfind
      exact ⟨cmd', List.mem_of_find?_eq_some hfind, rfl, by simpa using hletter⟩

theorem supplies_of_forall (h : ∀ cmd ∈ tool.commands, cmd.takesValue = true →
    tool.SuppliesLetter cmd.letter) (c : Char) : tool.Supplies c := by
  rintro cmd hcmd rfl
  exact h cmd hcmd

theorem handle_bad (h : tool.Covers) (long : Option (List Char)) :
    tool.handle g (.bad long) = .error wrongOptions := by
  have hfind : tool.commands.find? (·.letter = (Token.bad long).ret) = none := by
    rw [List.find?_eq_none]
    intro cmd hcmd
    have hne : cmd.letter ≠ '?' := fun heq => h.question (heq ▸ List.mem_map_of_mem hcmd)
    exact fun hdec => hne (of_decide_eq_true hdec)
  rw [Tool.handle, hfind]

/-- Where a handler takes an argument, the option has one. -/
theorem optarg_isSome {c : Char} (hs : tool.SuppliesLetter c) {long : Option (List Char)}
    {arg : Option (List Char)} (ht : (Token.opt long c arg).Genuine tool.options) :
    ∃ a, arg = some a := by
  obtain ⟨hshort, hlong⟩ := hs
  rw [← Option.isSome_iff_exists]
  cases long with
  | none =>
      obtain ⟨k, hk, hfits⟩ := ht
      obtain rfl : HasArg.required = k := Option.some.inj (hshort.symm.trans hk)
      exact hfits
  | some name =>
      obtain ⟨o, ho, hret, hfits⟩ := ht
      rwa [hlong o (mem_of_lookup ho) hret.symm] at hfits

/-- **One option.**  Its letter is recorded, and its argument where the handler
takes one. -/
theorem handle_opt (h : tool.Covers) {val : Char} (hs : tool.Supplies val) (g : Globals)
    {long : Option (List Char)} {arg : Option (List Char)}
    (ht : (Token.opt long val arg).Genuine tool.options) :
    ∃ cmd ∈ tool.commands, cmd.letter = val ∧
      ∃ g', tool.handle g (.opt long val arg) = .ok g' ∧ g'.given = insert val g.given ∧
        (cmd.takesValue = true → ∃ a, arg = some a ∧ g'.paramValue = BitVec.ofInt 8 (atoi a)) := by
  obtain ⟨cmd, hcmd, hfind, hval⟩ :=
    exists_command (c := (Token.opt long val arg).ret) (ret_mem_letters h ht)
  obtain rfl : cmd.letter = val := hval
  refine ⟨cmd, hcmd, rfl, ?_⟩
  rw [Tool.handle, hfind]
  by_cases hvalue : cmd.takesValue = true
  · obtain ⟨a, rfl⟩ := optarg_isSome (hs cmd hcmd rfl hvalue) ht
    exact ⟨_, if_pos hvalue, rfl, fun _ => ⟨a, rfl, rfl⟩⟩
  · exact ⟨_, if_neg hvalue, rfl, fun hv => absurd hv hvalue⟩

end Handlers

/-! ## The checks -/

section Checks

variable {tool : Tool} {g : Globals} {left : List (List Char)}

/-- `action_count` is the number of letters that are given. -/
theorem actionCount_eq_card (hnodup : tool.letters.Nodup) (hgiven : ∀ c ∈ g.given, c ∈ tool.letters) :
    tool.actionCount g = g.given.card := by
  have hfilter : tool.letters.toFinset.filter (· ∈ g.given) = g.given := by
    ext c
    simpa using hgiven c
  have hcount : tool.actionCount g = (tool.letters.filter (· ∈ g.given)).length := by
    rw [← List.countP_eq_length_filter, Tool.letters, List.countP_map]
    rfl
  rw [hcount, ← List.toFinset_card_of_nodup (hnodup.filter _), List.toFinset_filter]
  simpa using congrArg Finset.card hfilter

/-- **The checks succeed** when one letter is given and nothing is left. -/
theorem verdict_eq_ok (hcount : tool.actionCount g = 1) : tool.verdict g [] = .ok g := by
  simp [Tool.verdict, hcount]

/-- Else they end the program with a message. -/
theorem verdict_eq_error (h : left ≠ [] ∨ tool.actionCount g ≠ 1) :
    ∃ extra message, tool.verdict g left = .error (.error extra message) := by
  unfold Tool.verdict
  split
  · exact ⟨_, _, rfl⟩
  · next hleft =>
      split
      · exact ⟨_, _, rfl⟩
      · next hzero =>
          have hcount := h.resolve_left hleft
          rw [if_pos (by omega)]
          exact ⟨_, _, rfl⟩

/-- The commands that one letter gives. -/
theorem filter_letter {cmds : List Command} (hnodup : (cmds.map (·.letter)).Nodup) {cmd : Command}
    (hcmd : cmd ∈ cmds) : cmds.filter (·.letter = cmd.letter) = [cmd] := by
  induction cmds with
  | nil => contradiction
  | cons cmd' cmds ih =>
      rw [List.map_cons, List.nodup_cons] at hnodup
      rcases List.mem_cons.mp hcmd with rfl | hmem
      · have hnone : cmds.filter (·.letter = cmd.letter) = [] := by
          rw [List.filter_eq_nil_iff]
          intro cmd' hcmd' heq
          exact hnodup.1 (List.mem_map.mpr ⟨cmd', hcmd', of_decide_eq_true heq⟩)
        rw [List.filter_cons_of_pos (by simp), hnone]
      · have hne : cmd'.letter ≠ cmd.letter :=
          fun heq => hnodup.1 (heq ▸ List.mem_map_of_mem hmem)
        rw [List.filter_cons_of_neg (by simpa using hne), ih hnodup.2 hmem]

end Checks

/-! ## A run -/

section Run

variable {tool : Tool} {env : Env}

/-- The device is mapped. -/
def Env.mapped (env : Env) : Bool := env.openMem && env.mmap

theorem Act.run_isAction (act : Act) (paramValue : BitVec 8) (reg : Nat → BitVec 8) :
    ∀ e ∈ act.run paramValue reg, e.isAction = true := by
  cases act with
  | write offset => simp [Act.run, Event.isAction]
  | read offset fields => simp [Act.run, Event.isAction]
  | help => simp [Act.run, Event.isAction]

/-- `validate_soc_system` neither opens `/dev/mem` nor acts. -/
theorem validateSocSystem_events (tool : Tool) (env : Env) :
    ∀ e ∈ (tool.validateSocSystem env).1, e.isMem = false ∧ e.isAction = false := by
  unfold Tool.validateSocSystem
  split
  · simp [Event.isMem, Event.isAction]
  · split
    · simp [Event.isMem, Event.isAction]
    · split
      · simp [Event.isMem, Event.isAction]
      · simp

/-- An error ends the program before it opens `/dev/mem`. -/
theorem Stop.run_error (extra : List (List Char)) (message : String) :
    ((Stop.error extra message).run).2 = .status 1 ∧
      ∀ e ∈ ((Stop.error extra message).run).1, e.isMem = false := by
  refine ⟨rfl, ?_⟩
  by_cases hextra : extra = []
  · simp [Stop.run, hextra, Event.isMem]
  · simp only [Stop.run, hextra, if_false, List.forall_mem_append, List.forall_mem_cons,
      List.forall_mem_map]
    simp [Event.isMem]

/-- The device is accessed by the actions only, and only when it is mapped. -/
theorem access_filter (tool : Tool) (env : Env) (g : Globals) :
    (tool.access env g).1.filter Event.isAction = if env.mapped then tool.actions env g else [] := by
  have hactions : (tool.actions env g).filter Event.isAction = tool.actions env g := by
    rw [List.filter_eq_self]
    intro e he
    obtain ⟨cmd, _, hcmd⟩ := List.mem_flatMap.mp he
    exact cmd.act.run_isAction _ _ e hcmd
  unfold Tool.access Env.mapped
  cases env.openMem with
  | false => simp [Event.isAction]
  | true =>
      cases env.mmap with
      | false => simp [Event.isAction]
      | true =>
          cases env.munmap with
          | false => simp [Event.isAction, hactions]
          | true => simp [Event.isAction, hactions]

/-- The actions when one letter is given. -/
theorem actions_of_given (hnodup : tool.letters.Nodup) {cmd : Command} (hcmd : cmd ∈ tool.commands)
    {g : Globals} (hgiven : g.given = {cmd.letter}) :
    tool.actions env g = cmd.act.run g.paramValue env.reg := by
  have hfilter : tool.commands.filter (·.letter ∈ g.given) = [cmd] := by
    rw [← filter_letter hnodup hcmd, hgiven]
    simp only [Finset.mem_singleton]
  rw [Tool.actions, hfilter, List.flatMap_singleton]

/-- The actions in a run of `main` when one letter is given. -/
theorem filter_isAction_of_given (env : Env) (hnodup : tool.letters.Nodup) {cmd : Command}
    (hcmd : cmd ∈ tool.commands) {g : Globals} (hgiven : g.given = {cmd.letter}) :
    ((tool.validateSocSystem env).1 ++ (tool.afterParse env (.ok g)).1).filter Event.isAction =
      if env.mapped then cmd.act.run g.paramValue env.reg else [] := by
  have hnone : (tool.validateSocSystem env).1.filter Event.isAction = [] := by
    rw [List.filter_eq_nil_iff]
    intro e he
    simp [(validateSocSystem_events tool env e he).2]
  rw [List.filter_append, hnone, List.nil_append, Tool.afterParse, access_filter,
    actions_of_given hnodup hcmd hgiven]

end Run

/-! ## One action -/

/-- The events are those of the action, each once: a write stores the byte of
the argument in its register, a read loads its register and prints the fields of
the byte it has loaded, and the help is printed. -/
def Act.Performs (arg : Option (List Char)) (reg : Nat → BitVec 8) (events : List Event) :
    Act → Prop
  | .write offset => ∃ (a : List Char) (byte : BitVec 8), arg = some a ∧
      (byte.toNat : Int) = atoi a % 256 ∧
      (intMin ≤ leadingInt a → leadingInt a ≤ intMax → atoi a = leadingInt a) ∧
      events = [.write offset byte]
  | .read offset fields =>
      events = .read offset (reg offset) ::
        fields.map fun f => .value f.label (f.value (reg offset))
  | .help => events = [.putsHelp, .putsUsage]

/-- What `main` runs is the action, with the parameter that `parse_cmdline` has
stored. -/
theorem Act.performs_run {act : Act} {arg : Option (List Char)} {byte : BitVec 8}
    (reg : Nat → BitVec 8)
    (h : act.isWrite = true → ∃ a, arg = some a ∧ byte = BitVec.ofInt 8 (atoi a)) :
    act.Performs arg reg (act.run byte reg) := by
  cases act with
  | write offset =>
      obtain ⟨a, rfl, rfl⟩ := h rfl
      refine ⟨a, _, rfl, ?_, fun hmin hmax => atoi_of_range hmin hmax, rfl⟩
      rw [BitVec.toNat_ofInt]
      omega
  | read offset fields => rfl
  | help => rfl

/-- The command line decodes without error, into options that are all of the
kind `c` and nothing else. -/
structure OneKind (tool : Tool) (argv : List (List Char)) (c : Char) : Prop where
  ne_nil : (tool.decoded argv).1 ≠ []
  isOpt : ∀ t ∈ (tool.decoded argv).1, t.isOpt = true
  ret : ∀ t ∈ (tool.decoded argv).1, t.ret = c
  left : (tool.decoded argv).2 = []

/-- The argument of the last option. -/
def lastArg (tool : Tool) (argv : List (List Char)) : Option (List Char) :=
  (tool.decoded argv).1.getLast?.bind Token.optarg

section Parse

variable {tool : Tool} {argv : List (List Char)} {c : Char} {g : Globals}

theorem decoded_genuine (tool : Tool) (argv : List (List Char)) :
    ∀ t ∈ (tool.decoded argv).1, t.Genuine tool.options :=
  decode_genuine tool.options false argv.tail

/-- The letters of options are those of commands. -/
theorem ret_mem_letters_of_isOpt (h : tool.Covers) {t : Token} (ht : t ∈ (tool.decoded argv).1)
    (hopt : t.isOpt = true) : t.ret ∈ tool.letters := by
  have hgenuine := decoded_genuine tool argv t ht
  cases t with
  | bad long => contradiction
  | opt long val arg => exact ret_mem_letters h hgenuine

theorem parseCmdline_of_fold (hfold : (tool.decoded argv).1.foldlM tool.handle .initial = .ok g) :
    tool.parseCmdline argv = some (reached tool.handle .initial (tool.decoded argv).1,
      tool.verdict g (tool.decoded argv).2) := by
  rw [Tool.parseCmdline_eq, hfold]
  rfl

end Parse

section Main

variable {tool : Tool} {env : Env} {argv : List (List Char)}

theorem main_of_valid (hvalid : (tool.validateSocSystem env).2 = true)
    {tr : List Token} {r : Except Stop Globals} (hparse : tool.parseCmdline argv = some (tr, r)) :
    tool.main env argv = some ((tool.validateSocSystem env).1 ++ (tool.afterParse env r).1,
      (tool.afterParse env r).2) := by
  rw [Tool.main, if_pos hvalid, hparse, Option.map_some]

end Main

theorem blinkerDevmemTest_covers : blinkerDevmemTest.Covers where
  nodup := by decide
  short := by decide
  long := by decide
  question := by decide

theorem gpioTestDevmem_covers : gpioTestDevmem.Covers where
  nodup := by decide
  short := by decide
  long := by decide
  question := by decide

/-- In `-c -s` the second element is the argument of the first: the byte zero is
written and nothing is read. -/
example : blinkerDevmemTest.parseCmdline ["tool".toList, "-c".toList, "-s".toList] =
    some ([.opt none 'c' (some "-s".toList)], .ok ⟨{'c'}, 0⟩) := by decide

end De1Soc.Devmem
