import De1Soc.Devmem.Lookup

/-!
# De1Soc.Devmem.Outcome

How an invocation of a tool ends, whatever its command line.

An option whose handler takes an argument that it does not have is read through
a null `optarg` (`Tool.Starved`).  The tool of `driver/test` has such an option:
its short `d` has no colon in the option string.  So a run has three ends, and
which of them it is can be read off the command line: a segmentation fault when
a starved option comes before any error, the one action when all options are of
one kind, and a message with status 1 otherwise (`tool_outcomes`).  `/dev/mem`
is opened in the second case only.
-/

namespace De1Soc.Devmem

open Getopt

namespace Tool

/-- The handler takes an argument that the option does not have. -/
def Starved (tool : Tool) (t : Token) : Prop :=
  t.isOpt = true ∧
    ∃ cmd ∈ tool.commands, cmd.letter = t.ret ∧ cmd.takesValue = true ∧ t.optarg = none

/-- A starved option comes, and no error before it. -/
def Starves (tool : Tool) (argv : List (List Char)) : Prop :=
  Comes (·.isOpt = true) tool.Starved (tool.decoded argv).1

theorem ends_iff {tool : Tool} {t : Token} : tool.Ends t ↔ t.isOpt = false ∨ tool.Starved t := by
  unfold Ends Starved
  cases t with
  | bad long => simp [Token.isOpt]
  | opt long val arg => simp [Token.isOpt]

end Tool

/-! ## The loop over any command line -/

section Fold

variable {tool : Tool} {ts : List Token} {g : Globals}

/-- **An option with all that its handler takes** is recorded. -/
theorem handle_of_not_ends (h : tool.Covers) (g : Globals) {t : Token}
    (ht : t.Genuine tool.options) (hends : ¬ tool.Ends t) :
    ∃ cmd ∈ tool.commands, cmd.letter = t.ret ∧
      ∃ g', tool.handle g t = .ok g' ∧ g'.given = insert t.ret g.given ∧
        (cmd.takesValue = true →
          ∃ a, t.optarg = some a ∧ g'.paramValue = BitVec.ofInt 8 (atoi a)) := by
  cases t with
  | bad long => exact absurd (.inl rfl) hends
  | opt long val arg =>
      obtain ⟨cmd, hcmd, hfind, hletter⟩ :=
        exists_command (c := (Token.opt long val arg).ret) (ret_mem_letters h ht)
      refine ⟨cmd, hcmd, hletter, ?_⟩
      rw [Tool.handle, hfind, ← hletter]
      by_cases hvalue : cmd.takesValue = true
      · cases arg with
        | none => exact absurd (.inr ⟨cmd, hcmd, hletter, hvalue, rfl⟩) hends
        | some a => exact ⟨_, if_pos hvalue, rfl, fun _ => ⟨a, rfl, rfl⟩⟩
      · exact ⟨_, if_neg hvalue, rfl, fun hv => absurd hv hvalue⟩

theorem handle_starved (h : tool.Covers) (g : Globals) {t : Token} (ht : t.Genuine tool.options)
    (hstarved : tool.Starved t) : tool.handle g t = .error .nullOptarg := by
  obtain ⟨hopt, cmd, hcmd, hletter, hvalue, harg⟩ := hstarved
  cases t with
  | bad long => contradiction
  | opt long val arg =>
      obtain rfl : arg = none := harg
      obtain ⟨cmd', hcmd', hfind, hletter'⟩ :=
        exists_command (c := (Token.opt long val none).ret) (ret_mem_letters h ht)
      obtain rfl : cmd' = cmd :=
        List.inj_on_of_nodup_map h.nodup hcmd' hcmd (hletter'.trans hletter.symm)
      rw [Tool.handle, hfind]
      exact if_pos hvalue

/-- The first token that ends the program decides how. -/
theorem foldlM_of_comes {stop : Stop} {Q : Token → Prop} (h : tool.Covers)
    (hts : ∀ t ∈ ts, t.Genuine tool.options)
    (hQ : ∀ g, ∀ t ∈ ts, Q t → tool.handle g t = .error stop)
    (hcomes : Comes (¬ tool.Ends ·) Q ts) (g : Globals) :
    ts.foldlM tool.handle g = .error stop := by
  induction ts generalizing g with
  | nil => exact absurd hcomes (not_comes_nil _ _)
  | cons t ts ih =>
      rw [List.forall_mem_cons] at hts
      rw [List.foldlM_cons]
      obtain hfirst | ⟨hends, hrest⟩ := comes_cons.mp hcomes
      · rw [hQ g t (by simp) hfirst]
        rfl
      · obtain ⟨_, _, _, g', hg', _⟩ := handle_of_not_ends h g hts.1 hends
        rw [hg']
        exact ih hts.2 (fun g t ht => hQ g t (by simp [ht])) hrest g'

/-- **When nothing ends the program** the letters of the options are recorded,
and the argument of the last one where its handler takes it. -/
theorem foldlM_of_not_ends (h : tool.Covers) (hts : ∀ t ∈ ts, t.Genuine tool.options)
    (hends : ∀ t ∈ ts, ¬ tool.Ends t) (g : Globals) :
    ∃ g', ts.foldlM tool.handle g = .ok g' ∧ g'.given = g.given ∪ (ts.map Token.ret).toFinset ∧
      ∀ t, ts.getLast? = some t → ∀ cmd ∈ tool.commands, cmd.letter = t.ret →
        cmd.takesValue = true →
          ∃ a, t.optarg = some a ∧ g'.paramValue = BitVec.ofInt 8 (atoi a) := by
  induction ts generalizing g with
  | nil => exact ⟨g, rfl, by simp, by simp⟩
  | cons t ts ih =>
      rw [List.forall_mem_cons] at hts hends
      obtain ⟨cmd, hcmd, hletter, g₁, hg₁, hgiven₁, hparam₁⟩ := handle_of_not_ends h g hts.1 hends.1
      obtain ⟨g', hg', hgiven', hparam'⟩ := ih hts.2 hends.2 g₁
      refine ⟨g', ?_, ?_, ?_⟩
      · rw [List.foldlM_cons, hg₁]
        exact hg'
      · rw [hgiven', hgiven₁, List.map_cons, List.toFinset_cons, Finset.insert_union,
          Finset.union_insert]
      · intro u hu cmd' hcmd' hletter' hvalue
        cases ts with
        | nil =>
            obtain rfl : t = u := by simpa using hu
            obtain rfl : g₁ = g' := Except.ok.inj hg'
            obtain rfl : cmd = cmd' :=
              List.inj_on_of_nodup_map h.nodup hcmd hcmd' (hletter.trans hletter'.symm)
            exact hparam₁ hvalue
        | cons t' ts => exact hparam' u (by simpa using hu) cmd' hcmd' hletter' hvalue

/-- The first of the tokens that end the program. -/
theorem comes_ends (hends : ∃ t ∈ ts, tool.Ends t) : Comes (¬ tool.Ends ·) tool.Ends ts := by
  induction ts with
  | nil => simp at hends
  | cons t ts ih =>
      rw [comes_cons]
      by_cases ht : tool.Ends t
      · exact .inl ht
      · obtain ⟨u, hu, hend⟩ := hends
        obtain rfl | hu := List.mem_cons.mp hu
        · exact absurd hend ht
        · exact .inr ⟨ht, ih ⟨u, hu, hend⟩⟩

/-- A starved option that comes behind options comes before anything else that
ends the program. -/
theorem comes_starved (h : Comes (·.isOpt = true) tool.Starved ts) :
    Comes (¬ tool.Ends ·) tool.Starved ts := by
  induction ts with
  | nil => exact absurd h (not_comes_nil _ _)
  | cons t ts ih =>
      rw [comes_cons] at h ⊢
      by_cases hstarved : tool.Starved t
      · exact .inl hstarved
      · obtain ⟨hopt, hrest⟩ := h.resolve_left hstarved
        refine .inr ⟨?_, ih hrest⟩
        rw [Tool.ends_iff]
        simp [hopt, hstarved]

end Fold

/-! ## `parse_cmdline` on any command line -/

section Parse

variable {tool : Tool} {argv : List (List Char)}

/-- The first token that ends the program is starved, or it is an error. -/
theorem comes_cases (hends : ∃ t ∈ (tool.decoded argv).1, tool.Ends t) :
    tool.Starves argv ∨
      ¬ tool.Starves argv ∧ Comes (¬ tool.Ends ·) (·.isOpt = false) (tool.decoded argv).1 := by
  by_cases hstarves : tool.Starves argv
  · exact .inl hstarves
  · refine .inr ⟨hstarves, ?_⟩
    obtain ⟨pre, t, post, hsplit, hpre, ht⟩ := comes_ends hends
    refine ⟨pre, t, post, hsplit, hpre, (Tool.ends_iff.mp ht).resolve_right fun hstarved => ?_⟩
    refine hstarves ⟨pre, t, post, hsplit, fun u hu => ?_, hstarved⟩
    have hopt : ¬ tool.Ends u := hpre u hu
    rw [Tool.ends_iff, not_or, Bool.not_eq_false] at hopt
    exact hopt.1

/-- Where a starved option comes, not all options are of one kind and fed. -/
theorem not_ends_of_oneKind {c : Char} (hkind : OneKind tool argv c) (h : ¬ tool.Starves argv) :
    ∀ t ∈ (tool.decoded argv).1, ¬ tool.Ends t := by
  intro t ht hend
  obtain hstarves | ⟨_, pre, u, post, hsplit, _, hu⟩ := comes_cases ⟨t, ht, hend⟩
  · exact h hstarves
  · rw [hkind.isOpt u (by simp [hsplit])] at hu
    contradiction

/-- Options of one kind give one letter. -/
theorem given_of_oneKind {g : Globals}
    (hmem : ∀ c, c ∈ g.given ↔ ∃ t ∈ (tool.decoded argv).1, t.ret = c) {c : Char}
    (hkind : OneKind tool argv c) : g.given = {c} := by
  obtain ⟨t, ht⟩ := List.exists_mem_of_ne_nil _ hkind.ne_nil
  ext d
  rw [hmem, Finset.mem_singleton]
  constructor
  · rintro ⟨u, hu, rfl⟩
    exact hkind.ret u hu
  · rintro rfl
    exact ⟨t, ht, hkind.ret t ht⟩

/-- One letter and nothing left are options of one kind. -/
theorem oneKind_of_card {g : Globals}
    (hmem : ∀ c, c ∈ g.given ↔ ∃ t ∈ (tool.decoded argv).1, t.ret = c)
    (hopt : ∀ t ∈ (tool.decoded argv).1, t.isOpt = true) (hleft : (tool.decoded argv).2 = [])
    (hcard : g.given.card = 1) : ∃ c, OneKind tool argv c := by
  obtain ⟨c, hc⟩ := Finset.card_eq_one.mp hcard
  have hsingle : ∀ d, (∃ t ∈ (tool.decoded argv).1, t.ret = d) ↔ d = c := by
    intro d
    rw [← hmem, hc, Finset.mem_singleton]
  obtain ⟨t, ht, _⟩ := (hsingle c).mpr rfl
  exact ⟨c, List.ne_nil_of_mem ht, hopt, fun t ht => (hsingle t.ret).mp ⟨t, ht, rfl⟩, hleft⟩

/-- **`parse_cmdline`** reads through a null pointer, accepts one kind of option,
or ends the program with a message. -/
theorem parseCmdline_trichotomy (h : tool.Covers) (argv : List (List Char)) :
    (tool.Starves argv ∧ ∃ tr, tool.parseCmdline argv = some (tr, .error .nullOptarg)) ∨
    (¬ tool.Starves argv ∧ (¬ ∃ c, OneKind tool argv c) ∧
      ∃ tr extra message, tool.parseCmdline argv = some (tr, .error (.error extra message))) ∨
    (¬ tool.Starves argv ∧ ∃ cmd ∈ tool.commands, OneKind tool argv cmd.letter ∧
      ∃ tr g, tool.parseCmdline argv = some (tr, .ok g) ∧ g.given = {cmd.letter} ∧
        (cmd.takesValue = true →
          ∃ a, lastArg tool argv = some a ∧ g.paramValue = BitVec.ofInt 8 (atoi a))) := by
  have hgenuine := decoded_genuine tool argv
  by_cases hends : ∃ t ∈ (tool.decoded argv).1, tool.Ends t
  · obtain hstarves | ⟨hstarves, hbad⟩ := comes_cases hends
    · refine .inl ⟨hstarves, ?_⟩
      rw [Tool.parseCmdline_eq, foldlM_of_comes h hgenuine
        (fun g t ht hstarved => handle_starved h g (hgenuine t ht) hstarved)
        (comes_starved hstarves)]
      exact ⟨_, rfl⟩
    · refine .inr (.inl ⟨hstarves, ?_, ?_⟩)
      · rintro ⟨c, hkind⟩
        obtain ⟨t, ht, hend⟩ := hends
        exact not_ends_of_oneKind hkind hstarves t ht hend
      · have hwrong : ∀ g, ∀ t ∈ (tool.decoded argv).1, t.isOpt = false →
            tool.handle g t = .error wrongOptions := by
          intro g t _ ht
          cases t with
          | bad long => exact handle_bad h long
          | opt long val arg => contradiction
        rw [Tool.parseCmdline_eq, foldlM_of_comes h hgenuine hwrong hbad]
        exact ⟨_, _, _, rfl⟩
  · have hfed : ∀ t ∈ (tool.decoded argv).1, ¬ tool.Ends t := fun t ht hend => hends ⟨t, ht, hend⟩
    have hopt : ∀ t ∈ (tool.decoded argv).1, t.isOpt = true := by
      intro t ht
      have hend := hfed t ht
      rw [Tool.ends_iff] at hend
      rw [not_or, Bool.not_eq_false] at hend
      exact hend.1
    have hstarves : ¬ tool.Starves argv := by
      rintro ⟨pre, t, post, hsplit, _, hstarved⟩
      exact hfed t (by simp [hsplit]) (Tool.ends_iff.mpr (.inr hstarved))
    obtain ⟨g, hfold, hgiven, hparam⟩ := foldlM_of_not_ends h hgenuine hfed .initial
    have hmem : ∀ c, c ∈ g.given ↔ ∃ t ∈ (tool.decoded argv).1, t.ret = c := by
      simp [hgiven, Globals.initial]
    have hcount : tool.actionCount g = g.given.card := by
      refine actionCount_eq_card h.nodup fun c hc => ?_
      obtain ⟨t, ht, rfl⟩ := (hmem c).mp hc
      exact ret_mem_letters_of_isOpt h ht (hopt t ht)
    have hparse := parseCmdline_of_fold hfold
    by_cases hkind : ∃ c, OneKind tool argv c
    · obtain ⟨c, hkind⟩ := hkind
      obtain ⟨t, hlast⟩ : ∃ t, (tool.decoded argv).1.getLast? = some t :=
        ⟨_, List.getLast?_eq_some_getLast hkind.ne_nil⟩
      have ht : t ∈ (tool.decoded argv).1 := List.mem_of_getLast? hlast
      obtain ⟨cmd, hcmd, _, hletter⟩ :=
        exists_command (ret_mem_letters_of_isOpt h ht (hopt t ht))
      obtain rfl : c = cmd.letter := (hkind.ret t ht).symm.trans hletter.symm
      have hone := given_of_oneKind hmem hkind
      rw [hone, Finset.card_singleton] at hcount
      rw [hkind.left, verdict_eq_ok hcount] at hparse
      refine .inr (.inr ⟨hstarves, cmd, hcmd, hkind, _, g, hparse, hone, fun hvalue => ?_⟩)
      obtain ⟨a, ha, hbyte⟩ := hparam t hlast cmd hcmd hletter hvalue
      exact ⟨a, by rw [lastArg, hlast, Option.bind_some, ha], hbyte⟩
    · refine .inr (.inl ⟨hstarves, hkind, ?_⟩)
      have hleft : (tool.decoded argv).2 ≠ [] ∨ tool.actionCount g ≠ 1 := by
        by_contra hboth
        rw [not_or, not_not, not_not] at hboth
        exact hkind (oneKind_of_card hmem hopt hboth.1 (hcount.symm.trans hboth.2))
      obtain ⟨extra, message, hverdict⟩ := verdict_eq_error hleft
      exact ⟨_, extra, message, by rw [hparse, hverdict]⟩

end Parse

/-! ## The ends of a run -/

/-- **How a run ends**, by its command line and what it finds of the system. -/
structure Tool.Outcome (tool : Tool) (env : Env) (argv : List (List Char)) (events : List Event)
    (exit : Exit) : Prop where
  ends : exit = .segfault ∨ exit = .status 0 ∨ exit = .status 1
  segfault : exit = .segfault ↔ (tool.validateSocSystem env).2 = true ∧ tool.Starves argv
  success : exit = .status 0 ↔ (tool.validateSocSystem env).2 = true ∧ ¬ tool.Starves argv ∧
    (∃ c, OneKind tool argv c) ∧ env.mapped = true ∧ env.munmap = true
  opens : .openMem ∈ events ↔ (tool.validateSocSystem env).2 = true ∧ ¬ tool.Starves argv ∧
    ∃ c, OneKind tool argv c
  closes : .openMem ∈ events → env.openMem = true → events.getLast? = some .closeMem
  leaves : .openMem ∉ events → ∀ e ∈ events, e.isMem = false
  acts : .openMem ∈ events → ∃ cmd ∈ tool.commands, OneKind tool argv cmd.letter ∧
    (env.mapped = true →
      cmd.act.Performs (lastArg tool argv) env.reg (events.filter Event.isAction)) ∧
    (env.mapped = false → events.filter Event.isAction = []) ∧
    (cmd.takesValue = true → ∃ a, lastArg tool argv = some a)

section Main

variable {tool : Tool} {env : Env} {argv : List (List Char)}

/-- A run that ends before `/dev/mem` is opened. -/
theorem outcome_of_no_mem {events : List Event} {exit : Exit}
    (hmem : ∀ e ∈ events, e.isMem = false)
    (hno : ¬ ((tool.validateSocSystem env).2 = true ∧ ¬ tool.Starves argv ∧
      ∃ c, OneKind tool argv c))
    (hexit : exit = .segfault ∧ (tool.validateSocSystem env).2 = true ∧ tool.Starves argv ∨
      exit = .status 1 ∧ ¬ ((tool.validateSocSystem env).2 = true ∧ tool.Starves argv)) :
    tool.Outcome env argv events exit := by
  have hopen : .openMem ∉ events := by
    intro h
    have hfalse := hmem _ h
    contradiction
  refine ⟨?_, ?_, ?_, iff_of_false hopen hno, fun h => absurd h hopen, fun _ => hmem,
    fun h => absurd h hopen⟩
  · obtain ⟨rfl, _⟩ | ⟨rfl, _⟩ := hexit <;> simp
  · obtain ⟨rfl, h⟩ | ⟨rfl, h⟩ := hexit
    · exact iff_of_true rfl h
    · exact iff_of_false (by simp) h
  · refine iff_of_false ?_ fun h => hno ⟨h.1, h.2.1, h.2.2.1⟩
    obtain ⟨rfl, _⟩ | ⟨rfl, _⟩ := hexit <;> simp

/-- `main` behind `parse_cmdline` opens `/dev/mem`, succeeds when all its calls
do, and closes what it has opened. -/
theorem access_ends (tool : Tool) (env : Env) (g : Globals) :
    .openMem ∈ (tool.access env g).1 ∧
      ((tool.access env g).2 = .status 0 ∧ env.mapped = true ∧ env.munmap = true ∨
        (tool.access env g).2 = .status 1 ∧ ¬ (env.mapped = true ∧ env.munmap = true)) ∧
      (env.openMem = true → (tool.access env g).1.getLast? = some .closeMem) := by
  unfold Tool.access Env.mapped
  cases env.openMem with
  | false => simp
  | true =>
      cases env.mmap with
      | false => simp
      | true =>
          cases env.munmap with
          | false => simp [List.getLast?_cons, List.getLast?_append]
          | true => simp [List.getLast?_cons, List.getLast?_append]

/-- **Every command line has its outcome**, in a tool that declares its
commands. -/
theorem outcome_of_covers (h : tool.Covers)
    (hw : ∀ cmd ∈ tool.commands, cmd.act.isWrite = true → cmd.takesValue = true) (env : Env)
    (argv : List (List Char)) :
    ∃ events exit, tool.main env argv = some (events, exit) ∧ tool.Outcome env argv events exit := by
  have hvalidate := validateSocSystem_events tool env
  by_cases hvalid : (tool.validateSocSystem env).2 = true
  · obtain ⟨hstarves, tr, hparse⟩ | ⟨hstarves, hkind, tr, extra, message, hparse⟩ |
      ⟨hstarves, cmd, hcmd, hkind, tr, g, hparse, hgiven, hparam⟩ := parseCmdline_trichotomy h argv
    · refine ⟨_, _, main_of_valid hvalid hparse, outcome_of_no_mem ?_ (fun h => h.2.1 hstarves)
        (.inl ⟨rfl, hvalid, hstarves⟩)⟩
      simpa [Tool.afterParse, Stop.run] using fun e he => (hvalidate e he).1
    · obtain ⟨hstatus, hmem⟩ := Stop.run_error extra message
      refine ⟨_, _, main_of_valid hvalid hparse, outcome_of_no_mem ?_ (fun h => hkind h.2.2)
        (.inr ⟨hstatus, fun h => hstarves h.2⟩)⟩
      exact List.forall_mem_append.mpr ⟨fun e he => (hvalidate e he).1, hmem⟩
    · obtain ⟨hopen, hexit, hclose⟩ := access_ends tool env g
      have hopens : .openMem ∈ (tool.validateSocSystem env).1 ++ (tool.afterParse env (.ok g)).1 :=
        List.mem_append_right _ hopen
      have hcase : (tool.validateSocSystem env).2 = true ∧ ¬ tool.Starves argv ∧
          ∃ c, OneKind tool argv c := ⟨hvalid, hstarves, _, hkind⟩
      refine ⟨_, _, main_of_valid hvalid hparse, ?_, ?_, ?_, iff_of_true hopens hcase, ?_,
        fun hno => absurd hopens hno, fun _ => ⟨cmd, hcmd, hkind, fun hmapped => ?_, fun hno => ?_,
          fun hvalue => ?_⟩⟩
      · obtain ⟨hexit, _⟩ | ⟨hexit, _⟩ := hexit
        · exact .inr (.inl hexit)
        · exact .inr (.inr hexit)
      · refine iff_of_false ?_ fun h => hstarves h.2
        obtain ⟨hexit, _⟩ | ⟨hexit, _⟩ := hexit <;> simp [Tool.afterParse, hexit]
      · obtain ⟨hexit, hok⟩ | ⟨hexit, hok⟩ := hexit
        · exact iff_of_true hexit ⟨hvalid, hstarves, ⟨_, hkind⟩, hok⟩
        · refine iff_of_false ?_ fun h => hok h.2.2.2
          simp [Tool.afterParse, hexit]
      · intro _ hmem
        rw [List.getLast?_append, Tool.afterParse, hclose hmem]
        rfl
      · rw [filter_isAction_of_given env h.nodup hcmd hgiven, if_pos hmapped]
        exact Act.performs_run env.reg fun hwrite => hparam (hw cmd hcmd hwrite)
      · rw [filter_isAction_of_given env h.nodup hcmd hgiven, if_neg (by simp [hno])]
      · obtain ⟨a, ha, _⟩ := hparam hvalue
        exact ⟨a, ha⟩
  · refine ⟨_, _, if_neg hvalid, outcome_of_no_mem (fun e he => (hvalidate e he).1)
      (fun h => hvalid h.1) (.inr ⟨rfl, fun h => hvalid h.1⟩)⟩

end Main

/-! ## Starved options of the three tools -/

section Starved

variable {tool : Tool} {argv : List (List Char)}

/-- Where every handler gets what it takes, none is starved. -/
theorem not_starves_of_supplies (hs : ∀ c, tool.Supplies c) : ¬ tool.Starves argv := by
  rintro ⟨pre, t, post, hsplit, _, hopt, cmd, hcmd, hletter, hvalue, harg⟩
  have hgenuine := decoded_genuine tool argv t (by simp [hsplit])
  cases t with
  | bad long => contradiction
  | opt long val arg =>
      obtain ⟨a, rfl⟩ := optarg_isSome (hs val cmd hcmd hletter hvalue) hgenuine
      contradiction

end Starved

/-- **The short `d`** is starved, and nothing else is. -/
theorem starved_driverTest_iff {t : Token} (ht : t.Genuine driverTest.options) :
    driverTest.Starved t ↔ t = .opt none 'd' none := by
  constructor
  · rintro ⟨hopt, cmd, hcmd, hletter, hvalue, harg⟩
    cases t with
    | bad long => contradiction
    | opt long val arg =>
        obtain rfl : arg = none := harg
        obtain rfl : cmd.letter = val := hletter
        cases long with
        | some name =>
            obtain ⟨o, ho, hret, hfits⟩ := ht
            have hrequired : ∀ o ∈ driverTest.options.long, ∀ cmd ∈ driverTest.commands,
                cmd.letter = o.ret → cmd.takesValue = true → o.hasArg = .required := by decide
            rw [hrequired o (mem_of_lookup ho) cmd hcmd hret hvalue] at hfits
            contradiction
        | none =>
            obtain ⟨k, hk, hfits⟩ := ht
            have hshort : ∀ cmd ∈ driverTest.commands, cmd.takesValue = true → cmd.letter = 'd' ∨
                shortArg driverTest.options.short cmd.letter = some .required := by decide
            obtain hd | hrequired := hshort cmd hcmd hvalue
            · rw [hd]
            · obtain rfl : HasArg.required = k := Option.some.inj (hrequired.symm.trans hk)
              contradiction
  · rintro rfl
    exact ⟨rfl, by decide⟩

theorem starves_driverTest_iff (argv : List (List Char)) :
    driverTest.Starves argv ↔
      Comes (·.isOpt = true) (· = .opt none 'd' none) (driverTest.decoded argv).1 := by
  have hgenuine := decoded_genuine driverTest argv
  constructor
  · rintro ⟨pre, t, post, hsplit, hpre, ht⟩
    exact ⟨pre, t, post, hsplit, hpre,
      (starved_driverTest_iff (hgenuine t (by simp [hsplit]))).mp ht⟩
  · rintro ⟨pre, t, post, hsplit, hpre, ht⟩
    exact ⟨pre, t, post, hsplit, hpre,
      (starved_driverTest_iff (hgenuine t (by simp [hsplit]))).mpr ht⟩

/-- **The outcomes of the three tools.**  Every command line of each of them has
one of the three ends; the first two never read through a null pointer, and the
third does exactly when a short `d` comes before any error. -/
theorem tool_outcomes (env : Env) (argv : List (List Char)) :
    (∃ events exit, blinkerDevmemTest.main env argv = some (events, exit) ∧
      blinkerDevmemTest.Outcome env argv events exit) ∧ ¬ blinkerDevmemTest.Starves argv ∧
    (∃ events exit, gpioTestDevmem.main env argv = some (events, exit) ∧
      gpioTestDevmem.Outcome env argv events exit) ∧ ¬ gpioTestDevmem.Starves argv ∧
    (∃ events exit, driverTest.main env argv = some (events, exit) ∧
      driverTest.Outcome env argv events exit) ∧
    (driverTest.Starves argv ↔
      Comes (·.isOpt = true) (· = .opt none 'd' none) (driverTest.decoded argv).1) :=
  ⟨outcome_of_covers blinkerDevmemTest_covers (by decide) env argv,
    not_starves_of_supplies (supplies_of_forall (by decide)),
    outcome_of_covers gpioTestDevmem_covers (by decide) env argv,
    not_starves_of_supplies (supplies_of_forall (by decide)),
    outcome_of_covers driverTest_covers (by decide) env argv, starves_driverTest_iff argv⟩

/-- `-d 5` is a segmentation fault in the tool of `driver/test`. -/
example : (driverTest.parseCmdline ["tool".toList, "-d".toList, "5".toList]) =
    some ([.opt none 'd' none], .error .nullOptarg) := by decide

end De1Soc.Devmem
